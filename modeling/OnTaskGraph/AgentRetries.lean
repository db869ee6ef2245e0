import OnTaskGraph.AgentLoop

/-! How the loop of the bootstrap agent ends, how it waits between two posts of one report,
and that it gets back to asking for tasks when its requests succeed. -/

namespace OnTaskGraph.Bootstrap

section Statements

variable {N : Type}

def Note.fails : Note N → Option Nat
  | .failed k _ => some k
  | _ => none

def posts (log : List (Note N)) (k : Nat) : Nat := (log.filterMap Note.posts).count k

def failures (log : List (Note N)) (k : Nat) : Nat := (log.filterMap Note.fails).count k

/-- A list is posted again as it was, once after each failure, and later each time. -/
def BacksOff (timeout : Nat) : Note N → List (Note N) → Prop
  | .post k data, earlier => posts earlier k = failures earlier k ∧ ∀ d, .post k d ∈ earlier → d = data
  | .failed k wait, earlier =>
    posts earlier k = failures earlier k + 1 ∧ wait = min (timeout * posts earlier k) maxRetryTimeout
  | _, _ => True

/-- The process has ended. -/
def Phase.Over : Phase N → Prop
  | .exited _ | .crashed => True
  | _ => False

theorem Phase.Over.posting {phase : Phase N} (h : phase.Over) : phase.posting = none := by
  cases phase with
  | exited | crashed => rfl
  | _ => cases h

section Counting

variable {l : List (Note N)} {x : Note N}

theorem posts_cons (h : x.posts = none) (k : Nat) : posts (x :: l) k = posts l k := by
  simp [posts, h]

theorem failures_cons (h : x.fails = none) (k : Nat) : failures (x :: l) k = failures l k := by
  simp [failures, h]

end Counting

end Statements

section Steps

variable {N : Type} [DecidableEq N] [Zero N]

/-- How far the agent is, given the lists that it has executed: only the last one may tell
it to exit, and it does so when that list has been posted. -/
def Outcome (lists : List (Data N)) : Phase N → Prop
  | .exited code => ∃ before data, lists = before ++ [data] ∧ (∀ d ∈ before, d.exit = .undefined) ∧
      data.exit ≠ .undefined ∧ data.exit ≠ .null ∧ code = data.exitCode
  | .crashed => ∃ before data, lists = before ++ [data] ∧ (∀ d ∈ before, d.exit = .undefined) ∧ data.exit = .null
  | .updateTasks _ data _ _ | .retrying _ data _ =>
    ∃ before, lists = before ++ [data] ∧ ∀ d ∈ before, d.exit = .undefined
  | .complete => False
  | .sleeping | .getTasks _ | .executeTasks .. => ∀ d ∈ lists, d.exit = .undefined

namespace Loop

variable {s t : Loop N} {timeout : Nat}

theorem outcome_execute (given : Data N) (agent : Agent N) (h : ∀ d ∈ executed s.log, d.exit = .undefined)
    (hposted : Reposted agent.log) :
    Outcome (executed (s.execute given agent).log) (s.execute given agent).phase := by
  unfold execute
  split
  · exact h
  · rename_i tasks rest hsome
    have htasks := hposted tasks (by simp [hsome])
    refine ⟨executed s.log, ?_, h⟩
    simp [updateTasks, Data.posted, htasks]

theorem outcome_postEnd (htimeout : timeout ≠ 0) {k : Nat} {data : Data N} {before : List (Data N)}
    (hlists : executed s.log = before ++ [data]) (hbefore : ∀ d ∈ before, d.exit = .undefined) :
    Outcome (executed (s.postEnd timeout k data).log) (s.postEnd timeout k data).phase := by
  unfold postEnd
  by_cases hexit : data.exit = .undefined
  · rw [if_pos ⟨htimeout, hexit⟩]
    intro d hd
    rw [executed_answered, hlists, List.mem_append, List.mem_singleton] at hd
    rcases hd with hd | rfl
    · exact hbefore d hd
    · exact hexit
  · rw [if_neg fun h => hexit h.2]
    split
    · rename_i hnull
      exact ⟨before, data, by simpa using hlists, hbefore, hnull.resolve_left hexit⟩
    · rename_i hcode
      rw [not_or] at hcode
      exact ⟨before, data, by simpa using hlists, hbefore, hexit, hcode.2, rfl⟩

theorem step_outcome (htimeout : timeout ≠ 0) {a : Action N} (h : s.step timeout a = some t) (hinv : s.Inv)
    (hs : Outcome (executed s.log) s.phase) : Outcome (executed t.log) t.phase := by
  cases moved_of_step h with
  | wake hphase =>
    rw [hphase] at hs
    exact hs
  | serveTasks answer hphase =>
    rw [hphase] at hs
    exact hs
  | noTasks hphase =>
    rw [hphase] at hs
    simp only [noTasks, if_pos htimeout]
    exact hs
  | tasksEnd data hphase =>
    rw [hphase] at hs
    exact outcome_execute data _ hs (reposted_executeTasks data.tasks)
  | tasksError answer hphase =>
    rw [hphase] at hs
    simp only [noTasks, if_pos htimeout]
    exact hs
  | fire firing given agent next hphase hnext =>
    rw [hphase] at hs
    exact outcome_execute given next hs (Agent.reposted_step hnext (hinv.reposted hphase).2)
  | servePost k data retries hphase =>
    rw [hphase] at hs
    simpa [Outcome] using hs
  | postEnd k data retries hphase =>
    rw [hphase] at hs
    obtain ⟨before, hlists, hbefore⟩ := hs
    exact outcome_postEnd htimeout hlists hbefore
  | postError k data retries arrived hphase =>
    rw [hphase] at hs
    simpa [Outcome, postError] using hs
  | retry k data retries hphase =>
    obtain ⟨-, -, hposted⟩ := hinv.posting k data retries (by rw [hphase]; rfl)
    rw [hphase] at hs
    simpa [Outcome, updateTasks, hposted] using hs
  | lateServe i k data hi => simpa using hs

end Loop

/-- When nothing is being posted, every list has been posted and the post answered. -/
theorem Loop.Inv.all_answered {s : Loop N} (h : s.Inv) (hidle : s.phase.posting = none) :
    ∀ k < (executed s.log).length, .answered k ∈ s.log := by
  intro k hk
  apply h.answered k
  rw [Loop.channel_of_idle hidle]
  rwa [h.numbered] at hk

/-- The agent goes on until it has posted a list that tells it to exit, and then ends with
the code of that list; before it ends, the post of every list has been answered. -/
theorem ends_when_told (timeout : Nat) (htimeout : timeout ≠ 0) (actions : List (Action N)) (s : Loop N)
    (h : Lts.exec (Loop.step timeout) .start actions = some s) :
    Outcome (executed s.log) s.phase ∧
      (s.phase.Over → ∀ k < (executed s.log).length, .answered k ∈ s.log ∧
        ∃ data, (executed s.log)[k]? = some data ∧ .respond k data ∈ s.log) := by
  obtain ⟨hinv, houtcome⟩ := Lts.invariant (fun u : Loop N => u.Inv ∧ Outcome (executed u.log) u.phase)
    (fun _ _ _ hstep hu => ⟨Loop.step_inv hstep hu.1, Loop.step_outcome htimeout hstep hu.1 hu.2⟩)
    ⟨Loop.start_inv, by simp [Outcome, Loop.start, executed, Note.report]⟩ h
  refine ⟨houtcome, fun hover k hk => ?_⟩
  have hanswered := hinv.all_answered hover.posting k hk
  obtain ⟨later, earlier, hlog, data, hrespond⟩ := hinv.chronicle.exists_of_mem hanswered
  have hmem : .respond k data ∈ s.log := by
    rw [hlog]
    exact List.mem_append_right _ (List.mem_cons_of_mem _ hrespond)
  exact ⟨hanswered, data, executed_of_respond hinv.chronicle hmem, hmem⟩

theorem ends_when_told_lossy : ∃ s : Loop Nat, Lts.exec (Loop.step 5000) .start lossyRun = some s ∧
    Outcome (executed s.log) s.phase ∧ s.phase.Over ∧ .answered 0 ∈ s.log :=
  have hrun := ends_when_told 5000 (by decide) lossyRun _ rfl
  ⟨_, rfl, hrun.1, trivial, (hrun.2 trivial 0 (by decide)).1⟩

/-- The posts and failures of the list that is being posted; there are none of later ones. -/
structure Loop.Counts (timeout : Nat) (s : Loop N) : Prop where
  chronicle : History.Chronicle (BacksOff timeout) s.log
  updating : ∀ k data retries arrived, s.phase = .updateTasks k data retries arrived →
    failures s.log k = retries ∧ posts s.log k = retries + 1
  retrying : ∀ k data retries, s.phase = .retrying k data retries →
    failures s.log k = retries ∧ posts s.log k = retries
  later : ∀ k, s.count ≤ k → failures s.log k = 0 ∧ posts s.log k = 0

namespace Loop

variable {s t : Loop N} {timeout : Nat}

omit [DecidableEq N] [Zero N] in
theorem Counts.idle (h : s.Counts timeout) {u : Loop N} (hlog : u.log = s.log) (hcount : u.count = s.count)
    (hidle : u.phase.posting = none) : u.Counts timeout where
  chronicle := hlog ▸ h.chronicle
  updating := by
    intro k data retries arrived hp
    rw [hp] at hidle
    cases hidle
  retrying := by
    intro k data retries hp
    rw [hp] at hidle
    cases hidle
  later := by
    intro k hk
    rw [hlog]
    exact h.later k (by omega)

omit [DecidableEq N] [Zero N] in
/-- A note that is about no post. -/
theorem Counts.note (h : s.Counts timeout) {x : Note N} (hposts : x.posts = none) (hfails : x.fails = none) :
    Counts timeout { s with log := x :: s.log } := by
  have hp := posts_cons (l := s.log) hposts
  have hf := failures_cons (l := s.log) hfails
  refine ⟨⟨?_, h.chronicle⟩, ?_, ?_, ?_⟩
  · cases x with
    | post => cases hposts
    | failed => cases hfails
    | _ => trivial
  · simpa only [hp, hf] using h.updating
  · simpa only [hp, hf] using h.retrying
  · simpa only [hp, hf] using h.later

omit [DecidableEq N] [Zero N] in
theorem Counts.offer (h : s.Counts timeout) (given : Data N) (tasks : List (Task N)) (events : List (Event N)) :
    (s.offered given tasks events).Counts timeout := by
  have hnote := h.note (x := .executed given { given with tasks := tasks } events) rfl rfl
  have hfresh := hnote.later s.count (Nat.le_refl _)
  refine ⟨hnote.chronicle, ?_, ?_, ?_⟩
  · intro k data retries arrived hp
    cases hp
  · intro k data retries hp
    simp only [offered, Phase.retrying.injEq] at hp
    obtain ⟨rfl, rfl, rfl⟩ := hp
    exact hfresh
  · intro k hk
    exact hnote.later k (Nat.le_of_succ_le hk)

theorem Counts.updateTasks (h : s.Counts timeout) (hinv : s.Inv) {k retries : Nat} {data : Data N}
    (hphase : s.phase = .retrying k data retries) : (s.updateTasks k data retries).Counts timeout := by
  obtain ⟨hcount, hdata, hposted⟩ := hinv.posting k data retries (by rw [hphase]; rfl)
  obtain ⟨hfailures, hposts⟩ := h.retrying k data retries hphase
  have hf := failures_cons (x := .post k data.posted) (l := s.log) rfl
  have hp : ∀ j, posts (.post k data.posted :: s.log) j = posts s.log j + if k = j then 1 else 0 := by
    intro j
    simp [posts, Note.posts, List.count_cons]
  refine ⟨⟨⟨by rw [hposts, hfailures], ?_⟩, h.chronicle⟩, ?_, ?_, ?_⟩
  · intro d hd
    have heq := executed_of_post hinv.chronicle hd
    rw [hdata] at heq
    rw [hposted]
    exact (Option.some.inj heq).symm
  · intro j d r arrived hphase'
    simp only [Loop.updateTasks, Phase.updateTasks.injEq] at hphase'
    obtain ⟨rfl, rfl, rfl, -⟩ := hphase'
    refine ⟨(hf _).trans hfailures, ?_⟩
    rw [Loop.updateTasks, hp, if_pos rfl, hposts]
  · intro j d r hphase'
    cases hphase'
  · intro j hj
    have hlater := h.later j hj
    have hne : k ≠ j := by
      have hle : s.count ≤ j := hj
      omega
    rw [Loop.updateTasks, hf, hp, if_neg hne]
    exact hlater

theorem Counts.postError (h : s.Counts timeout) (hinv : s.Inv) {k retries : Nat} {data : Data N} {arrived : Bool}
    (hphase : s.phase = .updateTasks k data retries arrived) :
    (s.postError timeout k data retries arrived).Counts timeout := by
  obtain ⟨hcount, -, -⟩ := hinv.posting k data retries (by rw [hphase]; rfl)
  obtain ⟨hfailures, hposts⟩ := h.updating k data retries arrived hphase
  have hf : ∀ j wait, failures (.failed k wait :: s.log) j = failures s.log j + if k = j then 1 else 0 := by
    intro j wait
    simp [failures, Note.fails, List.count_cons]
  have hp := fun wait => posts_cons (x := .failed k wait) (l := s.log) rfl
  refine ⟨⟨⟨by omega, by rw [hposts]⟩, h.chronicle⟩, ?_, ?_, ?_⟩
  · intro j d r b hphase'
    cases hphase'
  · intro j d r hphase'
    simp only [Loop.postError, Phase.retrying.injEq] at hphase'
    obtain ⟨rfl, rfl, rfl⟩ := hphase'
    rw [Loop.postError, hf, hp _ k, if_pos rfl]
    exact ⟨by omega, hposts⟩
  · intro j hj
    have hlater := h.later j hj
    have hne : k ≠ j := by
      have hle : s.count ≤ j := hj
      omega
    rw [Loop.postError, hf, hp, if_neg hne]
    exact hlater

theorem Counts.execute (h : s.Counts timeout) (hinv : s.Inv) (hidle : s.phase.posting = none) {given : Data N}
    {agent : Agent N} (hagent : agent.Inv given.tasks) (hposted : Reposted agent.log) :
    (s.execute given agent).Counts timeout := by
  obtain ⟨-, heq⟩ | ⟨tasks, hone, heq⟩ := execute_cases s hagent
  · rw [heq]
    exact h.idle rfl rfl rfl
  · rw [heq]
    have hoffer := h.offer given tasks agent.log
    exact hoffer.updateTasks (hinv.offer hidle hagent hone (hposted tasks (by simp [hone]))) rfl

theorem Counts.postEnd (h : s.Counts timeout) (k : Nat) (data : Data N) :
    (s.postEnd timeout k data).Counts timeout := by
  have hnote := h.note (x := .answered k) rfl rfl
  unfold Loop.postEnd
  split
  · exact hnote.idle rfl rfl rfl
  · split
    · exact hnote.idle rfl rfl rfl
    · have hexit := hnote.note (x := .exit data.exitCode) rfl rfl
      exact hexit.idle rfl rfl rfl

theorem step_counts {a : Action N} (h : s.step timeout a = some t) (hinv : s.Inv) (hs : s.Counts timeout) :
    t.Counts timeout := by
  have hquiet : (s.noTasks timeout).phase.posting = none := by
    unfold noTasks
    split <;> rfl
  cases moved_of_step h with
  | wake hphase =>
    have hnote := hs.note (x := .getTasks) rfl rfl
    exact hnote.idle rfl rfl rfl
  | serveTasks answer hphase => exact hs.idle rfl rfl rfl
  | noTasks hphase => exact hs.idle rfl rfl hquiet
  | tasksEnd data hphase =>
    exact hs.execute hinv (by rw [hphase]; rfl) (Agent.executeTasks_inv data.tasks)
      (reposted_executeTasks data.tasks)
  | tasksError answer hphase => exact hs.idle rfl rfl hquiet
  | fire firing given agent next hphase hnext =>
    obtain ⟨hagent, hposted⟩ := hinv.reposted hphase
    exact hs.execute hinv (by rw [hphase]; rfl) (Agent.step_inv hnext hagent) (Agent.reposted_step hnext hposted)
  | servePost k data retries hphase =>
    have hnote := hs.note (x := .respond k data) rfl rfl
    refine ⟨hnote.chronicle, ?_, nofun, hnote.later⟩
    intro j d r arrived hp
    simp only [Phase.updateTasks.injEq] at hp
    obtain ⟨rfl, rfl, rfl, -⟩ := hp
    exact hnote.updating k data retries false hphase
  | postEnd k data retries hphase => exact hs.postEnd _ _
  | postError k data retries arrived hphase => exact hs.postError hinv hphase
  | retry k data retries hphase => exact hs.updateTasks hinv hphase
  | lateServe i k data hi =>
    have hnote := hs.note (x := .respond k data) rfl rfl
    exact ⟨hnote.chronicle, hnote.updating, hnote.retrying, hnote.later⟩

omit [DecidableEq N] [Zero N] in
theorem start_counts : (start : Loop N).Counts timeout where
  chronicle := ⟨trivial, trivial⟩
  updating := nofun
  retrying := nofun
  later := fun _ _ => ⟨rfl, rfl⟩

end Loop

/-- A report is posted once and once more after each failure, always as it was, and after
its n-th failure the agent waits n times its timeout, but never longer than a minute. -/
theorem reports_back_off (timeout : Nat) (actions : List (Action N)) (s : Loop N)
    (h : Lts.exec (Loop.step timeout) .start actions = some s) : History.Chronicle (BacksOff timeout) s.log := by
  have hboth := Lts.invariant (fun u : Loop N => u.Inv ∧ u.Counts timeout)
    (fun _ _ _ hstep hu => ⟨Loop.step_inv hstep hu.1, Loop.step_counts hstep hu.1 hu.2⟩)
    ⟨Loop.start_inv, Loop.start_counts⟩ h
  exact hboth.2.chronicle

theorem reports_back_off_lossy : ∃ s : Loop Nat, Lts.exec (Loop.step 5000) .start lossyRun = some s ∧
    History.Chronicle (BacksOff 5000) s.log :=
  ⟨_, rfl, reports_back_off 5000 lossyRun _ rfl⟩

/-! ### Progress -/

/-- The agent waits for its timer or for a task list, or has ended. -/
def Phase.rests : Phase N → Bool
  | .sleeping | .getTasks none | .exited _ | .crashed | .complete => true
  | _ => false

/-- A request or a command that ends, and is answered. -/
def Action.goesOn : Action N → Bool
  | .tasksEnd | .fire _ | .servePost | .postEnd | .retry => true
  | _ => false

/-- A bound on the steps until the agent rests, if no request fails. -/
def Phase.left : Phase N → Nat
  | .executeTasks _ agent => agent.left + 3
  | .retrying .. => 3
  | .updateTasks _ _ _ false => 2
  | .updateTasks _ _ _ true => 1
  | .getTasks (some (some data)) => 2 * data.tasks.length + 4
  | .getTasks (some none) => 1
  | _ => 0

namespace Loop

variable {s t : Loop N} {timeout : Nat}

theorem left_execute {given : Data N} {agent : Agent N} (hagent : agent.Inv given.tasks) :
    (s.execute given agent).phase.left ≤ agent.left + 3 := by
  obtain ⟨-, heq⟩ | ⟨tasks, -, heq⟩ := execute_cases s hagent
  · rw [heq]
    exact Nat.le_refl _
  · rw [heq]
    simp only [updateTasks, Phase.left]
    omega

theorem left_postEnd (k : Nat) (data : Data N) : (s.postEnd timeout k data).phase.left = 0 := by
  unfold postEnd
  split
  · rfl
  · split <;> rfl

omit [DecidableEq N] [Zero N] in
theorem left_noTasks : (s.noTasks timeout).phase.left = 0 := by
  unfold noTasks
  split <;> rfl

theorem step_left {a : Action N} (h : s.step timeout a = some t) (ha : a.goesOn = true) (hs : s.Inv) :
    t.phase.left < s.phase.left := by
  cases moved_of_step h with
  | noTasks hphase =>
    rw [left_noTasks, hphase]
    exact Nat.zero_lt_one
  | tasksEnd data hphase =>
    have hle := left_execute (s := s) (Agent.executeTasks_inv data.tasks)
    have hagent := executeTasks_left data.tasks
    rw [hphase, Phase.left]
    omega
  | fire firing given agent next hphase hnext =>
    obtain ⟨hagent, -⟩ := hs.executing given agent hphase
    have hle := left_execute (s := s) (Agent.step_inv hnext hagent)
    have hlt := Agent.step_left hnext hagent
    rw [hphase, Phase.left]
    omega
  | servePost k data retries hphase =>
    rw [hphase]
    exact Nat.lt_succ_self 1
  | postEnd k data retries hphase =>
    rw [left_postEnd, hphase]
    exact Nat.zero_lt_one
  | retry k data retries hphase =>
    rw [hphase]
    exact Nat.lt_succ_self 2
  | _ => cases ha

omit [DecidableEq N] [Zero N] in
/-- There is a callback for each call. -/
theorem exists_firing (c : Call) : ∃ firing : Firing N, firing.call = c := by
  cases c with
  | getFile k => exact ⟨.getFile k none, rfl⟩
  | exec k downloaded => exact ⟨.exec k downloaded none "" "", rfl⟩

theorem Inv.enabled (h : s.Inv) (hbusy : s.phase.rests = false) :
    ∃ a : Action N, a.goesOn = true ∧ (s.step timeout a).isSome := by
  cases hphase : s.phase with
  | sleeping | exited | crashed | complete =>
    rw [hphase] at hbusy
    cases hbusy
  | getTasks answer =>
    cases answer with
    | none =>
      rw [hphase] at hbusy
      cases hbusy
    | some answer => cases answer <;> exact ⟨.tasksEnd, rfl, by simp [step, hphase]⟩
  | executeTasks given agent =>
    obtain ⟨hagent, hnone⟩ := h.executing given agent hphase
    cases hagent.stage with
    | waiting c new log hpending =>
      obtain ⟨firing, hcall⟩ := exists_firing (N := N) c
      have henabled : (agent.step firing).isSome := by rw [Agent.step_isSome, hcall, hpending, List.mem_singleton]
      exact ⟨.fire firing, rfl, by simpa [step, hphase] using henabled⟩
    | finished data hpending hdata =>
      rw [hdata] at hnone
      cases hnone
  | updateTasks k data retries arrived =>
    cases arrived with
    | false => exact ⟨.servePost, rfl, by simp [step, hphase]⟩
    | true => exact ⟨.postEnd, rfl, by simp [step, hphase]⟩
  | retrying k data retries => exact ⟨.retry, rfl, by simp [step, hphase]⟩

end Loop

/-- Whatever has happened, once no request fails any more the agent comes to rest: there is
a step left until it does, and it takes no more of them than a bound that it has already. -/
theorem agent_comes_to_rest (timeout : Nat) (actions more : List (Action N)) (s t : Loop N)
    (h : Lts.exec (Loop.step timeout) .start actions = some s) (hmore : ∀ a ∈ more, a.goesOn = true)
    (ht : Lts.exec (Loop.step timeout) s more = some t) :
    more.length + t.phase.left ≤ s.phase.left ∧
      (t.phase.rests = false → ∃ a : Action N, a.goesOn = true ∧ (t.step timeout a).isSome) := by
  have hs := Lts.invariant Loop.Inv (fun _ _ _ hstep => Loop.step_inv hstep) Loop.start_inv h
  have hlen := Lts.length_add_le_of_labels (fun a : Action N => a.goesOn = true) Loop.Inv (fun u => u.phase.left)
    (fun _ _ _ hstep ha hu => ⟨Loop.step_inv hstep hu, Loop.step_left hstep ha hu⟩) hmore hs ht
  refine ⟨hlen, fun hbusy => ?_⟩
  have hinv := Lts.invariant Loop.Inv (fun _ _ _ hstep => Loop.step_inv hstep) hs ht
  exact hinv.enabled hbusy

theorem agent_comes_to_rest_lossy :
    ∃ s t : Loop Nat, Lts.exec (Loop.step 5000) .start (lossyRun.take 4) = some s ∧
    Lts.exec (Loop.step 5000) s [.retry, .servePost] = some t ∧ 2 + t.phase.left ≤ s.phase.left ∧
      (t.phase.rests = false → ∃ a : Action Nat, a.goesOn = true ∧ (t.step 5000 a).isSome) :=
  ⟨_, _, rfl, rfl,
    agent_comes_to_rest 5000 (lossyRun.take 4) [.retry, .servePost] _ _ rfl (by simp [Action.goesOn]) rfl⟩

end Steps

end OnTaskGraph.Bootstrap
