import OnTaskGraph.Bootstrap
import OnTaskGraph.Delivery

/-! The loop of the bootstrap agent around `executeTasks`: `getTasks` asks for a task list,
`updateTasks` posts what became of it and tries again until the post is answered. Requests
and answers may be lost on their way, and a request that the agent has given up may still
reach the server. -/

namespace OnTaskGraph.Bootstrap

/-- What the agent reads of the answer to a GET. `exit` is `undefined` in most of them. -/
structure Data (N : Type) where
  tasks : List (Task N)
  exit : Value N
  /-- `data.exit.code` -/
  code : Value N

def maxRetryTimeout : Nat := 60 * 1000

/-- What the agent does next. Task lists are numbered as they are executed; the numbers
stand for no data of the code. -/
inductive Phase (N : Type)
  /-- A timer will call `getTasks`. -/
  | sleeping
  /-- With what the server has answered; `none` for what `JSON.parse` or `executeTasks` throws on. -/
  | getTasks (answer : Option (Option (Data N)))
  | executeTasks (given : Data N) (agent : Agent N)
  /-- The post has reached the server if `arrived`; `retries = 0` stands for `undefined`. -/
  | updateTasks (k : Nat) (data : Data N) (retries : Nat) (arrived : Bool)
  /-- A timer will call `updateTasks`. -/
  | retrying (k : Nat) (data : Data N) (retries : Nat)
  /-- `process.exit` -/
  | exited (code : Value N)
  /-- A callback has thrown. -/
  | crashed
  /-- Nothing is waited for: there is no timeout after which to ask again. -/
  | complete

inductive Note (N : Type)
  | getTasks
  /-- `executeTasks` has called `updateTasks` with `data`, after these events. -/
  | executed (given data : Data N) (events : List (Event N))
  | post (k : Nat) (data : Data N)
  /-- The server has handled a post. -/
  | respond (k : Nat) (data : Data N)
  | answered (k : Nat)
  | failed (k : Nat) (wait : Nat)
  | exit (code : Value N)

structure Loop (N : Type) where
  phase : Phase N
  /-- The number of task lists that have been executed. -/
  count : Nat
  /-- Posts that nobody waits for any more and that have not reached the server. -/
  stray : List (Nat × Data N)
  log : List (Note N)

inductive Action (N : Type)
  | wake
  | serveTasks (answer : Option (Data N))
  | tasksEnd
  | tasksError
  | fire (firing : Firing N)
  | servePost
  | postEnd
  | postError
  | retry
  | lateServe (i : Nat)

section Definitions

variable {N : Type} [DecidableEq N] [Zero N]

/-- `data.exit.code || data.exit || 0` -/
def Data.exitCode (data : Data N) : Value N :=
  if data.code.truthy then data.code else if data.exit.truthy then data.exit else .number 0

def Data.posted (data : Data N) : Data N := { data with tasks := data.tasks.map Task.posted }

namespace Loop

def start : Loop N := ⟨.getTasks none, 0, [], [.getTasks]⟩

/-- `getTasks` -/
def getTasks (s : Loop N) : Loop N := { s with phase := .getTasks none, log := .getTasks :: s.log }

/-- `updateTasks`, which posts the data. -/
def updateTasks (s : Loop N) (k : Nat) (data : Data N) (retries : Nat) : Loop N :=
  { s with phase := .updateTasks k data.posted retries false, log := .post k data.posted :: s.log }

/-- What comes after `getTasks` without a task list. -/
def noTasks (timeout : Nat) (s : Loop N) : Loop N :=
  { s with phase := if timeout ≠ 0 then .sleeping else .complete }

/-- `executeTasks` is under way, or has called `updateTasks`. -/
def execute (s : Loop N) (given : Data N) (agent : Agent N) : Loop N :=
  match reports agent.log with
  | [] => { s with phase := .executeTasks given agent }
  | tasks :: _ =>
    let data := { given with tasks }
    let t := { s with count := s.count + 1, log := .executed given data agent.log :: s.log }
    t.updateTasks s.count data 0

/-- The end of the answer to a post. -/
def postEnd (timeout : Nat) (s : Loop N) (k : Nat) (data : Data N) : Loop N :=
  let t := { s with log := .answered k :: s.log }
  if timeout ≠ 0 ∧ data.exit = .undefined then { t with phase := .sleeping }
  -- there is no code to be read of undefined or null
  else if data.exit = .undefined ∨ data.exit = .null then { t with phase := .crashed }
  else { t with phase := .exited data.exitCode, log := .exit data.exitCode :: t.log }

def postError (timeout : Nat) (s : Loop N) (k : Nat) (data : Data N) (retries : Nat) (arrived : Bool) : Loop N :=
  { s with
    phase := .retrying k data (retries + 1)
    stray := if arrived then s.stray else (k, data) :: s.stray
    log := .failed k (min (timeout * (retries + 1)) maxRetryTimeout) :: s.log }

def step (timeout : Nat) (s : Loop N) : Action N → Option (Loop N)
  | .wake =>
    match s.phase with
    | .sleeping => some s.getTasks
    | _ => none
  | .serveTasks answer =>
    match s.phase with
    | .getTasks none => some { s with phase := .getTasks (some answer) }
    | _ => none
  | .tasksEnd =>
    match s.phase with
    | .getTasks (some none) => some (s.noTasks timeout)
    | .getTasks (some (some data)) => some (s.execute data (Bootstrap.executeTasks data.tasks))
    | _ => none
  | .tasksError =>
    match s.phase with
    | .getTasks _ => some (s.noTasks timeout)
    | _ => none
  | .fire firing =>
    match s.phase with
    | .executeTasks given agent => (agent.step firing).map (s.execute given)
    | _ => none
  | .servePost =>
    match s.phase with
    | .updateTasks k data retries false =>
      some { s with phase := .updateTasks k data retries true, log := .respond k data :: s.log }
    | _ => none
  | .postEnd =>
    match s.phase with
    | .updateTasks k data _ true => some (s.postEnd timeout k data)
    | _ => none
  | .postError =>
    match s.phase with
    | .updateTasks k data retries arrived => some (s.postError timeout k data retries arrived)
    | _ => none
  | .retry =>
    match s.phase with
    | .retrying k data retries => some (s.updateTasks k data retries)
    | _ => none
  | .lateServe i =>
    match s.stray[i]? with
    | none => none
    | some (k, data) => some { s with stray := s.stray.eraseIdx i, log := .respond k data :: s.log }

end Loop

end Definitions

section Statements

variable {N : Type}

def Note.report : Note N → Option (Data N)
  | .executed _ data _ => some data
  | _ => none

def Note.posts : Note N → Option Nat
  | .post k _ => some k
  | _ => none

def Note.responds : Note N → Option Nat
  | .respond k _ => some k
  | _ => none

/-- The task lists that have been executed, as they are posted, oldest first. -/
def executed (log : List (Note N)) : List (Data N) := (log.filterMap Note.report).reverse

/-- What a note may rely on among the earlier ones. -/
def Delivered : Note N → List (Note N) → Prop
  | .getTasks, earlier =>
    ∀ k data, (executed earlier)[k]? = some data → .respond k data ∈ earlier ∧ .answered k ∈ earlier
  | .executed given data events, earlier =>
    (∀ j < (executed earlier).length, .answered j ∈ earlier) ∧ History.Chronicle (Serial given.tasks) events ∧
      reports events = [data.tasks] ∧ data.exit = given.exit ∧ data.code = given.code
  | .post k data, earlier => (executed earlier)[k]? = some data ∧ .answered k ∉ earlier
  | .respond k data, earlier => .post k data ∈ earlier ∧ ∀ j < k, ∃ d, .respond j d ∈ earlier
  | .answered k, earlier => ∃ data, .respond k data ∈ earlier
  | .failed .., _ | .exit _, _ => True

/-- The list that is being posted, with the number of its failed posts. -/
def Phase.posting : Phase N → Option (Nat × Data N × Nat)
  | .updateTasks k data retries _ | .retrying k data retries => some (k, data, retries)
  | _ => none

def Phase.copy : Phase N → Option Bool
  | .updateTasks _ _ _ arrived => some arrived
  | _ => none

namespace Loop

/-- The posts of the lists as messages. -/
def channel (s : Loop N) : Delivery.Channel where
  next := match s.phase.posting with
    | some (k, _) => k
    | none => s.count
  busy := s.phase.posting.isSome
  copy := s.phase.copy
  stray := s.stray.map Prod.fst
  sent := s.log.filterMap Note.posts
  arrived := s.log.filterMap Note.responds
  abandoned := []

end Loop

section Lists

variable {log : List (Note N)} {x : Note N} {k : Nat} {data : Data N}

@[simp] theorem executed_executed (given : Data N) (events : List (Event N)) :
    executed (.executed given data events :: log) = executed log ++ [data] := by
  simp [executed, Note.report]

theorem executed_cons (h : x.report = none) : executed (x :: log) = executed log := by
  simp [executed, h]

@[simp] theorem executed_post : executed (.post k data :: log) = executed log := executed_cons rfl
@[simp] theorem executed_respond : executed (.respond k data :: log) = executed log := executed_cons rfl
@[simp] theorem executed_answered : executed (.answered k :: log) = executed log := executed_cons rfl
@[simp] theorem executed_failed (wait : Nat) : executed (.failed k wait :: log) = executed log :=
  executed_cons rfl
@[simp] theorem executed_exit (code : Value N) : executed (.exit code :: log) = executed log := executed_cons rfl

/-- What has been executed stays at its place. -/
theorem executed_append (new : List (Note N)) (h : (executed log)[k]? = some data) :
    (executed (new ++ log))[k]? = some data := by
  have hsplit : executed (new ++ log) = executed log ++ (new.filterMap Note.report).reverse := by
    simp [executed, List.filterMap_append]
  rw [hsplit, List.getElem?_append_left (List.getElem?_eq_some_iff.mp h).1]
  exact h

theorem mem_posts : k ∈ log.filterMap Note.posts ↔ ∃ data, .post k data ∈ log := by
  rw [List.mem_filterMap]
  constructor
  · rintro ⟨x, hx, hk⟩
    cases x with
    | post j data =>
      cases hk
      exact ⟨data, hx⟩
    | _ => cases hk
  · rintro ⟨data, hmem⟩
    exact ⟨_, hmem, rfl⟩

theorem mem_responds : k ∈ log.filterMap Note.responds ↔ ∃ data, .respond k data ∈ log := by
  rw [List.mem_filterMap]
  constructor
  · rintro ⟨x, hx, hk⟩
    cases x with
    | respond j data =>
      cases hk
      exact ⟨data, hx⟩
    | _ => cases hk
  · rintro ⟨data, hmem⟩
    exact ⟨_, hmem, rfl⟩

/-- The server is told of a list what has become of it. -/
theorem executed_of_post (h : History.Chronicle Delivered log) (hpost : .post k data ∈ log) :
    (executed log)[k]? = some data := by
  obtain ⟨later, earlier, rfl, hrep, -⟩ := h.exists_of_mem hpost
  have hmore := executed_append (later ++ [.post k data]) hrep
  rwa [List.append_assoc] at hmore

theorem executed_of_respond (h : History.Chronicle Delivered log) (hrespond : .respond k data ∈ log) :
    (executed log)[k]? = some data := by
  obtain ⟨later, earlier, rfl, hpost, -⟩ := h.exists_of_mem hrespond
  exact executed_of_post h (List.mem_append_right _ (List.mem_cons_of_mem _ hpost))

end Lists

end Statements

section Steps

variable {N : Type} [DecidableEq N] [Zero N]

theorem Task.posted_posted (task : Task N) : task.posted.posted = task.posted := by
  cases he : task.error with
  | error e => cases hcode : e.code.truthy <;> simp [Task.posted, he, hcode]
  | _ => simp [Task.posted, he]

/-- What has been reported does not change when it is posted once more. -/
def Reposted (log : List (Event N)) : Prop := ∀ tasks ∈ reports log, tasks.map Task.posted = tasks

namespace Agent

variable {s t : Agent N}

theorem reposted_callback (h : Reposted s.log) : Reposted s.callback.log := by
  unfold callback
  split
  · exact h
  · intro tasks htasks
    rcases List.mem_cons.mp htasks with rfl | htasks
    · simp [Task.posted_posted]
    · exact h tasks htasks

theorem reposted_iterate (h : Reposted s.log) : Reposted s.iterate.log := by
  unfold iterate
  split
  · exact h
  · split <;> exact h

theorem reposted_done (h : Reposted s.log) (r : Option (Failure N)) : Reposted (s.done r).log := by
  cases r with
  | some e => exact reposted_callback h
  | none =>
    unfold done
    simp only
    split
    · exact reposted_callback h
    · exact reposted_iterate h

theorem reposted_handle (h : Reposted s.log) (k : Nat) (error : Option (Failure N))
    (stdout stderr : Option String) :
    Reposted (s.handle k error stdout stderr).log := by
  unfold handle
  split
  · exact h
  · apply reposted_done
    exact h

theorem reposted_run (h : Reposted s.log) (firing : Firing N) : Reposted (s.run firing).log := by
  cases firing with
  | getFile k error =>
    cases error with
    | some e => exact reposted_handle h k _ _ _
    | none =>
      unfold run
      simp only
      split <;> exact h
  | exec k downloaded error stdout stderr =>
    rw [run_exec]
    exact reposted_handle h k _ _ _

theorem reposted_step {firing : Firing N} (h : s.step firing = some t) (hs : Reposted s.log) :
    Reposted t.log := by
  simp only [step, Option.ite_none_right_eq_some, Option.some.injEq] at h
  obtain ⟨-, rfl⟩ := h
  apply reposted_run
  exact hs

end Agent

theorem reposted_executeTasks (tasks : List (Task N)) : Reposted (executeTasks tasks).log := by
  have hnone : Reposted ([] : List (Event N)) := by
    intro tasks htasks
    cases htasks
  unfold executeTasks
  split
  · exact Agent.reposted_callback hnone
  · exact Agent.reposted_iterate hnone

structure Loop.Inv (s : Loop N) : Prop where
  chronicle : History.Chronicle Delivered s.log
  channel : s.channel.Inv
  numbered : (executed s.log).length = s.count
  answered : ∀ k < s.channel.next, .answered k ∈ s.log
  unanswered : ∀ k, .answered k ∈ s.log → k < s.channel.next
  posting : ∀ k data retries, s.phase.posting = some (k, data, retries) →
    s.count = k + 1 ∧ (executed s.log)[k]? = some data ∧ data.posted = data
  updating : ∀ k data retries arrived, s.phase = .updateTasks k data retries arrived → .post k data ∈ s.log
  arrived : ∀ k data retries, s.phase = .updateTasks k data retries true → .respond k data ∈ s.log
  stray : ∀ x ∈ s.stray, .post x.1 x.2 ∈ s.log
  executing : ∀ given agent, s.phase = .executeTasks given agent →
    agent.Inv given.tasks ∧ reports agent.log = []

namespace Loop

variable {s t : Loop N}

omit [DecidableEq N] [Zero N] in
theorem copy_of_idle {phase : Phase N} (hidle : phase.posting = none) : phase.copy = none := by
  cases phase with
  | updateTasks => cases hidle
  | _ => rfl

omit [DecidableEq N] [Zero N] in
theorem channel_of_idle (hidle : s.phase.posting = none) : s.channel =
    ⟨s.count, false, none, s.stray.map Prod.fst,
      s.log.filterMap Note.posts, s.log.filterMap Note.responds, []⟩ := by
  simp [channel, hidle, copy_of_idle hidle]

omit [DecidableEq N] [Zero N] in
theorem channel_of_updateTasks {k retries : Nat} {data : Data N} {arrived : Bool}
    (hphase : s.phase = .updateTasks k data retries arrived) : s.channel =
    ⟨k, true, some arrived, s.stray.map Prod.fst,
      s.log.filterMap Note.posts, s.log.filterMap Note.responds, []⟩ := by
  simp [channel, hphase, Phase.posting, Phase.copy]

omit [DecidableEq N] [Zero N] in
theorem channel_of_retrying {k retries : Nat} {data : Data N} (hphase : s.phase = .retrying k data retries) :
    s.channel =
    ⟨k, true, none, s.stray.map Prod.fst, s.log.filterMap Note.posts, s.log.filterMap Note.responds, []⟩ := by
  simp [channel, hphase, Phase.posting, Phase.copy]

/-- Every list that nobody posts any more has reached the server. -/
theorem Inv.respond_of_lt (h : s.Inv) {k : Nat} {data : Data N} (hk : k < s.channel.next)
    (hdata : (executed s.log)[k]? = some data) : .respond k data ∈ s.log := by
  obtain ⟨d, hd⟩ := mem_responds.mp (h.channel.arrived_of_lt rfl hk)
  have heq := executed_of_respond h.chronicle hd
  rw [hdata] at heq
  obtain rfl := Option.some.inj heq
  exact hd

theorem Inv.next_of_idle (h : s.Inv) (hidle : s.phase.posting = none) :
    s.channel.next = (executed s.log).length := by
  rw [h.numbered, channel_of_idle hidle]

/-- A change of what the agent does while it posts nothing. -/
theorem Inv.idle (h : s.Inv) {phase : Phase N} (hidle : s.phase.posting = none) (hphase : phase.posting = none)
    (hexec : ∀ given agent, phase = .executeTasks given agent → agent.Inv given.tasks ∧ reports agent.log = []) :
    Inv { s with phase := phase } := by
  have hch : Loop.channel { s with phase := phase } = s.channel := by
    rw [channel_of_idle hidle, channel_of_idle hphase]
  refine ⟨h.chronicle, by rw [hch]; exact h.channel, h.numbered, by rw [hch]; exact h.answered,
    by rw [hch]; exact h.unanswered, ?_, ?_, ?_, h.stray, hexec⟩
  · intro k data retries hp
    rw [hphase] at hp
    cases hp
  · rintro k data retries arrived rfl
    cases hphase
  · rintro k data retries rfl
    cases hphase

theorem Inv.getTasks (h : s.Inv) (hidle : s.phase.posting = none) : s.getTasks.Inv := by
  have hch : s.getTasks.channel = s.channel := by
    rw [channel_of_idle hidle, channel_of_idle (s := s.getTasks) rfl]
    rfl
  refine ⟨⟨fun k data hdata => ?_, h.chronicle⟩, by rw [hch]; exact h.channel, h.numbered, ?_, ?_, nofun, nofun,
    nofun, ?_, nofun⟩
  · have hlt : k < s.channel.next := by
      rw [h.next_of_idle hidle]
      exact (List.getElem?_eq_some_iff.mp hdata).1
    exact ⟨h.respond_of_lt hlt hdata, h.answered k hlt⟩
  · intro k hk
    rw [hch] at hk
    exact List.mem_cons_of_mem _ (h.answered k hk)
  · intro k hk
    rw [hch]
    exact h.unanswered k (by simpa [Loop.getTasks] using hk)
  · exact fun x hx => List.mem_cons_of_mem _ (h.stray x hx)

/-- The state in which `executeTasks` calls `updateTasks`. -/
def offered (s : Loop N) (given : Data N) (tasks : List (Task N)) (events : List (Event N)) : Loop N :=
  { s with
    phase := .retrying s.count { given with tasks := tasks } 0
    count := s.count + 1
    log := .executed given { given with tasks := tasks } events :: s.log }

theorem Inv.offer (h : s.Inv) (hidle : s.phase.posting = none) {given : Data N} {agent : Agent N}
    {tasks : List (Task N)} (hagent : agent.Inv given.tasks) (hreports : reports agent.log = [tasks])
    (hposted : tasks.map Task.posted = tasks) : (s.offered given tasks agent.log).Inv := by
  have hch : (s.offered given tasks agent.log).channel = { s.channel with busy := true } := by
    rw [channel_of_idle hidle, channel_of_retrying (s := s.offered given tasks agent.log) rfl]
    rfl
  refine ⟨⟨⟨fun j hj => ?_, hagent.chronicle, hreports, rfl, rfl⟩, h.chronicle⟩, ?_, ?_, ?_, ?_, ?_, ?_, ?_,
    ?_, nofun⟩
  · exact h.answered j (by rwa [h.next_of_idle hidle])
  · rw [hch]
    exact h.channel.offer
  · simp [offered, h.numbered]
  · intro k hk
    rw [hch] at hk
    exact List.mem_cons_of_mem _ (h.answered k hk)
  · intro k hk
    rw [hch]
    exact h.unanswered k (by simpa [offered] using hk)
  · intro k data retries hp
    simp only [offered, Phase.posting, Option.some.injEq, Prod.mk.injEq] at hp
    obtain ⟨rfl, rfl, rfl⟩ := hp
    refine ⟨rfl, ?_, ?_⟩
    · simp only [offered, executed_executed]
      rw [← h.numbered, List.getElem?_concat_length]
    · simp [Data.posted, hposted]
  · intro k data retries arrived hp
    cases hp
  · intro k data retries hp
    cases hp
  · exact fun x hx => List.mem_cons_of_mem _ (h.stray x hx)

theorem Inv.updateTasks (h : s.Inv) {k retries : Nat} {data : Data N}
    (hphase : s.phase = .retrying k data retries) :
    (s.updateTasks k data retries).Inv := by
  obtain ⟨hcount, hdata, hposted⟩ := h.posting k data retries (by rw [hphase]; rfl)
  have hnext : s.channel.next = k := by rw [channel_of_retrying hphase]
  have hch : (s.updateTasks k data retries).channel =
      { s.channel with copy := some false, sent := s.channel.next :: s.channel.sent } := by
    rw [channel_of_retrying hphase, channel_of_updateTasks (s := s.updateTasks k data retries) rfl]
    rfl
  refine ⟨⟨⟨?_, ?_⟩, h.chronicle⟩, ?_, h.numbered, ?_, ?_, ?_, ?_, ?_, ?_, nofun⟩
  · rw [hposted]
    exact hdata
  · intro hmem
    have hlt := h.unanswered k hmem
    omega
  · rw [hch]
    apply h.channel.send
    · rw [channel_of_retrying hphase]
    · rw [channel_of_retrying hphase]
  · intro j hj
    rw [hch] at hj
    exact List.mem_cons_of_mem _ (h.answered j hj)
  · intro j hj
    rw [hch]
    exact h.unanswered j (by simpa [Loop.updateTasks] using hj)
  · intro j d r hp
    simp only [Loop.updateTasks, Phase.posting, Option.some.injEq, Prod.mk.injEq] at hp
    obtain ⟨rfl, rfl, rfl⟩ := hp
    rw [hposted]
    exact ⟨hcount, hdata, hposted⟩
  · intro j d r arrived hp
    simp only [Loop.updateTasks, Phase.updateTasks.injEq] at hp
    obtain ⟨rfl, rfl, -, -⟩ := hp
    exact List.mem_cons_self
  · intro j d r hp
    cases hp
  · exact fun x hx => List.mem_cons_of_mem _ (h.stray x hx)

/-- A post whose list is known and whose predecessors are settled may be handled. -/
theorem Inv.respond (h : s.Inv) {k : Nat} {data : Data N} (hpost : .post k data ∈ s.log) :
    Delivered (.respond k data) s.log := by
  refine ⟨hpost, fun j hj => ?_⟩
  have hsent : k ∈ s.channel.sent := mem_posts.mpr ⟨data, hpost⟩
  apply mem_responds.mp
  have hsettled := h.channel.settled_of_known (h.channel.known k hsent) j hj
  exact hsettled.resolve_right List.not_mem_nil

theorem Inv.servePost (h : s.Inv) {k retries : Nat} {data : Data N}
    (hphase : s.phase = .updateTasks k data retries false) :
    Inv { s with phase := .updateTasks k data retries true, log := .respond k data :: s.log } := by
  have hch : Loop.channel { s with phase := .updateTasks k data retries true, log := .respond k data :: s.log } =
      { s.channel with copy := some true, arrived := s.channel.next :: s.channel.arrived } := by
    rw [channel_of_updateTasks hphase, channel_of_updateTasks rfl]
    rfl
  refine ⟨⟨h.respond (h.updating k data retries false hphase), h.chronicle⟩, ?_, h.numbered, ?_, ?_, ?_, ?_, ?_,
    ?_, nofun⟩
  · rw [hch]
    apply h.channel.arrive
    rw [channel_of_updateTasks hphase]
  · intro j hj
    rw [hch] at hj
    exact List.mem_cons_of_mem _ (h.answered j hj)
  · intro j hj
    rw [hch]
    exact h.unanswered j (by simpa using hj)
  · intro j d r hp
    exact h.posting j d r (by rw [hphase]; exact hp)
  · intro j d r arrived hp
    simp only [Phase.updateTasks.injEq] at hp
    obtain ⟨rfl, rfl, -, -⟩ := hp
    exact List.mem_cons_of_mem _ (h.updating k data retries false hphase)
  · intro j d r hp
    simp only [Phase.updateTasks.injEq] at hp
    obtain ⟨rfl, rfl, -, -⟩ := hp
    exact List.mem_cons_self
  · exact fun x hx => List.mem_cons_of_mem _ (h.stray x hx)

theorem Inv.lateServe (h : s.Inv) {i k : Nat} {data : Data N} (hi : s.stray[i]? = some (k, data)) :
    Inv { s with stray := s.stray.eraseIdx i, log := .respond k data :: s.log } := by
  have hch : Loop.channel { s with stray := s.stray.eraseIdx i, log := .respond k data :: s.log } =
      { s.channel with stray := s.channel.stray.eraseIdx i, arrived := k :: s.channel.arrived } := by
    simp only [Loop.channel, ← List.eraseIdx_map]
    rfl
  have hmem : (k, data) ∈ s.stray := List.mem_of_getElem? hi
  refine ⟨⟨h.respond (h.stray _ hmem), h.chronicle⟩, ?_, h.numbered, ?_, ?_, h.posting, ?_, ?_, ?_, h.executing⟩
  · rw [hch]
    apply h.channel.late
    simp [Loop.channel, hi]
  · intro j hj
    rw [hch] at hj
    exact List.mem_cons_of_mem _ (h.answered j hj)
  · intro j hj
    rw [hch]
    exact h.unanswered j (by simpa using hj)
  · intro j d r arrived hp
    exact List.mem_cons_of_mem _ (h.updating j d r arrived hp)
  · intro j d r hp
    exact List.mem_cons_of_mem _ (h.arrived j d r hp)
  · intro x hx
    exact List.mem_cons_of_mem _ (h.stray x (List.mem_of_mem_eraseIdx hx))

theorem Inv.postError (h : s.Inv) (timeout : Nat) {k retries : Nat} {data : Data N} {arrived : Bool}
    (hphase : s.phase = .updateTasks k data retries arrived) :
    (s.postError timeout k data retries arrived).Inv := by
  have hch : (s.postError timeout k data retries arrived).channel =
      { s.channel with
        copy := none
        stray := if arrived then s.channel.stray else s.channel.next :: s.channel.stray } := by
    rw [channel_of_updateTasks hphase, channel_of_retrying (s := s.postError timeout k data retries arrived) rfl]
    cases arrived <;> rfl
  have hcopy : s.channel.copy = some arrived := by rw [channel_of_updateTasks hphase]
  refine ⟨⟨trivial, h.chronicle⟩, ?_, h.numbered, ?_, ?_, ?_, nofun, nofun, ?_, nofun⟩
  · rw [hch]
    cases arrived with
    | true => exact h.channel.fail_arrived hcopy
    | false => exact h.channel.fail_stray hcopy
  · intro j hj
    rw [hch] at hj
    exact List.mem_cons_of_mem _ (h.answered j hj)
  · intro j hj
    rw [hch]
    exact h.unanswered j (by simpa [Loop.postError] using hj)
  · intro j d r hp
    simp only [Loop.postError, Phase.posting, Option.some.injEq, Prod.mk.injEq] at hp
    obtain ⟨rfl, rfl, rfl⟩ := hp
    exact h.posting k data retries (by rw [hphase]; rfl)
  · intro x hx
    apply List.mem_cons_of_mem
    cases arrived with
    | true => exact h.stray x hx
    | false =>
      rcases List.mem_cons.mp hx with rfl | hx
      · exact h.updating k data retries false hphase
      · exact h.stray x hx

/-- The answer to the post of a list, whatever the agent does then. -/
theorem Inv.answer (h : s.Inv) {k retries : Nat} {data : Data N} {phase : Phase N}
    (hphase : s.phase = .updateTasks k data retries true) (hidle : phase.posting = none)
    (hquiet : ∀ given agent, phase ≠ .executeTasks given agent) :
    Inv { s with phase := phase, log := .answered k :: s.log } := by
  obtain ⟨hcount, -, -⟩ := h.posting k data retries (by rw [hphase]; rfl)
  have hch : Loop.channel { s with phase := phase, log := .answered k :: s.log } =
      { s.channel with next := s.channel.next + 1, busy := false, copy := none } := by
    rw [channel_of_updateTasks hphase, channel_of_idle hidle, hcount]
    rfl
  have hnext : s.channel.next = k := by rw [channel_of_updateTasks hphase]
  refine ⟨⟨⟨data, h.arrived k data retries hphase⟩, h.chronicle⟩, ?_, h.numbered, ?_, ?_, ?_, ?_, ?_, ?_, ?_⟩
  · rw [hch]
    apply h.channel.answer
    rw [channel_of_updateTasks hphase]
  · intro j hj
    rw [hch, hnext] at hj
    rcases Nat.lt_succ_iff_lt_or_eq.mp hj with hlt | rfl
    · exact List.mem_cons_of_mem _ (h.answered j (by rwa [hnext]))
    · exact List.mem_cons_self
  · intro j hj
    rw [hch, hnext]
    rcases List.mem_cons.mp hj with hj | hj
    · cases hj
      exact Nat.lt_succ_self k
    · have hlt := h.unanswered j hj
      rw [hnext] at hlt
      exact Nat.lt_succ_of_lt hlt
  · intro j d r hp
    rw [hidle] at hp
    cases hp
  · rintro j d r arrived rfl
    cases hidle
  · rintro j d r rfl
    cases hidle
  · exact fun x hx => List.mem_cons_of_mem _ (h.stray x hx)
  · exact fun given agent hp => absurd hp (hquiet given agent)

/-- The agent ends. -/
theorem Inv.exit (h : s.Inv) (hidle : s.phase.posting = none) (code : Value N) :
    Inv { s with phase := .exited code, log := .exit code :: s.log } := by
  have hch : Loop.channel { s with phase := .exited code, log := .exit code :: s.log } = s.channel := by
    rw [channel_of_idle hidle, channel_of_idle rfl]
    rfl
  refine ⟨⟨trivial, h.chronicle⟩, by rw [hch]; exact h.channel, h.numbered, ?_, ?_, nofun, nofun, nofun, ?_,
    nofun⟩
  · intro k hk
    rw [hch] at hk
    exact List.mem_cons_of_mem _ (h.answered k hk)
  · intro k hk
    rw [hch]
    exact h.unanswered k (by simpa using hk)
  · exact fun x hx => List.mem_cons_of_mem _ (h.stray x hx)

theorem Inv.postEnd (h : s.Inv) (timeout : Nat) {k retries : Nat} {data : Data N}
    (hphase : s.phase = .updateTasks k data retries true) : (s.postEnd timeout k data).Inv := by
  unfold Loop.postEnd
  split
  · exact h.answer hphase rfl nofun
  · split
    · exact h.answer hphase rfl nofun
    · have hanswer : Loop.Inv { s with phase := .crashed, log := .answered k :: s.log } :=
        h.answer hphase rfl nofun
      exact hanswer.exit rfl _

theorem Inv.noTasks (h : s.Inv) (timeout : Nat) (hidle : s.phase.posting = none) : (s.noTasks timeout).Inv := by
  unfold Loop.noTasks
  apply h.idle hidle
  · split <;> rfl
  · intro given agent hp
    split at hp <;> cases hp

theorem start_inv : (start : Loop N).Inv := by
  have hch : (start : Loop N).channel = .empty := channel_of_idle rfl
  refine ⟨⟨fun k data hdata => ?_, trivial⟩, ?_, rfl, ?_, ?_, nofun, nofun, nofun, nofun, nofun⟩
  · simp [executed] at hdata
  · rw [hch]
    exact Delivery.Channel.empty_inv
  · intro k hk
    rw [hch] at hk
    exact absurd hk (Nat.not_lt_zero k)
  · intro k hk
    simp [start] at hk

/-- `executeTasks` goes on, or calls `updateTasks` with what it has reported. -/
theorem execute_cases (s : Loop N) {given : Data N} {agent : Agent N} (hagent : agent.Inv given.tasks) :
    (reports agent.log = [] ∧ s.execute given agent = { s with phase := .executeTasks given agent }) ∨
      ∃ tasks, reports agent.log = [tasks] ∧ s.execute given agent =
        (s.offered given tasks agent.log).updateTasks s.count { given with tasks := tasks } 0 := by
  unfold execute
  split
  · exact .inl ⟨‹_›, rfl⟩
  · rename_i tasks rest hsome
    refine .inr ⟨tasks, ?_, rfl⟩
    cases hagent.stage with
    | waiting c new log hpending hlt hreplaced hlog hwent hnew =>
      rw [hlog, hnew.reports_append, hwent.silent] at hsome
      cases hsome
    | finished data hpending hdata =>
      obtain ⟨rfl, -⟩ := List.cons.inj (hdata.symm.trans hsome)
      exact hdata

theorem Inv.execute (h : s.Inv) (hidle : s.phase.posting = none) {given : Data N} {agent : Agent N}
    (hagent : agent.Inv given.tasks) (hposted : Reposted agent.log) :
    (s.execute given agent).Inv := by
  obtain ⟨hnone, heq⟩ | ⟨tasks, hone, heq⟩ := execute_cases s hagent
  · rw [heq]
    refine h.idle hidle rfl ?_
    rintro _ _ ⟨⟩
    exact ⟨hagent, hnone⟩
  · rw [heq]
    have hoffer := h.offer hidle hagent hone (hposted tasks (by simp [hone]))
    exact hoffer.updateTasks rfl

/-- What each event does, in the phases where there can be one. -/
inductive Moved (timeout : Nat) (s : Loop N) : Action N → Loop N → Prop
  | wake (hphase : s.phase = .sleeping) : Moved timeout s .wake s.getTasks
  | serveTasks (answer : Option (Data N)) (hphase : s.phase = .getTasks none) :
    Moved timeout s (.serveTasks answer) { s with phase := .getTasks (some answer) }
  | noTasks (hphase : s.phase = .getTasks (some none)) : Moved timeout s .tasksEnd (s.noTasks timeout)
  | tasksEnd (data : Data N) (hphase : s.phase = .getTasks (some (some data))) :
    Moved timeout s .tasksEnd (s.execute data (Bootstrap.executeTasks data.tasks))
  | tasksError (answer : Option (Option (Data N))) (hphase : s.phase = .getTasks answer) :
    Moved timeout s .tasksError (s.noTasks timeout)
  | fire (firing : Firing N) (given : Data N) (agent next : Agent N)
    (hphase : s.phase = .executeTasks given agent)
    (hnext : agent.step firing = some next) : Moved timeout s (.fire firing) (s.execute given next)
  | servePost (k : Nat) (data : Data N) (retries : Nat) (hphase : s.phase = .updateTasks k data retries false) :
    Moved timeout s .servePost
      { s with phase := .updateTasks k data retries true, log := .respond k data :: s.log }
  | postEnd (k : Nat) (data : Data N) (retries : Nat) (hphase : s.phase = .updateTasks k data retries true) :
    Moved timeout s .postEnd (s.postEnd timeout k data)
  | postError (k : Nat) (data : Data N) (retries : Nat) (arrived : Bool)
    (hphase : s.phase = .updateTasks k data retries arrived) :
    Moved timeout s .postError (s.postError timeout k data retries arrived)
  | retry (k : Nat) (data : Data N) (retries : Nat) (hphase : s.phase = .retrying k data retries) :
    Moved timeout s .retry (s.updateTasks k data retries)
  | lateServe (i k : Nat) (data : Data N) (hi : s.stray[i]? = some (k, data)) :
    Moved timeout s (.lateServe i) { s with stray := s.stray.eraseIdx i, log := .respond k data :: s.log }

theorem moved_of_step {timeout : Nat} {a : Action N} (h : s.step timeout a = some t) : Moved timeout s a t := by
  cases a with
  | lateServe i =>
    simp only [step] at h
    split at h
    · cases h
    · obtain rfl := Option.some.inj h
      exact .lateServe i _ _ ‹_›
  | fire firing =>
    simp only [step] at h
    split at h
    · obtain ⟨next, hnext, rfl⟩ := Option.map_eq_some_iff.mp h
      exact .fire firing _ _ next ‹_› hnext
    · cases h
  | tasksEnd =>
    simp only [step] at h
    split at h
    · obtain rfl := Option.some.inj h
      exact .noTasks ‹_›
    · obtain rfl := Option.some.inj h
      exact .tasksEnd _ ‹_›
    · cases h
  | _ =>
    simp only [step] at h
    split at h
    · obtain rfl := Option.some.inj h
      constructor
      assumption
    · cases h

theorem Inv.reposted (h : s.Inv) {given : Data N} {agent : Agent N}
    (hphase : s.phase = .executeTasks given agent) :
    agent.Inv given.tasks ∧ Reposted agent.log := by
  obtain ⟨hagent, hnone⟩ := h.executing given agent hphase
  refine ⟨hagent, ?_⟩
  rw [Reposted, hnone]
  nofun

theorem step_inv {timeout : Nat} {a : Action N} (h : s.step timeout a = some t) (hs : s.Inv) : t.Inv := by
  cases moved_of_step h with
  | wake hphase => exact hs.getTasks (by rw [hphase]; rfl)
  | serveTasks answer hphase => exact hs.idle (by rw [hphase]; rfl) rfl nofun
  | noTasks hphase => exact hs.noTasks timeout (by rw [hphase]; rfl)
  | tasksEnd data hphase =>
    exact hs.execute (by rw [hphase]; rfl) (Agent.executeTasks_inv data.tasks) (reposted_executeTasks data.tasks)
  | tasksError answer hphase => exact hs.noTasks timeout (by rw [hphase]; rfl)
  | fire firing given agent next hphase hnext =>
    obtain ⟨hagent, hposted⟩ := hs.reposted hphase
    exact hs.execute (by rw [hphase]; rfl) (Agent.step_inv hnext hagent) (Agent.reposted_step hnext hposted)
  | servePost k data retries hphase => exact hs.servePost hphase
  | postEnd k data retries hphase => exact hs.postEnd timeout hphase
  | postError k data retries arrived hphase => exact hs.postError timeout hphase
  | retry k data retries hphase => exact hs.updateTasks hphase
  | lateServe i k data hi => exact hs.lateServe hi

end Loop

/-- The server is told of every task list, in the order in which they were executed and with
what became of them, and of nothing else; the agent asks for the next list only after it
has heard that the server was told of all of them. -/
theorem reports_delivered (timeout : Nat) (actions : List (Action N)) (s : Loop N)
    (h : Lts.exec (Loop.step timeout) .start actions = some s) : History.Chronicle Delivered s.log :=
  (Lts.invariant Loop.Inv (fun _ _ _ hstep => Loop.step_inv hstep) Loop.start_inv h).chronicle

/-- One command is executed, and its report is lost and posted again; the first copy of it
reaches the server after the second one. -/
def lossyRun : List (Action Nat) :=
  [.serveTasks (some ⟨[⟨"ls", none, none, none, none, .undefined⟩], .number 3, .undefined⟩), .tasksEnd,
    .fire (.exec 0 false none "sda" ""), .postError, .retry, .servePost, .lateServe 0, .postEnd]

theorem reports_delivered_lossy : ∃ s : Loop Nat, Lts.exec (Loop.step 5000) .start lossyRun = some s ∧
    History.Chronicle Delivered s.log :=
  ⟨_, rfl, reports_delivered 5000 lossyRun _ rfl⟩

end Steps

end OnTaskGraph.Bootstrap
