import OnTaskGraph.Bootstrap

/-! What the bootstrap agent reports of commands, with and without a downloaded file. -/

namespace OnTaskGraph.Bootstrap

/-- What `exec` gives for a command. -/
structure Result (N : Type) where
  error : Option (Failure N)
  stdout : String
  stderr : String

section Definitions

variable {N : Type}

def Task.withoutUrl (task : Task N) : Task N := { task with downloadUrl := none }

def Task.output (task : Task N) : Option String × Option String × TaskError N :=
  (task.stdout, task.stderr, task.error)

/-- The commands that have been started, newest first, with the places of their tasks. -/
def commands (log : List (Event N)) : List (String × Nat) :=
  log.filterMap fun e =>
    match e with
    | .exec k cmd => some (cmd, k)
    | _ => none

/-- Every download succeeds, and the commands have the given results. -/
def Follows (results : Nat → Result N) : Firing N → Prop
  | .getFile _ error => error = none
  | .exec k _ error stdout stderr => results k = ⟨error, stdout, stderr⟩

/-- The tasks before `k` have results after which the next one is executed. -/
def Executed (tasks : List (Task N)) (results : Nat → Result N) (k : Nat) : Prop :=
  ∀ j < k, ∀ task, tasks[j]? = some task → task.Succeeds (results j).error

/-- The task with the result of its command. -/
def Task.reported (task : Task N) (r : Result N) : Task N :=
  task.record r.error (Agent.shown task.downloads r.error r.stdout) (Agent.shown task.downloads r.error r.stderr)

/-- The first `m` commands, with their places. -/
def started (tasks : List (Task N)) (m : Nat) : List (String × Nat) := ((tasks.take m).map Task.cmd).zipIdx

def Recorded (tasks : List (Task N)) (results : Nat → Result N) (m : Nat) (now : List (Task N)) : Prop :=
  ∀ i, now[i]? = (tasks[i]?).map fun task => if i < m then task.reported (results i) else task

/-- The call that the iterator makes for a task, or the one after the download. -/
def Task.Calls (task : Task N) : Call → Prop
  | .getFile _ => task.downloads = true
  | .exec _ downloaded => downloaded = task.downloads

def Call.started : Call → Nat
  | .getFile k => k
  | .exec k _ => k + 1

end Definitions

section Runs

variable {N : Type} {tasks : List (Task N)} {results : Nat → Result N}

inductive Reporting [DecidableEq N] [Zero N] (tasks : List (Task N)) (results : Nat → Result N)
    (s : Agent N) : Prop
  | going (c : Call) (hpending : s.pending = [c]) (hcall : ∀ task, tasks[s.completed]? = some task → task.Calls c)
      (hcommands : commands s.log = (started tasks c.started).reverse)
      (hexecuted : Executed tasks results s.completed) (hrecorded : Recorded tasks results s.completed s.tasks)
  | finished (m : Nat) (now : List (Task N)) (hpending : s.pending = []) (hle : m ≤ tasks.length)
      (hm : ∀ i < tasks.length, i < m ↔ Executed tasks results i)
      (hcommands : commands s.log = (started tasks m).reverse) (hrecorded : Recorded tasks results m now)
      (hreports : reports s.log = [now.map Task.posted])

theorem Executed.mono {i k : Nat} (h : Executed tasks results k) (hle : i ≤ k) : Executed tasks results i := by
  intro j hj
  exact h j (Nat.lt_of_lt_of_le hj hle)

theorem Executed.succ {k : Nat} {task : Task N} (h : Executed tasks results k) (htask : tasks[k]? = some task)
    (hgood : task.Succeeds (results k).error) : Executed tasks results (k + 1) := by
  intro j hj other hother
  rcases Nat.lt_succ_iff_lt_or_eq.mp hj with hlt | rfl
  · exact h j hlt other hother
  · obtain rfl := Option.some.inj (htask.symm.trans hother)
    exact hgood

theorem Executed.lt_iff {k : Nat} {task : Task N} (h : Executed tasks results k) (htask : tasks[k]? = some task)
    (hbad : ¬ task.Succeeds (results k).error) (i : Nat) : i < k + 1 ↔ Executed tasks results i := by
  constructor
  · intro hi
    exact h.mono (Nat.le_of_lt_succ hi)
  · intro hi
    by_contra hnot
    exact hbad (hi k (by omega) task htask)

theorem started_succ {k : Nat} {task : Task N} (htask : tasks[k]? = some task) :
    (started tasks (k + 1)).reverse = (task.cmd, k) :: (started tasks k).reverse := by
  have hlt := (List.getElem?_eq_some_iff.mp htask).1
  simp [started, List.take_add_one, htask, List.zipIdx_append, Nat.min_eq_left (Nat.le_of_lt hlt)]

theorem Recorded.get_of_le {m i : Nat} {now : List (Task N)} (h : Recorded tasks results m now) (hi : m ≤ i) :
    now[i]? = tasks[i]? := by
  rw [h i]
  simp [Nat.not_lt.mpr hi]

theorem Recorded.set {k : Nat} {now : List (Task N)} {task : Task N} (h : Recorded tasks results k now)
    (htask : tasks[k]? = some task) : Recorded tasks results (k + 1) (now.set k (task.reported (results k))) := by
  have hlt : k < now.length := by
    have hget := h.get_of_le (Nat.le_refl k)
    rw [htask] at hget
    exact (List.getElem?_eq_some_iff.mp hget).1
  intro i
  rw [List.getElem?_set]
  by_cases hi : k = i
  · subst hi
    simp [hlt, htask]
  · rw [if_neg hi, h i]
    have hiff : i < k ↔ i < k + 1 := by omega
    simp only [hiff]

section Alike

variable {other : List (Task N)}

theorem exists_alike (halike : tasks.map Task.withoutUrl = other.map Task.withoutUrl) {k : Nat} {task : Task N}
    (htask : tasks[k]? = some task) : ∃ task', other[k]? = some task' ∧ task'.withoutUrl = task.withoutUrl := by
  have hk := congrArg (·[k]?) halike
  simp only [List.getElem?_map, htask, Option.map_some] at hk
  exact Option.map_eq_some_iff.mp hk.symm

theorem Executed.alike {k : Nat} (h : Executed other results k)
    (halike : tasks.map Task.withoutUrl = other.map Task.withoutUrl) : Executed tasks results k := by
  intro j hj task htask
  obtain ⟨task', htask', hsame⟩ := exists_alike halike htask
  have hcodes : task'.acceptedResponseCodes = task.acceptedResponseCodes :=
    congrArg (·.acceptedResponseCodes) hsame
  have hgood := h j hj task' htask'
  rw [Task.Succeeds, hcodes] at hgood
  exact hgood

theorem started_alike (halike : tasks.map Task.withoutUrl = other.map Task.withoutUrl) (m : Nat) :
    started tasks m = started other m := by
  have hcmd := congrArg (fun xs : List (Task N) => xs.map Task.cmd) halike
  have hmap : Task.cmd ∘ Task.withoutUrl = Task.cmd (N := N) := rfl
  simp only [List.map_map, hmap] at hcmd
  simp only [started, List.map_take, hcmd]

end Alike

variable [DecidableEq N] [Zero N] {s t : Agent N}

theorem Reporting.callback {m : Nat} (hpending : s.pending = []) (hreplaced : s.replaced = false)
    (hreports : reports s.log = []) (hle : m ≤ tasks.length)
    (hm : ∀ i < tasks.length, i < m ↔ Executed tasks results i)
    (hcommands : commands s.log = (started tasks m).reverse) (hrecorded : Recorded tasks results m s.tasks) :
    Reporting tasks results s.callback := by
  have hcallback : s.callback = { s with
      tasks := s.tasks.map Task.posted, log := .updateTasks (s.tasks.map Task.posted) :: s.log } := by
    simp [Agent.callback, hreplaced]
  rw [hcallback]
  refine .finished m s.tasks hpending hle hm hcommands hrecorded ?_
  rw [reports_updateTasks, hreports]

theorem Reporting.iterate (hpending : s.pending = []) (hlt : s.completed < tasks.length)
    (hcommands : commands s.log = (started tasks s.completed).reverse)
    (hexecuted : Executed tasks results s.completed) (hrecorded : Recorded tasks results s.completed s.tasks) :
    Reporting tasks results s.iterate := by
  have hgiven : tasks[s.completed]? = some tasks[s.completed] := List.getElem?_eq_getElem hlt
  have htask := hrecorded.get_of_le (Nat.le_refl _)
  rw [hgiven] at htask
  simp only [Agent.iterate, htask]
  split
  · rename_i hdownloads
    refine .going (.getFile s.completed) (by simp [Agent.start, hpending]) ?_ hcommands hexecuted hrecorded
    intro task hget
    obtain rfl := Option.some.inj (hgiven.symm.trans hget)
    exact hdownloads
  · rename_i hinline
    refine .going (.exec s.completed false) (by simp [Agent.start, hpending]) ?_ ?_ hexecuted hrecorded
    · intro task hget
      obtain rfl := Option.some.inj (hgiven.symm.trans hget)
      exact (Bool.eq_false_iff.mpr hinline).symm
    · rw [Call.started, started_succ hgiven, ← hcommands]
      rfl

theorem Reporting.handle {task : Task N} (hpending : s.pending = []) (hreplaced : s.replaced = false)
    (hreports : reports s.log = []) (hlen : s.tasks.length = tasks.length)
    (htask : tasks[s.completed]? = some task)
    (hcommands : commands s.log = (started tasks (s.completed + 1)).reverse)
    (hexecuted : Executed tasks results s.completed) (hrecorded : Recorded tasks results s.completed s.tasks) :
    Reporting tasks results (s.handle s.completed (results s.completed).error
      (Agent.shown task.downloads (results s.completed).error (results s.completed).stdout)
      (Agent.shown task.downloads (results s.completed).error (results s.completed).stderr)) := by
  have hlt := (List.getElem?_eq_some_iff.mp htask).1
  have hnow : s.tasks[s.completed]? = some task := by rw [hrecorded.get_of_le (Nat.le_refl _), htask]
  have hset := hrecorded.set htask
  rw [Agent.handle_eq hnow]
  cases hdone : (handleExecResult task (results s.completed).error
      (Agent.shown task.downloads (results s.completed).error (results s.completed).stdout)
      (Agent.shown task.downloads (results s.completed).error (results s.completed).stderr)).2 with
  | none =>
    have hnext := hexecuted.succ htask (handleExecResult_eq_none.mp hdone)
    simp only [Agent.done, List.length_set]
    by_cases hle : s.tasks.length ≤ s.completed + 1
    · rw [if_pos hle]
      refine Reporting.callback (m := s.completed + 1) hpending hreplaced hreports hlt ?_ hcommands hset
      intro i hi
      have hbefore : i ≤ s.completed + 1 := by omega
      exact ⟨fun _ => hnext.mono hbefore, fun _ => by omega⟩
    · rw [if_neg hle]
      have hlt' : s.completed + 1 < tasks.length := by omega
      exact Reporting.iterate hpending hlt' hcommands hnext hset
  | some e =>
    have hbad : ¬ task.Succeeds (results s.completed).error := by
      intro hgood
      rw [handleExecResult_eq_none.mpr hgood] at hdone
      cases hdone
    rw [Agent.done]
    have hover := Reporting.callback (s := { s with
        tasks := s.tasks.set s.completed (task.reported (results s.completed))
        log := .ended s.completed (results s.completed).error :: s.log }) (m := s.completed + 1)
      hpending hreplaced hreports hlt (fun i _ => hexecuted.lt_iff htask hbad i) hcommands hset
    cases hover with
    | going c hone => simp [Agent.callback_pending, hpending] at hone
    | finished m now h1 h2 h3 h4 h5 h6 => exact .finished m now h1 h2 h3 h4 h5 h6

theorem Reporting.step {firing : Firing N} (h : s.step firing = some t) (hfollows : Follows results firing)
    (hs : s.Inv tasks ∧ Reporting tasks results s) : t.Inv tasks ∧ Reporting tasks results t := by
  refine ⟨Agent.step_inv h hs.1, ?_⟩
  have hlen : s.tasks.length = tasks.length := by simpa using congrArg List.length hs.1.plans
  cases hs.2 with
  | finished m now hnone => simp [Agent.step, hnone] at h
  | going c hone hcall hcommands hexecuted hrecorded =>
    obtain ⟨hlt, hreplaced, hreports⟩ := hs.1.stage.going hone
    have hgiven : tasks[s.completed]? = some tasks[s.completed] := List.getElem?_eq_getElem hlt
    obtain ⟨task, _, hget, htask, rfl⟩ | ⟨e, rfl, _⟩ | ⟨downloaded, error, stdout, stderr, rfl, hexec, rfl⟩ :=
      Agent.step_cases h hs.1
    · obtain rfl := List.singleton_inj.mp (hone.symm.trans hget)
      have htask' : tasks[s.completed]? = some task := by rw [← hrecorded.get_of_le (Nat.le_refl _), htask]
      refine .going (.exec s.completed true) rfl ?_ ?_ hexecuted hrecorded
      · intro other hother
        exact (hcall other hother).symm
      · rw [Call.started, started_succ htask']
        exact congrArg ((task.cmd, s.completed) :: ·) hcommands
    · cases hfollows
    · obtain rfl := List.singleton_inj.mp (hone.symm.trans hexec)
      obtain rfl : downloaded = tasks[s.completed].downloads := hcall _ hgiven
      have hresult : results s.completed = ⟨error, stdout, stderr⟩ := hfollows
      have hhandle := Reporting.handle (s := { s with pending := [] }) rfl hreplaced hreports hlen hgiven
        hcommands hexecuted hrecorded
      simpa only [hresult] using hhandle

theorem executeTasks_reporting (tasks : List (Task N)) (results : Nat → Result N) :
    Reporting tasks results (executeTasks tasks) := by
  have hexecuted : Executed tasks results 0 := fun j hj => absurd hj (Nat.not_lt_zero j)
  have hrecorded : Recorded tasks results 0 tasks := fun i => by simp
  unfold executeTasks
  by_cases hempty : tasks.length = 0
  · rw [if_pos hempty]
    refine Reporting.callback (m := 0) rfl rfl rfl (Nat.zero_le _) ?_ rfl hrecorded
    intro i hi
    omega
  · rw [if_neg hempty]
    exact Reporting.iterate rfl (Nat.pos_of_ne_zero hempty) rfl hexecuted hrecorded

theorem reporting_of_exec {fired : List (Firing N)} (h : Lts.exec Agent.step (executeTasks tasks) fired = some s)
    (hfollows : ∀ firing ∈ fired, Follows results firing) : Reporting tasks results s :=
  ((Lts.along_of_labels hfollows (executeTasks tasks)).invariant
    (fun s => s.Inv tasks ∧ Reporting tasks results s)
    (fun _ _ _ => Reporting.step) ⟨Agent.executeTasks_inv tasks, executeTasks_reporting tasks results⟩ h).2

theorem Task.posted_output (task : Task N) :
    task.posted.stdout = task.stdout ∧ task.posted.stderr = task.stderr := by
  unfold Task.posted
  split
  · split <;> exact ⟨rfl, rfl⟩
  · exact ⟨rfl, rfl⟩

theorem Task.posted_error {task other : Task N} (h : task.error = other.error) :
    task.posted.error = other.posted.error := by
  unfold Task.posted
  rw [← h]
  cases task.error with
  | error e => cases he : e.code.truthy <;> simp [he, h]
  | _ => exact h

theorem Task.output_posted_eq_iff {task other : Task N} (h : task.error = other.error) :
    task.posted.output = other.posted.output ↔ task.stdout = other.stdout ∧ task.stderr = other.stderr := by
  simp [Task.output, Task.posted_output, Task.posted_error h]

theorem output_alike {task other : Task N} (h : task.withoutUrl = other.withoutUrl) :
    task.posted.output = other.posted.output := by
  have herror : task.error = other.error := congrArg (·.error) h
  rw [Task.output_posted_eq_iff herror]
  exact ⟨congrArg (·.stdout) h, congrArg (·.stderr) h⟩

/-- A result is reported alike for two tasks, unless the command fails and only one of them
has been downloaded. -/
theorem Task.reported_alike_iff (task other : Task N) (r : Result N) :
    (task.reported r).posted.output = (other.reported r).posted.output ↔
      (r.error ≠ none → task.downloads = other.downloads) := by
  have hsame : (task.reported r).error = (other.reported r).error := rfl
  rw [Task.output_posted_eq_iff hsame]
  cases herror : r.error with
  | none => simp [Task.reported, Task.record, Agent.shown, herror]
  | some e =>
    cases hdown : task.downloads <;> cases hother : other.downloads <;>
      simp [Task.reported, Task.record, Agent.shown, herror, hdown, hother]

/-- Two task lists that differ in the downloads only: the same commands are started, and
what is posted is the same unless a command that is started fails, and its file is
downloaded in only one of the runs. -/
theorem commands_reported_alike_iff (tasks other : List (Task N)) (results : Nat → Result N)
    (halike : tasks.map Task.withoutUrl = other.map Task.withoutUrl) {fired fired' : List (Firing N)}
    (h : Lts.exec Agent.step (executeTasks tasks) fired = some s)
    (h' : Lts.exec Agent.step (executeTasks other) fired' = some t)
    (hfollows : ∀ firing ∈ fired, Follows results firing) (hfollows' : ∀ firing ∈ fired', Follows results firing)
    (hended : s.pending = []) (hended' : t.pending = []) :
    commands s.log = commands t.log ∧
      ((reports s.log).map (·.map Task.output) = (reports t.log).map (·.map Task.output) ↔
        ∀ (k : Nat) (task task' : Task N), tasks[k]? = some task → other[k]? = some task' →
          Executed tasks results k → (results k).error ≠ none → task.downloads = task'.downloads) := by
  have hlen : tasks.length = other.length := by simpa using congrArg List.length halike
  cases reporting_of_exec h hfollows with
  | going c hone => simp [hended] at hone
  | finished m now hnone hle hm hcommands hrecorded hreports =>
    cases reporting_of_exec h' hfollows' with
    | going c hone => simp [hended'] at hone
    | finished m' now' hnone' hle' hm' hcommands' hrecorded' hreports' =>
      -- each run starts the commands up to the first failure that is not accepted
      have hsame : m = m' := by
        by_contra hne
        rcases Nat.lt_or_gt_of_ne hne with hlt | hgt
        · have hex := ((hm' m (by omega)).mp hlt).alike halike
          exact absurd ((hm m (by omega)).mpr hex) (Nat.lt_irrefl m)
        · have hex := ((hm m' (by omega)).mp hgt).alike halike.symm
          exact absurd ((hm' m' (by omega)).mpr hex) (Nat.lt_irrefl m')
      subst hsame
      refine ⟨by rw [hcommands, hcommands', started_alike halike], ?_⟩
      have houtputs : (reports s.log).map (·.map Task.output) = (reports t.log).map (·.map Task.output) ↔
          ∀ k : Nat, (now[k]?).map (·.posted.output) = (now'[k]?).map (·.posted.output) := by
        rw [hreports, hreports']
        simp only [List.map_cons, List.map_nil, List.cons.injEq, and_true, List.map_map]
        rw [List.ext_getElem?_iff]
        simp only [List.getElem?_map]
        rfl
      rw [houtputs]
      refine forall_congr' fun k => ?_
      rw [hrecorded k, hrecorded' k]
      cases htask : tasks[k]? with
      | none =>
        have hnone : other[k]? = none := by
          rw [List.getElem?_eq_none_iff] at htask ⊢
          omega
        simp [hnone]
      | some task =>
        obtain ⟨task', htask', halike'⟩ := exists_alike halike htask
        rw [htask', Option.map_some, Option.map_some, Option.map_some, Option.map_some, Option.some.injEq]
        have hlt := (List.getElem?_eq_some_iff.mp htask).1
        by_cases hk : k < m
        · rw [if_pos hk, if_pos hk, Task.reported_alike_iff]
          constructor
          · rintro hdown a b ⟨⟩ ⟨⟩ _
            exact hdown
          · intro hdown
            exact hdown task task' rfl rfl ((hm k hlt).mp hk)
        · rw [if_neg hk, if_neg hk]
          constructor
          · intro _ a b _ _ hexecuted
            exact absurd ((hm k hlt).mpr hexecuted) hk
          · intro _
            exact output_alike halike'.symm

/-- A command that finds no controller, which is given with a file or without one. -/
def raidRun (downloadUrl : Option String) : Option (Agent Nat) :=
  Lts.exec Agent.step (executeTasks [⟨"raid", downloadUrl, none, none, none, .undefined⟩])
    (if downloadUrl.isSome then [.getFile 0 none, .exec 0 true (some ⟨.number 1, "Error"⟩) "no controller" ""]
      else [.exec 0 false (some ⟨.number 1, "Error"⟩) "no controller" ""])

theorem commands_reported_alike_iff_failure : ∃ s t, raidRun none = some s ∧ raidRun (some "/raid") = some t ∧
    commands s.log = commands t.log := by
  obtain ⟨s, hs, hended⟩ : ∃ s, raidRun none = some s ∧ s.pending = [] := ⟨_, rfl, rfl⟩
  obtain ⟨t, ht, hended'⟩ : ∃ t, raidRun (some "/raid") = some t ∧ t.pending = [] := ⟨_, rfl, rfl⟩
  refine ⟨s, t, hs, ht, ?_⟩
  let results : Nat → Result Nat := fun _ => ⟨some ⟨.number 1, "Error"⟩, "no controller", ""⟩
  exact (commands_reported_alike_iff [⟨"raid", none, none, none, none, .undefined⟩]
    [⟨"raid", some "/raid", none, none, none, .undefined⟩] results rfl hs ht (by simp [Follows, results])
    (by simp [Follows, results]) hended hended').1

/-- Only the run that downloads a file posts the output of the command that fails. -/
theorem inline_failure_without_output :
    (raidRun none).map (fun s => (reports s.log).map (·.map Task.output)) =
      some [[(none, none, .error ⟨.number 1, "Error"⟩)]] ∧
    (raidRun (some "/raid")).map (fun s => (reports s.log).map (·.map Task.output)) =
      some [[(some "no controller", some "", .error ⟨.number 1, "Error"⟩)]] := by
  exact ⟨rfl, rfl⟩

end Runs

end OnTaskGraph.Bootstrap
