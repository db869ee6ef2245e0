import Mathlib.Algebra.GroupWithZero.Nat
import OnTaskGraph.History
import OnTaskGraph.Lts

/-! The bootstrap agent: `executeTasks` runs the commands of a task list through
`eachSeries`, whose callbacks are fired in any order in which they are waited for, and
gives the list to `updateTasks`. The log is kept newest entry first. -/

namespace OnTaskGraph.Bootstrap

/-- A value of JavaScript with numbers from `N`; arrays and other objects are compared by
reference. -/
inductive Value (N : Type)
  | undefined
  | null
  | bool (b : Bool)
  | number (x : N)
  | string (s : String)
  | object
  deriving DecidableEq

/-- An Error of `exec` or of a download. -/
structure Failure (N : Type) where
  code : Value N
  text : String
  deriving DecidableEq

/-- What `error` of a task has been set to. -/
inductive TaskError (N : Type)
  | undefined
  | null
  | error (e : Failure N)
  | text (s : String)
  deriving DecidableEq

structure Task (N : Type) where
  cmd : String
  downloadUrl : Option String
  /-- `none` if it is no Array -/
  acceptedResponseCodes : Option (List (Value N))
  stdout : Option String
  stderr : Option String
  error : TaskError N
  deriving DecidableEq

/-- A call whose callback has not been fired yet. `exec` is called for a task with a file
or for one without, with different callbacks. -/
inductive Call
  | getFile (k : Nat)
  | exec (k : Nat) (downloaded : Bool)
  deriving DecidableEq

inductive Event (N : Type)
  | getFile (k : Nat)
  | exec (k : Nat) (cmd : String)
  | ended (k : Nat) (error : Option (Failure N))
  | updateTasks (tasks : List (Task N))

structure Agent (N : Type) where
  tasks : List (Task N)
  completed : Nat
  /-- `callback` of `eachSeries` is the empty function. -/
  replaced : Bool
  pending : List Call
  log : List (Event N)

/-- A callback that is fired, with its arguments. -/
inductive Firing (N : Type)
  | getFile (k : Nat) (error : Option (Failure N))
  | exec (k : Nat) (downloaded : Bool) (error : Option (Failure N)) (stdout stderr : String)

def Firing.call {N : Type} : Firing N → Call
  | .getFile k _ => .getFile k
  | .exec k downloaded _ _ _ => .exec k downloaded

section Definitions

variable {N : Type} [DecidableEq N] [Zero N]

namespace Value

def truthy : Value N → Bool
  | undefined | null => false
  | bool b => b
  | number x => x ≠ 0
  | string s => s ≠ ""
  | object => true

/-- `===`, with no object on both sides -/
def equals : Value N → Value N → Bool
  | object, _ => false
  | x, y => x = y

def isNumber : Value N → Bool
  | number _ => true
  | _ => false

end Value

omit [DecidableEq N] [Zero N] in
def checkValidAcceptCode : Option (List (Value N)) → Bool
  | none => false
  | some code => code.all Value.isNumber

namespace Task

def downloads (task : Task N) : Bool := task.downloadUrl.any (· ≠ "")

/-- The `indexOf` is behind the check that there is an array. -/
def accepts (task : Task N) (error : Failure N) : Bool :=
  checkValidAcceptCode task.acceptedResponseCodes &&
    (task.acceptedResponseCodes.getD []).any fun x => x.equals error.code

/-- What `updateTasks` makes of a task before it is written as JSON. -/
def posted (task : Task N) : Task N :=
  match task.error with
  | .error e => if e.code.truthy then task else { task with error := .text e.text }
  | _ => task

def record (task : Task N) (error : Option (Failure N)) (stdout stderr : Option String) : Task N :=
  { task with
    stdout := stdout
    stderr := stderr
    error := match error with
      | none => .null
      | some e => .error e }

end Task

/-- The task with what is recorded in it, and the argument that `_done` is called with. -/
def handleExecResult (task : Task N) (error : Option (Failure N)) (stdout stderr : Option String) :
    Task N × Option (Failure N) :=
  (task.record error stdout stderr,
    match error with
    | none => none
    | some e => if task.accepts e then none else some e)

namespace Agent

def start (s : Agent N) (c : Call) (e : Event N) : Agent N :=
  { s with pending := s.pending ++ [c], log := e :: s.log }

/-- The iterator is called for the task at `completed`. -/
def iterate (s : Agent N) : Agent N :=
  match s.tasks[s.completed]? with
  | none => s
  | some task =>
    if task.downloads then s.start (.getFile s.completed) (.getFile s.completed)
    else s.start (.exec s.completed false) (.exec s.completed task.cmd)

/-- `callback` of `eachSeries` -/
def callback (s : Agent N) : Agent N :=
  if s.replaced then s
  else
    let tasks := s.tasks.map Task.posted
    { s with tasks := tasks, log := .updateTasks tasks :: s.log }

def done (s : Agent N) : Option (Failure N) → Agent N
  | some _ => { s.callback with replaced := true }
  | none =>
    let t := { s with completed := s.completed + 1 }
    if t.tasks.length ≤ t.completed then t.callback else t.iterate

def handle (s : Agent N) (k : Nat) (error : Option (Failure N)) (stdout stderr : Option String) : Agent N :=
  match s.tasks[k]? with
  | none => s
  | some task =>
    let r := handleExecResult task error stdout stderr
    { s with tasks := s.tasks.set k r.1, log := .ended k error :: s.log }.done r.2

def run (s : Agent N) : Firing N → Agent N
  | .getFile k (some error) => s.handle k (some error) none none
  | .getFile k none =>
    match s.tasks[k]? with
    | none => s
    | some task => s.start (.exec k true) (.exec k task.cmd)
  | .exec k true error stdout stderr => s.handle k error (some stdout) (some stderr)
  | .exec k false (some error) _ _ => s.handle k (some error) none none
  | .exec k false none stdout stderr => s.handle k none (some stdout) (some stderr)

/-- Each callback that is waited for is fired once. -/
def step (s : Agent N) (firing : Firing N) : Option (Agent N) :=
  if firing.call ∈ s.pending then some ({ s with pending := s.pending.erase firing.call }.run firing) else none

end Agent

def executeTasks (tasks : List (Task N)) : Agent N :=
  let s : Agent N := { tasks, completed := 0, replaced := false, pending := [], log := [] }
  if tasks.length = 0 then s.callback else s.iterate

end Definitions

section Serial

variable {N : Type}

/-- The task has been executed without an error, or with a code that it accepts. -/
def Task.Succeeds (task : Task N) (error : Option (Failure N)) : Prop :=
  ∀ e ∈ error, ∃ codes : List N, task.acceptedResponseCodes = some (codes.map .number) ∧
    ∃ c ∈ codes, e.code = .number c

/-- The part of a task that it is given with. -/
def Task.plan (task : Task N) : Task N := { task with stdout := none, stderr := none, error := .undefined }

def Event.starts : Event N → Option Nat
  | .getFile k | .exec k _ => some k
  | _ => none

def reports (log : List (Event N)) : List (List (Task N)) :=
  log.filterMap fun e =>
    match e with
    | .updateTasks data => some data
    | _ => none

def EndedWell (tasks : List (Task N)) (log : List (Event N)) (k : Nat) : Prop :=
  ∃ task error, tasks[k]? = some task ∧ .ended k error ∈ log ∧ task.Succeeds error

/-- Something of task `k` may be started: all before it have ended well, nothing has
failed, and no command has been started of a task that is not before it. -/
structure Ready (tasks : List (Task N)) (k : Nat) (log : List (Event N)) : Prop where
  before : ∀ j < k, EndedWell tasks log j
  unfailed : ∀ j error task, .ended j error ∈ log → tasks[j]? = some task → task.Succeeds error
  order : ∀ j cmd, .exec j cmd ∈ log → j < k
  silent : reports log = []

/-- What has been started has ended, and nothing is left to be started. -/
structure Settled (tasks : List (Task N)) (log : List (Event N)) : Prop where
  ended : ∀ e ∈ log, ∀ k ∈ e.starts, ∃ error, .ended k error ∈ log
  last : (∀ k < tasks.length, EndedWell tasks log k) ∨
    ∃ k error task, .ended k error ∈ log ∧ tasks[k]? = some task ∧ ¬ task.Succeeds error
  silent : reports log = []

/-- What an event of a serial execution may rely on among the earlier ones. A task ends
without its command only with an error, when its file has been asked for. -/
def Serial (tasks : List (Task N)) : Event N → List (Event N) → Prop
  | .getFile k, log => Ready tasks k log
  | .exec k cmd, log => Ready tasks k log ∧ (tasks[k]?).map Task.cmd = some cmd
  | .ended k error, log => ((∃ cmd, .exec k cmd ∈ log) ∨ (error.isSome ∧ .getFile k ∈ log)) ∧
      ∀ error, .ended k error ∉ log
  | .updateTasks _, log => Settled tasks log

/-- Every task before `k` has ended well, and nothing else has happened. -/
structure Went (tasks : List (Task N)) (k : Nat) (log : List (Event N)) : Prop where
  before : ∀ j < k, EndedWell tasks log j
  ended : ∀ j error, .ended j error ∈ log → j < k ∧ ∀ task, tasks[j]? = some task → task.Succeeds error
  started : ∀ e ∈ log, ∀ j ∈ e.starts, j < k
  silent : reports log = []

/-- What has been logged of task `k` while a call is waited for. -/
inductive Underway (k : Nat) : Call → List (Event N) → Prop
  | getFile : Underway k (.getFile k) [.getFile k]
  | downloaded (cmd : String) : Underway k (.exec k true) [.exec k cmd, .getFile k]
  | inline (cmd : String) : Underway k (.exec k false) [.exec k cmd]

inductive Stage (tasks : List (Task N)) (s : Agent N) : Prop
  | waiting (c : Call) (new log : List (Event N)) (hpending : s.pending = [c])
      (hlt : s.completed < tasks.length) (hreplaced : s.replaced = false) (hlog : s.log = new ++ log)
      (hwent : Went tasks s.completed log) (hnew : Underway s.completed c new)
  | finished (data : List (Task N)) (hpending : s.pending = []) (hlog : reports s.log = [data])

structure Agent.Inv (tasks : List (Task N)) (s : Agent N) : Prop where
  plans : s.tasks.map Task.plan = tasks.map Task.plan
  chronicle : History.Chronicle (Serial tasks) s.log
  stage : Stage tasks s

theorem Went.nil (tasks : List (Task N)) : Went tasks 0 [] where
  before := fun j hj => absurd hj (Nat.not_lt_zero j)
  ended := by simp
  started := by simp
  silent := rfl

@[simp] theorem reports_updateTasks (data : List (Task N)) (log : List (Event N)) :
    reports (.updateTasks data :: log) = data :: reports log := rfl

@[simp] theorem reports_ended (k : Nat) (error : Option (Failure N)) (log : List (Event N)) :
    reports (.ended k error :: log) = reports log := rfl

@[simp] theorem reports_exec (k : Nat) (cmd : String) (log : List (Event N)) :
    reports (.exec k cmd :: log) = reports log := rfl

@[simp] theorem reports_getFile (k : Nat) (log : List (Event N)) : reports (.getFile k :: log) = reports log :=
  rfl

theorem EndedWell.append {tasks : List (Task N)} {log : List (Event N)} {k : Nat} (new : List (Event N))
    (h : EndedWell tasks log k) : EndedWell tasks (new ++ log) k := by
  obtain ⟨task, error, htask, hlog, hgood⟩ := h
  exact ⟨task, error, htask, List.mem_append_right _ hlog, hgood⟩

theorem Underway.starts {k : Nat} {c : Call} {new : List (Event N)} (h : Underway k c new) :
    ∀ e ∈ new, e.starts = some k := by
  cases h <;> simp [Event.starts]

theorem Underway.getFile_mem {k : Nat} {new : List (Event N)} (h : Underway k (.getFile k) new) :
    .getFile k ∈ new := by
  cases h
  exact List.mem_singleton_self _

theorem Underway.exec_mem {k : Nat} {downloaded : Bool} {new : List (Event N)}
    (h : Underway k (.exec k downloaded) new) : ∃ cmd, .exec k cmd ∈ new := by
  cases h <;> exact ⟨_, List.mem_cons_self⟩

/-- The last callback of a task is that of its command, or that of a failed download. -/
def Last (k : Nat) (error : Option (Failure N)) (c : Call) : Prop :=
  (∃ downloaded, c = .exec k downloaded) ∨ (c = .getFile k ∧ error.isSome)

theorem Underway.not_ended {k j : Nat} {c : Call} {new : List (Event N)} {error : Option (Failure N)}
    (h : Underway k c new) : .ended j error ∉ new := by
  intro hmem
  have hstarts := h.starts _ hmem
  simp [Event.starts] at hstarts

@[simp] theorem Underway.reports_append {k : Nat} {c : Call} {new : List (Event N)} (h : Underway k c new)
    (log : List (Event N)) : reports (new ++ log) = reports log := by
  cases h <;> rfl

theorem Went.ready {tasks : List (Task N)} {k : Nat} {log : List (Event N)} (h : Went tasks k log) :
    Ready tasks k log where
  before := h.before
  unfailed := fun j error task hlog => (h.ended j error hlog).2 task
  order := fun j _ hlog => h.started _ hlog j rfl
  silent := h.silent

theorem Went.ready_downloaded {tasks : List (Task N)} {k : Nat} {log : List (Event N)} (h : Went tasks k log) :
    Ready tasks k (.getFile k :: log) where
  before := fun j hj => (h.before j hj).append [.getFile k]
  unfailed := by
    intro j error task hlog
    exact (h.ended j error (by simpa using hlog)).2 task
  order := by
    intro j cmd hlog
    exact h.started _ (by simpa using hlog) j rfl
  silent := h.silent

theorem Went.ended_task {tasks : List (Task N)} {k : Nat} {log new : List (Event N)} {c : Call} {task : Task N}
    {error : Option (Failure N)} (h : Went tasks k log) (hnew : Underway k c new) (htask : tasks[k]? = some task)
    (hgood : task.Succeeds error) : Went tasks (k + 1) (.ended k error :: (new ++ log)) where
  before := by
    intro j hj
    rcases Nat.lt_succ_iff_lt_or_eq.mp hj with hlt | rfl
    · exact (h.before j hlt).append (.ended k error :: new)
    · exact ⟨task, error, htask, List.mem_cons_self, hgood⟩
  ended := by
    intro j e hlog
    simp only [List.mem_cons, Event.ended.injEq, List.mem_append, hnew.not_ended, false_or] at hlog
    rcases hlog with ⟨rfl, rfl⟩ | hlog
    · refine ⟨Nat.lt_succ_self _, fun other hother => ?_⟩
      obtain rfl := Option.some.inj (htask.symm.trans hother)
      exact hgood
    · exact ⟨Nat.lt_succ_of_lt (h.ended j e hlog).1, (h.ended j e hlog).2⟩
  started := by
    intro e hlog j hj
    simp only [List.mem_cons, List.mem_append] at hlog
    rcases hlog with rfl | hlog | hlog
    · simp [Event.starts] at hj
    · rw [hnew.starts e hlog, Option.mem_some_iff] at hj
      omega
    · exact Nat.lt_succ_of_lt (h.started e hlog j hj)
  silent := by rw [reports_ended, hnew.reports_append, h.silent]

theorem Went.serial_ended {tasks : List (Task N)} {k : Nat} {log new : List (Event N)} {c : Call}
    (h : Went tasks k log) (hnew : Underway k c new) {error : Option (Failure N)} (hlast : Last k error c) :
    Serial tasks (.ended k error) (new ++ log) := by
  constructor
  · obtain ⟨downloaded, rfl⟩ | ⟨rfl, herror⟩ := hlast
    · obtain ⟨cmd, hcmd⟩ := hnew.exec_mem
      exact .inl ⟨cmd, List.mem_append_left _ hcmd⟩
    · exact .inr ⟨herror, List.mem_append_left _ hnew.getFile_mem⟩
  · intro other hlog
    simp only [List.mem_append, hnew.not_ended, false_or] at hlog
    exact absurd (h.ended k other hlog).1 (Nat.lt_irrefl k)

theorem Went.settled {tasks : List (Task N)} {log : List (Event N)} (h : Went tasks tasks.length log) :
    Settled tasks log where
  ended := by
    intro e he k hk
    obtain ⟨task, error, htask, hlog, hgood⟩ := h.before k (h.started e he k hk)
    exact ⟨error, hlog⟩
  last := .inl h.before
  silent := h.silent

theorem Went.settled_failed {tasks : List (Task N)} {k : Nat} {log new : List (Event N)} {c : Call}
    {task : Task N}
    {error : Option (Failure N)} (h : Went tasks k log) (hnew : Underway k c new) (htask : tasks[k]? = some task)
    (hbad : ¬ task.Succeeds error) : Settled tasks (.ended k error :: (new ++ log)) where
  ended := by
    intro e he j hj
    simp only [List.mem_cons, List.mem_append] at he
    rcases he with rfl | he | he
    · simp [Event.starts] at hj
    · rw [hnew.starts e he, Option.mem_some_iff] at hj
      exact ⟨error, by simp [hj]⟩
    · obtain ⟨other, e', htask', hlog, hgood⟩ := h.before j (h.started e he j hj)
      exact ⟨e', by simp [hlog]⟩
  last := .inr ⟨k, error, task, List.mem_cons_self, htask, hbad⟩
  silent := by rw [reports_ended, hnew.reports_append, h.silent]

end Serial

section Runs

variable {N : Type} [DecidableEq N] [Zero N]

omit [DecidableEq N] [Zero N] in
theorem checkValidAcceptCode_iff (codes : Option (List (Value N))) :
    checkValidAcceptCode codes ↔ ∃ numbers : List N, codes = some (numbers.map .number) := by
  cases codes with
  | none => simp [checkValidAcceptCode]
  | some values =>
    simp only [checkValidAcceptCode, List.all_eq_true, Option.some.injEq]
    constructor
    · intro hall
      induction values with
      | nil => exact ⟨[], rfl⟩
      | cons x values ih =>
        obtain ⟨numbers, hnumbers⟩ := ih fun y hy => hall y (List.mem_cons_of_mem x hy)
        cases x with
        | number a => exact ⟨a :: numbers, by simp [hnumbers]⟩
        | _ => simp [Value.isNumber] at hall
    · rintro ⟨numbers, rfl⟩ x hx
      obtain ⟨a, ha, rfl⟩ := List.mem_map.mp hx
      rfl

omit [Zero N] in
theorem Task.accepts_iff (task : Task N) (e : Failure N) :
    task.accepts e ↔ ∃ codes : List N, task.acceptedResponseCodes = some (codes.map .number) ∧
      ∃ c ∈ codes, e.code = .number c := by
  rw [Task.accepts, Bool.and_eq_true, checkValidAcceptCode_iff]
  constructor
  · rintro ⟨⟨codes, hcodes⟩, hany⟩
    refine ⟨codes, hcodes, ?_⟩
    rw [hcodes, Option.getD_some, List.any_map, List.any_eq_true] at hany
    obtain ⟨c, hc, heq⟩ := hany
    exact ⟨c, hc, (by simpa [Value.equals] using heq : Value.number c = e.code).symm⟩
  · rintro ⟨codes, hcodes, c, hc, he⟩
    refine ⟨⟨codes, hcodes⟩, ?_⟩
    rw [hcodes, Option.getD_some, List.any_map, List.any_eq_true]
    exact ⟨c, hc, by simp [Value.equals, he]⟩

omit [Zero N] in
theorem handleExecResult_eq_none {task : Task N} {error : Option (Failure N)} {stdout stderr : Option String} :
    (handleExecResult task error stdout stderr).2 = none ↔ task.Succeeds error := by
  cases error with
  | none => simp [handleExecResult, Task.Succeeds]
  | some e =>
    rw [Task.Succeeds]
    simp only [Option.mem_def, Option.some.injEq, forall_eq', ← Task.accepts_iff]
    cases h : task.accepts e <;> simp [handleExecResult, h]

@[simp] theorem Task.plan_posted (task : Task N) : task.posted.plan = task.plan := by
  unfold Task.posted
  split
  · split <;> rfl
  · rfl

omit [DecidableEq N] [Zero N] in
@[simp] theorem Task.plan_record (task : Task N) (error : Option (Failure N)) (stdout stderr : Option String) :
    (task.record error stdout stderr).plan = task.plan := rfl

omit [DecidableEq N] [Zero N] in
theorem Task.succeeds_congr {task other : Task N} (h : task.plan = other.plan) (error : Option (Failure N)) :
    task.Succeeds error ↔ other.Succeeds error := by
  have hcodes : task.acceptedResponseCodes = other.acceptedResponseCodes := congrArg (·.acceptedResponseCodes) h
  rw [Task.Succeeds, Task.Succeeds, hcodes]

section Plans

variable {tasks now : List (Task N)} {k : Nat}

omit [DecidableEq N] [Zero N] in
/-- A list with the same plans has the same tasks, apart from their results. -/
theorem exists_of_plans (h : now.map Task.plan = tasks.map Task.plan) (hlt : k < tasks.length) :
    ∃ task given, now[k]? = some task ∧ tasks[k]? = some given ∧ task.plan = given.plan := by
  have hlen : now.length = tasks.length := by simpa using congrArg List.length h
  have hk := congrArg (·[k]?) h
  simp only [List.getElem?_map, List.getElem?_eq_getElem hlt, List.getElem?_eq_getElem (hlen ▸ hlt),
    Option.map_some, Option.some.injEq] at hk
  exact ⟨now[k], tasks[k], List.getElem?_eq_getElem _, List.getElem?_eq_getElem _, hk⟩

omit [DecidableEq N] [Zero N] in
theorem set_plan (h : now.map Task.plan = tasks.map Task.plan) {task new : Task N} (htask : now[k]? = some task)
    (hnew : new.plan = task.plan) : (now.set k new).map Task.plan = tasks.map Task.plan := by
  rw [List.map_set, hnew, ← h]
  refine List.ext_getElem? fun i => ?_
  rw [List.getElem?_set]
  split
  · rename_i hi
    subst hi
    simp only [List.length_map, List.getElem?_map, htask, Option.map_some]
    exact if_pos (List.getElem?_eq_some_iff.mp htask).1
  · rfl

end Plans

namespace Agent

variable {tasks : List (Task N)} {s t : Agent N}

/-- The empty function has not replaced the callback, and nothing is waited for any more. -/
theorem callback_inv (hpending : s.pending = []) (hreplaced : s.replaced = false)
    (hplans : s.tasks.map Task.plan = tasks.map Task.plan) (hlog : History.Chronicle (Serial tasks) s.log)
    (hsettled : Settled tasks s.log) : s.callback.Inv tasks where
  plans := by
    have hposted : Task.plan ∘ Task.posted = Task.plan (N := N) := funext Task.plan_posted
    simpa [callback, hreplaced, List.map_map, hposted] using hplans
  chronicle := by
    simp only [callback, hreplaced]
    exact ⟨hsettled, hlog⟩
  stage := by
    refine .finished (s.tasks.map Task.posted) ?_ ?_
    · simpa [callback, hreplaced] using hpending
    · simp [callback, hreplaced, hsettled.silent]

theorem callback_pending : s.callback.pending = s.pending := by
  unfold callback
  split <;> rfl

omit [DecidableEq N] [Zero N] in
theorem Inv.replace (h : s.Inv tasks) (hpending : s.pending = []) : Inv tasks { s with replaced := true } where
  plans := h.plans
  chronicle := h.chronicle
  stage := by
    cases h.stage with
    | waiting c new log hone => simp [hpending] at hone
    | finished data hnone hdata => exact .finished data hnone hdata

omit [DecidableEq N] [Zero N] in
theorem iterate_inv (hpending : s.pending = []) (hreplaced : s.replaced = false)
    (hplans : s.tasks.map Task.plan = tasks.map Task.plan) (hlog : History.Chronicle (Serial tasks) s.log)
    (hlt : s.completed < tasks.length) (hwent : Went tasks s.completed s.log) : s.iterate.Inv tasks := by
  obtain ⟨task, given, htask, hgiven, hplan⟩ := exists_of_plans hplans hlt
  have hcmd : given.cmd = task.cmd := congrArg (·.cmd) hplan.symm
  simp only [iterate, htask]
  split
  · refine ⟨hplans, ⟨hwent.ready, hlog⟩, ?_⟩
    exact .waiting _ _ s.log (by simp [start, hpending]) hlt hreplaced rfl hwent .getFile
  · refine ⟨hplans, ⟨⟨hwent.ready, by simp [hgiven, hcmd]⟩, hlog⟩, ?_⟩
    exact .waiting _ _ s.log (by simp [start, hpending]) hlt hreplaced rfl hwent (.inline _)

theorem handle_eq {k : Nat} {task : Task N} (h : s.tasks[k]? = some task) (error : Option (Failure N))
    (stdout stderr : Option String) : s.handle k error stdout stderr =
      { s with
        tasks := s.tasks.set k (task.record error stdout stderr)
        log := .ended k error :: s.log }.done (handleExecResult task error stdout stderr).2 := by
  rw [handle, h]
  rfl

theorem handle_inv {c : Call} {new log : List (Event N)} (hpending : s.pending = [])
    (hreplaced : s.replaced = false)
    (hplans : s.tasks.map Task.plan = tasks.map Task.plan) (hchronicle : History.Chronicle (Serial tasks) s.log)
    (hlt : s.completed < tasks.length) (hlog : s.log = new ++ log) (hwent : Went tasks s.completed log)
    (hnew : Underway s.completed c new) {error : Option (Failure N)} (hlast : Last s.completed error c)
    (stdout stderr : Option String) : (s.handle s.completed error stdout stderr).Inv tasks := by
  obtain ⟨task, given, htask, hgiven, hplan⟩ := exists_of_plans hplans hlt
  have hlen : s.tasks.length = tasks.length := by simpa using congrArg List.length hplans
  have hset := set_plan hplans htask (Task.plan_record task error stdout stderr)
  have hended : History.Chronicle (Serial tasks) (.ended s.completed error :: s.log) := by
    refine ⟨?_, hchronicle⟩
    rw [hlog]
    exact hwent.serial_ended hnew hlast
  rw [handle_eq htask]
  cases hdone : (handleExecResult task error stdout stderr).2 with
  | none =>
    have hgood : given.Succeeds error := (Task.succeeds_congr hplan error).mp (handleExecResult_eq_none.mp hdone)
    have hwent' := hwent.ended_task hnew hgiven hgood
    rw [← hlog] at hwent'
    simp only [done, List.length_set]
    by_cases hle : s.tasks.length ≤ s.completed + 1
    · rw [if_pos hle]
      have hcompleted : s.completed + 1 = tasks.length := by omega
      rw [hcompleted] at hwent'
      exact callback_inv hpending hreplaced hset hended hwent'.settled
    · rw [if_neg hle]
      have hnext : s.completed + 1 < tasks.length := by omega
      exact iterate_inv hpending hreplaced hset hended hnext hwent'
  | some e =>
    have hbad : ¬ given.Succeeds error := by
      rw [← Task.succeeds_congr hplan]
      intro hgood
      rw [handleExecResult_eq_none.mpr hgood] at hdone
      cases hdone
    have hsettled := hwent.settled_failed hnew hgiven hbad
    rw [← hlog] at hsettled
    rw [done]
    apply Inv.replace
    · exact callback_inv hpending hreplaced hset hended hsettled
    · rw [callback_pending]
      exact hpending

theorem executeTasks_inv (tasks : List (Task N)) : (executeTasks tasks).Inv tasks := by
  unfold executeTasks
  by_cases hempty : tasks.length = 0
  · rw [if_pos hempty]
    refine callback_inv rfl rfl rfl trivial ?_
    have hwent := Went.nil tasks
    rw [← hempty] at hwent
    exact hwent.settled
  · rw [if_neg hempty]
    exact iterate_inv rfl rfl rfl trivial (Nat.pos_of_ne_zero hempty) (Went.nil tasks)

/-- What the callback of `exec` records of an output: nothing for a command without a
file that fails. -/
def shown (downloaded : Bool) (error : Option (Failure N)) (output : String) : Option String :=
  if downloaded || error.isNone then some output else none

theorem run_exec (s : Agent N) (k : Nat) (downloaded : Bool) (error : Option (Failure N))
    (stdout stderr : String) :
    s.run (.exec k downloaded error stdout stderr) =
      s.handle k error (shown downloaded error stdout) (shown downloaded error stderr) := by
  cases downloaded with
  | true => rfl
  | false => cases error <;> rfl

/-- A callback starts the command of the task at `completed`, or gives its result. -/
theorem step_cases {firing : Firing N} (h : s.step firing = some t) (hs : s.Inv tasks) :
    (∃ task, firing = .getFile s.completed none ∧ s.pending = [.getFile s.completed] ∧
      s.tasks[s.completed]? = some task ∧
      t = { s with pending := [] }.start (.exec s.completed true) (.exec s.completed task.cmd)) ∨
    (∃ e, firing = .getFile s.completed (some e) ∧ s.pending = [.getFile s.completed] ∧
      t = { s with pending := [] }.handle s.completed (some e) none none) ∨
    ∃ downloaded error stdout stderr, firing = .exec s.completed downloaded error stdout stderr ∧
      s.pending = [.exec s.completed downloaded] ∧ t = { s with pending := [] }.handle s.completed error
        (shown downloaded error stdout) (shown downloaded error stderr) := by
  simp only [step, Option.ite_none_right_eq_some, Option.some.injEq] at h
  obtain ⟨hmem, rfl⟩ := h
  cases hs.stage with
  | finished data hnone => simp [hnone] at hmem
  | waiting c new log hone hlt hreplaced hlog hwent hnew =>
    rw [hone, List.mem_singleton] at hmem
    obtain ⟨task, given, htask, hgiven, hplan⟩ := exists_of_plans hs.plans hlt
    have herase : s.pending.erase firing.call = [] := by simp [hone, hmem]
    rw [herase]
    cases firing with
    | getFile k error =>
      cases hnew <;> cases hmem
      cases error with
      | none => exact .inl ⟨task, rfl, hone, htask, by simp only [run, htask]⟩
      | some e => exact .inr (.inl ⟨e, rfl, hone, rfl⟩)
    | exec k downloaded error stdout stderr =>
      rw [run_exec]
      cases hnew <;> cases hmem
      · exact .inr (.inr ⟨_, error, stdout, stderr, rfl, hone, rfl⟩)
      · exact .inr (.inr ⟨_, error, stdout, stderr, rfl, hone, rfl⟩)

/-- The callback of the last call of a task starts nothing else of it. -/
theorem step_ends {firing : Firing N} (h : s.step firing = some t) (hs : s.Inv tasks) :
    (∃ task, s.pending = [.getFile s.completed] ∧ s.tasks[s.completed]? = some task ∧
      t = { s with pending := [] }.start (.exec s.completed true) (.exec s.completed task.cmd)) ∨
    ∃ error stdout stderr, (∃ c, s.pending = [c] ∧ Last s.completed error c) ∧
      t = { s with pending := [] }.handle s.completed error stdout stderr := by
  obtain ⟨task, _, hrest⟩ | ⟨_, _, hone, ht⟩ | ⟨downloaded, _, _, _, _, hone, ht⟩ := step_cases h hs
  · exact .inl ⟨task, hrest⟩
  · exact .inr ⟨_, _, _, ⟨_, hone, .inr ⟨rfl, rfl⟩⟩, ht⟩
  · exact .inr ⟨_, _, _, ⟨_, hone, .inl ⟨downloaded, rfl⟩⟩, ht⟩

theorem step_inv {firing : Firing N} (h : s.step firing = some t) (hs : s.Inv tasks) : t.Inv tasks := by
  cases hs.stage with
  | finished data hnone => simp [step, hnone] at h
  | waiting c new log hone hlt hreplaced hlog hwent hnew =>
    obtain ⟨task, hget, htask, rfl⟩ | ⟨error, stdout, stderr, ⟨c', hone', hlast⟩, rfl⟩ := step_ends h hs
    · obtain rfl := List.singleton_inj.mp (hone.symm.trans hget)
      cases hnew
      obtain ⟨other, given, hother, hgiven, hplan⟩ := exists_of_plans hs.plans hlt
      obtain rfl := Option.some.inj (htask.symm.trans hother)
      have hcmd : given.cmd = task.cmd := congrArg (·.cmd) hplan.symm
      have hready := hwent.ready_downloaded
      have hserial : Serial tasks (.exec s.completed task.cmd) s.log := by
        rw [hlog]
        exact ⟨hready, by simp [hgiven, hcmd]⟩
      refine ⟨hs.plans, ⟨hserial, hs.chronicle⟩, ?_⟩
      refine .waiting _ _ log rfl hlt hreplaced ?_ hwent (.downloaded task.cmd)
      simp [start, hlog]
    · obtain rfl := List.singleton_inj.mp (hone.symm.trans hone')
      exact handle_inv
        (s := { s with pending := [] }) rfl hreplaced hs.plans hs.chronicle hlt hlog hwent hnew hlast _ _

omit [DecidableEq N] [Zero N] in
theorem iterate_log (s : Agent N) : ∃ new, s.iterate.log = new ++ s.log ∧ ∀ k error, .ended k error ∉ new := by
  unfold iterate
  split
  · exact ⟨[], rfl, by simp⟩
  · split
    · exact ⟨[.getFile s.completed], rfl, by simp⟩
    · exact ⟨[.exec s.completed _], rfl, by simp⟩

theorem callback_log (s : Agent N) : ∃ new, s.callback.log = new ++ s.log ∧ ∀ k error, .ended k error ∉ new := by
  unfold callback
  split
  · exact ⟨[], rfl, by simp⟩
  · exact ⟨[.updateTasks _], rfl, by simp⟩

theorem done_log (s : Agent N) (r : Option (Failure N)) :
    ∃ new, (s.done r).log = new ++ s.log ∧ ∀ k error, .ended k error ∉ new := by
  cases r with
  | some e => exact callback_log s
  | none =>
    simp only [done]
    split
    · exact callback_log { s with completed := s.completed + 1 }
    · exact iterate_log { s with completed := s.completed + 1 }

/-- A task whose command has not been started has ended with the error that the callback
of its download was fired with. -/
def Explained (fired : List (Firing N)) (log : List (Event N)) : Prop :=
  ∀ k error, .ended k error ∈ log →
    (∃ cmd, .exec k cmd ∈ log) ∨ ∃ e, error = some e ∧ .getFile k (some e) ∈ fired

omit [DecidableEq N] [Zero N] in
theorem Explained.append {fired : List (Firing N)} {log : List (Event N)} (h : Explained fired log)
    (firings : List (Firing N)) (new : List (Event N)) (hnew : ∀ k error, .ended k error ∉ new) :
    Explained (fired ++ firings) (new ++ log) := by
  intro k error hended
  have hold := (List.mem_append.mp hended).resolve_left (hnew k error)
  rcases h k error hold with ⟨cmd, hcmd⟩ | ⟨e, he, hfired⟩
  · exact .inl ⟨cmd, List.mem_append_right _ hcmd⟩
  · exact .inr ⟨e, he, List.mem_append_left _ hfired⟩

theorem handle_explained {fired : List (Firing N)} {firing : Firing N} (h : Explained fired s.log) {k : Nat}
    {error : Option (Failure N)} (stdout stderr : Option String)
    (hk : (∃ cmd, .exec k cmd ∈ s.log) ∨ ∃ e, error = some e ∧ firing = .getFile k (some e)) :
    Explained (fired ++ [firing]) (s.handle k error stdout stderr).log := by
  unfold handle
  split
  · simpa using h.append [firing] [] (by simp)
  · rename_i task htask
    obtain ⟨new, hlog, hnew⟩ := done_log
      { s with
        tasks := s.tasks.set k (handleExecResult task error stdout stderr).1
        log := .ended k error :: s.log } (handleExecResult task error stdout stderr).2
    rw [hlog]
    have hended : Explained (fired ++ [firing]) (.ended k error :: s.log) := by
      rintro j error' (_ | ⟨_, hmem⟩)
      · rcases hk with ⟨cmd, hcmd⟩ | ⟨e, he, rfl⟩
        · exact .inl ⟨cmd, List.mem_cons_of_mem _ hcmd⟩
        · exact .inr ⟨e, he, by simp⟩
      · rcases h j error' hmem with ⟨cmd, hcmd⟩ | ⟨e, he, hfired⟩
        · exact .inl ⟨cmd, List.mem_cons_of_mem _ hcmd⟩
        · exact .inr ⟨e, he, List.mem_append_left _ hfired⟩
    simpa using hended.append [] new hnew

theorem step_explained {fired : List (Firing N)} {firing : Firing N} (h : s.step firing = some t)
    (hs : s.Inv tasks) (hfired : Explained fired s.log) : Explained (fired ++ [firing]) t.log := by
  obtain ⟨task, rfl, _, _, rfl⟩ | ⟨e, rfl, _, rfl⟩ | ⟨downloaded, error, stdout, stderr, rfl, hone, rfl⟩ :=
    step_cases h hs
  · exact hfired.append _ [.exec s.completed task.cmd] (by simp)
  · exact handle_explained (s := { s with pending := [] }) hfired _ _ (.inr ⟨e, rfl, rfl⟩)
  · refine handle_explained (s := { s with pending := [] }) hfired _ _ (.inl ?_)
    cases hs.stage with
    | finished data hnone => simp [hnone] at hone
    | waiting c new log hc hlt hreplaced hlog hwent hnew =>
      obtain rfl := List.singleton_inj.mp (hc.symm.trans hone)
      obtain ⟨cmd, hcmd⟩ := hnew.exec_mem
      exact ⟨cmd, by simp [hlog, hcmd]⟩

theorem run_explained {fired firings : List (Firing N)} (h : Lts.exec step s firings = some t) (hs : s.Inv tasks)
    (hfired : Explained fired s.log) : Explained (fired ++ firings) t.log := by
  induction firings generalizing s fired with
  | nil =>
    obtain rfl := Option.some.inj h
    simpa using hfired
  | cons firing firings ih =>
    obtain ⟨u, hu, hrest⟩ := Option.bind_eq_some_iff.mp h
    simpa using ih hrest (step_inv hu hs) (step_explained hu hs hfired)

def left (s : Agent N) : Nat :=
  match s.pending with
  | [] => 0
  | .exec _ true :: _ => 2 * (s.tasks.length - s.completed) - 1
  | _ => 2 * (s.tasks.length - s.completed)

omit [DecidableEq N] [Zero N] in
theorem left_eq_zero (h : s.pending = []) : s.left = 0 := by
  rw [left, h]

omit [DecidableEq N] [Zero N] in
theorem left_iterate (h : s.pending = []) : s.iterate.left ≤ 2 * (s.tasks.length - s.completed) := by
  unfold iterate
  split
  · simp [left, h]
  · split <;> simp [left, start, h]

theorem left_done (h : s.pending = []) (r : Option (Failure N)) :
    (s.done r).left ≤ 2 * (s.tasks.length - (s.completed + 1)) := by
  cases r with
  | none =>
    simp only [done]
    split
    · rw [left_eq_zero (by rw [callback_pending, h])]
      apply Nat.zero_le
    · exact left_iterate h
  | some e =>
    have hidle : (s.done (some e)).pending = [] := by rw [done, callback_pending, h]
    rw [left_eq_zero hidle]
    apply Nat.zero_le

theorem left_handle (h : s.pending = []) (k : Nat) (error : Option (Failure N)) (stdout stderr : Option String) :
    (s.handle k error stdout stderr).left ≤ 2 * (s.tasks.length - (s.completed + 1)) := by
  cases htask : s.tasks[k]? with
  | none => simp [handle, htask, left, h]
  | some task =>
    have hlen : (s.tasks.set k (task.record error stdout stderr)).length = s.tasks.length := List.length_set
    rw [handle_eq htask, ← hlen]
    exact left_done (s := { s with
      tasks := s.tasks.set k (task.record error stdout stderr), log := .ended k error :: s.log }) h _

theorem step_left {firing : Firing N} (h : s.step firing = some t) (hs : s.Inv tasks) : t.left < s.left := by
  have hlen : s.tasks.length = tasks.length := by simpa using congrArg List.length hs.plans
  cases hs.stage with
  | finished data hnone => simp [step, hnone] at h
  | waiting c new log hone hlt hreplaced hlog hwent hnew =>
    have hsome : 2 * (s.tasks.length - s.completed) - 1 ≤ s.left := by
      rw [left, hone]
      cases hnew <;> simp
    obtain ⟨task, hget, htask, rfl⟩ | ⟨error, stdout, stderr, -, rfl⟩ := step_ends h hs
    · have hleft : s.left = 2 * (s.tasks.length - s.completed) := by rw [left, hget]
      simp only [left, start, List.nil_append] at hleft ⊢
      omega
    · have hhandle := left_handle (s := { s with pending := [] }) rfl s.completed error stdout stderr
      simp only at hhandle
      omega

end Agent

omit [DecidableEq N] [Zero N] in
theorem Stage.pending_length {tasks : List (Task N)} {s : Agent N} (h : Stage tasks s) :
    s.pending.length ≤ 1 := by
  cases h with
  | waiting c new log hone => simp [hone]
  | finished data hnone => simp [hnone]

omit [DecidableEq N] [Zero N] in
theorem Stage.reports_length {tasks : List (Task N)} {s : Agent N} (h : Stage tasks s) :
    (reports s.log).length = if s.pending = [] then 1 else 0 := by
  cases h with
  | waiting c new log hone hlt hreplaced hlog hwent hnew =>
    simp [hone, hlog, hnew.reports_append, hwent.silent]
  | finished data hnone hdata => simp [hnone, hdata]

omit [DecidableEq N] [Zero N] in
theorem Stage.going {tasks : List (Task N)} {s : Agent N} {c : Call} (h : Stage tasks s) (hc : s.pending = [c]) :
    s.completed < tasks.length ∧ s.replaced = false ∧ reports s.log = [] := by
  cases h with
  | waiting _ new log hone hlt hreplaced hlog hwent hnew =>
    exact ⟨hlt, hreplaced, by rw [hlog, hnew.reports_append, hwent.silent]⟩
  | finished data hnone => simp [hnone] at hc

theorem Agent.step_isSome (s : Agent N) (firing : Firing N) :
    (s.step firing).isSome ↔ firing.call ∈ s.pending := by
  simp [Agent.step]

theorem executeTasks_left (tasks : List (Task N)) : (executeTasks tasks).left ≤ 2 * tasks.length := by
  unfold executeTasks
  split
  · rw [Agent.left_eq_zero (by rw [Agent.callback_pending])]
    apply Nat.zero_le
  · exact Agent.left_iterate rfl

theorem executeTasks_explained (tasks : List (Task N)) : Agent.Explained [] (executeTasks tasks).log := by
  have hnone : ∀ s : Agent N, s.log = [] → Agent.Explained [] s.log := by
    intro s hlog k error hended
    simp [hlog] at hended
  unfold executeTasks
  split
  · obtain ⟨new, hlog, hnew⟩ := Agent.callback_log
      ({ tasks, completed := 0, replaced := false, pending := [], log := [] } : Agent N)
    rw [hlog]
    exact (hnone _ rfl).append [] new hnew
  · obtain ⟨new, hlog, hnew⟩ := Agent.iterate_log
      ({ tasks, completed := 0, replaced := false, pending := [], log := [] } : Agent N)
    rw [hlog]
    exact (hnone _ rfl).append [] new hnew

/-- The commands of a task list are executed serially, whatever the callbacks are called
with: every run ends, and has made the report once when it has. The command of a task
that has ended has been started, unless its download has failed. -/
theorem executeTasks_serial (tasks : List (Task N)) (fired : List (Firing N)) (s : Agent N)
    (h : Lts.exec Agent.step (executeTasks tasks) fired = some s) :
    History.Chronicle (Serial tasks) s.log ∧ Agent.Explained fired s.log ∧ s.pending.length ≤ 1 ∧
      (reports s.log).length = (if s.pending = [] then 1 else 0) ∧
      fired.length ≤ 2 * tasks.length ∧ ∀ firing, (s.step firing).isSome ↔ firing.call ∈ s.pending := by
  have hinit := Agent.executeTasks_inv tasks
  have hs := Lts.invariant (Agent.Inv tasks) (fun _ _ _ => Agent.step_inv) hinit h
  have hlen := Lts.length_add_le (Agent.Inv tasks) Agent.left
    (fun _ _ _ hstep hs => ⟨Agent.step_inv hstep hs, Agent.step_left hstep hs⟩) hinit h
  have hleft := executeTasks_left tasks
  have hexplained := Agent.run_explained h hinit (executeTasks_explained tasks)
  exact ⟨hs.chronicle, hexplained, hs.stage.pending_length, hs.stage.reports_length, by omega, s.step_isSome⟩

def flashTasks : List (Task Nat) :=
  [⟨"flash", some "/flash.sh", some [.number 3], none, none, .undefined⟩,
    ⟨"reboot", none, none, none, none, .undefined⟩, ⟨"verify", some "/verify.sh", none, none, none, .undefined⟩]

/-- The second command is started after a code that the first task accepts, and the third
task ends with its download. -/
def flashFirings : List (Firing Nat) :=
  [.getFile 0 none, .exec 0 true (some ⟨.number 3, "Error"⟩) "done" "", .exec 1 false none "" "",
    .getFile 2 (some ⟨.undefined, "Error"⟩)]

theorem executeTasks_serial_accepted : ∃ s, Lts.exec Agent.step (executeTasks flashTasks) flashFirings = some s ∧
    (∃ cmd, .exec 0 cmd ∈ s.log) ∧ (reports s.log).length = if s.pending = [] then 1 else 0 := by
  obtain ⟨s, hs, hended⟩ : ∃ s, Lts.exec Agent.step (executeTasks flashTasks) flashFirings = some s ∧
      .ended 0 (some ⟨.number 3, "Error"⟩) ∈ s.log :=
    ⟨_, rfl, .tail _ (.tail _ (.tail _ (.tail _ (.tail _ (.head _)))))⟩
  obtain ⟨-, hexplained, -, hreports, -⟩ := executeTasks_serial flashTasks flashFirings s hs
  exact ⟨s, hs, (hexplained 0 _ hended).resolve_right (by simp [flashFirings]), hreports⟩

end Runs

end OnTaskGraph.Bootstrap
