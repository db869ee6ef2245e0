import OnTaskGraph.Evaluation

/-! The subscription of `createUpdateTaskDependenciesSubscription`. The selector of a
`map` calls `updateTaskDependencies`, so its first three calls are made before
`mergeLossy` decides whether anything waits for them, and outside the observable whose
errors `updateTaskDependencies` catches. -/

namespace OnTaskGraph

abbrev AttemptId := Nat

structure ConcurrentCounter where
  count : Int
  max : Int

def concurrentCounter (max : Int) : ConcurrentCounter := ⟨0, max⟩

/-- What a call is rejected with, or throws. -/
inductive Reason
  | error
  /-- `null` or `undefined`: `handleStreamError` throws when it reads `err.stack`. -/
  | nullish
  deriving DecidableEq

/-- How far one observable of `updateTaskDependencies` is. -/
inductive AttemptStage
  | dropped
  /-- `forkJoin` waits for the answers of these calls. -/
  | forkJoin (calls : List StoreCall)
  | markTaskEvaluated
  /-- The store has answered `markTaskEvaluated`, with null for an unknown task. -/
  | marked (record : Option TaskData)
  | failed
  | completed

/-- The attempt waits for an answer that can fail. -/
def AttemptStage.fallible : AttemptStage → Bool
  | .forkJoin _ | .markTaskEvaluated => true
  | _ => false

structure Attempt where
  data : TaskData
  stage : AttemptStage

inductive Evaluated
  | checkGraphFinished (data : TaskData)
  | evaluateGraph (g : GraphId)
  deriving DecidableEq

def handleEvaluatedTask (data : TaskData) : Evaluated :=
  if data.state ∈ data.terminalOnStates then .checkGraphFinished data else .evaluateGraph data.graphId

inductive AttemptNote
  | updateTaskDependencies (n : AttemptId)
  /-- The call has succeeded. -/
  | performed (n : AttemptId) (c : StoreCall)
  | markTaskEvaluated (n : AttemptId) (data : TaskData)
  /-- The store has marked a task and returned its record. -/
  | marked (n : AttemptId) (record : TaskData)
  | handleEvaluatedTask (n : AttemptId) (record : TaskData) (next : Evaluated)
  deriving DecidableEq

structure TaskEvaluation where
  records : TaskKey → Option TaskRecord
  /-- Tasks that a poll has found and that are not pushed yet. -/
  found : List TaskData
  subscribed : Bool
  counter : ConcurrentCounter
  attempts : AttemptId → Option Attempt
  /-- Calls of `updateTaskDependencies` that the store has not answered. -/
  calls : List (AttemptId × StoreCall)
  /-- Events pushed into `evaluateTaskStream`. -/
  pushed : List AttemptId
  log : List AttemptNote

/-- `throws` is the call that throws instead of returning a promise. -/
inductive StreamEvent
  | taskFinished (n : AttemptId) (data : TaskData) (throws : Option StoreCall)
  | findUnevaluatedTasks (ts : List TaskKey)
  | evaluateFound (n : AttemptId) (throws : Option StoreCall)
  | resolve (n : AttemptId) (c : StoreCall) (unreachable : List TaskKey)
  | reject (n : AttemptId) (c : StoreCall) (reason : Reason)
  | markTaskEvaluated (n : AttemptId) (throws : Option Reason)
  | executeMark (n : AttemptId)
  | rejectMark (n : AttemptId) (reason : Reason)
  | emit (n : AttemptId)
  /-- Another process writes a task record. -/
  | write (t : TaskKey) (R : Option TaskRecord)

def StreamEvent.pushes : StreamEvent → Option (AttemptId × Option StoreCall)
  | .taskFinished n _ throws | .evaluateFound n throws => some (n, throws)
  | _ => none

/-- What `store.findUnevaluatedTasks` asks for. -/
def TaskRecord.unevaluated (R : TaskRecord) : Bool := R.state.finished && R.reachable && !R.evaluated

/-- The attempt whose `catch` gets an error, and the error. -/
def StreamEvent.fails (w : TaskEvaluation) : StreamEvent → Option (AttemptId × TaskData × Reason)
  | .reject n _ reason =>
    match w.attempts n with
    | some ⟨data, .forkJoin _⟩ => some (n, data, reason)
    | _ => none
  | .markTaskEvaluated n (some reason) =>
    match w.attempts n with
    | some ⟨data, .forkJoin []⟩ => some (n, data, reason)
    | _ => none
  | .rejectMark n reason =>
    match w.attempts n with
    | some ⟨data, .markTaskEvaluated⟩ => some (n, data, reason)
    | _ => none
  | _ => none

namespace TaskEvaluation

def start (max : Int) (records : TaskKey → Option TaskRecord) : TaskEvaluation where
  records := records
  found := []
  subscribed := true
  counter := concurrentCounter max
  attempts := fun _ => none
  calls := []
  pushed := []
  log := []

def setAttempt (w : TaskEvaluation) (n : AttemptId) (A : Attempt) : TaskEvaluation :=
  { w with attempts := Function.update w.attempts n (some A) }

def note (w : TaskEvaluation) (x : AttemptNote) : TaskEvaluation := { w with log := x :: w.log }

def call (w : TaskEvaluation) (n : AttemptId) (calls : List StoreCall) : TaskEvaluation :=
  { w with calls := calls.map (n, ·) ++ w.calls }

def acquire (w : TaskEvaluation) : TaskEvaluation :=
  { w with counter := { w.counter with count := w.counter.count + 1 } }

def release (w : TaskEvaluation) : TaskEvaluation :=
  { w with counter := { w.counter with count := w.counter.count - 1 } }

/-- An error that reaches the subscriber disposes of the source and of all inner
subscriptions; none of these gives its slot back. -/
def terminate (w : TaskEvaluation) : TaskEvaluation := { w with subscribed := false }

/-- `MergeLossyObserver.onNext` -/
def onNext (w : TaskEvaluation) (n : AttemptId) (data : TaskData) : TaskEvaluation :=
  if w.counter.count < w.counter.max then
    w.acquire.setAttempt n ⟨data, .forkJoin data.dependencyCalls⟩
  else w.setAttempt n ⟨data, .dropped⟩

def updateTaskDependencies (w : TaskEvaluation) (n : AttemptId) (data : TaskData) :
    Option StoreCall → Option TaskEvaluation
  | none => some (((w.note (.updateTaskDependencies n)).call n data.dependencyCalls).onNext n data)
  | some c =>
    if c ∈ data.dependencyCalls then
      let calls := data.dependencyCalls.takeWhile (· ≠ c)
      some ((((w.note (.updateTaskDependencies n)).call n calls).setAttempt n ⟨data, .failed⟩).terminate)
    else none

/-- An event is pushed; once the subscription has ended nobody hears of it. -/
def push (w : TaskEvaluation) (n : AttemptId) (data : TaskData) (throws : Option StoreCall) :
    Option TaskEvaluation :=
  if n ∈ w.pushed then none
  else if w.subscribed then { w with pushed := n :: w.pushed }.updateTaskDependencies n data throws
  else some { w with pushed := n :: w.pushed }

/-- The `catch` of `updateTaskDependencies` completes the observable, unless its
handler throws. -/
def handleStreamError (w : TaskEvaluation) (n : AttemptId) (data : TaskData) : Reason → TaskEvaluation
  | .error => w.release.setAttempt n ⟨data, .failed⟩
  | .nullish => w.terminate.setAttempt n ⟨data, .failed⟩

/-- What a call of `updateTaskDependencies` does to the task records. -/
def performed (w : TaskEvaluation) (unreachable : List TaskKey) :
    StoreCall → TaskKey → Option TaskRecord
  | .updateUnreachableTasks g => fun t => (w.records t).map fun R =>
      if R.graphId = g ∧ t ∈ unreachable then { R with reachable := false } else R
  | _ => w.records

def perform (w : TaskEvaluation) (n : AttemptId) (c : StoreCall) (unreachable : List TaskKey) :
    TaskEvaluation :=
  { w with
    records := w.performed unreachable c
    calls := w.calls.erase (n, c)
    log := .performed n c :: w.log }

def markTaskEvaluated (w : TaskEvaluation) (t : TaskKey) : TaskEvaluation :=
  { w with
    records := Function.update w.records t ((w.records t).map fun R => { R with evaluated := true }) }

def resolve (w : TaskEvaluation) (n : AttemptId) (c : StoreCall) : TaskEvaluation :=
  match w.attempts n with
  | some ⟨data, .forkJoin calls⟩ => w.setAttempt n ⟨data, .forkJoin (calls.filter (· ≠ c))⟩
  | _ => w

def reject (w : TaskEvaluation) (n : AttemptId) (reason : Reason) : TaskEvaluation :=
  match w.attempts n with
  | some ⟨data, .forkJoin _⟩ =>
    if w.subscribed then w.handleStreamError n data reason else w.setAttempt n ⟨data, .failed⟩
  | _ => w

/-- `filter` drops an empty record; with a record the next streams go on. -/
def emit (w : TaskEvaluation) (n : AttemptId) : Option TaskData → TaskEvaluation
  | some record => w.note (.handleEvaluatedTask n record (OnTaskGraph.handleEvaluatedTask record))
  | none => w

/-- `options.findUnevaluatedTasksLimit || 200` -/
def findUnevaluatedTasksLimit (option : Nat) : Nat := if option = 0 then 200 else option

def step (option : Nat) (w : TaskEvaluation) : StreamEvent → Option TaskEvaluation
  | .taskFinished n data throws => w.push n data throws
  | .findUnevaluatedTasks ts =>
    if ts.length ≤ findUnevaluatedTasksLimit option ∧
      ∀ t ∈ ts, ((w.records t).any TaskRecord.unevaluated) = true then
      some { w with found := w.found ++ (ts.filterMap w.records).map TaskRecord.toTaskData }
    else none
  | .evaluateFound n throws =>
    match w.found with
    | data :: found => { w with found := found }.push n data throws
    | [] => none
  | .resolve n c unreachable =>
    if (n, c) ∈ w.calls then some ((w.perform n c unreachable).resolve n c) else none
  | .reject n c reason =>
    if (n, c) ∈ w.calls then some ({ w with calls := w.calls.erase (n, c) }.reject n reason) else none
  | .markTaskEvaluated n throws =>
    match w.attempts n with
    | some ⟨data, .forkJoin []⟩ =>
      if w.subscribed then
        match throws with
        | none => some ((w.note (.markTaskEvaluated n data)).setAttempt n ⟨data, .markTaskEvaluated⟩)
        | some reason => some (w.handleStreamError n data reason)
      else none
    | _ => none
  | .executeMark n =>
    match w.attempts n with
    | some ⟨data, .markTaskEvaluated⟩ =>
      match w.records data.taskId with
      | some R => some (((w.markTaskEvaluated data.taskId).note (.marked n R.toTaskData)).setAttempt n
          ⟨data, .marked (some R.toTaskData)⟩)
      | none => some (w.setAttempt n ⟨data, .marked none⟩)
    | _ => none
  | .rejectMark n reason =>
    match w.attempts n with
    | some ⟨data, .markTaskEvaluated⟩ =>
      some (if w.subscribed then w.handleStreamError n data reason else w.setAttempt n ⟨data, .failed⟩)
    | _ => none
  | .emit n =>
    match w.attempts n with
    | some ⟨data, .marked record⟩ =>
      some (if w.subscribed then (w.emit n record).release.setAttempt n ⟨data, .completed⟩
        else w.setAttempt n ⟨data, .completed⟩)
    | _ => none
  | .write t R => some { w with records := Function.update w.records t R }

inductive Handed (w : TaskEvaluation) (n : AttemptId) (data : TaskData) :
    Option StoreCall → TaskEvaluation → Prop
  | admitted : w.counter.count < w.counter.max → Handed w n data none
      ((((w.note (.updateTaskDependencies n)).call n data.dependencyCalls).acquire).setAttempt n
        ⟨data, .forkJoin data.dependencyCalls⟩)
  | dropped : ¬ w.counter.count < w.counter.max → Handed w n data none
      (((w.note (.updateTaskDependencies n)).call n data.dependencyCalls).setAttempt n ⟨data, .dropped⟩)
  | thrown {c} : Handed w n data (some c)
      ((((w.note (.updateTaskDependencies n)).call n (data.dependencyCalls.takeWhile (· ≠ c))).setAttempt n
        ⟨data, .failed⟩).terminate)

inductive Change (w : TaskEvaluation) : StreamEvent → TaskEvaluation → Prop
  | handed {e n data found throws w'} : e.pushes = some (n, throws) → n ∉ w.pushed → w.subscribed = true →
      Handed { w with found := found, pushed := n :: w.pushed } n data throws w' → Change w e w'
  | unheard {e n found throws} : e.pushes = some (n, throws) → n ∉ w.pushed → w.subscribed = false →
      Change w e { w with found := found, pushed := n :: w.pushed }
  | polled {ts} : Change w (.findUnevaluatedTasks ts)
      { w with found := w.found ++ (ts.filterMap w.records).map TaskRecord.toTaskData }
  | joined {n c us data calls} : (n, c) ∈ w.calls → w.attempts n = some ⟨data, .forkJoin calls⟩ →
      Change w (.resolve n c us)
        ((w.perform n c us).setAttempt n ⟨data, .forkJoin (calls.filter (· ≠ c))⟩)
  | resolved {n c us} : (n, c) ∈ w.calls → (∀ data calls, w.attempts n ≠ some ⟨data, .forkJoin calls⟩) →
      Change w (.resolve n c us) (w.perform n c us)
  | rejected {n c reason} : (n, c) ∈ w.calls → (∀ data calls, w.attempts n ≠ some ⟨data, .forkJoin calls⟩) →
      Change w (.reject n c reason) { w with calls := w.calls.erase (n, c) }
  | caught {e n data reason calls} : e.fails w = some (n, data, reason) → w.subscribed = true →
      (∀ m c, m ≠ n → (m, c) ∈ w.calls → (m, c) ∈ calls) →
      Change w e ({ w with calls := calls }.handleStreamError n data reason)
  | disposed {e n data reason calls} : e.fails w = some (n, data, reason) → w.subscribed = false →
      Change w e ({ w with calls := calls }.setAttempt n ⟨data, .failed⟩)
  | marking {n data} : w.attempts n = some ⟨data, .forkJoin []⟩ → w.subscribed = true →
      Change w (.markTaskEvaluated n none)
        ((w.note (.markTaskEvaluated n data)).setAttempt n ⟨data, .markTaskEvaluated⟩)
  | marked {n data R} : w.attempts n = some ⟨data, .markTaskEvaluated⟩ → w.records data.taskId = some R →
      Change w (.executeMark n) (((w.markTaskEvaluated data.taskId).note (.marked n R.toTaskData)).setAttempt n
        ⟨data, .marked (some R.toTaskData)⟩)
  | unknown {n data} : w.attempts n = some ⟨data, .markTaskEvaluated⟩ → w.records data.taskId = none →
      Change w (.executeMark n) (w.setAttempt n ⟨data, .marked none⟩)
  | emitted {n data record} : w.attempts n = some ⟨data, .marked record⟩ → w.subscribed = true →
      Change w (.emit n) ((w.emit n record).release.setAttempt n ⟨data, .completed⟩)
  | unemitted {n data record} : w.attempts n = some ⟨data, .marked record⟩ → w.subscribed = false →
      Change w (.emit n) (w.setAttempt n ⟨data, .completed⟩)
  | written {t R} : Change w (.write t R) { w with records := Function.update w.records t R }

theorem fails_eq_some {w : TaskEvaluation} {e : StreamEvent} {n : AttemptId} {data : TaskData} {reason : Reason}
    (h : e.fails w = some (n, data, reason)) :
    ∃ stage, w.attempts n = some ⟨data, stage⟩ ∧ stage.fallible = true := by
  cases e with
  | reject m c r =>
    simp only [StreamEvent.fails] at h
    split at h <;> simp only [Option.some.injEq, Prod.mk.injEq, reduceCtorEq] at h
    obtain ⟨rfl, rfl, rfl⟩ := h
    exact ⟨_, ‹_›, rfl⟩
  | markTaskEvaluated m throws =>
    cases throws with
    | none => simp [StreamEvent.fails] at h
    | some r =>
      simp only [StreamEvent.fails] at h
      split at h <;> simp only [Option.some.injEq, Prod.mk.injEq, reduceCtorEq] at h
      obtain ⟨rfl, rfl, rfl⟩ := h
      exact ⟨_, ‹_›, rfl⟩
  | rejectMark m r =>
    simp only [StreamEvent.fails] at h
    split at h <;> simp only [Option.some.injEq, Prod.mk.injEq, reduceCtorEq] at h
    obtain ⟨rfl, rfl, rfl⟩ := h
    exact ⟨_, ‹_›, rfl⟩
  | taskFinished | findUnevaluatedTasks | evaluateFound | resolve | executeMark | emit | write =>
    simp [StreamEvent.fails] at h

theorem updateTaskDependencies_handed {w w' : TaskEvaluation} {n : AttemptId} {data : TaskData}
    {throws : Option StoreCall} (h : w.updateTaskDependencies n data throws = some w') :
    Handed w n data throws w' := by
  cases throws with
  | none =>
    obtain rfl := Option.some.inj h
    simp only [onNext]
    split_ifs with hcount
    · exact .admitted hcount
    · exact .dropped hcount
  | some c =>
    simp only [updateTaskDependencies] at h
    split_ifs at h
    obtain rfl := Option.some.inj h
    exact .thrown

theorem push_change {w w' : TaskEvaluation} {e : StreamEvent} {n : AttemptId} {data : TaskData}
    {throws : Option StoreCall} (found : List TaskData) (he : e.pushes = some (n, throws))
    (h : { w with found := found }.push n data throws = some w') : Change w e w' := by
  simp only [push] at h
  split_ifs at h with hn hsub
  · exact .handed he hn hsub (updateTaskDependencies_handed h)
  · obtain rfl := Option.some.inj h
    exact .unheard he hn (by simpa using hsub)

theorem step_change {option : Nat} {w w' : TaskEvaluation} {e : StreamEvent}
    (h : w.step option e = some w') : Change w e w' := by
  cases e with
  | taskFinished n data throws => exact push_change w.found rfl h
  | findUnevaluatedTasks ts =>
    simp only [step] at h
    split_ifs at h
    obtain rfl := Option.some.inj h
    exact .polled
  | evaluateFound n throws =>
    simp only [step] at h
    split at h
    · exact push_change _ rfl h
    · simp at h
  | resolve n c us =>
    simp only [step] at h
    split_ifs at h with hc
    obtain rfl := Option.some.inj h
    have hattempts : (w.perform n c us).attempts = w.attempts := rfl
    simp only [resolve, hattempts]
    split
    · exact .joined hc ‹_›
    · exact .resolved hc (by simpa using ‹_›)
  | reject n c reason =>
    simp only [step] at h
    split_ifs at h with hc
    obtain rfl := Option.some.inj h
    have hcalls : ∀ m d, m ≠ n → (m, d) ∈ w.calls → (m, d) ∈ w.calls.erase (n, c) := by
      intro m d hm hd
      exact (List.mem_erase_of_ne (by simp [hm])).mpr hd
    simp only [reject]
    split
    · rename_i data calls hA
      have hfails : (StreamEvent.reject n c reason).fails w = some (n, data, reason) := by
        simp [StreamEvent.fails, hA]
      split_ifs with hsub
      · exact .caught hfails hsub hcalls
      · exact .disposed hfails (by simpa using hsub)
    · exact .rejected hc (by simpa using ‹_›)
  | markTaskEvaluated n throws =>
    simp only [step] at h
    split at h
    · split_ifs at h with hsub
      cases throws with
      | none =>
        obtain rfl := Option.some.inj h
        exact .marking ‹_› hsub
      | some reason =>
        obtain rfl := Option.some.inj h
        exact .caught (by simp [StreamEvent.fails, *]) hsub fun _ _ _ hc => hc
    · simp at h
  | executeMark n =>
    simp only [step] at h
    split at h
    · split at h <;> obtain rfl := Option.some.inj h
      · exact .marked ‹_› ‹_›
      · exact .unknown ‹_› ‹_›
    · simp at h
  | rejectMark n reason =>
    simp only [step] at h
    split at h
    · rename_i data hA
      have hfails : (StreamEvent.rejectMark n reason).fails w = some (n, data, reason) := by
        simp [StreamEvent.fails, hA]
      split_ifs at h with hsub <;> obtain rfl := Option.some.inj h
      · exact .caught hfails hsub fun _ _ _ hc => hc
      · exact .disposed hfails (by simpa using hsub)
    · simp at h
  | emit n =>
    simp only [step] at h
    split at h
    · split_ifs at h with hsub <;> obtain rfl := Option.some.inj h
      · exact .emitted ‹_› hsub
      · exact .unemitted ‹_› (by simpa using hsub)
    · simp at h
  | write t R =>
    obtain rfl := Option.some.inj h
    exact .written

end TaskEvaluation

end OnTaskGraph
