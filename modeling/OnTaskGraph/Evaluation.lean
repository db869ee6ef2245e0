import Mathlib.Data.List.Basic
import Mathlib.Logic.Function.Basic

/-! Task schedulers and completed task pollers around one store. Each event that
they take up starts a procedure; a procedure waits for calls of the store, which
are executed one by one, in any order with those of all other procedures. -/

namespace OnTaskGraph

abbrev TaskKey := Nat
abbrev GraphId := Nat
abbrev BatchId := Nat

inductive TaskState
  | pending
  | running
  | succeeded
  | failed
  | cancelled
  /-- A state that the code passes on without naming it. -/
  | other (n : Nat)
  deriving DecidableEq

def TaskState.finished : TaskState → Bool
  | .pending | .running => false
  | _ => true

/-- What the code relies on of `Constants.Task.FailedStates`. -/
structure Constants where
  failedStates : List TaskState
  pending_not_failed : .pending ∉ failedStates
  succeeded_not_failed : .succeeded ∉ failedStates
  failed_mem : .failed ∈ failedStates

def Constants.sample : Constants where
  failedStates := [.failed, .cancelled]
  pending_not_failed := by decide
  succeeded_not_failed := by decide
  failed_mem := by decide

structure TaskData where
  graphId : GraphId
  taskId : TaskKey
  state : TaskState
  terminalOnStates : List TaskState
  ignoreFailure : Bool
  deriving DecidableEq

structure TaskRecord extends TaskData where
  evaluated : Bool
  reachable : Bool
  deriving DecidableEq

structure Graph where
  status : TaskState
  tasks : List TaskKey
  taskState : TaskKey → TaskState

def Graph.active (G : Graph) : Bool := G.status = .pending || G.status = .running

structure TaskDefinition where
  taskId : TaskKey
  terminalOnStates : List TaskState
  ignoreFailure : Bool

/-- Calls that are made several at a time and waited for together. -/
inductive StoreCall
  | setTaskState (t : TaskKey) (state : TaskState)
  | markTaskEvaluated (t : TaskKey)
  | publishCancelTask (t : TaskKey)
  | setTaskStateInGraph (g : GraphId) (t : TaskKey) (state : TaskState)
  | updateDependentTasks (t : TaskKey)
  | updateUnreachableTasks (g : GraphId)
  deriving DecidableEq

inductive Path
  | scheduler
  | poller
  deriving DecidableEq

inductive FailReason
  | failure (data : TaskData)
  | cancelGraph
  deriving DecidableEq

def FailReason.graphState : FailReason → TaskState
  | .failure _ => .failed
  | .cancelGraph => .cancelled

inductive Ending
  | succeeded (path : Path)
  | polledFailure (data : TaskData)
  | failGraph (reason : FailReason)
  deriving DecidableEq

def Ending.graphState : Ending → TaskState
  | .succeeded _ => .succeeded
  | .polledFailure _ => .failed
  | .failGraph reason => reason.graphState

inductive FailRound
  | setTaskState
  | markTaskEvaluated
  | publishCancelTask
  | setTaskStateInGraph
  deriving DecidableEq

def FailRound.next : FailRound → Option FailRound
  | .setTaskState => some .markTaskEvaluated
  | .markTaskEvaluated => some .publishCancelTask
  | .publishCancelTask => some .setTaskStateInGraph
  | .setTaskStateInGraph => none

def FailRound.calls (g : GraphId) (tasks : List (TaskKey × TaskState)) : FailRound → List StoreCall
  | .setTaskState => tasks.map fun x => .setTaskState x.1 x.2
  | .markTaskEvaluated => tasks.map fun x => .markTaskEvaluated x.1
  | .publishCancelTask => tasks.map fun x => .publishCancelTask x.1
  | .setTaskStateInGraph => tasks.map fun x => .setTaskStateInGraph g x.1 x.2

/-- The call a procedure waits for, or the answer that is on its way to it. -/
inductive Proc
  | updateTaskDependencies (data : TaskData) (calls : List StoreCall)
  | markTaskEvaluated (data : TaskData)
  | handleEvaluatedTask (data : TaskData)
  | checkGraphSucceeded (path : Path) (g : GraphId)
  | graphChecked (path : Path) (g : GraphId) (done : Bool)
  | getActiveGraphById (reason : FailReason) (g : GraphId)
  | handleFailGraphTasks (reason : FailReason) (g : GraphId) (round : FailRound)
      (tasks : List (TaskKey × TaskState)) (calls : List StoreCall)
  | setGraphDone (ending : Ending) (g : GraphId)
  | graphDone (ending : Ending) (g : GraphId) (changed : Bool)
  | ended (failed : Bool)

def Proc.calls : Proc → List StoreCall
  | .updateTaskDependencies _ calls => calls
  | .handleFailGraphTasks _ _ _ _ calls => calls
  | _ => []

def Proc.called (c : StoreCall) : Proc → Proc
  | .updateTaskDependencies data calls => .updateTaskDependencies data (calls.erase c)
  | .handleFailGraphTasks reason g round tasks calls =>
    .handleFailGraphTasks reason g round tasks (calls.erase c)
  | P => P

inductive ProcId
  | event (n : Nat)
  | batch (b : BatchId) (i : Nat)
  deriving DecidableEq

inductive Note
  | recorded (data : TaskData)
  | evaluated (data : TaskData)
  | cancelPublished (t : TaskKey)
  | graphDone (g : GraphId) (status : TaskState)
  | published (g : GraphId) (status : TaskState)
  deriving DecidableEq

structure Batch where
  tasks : List TaskRecord
  deleted : Bool

structure Evaluation where
  records : TaskKey → Option TaskRecord
  graphs : GraphId → Option Graph
  procs : ProcId → Option Proc
  batches : BatchId → Option Batch
  /-- Calls of procedures that failed meanwhile. -/
  strays : List StoreCall
  log : List Note

/-- Of an event that `mergeLossy` drops only the first calls are made: it is a procedure
that fails at once. -/
inductive Move
  | createGraph (g : GraphId) (tasks : List TaskDefinition)
  | finishTask (t : TaskKey) (state : TaskState)
  | evaluateTask (n : Nat) (data : TaskData)
  | cancelGraph (n : Nat) (g : GraphId)
  | findCompletedTasks (b : BatchId) (ts : List TaskKey)
  | deleteTasks (b : BatchId)
  | call (p : ProcId) (c : StoreCall) (unreachable : List TaskKey)
  | stray (c : StoreCall) (unreachable : List TaskKey)
  | execute (p : ProcId)
  | reply (p : ProcId) (accepted : Bool)
  | fail (p : ProcId)

namespace TaskData

/-- The outcome fails the graph: terminal, failed and not to be ignored. -/
def realFailure (C : Constants) (data : TaskData) : Bool :=
  data.state ∈ data.terminalOnStates && !data.ignoreFailure && data.state ∈ C.failedStates

/-- `createCheckGraphFinishedSubscription` -/
def checkGraphFinished (C : Constants) (data : TaskData) : Proc :=
  if !data.ignoreFailure && data.state ∈ C.failedStates then
    .getActiveGraphById (.failure data) data.graphId
  else .checkGraphSucceeded .scheduler data.graphId

def handlePotentialFinishedGraph (C : Constants) (data : TaskData) : Proc :=
  if data.state ∈ C.failedStates then .setGraphDone (.polledFailure data) data.graphId
  else .checkGraphSucceeded .poller data.graphId

/-- The calls of the `forkJoin` in `updateTaskDependencies`. -/
def dependencyCalls (data : TaskData) : List StoreCall :=
  [.setTaskStateInGraph data.graphId data.taskId data.state, .updateDependentTasks data.taskId,
    .updateUnreachableTasks data.graphId]

end TaskData

def TaskRecord.completed (R : TaskRecord) : Bool := R.evaluated || !R.reachable

def Batch.terminalTasks (B : Batch) : List TaskRecord :=
  B.tasks.filter fun R => R.state ∈ R.terminalOnStates

namespace Evaluation

def start : Evaluation where
  records := fun _ => none
  graphs := fun _ => none
  procs := fun _ => none
  batches := fun _ => none
  strays := []
  log := []

def setProc (w : Evaluation) (p : ProcId) (P : Proc) : Evaluation :=
  { w with procs := Function.update w.procs p (some P) }

def note (w : Evaluation) (x : Note) : Evaluation := { w with log := x :: w.log }

def setRecord (w : Evaluation) (t : TaskKey) (R : TaskRecord) : Evaluation :=
  { w with records := Function.update w.records t (some R) }

def setGraph (w : Evaluation) (g : GraphId) (G : Graph) : Evaluation :=
  { w with graphs := Function.update w.graphs g (some G) }

def active (w : Evaluation) (g : GraphId) : Bool :=
  match w.graphs g with
  | some G => G.active
  | none => false

def setTaskState (w : Evaluation) (t : TaskKey) (state : TaskState) : Evaluation :=
  match w.records t with
  | none => w
  | some R =>
    (w.setRecord t { R with state := state }).note (.recorded { R.toTaskData with state := state })

def markTaskEvaluated (w : Evaluation) (t : TaskKey) : Evaluation :=
  match w.records t with
  | none => w
  | some R => (w.setRecord t { R with evaluated := true }).note (.evaluated R.toTaskData)

def setTaskStateInGraph (w : Evaluation) (g : GraphId) (t : TaskKey) (state : TaskState) : Evaluation :=
  match w.graphs g with
  | none => w
  | some G => w.setGraph g { G with taskState := Function.update G.taskState t state }

def updateUnreachableTasks (w : Evaluation) (g : GraphId) (unreachable : List TaskKey) : Evaluation :=
  { w with
    records := fun t => (w.records t).map fun R =>
      if R.graphId = g ∧ t ∈ unreachable then { R with reachable := false } else R }

/-- `updateDependentTasks` changes only which tasks wait for the task. -/
def perform (w : Evaluation) (unreachable : List TaskKey) : StoreCall → Evaluation
  | .setTaskState t state => w.setTaskState t state
  | .markTaskEvaluated t => w.markTaskEvaluated t
  | .publishCancelTask t => w.note (.cancelPublished t)
  | .setTaskStateInGraph g t state => w.setTaskStateInGraph g t state
  | .updateDependentTasks _ => w
  | .updateUnreachableTasks g => w.updateUnreachableTasks g unreachable

def checkGraphSucceeded (w : Evaluation) (g : GraphId) : Bool :=
  match w.graphs g with
  | none => false
  | some G => G.tasks.all fun t =>
    match w.records t with
    | none => true
    | some R => R.graphId ≠ g || !R.reachable || R.evaluated

/-- The tasks of a graph as `failGraph` maps them. -/
def failedTasks (reason : FailReason) (G : Graph) : List (TaskKey × TaskState) :=
  G.tasks.map fun t => (t, if G.taskState t = .pending then reason.graphState else G.taskState t)

def createGraph (w : Evaluation) (g : GraphId) (tasks : List TaskDefinition) : Evaluation :=
  { w.setGraph g ⟨.pending, tasks.map TaskDefinition.taskId, fun _ => .pending⟩ with
    records := fun t =>
      match tasks.find? (·.taskId = t) with
      | some d => some ⟨⟨g, t, .pending, d.terminalOnStates, d.ignoreFailure⟩, false, true⟩
      | none => w.records t }

def found (w : Evaluation) (ts : List TaskKey) : List TaskRecord := ts.filterMap w.records

/-- `findCompletedTasks` has answered and `deleteCompletedGraphs` looks at the
terminal tasks. -/
def startBatch (C : Constants) (w : Evaluation) (b : BatchId) (B : Batch) : Evaluation :=
  { w with
    batches := Function.update w.batches b (some B)
    procs := fun
      | .batch c i =>
        if c = b then B.terminalTasks[i]?.map fun R => R.handlePotentialFinishedGraph C
        else w.procs (.batch c i)
      | .event n => w.procs (.event n) }

def batchEnded (w : Evaluation) (b : BatchId) (B : Batch) : Bool :=
  (List.range B.terminalTasks.length).all fun i =>
    match w.procs (.batch b i) with
    | some (.ended failed) => !failed
    | _ => false

def deleteTasks (w : Evaluation) (b : BatchId) (B : Batch) : Evaluation :=
  { w with
    records := fun t => if t ∈ B.tasks.map fun R => R.taskId then none else w.records t
    batches := Function.update w.batches b (some { B with deleted := true }) }

/-- The store executes the one call that a procedure waits for. -/
def execute (w : Evaluation) (p : ProcId) : Proc → Option Evaluation
  | .markTaskEvaluated data =>
    match w.records data.taskId with
    | none => some (w.setProc p (.ended false))
    | some R => some ((w.markTaskEvaluated data.taskId).setProc p (.handleEvaluatedTask R.toTaskData))
  | .checkGraphSucceeded path g => some (w.setProc p (.graphChecked path g (w.checkGraphSucceeded g)))
  | .getActiveGraphById reason g =>
    match w.graphs g with
    | none => some (w.setProc p (.ended false))
    | some G =>
      if G.active then
        let tasks := failedTasks reason G
        some (w.setProc p (.handleFailGraphTasks reason g .setTaskState tasks
          (FailRound.setTaskState.calls g tasks)))
      else some (w.setProc p (.ended false))
  | .setGraphDone ending g =>
    match w.graphs g with
    | none => some (w.setProc p (.graphDone ending g false))
    | some G =>
      if G.active then
        some (((w.setGraph g { G with status := ending.graphState }).note
          (.graphDone g ending.graphState)).setProc p (.graphDone ending g true))
      else some (w.setProc p (.graphDone ending g false))
  | _ => none

/-- A procedure goes on when what it waits for has been answered. -/
def reply (C : Constants) (w : Evaluation) (p : ProcId) (accepted : Bool) : Proc → Option Evaluation
  | .updateTaskDependencies data [] => some (w.setProc p (.markTaskEvaluated data))
  | .handleEvaluatedTask data =>
    if data.state ∈ data.terminalOnStates ∧ accepted then
      some (w.setProc p (data.checkGraphFinished C))
    else some (w.setProc p (.ended false))
  | .graphChecked path g done =>
    if done then some (w.setProc p (.setGraphDone (.succeeded path) g))
    else some (w.setProc p (.ended false))
  | .handleFailGraphTasks reason g round tasks [] =>
    match round.next with
    | some next => some (w.setProc p (.handleFailGraphTasks reason g next tasks (next.calls g tasks)))
    | none => some (w.setProc p (.setGraphDone (.failGraph reason) g))
  | .graphDone ending g changed =>
    if changed then some ((w.note (.published g ending.graphState)).setProc p (.ended false))
    else some (w.setProc p (.ended false))
  | _ => none

def step (C : Constants) (w : Evaluation) : Move → Option Evaluation
  | .createGraph g tasks =>
    if (w.graphs g).isNone ∧ (tasks.map TaskDefinition.taskId).Nodup ∧
        ∀ d ∈ tasks, (w.records d.taskId).isNone then
      some (w.createGraph g tasks)
    else none
  | .finishTask t state => if (w.records t).isSome then some (w.setTaskState t state) else none
  | .evaluateTask n data =>
    if (w.procs (.event n)).isNone ∧ .recorded data ∈ w.log then
      some (w.setProc (.event n) (.updateTaskDependencies data data.dependencyCalls))
    else none
  | .cancelGraph n g =>
    if (w.procs (.event n)).isNone then
      some (w.setProc (.event n) (.getActiveGraphById .cancelGraph g))
    else none
  | .findCompletedTasks b ts =>
    if (w.batches b).isNone ∧ ∀ R ∈ w.found ts, R.completed then
      some (w.startBatch C b ⟨w.found ts, false⟩)
    else none
  | .deleteTasks b =>
    match w.batches b with
    | some B => if !B.deleted && w.batchEnded b B then some (w.deleteTasks b B) else none
    | none => none
  | .call p c unreachable =>
    match w.procs p with
    | some P => if c ∈ P.calls then some ((w.perform unreachable c).setProc p (P.called c)) else none
    | none => none
  | .stray c unreachable =>
    if c ∈ w.strays then some { w.perform unreachable c with strays := w.strays.erase c } else none
  | .execute p => (w.procs p).bind (w.execute p)
  | .reply p accepted => (w.procs p).bind (w.reply C p accepted)
  | .fail p =>
    match w.procs p with
    | some (.ended _) => none
    | some P => some { w.setProc p (.ended true) with strays := P.calls ++ w.strays }
    | none => none

end Evaluation

end OnTaskGraph
