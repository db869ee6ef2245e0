import Mathlib.Data.List.AList
import OnTaskGraph.Lts

/-! One task runner process: its map of active tasks and its run, cancel and
heartbeat streams. A call that returns a promise is in flight until an event
settles it, so the order of the events is the order of the interleaving; a call
that throws is one that is settled before any other event. A task object goes by
the name of the run pipeline that created it. -/

namespace OnTaskGraph

abbrev TaskId := Nat
abbrev PipeId := Nat
abbrev BeatId := Nat

inductive Outcome
  | resolve
  | resolveEmpty
  | reject
  | throw
  deriving DecidableEq

def Outcome.failed : Outcome → Bool
  | .reject | .throw => true
  | .resolve | .resolveEmpty => false

/-- A stream that failed has disposed of what it had in flight, one that
completed lets it finish. -/
inductive Subscription
  | active
  | completed
  | failed
  deriving DecidableEq

/-- The call a run pipeline waits for. In `checkedOut` and `stateSet` the store
has executed it and not yet answered. -/
inductive Stage
  | checkoutTask
  | checkedOut (granted : Bool)
  | getTaskById
  | create
  | run
  | setTaskState
  | stateSet
  | ended
  deriving DecidableEq

structure Pipe where
  taskId : TaskId
  stage : Stage
  deriving DecidableEq

structure Cancel where
  taskId : TaskId
  task : PipeId
  deriving DecidableEq

inductive Call
  | run (p : PipeId)
  | cancel (p : PipeId)
  | cancelled (p : PipeId)
  | cancelFailed (p : PipeId)
  | stop (p : PipeId)
  | stopped (p : PipeId)
  deriving DecidableEq

inductive Repair
  | handleLostTasks
  | handleUnownedTasks
  deriving DecidableEq

inductive Beat
  | heartbeatTasksForRunner
  | taskCount (n : Nat)
  | getOwnTasks (repair : Repair)
  | ownTasks (repair : Repair) (own : List TaskId)
  | ended
  deriving DecidableEq

inductive Event
  | runTask (p : PipeId) (t : TaskId)
  | checkoutTask (p : PipeId) (granted : Bool)
  | setTaskState (p : PipeId)
  | reply (p : PipeId) (o : Outcome)
  | cancelTask (t : TaskId)
  | cancelReply (c : Cancel) (o : Outcome)
  | beat (b : BeatId)
  | heartbeatTasks (b : BeatId) (taskCount : Nat)
  | getOwnTasks (b : BeatId) (own : List TaskId)
  | beatReply (b : BeatId) (o : Outcome) (throws : TaskId → Bool)
  | expireLease (t : TaskId)
  | stop

/-! The tasks of a runner: what the run, cancel and heartbeat handlers share.
`activeTasks` and the log are kept newest first; the log stands for no data of the code. -/

structure Tasks where
  activeTasks : AList fun _ : TaskId => PipeId
  pipes : PipeId → Option Pipe
  cancels : List Cancel
  log : List Call

namespace Tasks

def setPipe (s : Tasks) (p : PipeId) (t : TaskId) (st : Stage) : Tasks :=
  { s with pipes := Function.update s.pipes p (some ⟨t, st⟩) }

def record (s : Tasks) (c : Call) : Tasks := { s with log := c :: s.log }

/-- `Object.keys(activeTasks)`: in the order in which they were set. -/
def taskIds (s : Tasks) : List TaskId := s.activeTasks.keys.reverse

/-- `activeTasks[t] = p`, where a task that is there keeps its place. -/
def assign (active : AList fun _ : TaskId => PipeId) (t : TaskId) (p : PipeId) : AList fun _ : TaskId => PipeId :=
  if t ∈ active then active.replace t p else active.insert t p

def deactivate (s : Tasks) (t : TaskId) : Tasks := { s with activeTasks := s.activeTasks.erase t }

def activate (s : Tasks) (p : PipeId) (t : TaskId) : Tasks :=
  { (s.setPipe p t .run).record (.run p) with activeTasks := assign s.activeTasks t p }

/-- `createRunTaskSubscription` and `runTask` from `checkoutTask` on: what a
pipeline does when the call it waits for is settled. -/
def reply (s : Tasks) (p : PipeId) (t : TaskId) (o : Outcome) : Stage → Option Tasks
  | .checkoutTask => if o.failed then some (s.setPipe p t .ended) else none
  | .checkedOut granted =>
    if o.failed || !granted then some (s.setPipe p t .ended) else some (s.setPipe p t .getTaskById)
  | .getTaskById =>
    if o = .resolve then some (s.setPipe p t .create) else some (s.setPipe p t .ended)
  -- without a task object, the tap that reads its instanceId throws
  | .create => if o = .resolve then some (s.activate p t) else some (s.setPipe p t .ended)
  -- takeWhile completes the stream on an empty result
  | .run => if o = .resolve then some (s.setPipe p t .setTaskState) else some (s.setPipe p t .ended)
  | .setTaskState => if o.failed then some (s.setPipe p t .ended) else none
  | .stateSet =>
    if o.failed then some (s.setPipe p t .ended) else some ((s.deactivate t).setPipe p t .ended)
  | .ended => none

def cancel (s : Tasks) (t : TaskId) (p : PipeId) : Tasks :=
  { s.record (.cancel p) with cancels := ⟨t, p⟩ :: s.cancels }

def cancelled (s : Tasks) (c : Cancel) : Tasks :=
  { (s.record (.cancelled c.task)).deactivate c.taskId with cancels := s.cancels.erase c }

/-- The error ends the cancel stream, so every cancellation in flight runs its
`finally`. -/
def cancelFailed (s : Tasks) (c : Cancel) : Tasks :=
  { s.record (.cancelFailed c.task) with
    activeTasks := s.cancels.foldl (fun active c => active.erase c.taskId) s.activeTasks
    cancels := [] }

/-- One task of the loop in `handleUnownedTasks`; a throw leaves the loop. -/
def stopTask (throws : TaskId → Bool) (s : Tasks) (t : TaskId) : Except Tasks Tasks :=
  match s.activeTasks.lookup t with
  | none => .ok (s.deactivate t)
  | some p =>
    if throws t then .error (s.record (.stop p))
    else .ok (((s.record (.stop p)).record (.stopped p)).deactivate t)

end Tasks

structure TaskRunner extends Tasks where
  running : Bool
  lostTasks : AList fun _ : TaskId => Nat
  lostBeatLimit : Nat
  runTaskStream : Subscription
  cancelTaskStream : Subscription
  heartbeat : Subscription
  beats : BeatId → Option Beat
  /-- Calls of `store.expireLease` that nobody waits for. -/
  expiring : List TaskId

namespace TaskRunner

def start (lostBeatLimit : Nat) : TaskRunner where
  activeTasks := ∅
  pipes := fun _ => none
  cancels := []
  log := []
  running := true
  lostTasks := ∅
  lostBeatLimit := lostBeatLimit
  runTaskStream := .active
  cancelTaskStream := .active
  heartbeat := .active
  beats := fun _ => none
  expiring := []

def withTasks (r : TaskRunner) (s : Tasks) : TaskRunner := { r with toTasks := s }

def setBeat (r : TaskRunner) (b : BeatId) (B : Beat) : TaskRunner :=
  { r with beats := Function.update r.beats b (some B) }

/-- `createRunTaskSubscription` up to `checkoutTask`. -/
def acceptRunTask (r : TaskRunner) (p : PipeId) (t : TaskId) : TaskRunner :=
  if r.runTaskStream ≠ .active then r
  else if r.running = false then { r with runTaskStream := .completed }
  else if t ∈ r.activeTasks then r
  else r.withTasks (r.setPipe p t .checkoutTask)

/-- `createCancelTaskSubscription` and `cancelTask` up to `task.cancel()`. -/
def cancelTask (r : TaskRunner) (t : TaskId) : TaskRunner :=
  if r.cancelTaskStream ≠ .active then r
  else if r.running = false then { r with cancelTaskStream := .completed }
  else
    match r.activeTasks.lookup t with
    | none => r
    | some p => r.withTasks (r.cancel t p)

def cancelReply (r : TaskRunner) (c : Cancel) (o : Outcome) : TaskRunner :=
  if o.failed then { r.withTasks (r.cancelFailed c) with cancelTaskStream := .failed }
  else r.withTasks (r.cancelled c)

def stop (r : TaskRunner) : TaskRunner := { r with running := false }

def heartbeatFailed (r : TaskRunner) : TaskRunner := { r.stop with heartbeat := .failed }

def onBeat (r : TaskRunner) (b : BeatId) : TaskRunner :=
  if r.heartbeat ≠ .active then r
  else if r.running = false then { r with heartbeat := .completed }
  else r.setBeat b .heartbeatTasksForRunner

def loseTask (throws : TaskId → Bool) (r : TaskRunner) (t : TaskId) : Except TaskRunner TaskRunner :=
  let beats := (r.lostTasks.lookup t).getD 0 + 1
  let lost := r.lostTasks.insert t beats
  if r.lostBeatLimit ≤ beats then
    if throws t then .error { r with lostTasks := lost }
    else .ok { r with lostTasks := lost.erase t, expiring := t :: r.expiring }
  else .ok { r with lostTasks := lost }

def difference (xs ys : List TaskId) : List TaskId := xs.filter (· ∉ ys)

def handleLostTasks (r : TaskRunner) (own : List TaskId) (throws : TaskId → Bool) :
    Except TaskRunner TaskRunner :=
  (difference own r.activeTasks.keys).foldlM (loseTask throws) r

def handleUnownedTasks (r : TaskRunner) (own : List TaskId) (throws : TaskId → Bool) :
    Except TaskRunner TaskRunner :=
  match (difference r.taskIds own).foldlM (Tasks.stopTask throws) r.toTasks with
  | .ok s => .ok (r.withTasks s)
  | .error s => .error (r.withTasks s)

def repair (r : TaskRunner) (own : List TaskId) (throws : TaskId → Bool) :
    Repair → Except TaskRunner TaskRunner
  | .handleLostTasks => r.handleLostTasks own throws
  | .handleUnownedTasks => r.handleUnownedTasks own throws

def neededRepair (r : TaskRunner) (taskCount : Nat) : Option Repair :=
  if taskCount < r.activeTasks.keys.length then some .handleUnownedTasks
  else if r.activeTasks.keys.length < taskCount then some .handleLostTasks
  else none

def beatReply (r : TaskRunner) (b : BeatId) (o : Outcome) (throws : TaskId → Bool) :
    Beat → Option TaskRunner
  | .ended => none
  | B =>
    if r.heartbeat = .failed then some (r.setBeat b .ended)
    else if o.failed then some (r.setBeat b .ended).heartbeatFailed
    else
      match B with
      | .taskCount n =>
        match r.neededRepair n with
        | some rep => some (r.setBeat b (.getOwnTasks rep))
        | none => some (r.setBeat b .ended)
      | .ownTasks rep own =>
        match (r.setBeat b .ended).repair own throws rep with
        | .ok r' => some r'
        | .error r' => some r'.heartbeatFailed
      | _ => none

/-- The events named after calls of the store are their execution there. -/
def step (r : TaskRunner) : Event → Option TaskRunner
  | .runTask p t => if (r.pipes p).isNone then some (r.acceptRunTask p t) else none
  | .checkoutTask p granted =>
    match r.pipes p with
    | some ⟨t, .checkoutTask⟩ => some (r.withTasks (r.setPipe p t (.checkedOut granted)))
    | _ => none
  | .setTaskState p =>
    match r.pipes p with
    | some ⟨t, .setTaskState⟩ => some (r.withTasks (r.setPipe p t .stateSet))
    | _ => none
  | .reply p o =>
    (r.pipes p).bind fun P => (r.toTasks.reply p P.taskId o P.stage).map r.withTasks
  | .cancelTask t => some (r.cancelTask t)
  | .cancelReply c o => if c ∈ r.cancels then some (r.cancelReply c o) else none
  | .beat b => if (r.beats b).isNone then some (r.onBeat b) else none
  | .heartbeatTasks b n =>
    match r.beats b with
    | some .heartbeatTasksForRunner => some (r.setBeat b (.taskCount n))
    | _ => none
  | .getOwnTasks b own =>
    match r.beats b with
    | some (.getOwnTasks rep) => some (r.setBeat b (.ownTasks rep own))
    | _ => none
  | .beatReply b o throws => (r.beats b).bind (r.beatReply b o throws)
  | .expireLease t => if t ∈ r.expiring then some { r with expiring := r.expiring.erase t } else none
  | .stop => some r.stop

end TaskRunner

end OnTaskGraph
