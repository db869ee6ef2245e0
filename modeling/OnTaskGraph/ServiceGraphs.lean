import Mathlib.Data.List.AList
import OnTaskGraph.Lts
import OnTaskGraph.Workflows

/-! Service graphs: any number of `ServiceGraph.start` calls, of one or several
processes, on one store. The store executes a call at one event and answers it
at a later one; a call that was given up (a timeout) may still be executed. -/

namespace OnTaskGraph

abbrev StartId := Nat

/-- `content` stands for what `_.isEqual` compares besides the other two. -/
structure GraphDefinition where
  injectableName : String
  serviceGraph : Bool
  content : Json
  deriving DecidableEq

/-- The graph definitions in the store, which keeps one for each name. -/
structure GraphDefinitions where
  list : List GraphDefinition
  distinct : (list.map GraphDefinition.injectableName).Nodup

structure ServiceGraphObject where
  instanceId : GraphId
  injectableName : String
  definition : GraphDefinition
  status : TaskState
  deriving DecidableEq

/-- What the code relies on of `Constants.Task`. -/
structure GraphStates extends Constants where
  activeStates : List TaskState
  active_not_failed : ∀ s ∈ activeStates, s ∉ failedStates
  running_active : .running ∈ activeStates
  cancelled_inactive : .cancelled ∉ activeStates

def GraphStates.sample : GraphStates where
  toConstants := Constants.sample
  activeStates := [.pending, .running]
  active_not_failed := by decide
  running_active := by decide
  cancelled_inactive := by decide

inductive Table
  | running
  | failed
  deriving DecidableEq

inductive ServiceCall
  | cancelTaskGraph (g : GraphId)
  /-- `table` is the one in which the graph was found. -/
  | deleteGraph (g : GraphId) (table : Table)
  | createAndRunServiceGraph
  deriving DecidableEq

/-- What one mapper of the two loops is about. -/
inductive Job
  | definition (d : GraphDefinition)
  /-- A running graph for which there is no definition. -/
  | leftover (G : ServiceGraphObject)
  deriving DecidableEq

inductive BranchStage
  | waiting
  | called (c : ServiceCall)
  | executed (c : ServiceCall)
  | resolved
  /-- `late` is a call that may still be executed. -/
  | rejected (late : Option ServiceCall)
  deriving DecidableEq

structure Branch where
  job : Job
  stage : BranchStage
  deriving DecidableEq

structure Groups where
  running : AList fun _ : String => ServiceGraphObject
  failed : AList fun _ : String => ServiceGraphObject

inductive StartPhase
  | reading
  | migrating
  | sweeping
  | resolved
  deriving DecidableEq

structure ServiceStart where
  graphDefinitions : Option (List GraphDefinition)
  serviceGraphs : Option (List ServiceGraphObject)
  groups : Groups
  branches : List Branch
  phase : StartPhase

inductive ServiceNote
  | cancelled (g : GraphId)
  | deleted (g : GraphId)
  | created (g : GraphId)
  deriving DecidableEq

/-- `instances` is the `instanceId` of the next graph, `log` holds what the store
has executed, newest first. -/
structure ServiceGraphs where
  definitions : GraphDefinitions
  graphs : List ServiceGraphObject
  instances : GraphId
  starts : StartId → Option ServiceStart
  log : List ServiceNote

inductive ServiceEvent
  /-- A process has loaded its definitions into the store. -/
  | load (ds : GraphDefinitions)
  | start (s : StartId)
  | getGraphDefinitions (s : StartId)
  | getServiceGraphs (s : StartId)
  | spread (s : StartId)
  | map (s : StartId) (i : Nat)
  | execute (s : StartId) (i : Nat)
  | reply (s : StartId) (i : Nat)
  | reject (s : StartId) (i : Nat)
  | sweep (s : StartId)
  | finish (s : StartId)

def ServiceEvent.start? : ServiceEvent → Option StartId
  | .load _ => none
  | .start s | .getGraphDefinitions s | .getServiceGraphs s | .spread s | .map s _ | .execute s _
  | .reply s _ | .reject s _ | .sweep s | .finish s => some s

namespace GraphStates

variable (C : GraphStates)

def active (G : ServiceGraphObject) : Bool := G.status ∈ C.activeStates

/-- One round of the `_.transform`. -/
def group (result : Groups) (G : ServiceGraphObject) : Groups :=
  if G.status ∈ C.failedStates then { result with failed := result.failed.insert G.injectableName G }
  else if C.active G then { result with running := result.running.insert G.injectableName G }
  else result

def groups (graphs : List ServiceGraphObject) : Groups := graphs.foldl C.group ⟨∅, ∅⟩

end GraphStates

namespace Groups

/-- The mapper for a definition, up to its first call. -/
def migrate (groups : Groups) (d : GraphDefinition) : Groups × BranchStage :=
  match groups.running.lookup d.injectableName with
  | some G =>
    if G.definition ≠ d then (groups, .called (.cancelTaskGraph G.instanceId))
    else ({ groups with running := groups.running.erase d.injectableName }, .resolved)
  | none =>
    match groups.failed.lookup d.injectableName with
    | some G => (groups, .called (.deleteGraph G.instanceId .failed))
    | none => ({ groups with running := groups.running.erase d.injectableName },
        .called .createAndRunServiceGraph)

/-- What follows the answer to a call. -/
def proceed (groups : Groups) : Job → ServiceCall → Groups × BranchStage
  | .definition d, .cancelTaskGraph _ =>
    match groups.running.lookup d.injectableName with
    | some G => (groups, .called (.deleteGraph G.instanceId .running))
    | none => (groups, .rejected none)
  | .definition d, .deleteGraph _ .running =>
    ({ groups with running := groups.running.erase d.injectableName }, .called .createAndRunServiceGraph)
  | .definition d, .deleteGraph _ .failed =>
    ({ groups with failed := groups.failed.erase d.injectableName }, .called .createAndRunServiceGraph)
  | .leftover G, .cancelTaskGraph _ => (groups, .called (.deleteGraph G.instanceId .running))
  | _, _ => (groups, .resolved)

end Groups

namespace ServiceStart

def new : ServiceStart := ⟨none, none, ⟨∅, ∅⟩, [], .reading⟩

def setBranch (S : ServiceStart) (i : Nat) (b : Branch) (next : Groups × BranchStage) : ServiceStart :=
  { S with groups := next.1, branches := S.branches.set i { b with stage := next.2 } }

/-- The definitions marked `serviceGraph` are migrated at the same time. -/
def migrateAll (S : ServiceStart) (C : GraphStates) (definitions : List GraphDefinition)
    (graphs : List ServiceGraphObject) : ServiceStart :=
  { S with
    groups := C.groups graphs
    branches := (definitions.filter GraphDefinition.serviceGraph).map fun d => ⟨.definition d, .waiting⟩
    phase := .migrating }

def allResolved (S : ServiceStart) : Bool := S.branches.all fun b => b.stage = .resolved

/-- The graphs that are left in `groups.running` are cancelled and deleted. -/
def sweep (S : ServiceStart) : ServiceStart :=
  { S with
    branches := S.branches ++ S.groups.running.entries.map fun x =>
      ⟨.leftover x.2, .called (.cancelTaskGraph x.2.instanceId)⟩
    phase := .sweeping }

end ServiceStart

namespace ServiceGraphs

variable (C : GraphStates)

def start (definitions : GraphDefinitions) (graphs : List ServiceGraphObject) : ServiceGraphs where
  definitions := definitions
  graphs := graphs
  instances := (graphs.map fun G => G.instanceId + 1).foldr max 0
  starts _ := none
  log := []

def setStart (w : ServiceGraphs) (s : StartId) (S : ServiceStart) : ServiceGraphs :=
  { w with starts := Function.update w.starts s (some S) }

def cancelTaskGraph (w : ServiceGraphs) (g : GraphId) : ServiceGraphs :=
  { w with
    graphs := w.graphs.map fun G =>
      if G.instanceId = g ∧ C.active G then { G with status := .cancelled } else G
    log := .cancelled g :: w.log }

def deleteGraph (w : ServiceGraphs) (g : GraphId) : ServiceGraphs :=
  { w with graphs := w.graphs.filter (·.instanceId ≠ g), log := .deleted g :: w.log }

/-- `createAndRunServiceGraph` persists the graph as a running one. -/
def createAndRunServiceGraph (w : ServiceGraphs) (d : GraphDefinition) : ServiceGraphs :=
  { w with
    graphs := w.graphs ++ [⟨w.instances, d.injectableName, d, .running⟩]
    instances := w.instances + 1
    log := .created w.instances :: w.log }

def perform (w : ServiceGraphs) : Job → ServiceCall → ServiceGraphs
  | _, .cancelTaskGraph g => w.cancelTaskGraph C g
  | _, .deleteGraph g _ => w.deleteGraph g
  | .definition d, .createAndRunServiceGraph => w.createAndRunServiceGraph d
  | .leftover _, .createAndRunServiceGraph => w

def step (w : ServiceGraphs) : ServiceEvent → Option ServiceGraphs
  | .load ds => some { w with definitions := ds }
  | .start s => if (w.starts s).isNone then some (w.setStart s .new) else none
  | .getGraphDefinitions s => (w.starts s).bind fun S =>
    if S.phase = .reading ∧ S.graphDefinitions = none then
      some (w.setStart s { S with graphDefinitions := some w.definitions.list })
    else none
  | .getServiceGraphs s => (w.starts s).bind fun S =>
    if S.phase = .reading ∧ S.serviceGraphs = none then
      some (w.setStart s { S with serviceGraphs := some w.graphs })
    else none
  | .spread s => (w.starts s).bind fun S =>
    match S.phase, S.graphDefinitions, S.serviceGraphs with
    | .reading, some definitions, some graphs => some (w.setStart s (S.migrateAll C definitions graphs))
    | _, _, _ => none
  | .map s i => (w.starts s).bind fun S =>
    match S.branches[i]? with
    | some ⟨.definition d, .waiting⟩ =>
      some (w.setStart s (S.setBranch i ⟨.definition d, .waiting⟩ (S.groups.migrate d)))
    | _ => none
  | .execute s i => (w.starts s).bind fun S => (S.branches[i]?).bind fun b =>
    match b.stage with
    | .called c => some ((w.perform C b.job c).setStart s (S.setBranch i b (S.groups, .executed c)))
    | .rejected (some c) => some ((w.perform C b.job c).setStart s (S.setBranch i b (S.groups, .rejected none)))
    | _ => none
  | .reply s i => (w.starts s).bind fun S => (S.branches[i]?).bind fun b =>
    match b.stage with
    | .executed c => some (w.setStart s (S.setBranch i b (S.groups.proceed b.job c)))
    | _ => none
  | .reject s i => (w.starts s).bind fun S => (S.branches[i]?).bind fun b =>
    match b.stage with
    | .called c => some (w.setStart s (S.setBranch i b (S.groups, .rejected (some c))))
    | .executed _ => some (w.setStart s (S.setBranch i b (S.groups, .rejected none)))
    | _ => none
  | .sweep s => (w.starts s).bind fun S =>
    if S.phase = .migrating ∧ S.allResolved then some (w.setStart s S.sweep) else none
  | .finish s => (w.starts s).bind fun S =>
    if S.phase = .sweeping ∧ S.allResolved then some (w.setStart s { S with phase := .resolved }) else none

end ServiceGraphs

end OnTaskGraph
