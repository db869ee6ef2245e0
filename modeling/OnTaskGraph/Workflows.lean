import OnTaskGraph.Evaluation
import OnTaskGraph.History

/-! `WorkflowApiService`. Each call of `createAndRunGraph` goes through the stages
of its promise chain, and what it waits for is answered in any order with the
calls of others. Contexts are objects: `_.defaults` writes into the one that the
caller brought, and callers may bring one object several times. -/

namespace OnTaskGraph

abbrev NodeId := Nat
abbrev CallId := Nat
abbrev Json := String

/-- A string that passes an `if`. -/
def truthy (value : Option String) : Option String := value.filter (· ≠ "")

/-- The value of `context.target`; one that is no node's id is given by its JSON text. -/
inductive Target
  | node (id : NodeId)
  | value (json : Json)
  deriving DecidableEq

structure Context where
  target : Option Target
  proxy : Option String
  deriving DecidableEq

/-- An object that a caller has made, or the `{}` made by a call. -/
inductive ContextId
  | caller (n : Nat)
  | own (c : CallId)
  deriving DecidableEq

/-- `name` is `none` also where it is not a string. -/
structure Configuration where
  name : Option String
  options : Option Json
  context : Option ContextId
  domain : Option String

structure Node where
  id : NodeId
  sku : Option String

inductive Rejection
  | error (message : String)
  | badRequestError (message : String)
  | notFoundError (message : String)
  | withStatus (status : Nat) (message : String)

def Rejection.hasStatus : Rejection → Bool
  | .error _ => false
  | _ => true

def Rejection.message : Rejection → String
  | .error m | .badRequestError m | .notFoundError m | .withStatus _ m => m

structure EnvGet where
  key : String
  defaultValue : String
  scopes : List String

/-- `nodeId` is the one that the call which made the graph was given. -/
structure GraphObject where
  instanceId : GraphId
  definition : Json
  options : Json
  context : Context
  domain : String
  status : TaskState
  nodeId : Option String

def GraphObject.active (G : GraphObject) : Bool := G.status = .pending || G.status = .running

inductive CallStage
  | needByIdentifier (name : String)
  | envGet (node : Node) (query : EnvGet)
  /-- With the answers that are there. -/
  | lookups (node : Option Node) (name : String) (definition : Option Json)
      (activeGraph : Option (Option GraphId))
  | nodeIdToProxy (node : Node) (definition : Json) (context : ContextId)
  | createGraph (node : Option Node) (definition : Json) (context : ContextId)
  | persist (node : Option Node) (graph : GraphObject)
  | publishGraphStarted (graph : GraphObject)
  | graphProgress (graph : GraphObject)
  | resolved (graph : GraphObject)
  | rejected (reason : Rejection)

structure GraphCall where
  configuration : Configuration
  nodeId : Option String
  stage : CallStage

inductive CallNote
  | checked (c : CallId)
  /-- A graph was inserted, by a call for this node. -/
  | persisted (node : Option NodeId) (g : GraphId)
  | runTaskGraph (g : GraphId) (domain : Option String)
  deriving DecidableEq

structure Workflows where
  contexts : ContextId → Context
  calls : CallId → Option GraphCall
  graphs : List GraphObject
  instances : Nat
  log : List CallNote

inductive CallEvent
  | createAndRunGraph (c : CallId) (configuration : Configuration) (nodeId : Option String)
  /-- The caller assigns `configuration.context` while the call is under way. -/
  | setContext (c : CallId) (n : Nat)
  | needByIdentifier (c : CallId) (answer : Except Rejection Node)
  | envGet (c : CallId) (answer : Except Rejection String)
  | getGraphDefinitions (c : CallId) (answer : Except Rejection (List Json))
  | findActiveGraphForTarget (c : CallId) (failure : Option Rejection)
  | spread (c : CallId)
  | nodeIdToProxy (c : CallId) (answer : Except Rejection (Option String))
  | createGraph (c : CallId) (failure : Option Rejection)
  | persist (c : CallId) (failure : Option Rejection)
  | publishGraphStarted (c : CallId)
  | graphProgress (c : CallId)
  | finish (g : GraphId) (status : TaskState)

def createAndRunGraph (configuration : Configuration) (nodeId : Option String) : CallStage :=
  match truthy configuration.name with
  | none => .rejected (.badRequestError "Graph name is missing or in wrong format")
  | some name =>
    match truthy nodeId with
    | some _ => .needByIdentifier name
    | none => .lookups none name none (some none)

def onNode (name : String) : Except Rejection Node → CallStage
  | .error r => .rejected r
  | .ok node =>
    match truthy node.sku with
    | some sku => .envGet node ⟨"config." ++ name, name, [sku, "global"]⟩
    | none => .lookups (some node) name none none

def onEnv (node : Node) : Except Rejection String → CallStage
  | .error r => .rejected r
  | .ok name => .lookups (some node) name none none

def findGraphDefinitionByName (node : Option Node) (name : String)
    (activeGraph : Option (Option GraphId)) : Except Rejection (List Json) → CallStage
  | .error r => .rejected r
  | .ok [] => .rejected (.notFoundError ("Graph definition not found for " ++ name))
  | .ok (definition :: _) => .lookups node name (some definition) activeGraph

/-- The context of a call: `configuration.context || {}`. -/
def GraphCall.context (call : GraphCall) (c : CallId) : ContextId := call.configuration.context.getD (.own c)

namespace Workflows

def start (brought : Nat → Context) : Workflows where
  contexts
    | .caller n => brought n
    | .own _ => ⟨none, none⟩
  calls _ := none
  graphs := []
  instances := 0
  log := []

def setCall (W : Workflows) (c : CallId) (call : GraphCall) : Workflows :=
  { W with calls := Function.update W.calls c (some call) }

def setContext (W : Workflows) (x : ContextId) (context : Context) : Workflows :=
  { W with contexts := Function.update W.contexts x context }

def record (W : Workflows) (e : CallNote) : Workflows := { W with log := e :: W.log }

def findActiveGraphForTarget (W : Workflows) (id : NodeId) : Option GraphId :=
  (W.graphs.find? fun G => G.active && G.context.target == some (.node id)).map GraphObject.instanceId

/-- `_.defaults(context, { target: node.id })` -/
def defaults (W : Workflows) (x : ContextId) (id : NodeId) : Workflows :=
  W.setContext x { W.contexts x with target := (W.contexts x).target.or (some (.node id)) }

def spread (W : Workflows) (c : CallId) (call : GraphCall) (node : Option Node) (definition : Json) :
    Option GraphId → Workflows
  | some _ => W.setCall c { call with
      stage := .rejected (.error "Unable to run multiple task graphs against a single target.") }
  | none =>
    match node with
    | some node => (W.defaults (call.context c) node.id).setCall c
        { call with stage := .nodeIdToProxy node definition (call.context c) }
    | none => W.setCall c { call with stage := .createGraph none definition (call.context c) }

/-- A lookup that fails is logged, and the graph is created without a proxy. -/
def onProxy (W : Workflows) (x : ContextId) : Except Rejection (Option String) → Workflows
  | .error _ => W
  | .ok proxy =>
    match truthy proxy with
    | some proxy => W.setContext x { W.contexts x with proxy := some proxy }
    | none => W

def createActiveGraph (W : Workflows) (defaultTaskDomain : String) (call : GraphCall) (definition : Json)
    (x : ContextId) : GraphObject where
  instanceId := W.instances
  definition := definition
  options := call.configuration.options.getD "\x7b\x7d"
  context := W.contexts x
  domain := (truthy call.configuration.domain).getD defaultTaskDomain
  status := .running
  nodeId := call.nodeId

def onCreateError (r : Rejection) : Rejection :=
  if r.hasStatus then r else .badRequestError r.message

def finish (W : Workflows) (g : GraphId) (status : TaskState) : Workflows :=
  { W with graphs := W.graphs.map fun G => if G.instanceId = g then { G with status := status } else G }

def step (defaultTaskDomain : String) (W : Workflows) : CallEvent → Option Workflows
  | .createAndRunGraph c configuration nodeId =>
    match W.calls c with
    | none => some (W.setCall c ⟨configuration, nodeId, OnTaskGraph.createAndRunGraph configuration nodeId⟩)
    | some _ => none
  | .setContext c n => (W.calls c).map fun call =>
    W.setCall c { call with configuration := { call.configuration with context := some (.caller n) } }
  | .needByIdentifier c answer => (W.calls c).bind fun call =>
    match call.stage with
    | .needByIdentifier name => some (W.setCall c { call with stage := onNode name answer })
    | _ => none
  | .envGet c answer => (W.calls c).bind fun call =>
    match call.stage with
    | .envGet node _ => some (W.setCall c { call with stage := onEnv node answer })
    | _ => none
  | .getGraphDefinitions c answer => (W.calls c).bind fun call =>
    match call.stage with
    | .lookups node name none activeGraph => some (W.setCall c { call with
        stage := findGraphDefinitionByName node name activeGraph answer })
    | _ => none
  | .findActiveGraphForTarget c failure => (W.calls c).bind fun call =>
    match call.stage, failure with
    | .lookups (some node) name definition none, none => some ((W.setCall c { call with
        stage := .lookups (some node) name definition (some (W.findActiveGraphForTarget node.id)) }).record
          (.checked c))
    | .lookups (some _) _ _ none, some r => some (W.setCall c { call with stage := .rejected r })
    | _, _ => none
  | .spread c => (W.calls c).bind fun call =>
    match call.stage with
    | .lookups node _ (some definition) (some activeGraph) =>
      some (W.spread c call node definition activeGraph)
    | _ => none
  | .nodeIdToProxy c answer => (W.calls c).bind fun call =>
    match call.stage with
    | .nodeIdToProxy node definition x => some ((W.onProxy x answer).setCall c
        { call with stage := .createGraph (some node) definition x })
    | _ => none
  | .createGraph c failure => (W.calls c).bind fun call =>
    match call.stage, failure with
    | .createGraph node definition x, none => some { W.setCall c { call with
        stage := .persist node (W.createActiveGraph defaultTaskDomain call definition x) } with
          instances := W.instances + 1 }
    | .createGraph _ _ _, some r => some (W.setCall c { call with stage := .rejected (onCreateError r) })
    | _, _ => none
  | .persist c failure => (W.calls c).bind fun call =>
    match call.stage, failure with
    | .persist node G, none => some (({ W with graphs := W.graphs ++ [G] }.setCall c
        { call with stage := .publishGraphStarted G }).record (.persisted (node.map Node.id) G.instanceId))
    | .persist _ _, some r => some (W.setCall c { call with stage := .rejected r })
    | _, _ => none
  | .publishGraphStarted c => (W.calls c).bind fun call =>
    match call.stage with
    | .publishGraphStarted G => some (W.setCall c { call with stage := .graphProgress G })
    | _ => none
  | .graphProgress c => (W.calls c).bind fun call =>
    match call.stage with
    | .graphProgress G => some ((W.setCall c { call with stage := .resolved G }).record
        (.runTaskGraph G.instanceId call.configuration.domain))
    | _ => none
  | .finish g status =>
    if status = .pending ∨ status = .running then none else some (W.finish g status)

end Workflows

/-- Answers that only change what a call waits for. -/
inductive CallStage.Moves : CallStage → CallStage → Prop
  | node {name answer} : Moves (.needByIdentifier name) (onNode name answer)
  | env {node query answer} : Moves (.envGet node query) (onEnv node answer)
  | definitions {node name activeGraph answer} : Moves (.lookups node name none activeGraph)
      (findGraphDefinitionByName node name activeGraph answer)
  | published {G} : Moves (.publishGraphStarted G) (.graphProgress G)
  | rejected {s r} : Moves s (.rejected r)

namespace Workflows

inductive Change (defaultTaskDomain : String) (W : Workflows) : CallEvent → Workflows → Prop
  | called {c configuration nodeId} : W.calls c = none →
      Change defaultTaskDomain W (.createAndRunGraph c configuration nodeId) (W.setCall c
        ⟨configuration, nodeId, OnTaskGraph.createAndRunGraph configuration nodeId⟩)
  | assigned {c n call} : W.calls c = some call →
      Change defaultTaskDomain W (.setContext c n) (W.setCall c
        { call with configuration := { call.configuration with context := some (.caller n) } })
  | moved {a c call stage} : W.calls c = some call → call.stage.Moves stage →
      Change defaultTaskDomain W a (W.setCall c { call with stage := stage })
  | checked {c call node name definition} : W.calls c = some call →
      call.stage = .lookups (some node) name definition none →
      Change defaultTaskDomain W (.findActiveGraphForTarget c none) ((W.setCall c { call with
        stage := .lookups (some node) name definition (some (W.findActiveGraphForTarget node.id)) }).record
          (.checked c))
  | prepared {c call node name definition} : W.calls c = some call →
      call.stage = .lookups (some node) name (some definition) (some none) →
      Change defaultTaskDomain W (.spread c) ((W.defaults (call.context c) node.id).setCall c
        { call with stage := .nodeIdToProxy node definition (call.context c) })
  | nodeless {c call name definition} : W.calls c = some call →
      call.stage = .lookups none name (some definition) (some none) →
      Change defaultTaskDomain W (.spread c)
        (W.setCall c { call with stage := .createGraph none definition (call.context c) })
  | proxied {c call node definition x answer} : W.calls c = some call →
      call.stage = .nodeIdToProxy node definition x →
      Change defaultTaskDomain W (.nodeIdToProxy c answer) ((W.onProxy x answer).setCall c
        { call with stage := .createGraph (some node) definition x })
  | created {c call node definition x} : W.calls c = some call →
      call.stage = .createGraph node definition x →
      Change defaultTaskDomain W (.createGraph c none) { W.setCall c { call with
        stage := .persist node (W.createActiveGraph defaultTaskDomain call definition x) } with
          instances := W.instances + 1 }
  | persisted {c call node G} : W.calls c = some call → call.stage = .persist node G →
      Change defaultTaskDomain W (.persist c none) (({ W with graphs := W.graphs ++ [G] }.setCall c
        { call with stage := .publishGraphStarted G }).record (.persisted (node.map Node.id) G.instanceId))
  | resolved {c call G} : W.calls c = some call → call.stage = .graphProgress G →
      Change defaultTaskDomain W (.graphProgress c) ((W.setCall c { call with stage := .resolved G }).record
        (.runTaskGraph G.instanceId call.configuration.domain))
  | finished {g status} : status ≠ .pending → status ≠ .running →
      Change defaultTaskDomain W (.finish g status) (W.finish g status)

theorem step_change {defaultTaskDomain : String} {W W' : Workflows} {a : CallEvent}
    (h : W.step defaultTaskDomain a = some W') : Change defaultTaskDomain W a W' := by
  cases a with
  | createAndRunGraph c configuration nodeId =>
    simp only [step] at h
    split at h
    · obtain rfl := Option.some.inj h
      exact .called ‹_›
    · simp at h
  | setContext c n =>
    obtain ⟨call, hcall, rfl⟩ := Option.map_eq_some_iff.mp h
    exact .assigned hcall
  | needByIdentifier c answer | envGet c answer | getGraphDefinitions c answer | publishGraphStarted c =>
    obtain ⟨call, hcall, h⟩ := Option.bind_eq_some_iff.mp h
    split at h
    · rename_i hstage
      obtain rfl := Option.some.inj h
      exact .moved hcall (hstage ▸ by constructor)
    · simp at h
  | findActiveGraphForTarget c failure =>
    obtain ⟨call, hcall, h⟩ := Option.bind_eq_some_iff.mp h
    split at h
    · obtain rfl := Option.some.inj h
      exact .checked hcall ‹_›
    · obtain rfl := Option.some.inj h
      exact .moved hcall .rejected
    · simp at h
  | spread c =>
    obtain ⟨call, hcall, h⟩ := Option.bind_eq_some_iff.mp h
    split at h
    · rename_i node name definition activeGraph hstage
      obtain rfl := Option.some.inj h
      cases activeGraph with
      | some g => exact .moved hcall .rejected
      | none =>
        cases node with
        | some node => exact .prepared hcall hstage
        | none => exact .nodeless hcall hstage
    · simp at h
  | nodeIdToProxy c answer =>
    obtain ⟨call, hcall, h⟩ := Option.bind_eq_some_iff.mp h
    split at h
    · obtain rfl := Option.some.inj h
      exact .proxied hcall ‹_›
    · simp at h
  | createGraph c failure =>
    obtain ⟨call, hcall, h⟩ := Option.bind_eq_some_iff.mp h
    split at h
    · obtain rfl := Option.some.inj h
      exact .created hcall ‹_›
    · obtain rfl := Option.some.inj h
      exact .moved hcall .rejected
    · simp at h
  | persist c failure =>
    obtain ⟨call, hcall, h⟩ := Option.bind_eq_some_iff.mp h
    split at h
    · obtain rfl := Option.some.inj h
      exact .persisted hcall ‹_›
    · obtain rfl := Option.some.inj h
      exact .moved hcall .rejected
    · simp at h
  | graphProgress c =>
    obtain ⟨call, hcall, h⟩ := Option.bind_eq_some_iff.mp h
    split at h
    · obtain rfl := Option.some.inj h
      exact .resolved hcall ‹_›
    · simp at h
  | finish g status =>
    simp only [step] at h
    split_ifs at h with hstatus
    obtain rfl := Option.some.inj h
    push Not at hstatus
    exact .finished hstatus.1 hstatus.2

end Workflows

end OnTaskGraph
