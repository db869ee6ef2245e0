import OnTaskGraph.Lts
import OnTaskGraph.Workflows

/-! `ProfileApiService.getNode`: any number of calls for the same mac addresses
beside each other. An event is the execution of the call that a `getNode` waits
for; what the code does with the answer belongs to it. -/

namespace OnTaskGraph

structure NodeDocument where
  id : NodeId
  name : String
  identifiers : List String
  type : String
  newRecord : Bool
  deriving DecidableEq

structure NodeOptions where
  type : String
  switchVendor : Option String
  deriving DecidableEq

inductive DiscoveryOptions
  | compute (skipReboot : String) (rebootCode : Nat) (skipPollersCreation : String) (autoCreateObm : String)
  | switch (graphName : String)
  deriving DecidableEq

/-- `target` and `nodeId` are the ones under `options.defaults`. -/
structure DiscoveryConfiguration where
  name : String
  target : NodeId
  nodeId : NodeId
  options : DiscoveryOptions
  deriving DecidableEq

/-- A workflow that one of the calls has started. -/
structure Discovery where
  configuration : DiscoveryConfiguration
  active : Bool
  /-- One of its tasks answers for the node. -/
  subscribed : Bool
  deriving DecidableEq

inductive NodeStage
  | findByIdentifier
  | discovered (node : NodeDocument)
  | activeTaskExists (node : NodeDocument)
  | create
  | publishNodeEvent (node : NodeDocument)
  /-- With the addresses that are left. -/
  | upsertNodeToMacAddress (node : NodeDocument) (macs : List String)
  | createAndRunGraph (node : NodeDocument) (configuration : DiscoveryConfiguration)
  | requestProperties (node : NodeDocument) (retries : Nat)
  | resolved (node : NodeDocument)
  | rejected (reason : Rejection)

structure GetNode where
  options : NodeOptions
  stage : NodeStage

inductive PropertiesAnswer
  | properties
  | requestTimedOutError (reason : Rejection)
  | otherError (reason : Rejection)

inductive NodeNote
  | searched (c : CallId)
  | created (c : CallId) (n : NodeId)
  | checked (c : CallId) (n : NodeId)
  | started (c : CallId) (n : NodeId) (g : GraphId)
  deriving DecidableEq

def NodeNote.call : NodeNote → CallId
  | .searched c | .created c _ | .checked c _ | .started c _ _ => c

def NodeNote.isCreated : NodeNote → Bool
  | .created _ _ => true
  | _ => false

/-- A discovery is known by its place in `discoveries`. `catalogs` tells of which
nodes there are catalogs, `others` of which nodes other tasks are subscribed. -/
structure ProfileApi where
  nodes : List NodeDocument
  nextNode : NodeId
  calls : CallId → Option GetNode
  discoveries : List Discovery
  catalogs : NodeId → Bool
  others : NodeId → Bool
  log : List NodeNote

inductive NodeEvent
  | getNode (c : CallId) (options : NodeOptions)
  | findByIdentifier (c : CallId)
  | discovered (c : CallId)
  | activeTaskExists (c : CallId)
  | create (c : CallId)
  | publishNodeEvent (c : CallId)
  | upsertNodeToMacAddress (c : CallId)
  | createAndRunGraph (c : CallId)
  | requestProperties (c : CallId) (answer : PropertiesAnswer)
  /-- What the call waits for is rejected. -/
  | reject (c : CallId) (reason : Rejection)
  | subscribe (g : GraphId) (on : Bool)
  | finish (g : GraphId)
  | catalog (n : NodeId) (found : Bool)
  | otherTask (n : NodeId) (on : Bool)

namespace ProfileApi

variable (configFile : String → Option String) (macs : List String)

def start (nodes : List NodeDocument) : ProfileApi where
  nodes := nodes
  nextNode := (nodes.map fun node => node.id + 1).foldr max 0
  calls _ := none
  discoveries := []
  catalogs _ := false
  others _ := false
  log := []

def setStage (w : ProfileApi) (c : CallId) (x : GetNode) (stage : NodeStage) : ProfileApi :=
  { w with calls := Function.update w.calls c (some { x with stage := stage }) }

def getSwitchDiscoveryConfiguration (node : NodeDocument) (vendor : Option String) :
    Except Rejection DiscoveryConfiguration := do
  let some vendor := vendor | throw (.error "TypeError")
  let vendor := vendor.toLower
  let graphName ←
    if vendor = "cisco" then pure "Graph.Switch.Discovery.Cisco.Poap"
    else if vendor = "brocade" then pure "Graph.Switch.Discovery.Brocade.Ztp"
    else if vendor = "arista" then pure "Graph.Switch.Discovery.Arista.Ztp"
    else if vendor = "onie" then pure "Graph.Switch.Discovery.Dell.Onie"
    else if vendor = "dell" then pure "Graph.Switch.Discovery.Dell.Bmp"
    else throw (.badRequestError ("Unknown switch vendor " ++ vendor))
  pure ⟨"Graph.SKU.Switch.Discovery.Active", node.id, node.id, .switch graphName⟩

/-- The configuration that `runDiscovery` makes. -/
def discoveryConfiguration (node : NodeDocument) (options : NodeOptions) :
    Except Rejection DiscoveryConfiguration :=
  if node.type = "switch" then getSwitchDiscoveryConfiguration node options.switchVendor
  else
    let get := fun key defaultValue => (configFile key).getD defaultValue
    let setObm := get "autoCreateObm" "false"
    let rebootCode := if get "skipResetPostDiscovery" "false" = "true" then 127 else 1
    let skipReboot := if setObm = "true" then "true" else "false"
    .ok ⟨get "discoveryGraph" "Graph.SKU.Discovery", node.id, node.id,
      .compute skipReboot rebootCode (get "skipPollersCreation" "false") setObm⟩

def runDiscovery (node : NodeDocument) (options : NodeOptions) : NodeStage :=
  match discoveryConfiguration configFile node options with
  | .ok configuration => .createAndRunGraph node configuration
  | .error reason => .rejected reason

/-- `createNodeAndRunDiscovery` once the lookups of `macs` are left to write. -/
def writeLookups (node : NodeDocument) (options : NodeOptions) : List String → NodeStage
  | [] => runDiscovery configFile { node with newRecord := true } options
  | mac :: macs => .upsertNodeToMacAddress node (mac :: macs)

def findByIdentifier (w : ProfileApi) : Option NodeDocument :=
  w.nodes.find? fun node => node.identifiers.any (· ∈ macs)

def activeTaskExists (w : ProfileApi) (n : NodeId) : Bool :=
  w.others n || w.discoveries.any fun d => d.configuration.nodeId = n && d.active && d.subscribed

def create (w : ProfileApi) (c : CallId) (x : GetNode) : ProfileApi :=
  let node : NodeDocument := ⟨w.nextNode, ",".intercalate macs, macs, x.options.type, false⟩
  { w.setStage c x (.publishNodeEvent node) with
    nodes := w.nodes ++ [node], nextNode := w.nextNode + 1, log := .created c w.nextNode :: w.log }

def step (w : ProfileApi) : NodeEvent → Option ProfileApi
  | .getNode c options =>
    if (w.calls c).isNone then some (w.setStage c ⟨options, .findByIdentifier⟩ .findByIdentifier) else none
  | .findByIdentifier c => (w.calls c).bind fun x =>
    match x.stage with
    | .findByIdentifier =>
      let stage := match w.findByIdentifier macs with
        | some node => .discovered node
        | none => .create
      some { w.setStage c x stage with log := .searched c :: w.log }
    | _ => none
  | .discovered c => (w.calls c).bind fun x =>
    match x.stage with
    | .discovered node =>
      some (w.setStage c x (if w.catalogs node.id then .resolved node else .activeTaskExists node))
    | _ => none
  | .activeTaskExists c => (w.calls c).bind fun x =>
    match x.stage with
    | .activeTaskExists node =>
      let stage := if w.activeTaskExists node.id then .resolved node else runDiscovery configFile node x.options
      some { w.setStage c x stage with log := .checked c node.id :: w.log }
    | _ => none
  | .create c => (w.calls c).bind fun x =>
    match x.stage with
    | .create => some (w.create macs c x)
    | _ => none
  | .publishNodeEvent c => (w.calls c).bind fun x =>
    match x.stage with
    | .publishNodeEvent node => some (w.setStage c x (writeLookups configFile node x.options macs))
    | _ => none
  | .upsertNodeToMacAddress c => (w.calls c).bind fun x =>
    match x.stage with
    | .upsertNodeToMacAddress node left =>
      some (w.setStage c x (writeLookups configFile node x.options left.tail))
    | _ => none
  | .createAndRunGraph c => (w.calls c).bind fun x =>
    match x.stage with
    | .createAndRunGraph node configuration =>
      some { w.setStage c x (.requestProperties node 2) with
        discoveries := w.discoveries ++ [⟨configuration, true, false⟩]
        log := .started c configuration.nodeId w.discoveries.length :: w.log }
    | _ => none
  | .requestProperties c answer => (w.calls c).bind fun x =>
    match x.stage, answer with
    | .requestProperties node _, .properties => some (w.setStage c x (.resolved node))
    | .requestProperties node (retries + 1), .requestTimedOutError _ =>
      some (w.setStage c x (.requestProperties node retries))
    | .requestProperties _ _, .requestTimedOutError reason | .requestProperties _ _, .otherError reason =>
      some (w.setStage c x (.rejected reason))
    | _, _ => none
  | .reject c reason => (w.calls c).bind fun x =>
    match x.stage with
    | .activeTaskExists _ | .requestProperties _ _ | .resolved _ | .rejected _ => none
    | _ => some (w.setStage c x (.rejected reason))
  | .subscribe g on => (w.discoveries[g]?).bind fun d =>
    if d.active then some { w with discoveries := w.discoveries.set g { d with subscribed := on } } else none
  | .finish g => (w.discoveries[g]?).map fun d =>
    { w with discoveries := w.discoveries.set g { d with active := false, subscribed := false } }
  | .catalog n found => some { w with catalogs := Function.update w.catalogs n found }
  | .otherTask n on => some { w with others := Function.update w.others n on }

end ProfileApi

end OnTaskGraph
