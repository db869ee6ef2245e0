import OnTaskGraph.Lts
import OnTaskGraph.Workflows

/-! One active graph for each target. What `findActiveGraphForTarget` finds for a
node and the insertion of the graph are far apart, and the target inserted is the
one in the context; between the two, the answer stays true as long as no other
call for the node inserts a graph. -/

namespace OnTaskGraph

def GraphObject.activeForNode (G : GraphObject) : Bool := G.active && (truthy G.nodeId).isSome

namespace CallStage

def checked : CallStage → Option Node
  | .lookups (some node) _ _ (some none) | .nodeIdToProxy node _ _ | .createGraph (some node) _ _
  | .persist (some node) _ => some node
  | _ => none

def prepared : CallStage → Option (Node × ContextId)
  | .nodeIdToProxy node _ x | .createGraph (some node) _ x => some (node, x)
  | _ => none

def nodeless : CallStage → Bool
  | .lookups none _ _ _ | .createGraph none _ _ | .persist none _ => true
  | _ => false

theorem Moves.frame {s s' : CallStage} (h : s.Moves s') :
    (s'.nodeless = true → s.nodeless = true) ∧ s'.prepared = none ∧
      (∀ node G, s' ≠ .persist node G) ∧ ∀ n ∈ s'.checked, n ∈ s.checked := by
  cases h with
  | @node name answer =>
    cases answer with
    | error r => simp [onNode, nodeless, prepared, checked]
    | ok node =>
      simp only [onNode]
      split <;> simp [nodeless, prepared, checked]
  | @env node query answer => cases answer <;> simp [onEnv, nodeless, prepared, checked]
  | @definitions node name activeGraph answer =>
    cases answer with
    | error r => simp [findGraphDefinitionByName, nodeless, prepared, checked]
    | ok definitions =>
      cases definitions with
      | nil => simp [findGraphDefinitionByName, nodeless, prepared, checked]
      | cons definition rest =>
        cases node with
        | none => simp [findGraphDefinitionByName, nodeless, prepared, checked]
        | some node =>
          rcases activeGraph with - | - | g <;>
            simp [findGraphDefinitionByName, nodeless, prepared, checked]
  | published => simp [nodeless, prepared, checked]
  | rejected => simp [nodeless, prepared, checked]

end CallStage

namespace Workflows

variable {defaultTaskDomain : String} {W W' : Workflows} {a : CallEvent}

/-- No two active graphs made by calls with a nodeId carry the same target. -/
def SingleTarget (W : Workflows) : Prop :=
  ((W.graphs.filter GraphObject.activeForNode).map fun G => G.context.target).Nodup

instance : Decidable W.SingleTarget := inferInstanceAs (Decidable (List.Nodup _))

/-- The context that a call for a node starts from has no target but the node's id. -/
def OwnTarget (W : Workflows) : CallEvent → Prop
  | .spread c => ∀ call ∈ W.calls c, ∀ n ∈ call.stage.checked,
      ∀ t ∈ (W.contexts (call.context c)).target, t = .node n.id
  | _ => True

/-- When a call for a node persists its graph, no graph that a call for that node
has persisted since the check is still active. -/
def CheckCurrent (W : Workflows) : CallEvent → Prop
  | .persist c none => ∀ call ∈ W.calls c, ∀ n ∈ call.stage.checked, ∀ G ∈ W.graphs, G.active = true →
      .persisted (some n.id) G.instanceId ∉ History.since (.checked c) W.log
  | _ => True

instance instDecidableOwnTarget : ∀ a, Decidable (W.OwnTarget a)
  | .spread c => inferInstanceAs (Decidable (∀ call ∈ W.calls c, ∀ n ∈ call.stage.checked,
      ∀ t ∈ (W.contexts (call.context c)).target, t = .node n.id))
  | .createAndRunGraph .. | .setContext .. | .needByIdentifier .. | .envGet ..
  | .getGraphDefinitions .. | .findActiveGraphForTarget .. | .nodeIdToProxy .. | .createGraph ..
  | .persist .. | .publishGraphStarted .. | .graphProgress .. | .finish .. => isTrue trivial

instance instDecidableCheckCurrent : ∀ a, Decidable (W.CheckCurrent a)
  | .persist c none => inferInstanceAs (Decidable (∀ call ∈ W.calls c, ∀ n ∈ call.stage.checked,
      ∀ G ∈ W.graphs, G.active = true →
        .persisted (some n.id) G.instanceId ∉ History.since (.checked c) W.log))
  | .createAndRunGraph .. | .setContext .. | .needByIdentifier .. | .envGet ..
  | .getGraphDefinitions .. | .findActiveGraphForTarget .. | .spread .. | .nodeIdToProxy ..
  | .createGraph .. | .persist _ (some _) | .publishGraphStarted .. | .graphProgress .. | .finish .. =>
    isTrue trivial

structure Ready (W : Workflows) (c : CallId) (call : GraphCall) : Prop where
  nodeless : call.stage.nodeless = true → truthy call.nodeId = none
  prepared : ∀ p ∈ call.stage.prepared, (W.contexts p.2).target = some (.node p.1.id)
  graph : ∀ node G, call.stage = .persist node G →
    G.nodeId = call.nodeId ∧ ∀ n ∈ node, G.context.target = some (.node n.id)
  checked : ∀ n ∈ call.stage.checked, ∀ G ∈ W.graphs, G.activeForNode = true →
    G.context.target = some (.node n.id) →
      .persisted (some n.id) G.instanceId ∈ History.since (.checked c) W.log

structure Guarded (W : Workflows) : Prop where
  ready : ∀ {c call}, W.calls c = some call → W.Ready c call
  single : W.SingleTarget

theorem Ready.mono {c : CallId} {call : GraphCall} (new : List CallNote) (h : W.Ready c call)
    (hlog : W'.log = new ++ W.log) (hmarker : .checked c ∉ new)
    (hcontexts : ∀ x t, (W.contexts x).target = some t → (W'.contexts x).target = some t)
    (hgraphs : ∀ G ∈ W'.graphs, G.activeForNode = true → G ∈ W.graphs ∨
      ∀ n, G.context.target = some (.node n) → .persisted (some n) G.instanceId ∈ new) :
    W'.Ready c call := by
  refine ⟨h.nodeless, fun p hp => hcontexts _ _ (h.prepared p hp), h.graph, fun n hn G hG ha ht => ?_⟩
  rw [hlog, History.mem_since_append hmarker]
  rcases hgraphs G hG ha with hold | hnew
  · exact Or.inr (h.checked n hn G hold ha ht)
  · exact Or.inl (hnew n.id ht)

theorem Ready.of_quiet {c : CallId} {call : GraphCall} (h : W.Ready c call) (hlog : W'.log = W.log)
    (hgraphs : W'.graphs = W.graphs)
    (hcontexts : ∀ x t, (W.contexts x).target = some t → (W'.contexts x).target = some t) :
    W'.Ready c call :=
  h.mono [] hlog (by simp) hcontexts fun G hG _ => Or.inl (hgraphs ▸ hG)

theorem Guarded.setCall {c : CallId} {call : GraphCall} (h : W.Guarded)
    (hcalls : W'.calls = Function.update W.calls c (some call))
    (hothers : ∀ {d other}, d ≠ c → W.Ready d other → W'.Ready d other)
    (hready : W'.Ready c call) (hsingle : W'.SingleTarget) : W'.Guarded := by
  refine ⟨fun {d other} hd => ?_, hsingle⟩
  rw [hcalls] at hd
  by_cases hdc : d = c
  · subst hdc
    simp only [Function.update_self, Option.some.injEq] at hd
    exact hd ▸ hready
  · rw [Function.update_of_ne hdc] at hd
    exact hothers hdc (h.ready hd)

theorem Guarded.quiet {c : CallId} {call : GraphCall} (h : W.Guarded)
    (hcalls : W'.calls = Function.update W.calls c (some call)) (hlog : W'.log = W.log)
    (hgraphs : W'.graphs = W.graphs)
    (hcontexts : ∀ x t, (W.contexts x).target = some t → (W'.contexts x).target = some t)
    (hready : W'.Ready c call) : W'.Guarded := by
  refine h.setCall hcalls (fun _ hd => hd.of_quiet hlog hgraphs hcontexts) hready ?_
  have hsingle := h.single
  unfold SingleTarget at hsingle ⊢
  rw [hgraphs]
  exact hsingle

theorem defaults_target (W : Workflows) (x : ContextId) (id : NodeId) {y : ContextId} {t : Target}
    (h : (W.contexts y).target = some t) : ((W.defaults x id).contexts y).target = some t := by
  by_cases hyx : y = x
  · subst hyx
    simp [defaults, setContext, h]
  · simp [defaults, setContext, hyx, h]

theorem onProxy_frame (W : Workflows) (x : ContextId) (answer : Except Rejection (Option String)) :
    (∀ y, ((W.onProxy x answer).contexts y).target = (W.contexts y).target) ∧
      (W.onProxy x answer).calls = W.calls ∧ (W.onProxy x answer).graphs = W.graphs ∧
      (W.onProxy x answer).log = W.log := by
  have hset : ∀ proxy y, ((W.setContext x { W.contexts x with proxy := proxy }).contexts y).target =
      (W.contexts y).target := by
    intro proxy y
    by_cases hyx : y = x
    · simp [setContext, hyx]
    · simp [setContext, hyx]
  cases answer with
  | error r => simp [onProxy]
  | ok proxy =>
    simp only [onProxy]
    split
    · exact ⟨hset _, rfl, rfl, rfl⟩
    · simp

theorem finish_active {g : GraphId} {status : TaskState} (hpending : status ≠ .pending)
    (hrunning : status ≠ .running) :
    ((W.finish g status).graphs.filter GraphObject.activeForNode).Sublist
      (W.graphs.filter GraphObject.activeForNode) := by
  show ((W.graphs.map _).filter _).Sublist _
  induction W.graphs with
  | nil => simp
  | cons G graphs ih =>
    by_cases hg : G.instanceId = g
    · have hout : GraphObject.activeForNode { G with status := status } = false := by
        simp [GraphObject.activeForNode, GraphObject.active, hpending, hrunning]
      rw [List.map_cons, if_pos hg, List.filter_cons_of_neg (by simp [hout])]
      exact ih.trans ((List.sublist_cons_self G graphs).filter _)
    · rw [List.map_cons, if_neg hg]
      by_cases ha : G.activeForNode = true
      · rw [List.filter_cons_of_pos ha, List.filter_cons_of_pos ha]
        exact ih.cons_cons G
      · rw [List.filter_cons_of_neg ha, List.filter_cons_of_neg ha]
        exact ih

theorem activeForNode_active {G : GraphObject} (h : G.activeForNode = true) : G.active = true := by
  simp only [GraphObject.activeForNode, Bool.and_eq_true] at h
  exact h.1

theorem findActiveGraphForTarget_eq_none {id : NodeId} : W.findActiveGraphForTarget id = none ↔
    ∀ G ∈ W.graphs, G.active = true → G.context.target ≠ some (.node id) := by
  simp [findActiveGraphForTarget]

section

variable {c : CallId} {call : GraphCall}

theorem Guarded.called (h : W.Guarded) (configuration : Configuration) (nodeId : Option String) :
    (W.setCall c ⟨configuration, nodeId, OnTaskGraph.createAndRunGraph configuration nodeId⟩).Guarded := by
  refine h.quiet rfl rfl rfl (fun _ _ ht => ht) ?_
  unfold createAndRunGraph
  cases truthy configuration.name with
  | none => constructor <;> simp [CallStage.nodeless, CallStage.prepared, CallStage.checked]
  | some name =>
    cases hid : truthy nodeId with
    | none => constructor <;> simp [CallStage.nodeless, CallStage.prepared, CallStage.checked, hid]
    | some id => constructor <;> simp [CallStage.nodeless, CallStage.prepared, CallStage.checked]

theorem Guarded.moved {stage : CallStage} (h : W.Guarded) (hcall : W.calls c = some call)
    (hmoves : call.stage.Moves stage) : (W.setCall c { call with stage := stage }).Guarded := by
  have hready := h.ready hcall
  obtain ⟨hnodeless, hprepared, hgraph, hchecked⟩ := hmoves.frame
  refine h.quiet rfl rfl rfl (fun _ _ ht => ht) ⟨?_, ?_, ?_, ?_⟩
  · exact fun hn => hready.nodeless (hnodeless hn)
  · intro p hp
    simp [hprepared] at hp
  · exact fun node G hs => absurd hs (hgraph node G)
  · exact fun n hn => hready.checked n (hchecked n hn)

/-- The store answers that no active graph carries this target. -/
theorem Guarded.checked {node : Node} {name : String} {definition : Option Json} (h : W.Guarded) :
    ((W.setCall c { call with
      stage := .lookups (some node) name definition (some (W.findActiveGraphForTarget node.id)) }).record
        (.checked c)).Guarded := by
  refine h.setCall rfl (fun {d other} hdc hd => ?_) ⟨?_, ?_, ?_, ?_⟩ h.single
  · exact hd.mono [.checked c] rfl (by simp [hdc]) (fun _ _ ht => ht) fun G hG _ => Or.inl hG
  · simp [CallStage.nodeless]
  · simp [CallStage.prepared]
  · simp
  · intro n hn G hG ha ht
    cases hfound : W.findActiveGraphForTarget node.id with
    | some g => simp [hfound, CallStage.checked] at hn
    | none =>
      obtain rfl : node = n := by simpa [hfound, CallStage.checked] using hn
      exact absurd ht (findActiveGraphForTarget_eq_none.mp hfound G hG (activeForNode_active ha))

theorem Guarded.prepared {node : Node} {definition : Json} (h : W.Guarded)
    (hcall : W.calls c = some call) (hchecked : node ∈ call.stage.checked)
    (hown : ∀ t ∈ (W.contexts (call.context c)).target, t = .node node.id) :
    ((W.defaults (call.context c) node.id).setCall c
      { call with stage := .nodeIdToProxy node definition (call.context c) }).Guarded := by
  have hready := h.ready hcall
  have hgrows : ∀ x t, (W.contexts x).target = some t →
      ((W.defaults (call.context c) node.id).contexts x).target = some t :=
    fun _ _ ht => defaults_target W _ _ ht
  refine h.quiet rfl rfl rfl hgrows ⟨by simp [CallStage.nodeless], ?_, by simp, ?_⟩
  · intro p hp
    obtain rfl : (node, call.context c) = p := by simpa [CallStage.prepared] using hp
    cases ht : (W.contexts (call.context c)).target with
    | none => simp [Workflows.setCall, defaults, setContext, ht]
    | some t => exact hgrows _ _ (ht.trans (congrArg some (hown t ht)))
  · intro n hn
    obtain rfl : node = n := by simpa [CallStage.checked] using hn
    exact hready.checked node hchecked

theorem Guarded.proxied {node : Node} {definition : Json} {x : ContextId}
    {answer : Except Rejection (Option String)} (h : W.Guarded) (hcall : W.calls c = some call)
    (hstage : call.stage = .nodeIdToProxy node definition x) : ((W.onProxy x answer).setCall c
      { call with stage := .createGraph (some node) definition x }).Guarded := by
  have hready := h.ready hcall
  obtain ⟨htarget, hcalls, hgraphs, hlog⟩ := onProxy_frame W x answer
  have hkeep : ∀ y t, (W.contexts y).target = some t →
      ((W.onProxy x answer).contexts y).target = some t := fun y t ht => (htarget y).trans ht
  have hset := congrArg (fun calls => Function.update calls c
    (some { call with stage := .createGraph (some node) definition x })) hcalls
  refine h.quiet hset hlog hgraphs hkeep ⟨by simp [CallStage.nodeless], ?_, by simp, ?_⟩
  · intro p hp
    exact hkeep _ _ (hready.prepared p (by simpa [hstage, CallStage.prepared] using hp))
  · intro n hn G hG
    have hchecked := hready.checked n (by simpa [hstage, CallStage.checked] using hn) G
    simp only [Workflows.setCall, hgraphs, hlog] at hG ⊢
    exact hchecked hG

theorem Guarded.created {node : Option Node} {definition : Json} {x : ContextId} (h : W.Guarded)
    (hcall : W.calls c = some call) (hstage : call.stage = .createGraph node definition x) :
    Guarded { W.setCall c { call with
      stage := .persist node (W.createActiveGraph defaultTaskDomain call definition x) } with
        instances := W.instances + 1 } := by
  have hready := h.ready hcall
  refine h.quiet rfl rfl rfl (fun _ _ ht => ht) ⟨?_, by simp [CallStage.prepared], ?_, ?_⟩
  · intro hn
    cases node with
    | none => exact hready.nodeless (by simp [hstage, CallStage.nodeless])
    | some node => simp [CallStage.nodeless] at hn
  · intro node' G hs
    obtain ⟨rfl, rfl⟩ := CallStage.persist.inj hs
    refine ⟨rfl, fun n hn => ?_⟩
    obtain rfl := Option.mem_def.mp hn
    exact hready.prepared (n, x) (by simp [hstage, CallStage.prepared])
  · intro n hn
    refine hready.checked n ?_
    cases node with
    | none => simp [CallStage.checked] at hn
    | some node => simpa [hstage, CallStage.checked] using hn

/-- A graph about to be persisted counts only if the call was for a node, and then
it carries that node's id. -/
theorem Ready.target {node : Option Node} {G : GraphObject} (h : W.Ready c call)
    (hstage : call.stage = .persist node G) (ha : G.activeForNode = true) :
    ∃ n, node = some n ∧ G.context.target = some (.node n.id) := by
  obtain ⟨hnodeId, htarget⟩ := h.graph node G hstage
  cases node with
  | none =>
    have hnone := h.nodeless (by simp [hstage, CallStage.nodeless])
    simp [GraphObject.activeForNode, hnodeId, hnone] at ha
  | some n => exact ⟨n, rfl, htarget n rfl⟩

theorem Guarded.persisted {node : Option Node} {G : GraphObject} (h : W.Guarded)
    (hcall : W.calls c = some call) (hstage : call.stage = .persist node G)
    (hcurrent : W.CheckCurrent (.persist c none)) : (({ W with graphs := W.graphs ++ [G] }.setCall c
      { call with stage := .publishGraphStarted G }).record
        (.persisted (node.map Node.id) G.instanceId)).Guarded := by
  have hready := h.ready hcall
  refine h.setCall rfl (fun {d other} _ hd => ?_) ?_ ?_
  · refine hd.mono [.persisted (node.map Node.id) G.instanceId] rfl (by simp) (fun _ _ ht => ht) ?_
    intro G' hG' ha
    rcases List.mem_append.mp hG' with hold | hnew
    · exact Or.inl hold
    · obtain rfl := List.mem_singleton.mp hnew
      obtain ⟨n, rfl, htarget⟩ := hready.target hstage ha
      refine Or.inr fun m ht => ?_
      have hnm : n.id = m := by simpa [htarget] using ht
      simp [hnm]
  · constructor <;> simp [CallStage.nodeless, CallStage.prepared, CallStage.checked]
  · show ((List.filter _ (W.graphs ++ [G])).map _).Nodup
    rw [List.filter_append, List.map_append]
    by_cases ha : G.activeForNode = true
    · obtain ⟨n, rfl, htarget⟩ := hready.target hstage ha
      have hchecked : n ∈ call.stage.checked := by simp [hstage, CallStage.checked]
      -- a graph with this target would have been persisted since the check
      have hfree : ∀ G' ∈ W.graphs, G'.activeForNode = true → G'.context.target ≠ G.context.target := by
        intro G' hG' ha' heq
        have hsince := hready.checked n hchecked G' hG' ha' (heq.trans htarget)
        exact hcurrent call hcall n hchecked G' hG' (activeForNode_active ha') hsince
      rw [List.filter_cons_of_pos ha, List.filter_nil, List.map_singleton]
      refine List.Nodup.append h.single (List.nodup_singleton _) ?_
      intro t ht hlast
      obtain ⟨G', hG', rfl⟩ := List.mem_map.mp ht
      rw [List.mem_filter] at hG'
      exact hfree G' hG'.1 hG'.2 (List.mem_singleton.mp hlast)
    · rw [List.filter_cons_of_neg ha, List.filter_nil, List.map_nil, List.append_nil]
      exact h.single

theorem Guarded.finished {g : GraphId} {status : TaskState} (h : W.Guarded)
    (hpending : status ≠ .pending) (hrunning : status ≠ .running) : (W.finish g status).Guarded := by
  have hsub := finish_active (W := W) (g := g) hpending hrunning
  refine ⟨fun {c call} hcall => ?_, (hsub.map _).nodup h.single⟩
  refine (h.ready hcall).mono [] rfl (by simp) (fun _ _ ht => ht) fun G hG ha => Or.inl ?_
  exact List.mem_of_mem_filter (hsub.subset (List.mem_filter.mpr ⟨hG, ha⟩))

end

theorem Guarded.change (h : W.Guarded) (hc : Change defaultTaskDomain W a W')
    (hown : W.OwnTarget a) (hcurrent : W.CheckCurrent a) : W'.Guarded := by
  cases hc with
  | called => exact h.called _ _
  | assigned hcall =>
    have hready := h.ready hcall
    refine h.quiet rfl rfl rfl (fun _ _ ht => ht) ?_
    exact ⟨hready.nodeless, hready.prepared, hready.graph, hready.checked⟩
  | moved hcall hmoves => exact h.moved hcall hmoves
  | checked => exact h.checked
  | @prepared c call node name definition hcall hstage =>
    have hchecked : node ∈ call.stage.checked := by simp [hstage, CallStage.checked]
    exact h.prepared hcall hchecked (hown call hcall node hchecked)
  | nodeless hcall hstage =>
    have hnode := (h.ready hcall).nodeless (by simp [hstage, CallStage.nodeless])
    refine h.quiet rfl rfl rfl (fun _ _ ht => ht) ?_
    exact ⟨fun _ => hnode, by simp [CallStage.prepared], by simp, by simp [CallStage.checked]⟩
  | proxied hcall hstage => exact h.proxied hcall hstage
  | created hcall hstage => exact h.created hcall hstage
  | persisted hcall hstage => exact h.persisted hcall hstage hcurrent
  | @resolved c call G hcall hstage =>
    refine h.setCall rfl (fun {d other} _ hd => ?_) ?_ h.single
    · exact hd.mono [.runTaskGraph G.instanceId call.configuration.domain] rfl (by simp)
        (fun _ _ ht => ht) fun G hG _ => Or.inl hG
    · constructor <;> simp [CallStage.nodeless, CallStage.prepared, CallStage.checked]
  | finished hpending hrunning => exact h.finished hpending hrunning

theorem guarded_start (brought : Nat → Context) : (start brought).Guarded := by
  constructor <;> simp [start, SingleTarget]

end Workflows

open Workflows

/-- In every run in which callers bring no foreign target and the check of each
graph persisted is current, active graphs for nodes have different targets. -/
theorem createAndRunGraph_single_target (defaultTaskDomain : String) (brought : Nat → Context)
    (as : List CallEvent) (W : Workflows)
    (hok : Lts.Along (step defaultTaskDomain) (fun W a _ => W.OwnTarget a ∧ W.CheckCurrent a)
      (start brought) as)
    (hrun : Lts.exec (step defaultTaskDomain) (start brought) as = some W) : W.SingleTarget :=
  (hok.invariant Guarded (fun _ _ _ hstep hc h => h.change (step_change hstep) hc.1 hc.2)
    (guarded_start brought) hrun).single

def checkTarget (c : CallId) (context : Option ContextId) (node : NodeId) : List CallEvent :=
  [.createAndRunGraph c ⟨some "Graph.Test", none, context, none⟩ (some "testnodeid"),
    .needByIdentifier c (.ok ⟨node, none⟩), .getGraphDefinitions c (.ok ["\x7b\x7d"]),
    .findActiveGraphForTarget c none]

def insertGraph (c : CallId) : List CallEvent :=
  [.spread c, .nodeIdToProxy c (.ok none), .createGraph c none, .persist c none]

/-- While node 1 has an active graph, a call for it is rejected; when the graph has finished,
the next one is not. -/
def finishingRun : List CallEvent :=
  checkTarget 0 none 1 ++ insertGraph 0 ++ checkTarget 1 none 2 ++ insertGraph 1 ++ checkTarget 2 none 1 ++
    [.spread 2, .finish 0 .succeeded] ++ checkTarget 3 none 1 ++ insertGraph 3

theorem createAndRunGraph_single_target_run : ∃ W,
    Lts.exec (step "default") (start fun _ => ⟨none, none⟩) finishingRun = some W ∧
      W.graphs.map (fun G => (G.context.target, G.active)) =
        [(some (.node 1), false), (some (.node 2), true), (some (.node 1), true)] ∧ W.SingleTarget := by
  have hrun : Lts.exec (step "default") (start fun _ => ⟨none, none⟩) finishingRun = some _ := rfl
  exact ⟨_, hrun, rfl, createAndRunGraph_single_target _ _ _ _ (by decide) hrun⟩

/-- One run brings the target of another node, in the other both checks come first. -/
theorem createAndRunGraph_double_target :
    (∃ W, Lts.exec (step "default") (start fun _ => ⟨some (.node 1), none⟩)
      (checkTarget 0 none 1 ++ insertGraph 0 ++ checkTarget 1 (some (.caller 0)) 2 ++ insertGraph 1) = some W ∧
        ¬ W.SingleTarget) ∧
    ∃ W, Lts.exec (step "default") (start fun _ => ⟨none, none⟩)
      (checkTarget 0 none 1 ++ checkTarget 1 none 1 ++ insertGraph 0 ++ insertGraph 1) = some W ∧
        ¬ W.SingleTarget :=
  ⟨⟨_, rfl, by decide⟩, ⟨_, rfl, by decide⟩⟩

end OnTaskGraph
