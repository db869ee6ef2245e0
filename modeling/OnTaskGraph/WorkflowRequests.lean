import OnTaskGraph.SingleTarget

/-! Requests to cancel and to delete workflows, beside the calls that start them. A request
looks the workflow up and acts on it later; between, it may have been finished, but not
become active again. -/

namespace OnTaskGraph

abbrev RequestId := Nat

inductive Command
  | cancel
  | delete
  deriving DecidableEq

inductive RequestRejection
  | taskCancellationError (message : String)
  | forbiddenError (message : String)
  | other (reason : Rejection)

inductive RequestStage
  | needOne
  | cancelTaskGraph
  | deleteGraph
  /-- `deleteTaskGraph` gives the first one that was deleted. -/
  | resolved (graph : Option GraphObject)
  | rejected (reason : RequestRejection)

structure WorkflowRequest where
  command : Command
  graphId : GraphId
  stage : RequestStage

inductive ApiEvent
  | call (e : CallEvent)
  | request (n : RequestId) (command : Command) (g : GraphId)
  /-- The lookup is executed; `missing` is the rejection where there is no such workflow. -/
  | needOne (n : RequestId) (missing : Rejection)
  | cancelTaskGraph (n : RequestId)
  | deleteGraph (n : RequestId)
  /-- What the request waits for is rejected. -/
  | reject (n : RequestId) (reason : Rejection)

structure WorkflowApi where
  workflows : Workflows
  requests : RequestId → Option WorkflowRequest
  /-- The messages of `taskGraphProtocol.cancelTaskGraph`. -/
  cancels : List GraphId

def onWorkflow (g : GraphId) (active : Bool) : Command → RequestStage
  | .cancel =>
    if active then .cancelTaskGraph
    else .rejected (.taskCancellationError (toString g ++ " is not an active workflow"))
  | .delete =>
    if active then .rejected (.forbiddenError ("Forbidden to delete an active workflow " ++ toString g))
    else .deleteGraph

namespace WorkflowApi

def start (brought : Nat → Context) : WorkflowApi where
  workflows := .start brought
  requests _ := none
  cancels := []

def setRequest (w : WorkflowApi) (n : RequestId) (R : WorkflowRequest) : WorkflowApi :=
  { w with requests := Function.update w.requests n (some R) }

def needOne (w : WorkflowApi) (g : GraphId) : Option GraphObject := w.workflows.graphs.find? (·.instanceId = g)

def deleteGraph (w : WorkflowApi) (g : GraphId) : WorkflowApi :=
  { w with workflows := { w.workflows with graphs := w.workflows.graphs.filter (·.instanceId ≠ g) } }

def step (defaultTaskDomain : String) (w : WorkflowApi) : ApiEvent → Option WorkflowApi
  | .call e => (w.workflows.step defaultTaskDomain e).map fun W => { w with workflows := W }
  | .request n command g =>
    match w.requests n with
    | none => some (w.setRequest n ⟨command, g, .needOne⟩)
    | some _ => none
  | .needOne n missing => (w.requests n).bind fun R =>
    match R.stage, w.needOne R.graphId with
    | .needOne, some G => some (w.setRequest n { R with stage := onWorkflow R.graphId G.active R.command })
    | .needOne, none => some (w.setRequest n { R with stage := .rejected (.other missing) })
    | _, _ => none
  | .cancelTaskGraph n => (w.requests n).bind fun R =>
    match R.stage with
    | .cancelTaskGraph =>
      some { w.setRequest n { R with stage := .resolved none } with cancels := R.graphId :: w.cancels }
    | _ => none
  | .deleteGraph n => (w.requests n).bind fun R =>
    match R.stage with
    | .deleteGraph =>
      some ((w.deleteGraph R.graphId).setRequest n { R with stage := .resolved (w.needOne R.graphId) })
    | _ => none
  | .reject n reason => (w.requests n).bind fun R =>
    match R.stage with
    | .needOne | .cancelTaskGraph | .deleteGraph =>
      some (w.setRequest n { R with stage := .rejected (.other reason) })
    | .resolved _ | .rejected _ => none

inductive Change (defaultTaskDomain : String) (w : WorkflowApi) : ApiEvent → WorkflowApi → Prop
  | call {e W} : Workflows.Change defaultTaskDomain w.workflows e W →
      Change defaultTaskDomain w (.call e) { w with workflows := W }
  /-- Nothing that is looked up can be deleted by what follows. -/
  | moved {a n R} : R.stage ≠ .deleteGraph → Change defaultTaskDomain w a (w.setRequest n R)
  | found {a n command g G} : w.needOne g = some G →
      Change defaultTaskDomain w a (w.setRequest n ⟨command, g, onWorkflow g G.active command⟩)
  | cancelled {a n R} : w.requests n = some R → R.stage = .cancelTaskGraph → Change defaultTaskDomain w a
      { w.setRequest n { R with stage := .resolved none } with cancels := R.graphId :: w.cancels }
  | deleted {a n R} : w.requests n = some R → R.stage = .deleteGraph → Change defaultTaskDomain w a
      ((w.deleteGraph R.graphId).setRequest n { R with stage := .resolved (w.needOne R.graphId) })

variable {defaultTaskDomain : String} {w w' : WorkflowApi} {a : ApiEvent}

theorem step_change (h : w.step defaultTaskDomain a = some w') : Change defaultTaskDomain w a w' := by
  cases a with
  | call e =>
    obtain ⟨W, hW, rfl⟩ := Option.map_eq_some_iff.mp h
    exact .call (Workflows.step_change hW)
  | request n command g =>
    simp only [step] at h
    split at h
    · obtain rfl := Option.some.inj h
      exact .moved nofun
    · simp at h
  | needOne n missing =>
    obtain ⟨⟨command, g, stage⟩, -, h⟩ := Option.bind_eq_some_iff.mp h
    split at h
    · obtain rfl := Option.some.inj h
      exact .found ‹_›
    · obtain rfl := Option.some.inj h
      exact .moved nofun
    · simp at h
  | cancelTaskGraph n =>
    obtain ⟨R, hR, h⟩ := Option.bind_eq_some_iff.mp h
    split at h
    · obtain rfl := Option.some.inj h
      exact .cancelled hR ‹_›
    · simp at h
  | deleteGraph n =>
    obtain ⟨R, hR, h⟩ := Option.bind_eq_some_iff.mp h
    split at h
    · obtain rfl := Option.some.inj h
      exact .deleted hR ‹_›
    · simp at h
  | reject n reason =>
    obtain ⟨R, -, h⟩ := Option.bind_eq_some_iff.mp h
    split at h
    · obtain rfl := Option.some.inj h
      exact .moved nofun
    · obtain rfl := Option.some.inj h
      exact .moved nofun
    · obtain rfl := Option.some.inj h
      exact .moved nofun
    · simp at h
    · simp at h

end WorkflowApi

namespace Workflows

variable {defaultTaskDomain : String} {W W' : Workflows} {a : CallEvent}

/-- The call has created the graph and not yet persisted it. -/
def Persists (W : Workflows) (c : CallId) (G : GraphObject) : Prop :=
  ∃ call node, W.calls c = some call ∧ call.stage = .persist node G

structure Numbered (W : Workflows) : Prop where
  nodup : (W.graphs.map GraphObject.instanceId).Nodup
  lt : ∀ G ∈ W.graphs, G.instanceId < W.instances
  pending : ∀ c G, W.Persists c G → G.instanceId < W.instances ∧ ∀ H ∈ W.graphs, H.instanceId ≠ G.instanceId
  apart : ∀ c d G H, W.Persists c G → W.Persists d H → G.instanceId = H.instanceId → c = d

/-- The workflow has been finished, and perhaps deleted. -/
structure Retired (W : Workflows) (g : GraphId) : Prop where
  lt : g < W.instances
  pending : ∀ c G, W.Persists c G → G.instanceId ≠ g
  inactive : ∀ G ∈ W.graphs, G.instanceId = g → G.active = false

theorem not_persists_start {brought : Nat → Context} {c : CallId} {G : GraphObject} :
    ¬ (start brought).Persists c G := by
  rintro ⟨call, node, hcall, -⟩
  cases hcall

theorem numbered_start (brought : Nat → Context) : (start brought).Numbered where
  nodup := List.nodup_nil
  lt := nofun
  pending _ _ h := absurd h not_persists_start
  apart _ _ _ _ h := absurd h not_persists_start

theorem persists_update {c d : CallId} {call : GraphCall} {G : GraphObject}
    (hcalls : W'.calls = Function.update W.calls c (some call)) (h : W'.Persists d G) :
    (d = c ∧ ∃ node, call.stage = .persist node G) ∨ (d ≠ c ∧ W.Persists d G) := by
  obtain ⟨call', node, hd, hstage⟩ := h
  rw [hcalls] at hd
  by_cases hdc : d = c
  · subst hdc
    rw [Function.update_self] at hd
    obtain rfl := Option.some.inj hd
    exact .inl ⟨rfl, node, hstage⟩
  · rw [Function.update_of_ne hdc] at hd
    exact .inr ⟨hdc, call', node, hd, hstage⟩

/-- What an event of the calls does to the workflows on record and to those about to be there. -/
inductive Stores (W : Workflows) : CallEvent → Workflows → Prop
  | quiet {e V} : V.graphs = W.graphs → V.instances = W.instances →
      (∀ d H, V.Persists d H → W.Persists d H) → Stores W e V
  | created {e V c G} : V.graphs = W.graphs → V.instances = W.instances + 1 → G.instanceId = W.instances →
      (∀ d H, V.Persists d H → d = c ∧ H = G ∨ d ≠ c ∧ W.Persists d H) → Stores W e V
  | persisted {e V c G} : W.Persists c G → V.graphs = W.graphs ++ [G] → V.instances = W.instances →
      (∀ d H, V.Persists d H → d ≠ c ∧ W.Persists d H) → Stores W e V
  | finished {g status} : status ≠ .pending → status ≠ .running → Stores W (.finish g status) (W.finish g status)

theorem Stores.of_call {c : CallId} {call : GraphCall} (hcalls : W'.calls = Function.update W.calls c (some call))
    (hgraphs : W'.graphs = W.graphs) (hinstances : W'.instances = W.instances)
    (hstage : ∀ node G, call.stage ≠ .persist node G) : Stores W a W' := by
  refine .quiet hgraphs hinstances fun d H hH => ?_
  rcases persists_update hcalls hH with ⟨-, node, hpersist⟩ | ⟨-, h⟩
  · exact absurd hpersist (hstage node H)
  · exact h

theorem createAndRunGraph_ne_persist (configuration : Configuration) (nodeId : Option String) (node : Option Node)
    (G : GraphObject) : createAndRunGraph configuration nodeId ≠ .persist node G := by
  unfold createAndRunGraph
  split
  · exact nofun
  · split <;> exact nofun

theorem onProxy_instances (W : Workflows) (x : ContextId) (answer : Except Rejection (Option String)) :
    (W.onProxy x answer).instances = W.instances := by
  unfold onProxy
  split
  · rfl
  · split <;> rfl

theorem Change.stores (hc : Change defaultTaskDomain W a W') : Stores W a W' := by
  cases hc with
  | called => exact .of_call rfl rfl rfl (createAndRunGraph_ne_persist _ _)
  | @assigned c n call hcall =>
    refine .quiet rfl rfl fun d H hH => ?_
    rcases persists_update rfl hH with ⟨rfl, node, hpersist⟩ | ⟨-, h⟩
    · exact ⟨call, node, hcall, hpersist⟩
    · exact h
  | moved _ hmoves => exact .of_call rfl rfl rfl hmoves.frame.2.2.1
  | checked | prepared | nodeless | resolved => exact .of_call rfl rfl rfl (by simp)
  | @proxied c call node definition x answer =>
    obtain ⟨-, hcalls, hgraphs, -⟩ := onProxy_frame W x answer
    let next : GraphCall := { call with stage := .createGraph (some node) definition x }
    have hnext : ((W.onProxy x answer).setCall c next).calls = Function.update W.calls c (some next) := by
      rw [setCall, hcalls]
    exact .of_call hnext hgraphs (onProxy_instances W x answer) (by simp [next])
  | @created c call node definition x hcall hstage =>
    let G := W.createActiveGraph defaultTaskDomain call definition x
    refine .created (c := c) (G := G) rfl rfl rfl fun d H hH => ?_
    rcases persists_update rfl hH with ⟨rfl, node, hpersist⟩ | h
    · exact .inl ⟨rfl, (CallStage.persist.inj hpersist).2.symm⟩
    · exact .inr h
  | @persisted c call node G hcall hstage =>
    refine .persisted ⟨call, node, hcall, hstage⟩ rfl rfl fun d H hH => ?_
    rcases persists_update rfl hH with ⟨-, node, hpersist⟩ | h
    · cases hpersist
    · exact h
  | finished hpending hrunning => exact .finished hpending hrunning

theorem finish_ids (W : Workflows) (g : GraphId) (status : TaskState) :
    (W.finish g status).graphs.map GraphObject.instanceId = W.graphs.map GraphObject.instanceId := by
  rw [finish, List.map_map]
  apply List.map_congr_left
  intro G _
  rw [Function.comp_apply]
  split <;> rfl

theorem forall_ids {P : GraphId → Prop}
    (h : W'.graphs.map GraphObject.instanceId = W.graphs.map GraphObject.instanceId) :
    (∀ G ∈ W'.graphs, P G.instanceId) ↔ ∀ G ∈ W.graphs, P G.instanceId := by
  rw [← List.forall_mem_map (f := GraphObject.instanceId) (P := P), h, List.forall_mem_map]

theorem Numbered.stores (h : W.Numbered) (hs : Stores W a W') : W'.Numbered := by
  cases hs with
  | quiet hgraphs hinstances hpersists =>
    refine ⟨hgraphs ▸ h.nodup, ?_, ?_, ?_⟩
    · rw [hgraphs, hinstances]
      exact h.lt
    · rw [hgraphs, hinstances]
      exact fun c G hG => h.pending c G (hpersists c G hG)
    · exact fun c d G H hG hH => h.apart c d G H (hpersists c G hG) (hpersists d H hH)
  | @created _ _ c G hgraphs hinstances hid hpersists =>
    have hfresh : ∀ d H, W.Persists d H → H.instanceId ≠ G.instanceId := by
      intro d H hH
      exact hid ▸ Nat.ne_of_lt (h.pending d H hH).1
    refine ⟨hgraphs ▸ h.nodup, ?_, ?_, ?_⟩
    · rw [hgraphs, hinstances]
      exact fun H hH => Nat.lt_succ_of_lt (h.lt H hH)
    · rw [hgraphs, hinstances]
      intro d H hH
      rcases hpersists d H hH with ⟨-, rfl⟩ | ⟨-, hH⟩
      · exact ⟨hid ▸ Nat.lt_succ_self _, fun K hK => hid ▸ Nat.ne_of_lt (h.lt K hK)⟩
      · exact ⟨Nat.lt_succ_of_lt (h.pending d H hH).1, (h.pending d H hH).2⟩
    · intro d e H K hH hK heq
      rcases hpersists d H hH with ⟨rfl, rfl⟩ | ⟨-, hH⟩
      · rcases hpersists e K hK with ⟨rfl, -⟩ | ⟨-, hK⟩
        · rfl
        · exact absurd heq.symm (hfresh e K hK)
      · rcases hpersists e K hK with ⟨rfl, rfl⟩ | ⟨-, hK⟩
        · exact absurd heq (hfresh d H hH)
        · exact h.apart d e H K hH hK heq
  | @persisted _ _ c G hG hgraphs hinstances hpersists =>
    obtain ⟨hlt, hnew⟩ := h.pending c G hG
    refine ⟨?_, ?_, ?_, ?_⟩
    · rw [hgraphs, List.map_append, List.map_singleton]
      refine List.nodup_append.mpr ⟨h.nodup, List.nodup_singleton _, ?_⟩
      intro g hg k hk
      obtain ⟨H, hH, rfl⟩ := List.mem_map.mp hg
      exact List.mem_singleton.mp hk ▸ hnew H hH
    · rw [hgraphs, hinstances]
      intro H hH
      rcases List.mem_append.mp hH with hH | hH
      · exact h.lt H hH
      · exact List.mem_singleton.mp hH ▸ hlt
    · rw [hgraphs, hinstances]
      intro d H hH
      obtain ⟨hne, hH⟩ := hpersists d H hH
      refine ⟨(h.pending d H hH).1, fun K hK => ?_⟩
      rcases List.mem_append.mp hK with hK | hK
      · exact (h.pending d H hH).2 K hK
      · obtain rfl := List.mem_singleton.mp hK
        exact fun heq => hne (h.apart d c H K hH hG heq.symm)
    · exact fun d e H K hH hK => h.apart d e H K (hpersists d H hH).2 (hpersists e K hK).2
  | @finished g status _ _ =>
    have hids := finish_ids W g status
    refine ⟨hids ▸ h.nodup, (forall_ids (P := (· < W.instances)) hids).mpr h.lt, fun c G hG => ?_, h.apart⟩
    exact ⟨(h.pending c G hG).1, (forall_ids (P := (· ≠ G.instanceId)) hids).mpr (h.pending c G hG).2⟩

theorem Retired.stores {g : GraphId} (h : W.Retired g) (hs : Stores W a W') : W'.Retired g := by
  cases hs with
  | quiet hgraphs hinstances hpersists =>
    exact ⟨hinstances ▸ h.lt, fun c G hG => h.pending c G (hpersists c G hG), hgraphs ▸ h.inactive⟩
  | created hgraphs hinstances hid hpersists =>
    refine ⟨hinstances ▸ Nat.lt_succ_of_lt h.lt, fun d H hH => ?_, hgraphs ▸ h.inactive⟩
    rcases hpersists d H hH with ⟨-, rfl⟩ | ⟨-, hH⟩
    · exact hid ▸ Nat.ne_of_gt h.lt
    · exact h.pending d H hH
  | @persisted _ _ c G hG hgraphs hinstances hpersists =>
    refine ⟨hinstances ▸ h.lt, fun d H hH => h.pending d H (hpersists d H hH).2, ?_⟩
    rw [hgraphs]
    intro H hH heq
    rcases List.mem_append.mp hH with hH | hH
    · exact h.inactive H hH heq
    · obtain rfl := List.mem_singleton.mp hH
      exact absurd heq (h.pending c H hG)
  | @finished k status hpending hrunning =>
    refine ⟨h.lt, h.pending, fun G' hG' heq => ?_⟩
    obtain ⟨G, hG, rfl⟩ := List.mem_map.mp hG'
    split
    · simp [GraphObject.active, hpending, hrunning]
    · rename_i hne
      rw [if_neg hne] at heq
      exact h.inactive G hG heq

/-- A workflow stays on record as it is, but for the one that is finished. -/
theorem Stores.kept (hs : Stores W a W') {G : GraphObject} (hG : G ∈ W.graphs) :
    G ∈ W'.graphs ∨ ∃ status, a = .finish G.instanceId status := by
  cases hs with
  | quiet hgraphs | created hgraphs => exact .inl (hgraphs ▸ hG)
  | persisted _ hgraphs => exact .inl (hgraphs ▸ List.mem_append_left _ hG)
  | @finished g status =>
    by_cases hid : G.instanceId = g
    · exact .inr ⟨status, by rw [hid]⟩
    · exact .inl (List.mem_map.mpr ⟨G, hG, if_neg hid⟩)

/-- A workflow that is found inactive, is retired. -/
theorem Numbered.retired (h : W.Numbered) {G : GraphObject} (hG : G ∈ W.graphs) (hactive : G.active = false) :
    W.Retired G.instanceId where
  lt := h.lt G hG
  pending c H hH := Ne.symm ((h.pending c H hH).2 G hG)
  inactive _ hH heq := List.inj_on_of_nodup_map h.nodup hH hG heq ▸ hactive

theorem Numbered.filter (h : W.Numbered) (p : GraphObject → Bool) :
    Numbered { W with graphs := W.graphs.filter p } where
  nodup := (List.filter_sublist.map _).nodup h.nodup
  lt G hG := h.lt G (List.mem_of_mem_filter hG)
  pending c G hG := ⟨(h.pending c G hG).1, fun H hH => (h.pending c G hG).2 H (List.mem_of_mem_filter hH)⟩
  apart := h.apart

theorem Retired.filter {g : GraphId} (h : W.Retired g) (p : GraphObject → Bool) :
    Retired { W with graphs := W.graphs.filter p } g :=
  ⟨h.lt, h.pending, fun G hG => h.inactive G (List.mem_of_mem_filter hG)⟩

theorem Guarded.filter (h : W.Guarded) (p : GraphObject → Bool) :
    Guarded { W with graphs := W.graphs.filter p } := by
  refine ⟨fun {c call} hcall => ?_, ?_⟩
  · refine (h.ready hcall).mono [] rfl (by simp) (fun _ _ ht => ht) fun G hG _ => .inl ?_
    exact List.mem_of_mem_filter hG
  · exact ((List.filter_sublist.filter _).map _).nodup h.single

end Workflows

namespace WorkflowApi

variable {defaultTaskDomain : String} {w w' : WorkflowApi} {a : ApiEvent}

/-- What is about to be deleted is retired. -/
structure Settled (w : WorkflowApi) : Prop where
  numbered : w.workflows.Numbered
  retired : ∀ n R, w.requests n = some R → R.stage = .deleteGraph → w.workflows.Retired R.graphId

theorem Settled.setRequest {n : RequestId} {R : WorkflowRequest} (h : w.Settled)
    (hR : R.stage = .deleteGraph → w.workflows.Retired R.graphId) : (w.setRequest n R).Settled := by
  refine ⟨h.numbered, fun m Q hQ hstage => ?_⟩
  by_cases hm : m = n
  · subst hm
    obtain rfl : R = Q := by simpa [WorkflowApi.setRequest] using hQ
    exact hR hstage
  · exact h.retired m Q (by simpa [WorkflowApi.setRequest, hm] using hQ) hstage

theorem Settled.change (h : w.Settled) (hc : Change defaultTaskDomain w a w') : w'.Settled := by
  cases hc with
  | call hcall =>
    have hstores := hcall.stores
    exact ⟨h.numbered.stores hstores, fun n R hR hstage => (h.retired n R hR hstage).stores hstores⟩
  | moved hstage => exact h.setRequest fun heq => absurd heq hstage
  | @found _ n command g G hG =>
    refine h.setRequest fun heq => ?_
    obtain rfl : G.instanceId = g := by simpa using List.find?_some hG
    have hinactive : G.active = false := by
      cases command with
      | cancel =>
        cases hactive : G.active <;> simp [onWorkflow, hactive] at heq
      | delete =>
        cases hactive : G.active <;> simp [onWorkflow, hactive] at heq ⊢
    exact h.numbered.retired (List.mem_of_find?_eq_some hG) hinactive
  | @cancelled _ n R hR hstage =>
    have hset : (w.setRequest n { R with stage := .resolved none }).Settled := h.setRequest nofun
    exact ⟨hset.numbered, hset.retired⟩
  | @deleted _ n R hR hstage =>
    have hdeleted : (w.deleteGraph R.graphId).Settled :=
      ⟨h.numbered.filter _, fun m Q hQ hQstage => (h.retired m Q hQ hQstage).filter _⟩
    exact hdeleted.setRequest nofun

theorem settled_start (brought : Nat → Context) : (start brought).Settled :=
  ⟨Workflows.numbered_start brought, nofun⟩

/-- An active workflow stays on record, but for one that is finished. -/
def KeepsActive (w : WorkflowApi) (a : ApiEvent) (w' : WorkflowApi) : Prop :=
  ∀ G ∈ w.workflows.graphs, G.active = true →
    G ∈ w'.workflows.graphs ∨ ∃ status, a = .call (.finish G.instanceId status)

theorem Settled.keeps_active (h : w.Settled) (hc : Change defaultTaskDomain w a w') : KeepsActive w a w' := by
  intro G hG hactive
  cases hc with
  | call hcall =>
    rcases hcall.stores.kept hG with hkept | ⟨status, rfl⟩
    · exact .inl hkept
    · exact .inr ⟨status, rfl⟩
  | moved | found | cancelled => exact .inl hG
  | @deleted _ n R hR hstage =>
    refine .inl (List.mem_filter.mpr ⟨hG, ?_⟩)
    have hne : G.instanceId ≠ R.graphId := by
      intro heq
      rw [(h.retired n R hR hstage).inactive G hG heq] at hactive
      cases hactive
    simpa using hne

/-- The conditions on the calls under which the targets of active workflows are different. -/
def CallsGuarded (w : WorkflowApi) : ApiEvent → Prop
  | .call e => w.workflows.OwnTarget e ∧ w.workflows.CheckCurrent e
  | _ => True

instance instDecidableCallsGuarded (w : WorkflowApi) : ∀ a, Decidable (w.CallsGuarded a)
  | .call e => inferInstanceAs (Decidable (w.workflows.OwnTarget e ∧ w.workflows.CheckCurrent e))
  | .request .. | .needOne .. | .cancelTaskGraph _ | .deleteGraph _ | .reject .. => isTrue trivial

theorem guarded_change (h : w.workflows.Guarded) (hc : Change defaultTaskDomain w a w') (hok : w.CallsGuarded a) :
    w'.workflows.Guarded := by
  cases hc with
  | call hcall => exact h.change hcall hok.1 hok.2
  | moved | found | cancelled => exact h
  | deleted => exact h.filter _

/-- However requests and calls are interleaved, no active workflow is deleted: it stays on
record until it is finished. So deletions leave nodes with no second active workflow, where
the calls alone do. -/
theorem active_workflows_kept (defaultTaskDomain : String) (brought : Nat → Context) (as : List ApiEvent) :
    Lts.Along (step defaultTaskDomain) KeepsActive (start brought) as ∧
      (Lts.Along (step defaultTaskDomain) (fun w a _ => w.CallsGuarded a) (start brought) as →
        ∀ w, Lts.exec (step defaultTaskDomain) (start brought) as = some w → w.workflows.SingleTarget) := by
  constructor
  · exact Lts.along_of_invariant Settled (fun _ _ _ hstep h => h.change (step_change hstep))
      (fun _ _ _ hstep h => h.keeps_active (step_change hstep)) (settled_start brought) as
  · intro hok w hrun
    exact (hok.invariant (fun w : WorkflowApi => w.workflows.Guarded)
      (fun _ _ _ hstep hc h => guarded_change h (step_change hstep) hc)
      (Workflows.guarded_start brought) hrun).single

/-- A workflow is not deleted while it runs, and is once it has succeeded. -/
def deletingRun : List ApiEvent :=
  (checkTarget 0 none 1 ++ insertGraph 0).map .call ++ [.request 0 .delete 0, .needOne 0 (.error "not found"),
    .request 1 .cancel 0, .needOne 1 (.error "not found"), .cancelTaskGraph 1, .call (.finish 0 .succeeded),
    .request 2 .delete 0, .needOne 2 (.error "not found"), .deleteGraph 2]

theorem active_workflows_kept_deleting : ∃ w,
    Lts.exec (step "default") (start fun _ => ⟨none, none⟩) deletingRun = some w ∧
    w.workflows.graphs.length = 0 ∧ w.workflows.SingleTarget := by
  have hrun : Lts.exec (step "default") (start fun _ => ⟨none, none⟩) deletingRun = some _ := rfl
  exact ⟨_, hrun, rfl, (active_workflows_kept "default" _ deletingRun).2 (by decide) _ hrun⟩

end WorkflowApi

end OnTaskGraph
