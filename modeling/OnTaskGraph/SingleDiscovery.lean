import Mathlib.Data.List.MinMax
import OnTaskGraph.NodeDiscovery

/-! Find-then-create and check-then-run. A call of `getNode` acts on what it has
looked up; it makes no second node and starts no second discovery unless another
call did so in between, or a discovery was running that did not answer. -/

namespace OnTaskGraph

/-- What other calls have done since the last note of `c`. -/
def meanwhile (c : CallId) (log : List NodeNote) : List NodeNote := log.takeWhile (·.call ≠ c)

theorem mem_meanwhile_cons {c : CallId} {e e' : NodeNote} {log : List NodeNote} :
    e' ∈ meanwhile c (e :: log) ↔ e.call ≠ c ∧ (e' = e ∨ e' ∈ meanwhile c log) := by
  by_cases h : e.call = c <;> simp [meanwhile, h]

def NodeNote.startedFor (n : NodeId) : NodeNote → Option GraphId
  | .started _ n' g => if n' = n then some g else none
  | _ => none

/-- The node that the call is about, while it has not started a discovery. -/
def NodeStage.about : NodeStage → Option NodeId
  | .discovered node | .activeTaskExists node | .publishNodeEvent node | .upsertNodeToMacAddress node _ =>
    some node.id
  | .createAndRunGraph _ configuration => some configuration.nodeId
  | _ => none

/-- The node for which the call is going to start a discovery. -/
def NodeStage.starts : NodeStage → Option NodeId
  | .publishNodeEvent node | .upsertNodeToMacAddress node _ => some node.id
  | .createAndRunGraph _ configuration => some configuration.nodeId
  | _ => none

theorem NodeStage.about_of_starts {stage : NodeStage} {n : NodeId} (h : stage.starts = some n) :
    stage.about = some n := by
  cases stage <;> simp_all [NodeStage.starts, NodeStage.about]

/-- From `stage` a call comes to `stage'` and has looked at nothing. -/
structure NodeStage.Moves (stage stage' : NodeStage) : Prop where
  about : stage'.about = none ∨ stage'.about = stage.about
  starts : stage'.starts = none ∨ stage'.starts = stage.starts
  searched : stage' ≠ .create

namespace ProfileApi

variable {configFile : String → Option String} {macs : List String}

theorem discoveryConfiguration_nodeId {node : NodeDocument} {options : NodeOptions}
    {configuration : DiscoveryConfiguration}
    (h : discoveryConfiguration configFile node options = .ok configuration) :
    configuration.nodeId = node.id ∧ configuration.target = node.id := by
  unfold discoveryConfiguration at h
  split_ifs at h with hswitch
  · unfold getSwitchDiscoveryConfiguration at h
    cases hvendor : options.switchVendor with
    | none => simp [hvendor, throw, throwThe, MonadExceptOf.throw] at h
    | some vendor =>
      simp only [hvendor] at h
      split_ifs at h <;> cases h <;> exact ⟨rfl, rfl⟩
  · cases h
    exact ⟨rfl, rfl⟩

theorem runDiscovery_stage (configFile : String → Option String) (node : NodeDocument) (options : NodeOptions) :
    ((runDiscovery configFile node options).starts = none ∧ (runDiscovery configFile node options).about = none ∨
      (runDiscovery configFile node options).starts = some node.id ∧
        (runDiscovery configFile node options).about = some node.id) ∧
    runDiscovery configFile node options ≠ .create := by
  unfold runDiscovery
  cases h : discoveryConfiguration configFile node options with
  | error reason => exact ⟨Or.inl ⟨rfl, rfl⟩, by simp⟩
  | ok configuration =>
    have hnode := (discoveryConfiguration_nodeId h).1
    exact ⟨Or.inr ⟨congrArg some hnode, congrArg some hnode⟩, by simp⟩

theorem writeLookups_moves {stage : NodeStage} {node : NodeDocument} {options : NodeOptions} (left : List String)
    (hstarts : stage.starts = some node.id) : stage.Moves (writeLookups configFile node options left) := by
  have habout := NodeStage.about_of_starts hstarts
  cases left with
  | cons mac left => exact ⟨Or.inr habout.symm, Or.inr hstarts.symm, by simp [writeLookups]⟩
  | nil =>
    obtain ⟨hstage, hcreate⟩ := runDiscovery_stage configFile { node with newRecord := true } options
    rcases hstage with ⟨hs, ha⟩ | ⟨hs, ha⟩
    · exact ⟨Or.inl ha, Or.inl hs, hcreate⟩
    · exact ⟨Or.inr (ha.trans habout.symm), Or.inr (hs.trans hstarts.symm), hcreate⟩

/-- A discovery that goes on was there before. -/
def Ends (ds ds' : List Discovery) : Prop :=
  ∀ (g : GraphId) (d' : Discovery), ds'[g]? = some d' →
    ∃ d, ds[g]? = some d ∧ d'.configuration = d.configuration ∧
    (d'.active = true → d.active = true)

theorem ends_set {ds : List Discovery} {g : GraphId} {d d' : Discovery} (hg : ds[g]? = some d)
    (hsame : d'.configuration = d.configuration) (hactive : d'.active = true → d.active = true) :
    Ends ds (ds.set g d') := by
  intro g' x hx
  by_cases heq : g = g'
  · subst heq
    have hlt : g < ds.length := (List.getElem?_eq_some_iff.mp hg).1
    obtain rfl : d' = x := by simpa [List.getElem?_set_self hlt] using hx
    exact ⟨d, hg, hsame, hactive⟩
  · rw [List.getElem?_set_ne heq] at hx
    exact ⟨x, hx, rfl, id⟩

inductive Change (macs : List String) (w : ProfileApi) : NodeEvent → ProfileApi → Prop
  | getNode (c : CallId) (options : NodeOptions) : Change macs w (.getNode c options)
      (w.setStage c ⟨options, .findByIdentifier⟩ .findByIdentifier)
  | searched (c : CallId) (x : GetNode) (stage : NodeStage) (hx : w.calls c = some x)
      (hstage : stage = .create ∧ w.findByIdentifier macs = none ∨
        ∃ node, stage = .discovered node ∧ node ∈ w.nodes) :
      Change macs w (.findByIdentifier c) { w.setStage c x stage with log := .searched c :: w.log }
  | checked (c : CallId) (x : GetNode) (node : NodeDocument) (stage : NodeStage) (hx : w.calls c = some x)
      (hs : x.stage = .activeTaskExists node)
      (hstage : stage.starts = none ∧ stage.about = none ∨
        w.activeTaskExists node.id = false ∧ stage.starts = some node.id ∧ stage.about = some node.id)
      (hcreate : stage ≠ .create) :
      Change macs w (.activeTaskExists c) { w.setStage c x stage with log := .checked c node.id :: w.log }
  | created (c : CallId) (x : GetNode) (hx : w.calls c = some x) (hs : x.stage = .create) :
      Change macs w (.create c) (w.create macs c x)
  | moved {e : NodeEvent} (c : CallId) (x : GetNode) (stage : NodeStage) (hx : w.calls c = some x)
      (hmoves : x.stage.Moves stage) : Change macs w e (w.setStage c x stage)
  | started (c : CallId) (x : GetNode) (node : NodeDocument) (configuration : DiscoveryConfiguration)
      (hx : w.calls c = some x) (hs : x.stage = .createAndRunGraph node configuration) :
      Change macs w (.createAndRunGraph c) { w.setStage c x (.requestProperties node 2) with
        discoveries := w.discoveries ++ [⟨configuration, true, false⟩]
        log := .started c configuration.nodeId w.discoveries.length :: w.log }
  | ended {e : NodeEvent} (ds : List Discovery) (catalogs others : NodeId → Bool)
    (hends : Ends w.discoveries ds) :
      Change macs w e { w with discoveries := ds, catalogs := catalogs, others := others }

theorem step_change {w w' : ProfileApi} {e : NodeEvent} (h : w.step configFile macs e = some w') :
    Change macs w e w' := by
  cases e with
  | getNode c options =>
    simp only [step] at h
    split_ifs at h
    exact Option.some.inj h ▸ .getNode c options
  | findByIdentifier c =>
    obtain ⟨x, hx, h⟩ := Option.bind_eq_some_iff.mp h
    split at h
    · refine Option.some.inj h ▸ .searched c x _ hx ?_
      cases hfind : w.findByIdentifier macs with
      | none => exact Or.inl ⟨rfl, rfl⟩
      | some node => exact Or.inr ⟨node, rfl, List.mem_of_find?_eq_some hfind⟩
    · simp at h
  | discovered c =>
    obtain ⟨x, hx, h⟩ := Option.bind_eq_some_iff.mp h
    split at h
    · rename_i node hs
      refine Option.some.inj h ▸ .moved c x _ hx ?_
      rw [hs]
      split_ifs
      · exact ⟨Or.inl rfl, Or.inl rfl, by simp⟩
      · exact ⟨Or.inr rfl, Or.inl rfl, by simp⟩
    · simp at h
  | activeTaskExists c =>
    obtain ⟨x, hx, h⟩ := Option.bind_eq_some_iff.mp h
    split at h
    · rename_i node hs
      refine Option.some.inj h ▸ .checked c x node _ hx hs ?_ ?_
      · cases hexists : w.activeTaskExists node.id with
        | true => exact Or.inl ⟨rfl, rfl⟩
        | false => exact (runDiscovery_stage _ node x.options).1.imp id fun hrun => ⟨rfl, hrun⟩
      · split_ifs
        · simp
        · exact (runDiscovery_stage _ node x.options).2
    · simp at h
  | create c =>
    obtain ⟨x, hx, h⟩ := Option.bind_eq_some_iff.mp h
    split at h
    · rename_i hs
      exact Option.some.inj h ▸ .created c x hx hs
    · simp at h
  | publishNodeEvent c =>
    obtain ⟨x, hx, h⟩ := Option.bind_eq_some_iff.mp h
    split at h
    · rename_i node hs
      exact Option.some.inj h ▸ .moved c x _ hx (writeLookups_moves macs (by rw [hs, NodeStage.starts]))
    · simp at h
  | upsertNodeToMacAddress c =>
    obtain ⟨x, hx, h⟩ := Option.bind_eq_some_iff.mp h
    split at h
    · rename_i node left hs
      exact Option.some.inj h ▸ .moved c x _ hx (writeLookups_moves left.tail (by rw [hs, NodeStage.starts]))
    · simp at h
  | createAndRunGraph c =>
    obtain ⟨x, hx, h⟩ := Option.bind_eq_some_iff.mp h
    split at h
    · rename_i node configuration hs
      exact Option.some.inj h ▸ .started c x node configuration hx hs
    · simp at h
  | requestProperties c answer =>
    obtain ⟨x, hx, h⟩ := Option.bind_eq_some_iff.mp h
    split at h
    · exact Option.some.inj h ▸ .moved c x _ hx ⟨Or.inl rfl, Or.inl rfl, by simp⟩
    · exact Option.some.inj h ▸ .moved c x _ hx ⟨Or.inl rfl, Or.inl rfl, by simp⟩
    · exact Option.some.inj h ▸ .moved c x _ hx ⟨Or.inl rfl, Or.inl rfl, by simp⟩
    · exact Option.some.inj h ▸ .moved c x _ hx ⟨Or.inl rfl, Or.inl rfl, by simp⟩
    · simp at h
  | reject c reason =>
    obtain ⟨x, hx, h⟩ := Option.bind_eq_some_iff.mp h
    split at h
    · simp at h
    · simp at h
    · simp at h
    · simp at h
    · exact Option.some.inj h ▸ .moved c x _ hx ⟨Or.inl rfl, Or.inl rfl, by simp⟩
  | subscribe g on =>
    obtain ⟨d, hd, h⟩ := Option.bind_eq_some_iff.mp h
    split_ifs at h with hactive
    exact Option.some.inj h ▸ .ended _ w.catalogs w.others (ends_set hd rfl id)
  | finish g =>
    obtain ⟨d, hd, h⟩ := Option.map_eq_some_iff.mp h
    exact h ▸ .ended _ w.catalogs w.others (ends_set hd rfl (by simp))
  | catalog n found =>
    exact Option.some.inj h ▸ .ended w.discoveries _ w.others fun g d hd => ⟨d, hd, rfl, id⟩
  | otherTask n on =>
    exact Option.some.inj h ▸ .ended w.discoveries w.catalogs _ fun g d hd => ⟨d, hd, rfl, id⟩

def ActiveFor (ds : List Discovery) (n : NodeId) (g : GraphId) : Prop :=
  ∃ d, ds[g]? = some d ∧ d.active = true ∧ d.configuration.nodeId = n

/-- What a call is about to do, it does by what still holds: no other call has
created a node since it found none, and since it decided for a discovery none of
the node was started that is active. And when it asks whether a task of the node
is active, one is if a discovery is. -/
def Unovertaken (w : ProfileApi) : NodeEvent → ProfileApi → Prop
  | .create c, _ => ∀ e ∈ meanwhile c w.log, e.isCreated = false
  | .activeTaskExists c, _ => ∀ x ∈ w.calls c,
    match x.stage with
    | .activeTaskExists node =>
      (∃ d ∈ w.discoveries, d.active = true ∧ d.configuration.nodeId = node.id) →
        w.activeTaskExists node.id = true
    | _ => True
  | .createAndRunGraph c, _ => ∀ x ∈ w.calls c,
    match x.stage with
    | .createAndRunGraph _ configuration => ∀ e ∈ meanwhile c w.log, ∀ g ∈ e.startedFor configuration.nodeId,
      ∀ d ∈ w.discoveries[g]?, d.active = false
    | _ => True
  | _, _ => True

instance (w w' : ProfileApi) (e : NodeEvent) : Decidable (w.Unovertaken e w') := by
  unfold Unovertaken
  split
  · infer_instance
  · refine @Option.decidableForallMem _ _ (fun x => ?_) _
    split <;> infer_instance
  · refine @Option.decidableForallMem _ _ (fun x => ?_) _
    split <;> infer_instance
  · infer_instance

/-- No call is ahead of what it has looked up, and nothing was made twice. -/
structure Unraced (macs : List String) (nodes : List NodeDocument) (w : ProfileApi) : Prop where
  ids : ∀ node ∈ w.nodes, node.id < w.nextNode
  about : ∀ c x n, w.calls c = some x → x.stage.about = some n → n < w.nextNode
  targets : ∀ d ∈ w.discoveries, d.configuration.nodeId < w.nextNode
  count : w.nodes.length = nodes.length + w.log.countP NodeNote.isCreated
  single : w.log.countP NodeNote.isCreated ≤ 1
  found : (∃ e ∈ w.log, e.isCreated = true) → w.findByIdentifier macs ≠ none
  searching : ∀ c x, w.calls c = some x → x.stage = .create →
    ∀ e ∈ w.log, e.isCreated = true → e ∈ meanwhile c w.log
  unique : ∀ n g g', ActiveFor w.discoveries n g → ActiveFor w.discoveries n g' → g = g'
  starting : ∀ c x n, w.calls c = some x → x.stage.starts = some n →
    ∀ g, ActiveFor w.discoveries n g → ∃ e ∈ meanwhile c w.log, e.startedFor n = some g

variable {nodes : List NodeDocument} {w w' : ProfileApi}

theorem setStage_calls (w : ProfileApi) (c c' : CallId) (x : GetNode) (stage : NodeStage) :
    (w.setStage c x stage).calls c' = if c' = c then some { x with stage := stage } else w.calls c' := by
  simp [setStage, Function.update_apply]

theorem forall_setStage {P : CallId → GetNode → Prop} {c : CallId} {x : GetNode} {stage : NodeStage}
    (hnew : P c { x with stage := stage }) (hold : ∀ c' x', c' ≠ c → w.calls c' = some x' → P c' x') :
    ∀ c' x', (w.setStage c x stage).calls c' = some x' → P c' x' := by
  intro c' x' hx'
  rw [setStage_calls] at hx'
  split_ifs at hx' with hc
  · obtain rfl := hc
    exact Option.some.inj hx' ▸ hnew
  · exact hold c' x' hc hx'

theorem Unraced.moved {c : CallId} {x : GetNode} {stage : NodeStage} (h : Unraced macs nodes w)
    (habout : ∀ n, stage.about = some n → n < w.nextNode) (hcreate : stage ≠ .create)
    (hstarts : ∀ n, stage.starts = some n →
      ∀ g, ActiveFor w.discoveries n g → ∃ e ∈ meanwhile c w.log, e.startedFor n = some g) :
    Unraced macs nodes (w.setStage c x stage) where
  ids := h.ids
  about c' x' n hx' := forall_setStage (P := fun _ x' => ∀ n, x'.stage.about = some n → n < w.nextNode)
    habout (fun c' x' _ hx' n => h.about c' x' n hx') c' x' hx' n
  targets := h.targets
  count := h.count
  single := h.single
  found := h.found
  searching := forall_setStage (fun hstage => absurd hstage hcreate) fun c' x' _ => h.searching c' x'
  unique := h.unique
  starting c' x' n hx' := forall_setStage
    (P := fun c' x' => ∀ n, x'.stage.starts = some n →
      ∀ g, ActiveFor w.discoveries n g → ∃ e ∈ meanwhile c' w.log, e.startedFor n = some g)
    hstarts (fun c' x' _ hx' n => h.starting c' x' n hx') c' x' hx' n

theorem Unraced.noted {c : CallId} {x : GetNode} {stage : NodeStage} {e : NodeNote} (h : Unraced macs nodes w)
    (he : e.call = c) (hnote : e.isCreated = false) (habout : ∀ n, stage.about = some n → n < w.nextNode)
    (hcreate : stage = .create → ∀ e ∈ w.log, e.isCreated = false)
    (hstarts : ∀ n, stage.starts = some n → ∀ g, ¬ ActiveFor w.discoveries n g) :
    Unraced macs nodes { w.setStage c x stage with log := e :: w.log } := by
  have hmeanwhile : ∀ c' e', c' ≠ c → e' ∈ meanwhile c' w.log → e' ∈ meanwhile c' (e :: w.log) :=
    fun c' e' hc he' => mem_meanwhile_cons.mpr ⟨he.trans_ne hc.symm, Or.inr he'⟩
  have hcount : (e :: w.log).countP NodeNote.isCreated = w.log.countP NodeNote.isCreated := by
    simp [hnote]
  have hcreated : ∀ e' ∈ e :: w.log, e'.isCreated = true → e' ∈ w.log := fun e' he' hc =>
    (List.mem_cons.mp he').resolve_left fun heq => by simp [heq, hnote] at hc
  exact {
    ids := h.ids
    about := fun c' x' n hx' => forall_setStage (P := fun _ x' => ∀ n, x'.stage.about = some n → n < w.nextNode)
      habout (fun c' x' _ hx' n => h.about c' x' n hx') c' x' hx' n
    targets := h.targets
    count := h.count.trans (congrArg _ hcount.symm)
    single := hcount ▸ h.single
    found := fun ⟨e', he', hc⟩ => h.found ⟨e', hcreated e' he' hc, hc⟩
    searching := by
      refine forall_setStage (fun hstage e' he' hc => ?_) fun c' x' hne hx' hstage e' he' hc => ?_
      · simp [hcreate hstage e' (hcreated e' he' hc)] at hc
      · exact hmeanwhile c' e' hne (h.searching c' x' hx' hstage e' (hcreated e' he' hc) hc)
    unique := h.unique
    starting := fun c' x' n hx' => forall_setStage
      (P := fun c' x' => ∀ n, x'.stage.starts = some n →
        ∀ g, ActiveFor w.discoveries n g → ∃ e' ∈ meanwhile c' (e :: w.log), e'.startedFor n = some g)
      (fun n hn g hg => absurd hg (hstarts n hn g))
      (fun c' x' hne hx' n hn g hg => by
        obtain ⟨e', he', hfor⟩ := h.starting c' x' n hx' hn g hg
        exact ⟨e', hmeanwhile c' e' hne he', hfor⟩) c' x' hx' n }

theorem Unraced.created {c : CallId} {x : GetNode} (h : Unraced macs nodes w) (hmacs : macs ≠ [])
    (hx : w.calls c = some x) (hs : x.stage = .create)
    (hfirst : ∀ e ∈ meanwhile c w.log, e.isCreated = false) : Unraced macs nodes (w.create macs c x) := by
  have hnone : ∀ e ∈ w.log, e.isCreated = false := fun e he => by
    by_contra hc
    have hcreated : e.isCreated = true := by simpa using hc
    exact hc (hfirst e (h.searching c x hx hs e he hcreated))
  have hzero : w.log.countP NodeNote.isCreated = 0 := List.countP_eq_zero.mpr fun e he => by simp [hnone e he]
  have hcount : (w.create macs c x).log.countP NodeNote.isCreated = 1 := by
    show (NodeNote.created c w.nextNode :: w.log).countP NodeNote.isCreated = 1
    rw [List.countP_cons_of_pos rfl, hzero]
  have hnofresh : ∀ g, ¬ ActiveFor w.discoveries w.nextNode g := by
    rintro g ⟨d, hd, _, hnode⟩
    exact absurd hnode (Nat.ne_of_lt (h.targets d (List.mem_of_getElem? hd)))
  refine {
    ids := fun node hnode => ?_
    about := fun c' x' n hx' => forall_setStage
      (P := fun _ x' => ∀ n, x'.stage.about = some n → n < w.nextNode + 1)
      (fun n hn => ?_) (fun c' x' _ hx' n hn => Nat.lt_succ_of_lt (h.about c' x' n hx' hn)) c' x' hx' n
    targets := fun d hd => Nat.lt_succ_of_lt (h.targets d hd)
    count := ?_
    single := Nat.le_of_eq hcount
    found := fun _ => ?_
    searching := forall_setStage (fun hstage => by simp at hstage) fun c' x' hne hx' _ e he hc => ?_
    unique := h.unique
    starting := fun c' x' n hx' => forall_setStage
      (P := fun c' x' => ∀ n, x'.stage.starts = some n → ∀ g, ActiveFor w.discoveries n g →
        ∃ e ∈ meanwhile c' (.created c w.nextNode :: w.log), e.startedFor n = some g)
      (fun n hn g hg => ?_) (fun c' x' hne hx' n hn g hg => ?_) c' x' hx' n }
  · rcases List.mem_append.mp hnode with hold | hnew
    · exact Nat.lt_succ_of_lt (h.ids node hold)
    · rw [List.mem_singleton.mp hnew]
      exact Nat.lt_succ_self _
  · obtain rfl : w.nextNode = n := Option.some.inj hn
    exact Nat.lt_succ_self _
  · rw [hcount, create, List.length_append, h.count, hzero]
    rfl
  · obtain ⟨mac, hmac⟩ := List.exists_mem_of_ne_nil macs hmacs
    rw [findByIdentifier, ne_eq, List.find?_eq_none]
    intro hall
    refine hall ⟨w.nextNode, ",".intercalate macs, macs, x.options.type, false⟩ (by simp [create]) ?_
    exact List.any_eq_true.mpr ⟨mac, hmac, by simpa using hmac⟩
  · rcases List.mem_cons.mp he with rfl | hold
    · exact mem_meanwhile_cons.mpr ⟨hne.symm, Or.inl rfl⟩
    · simp [hnone e hold] at hc
  · obtain rfl : w.nextNode = n := Option.some.inj hn
    exact absurd hg (hnofresh g)
  · obtain ⟨e, he, hfor⟩ := h.starting c' x' n hx' hn g hg
    exact ⟨e, mem_meanwhile_cons.mpr ⟨hne.symm, Or.inr he⟩, hfor⟩

theorem Unraced.started {c : CallId} {x : GetNode} {node : NodeDocument} {configuration : DiscoveryConfiguration}
    (h : Unraced macs nodes w) (hx : w.calls c = some x) (hs : x.stage = .createAndRunGraph node configuration)
    (hfirst : ∀ e ∈ meanwhile c w.log, ∀ g ∈ e.startedFor configuration.nodeId,
      ∀ d ∈ w.discoveries[g]?, d.active = false) :
    Unraced macs nodes { w.setStage c x (.requestProperties node 2) with
      discoveries := w.discoveries ++ [⟨configuration, true, false⟩]
      log := .started c configuration.nodeId w.discoveries.length :: w.log } := by
  -- a discovery that is active was started since the call decided, and there is none
  have hidle : ∀ g, ¬ ActiveFor w.discoveries configuration.nodeId g := by
    rintro g ⟨d, hd, hactive, hnode⟩
    obtain ⟨e, he, hfor⟩ := h.starting c x configuration.nodeId hx (by rw [hs, NodeStage.starts]) g
      ⟨d, hd, hactive, hnode⟩
    simp [hfirst e he g hfor d hd] at hactive
  have hactive : ∀ n g, ActiveFor (w.discoveries ++ [⟨configuration, true, false⟩]) n g →
      ActiveFor w.discoveries n g ∨ g = w.discoveries.length ∧ n = configuration.nodeId := by
    rintro n g ⟨d, hd, hd', hnode⟩
    rw [List.getElem?_append] at hd
    split_ifs at hd with hlt
    · exact Or.inl ⟨d, hd, hd', hnode⟩
    · have hlast := List.mem_singleton.mp (List.mem_of_getElem? hd)
      have hindex := (List.getElem?_eq_some_iff.mp hd).1
      simp only [List.length_singleton] at hindex
      subst hlast
      exact Or.inr ⟨Nat.le_antisymm (Nat.sub_eq_zero_iff_le.mp (Nat.lt_one_iff.mp hindex)) (Nat.not_lt.mp hlt),
        hnode.symm⟩
  have hcreated : ∀ e ∈ NodeNote.started c configuration.nodeId w.discoveries.length :: w.log,
      e.isCreated = true → e ∈ w.log := fun e he hc =>
    (List.mem_cons.mp he).resolve_left fun heq => by simp [heq, NodeNote.isCreated] at hc
  refine {
    ids := h.ids
    about := fun c' x' n hx' => forall_setStage (P := fun _ x' => ∀ n, x'.stage.about = some n → n < w.nextNode)
      (fun n hn => by simp [NodeStage.about] at hn) (fun c' x' _ hx' n => h.about c' x' n hx') c' x' hx' n
    targets := fun d hd => ?_
    count := h.count
    single := h.single
    found := fun ⟨e, he, hc⟩ => h.found ⟨e, hcreated e he hc, hc⟩
    searching := forall_setStage (fun hstage => by simp at hstage) fun c' x' hne hx' hstage e he hc => ?_
    unique := fun n g g' hg hg' => ?_
    starting := fun c' x' n hx' => forall_setStage
      (P := fun c' x' => ∀ n, x'.stage.starts = some n → ∀ g,
        ActiveFor (w.discoveries ++ [⟨configuration, true, false⟩]) n g →
        ∃ e ∈ meanwhile c' (.started c configuration.nodeId w.discoveries.length :: w.log),
          e.startedFor n = some g)
      (fun n hn => by simp [NodeStage.starts] at hn) (fun c' x' hne hx' n hn g hg => ?_) c' x' hx' n }
  · rcases List.mem_append.mp hd with hold | hnew
    · exact h.targets d hold
    · rw [List.mem_singleton.mp hnew]
      exact h.about c x _ hx (by rw [hs, NodeStage.about])
  · exact mem_meanwhile_cons.mpr ⟨hne.symm, Or.inr (h.searching c' x' hx' hstage e (hcreated e he hc) hc)⟩
  · rcases hactive n g hg with hold | ⟨hlast, hn⟩ <;> rcases hactive n g' hg' with hold' | ⟨hlast', hn'⟩
    · exact h.unique n g g' hold hold'
    · exact absurd (hn' ▸ hold) (hidle g)
    · exact absurd (hn ▸ hold') (hidle g')
    · exact hlast.trans hlast'.symm
  · rcases hactive n g hg with hold | ⟨rfl, rfl⟩
    · obtain ⟨e, he, hfor⟩ := h.starting c' x' n hx' hn g hold
      exact ⟨e, mem_meanwhile_cons.mpr ⟨hne.symm, Or.inr he⟩, hfor⟩
    · exact ⟨_, mem_meanwhile_cons.mpr ⟨hne.symm, Or.inl rfl⟩, by simp [NodeNote.startedFor]⟩

theorem Unraced.ended {ds : List Discovery} (catalogs others : NodeId → Bool) (h : Unraced macs nodes w)
    (hends : Ends w.discoveries ds) :
    Unraced macs nodes { w with discoveries := ds, catalogs := catalogs, others := others } := by
  have hactive : ∀ n g, ActiveFor ds n g → ActiveFor w.discoveries n g := by
    rintro n g ⟨d', hd', ha, hnode⟩
    obtain ⟨d, hd, hsame, hwas⟩ := hends g d' hd'
    exact ⟨d, hd, hwas ha, hsame ▸ hnode⟩
  refine { h with
    targets := fun d' hd' => ?_
    unique := fun n g g' hg hg' => h.unique n g g' (hactive n g hg) (hactive n g' hg')
    starting := fun c x n hx hn g hg => h.starting c x n hx hn g (hactive n g hg) }
  obtain ⟨g, hg⟩ := List.mem_iff_getElem?.mp hd'
  obtain ⟨d, hd, hsame, _⟩ := hends g d' hg
  exact hsame ▸ h.targets d (List.mem_of_getElem? hd)

theorem Unraced.change {e : NodeEvent} (h : Unraced macs nodes w) (hmacs : macs ≠ [])
    (hchange : Change macs w e w') (hfirst : w.Unovertaken e w') : Unraced macs nodes w' := by
  cases hchange with
  | getNode c options => exact h.moved (by simp [NodeStage.about]) (by simp) (by simp [NodeStage.starts])
  | searched c x stage hx hstage =>
    rcases hstage with ⟨rfl, hnone⟩ | ⟨node, rfl, hnode⟩
    · refine h.noted rfl rfl (by simp [NodeStage.about]) (fun _ e he => ?_) (by simp [NodeStage.starts])
      by_contra hc
      exact h.found ⟨e, he, by simpa using hc⟩ hnone
    · refine h.noted rfl rfl (fun n hn => ?_) (by simp) (by simp [NodeStage.starts])
      exact Option.some.inj hn ▸ h.ids node hnode
  | checked c x node stage hx hs hstage hcreate =>
    have hid : node.id < w.nextNode := h.about c x node.id hx (by rw [hs, NodeStage.about])
    refine h.noted rfl rfl (fun n hn => ?_) (fun hc => absurd hc hcreate) fun n hn g hg => ?_
    · rcases hstage with ⟨_, hnone⟩ | ⟨_, _, hsome⟩
      · simp [hnone] at hn
      · exact Option.some.inj (hsome.symm.trans hn) ▸ hid
    · rcases hstage with ⟨hnone, _⟩ | ⟨hexists, hsome, _⟩
      · simp [hnone] at hn
      · obtain rfl : node.id = n := Option.some.inj (hsome.symm.trans hn)
        obtain ⟨d, hd, hactive, hnode⟩ := hg
        have hanswers := hfirst x hx
        simp only [hs] at hanswers
        simp [hanswers ⟨d, List.mem_of_getElem? hd, hactive, hnode⟩] at hexists
  | created c x hx hs => exact h.created hmacs hx hs hfirst
  | moved c x stage hx hmoves =>
    refine h.moved (fun n hn => ?_) hmoves.searched fun n hn => ?_
    · rcases hmoves.about with hnone | hsame
      · simp [hnone] at hn
      · exact h.about c x n hx (hsame ▸ hn)
    · rcases hmoves.starts with hnone | hsame
      · simp [hnone] at hn
      · exact h.starting c x n hx (hsame ▸ hn)
  | started c x node configuration hx hs =>
    refine h.started hx hs fun e he g hg d hd => ?_
    have hrivals := hfirst x hx
    simp only [hs] at hrivals
    exact hrivals e he g hg d hd
  | ended ds catalogs others hends => exact h.ended catalogs others hends

theorem Unraced.start (macs : List String) (nodes : List NodeDocument) : Unraced macs nodes (start nodes) where
  ids node hnode := by
    have hmem : node.id + 1 ∈ nodes.map fun node => node.id + 1 := List.mem_map_of_mem hnode
    exact List.le_max_of_le' 0 hmem (Nat.le_refl _)
  about c x n hx := by simp [ProfileApi.start] at hx
  targets d hd := by simp [ProfileApi.start] at hd
  count := rfl
  single := Nat.zero_le 1
  found := by simp [ProfileApi.start]
  searching c x hx := by simp [ProfileApi.start] at hx
  unique n g g' hg := by simp [ActiveFor, ProfileApi.start] at hg
  starting c x n hx := by simp [ProfileApi.start] at hx

/-- As long as no call is overtaken, the calls for one machine create at most one
node, and no node has two of their discoveries at a time. -/
theorem getNode_once (configFile : String → Option String) (macs : List String) (hmacs : macs ≠ [])
    (nodes : List NodeDocument) (es : List NodeEvent) (w : ProfileApi)
    (hfirst : Lts.Along (step configFile macs) Unovertaken (start nodes) es)
    (hrun : Lts.exec (step configFile macs) (start nodes) es = some w) :
    w.nodes.length ≤ nodes.length + 1 ∧ ∀ n g g', ActiveFor w.discoveries n g → ActiveFor w.discoveries n g' →
      g = g' := by
  have hunraced := hfirst.invariant (Unraced macs nodes)
    (fun _ _ _ hstep hun h => h.change hmacs (step_change hstep) hun) (.start macs nodes) hrun
  have hcount := hunraced.count
  have hsingle := hunraced.single
  exact ⟨by omega, hunraced.unique⟩

/-- A machine that is not known boots, and boots again when its discovery runs. -/
theorem getNode_once_reboot : ∃ w, Lts.exec (step (fun _ => none) ["52:54:00"]) (start [])
    [.getNode 0 ⟨"compute", none⟩, .findByIdentifier 0, .create 0, .publishNodeEvent 0, .upsertNodeToMacAddress 0,
      .createAndRunGraph 0, .subscribe 0 true, .requestProperties 0 .properties, .getNode 1 ⟨"compute", none⟩,
      .findByIdentifier 1, .discovered 1, .activeTaskExists 1] = some w ∧ w.nodes.length ≤ 1 ∧
    ∀ n g g', ActiveFor w.discoveries n g → ActiveFor w.discoveries n g' → g = g' := by
  obtain ⟨w, hrun⟩ := Option.isSome_iff_exists.mp (show (Lts.exec (step (fun _ => none) ["52:54:00"]) (start [])
    [.getNode 0 ⟨"compute", none⟩, .findByIdentifier 0, .create 0, .publishNodeEvent 0, .upsertNodeToMacAddress 0,
      .createAndRunGraph 0, .subscribe 0 true, .requestProperties 0 .properties, .getNode 1 ⟨"compute", none⟩,
      .findByIdentifier 1, .discovered 1, .activeTaskExists 1]).isSome = true by decide)
  exact ⟨w, hrun, getNode_once (fun _ => none) ["52:54:00"] (by decide) [] _ w (by decide) hrun⟩

/-- Two boots of one machine find no node and create one each; and a boot that
finds the node before its discovery answers starts a second one. -/
theorem getNode_twice :
    (∃ w, Lts.exec (step (fun _ => none) ["52:54:00"]) (start [])
        [.getNode 0 ⟨"compute", none⟩, .getNode 1 ⟨"compute", none⟩, .findByIdentifier 0, .findByIdentifier 1,
          .create 0, .create 1] = some w ∧ w.nodes.length = 2) ∧
    ∃ w, Lts.exec (step (fun _ => none) ["52:54:00"]) (start [])
        [.getNode 0 ⟨"compute", none⟩, .findByIdentifier 0, .create 0, .publishNodeEvent 0,
          .upsertNodeToMacAddress 0, .createAndRunGraph 0, .getNode 1 ⟨"compute", none⟩, .findByIdentifier 1,
          .discovered 1, .activeTaskExists 1, .createAndRunGraph 1] = some w ∧
      ActiveFor w.discoveries 0 0 ∧ ActiveFor w.discoveries 0 1 := by
  constructor
  · exact ⟨_, rfl, rfl⟩
  · exact ⟨_, rfl, ⟨_, rfl, rfl, rfl⟩, ⟨_, rfl, rfl, rfl⟩⟩

end ProfileApi

end OnTaskGraph
