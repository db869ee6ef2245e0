import Mathlib.Data.List.MinMax
import OnTaskGraph.NodeDiscovery

/-! The addresses of a created node. They are written one by one after the node has
been created; a later call of `getNode` finds the node whether or not they were. -/

namespace OnTaskGraph

/-- What has been associated by `upsertNodeToMacAddress`. -/
abbrev Lookups := List (NodeId × String)

def NodeStage.node : NodeStage → Option NodeDocument
  | .discovered node | .activeTaskExists node | .publishNodeEvent node | .upsertNodeToMacAddress node _
  | .createAndRunGraph node _ | .requestProperties node _ | .resolved node => some node
  | _ => none

/-- The call has created its node and has not written all its addresses. -/
def NodeStage.registering : NodeStage → Bool
  | .publishNodeEvent _ | .upsertNodeToMacAddress _ _ => true
  | _ => false

namespace ProfileApi

def lookupWritten (w : ProfileApi) : NodeEvent → Lookups
  | .upsertNodeToMacAddress c =>
    match (w.calls c).map GetNode.stage with
    | some (.upsertNodeToMacAddress node (mac :: _)) => [(node.id, mac)]
    | _ => []
  | _ => []

def watchLookups (w : ProfileApi) (e : NodeEvent) (_ : ProfileApi) (lookups : Lookups) : Lookups :=
  w.lookupWritten e ++ lookups

def Created (w : ProfileApi) (n : NodeId) : Prop := ∃ c, .created c n ∈ w.log

def Associated (lookups : Lookups) (node : NodeDocument) : Prop :=
  ∀ mac ∈ node.identifiers, (node.id, mac) ∈ lookups

/-- A created node that a call has resolved to has all its addresses associated. -/
def FullyRegistered (s : ProfileApi × Lookups) : Prop :=
  ∀ c x node, s.1.calls c = some x → x.stage = .resolved node → s.1.Created node.id → Associated s.2 node

def isRegistering (w : ProfileApi) (c : CallId) : Bool := (w.calls c).any (·.stage.registering)

/-- A call is not cut off while it writes the addresses of a node that it has created,
and no other call looks for the node in the meantime. -/
def Uncut (s : ProfileApi × Lookups) : NodeEvent → ProfileApi × Lookups → Prop
  | .reject c _, _ => s.1.isRegistering c = false
  | .findByIdentifier _, _ => ∀ e ∈ s.1.log, e.isCreated = true → s.1.isRegistering e.call = false
  | _, _ => True

instance (s s' : ProfileApi × Lookups) (e : NodeEvent) : Decidable (Uncut s e s') := by
  unfold Uncut
  split <;> infer_instance

/-- What is left to write of the addresses of node `n`. -/
def Registers (macs : List String) (lookups : Lookups) (n : NodeId) : NodeStage → Prop
  | .publishNodeEvent node => node.id = n
  | .upsertNodeToMacAddress node left => node.id = n ∧ ∀ mac ∈ macs, mac ∈ left ∨ (n, mac) ∈ lookups
  | _ => False

def AllWritten (macs : List String) (lookups : Lookups) (n : NodeId) : Prop := ∀ mac ∈ macs, (n, mac) ∈ lookups

/-- What a call may hold: a created node has the addresses of the calls, and they are
written unless the call is about to write them. -/
structure Holds (macs : List String) (first : NodeId) (lookups : Lookups) (stage : NodeStage) : Prop where
  node : ∀ node ∈ stage.node, first ≤ node.id →
    node.identifiers = macs ∧ (stage.registering = false → AllWritten macs lookups node.id)
  left : stage.registering = true → ∃ n, Registers macs lookups n stage

/-- Nodes are created from `first` on. -/
structure Registering (macs : List String) (first : NodeId) (w : ProfileApi) (lookups : Lookups) : Prop where
  next : first ≤ w.nextNode
  created : ∀ n, w.Created n → first ≤ n
  nodes : ∀ node ∈ w.nodes, first ≤ node.id → node.identifiers = macs ∧ w.Created node.id
  progress : ∀ c n, .created c n ∈ w.log → AllWritten macs lookups n ∨
    ∃ x, w.calls c = some x ∧ Registers macs lookups n x.stage
  holds : ∀ c x, w.calls c = some x → Holds macs first lookups x.stage

variable {configFile : String → Option String} {macs : List String} {first n : NodeId} {w w' : ProfileApi}
  {lookups lookups' : Lookups} {stage : NodeStage}

theorem AllWritten.mono (h : AllWritten macs lookups n) (hsub : lookups ⊆ lookups') :
    AllWritten macs lookups' n :=
  fun mac hmac => hsub (h mac hmac)

theorem Registers.registering (h : Registers macs lookups n stage) : stage.registering = true := by
  cases stage with
  | publishNodeEvent node => rfl
  | upsertNodeToMacAddress node left => rfl
  | _ => exact absurd h id

theorem Registers.mono (h : Registers macs lookups n stage) (hsub : lookups ⊆ lookups') :
    Registers macs lookups' n stage := by
  cases stage with
  | publishNodeEvent node => exact h
  | upsertNodeToMacAddress node left => exact ⟨h.1, fun mac hmac => (h.2 mac hmac).imp id fun hm => hsub hm⟩
  | _ => exact absurd h id

theorem Holds.mono (h : Holds macs first lookups stage) (hsub : lookups ⊆ lookups') :
    Holds macs first lookups' stage := by
  refine ⟨fun node hnode hfirst => ?_, fun hr => ?_⟩
  · obtain ⟨hmacs, hall⟩ := h.node node hnode hfirst
    exact ⟨hmacs, fun hr => (hall hr).mono hsub⟩
  · obtain ⟨n, hn⟩ := h.left hr
    exact ⟨n, hn.mono hsub⟩

theorem Holds.goes {stage' : NodeStage} (h : Holds macs first lookups stage)
    (hnode : stage'.node = none ∨ stage'.node = stage.node) (hr : stage.registering = false)
    (hr' : stage'.registering = false) : Holds macs first lookups stage' := by
  refine ⟨fun node hmem hfirst => ?_, fun htrue => by simp [hr'] at htrue⟩
  rcases hnode with hnone | hsame
  · simp [hnone] at hmem
  · obtain ⟨hmacs, hall⟩ := h.node node (hsame ▸ hmem) hfirst
    exact ⟨hmacs, fun _ => hall hr⟩

/-- One call has gone on; the others, and what was created, are as before. -/
theorem Registering.goes {c : CallId} {x' : GetNode} (h : Registering macs first w lookups)
    (hcalls : w'.calls = Function.update w.calls c (some x')) (hnodes : w'.nodes = w.nodes)
    (hnext : w'.nextNode = w.nextNode) (hlog : ∀ c' n, .created c' n ∈ w'.log ↔ .created c' n ∈ w.log)
    (hsub : lookups ⊆ lookups') (hholds : Holds macs first lookups' x'.stage)
    (hregisters : ∀ x n, w.calls c = some x → Registers macs lookups n x.stage →
      AllWritten macs lookups' n ∨ Registers macs lookups' n x'.stage) :
    Registering macs first w' lookups' where
  next := hnext ▸ h.next
  created n := fun ⟨c', hc'⟩ => h.created n ⟨c', (hlog c' n).mp hc'⟩
  nodes node hnode hfirst := by
    obtain ⟨hmacs, c', hc'⟩ := h.nodes node (hnodes ▸ hnode) hfirst
    exact ⟨hmacs, c', (hlog c' node.id).mpr hc'⟩
  progress c' n hc' := by
    rcases h.progress c' n ((hlog c' n).mp hc') with hall | ⟨x, hx, hr⟩
    · exact Or.inl (hall.mono hsub)
    · by_cases hc : c' = c
      · subst hc
        exact (hregisters x n hx hr).imp id fun hr' => ⟨x', by rw [hcalls, Function.update_self], hr'⟩
      · exact Or.inr ⟨x, by rw [hcalls, Function.update_of_ne hc, hx], hr.mono hsub⟩
  holds c' y hy := by
    rw [hcalls, Function.update_apply] at hy
    split_ifs at hy
    · exact Option.some.inj hy ▸ hholds
    · exact (h.holds c' y hy).mono hsub

theorem Registering.moves {c : CallId} {x x' : GetNode} (h : Registering macs first w lookups)
    (hx : w.calls c = some x) (hr : x.stage.registering = false)
    (hcalls : w'.calls = Function.update w.calls c (some x')) (hnodes : w'.nodes = w.nodes)
    (hnext : w'.nextNode = w.nextNode) (hlog : ∀ c' n, .created c' n ∈ w'.log ↔ .created c' n ∈ w.log)
    (hnode : x'.stage.node = none ∨ x'.stage.node = x.stage.node) (hr' : x'.stage.registering = false) :
    Registering macs first w' lookups := by
  refine h.goes hcalls hnodes hnext hlog (List.Subset.refl _)
    ((h.holds c x hx).goes hnode hr hr') fun y n hy hreg => ?_
  obtain rfl : x = y := Option.some.inj (hx.symm.trans hy)
  simp [hreg.registering] at hr

theorem runDiscovery_node (configFile : String → Option String) (node : NodeDocument) (options : NodeOptions) :
    ((runDiscovery configFile node options).node = none ∨
      (runDiscovery configFile node options).node = some node) ∧
    (runDiscovery configFile node options).registering = false := by
  unfold runDiscovery
  split
  · exact ⟨Or.inr rfl, rfl⟩
  · exact ⟨Or.inl rfl, rfl⟩

/-- After an address has been written the call holds what it did, and what it has
left out was written. -/
theorem writeLookups_registers (configFile : String → Option String) {node : NodeDocument} (options : NodeOptions)
    {left : List String}
    (hleft : ∀ mac ∈ macs, mac ∈ left ∨ (node.id, mac) ∈ lookups)
    (hmacs : first ≤ node.id → node.identifiers = macs) :
    Holds macs first lookups (writeLookups configFile node options left) ∧
      (AllWritten macs lookups node.id ∨
        Registers macs lookups node.id (writeLookups configFile node options left)) := by
  cases left with
  | cons mac left =>
    refine ⟨⟨fun node' hnode' hfirst => ?_, fun _ => ⟨node.id, rfl, hleft⟩⟩, Or.inr ⟨rfl, hleft⟩⟩
    obtain rfl : node = node' := Option.some.inj hnode'
    exact ⟨hmacs hfirst, fun hr => absurd hr (by simp [writeLookups, NodeStage.registering])⟩
  | nil =>
    have hall : AllWritten macs lookups node.id := fun mac hmac => by simpa using hleft mac hmac
    obtain ⟨hnode, hr⟩ := runDiscovery_node configFile { node with newRecord := true } options
    refine ⟨⟨fun node' hnode' hfirst => ?_, fun htrue => by simp [writeLookups, hr] at htrue⟩, Or.inl hall⟩
    rcases hnode with hnone | hsome
    · simp [writeLookups, hnone] at hnode'
    · obtain rfl : { node with newRecord := true } = node' := Option.some.inj (hsome.symm.trans hnode')
      exact ⟨hmacs hfirst, fun _ => hall⟩

theorem Registering.create {c : CallId} {x : GetNode} (h : Registering macs first w lookups)
    (hx : w.calls c = some x) (hs : x.stage = .create) : Registering macs first (w.create macs c x) lookups := by
  have hcalls : ∀ c', (w.create macs c x).calls c' = if c' = c then
      some { x with
        stage := .publishNodeEvent ⟨w.nextNode, ",".intercalate macs, macs, x.options.type, false⟩ }
      else w.calls c' := by
    intro c'
    exact Function.update_apply ..
  refine ⟨h.next.trans (Nat.le_succ _), fun n ⟨c', hc'⟩ => ?_, fun node hnode hfirst => ?_, fun c' n hc' => ?_,
    fun c' y hy => ?_⟩
  · rcases List.mem_cons.mp hc' with heq | hold
    · obtain ⟨rfl, rfl⟩ := NodeNote.created.inj heq
      exact h.next
    · exact h.created n ⟨c', hold⟩
  · rcases List.mem_append.mp hnode with hold | hnew
    · obtain ⟨hmacs, c', hc'⟩ := h.nodes node hold hfirst
      exact ⟨hmacs, c', List.mem_cons_of_mem _ hc'⟩
    · rw [List.mem_singleton.mp hnew]
      exact ⟨rfl, c, List.mem_cons_self⟩
  · rcases List.mem_cons.mp hc' with heq | hold
    · obtain ⟨rfl, rfl⟩ := NodeNote.created.inj heq
      refine Or.inr ⟨_, (hcalls _).trans (if_pos rfl), ?_⟩
      exact rfl
    · rcases h.progress c' n hold with hall | ⟨y, hy, hr⟩
      · exact Or.inl hall
      · -- the call itself was not yet writing addresses
        have hne : c' ≠ c := by
          rintro rfl
          obtain rfl : x = y := Option.some.inj (hx.symm.trans hy)
          simp [hs, Registers] at hr
        exact Or.inr ⟨y, by rw [hcalls, if_neg hne, hy], hr⟩
  · rw [hcalls] at hy
    split_ifs at hy
    · obtain rfl := Option.some.inj hy
      refine ⟨fun node hnode _ => ?_, fun _ => ⟨w.nextNode, rfl⟩⟩
      obtain rfl := Option.some.inj hnode
      exact ⟨rfl, fun hr => by simp [NodeStage.registering] at hr⟩
    · exact h.holds c' y hy

/-- A node that is found has its addresses, unless a call is writing them. -/
theorem Registering.found {node : NodeDocument} (h : Registering macs first w lookups)
    (hfind : w.findByIdentifier macs = some node)
    (hidle : ∀ e ∈ w.log, e.isCreated = true → w.isRegistering e.call = false) :
    Holds macs first lookups (.discovered node) := by
  refine ⟨fun node' hnode' hfirst => ?_, fun hr => by simp [NodeStage.registering] at hr⟩
  obtain rfl := Option.some.inj hnode'
  obtain ⟨hmacs, c, hc⟩ := h.nodes node (List.mem_of_find?_eq_some hfind) hfirst
  refine ⟨hmacs, fun _ => ?_⟩
  rcases h.progress c node.id hc with hall | ⟨x, hx, hr⟩
  · exact hall
  · have hnot := hidle _ hc rfl
    simp [isRegistering, NodeNote.call, hx, hr.registering] at hnot

theorem Registering.unchanged (h : Registering macs first w lookups) (hcalls : w'.calls = w.calls)
    (hnodes : w'.nodes = w.nodes) (hnext : w'.nextNode = w.nextNode) (hlog : w'.log = w.log) :
    Registering macs first w' lookups := by
  refine ⟨hnext ▸ h.next, ?_, ?_, ?_, ?_⟩
  · simpa only [Created, hlog] using h.created
  · simpa only [Created, hlog, hnodes] using h.nodes
  · simpa only [hlog, hcalls] using h.progress
  · simpa only [hcalls] using h.holds

theorem Registering.write {c : CallId} {x : GetNode} {node : NodeDocument} {left : List String}
    (h : Registering macs first w lookups) (hx : w.calls c = some x)
    (hs : x.stage = .upsertNodeToMacAddress node left) :
    Registering macs first (w.setStage c x (writeLookups configFile node x.options left.tail))
      (w.lookupWritten (.upsertNodeToMacAddress c) ++ lookups) := by
  have hhead : ∀ mac ∈ left, mac ∈ left.tail ∨
      (node.id, mac) ∈ w.lookupWritten (.upsertNodeToMacAddress c) ++ lookups := by
    intro mac hmac
    cases left with
    | nil => simp at hmac
    | cons m left =>
      rcases List.mem_cons.mp hmac with rfl | hrest
      · exact Or.inr (by simp [lookupWritten, hx, hs])
      · exact Or.inl hrest
  have hsub : lookups ⊆ w.lookupWritten (.upsertNodeToMacAddress c) ++ lookups := List.subset_append_right _ _
  have hholds := h.holds c x hx
  rw [hs] at hholds
  obtain ⟨n, rfl, hall⟩ := hholds.left rfl
  have hleft : ∀ mac ∈ macs, mac ∈ left.tail ∨
      (node.id, mac) ∈ w.lookupWritten (.upsertNodeToMacAddress c) ++ lookups := fun mac hmac =>
    (hall mac hmac).elim (hhead mac) fun hm => Or.inr (hsub hm)
  obtain ⟨hholds', hwritten⟩ := writeLookups_registers configFile x.options hleft
    fun hfirst => (hholds.node node rfl hfirst).1
  refine h.goes rfl rfl rfl (fun _ _ => Iff.rfl) hsub hholds' fun y n hy hr => ?_
  obtain rfl : x = y := Option.some.inj (hx.symm.trans hy)
  rw [hs] at hr
  exact hr.1 ▸ hwritten

theorem Registering.publish {c : CallId} {x : GetNode} {node : NodeDocument}
    (h : Registering macs first w lookups) (hx : w.calls c = some x) (hs : x.stage = .publishNodeEvent node) :
    Registering macs first (w.setStage c x (writeLookups configFile node x.options macs)) lookups := by
  have hholds := h.holds c x hx
  rw [hs] at hholds
  have hleft : ∀ mac ∈ macs, mac ∈ macs ∨ (node.id, mac) ∈ lookups := fun mac hmac => Or.inl hmac
  obtain ⟨hholds', hwritten⟩ := writeLookups_registers configFile x.options hleft
    fun hfirst => (hholds.node node rfl hfirst).1
  refine h.goes rfl rfl rfl (fun _ _ => Iff.rfl) (List.Subset.refl _) hholds' fun y n hy hr => ?_
  obtain rfl : x = y := Option.some.inj (hx.symm.trans hy)
  rw [hs] at hr
  obtain rfl : node.id = n := hr
  exact hwritten

theorem Registering.step {e : NodeEvent} {s' : ProfileApi × Lookups} (h : Registering macs first w lookups)
    (hstep : w.step configFile macs e = some w') (huncut : Uncut (w, lookups) e s') :
    Registering macs first w' (watchLookups w e w' lookups) := by
  cases e with
  | getNode c options =>
    simp only [ProfileApi.step] at hstep
    split_ifs at hstep with hnone
    rw [Option.isNone_iff_eq_none] at hnone
    refine Option.some.inj hstep ▸ h.goes rfl rfl rfl (fun _ _ => Iff.rfl) (List.Subset.refl _)
      ⟨fun node hnode => ?_, fun hr => ?_⟩ fun y n hy => ?_
    · simp [NodeStage.node] at hnode
    · simp [NodeStage.registering] at hr
    · simp [hnone] at hy
  | findByIdentifier c =>
    obtain ⟨x, hx, hstep⟩ := Option.bind_eq_some_iff.mp hstep
    split at hstep
    · rename_i hs
      have hlog : ∀ c' n, NodeNote.created c' n ∈ .searched c :: w.log ↔ NodeNote.created c' n ∈ w.log := by simp
      refine Option.some.inj hstep ▸ h.goes rfl rfl rfl hlog (List.Subset.refl _) ?_ fun y n hy hr => ?_
      · cases hfind : w.findByIdentifier macs with
        | none =>
          exact ⟨fun node hnode => by simp [NodeStage.node] at hnode,
            fun hr => by simp [NodeStage.registering] at hr⟩
        | some node => exact h.found hfind huncut
      · obtain rfl : x = y := Option.some.inj (hx.symm.trans hy)
        exact absurd hr (by simp [hs, Registers])
    · simp at hstep
  | discovered c =>
    obtain ⟨x, hx, hstep⟩ := Option.bind_eq_some_iff.mp hstep
    split at hstep
    · rename_i node hs
      refine Option.some.inj hstep ▸ h.moves hx (by rw [hs]; rfl) rfl rfl rfl (fun _ _ => Iff.rfl) ?_ ?_
      · split_ifs <;> simp [hs, NodeStage.node]
      · split_ifs <;> rfl
    · simp at hstep
  | activeTaskExists c =>
    obtain ⟨x, hx, hstep⟩ := Option.bind_eq_some_iff.mp hstep
    split at hstep
    · rename_i node hs
      have hlog :
          ∀ c' n, NodeNote.created c' n ∈ .checked c node.id :: w.log ↔ NodeNote.created c' n ∈ w.log := by
        simp
      obtain ⟨hnode, hr⟩ := runDiscovery_node configFile node x.options
      refine Option.some.inj hstep ▸ h.moves hx (by rw [hs]; rfl) rfl rfl rfl hlog ?_ ?_
      · split_ifs
        · exact Or.inr (by simp [hs, NodeStage.node])
        · simpa [hs, NodeStage.node] using hnode
      · split_ifs
        · rfl
        · exact hr
    · simp at hstep
  | create c =>
    obtain ⟨x, hx, hstep⟩ := Option.bind_eq_some_iff.mp hstep
    split at hstep
    · exact Option.some.inj hstep ▸ h.create hx ‹_›
    · simp at hstep
  | publishNodeEvent c =>
    obtain ⟨x, hx, hstep⟩ := Option.bind_eq_some_iff.mp hstep
    split at hstep
    · exact Option.some.inj hstep ▸ h.publish hx ‹_›
    · simp at hstep
  | upsertNodeToMacAddress c =>
    obtain ⟨x, hx, hstep⟩ := Option.bind_eq_some_iff.mp hstep
    split at hstep
    · exact Option.some.inj hstep ▸ h.write hx ‹_›
    · simp at hstep
  | createAndRunGraph c =>
    obtain ⟨x, hx, hstep⟩ := Option.bind_eq_some_iff.mp hstep
    split at hstep
    · rename_i node configuration hs
      have hlog : ∀ c' n, NodeNote.created c' n ∈ .started c configuration.nodeId w.discoveries.length :: w.log ↔
          NodeNote.created c' n ∈ w.log := by simp
      exact Option.some.inj hstep ▸
        h.moves hx (by rw [hs]; rfl) rfl rfl rfl hlog (Or.inr (by simp [hs, NodeStage.node])) rfl
    · simp at hstep
  | requestProperties c answer =>
    obtain ⟨x, hx, hstep⟩ := Option.bind_eq_some_iff.mp hstep
    split at hstep
    · rename_i hs _
      exact Option.some.inj hstep ▸
        h.moves hx (by rw [hs]; rfl) rfl rfl rfl (fun _ _ => Iff.rfl) (Or.inr (by simp [hs, NodeStage.node])) rfl
    · rename_i hs _
      exact Option.some.inj hstep ▸
        h.moves hx (by rw [hs]; rfl) rfl rfl rfl (fun _ _ => Iff.rfl) (Or.inr (by simp [hs, NodeStage.node])) rfl
    · rename_i hs _
      exact Option.some.inj hstep ▸ h.moves hx (by rw [hs]; rfl) rfl rfl rfl (fun _ _ => Iff.rfl) (Or.inl rfl) rfl
    · rename_i hs _
      exact Option.some.inj hstep ▸ h.moves hx (by rw [hs]; rfl) rfl rfl rfl (fun _ _ => Iff.rfl) (Or.inl rfl) rfl
    · simp at hstep
  | reject c reason =>
    obtain ⟨x, hx, hstep⟩ := Option.bind_eq_some_iff.mp hstep
    have hr : x.stage.registering = false := by
      have hidle : w.isRegistering c = false := huncut
      simpa [isRegistering, hx] using hidle
    split at hstep
    · simp at hstep
    · simp at hstep
    · simp at hstep
    · simp at hstep
    · exact Option.some.inj hstep ▸ h.moves hx hr rfl rfl rfl (fun _ _ => Iff.rfl) (Or.inl rfl) rfl
  | subscribe g on =>
    obtain ⟨d, _, hstep⟩ := Option.bind_eq_some_iff.mp hstep
    split_ifs at hstep
    exact Option.some.inj hstep ▸ h.unchanged rfl rfl rfl rfl
  | finish g =>
    obtain ⟨d, _, hstep⟩ := Option.map_eq_some_iff.mp hstep
    exact hstep ▸ h.unchanged rfl rfl rfl rfl
  | catalog n found => exact Option.some.inj hstep ▸ h.unchanged rfl rfl rfl rfl
  | otherTask n on => exact Option.some.inj hstep ▸ h.unchanged rfl rfl rfl rfl

theorem registering_start (macs : List String) (nodes : List NodeDocument) :
    Registering macs (start nodes).nextNode (start nodes) [] where
  next := le_rfl
  created n := fun ⟨c, hc⟩ => by simp [start] at hc
  nodes node hnode hfirst := by
    have hmem : node.id + 1 ∈ nodes.map fun node => node.id + 1 := List.mem_map_of_mem hnode
    have hlt : node.id < (start nodes).nextNode := List.le_max_of_le' 0 hmem (Nat.le_refl _)
    exact absurd hfirst (Nat.not_le.mpr hlt)
  progress c n hc := by simp [start] at hc
  holds c x hx := by simp [start] at hx

theorem Registering.fullyRegistered (h : Registering macs first w lookups) : FullyRegistered (w, lookups) := by
  intro c x node hx hs hcreated mac hmac
  have hfirst := h.created node.id hcreated
  obtain ⟨hmacs, hall⟩ := (h.holds c x hx).node node (by simp [hs, NodeStage.node]) hfirst
  exact hall (by simp [hs, NodeStage.registering]) mac (hmacs ▸ hmac)

/-- In a run in which no call is cut off while it registers a node, and none looks for
one that is being registered, the created nodes that calls resolve to are fully
registered. -/
theorem created_registered (configFile : String → Option String) (macs : List String) (nodes : List NodeDocument)
    (es : List NodeEvent) (s : ProfileApi × Lookups)
    (huncut : Lts.Along (Lts.monitor (step configFile macs) watchLookups) Uncut (start nodes, []) es)
    (hrun : Lts.exec (Lts.monitor (step configFile macs) watchLookups) (start nodes, []) es = some s) :
    FullyRegistered s := by
  have hregistering := huncut.invariant (fun s => Registering macs (start nodes).nextNode s.1 s.2)
    (fun s e s' hstep huncut h => by
      obtain ⟨hstep, hwatch⟩ := Lts.monitor_eq_some.mp hstep
      rw [hwatch]
      exact h.step hstep huncut)
    (registering_start macs nodes) hrun
  exact hregistering.fullyRegistered

/-- The node is created and registered, its discovery fails to start, and the next call
finds it. -/
theorem created_registered_retry :
    ∃ s, Lts.exec (Lts.monitor (step (fun _ => none) ["52:54:00", "52:54:01"]) watchLookups)
      (start [], []) [.getNode 0 ⟨"compute", none⟩, .findByIdentifier 0, .create 0, .publishNodeEvent 0,
      .upsertNodeToMacAddress 0, .upsertNodeToMacAddress 0, .reject 0 (.error "timeout"),
      .getNode 1 ⟨"compute", none⟩, .findByIdentifier 1, .discovered 1, .activeTaskExists 1,
      .createAndRunGraph 1, .requestProperties 1 .properties] =
    some s ∧ FullyRegistered s := by
  obtain ⟨s, hrun⟩ := Option.isSome_iff_exists.mp (show (Lts.exec
      (Lts.monitor (step (fun _ => none) ["52:54:00", "52:54:01"]) watchLookups) (start [], [])
      [.getNode 0 ⟨"compute", none⟩, .findByIdentifier 0, .create 0,
      .publishNodeEvent 0, .upsertNodeToMacAddress 0, .upsertNodeToMacAddress 0, .reject 0 (.error "timeout"),
      .getNode 1 ⟨"compute", none⟩, .findByIdentifier 1, .discovered 1, .activeTaskExists 1, .createAndRunGraph 1,
      .requestProperties 1 .properties]).isSome = true by decide)
  exact ⟨s, hrun, created_registered (fun _ => none) ["52:54:00", "52:54:01"] [] _ s (by decide) hrun⟩

/-- The event of the new node cannot be published, and the next call resolves to the
node without its address. -/
theorem created_unregistered : ∃ s, Lts.exec (Lts.monitor (step (fun _ => none) ["52:54:00"]) watchLookups)
    (start [], []) [.getNode 0 ⟨"compute", none⟩, .findByIdentifier 0, .create 0, .reject 0 (.error "publish"),
      .getNode 1 ⟨"compute", none⟩, .findByIdentifier 1, .discovered 1, .activeTaskExists 1, .createAndRunGraph 1,
      .requestProperties 1 .properties] = some s ∧ ¬ FullyRegistered s := by
  refine ⟨_, rfl, fun h => ?_⟩
  have hassociated : (0, "52:54:00") ∈ ([] : Lookups) := h 1 ⟨⟨"compute", none⟩, .resolved
    ⟨0, "52:54:00", ["52:54:00"], "compute", false⟩⟩ _ rfl rfl ⟨0, by decide⟩ "52:54:00" List.mem_cons_self
  simp at hassociated

end ProfileApi

end OnTaskGraph
