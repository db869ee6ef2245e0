import Mathlib.Data.List.MinMax
import Mathlib.Data.List.Nodup
import OnTaskGraph.Loops
import OnTaskGraph.ServiceGraphs

/-! What an event does to the store and to one start, and what every start
knows: its tables and calls are about graphs that it read, and the documents of
these graphs only lose. -/

namespace OnTaskGraph

def ServiceCall.graph : ServiceCall → Option GraphId
  | .cancelTaskGraph g | .deleteGraph g _ => some g
  | .createAndRunServiceGraph => none

/-- The call that the store may still execute. -/
def BranchStage.pending : BranchStage → Option ServiceCall
  | .called c => some c
  | .rejected late => late
  | _ => none

def BranchStage.graph : BranchStage → Option GraphId
  | .called c | .executed c | .rejected (some c) => c.graph
  | _ => none

def BranchStage.performed (c : ServiceCall) : BranchStage → BranchStage
  | .called _ => .executed c
  | _ => .rejected none

theorem BranchStage.graph_of_pending {stage : BranchStage} {c : ServiceCall} (h : stage.pending = some c) :
    stage.graph = c.graph := by
  cases stage with
  | called c' => exact congrArg ServiceCall.graph (Option.some.inj h)
  | rejected late => rw [show late = some c from h, BranchStage.graph]
  | waiting | executed | resolved => simp [BranchStage.pending] at h

def Job.name : Job → String
  | .definition d => d.injectableName
  | .leftover G => G.injectableName

/-- They are not about two definitions of one name. -/
def Job.Apart (j j' : Job) : Prop :=
  ∀ d d', j = .definition d → j' = .definition d' → d.injectableName ≠ d'.injectableName

theorem Job.Apart.symm {j j' : Job} (h : j.Apart j') : j'.Apart j :=
  fun d d' hd hd' => (h d' d hd' hd).symm

namespace ServiceStart

def jobs (S : ServiceStart) : List Job := S.branches.map Branch.job

def Read (S : ServiceStart) (G : ServiceGraphObject) : Prop := ∃ L, S.serviceGraphs = some L ∧ G ∈ L

theorem setBranch_jobs {S : ServiceStart} {i : Nat} {b : Branch} (hi : S.branches[i]? = some b)
    (next : Groups × BranchStage) : (S.setBranch i b next).jobs = S.jobs := by
  have hjob : S.jobs[i]? = some b.job := by simp [jobs, hi]
  obtain ⟨hlt, hget⟩ := List.getElem?_eq_some_iff.mp hjob
  have hset : (S.setBranch i b next).jobs = S.jobs.set i b.job := by simp [jobs, setBranch, List.map_set]
  rw [hset, ← hget, List.set_getElem_self hlt]

theorem mem_setBranch {S : ServiceStart} {i : Nat} {b b' : Branch} {next : Groups × BranchStage}
    (h : b' ∈ (S.setBranch i b next).branches) : b' ∈ S.branches ∨ b' = { b with stage := next.2 } :=
  List.mem_or_eq_of_mem_set h

end ServiceStart

namespace ServiceGraphs

variable {C : GraphStates}

/-- An event that leaves the store alone, on the start that it is about. -/
inductive Control (C : GraphStates) (w : ServiceGraphs) (S : ServiceStart) : ServiceStart → Prop
  | getGraphDefinitions (hphase : S.phase = .reading) (hnone : S.graphDefinitions = none) :
      Control C w S { S with graphDefinitions := some w.definitions.list }
  | getServiceGraphs (hphase : S.phase = .reading) (hnone : S.serviceGraphs = none) :
      Control C w S { S with serviceGraphs := some w.graphs }
  | spread (ds : List GraphDefinition) (L : List ServiceGraphObject) (hphase : S.phase = .reading)
      (hds : S.graphDefinitions = some ds) (hL : S.serviceGraphs = some L) :
      Control C w S (S.migrateAll C ds L)
  | map (i : Nat) (d : GraphDefinition) (hi : S.branches[i]? = some ⟨.definition d, .waiting⟩) :
      Control C w S (S.setBranch i ⟨.definition d, .waiting⟩ (S.groups.migrate d))
  | reply (i : Nat) (b : Branch) (c : ServiceCall) (hi : S.branches[i]? = some b)
      (hb : b.stage = .executed c) : Control C w S (S.setBranch i b (S.groups.proceed b.job c))
  | reject (i : Nat) (b : Branch) (hi : S.branches[i]? = some b) (hb : b.stage ≠ .resolved) :
      Control C w S (S.setBranch i b (S.groups, .rejected b.stage.pending))
  | sweep (hphase : S.phase = .migrating) (hall : S.allResolved = true) : Control C w S S.sweep
  | finish (hphase : S.phase = .sweeping) (hall : S.allResolved = true) :
      Control C w S { S with phase := .resolved }

inductive Change (C : GraphStates) (w : ServiceGraphs) : ServiceEvent → ServiceGraphs → Prop
  | load (ds : GraphDefinitions) : Change C w (.load ds) { w with definitions := ds }
  | start (s : StartId) (hs : w.starts s = none) : Change C w (.start s) (w.setStart s .new)
  | control {e : ServiceEvent} (s : StartId) (S S' : ServiceStart) (hs : w.starts s = some S)
      (he : e.start? = some s) (h : Control C w S S') : Change C w e (w.setStart s S')
  | execute (s : StartId) (i : Nat) (S : ServiceStart) (b : Branch) (c : ServiceCall)
      (hs : w.starts s = some S) (hi : S.branches[i]? = some b) (hb : b.stage.pending = some c) :
      Change C w (.execute s i)
        ((w.perform C b.job c).setStart s (S.setBranch i b (S.groups, b.stage.performed c)))

theorem step_change {w w' : ServiceGraphs} {e : ServiceEvent} (h : w.step C e = some w') : Change C w e w' := by
  cases e with
  | load ds => exact Option.some.inj h ▸ .load ds
  | start s =>
    simp only [step] at h
    split_ifs at h with hs
    exact Option.some.inj h ▸ .start s (by simpa using hs)
  | getGraphDefinitions s =>
    obtain ⟨S, hs, h⟩ := Option.bind_eq_some_iff.mp h
    split_ifs at h with hg
    exact Option.some.inj h ▸ .control s S _ hs rfl (.getGraphDefinitions hg.1 hg.2)
  | getServiceGraphs s =>
    obtain ⟨S, hs, h⟩ := Option.bind_eq_some_iff.mp h
    split_ifs at h with hg
    exact Option.some.inj h ▸ .control s S _ hs rfl (.getServiceGraphs hg.1 hg.2)
  | spread s =>
    obtain ⟨S, hs, h⟩ := Option.bind_eq_some_iff.mp h
    split at h
    · rename_i ds L hphase hds hL
      exact Option.some.inj h ▸ .control s S _ hs rfl (.spread ds L hphase hds hL)
    · simp at h
  | map s i =>
    obtain ⟨S, hs, h⟩ := Option.bind_eq_some_iff.mp h
    split at h
    · rename_i d hi
      exact Option.some.inj h ▸ .control s S _ hs rfl (.map i d hi)
    · simp at h
  | execute s i =>
    obtain ⟨S, hs, h⟩ := Option.bind_eq_some_iff.mp h
    obtain ⟨b, hi, h⟩ := Option.bind_eq_some_iff.mp h
    split at h
    · rename_i c hb
      have hchange := Change.execute (C := C) s i S b c hs hi (by simp [hb, BranchStage.pending])
      simp only [hb, BranchStage.performed] at hchange
      exact Option.some.inj h ▸ hchange
    · rename_i c hb
      have hchange := Change.execute (C := C) s i S b c hs hi (by simp [hb, BranchStage.pending])
      simp only [hb, BranchStage.performed] at hchange
      exact Option.some.inj h ▸ hchange
    · simp at h
  | reply s i =>
    obtain ⟨S, hs, h⟩ := Option.bind_eq_some_iff.mp h
    obtain ⟨b, hi, h⟩ := Option.bind_eq_some_iff.mp h
    split at h
    · rename_i c hb
      exact Option.some.inj h ▸ .control s S _ hs rfl (.reply i b c hi hb)
    · simp at h
  | reject s i =>
    obtain ⟨S, hs, h⟩ := Option.bind_eq_some_iff.mp h
    obtain ⟨b, hi, h⟩ := Option.bind_eq_some_iff.mp h
    split at h
    · rename_i c hb
      have hreject := Control.reject (C := C) (w := w) i b hi (by simp [hb])
      simp only [hb, BranchStage.pending] at hreject
      exact Option.some.inj h ▸ .control s S _ hs rfl hreject
    · rename_i c hb
      have hreject := Control.reject (C := C) (w := w) i b hi (by simp [hb])
      simp only [hb, BranchStage.pending] at hreject
      exact Option.some.inj h ▸ .control s S _ hs rfl hreject
    · simp at h
  | sweep s =>
    obtain ⟨S, hs, h⟩ := Option.bind_eq_some_iff.mp h
    split_ifs at h with hg
    exact Option.some.inj h ▸ .control s S _ hs rfl (.sweep hg.1 hg.2)
  | finish s =>
    obtain ⟨S, hs, h⟩ := Option.bind_eq_some_iff.mp h
    split_ifs at h with hg
    exact Option.some.inj h ▸ .control s S _ hs rfl (.finish hg.1 hg.2)

/-! Documents only lose, and what a start has read stays true of them. -/

/-- What the store holds under an `instanceId` of `L` is what `L` holds, and is
active only if it was active there. -/
def Known (C : GraphStates) (w : ServiceGraphs) (L : List ServiceGraphObject) : Prop :=
  ∀ G ∈ L, G.instanceId < w.instances ∧ ∀ H ∈ w.graphs, H.instanceId = G.instanceId →
    H.injectableName = G.injectableName ∧ H.definition = G.definition ∧ (C.active H = true → C.active G = true)

/-- A document after the step is one from before, unless it is a new one. -/
structure Loses (C : GraphStates) (w w' : ServiceGraphs) : Prop where
  instances : w.instances ≤ w'.instances
  graphs : ∀ H' ∈ w'.graphs, (∃ H ∈ w.graphs, H.instanceId = H'.instanceId ∧
    H.injectableName = H'.injectableName ∧ H.definition = H'.definition ∧
    (C.active H' = true → H' = H)) ∨ w.instances ≤ H'.instanceId

theorem Loses.of_eq {w w' : ServiceGraphs} (hgraphs : w'.graphs = w.graphs)
    (hinstances : w'.instances = w.instances) : Loses C w w' :=
  ⟨Nat.le_of_eq hinstances.symm, fun H hH => Or.inl ⟨H, hgraphs ▸ hH, rfl, rfl, rfl, fun _ => rfl⟩⟩

theorem active_cancelled (G : ServiceGraphObject) : C.active { G with status := .cancelled } = false := by
  simp [GraphStates.active, C.cancelled_inactive]

theorem perform_loses (w : ServiceGraphs) (j : Job) (c : ServiceCall) : Loses C w (w.perform C j c) := by
  cases c with
  | cancelTaskGraph g =>
    refine ⟨Nat.le_refl _, fun H' hH' => Or.inl ?_⟩
    obtain ⟨H, hH, rfl⟩ := List.mem_map.mp (show H' ∈ (w.cancelTaskGraph C g).graphs from hH')
    split_ifs
    · exact ⟨H, hH, rfl, rfl, rfl, fun ha => by simp [active_cancelled] at ha⟩
    · exact ⟨H, hH, rfl, rfl, rfl, fun _ => rfl⟩
  | deleteGraph g table =>
    refine ⟨Nat.le_refl _, fun H' hH' => Or.inl ?_⟩
    have hmem := List.mem_filter.mp (show H' ∈ (w.deleteGraph g).graphs from hH')
    exact ⟨H', hmem.1, rfl, rfl, rfl, fun _ => rfl⟩
  | createAndRunServiceGraph =>
    cases j with
    | leftover G => exact .of_eq rfl rfl
    | definition d =>
      refine ⟨Nat.le_succ _, fun H' hH' => ?_⟩
      rcases List.mem_append.mp (show H' ∈ (w.createAndRunServiceGraph d).graphs from hH') with hold | hnew
      · exact Or.inl ⟨H', hold, rfl, rfl, rfl, fun _ => rfl⟩
      · exact Or.inr (by simp [List.mem_singleton.mp hnew])

theorem Known.loses {w w' : ServiceGraphs} {L : List ServiceGraphObject} (h : Known C w L)
    (hloses : Loses C w w') : Known C w' L := by
  intro G hG
  obtain ⟨hlt, hdocs⟩ := h G hG
  refine ⟨Nat.lt_of_lt_of_le hlt hloses.instances, fun H' hH' hid => ?_⟩
  rcases hloses.graphs H' hH' with ⟨H, hH, hsame, hname, hdef, hactive⟩ | hnew
  · obtain ⟨hname', hdef', hactive'⟩ := hdocs H hH (hsame.trans hid)
    exact ⟨hname ▸ hname', hdef ▸ hdef', fun ha => hactive' (hactive ha ▸ ha)⟩
  · exact absurd (hid ▸ hnew) (Nat.not_le.mpr hlt)

/-- Every `instanceId` has been given out, and to one document. -/
structure Identified (w : ServiceGraphs) : Prop where
  nodup : (w.graphs.map ServiceGraphObject.instanceId).Nodup
  lt : ∀ G ∈ w.graphs, G.instanceId < w.instances

theorem Identified.eq {w : ServiceGraphs} (h : Identified w) {G H : ServiceGraphObject} (hG : G ∈ w.graphs)
    (hH : H ∈ w.graphs) (hid : G.instanceId = H.instanceId) : G = H :=
  List.inj_on_of_nodup_map h.nodup hG hH hid

theorem Identified.known {w : ServiceGraphs} (h : Identified w) : Known C w w.graphs := by
  intro G hG
  refine ⟨h.lt G hG, fun H hH hid => ?_⟩
  obtain rfl := h.eq hH hG hid
  exact ⟨rfl, rfl, id⟩

theorem Identified.perform {w : ServiceGraphs} (h : Identified w) (j : Job) (c : ServiceCall) :
    Identified (w.perform C j c) := by
  cases c with
  | cancelTaskGraph g =>
    have hids : (w.perform C j (.cancelTaskGraph g)).graphs.map ServiceGraphObject.instanceId =
        w.graphs.map ServiceGraphObject.instanceId := by
      simp only [ServiceGraphs.perform, cancelTaskGraph, List.map_map]
      refine List.map_congr_left fun G _ => ?_
      simp only [Function.comp_apply]
      split_ifs <;> rfl
    refine ⟨hids ▸ h.nodup, fun G hG => ?_⟩
    have hid : G.instanceId ∈ w.graphs.map ServiceGraphObject.instanceId :=
      hids ▸ List.mem_map_of_mem hG
    obtain ⟨H, hH, heq⟩ := List.mem_map.mp hid
    exact heq ▸ h.lt H hH
  | deleteGraph g table =>
    have hsub : (w.deleteGraph g).graphs.Sublist w.graphs := List.filter_sublist
    exact ⟨(hsub.map _).nodup h.nodup, fun G hG => h.lt G (hsub.subset hG)⟩
  | createAndRunServiceGraph =>
    cases j with
    | leftover G => exact h
    | definition d =>
      constructor
      · show ((w.graphs ++ [_]).map ServiceGraphObject.instanceId).Nodup
        rw [List.map_append, List.nodup_append]
        refine ⟨h.nodup, by simp, fun a ha b hb => ?_⟩
        obtain ⟨G, hG, rfl⟩ := List.mem_map.mp ha
        obtain rfl : b = w.instances := by simpa using hb
        exact Nat.ne_of_lt (h.lt G hG)
      · intro G hG
        show G.instanceId < w.instances + 1
        rcases List.mem_append.mp (show G ∈ w.graphs ++ [_] from hG) with hold | hnew
        · exact Nat.lt_succ_of_lt (h.lt G hold)
        · simp [List.mem_singleton.mp hnew]

end ServiceGraphs

/-! The two tables of a start. -/

section Groups

variable {C : GraphStates} {result : Groups} {G H : ServiceGraphObject} {n : String}

theorem lookup_insert_some {table : AList fun _ : String => ServiceGraphObject}
    (h : (table.insert G.injectableName G).lookup n = some H) :
    table.lookup n = some H ∨ H = G ∧ G.injectableName = n := by
  by_cases hn : n = G.injectableName
  · subst hn
    rw [AList.lookup_insert] at h
    exact Or.inr ⟨(Option.some.inj h).symm, rfl⟩
  · rw [AList.lookup_insert_ne hn] at h
    exact Or.inl h

theorem group_running (h : (C.group result G).running.lookup n = some H) :
    result.running.lookup n = some H ∨ H = G ∧ G.injectableName = n ∧ C.active G = true := by
  unfold GraphStates.group at h
  split_ifs at h with hfailed hactive
  · exact Or.inl h
  · exact (lookup_insert_some h).imp_right fun hnew => ⟨hnew.1, hnew.2, hactive⟩
  · exact Or.inl h

theorem group_failed (h : (C.group result G).failed.lookup n = some H) :
    result.failed.lookup n = some H ∨ H = G ∧ G.injectableName = n ∧ G.status ∈ C.failedStates := by
  unfold GraphStates.group at h
  split_ifs at h with hfailed hactive
  · exact (lookup_insert_some h).imp_right fun hnew => ⟨hnew.1, hnew.2, hfailed⟩
  · exact Or.inl h
  · exact Or.inl h

theorem group_running_none (h : (C.group result G).running.lookup n = none) :
    result.running.lookup n = none ∧ (C.active G = true → G.injectableName ≠ n) := by
  unfold GraphStates.group at h
  split_ifs at h with hfailed hactive
  · refine ⟨h, fun ha => ?_⟩
    exact absurd hfailed (C.active_not_failed G.status (by simpa [GraphStates.active] using ha))
  · by_cases hn : n = G.injectableName
    · subst hn
      simp at h
    · rw [AList.lookup_insert_ne hn] at h
      exact ⟨h, fun _ hname => hn hname.symm⟩
  · exact ⟨h, fun ha => absurd ha hactive⟩

theorem foldl_group_none {L : List ServiceGraphObject}
    (h : (L.foldl C.group result).running.lookup n = none) :
    result.running.lookup n = none ∧ ∀ G ∈ L, C.active G = true → G.injectableName ≠ n := by
  induction L generalizing result with
  | nil => exact ⟨h, by simp⟩
  | cons G L ih =>
    obtain ⟨hres, hrest⟩ := ih h
    obtain ⟨hold, hnew⟩ := group_running_none hres
    exact ⟨hold, List.forall_mem_cons.mpr ⟨hnew, hrest⟩⟩

theorem groups_running {L : List ServiceGraphObject} (h : (C.groups L).running.lookup n = some H) :
    H ∈ L ∧ H.injectableName = n ∧ C.active H = true := by
  have hfound := Loops.foldl_found (fun result : Groups => result.running.lookup n)
    (fun G H => H = G ∧ G.injectableName = n ∧ C.active G = true) (fun _ _ _ => group_running) h
  obtain ⟨G, hG, rfl, hname, hactive⟩ := hfound.resolve_left (by simp)
  exact ⟨hG, hname, hactive⟩

theorem groups_failed {L : List ServiceGraphObject} (h : (C.groups L).failed.lookup n = some H) :
    H ∈ L ∧ H.injectableName = n ∧ H.status ∈ C.failedStates := by
  have hfound := Loops.foldl_found (fun result : Groups => result.failed.lookup n)
    (fun G H => H = G ∧ G.injectableName = n ∧ G.status ∈ C.failedStates) (fun _ _ _ => group_failed) h
  obtain ⟨G, hG, rfl, hname, hfailed⟩ := hfound.resolve_left (by simp)
  exact ⟨hG, hname, hfailed⟩

theorem groups_none {L : List ServiceGraphObject} (h : (C.groups L).running.lookup n = none) :
    ∀ G ∈ L, C.active G = true → G.injectableName ≠ n :=
  (foldl_group_none h).2

end Groups

namespace ServiceGraphs

variable {C : GraphStates}

/-- What a start knows is what it read. -/
structure Sound (C : GraphStates) (w : ServiceGraphs) (S : ServiceStart) : Prop where
  known : ∀ L, S.serviceGraphs = some L → Known C w L
  distinct : ∀ ds, S.graphDefinitions = some ds → (ds.map GraphDefinition.injectableName).Nodup
  running : ∀ n G, S.groups.running.lookup n = some G →
    S.Read G ∧ G.injectableName = n ∧ C.active G = true
  failed : ∀ n G, S.groups.failed.lookup n = some G →
    S.Read G ∧ G.injectableName = n ∧ G.status ∈ C.failedStates
  calls : ∀ b ∈ S.branches, ∀ g ∈ b.stage.graph,
    ∃ G, S.Read G ∧ G.instanceId = g ∧ G.injectableName = b.job.name
  leftovers : ∀ G, .leftover G ∈ S.jobs → S.Read G ∧ C.active G = true
  idle : S.phase = .reading → S.branches = []
  names : S.jobs.Pairwise Job.Apart

theorem Sound.loses {w w' : ServiceGraphs} {S : ServiceStart} (h : Sound C w S) (hloses : Loses C w w') :
    Sound C w' S :=
  { h with known := fun L hL => (h.known L hL).loses hloses }

theorem Sound.apart {w : ServiceGraphs} {S : ServiceStart} {i j : Nat} {b b' : Branch} (h : Sound C w S)
    (hi : S.branches[i]? = some b) (hj : S.branches[j]? = some b') (hne : i ≠ j) : b.job.Apart b'.job := by
  have hi' : S.jobs[i]? = some b.job := by simp [ServiceStart.jobs, hi]
  have hj' : S.jobs[j]? = some b'.job := by simp [ServiceStart.jobs, hj]
  obtain ⟨hli, hgi⟩ := List.getElem?_eq_some_iff.mp hi'
  obtain ⟨hlj, hgj⟩ := List.getElem?_eq_some_iff.mp hj'
  have hpairs := List.pairwise_iff_getElem.mp h.names
  rcases Nat.lt_or_gt_of_ne hne with hlt | hgt
  · have hij := hpairs i j hli hlj hlt
    rwa [hgi, hgj] at hij
  · have hji := hpairs j i hlj hli hgt
    rw [hgi, hgj] at hji
    exact hji.symm

theorem Sound.setBranch {w : ServiceGraphs} {S : ServiceStart} {i : Nat} {b : Branch}
    {next : Groups × BranchStage} (h : Sound C w S) (hi : S.branches[i]? = some b)
    (hrunning : ∀ n G, next.1.running.lookup n = some G → S.groups.running.lookup n = some G)
    (hfailed : ∀ n G, next.1.failed.lookup n = some G → S.groups.failed.lookup n = some G)
    (hcall : ∀ g ∈ next.2.graph,
      ∃ G, S.Read G ∧ G.instanceId = g ∧ G.injectableName = b.job.name) :
    Sound C w (S.setBranch i b next) where
  known := h.known
  distinct := h.distinct
  running n G hG := h.running n G (hrunning n G hG)
  failed n G hG := h.failed n G (hfailed n G hG)
  calls b' hb' := by
    rcases ServiceStart.mem_setBranch hb' with hold | rfl
    · exact h.calls b' hold
    · exact hcall
  leftovers G hG := h.leftovers G (ServiceStart.setBranch_jobs hi next ▸ hG)
  idle hphase := by simp [h.idle hphase] at hi
  names := by
    rw [ServiceStart.setBranch_jobs hi]
    exact h.names

theorem lookup_erase_some {table : AList fun _ : String => ServiceGraphObject} {n m : String}
    {G : ServiceGraphObject} (h : (table.erase m).lookup n = some G) : table.lookup n = some G := by
  by_cases hn : n = m
  · subst hn
    simp at h
  · rwa [AList.lookup_erase_ne hn] at h

theorem Sound.migrate {w : ServiceGraphs} {S : ServiceStart} {i : Nat} {d : GraphDefinition} {b : Branch}
    (h : Sound C w S) (hi : S.branches[i]? = some b) (hb : b.job = .definition d) :
    Sound C w (S.setBranch i b (S.groups.migrate d)) := by
  unfold Groups.migrate
  split
  · rename_i G hG
    obtain ⟨hread, hname, _⟩ := h.running _ G hG
    split_ifs
    · refine h.setBranch hi (fun _ _ => id) (fun _ _ => id) fun g hg => ?_
      exact ⟨G, hread, Option.some.inj hg, hb ▸ hname⟩
    · exact h.setBranch hi (fun _ _ => lookup_erase_some) (fun _ _ => id) (by simp [BranchStage.graph])
  · split
    · rename_i G hG
      obtain ⟨hread, hname, _⟩ := h.failed _ G hG
      refine h.setBranch hi (fun _ _ => id) (fun _ _ => id) fun g hg => ?_
      exact ⟨G, hread, Option.some.inj hg, hb ▸ hname⟩
    · refine h.setBranch hi (fun _ _ => lookup_erase_some) (fun _ _ => id) ?_
      simp [BranchStage.graph, ServiceCall.graph]

theorem Sound.proceed {w : ServiceGraphs} {S : ServiceStart} {i : Nat} {b : Branch} {c : ServiceCall}
    (h : Sound C w S) (hi : S.branches[i]? = some b) :
    Sound C w (S.setBranch i b (S.groups.proceed b.job c)) := by
  unfold Groups.proceed
  split
  · rename_i d g hd
    split
    · rename_i G hG
      obtain ⟨hread, hname, _⟩ := h.running _ G hG
      refine h.setBranch hi (fun _ _ => id) (fun _ _ => id) fun g hg => ?_
      exact ⟨G, hread, Option.some.inj hg, hd ▸ hname⟩
    · exact h.setBranch hi (fun _ _ => id) (fun _ _ => id) (by simp [BranchStage.graph])
  · exact h.setBranch hi (fun _ _ => lookup_erase_some) (fun _ _ => id)
      (by simp [BranchStage.graph, ServiceCall.graph])
  · exact h.setBranch hi (fun _ _ => id) (fun _ _ => lookup_erase_some)
      (by simp [BranchStage.graph, ServiceCall.graph])
  · rename_i G g hG
    have hmem : Job.leftover G ∈ S.jobs := by
      rw [← hG]
      exact List.mem_map_of_mem (List.mem_of_getElem? hi)
    refine h.setBranch hi (fun _ _ => id) (fun _ _ => id) fun g hg => ?_
    exact ⟨G, (h.leftovers G hmem).1, Option.some.inj hg, by rw [hG, Job.name]⟩
  · exact h.setBranch hi (fun _ _ => id) (fun _ _ => id) (by simp [BranchStage.graph])

theorem Sound.getServiceGraphs {w : ServiceGraphs} {S : ServiceStart} (h : Sound C w S) (hid : Identified w)
    (hnone : S.serviceGraphs = none) : Sound C w { S with serviceGraphs := some w.graphs } := by
  have hunread : ∀ G, ¬ S.Read G := by
    rintro G ⟨L, hL, _⟩
    simp [hnone] at hL
  exact {
    known := fun L hL => Option.some.inj hL ▸ hid.known
    distinct := h.distinct
    running := fun n G hG => absurd (h.running n G hG).1 (hunread G)
    failed := fun n G hG => absurd (h.failed n G hG).1 (hunread G)
    calls := fun b hb g hg => by
      obtain ⟨G, hG, _⟩ := h.calls b hb g hg
      exact absurd hG (hunread G)
    leftovers := fun G hG => absurd (h.leftovers G hG).1 (hunread G)
    idle := h.idle
    names := h.names }

theorem Sound.spread {w : ServiceGraphs} {S : ServiceStart} {ds : List GraphDefinition}
    {L : List ServiceGraphObject} (h : Sound C w S) (hds : S.graphDefinitions = some ds)
    (hL : S.serviceGraphs = some L) : Sound C w (S.migrateAll C ds L) := by
  have hjobs : (S.migrateAll C ds L).jobs = (ds.filter GraphDefinition.serviceGraph).map Job.definition := by
    simp [ServiceStart.jobs, ServiceStart.migrateAll, List.map_map, Function.comp_def]
  exact {
    known := h.known
    distinct := h.distinct
    running := fun n G hG => ⟨⟨L, hL, (groups_running hG).1⟩, (groups_running hG).2⟩
    failed := fun n G hG => ⟨⟨L, hL, (groups_failed hG).1⟩, (groups_failed hG).2⟩
    calls := fun b hb g hg => by
      obtain ⟨d, _, rfl⟩ := List.mem_map.mp hb
      simp [BranchStage.graph] at hg
    leftovers := fun G hG => by simp [hjobs] at hG
    idle := fun hphase => by simp [ServiceStart.migrateAll] at hphase
    names := by
      have hnames : (ds.filter GraphDefinition.serviceGraph).Pairwise fun d d' =>
          d.injectableName ≠ d'.injectableName :=
        (List.pairwise_map.mp (h.distinct ds hds)).sublist List.filter_sublist
      rw [hjobs, List.pairwise_map]
      refine hnames.imp fun hne d d' hd hd' => ?_
      rwa [← Job.definition.inj hd, ← Job.definition.inj hd'] }

theorem Sound.sweep {w : ServiceGraphs} {S : ServiceStart} (h : Sound C w S) : Sound C w S.sweep := by
  have hentry : ∀ x ∈ S.groups.running.entries, S.Read x.2 ∧ C.active x.2 = true := by
    intro x hx
    obtain ⟨hread, _, hactive⟩ := h.running x.1 x.2 (AList.mem_lookup_iff.mpr hx)
    exact ⟨hread, hactive⟩
  have hjobs : S.sweep.jobs = S.jobs ++ S.groups.running.entries.map fun x => Job.leftover x.2 := by
    simp [ServiceStart.jobs, ServiceStart.sweep, List.map_map, Function.comp_def]
  exact {
    known := h.known
    distinct := h.distinct
    running := h.running
    failed := h.failed
    calls := fun b hb g hg => by
      rcases List.mem_append.mp hb with hold | hnew
      · exact h.calls b hold g hg
      · obtain ⟨x, hx, rfl⟩ := List.mem_map.mp hnew
        exact ⟨x.2, (hentry x hx).1, Option.some.inj hg, rfl⟩
    leftovers := fun G hG => by
      rw [hjobs, List.mem_append] at hG
      rcases hG with hold | hnew
      · exact h.leftovers G hold
      · obtain ⟨x, hx, hxG⟩ := List.mem_map.mp hnew
        obtain rfl := Job.leftover.inj hxG
        exact hentry x hx
    idle := fun hphase => by simp [ServiceStart.sweep] at hphase
    names := by
      have hleft : ∀ j, ∀ j' ∈ S.groups.running.entries.map fun x => Job.leftover x.2, Job.Apart j j' := by
        rintro j j' hj' d d' - hd'
        obtain ⟨x, _, rfl⟩ := List.mem_map.mp hj'
        simp at hd'
      rw [hjobs, List.pairwise_append]
      exact ⟨h.names, List.pairwise_of_forall_mem_list fun j _ j' hj' => hleft j j' hj',
        fun j _ j' hj' => hleft j j' hj'⟩ }

theorem Sound.control {w : ServiceGraphs} {S S' : ServiceStart} (h : Sound C w S) (hid : Identified w)
    (hcontrol : Control C w S S') : Sound C w S' := by
  cases hcontrol with
  | getGraphDefinitions => exact { h with distinct := fun ds hds => Option.some.inj hds ▸ w.definitions.distinct }
  | getServiceGraphs _ hnone => exact h.getServiceGraphs hid hnone
  | spread ds L _ hds hL => exact h.spread hds hL
  | map i d hi => exact h.migrate hi rfl
  | reply i b c hi => exact h.proceed hi
  | reject i b hi =>
    refine h.setBranch hi (fun _ _ => id) (fun _ _ => id) fun g hg => ?_
    refine h.calls b (List.mem_of_getElem? hi) g ?_
    cases hb : b.stage with
    | called c => simpa [hb, BranchStage.pending, BranchStage.graph] using hg
    | rejected late => simpa [hb, BranchStage.pending] using hg
    | waiting | executed | resolved => simp [hb, BranchStage.pending, BranchStage.graph] at hg
  | sweep => exact h.sweep
  | finish => exact { h with idle := fun hphase => by simp at hphase }

theorem Sound.execute {w : ServiceGraphs} {S : ServiceStart} {i : Nat} {b : Branch} {c : ServiceCall}
    (h : Sound C w S) (hi : S.branches[i]? = some b) (hb : b.stage.pending = some c) :
    Sound C (w.perform C b.job c) (S.setBranch i b (S.groups, b.stage.performed c)) := by
  refine (h.loses (perform_loses w b.job c)).setBranch hi (fun _ _ => id) (fun _ _ => id) fun g hg => ?_
  refine h.calls b (List.mem_of_getElem? hi) g ?_
  cases hstage : b.stage with
  | called c' =>
    obtain rfl : c' = c := by simpa [hstage, BranchStage.pending] using hb
    simpa [hstage, BranchStage.performed, BranchStage.graph] using hg
  | waiting | executed | resolved | rejected => simp [hstage, BranchStage.performed, BranchStage.graph] at hg

structure Coherent (C : GraphStates) (w : ServiceGraphs) : Prop where
  identified : Identified w
  sound : ∀ s S, w.starts s = some S → Sound C w S

theorem setStart_starts (w : ServiceGraphs) (s t : StartId) (S : ServiceStart) :
    (w.setStart s S).starts t = if t = s then some S else w.starts t := by
  simp [setStart, Function.update_apply]

theorem perform_starts (w : ServiceGraphs) (j : Job) (c : ServiceCall) :
    (w.perform C j c).starts = w.starts := by
  cases c <;> cases j <;> rfl

theorem Coherent.setStart {w : ServiceGraphs} {s : StartId} {S : ServiceStart} (h : Coherent C w)
    (hS : Sound C w S) : Coherent C (w.setStart s S) := by
  have hloses : Loses C w (w.setStart s S) := .of_eq rfl rfl
  refine ⟨⟨h.identified.nodup, h.identified.lt⟩, fun t T ht => ?_⟩
  rw [setStart_starts] at ht
  split_ifs at ht with hts
  · exact Option.some.inj ht ▸ hS.loses hloses
  · exact (h.sound t T ht).loses hloses

theorem Coherent.change {w w' : ServiceGraphs} {e : ServiceEvent} (h : Coherent C w)
    (hchange : Change C w e w') : Coherent C w' := by
  cases hchange with
  | load =>
    exact ⟨⟨h.identified.nodup, h.identified.lt⟩, fun s S hs => (h.sound s S hs).loses (.of_eq rfl rfl)⟩
  | start s hs =>
    refine h.setStart ?_
    constructor <;> simp [ServiceStart.new, ServiceStart.jobs]
  | control s S S' hs he hcontrol => exact h.setStart ((h.sound s S hs).control h.identified hcontrol)
  | execute s i S b c hs hi hb =>
    have hperform : Coherent C (w.perform C b.job c) := by
      refine ⟨h.identified.perform b.job c, fun t T ht => ?_⟩
      rw [perform_starts] at ht
      exact (h.sound t T ht).loses (perform_loses w b.job c)
    exact hperform.setStart ((h.sound s S hs).execute hi hb)

theorem Coherent.start (ds : GraphDefinitions) {graphs : List ServiceGraphObject}
    (hids : (graphs.map ServiceGraphObject.instanceId).Nodup) : Coherent C (start ds graphs) := by
  refine ⟨⟨hids, fun G hG => ?_⟩, fun s S hs => by simp [ServiceGraphs.start] at hs⟩
  have hmem : G.instanceId + 1 ∈ graphs.map fun G => G.instanceId + 1 := List.mem_map_of_mem hG
  exact List.le_max_of_le' 0 hmem (Nat.le_refl _)

end ServiceGraphs

end OnTaskGraph
