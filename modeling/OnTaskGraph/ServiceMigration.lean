import OnTaskGraph.ServiceStarts

/-! A start that is alone on the store: what it makes of the active graphs of
every name. The branches share two tables, but each keeps to its own name. -/

namespace OnTaskGraph

def actives (C : GraphStates) (graphs : List ServiceGraphObject) (n : String) : List ServiceGraphObject :=
  graphs.filter fun G => C.active G ∧ G.injectableName = n

def NoDuplicates (C : GraphStates) (graphs : List ServiceGraphObject) : Prop :=
  ∀ G ∈ graphs, ∀ H ∈ graphs, C.active G = true → C.active H = true →
    G.injectableName = H.injectableName → G.instanceId = H.instanceId

def without (g : GraphId) (graphs : List ServiceGraphObject) : List ServiceGraphObject :=
  graphs.filter (·.instanceId ≠ g)

def ServiceStart.jobNames (S : ServiceStart) : List String := S.jobs.map Job.name

section Progress

variable (C : GraphStates) (graphs : List ServiceGraphObject) (log : List ServiceNote)

/-- Of the graphs that the start has found, the job is to end `G`. -/
def Ousted (G : ServiceGraphObject) : Job → Prop
  | .definition d => (C.groups graphs).running.lookup d.injectableName = some G ∧ G.definition ≠ d
  | .leftover G' => G' = G ∧ (C.groups graphs).running.lookup G.injectableName = some G

/-- What is active of a name once the way is free for a new graph. -/
inductive Vacated (d : GraphDefinition) : List ServiceGraphObject → Prop
  | absent (hnone : (C.groups graphs).running.lookup d.injectableName = none) :
      Vacated d (actives C graphs d.injectableName)
  | ousted (G : ServiceGraphObject) (h : Ousted C graphs G (.definition d))
      (hlog : [.deleted G.instanceId, .cancelled G.instanceId].Sublist log) :
      Vacated d (without G.instanceId (actives C graphs d.injectableName))

/-- What is active of a name once its branch has resolved. -/
inductive Settled : Job → List ServiceGraphObject → Prop
  | kept (d : GraphDefinition) (G : ServiceGraphObject)
      (hG : (C.groups graphs).running.lookup d.injectableName = some G) (hsame : G.definition = d) :
      Settled (.definition d) (actives C graphs d.injectableName)
  | created (d : GraphDefinition) (k : GraphId)
      (hnone : (C.groups graphs).running.lookup d.injectableName = none) :
      Settled (.definition d) (actives C graphs d.injectableName ++ [⟨k, d.injectableName, d, .running⟩])
  | replaced (d : GraphDefinition) (k : GraphId) (G : ServiceGraphObject)
      (h : Ousted C graphs G (.definition d))
      (hlog : [.created k, .deleted G.instanceId, .cancelled G.instanceId].Sublist log) :
      Settled (.definition d)
        (without G.instanceId (actives C graphs d.injectableName) ++ [⟨k, d.injectableName, d, .running⟩])
  | ended (G : ServiceGraphObject) (h : Ousted C graphs G (.leftover G))
      (hlog : [.deleted G.instanceId, .cancelled G.instanceId].Sublist log) :
      Settled (.leftover G) (without G.instanceId (actives C graphs G.injectableName))

/-- How far a branch has come, by its entry in the table of running graphs and
the active graphs of its name. -/
inductive Progress : Job → Option ServiceGraphObject → List ServiceGraphObject → BranchStage → Prop
  | waiting (d : GraphDefinition) : Progress (.definition d)
      ((C.groups graphs).running.lookup d.injectableName) (actives C graphs d.injectableName) .waiting
  | cancelling (j : Job) (G : ServiceGraphObject) (h : Ousted C graphs G j) :
      Progress j (some G) (actives C graphs j.name) (.called (.cancelTaskGraph G.instanceId))
  | cancelled (j : Job) (G : ServiceGraphObject) (h : Ousted C graphs G j)
      (hlog : .cancelled G.instanceId ∈ log) :
      Progress j (some G) (without G.instanceId (actives C graphs j.name))
        (.executed (.cancelTaskGraph G.instanceId))
  | deleting (j : Job) (G : ServiceGraphObject) (h : Ousted C graphs G j)
      (hlog : .cancelled G.instanceId ∈ log) :
      Progress j (some G) (without G.instanceId (actives C graphs j.name))
        (.called (.deleteGraph G.instanceId .running))
  | deleted (j : Job) (G : ServiceGraphObject) (h : Ousted C graphs G j)
      (hlog : [.deleted G.instanceId, .cancelled G.instanceId].Sublist log) :
      Progress j (some G) (without G.instanceId (actives C graphs j.name))
        (.executed (.deleteGraph G.instanceId .running))
  | clearing (d : GraphDefinition) (G : ServiceGraphObject)
      (hnone : (C.groups graphs).running.lookup d.injectableName = none) :
      Progress (.definition d) none (actives C graphs d.injectableName)
        (.called (.deleteGraph G.instanceId .failed))
  | cleared (d : GraphDefinition) (G : ServiceGraphObject)
      (hnone : (C.groups graphs).running.lookup d.injectableName = none) :
      Progress (.definition d) none (actives C graphs d.injectableName)
        (.executed (.deleteGraph G.instanceId .failed))
  | creating (d : GraphDefinition) (acts : List ServiceGraphObject) (h : Vacated C graphs log d acts) :
      Progress (.definition d) none acts (.called .createAndRunServiceGraph)
  | created (d : GraphDefinition) (acts : List ServiceGraphObject)
      (h : Settled C graphs log (.definition d) acts) :
      Progress (.definition d) none acts (.executed .createAndRunServiceGraph)
  | resolved (j : Job) (entry : Option ServiceGraphObject) (acts : List ServiceGraphObject)
      (h : Settled C graphs log j acts) (hentry : ∀ d, j = .definition d → entry = none) :
      Progress j entry acts .resolved
  | rejected (j : Job) (entry : Option ServiceGraphObject) (acts : List ServiceGraphObject)
      (late : Option ServiceCall) : Progress j entry acts (.rejected late)

end Progress

section Actives

variable {C : GraphStates} {graphs : List ServiceGraphObject} {n : String}

theorem mem_actives {G : ServiceGraphObject} :
    G ∈ actives C graphs n ↔ G ∈ graphs ∧ C.active G = true ∧ G.injectableName = n := by
  simp [actives]

theorem actives_eq_nil (h : (C.groups graphs).running.lookup n = none) : actives C graphs n = [] := by
  refine List.eq_nil_iff_forall_not_mem.mpr fun G hG => ?_
  obtain ⟨hmem, hactive, hname⟩ := mem_actives.mp hG
  exact groups_none h G hmem hactive hname

theorem without_of_absent {g : GraphId} (h : ∀ G ∈ graphs, G.instanceId ≠ g) : without g graphs = graphs :=
  List.filter_eq_self.mpr fun G hG => by simpa using h G hG

theorem without_without (g : GraphId) : without g (without g graphs) = without g graphs :=
  without_of_absent fun G hG => by simpa using (List.mem_filter.mp hG).2

theorem actives_without (g : GraphId) : actives C (without g graphs) n = without g (actives C graphs n) := by
  simp only [actives, without, List.filter_filter]
  exact List.filter_congr fun G _ => Bool.and_comm _ _

namespace ServiceGraphs

theorem actives_cancelTaskGraph (w : ServiceGraphs) (g : GraphId) (n : String) :
    actives C (w.cancelTaskGraph C g).graphs n = without g (actives C w.graphs n) := by
  simp only [cancelTaskGraph]
  induction w.graphs with
  | nil => rfl
  | cons G L ih =>
    simp only [actives, without] at ih ⊢
    rw [List.map_cons, List.filter_cons, List.filter_cons, ih]
    by_cases hactive : C.active G = true
    · by_cases hg : G.instanceId = g
      · subst hg
        by_cases hn : G.injectableName = n
        · subst hn
          simp [hactive, active_cancelled]
        · simp [hactive, hn]
      · by_cases hn : G.injectableName = n <;> simp [hactive, hg, hn]
    · simp [hactive]

theorem actives_deleteGraph (w : ServiceGraphs) (g : GraphId) (n : String) :
    actives C (w.deleteGraph g).graphs n = without g (actives C w.graphs n) :=
  actives_without g

theorem actives_createAndRunServiceGraph (w : ServiceGraphs) (d : GraphDefinition) (n : String) :
    actives C (w.createAndRunServiceGraph d).graphs n = actives C w.graphs n ++
      if d.injectableName = n then [⟨w.instances, d.injectableName, d, .running⟩] else [] := by
  have hactive : C.active ⟨w.instances, d.injectableName, d, .running⟩ = true := by
    simp [GraphStates.active, C.running_active]
  simp only [createAndRunServiceGraph, actives, List.filter_append]
  by_cases hn : d.injectableName = n
  · subst hn
    simp [hactive]
  · simp [hn]

theorem actives_perform_of_ne {w : ServiceGraphs} {S : ServiceStart} {b : Branch} {c : ServiceCall}
    (hsound : Sound C w S) (hmem : b ∈ S.branches) (hb : b.stage.pending = some c) (hne : n ≠ b.job.name) :
    actives C (w.perform C b.job c).graphs n = actives C w.graphs n := by
  have hother : ∀ g, c.graph = some g → without g (actives C w.graphs n) = actives C w.graphs n := by
    intro g hg
    have hcall : g ∈ b.stage.graph := by rw [BranchStage.graph_of_pending hb, hg]; rfl
    obtain ⟨G, ⟨L, hL, hG⟩, hid, hname⟩ := hsound.calls b hmem g hcall
    refine without_of_absent fun H hH heq => ?_
    obtain ⟨hstored, _, hHname⟩ := mem_actives.mp hH
    have hsame := ((hsound.known L hL G hG).2 H hstored (heq.trans hid.symm)).1
    exact hne (hHname.symm.trans (hsame.trans hname))
  cases c with
  | cancelTaskGraph g => exact (actives_cancelTaskGraph w g n).trans (hother g rfl)
  | deleteGraph g table => exact (actives_deleteGraph w g n).trans (hother g rfl)
  | createAndRunServiceGraph =>
    cases hj : b.job with
    | leftover G => rfl
    | definition d =>
      have hd : d.injectableName ≠ n := fun h => hne (by rw [hj, ← h]; rfl)
      simp [perform, actives_createAndRunServiceGraph, hd]

theorem perform_log (w : ServiceGraphs) (j : Job) (c : ServiceCall) : w.log.Sublist (w.perform C j c).log := by
  cases c with
  | cancelTaskGraph g | deleteGraph g table => exact List.sublist_cons_self _ _
  | createAndRunServiceGraph =>
    cases j with
    | definition d => exact List.sublist_cons_self _ _
    | leftover G => exact List.Sublist.refl _

end ServiceGraphs

end Actives

section Progress

variable {C : GraphStates} {graphs : List ServiceGraphObject} {log log' : List ServiceNote}

theorem Vacated.mono {d : GraphDefinition} {acts : List ServiceGraphObject} (h : Vacated C graphs log d acts)
    (hlog : log.Sublist log') : Vacated C graphs log' d acts := by
  cases h with
  | absent hnone => exact .absent hnone
  | ousted G h hG => exact .ousted G h (hG.trans hlog)

theorem Settled.mono {j : Job} {acts : List ServiceGraphObject} (h : Settled C graphs log j acts)
    (hlog : log.Sublist log') : Settled C graphs log' j acts := by
  cases h with
  | kept d G hG hsame => exact .kept d G hG hsame
  | created d k hnone => exact .created d k hnone
  | replaced d k G h hG => exact .replaced d k G h (hG.trans hlog)
  | ended G h hG => exact .ended G h (hG.trans hlog)

theorem Progress.mono {j : Job} {entry : Option ServiceGraphObject} {acts : List ServiceGraphObject}
    {stage : BranchStage} (h : Progress C graphs log j entry acts stage) (hlog : log.Sublist log') :
    Progress C graphs log' j entry acts stage := by
  cases h with
  | waiting d => exact .waiting d
  | cancelling _ G h => exact .cancelling j G h
  | cancelled _ G h hG => exact .cancelled j G h (hlog.subset hG)
  | deleting _ G h hG => exact .deleting j G h (hlog.subset hG)
  | deleted _ G h hG => exact .deleted j G h (hG.trans hlog)
  | clearing d G hnone => exact .clearing d G hnone
  | cleared d G hnone => exact .cleared d G hnone
  | creating d acts h => exact .creating d acts (h.mono hlog)
  | created d acts h => exact .created d acts (h.mono hlog)
  | resolved _ _ _ h hentry => exact .resolved j entry acts (h.mono hlog) hentry
  | rejected _ _ _ late => exact .rejected j entry acts late

theorem Progress.of_resolved {j : Job} {entry : Option ServiceGraphObject} {acts : List ServiceGraphObject}
    (h : Progress C graphs log j entry acts .resolved) :
    Settled C graphs log j acts ∧ ∀ d, j = .definition d → entry = none := by
  cases h with
  | resolved _ _ _ h hentry => exact ⟨h, hentry⟩

theorem Vacated.create {d : GraphDefinition} {acts : List ServiceGraphObject} (k : GraphId)
    (h : Vacated C graphs log d acts) : Settled C graphs (.created k :: log) (.definition d)
      (acts ++ [⟨k, d.injectableName, d, .running⟩]) := by
  cases h with
  | absent hnone => exact .created d k hnone
  | ousted G h hG => exact .replaced d k G h (hG.cons_cons _)

theorem Progress.execute {w : ServiceGraphs} {j : Job} {c : ServiceCall} {entry : Option ServiceGraphObject}
    (h : Progress C graphs w.log j entry (actives C w.graphs j.name) (.called c)) :
    Progress C graphs (w.perform C j c).log j entry (actives C (w.perform C j c).graphs j.name)
      (.executed c) := by
  generalize hacts : actives C w.graphs j.name = acts at h
  cases h with
  | cancelling _ G h =>
    have hnow : actives C (w.perform C j (.cancelTaskGraph G.instanceId)).graphs j.name =
        without G.instanceId (actives C graphs j.name) := by
      rw [← hacts]
      exact ServiceGraphs.actives_cancelTaskGraph w G.instanceId j.name
    rw [hnow]
    exact .cancelled j G h List.mem_cons_self
  | deleting _ G h hG =>
    have hnow : actives C (w.perform C j (.deleteGraph G.instanceId .running)).graphs j.name =
        without G.instanceId (actives C graphs j.name) := by
      rw [← without_without, ← hacts]
      exact ServiceGraphs.actives_deleteGraph w G.instanceId j.name
    rw [hnow]
    exact .deleted j G h ((List.singleton_sublist.mpr hG).cons_cons _)
  | clearing d G hnone =>
    have hnow : actives C (w.perform C (.definition d) (.deleteGraph G.instanceId .failed)).graphs
        d.injectableName = actives C graphs d.injectableName := by
      have hnil := actives_eq_nil hnone
      have hdelete := ServiceGraphs.actives_deleteGraph (C := C) w G.instanceId d.injectableName
      rw [show actives C w.graphs d.injectableName = [] from hacts.trans hnil] at hdelete
      exact hdelete.trans hnil.symm
    show Progress C graphs _ _ none (actives C _ d.injectableName) _
    rw [hnow]
    exact .cleared d G hnone
  | creating d acts h =>
    have hnow : actives C (w.perform C (.definition d) .createAndRunServiceGraph).graphs d.injectableName =
        acts ++ [⟨w.instances, d.injectableName, d, .running⟩] := by
      have hcreate := ServiceGraphs.actives_createAndRunServiceGraph (C := C) w d d.injectableName
      rw [if_pos rfl] at hcreate
      exact hacts ▸ hcreate
    show Progress C graphs _ _ none (actives C _ d.injectableName) _
    rw [hnow]
    exact .created d _ (h.create w.instances)

theorem Progress.migrate {groups : Groups} {d : GraphDefinition} {acts : List ServiceGraphObject}
    (h : Progress C graphs log (.definition d) (groups.running.lookup d.injectableName) acts .waiting) :
    Progress C graphs log (.definition d) ((groups.migrate d).1.running.lookup d.injectableName) acts
      (groups.migrate d).2 := by
  generalize hentry : groups.running.lookup d.injectableName = entry at h
  cases h with
  | waiting d =>
    unfold Groups.migrate
    split
    · rename_i G hG
      have hfound := hentry.symm.trans hG
      split_ifs with hsame
      · show Progress C graphs log _ (groups.running.lookup d.injectableName) _ _
        rw [hG]
        exact .cancelling (.definition d) G ⟨hfound, hsame⟩
      · refine .resolved _ _ _ (.kept d G hfound (not_not.mp hsame)) fun d' hd' => ?_
        exact AList.lookup_erase _ _
    · rename_i hnone
      have hmissing := hentry.symm.trans hnone
      split
      · rename_i G hG
        show Progress C graphs log _ (groups.running.lookup d.injectableName) _ _
        rw [hnone]
        exact .clearing d G hmissing
      · show Progress C graphs log _ ((groups.running.erase d.injectableName).lookup d.injectableName) _ _
        rw [AList.lookup_erase]
        exact .creating d _ (.absent hmissing)

theorem Progress.proceed {groups : Groups} {j : Job} {c : ServiceCall} {acts : List ServiceGraphObject}
    (h : Progress C graphs log j (groups.running.lookup j.name) acts (.executed c)) :
    Progress C graphs log j ((groups.proceed j c).1.running.lookup j.name) acts (groups.proceed j c).2 := by
  generalize hentry : groups.running.lookup j.name = entry at h
  cases h with
  | cancelled _ G h hG =>
    cases j with
    | definition d =>
      have hlookup : groups.running.lookup d.injectableName = some G := hentry
      have hproceed : groups.proceed (.definition d) (.cancelTaskGraph G.instanceId) =
          (groups, .called (.deleteGraph G.instanceId .running)) := by simp [Groups.proceed, hlookup]
      rw [hproceed, hentry]
      exact .deleting _ G h hG
    | leftover G' =>
      obtain ⟨rfl, _⟩ := id h
      rw [Groups.proceed, hentry]
      exact .deleting _ G' h hG
  | deleted _ G h hG =>
    cases j with
    | definition d =>
      rw [Groups.proceed, Job.name, AList.lookup_erase]
      exact .creating d _ (.ousted G h hG)
    | leftover G' =>
      obtain ⟨rfl, _⟩ := id h
      exact .resolved _ _ _ (.ended G' h hG) (by simp)
  | cleared d G hnone =>
    rw [Groups.proceed, hentry]
    exact .creating d _ (.absent hnone)
  | created d acts h => exact .resolved _ _ _ h fun _ _ => hentry

theorem Groups.migrate_of_ne (groups : Groups) {d : GraphDefinition} {n : String} (hne : n ≠ d.injectableName) :
    (groups.migrate d).1.running.lookup n = groups.running.lookup n := by
  unfold Groups.migrate
  split
  · split_ifs
    · rfl
    · exact AList.lookup_erase_ne hne
  · split
    · rfl
    · exact AList.lookup_erase_ne hne

theorem Groups.proceed_of_ne (groups : Groups) {j : Job} (c : ServiceCall) {n : String} (hne : n ≠ j.name) :
    (groups.proceed j c).1.running.lookup n = groups.running.lookup n := by
  unfold Groups.proceed
  split
  · split <;> rfl
  · exact AList.lookup_erase_ne hne
  · rfl
  · rfl
  · rfl

end Progress

/-- A start that is alone on the store and has spread what it read. -/
structure Migrating (C : GraphStates) (ds : List GraphDefinition) (graphs stored : List ServiceGraphObject)
    (log : List ServiceNote) (S : ServiceStart) : Prop where
  snapshot : S.serviceGraphs = some graphs
  definitions : ∀ d, .definition d ∈ S.jobs ↔ d ∈ ds ∧ d.serviceGraph = true
  names : S.jobNames.Nodup
  progress : ∀ (i : Nat) (b : Branch), S.branches[i]? = some b →
    Progress C graphs log b.job (S.groups.running.lookup b.job.name) (actives C stored b.job.name) b.stage
  untouched : ∀ n ∉ S.jobNames, S.groups.running.lookup n = (C.groups graphs).running.lookup n ∧
    actives C stored n = actives C graphs n
  spread : S.phase ≠ .reading
  unswept : S.phase = .migrating → ∀ G, .leftover G ∉ S.jobs
  swept : S.phase ≠ .migrating → ∀ n ∉ S.jobNames, (C.groups graphs).running.lookup n = none
  finished : S.phase = .resolved → S.allResolved = true

section Migrating

variable {C : GraphStates} {ds : List GraphDefinition} {graphs stored stored' : List ServiceGraphObject}
  {log log' : List ServiceNote} {S S' : ServiceStart}

theorem jobNames_getElem {i : Nat} {b : Branch} (hi : S.branches[i]? = some b) :
    S.jobNames[i]? = some b.job.name := by
  simp [ServiceStart.jobNames, ServiceStart.jobs, hi]

theorem Migrating.setBranch {i : Nat} {b : Branch} {next : Groups × BranchStage}
    (h : Migrating C ds graphs stored log S) (hi : S.branches[i]? = some b) (hstage : b.stage ≠ .resolved)
    (htable : ∀ n, n ≠ b.job.name → next.1.running.lookup n = S.groups.running.lookup n)
    (hactives : ∀ n, n ≠ b.job.name → actives C stored' n = actives C stored n) (hlog : log.Sublist log')
    (hnext : Progress C graphs log' b.job (next.1.running.lookup b.job.name) (actives C stored' b.job.name)
      next.2) : Migrating C ds graphs stored' log' (S.setBranch i b next) := by
  have hjobs := ServiceStart.setBranch_jobs hi next
  have hnames : (S.setBranch i b next).jobNames = S.jobNames := congrArg (List.map Job.name) hjobs
  obtain ⟨hlt, hget⟩ := List.getElem?_eq_some_iff.mp hi
  refine ⟨h.snapshot, fun d => by rw [hjobs]; exact h.definitions d, hnames ▸ h.names, fun j b' hj => ?_,
    fun n hn => ?_, h.spread, fun hphase G => hjobs ▸ h.unswept hphase G,
    fun hphase n hn => h.swept hphase n (hnames ▸ hn), fun hphase => ?_⟩
  · by_cases hij : i = j
    · subst hij
      obtain rfl : { b with stage := next.2 } = b' := by
        simpa [ServiceStart.setBranch, List.getElem?_set_self hlt] using hj
      exact hnext
    · have hold : S.branches[j]? = some b' := by
        simpa [ServiceStart.setBranch, List.getElem?_set_ne hij] using hj
      have hne : b'.job.name ≠ b.job.name := fun heq => by
        have hlt' : i < S.jobNames.length := by simpa [ServiceStart.jobNames, ServiceStart.jobs] using hlt
        have hsame : S.jobNames[i]? = S.jobNames[j]? := by
          rw [jobNames_getElem hi, jobNames_getElem hold, heq]
        exact hij ((List.getElem?_inj hlt' h.names).mp hsame)
      have hprogress := (h.progress j b' hold).mono hlog
      rwa [← htable _ hne, ← hactives _ hne] at hprogress
  · have hne : n ≠ b.job.name := by
      rintro rfl
      exact hn (hnames ▸ List.mem_of_getElem? (jobNames_getElem hi))
    obtain ⟨hentry, hacts⟩ := h.untouched n (hnames ▸ hn)
    exact ⟨(htable n hne).trans hentry, (hactives n hne).trans hacts⟩
  · have hresolved := List.all_eq_true.mp (h.finished hphase) b (List.mem_of_getElem? hi)
    exact absurd (of_decide_eq_true hresolved) hstage

theorem allResolved_stage (h : S.allResolved = true) {b : Branch} (hb : b ∈ S.branches) : b.stage = .resolved :=
  of_decide_eq_true (List.all_eq_true.mp h b hb)

theorem Migrating.lookup_of_resolved (h : Migrating C ds graphs stored log S) (hphase : S.phase = .migrating)
    (hall : S.allResolved = true) {n : String} (hn : n ∈ S.jobNames) : S.groups.running.lookup n = none := by
  obtain ⟨j, hj, rfl⟩ := List.mem_map.mp hn
  obtain ⟨b, hb, rfl⟩ := List.mem_map.mp hj
  obtain ⟨i, hi⟩ := List.mem_iff_getElem?.mp hb
  have hprogress := h.progress i b hi
  rw [allResolved_stage hall hb] at hprogress
  cases hjob : b.job with
  | leftover G => exact absurd (hjob ▸ hj) (h.unswept hphase G)
  | definition d => exact hjob ▸ hprogress.of_resolved.2 d hjob

theorem Migrating.sweep {w : ServiceGraphs} (h : Migrating C ds graphs stored log S)
    (hsound : ServiceGraphs.Sound C w S) (hphase : S.phase = .migrating) (hall : S.allResolved = true) :
    Migrating C ds graphs stored log S.sweep := by
  have hentry : ∀ x ∈ S.groups.running.entries,
      S.groups.running.lookup x.2.injectableName = some x.2 ∧ x.2.injectableName = x.1 := by
    intro x hx
    have hlookup : S.groups.running.lookup x.1 = some x.2 := AList.mem_lookup_iff.mpr hx
    have hname := (hsound.running x.1 x.2 hlookup).2.1
    exact ⟨hname.symm ▸ hlookup, hname⟩
  have hfresh : ∀ n ∈ S.groups.running.keys, n ∉ S.jobNames := fun n hn hold => by
    have hsome := AList.lookup_isSome.mpr hn
    rw [h.lookup_of_resolved hphase hall hold] at hsome
    simp at hsome
  have hjobs : S.sweep.jobs = S.jobs ++ S.groups.running.entries.map fun x => Job.leftover x.2 := by
    simp [ServiceStart.jobs, ServiceStart.sweep, List.map_map, Function.comp_def]
  have hnames : S.sweep.jobNames = S.jobNames ++ S.groups.running.keys := by
    rw [ServiceStart.jobNames, hjobs, List.map_append, List.map_map]
    exact congrArg _ (List.map_congr_left fun x hx => (hentry x hx).2)
  refine ⟨h.snapshot, fun d => ?_, ?_, fun i b hi => ?_, fun n hn => ?_, by simp [ServiceStart.sweep],
    by simp [ServiceStart.sweep], fun _ n hn => ?_, by simp [ServiceStart.sweep]⟩
  · rw [hjobs, List.mem_append, ← h.definitions d]
    simp
  · rw [hnames, List.nodup_append]
    refine ⟨h.names, S.groups.running.nodupKeys, fun n hn m hm heq => ?_⟩
    exact hfresh m hm (heq ▸ hn)
  · rw [ServiceStart.sweep, List.getElem?_append] at hi
    split_ifs at hi
    · exact h.progress i b hi
    · obtain ⟨x, hx, rfl⟩ := List.mem_map.mp (List.mem_of_getElem? hi)
      obtain ⟨hlookup, hkey⟩ := hentry x hx
      have hkeys : x.2.injectableName ∈ S.groups.running.keys :=
        AList.lookup_isSome.mp (by rw [hlookup]; rfl)
      obtain ⟨htable, hacts⟩ := h.untouched _ (hfresh _ hkeys)
      show Progress C graphs log (.leftover x.2) (S.groups.running.lookup x.2.injectableName)
        (actives C stored x.2.injectableName) _
      rw [hlookup, hacts]
      exact .cancelling (.leftover x.2) x.2 ⟨rfl, htable.symm.trans hlookup⟩
  · exact h.untouched n fun hold => hn (hnames ▸ List.mem_append_left _ hold)
  · rw [hnames, List.mem_append, not_or] at hn
    rw [← (h.untouched n hn.1).1]
    exact AList.lookup_eq_none.mpr hn.2

theorem Migrating.control {w : ServiceGraphs} (h : Migrating C ds graphs w.graphs w.log S)
    (hsound : ServiceGraphs.Sound C w S) (hcontrol : ServiceGraphs.Control C w S S') :
    Migrating C ds graphs w.graphs w.log S' := by
  cases hcontrol with
  | getGraphDefinitions hphase | getServiceGraphs hphase => exact absurd hphase h.spread
  | spread ds L hphase => exact absurd hphase h.spread
  | map i d hi =>
    exact h.setBranch hi (by simp) (fun n hne => S.groups.migrate_of_ne hne) (fun _ _ => rfl)
      (List.Sublist.refl _) (h.progress i _ hi).migrate
  | reply i b c hi hb =>
    have hprogress := h.progress i b hi
    rw [hb] at hprogress
    exact h.setBranch hi (by simp [hb]) (fun n hne => S.groups.proceed_of_ne c hne) (fun _ _ => rfl)
      (List.Sublist.refl _) hprogress.proceed
  | reject i b hi hb =>
    exact h.setBranch hi hb (fun _ _ => rfl) (fun _ _ => rfl) (List.Sublist.refl _) (.rejected _ _ _ _)
  | sweep hphase hall => exact h.sweep hsound hphase hall
  | finish hphase hall =>
    have hswept : ∀ n ∉ S.jobNames, (C.groups graphs).running.lookup n = none := h.swept (by simp [hphase])
    exact ⟨h.snapshot, h.definitions, h.names, h.progress, h.untouched, by simp, by simp, fun _ => hswept,
      fun _ => hall⟩

theorem Migrating.execute {w : ServiceGraphs} {i : Nat} {b : Branch} {c : ServiceCall}
    (h : Migrating C ds graphs w.graphs w.log S) (hsound : ServiceGraphs.Sound C w S)
    (hi : S.branches[i]? = some b) (hb : b.stage.pending = some c) :
    Migrating C ds graphs (w.perform C b.job c).graphs (w.perform C b.job c).log
      (S.setBranch i b (S.groups, b.stage.performed c)) := by
  have hmem := List.mem_of_getElem? hi
  have hstage : b.stage ≠ .resolved := fun heq => by simp [heq, BranchStage.pending] at hb
  refine h.setBranch hi hstage (fun _ _ => rfl)
    (fun n hne => ServiceGraphs.actives_perform_of_ne hsound hmem hb hne) (ServiceGraphs.perform_log w b.job c) ?_
  have hprogress := h.progress i b hi
  cases hs : b.stage with
  | called c' =>
    obtain rfl : c' = c := by simpa [hs, BranchStage.pending] using hb
    rw [hs] at hprogress
    exact hprogress.execute
  | rejected late => exact .rejected _ _ _ _
  | waiting | executed | resolved => simp [hs, BranchStage.pending] at hb

theorem Migrating.of_spread {w : ServiceGraphs} (hgraphs : S.serviceGraphs = some graphs)
    (hnames : (ds.map GraphDefinition.injectableName).Nodup) :
    Migrating C ds graphs graphs w.log (S.migrateAll C ds graphs) := by
  have hjobs : (S.migrateAll C ds graphs).jobs = (ds.filter GraphDefinition.serviceGraph).map Job.definition := by
    simp [ServiceStart.jobs, ServiceStart.migrateAll, List.map_map, Function.comp_def]
  refine ⟨hgraphs, fun d => ?_, ?_, fun i b hi => ?_, fun n _ => ⟨rfl, rfl⟩, by simp [ServiceStart.migrateAll],
    fun _ G => by simp [hjobs], by simp [ServiceStart.migrateAll], by simp [ServiceStart.migrateAll]⟩
  · simp [hjobs]
  · rw [ServiceStart.jobNames, hjobs, List.map_map]
    exact hnames.sublist (List.filter_sublist.map _)
  · obtain ⟨d, _, rfl⟩ := List.mem_map.mp (List.mem_of_getElem? hi)
    exact .waiting d

end Migrating

namespace ServiceGraphs

variable {C : GraphStates} {defs : GraphDefinitions} {graphs : List ServiceGraphObject} {s : StartId}
  {w w' : ServiceGraphs}

/-- A deleted graph stays away. -/
def Erased (w : ServiceGraphs) : Prop :=
  ∀ g, .deleted g ∈ w.log → g < w.instances ∧ ∀ H ∈ w.graphs, H.instanceId ≠ g

theorem Erased.perform {j : Job} {c : ServiceCall} (h : Erased w) (hc : ∀ g ∈ c.graph, g < w.instances) :
    Erased (w.perform C j c) := by
  have hloses := perform_loses (C := C) w j c
  have hold : ∀ g, .deleted g ∈ w.log → g < (w.perform C j c).instances ∧
      ∀ H ∈ (w.perform C j c).graphs, H.instanceId ≠ g := by
    intro g hg
    obtain ⟨hlt, haway⟩ := h g hg
    refine ⟨Nat.lt_of_lt_of_le hlt hloses.instances, fun H' hH' => ?_⟩
    rcases hloses.graphs H' hH' with ⟨H, hH, hid, _⟩ | hnew
    · exact hid ▸ haway H hH
    · exact Nat.ne_of_gt (Nat.lt_of_lt_of_le hlt hnew)
  intro g hg
  cases c with
  | cancelTaskGraph g' =>
    exact hold g (by simpa using (show .deleted g ∈ .cancelled g' :: w.log from hg))
  | deleteGraph g' table =>
    rcases List.mem_cons.mp (show .deleted g ∈ .deleted g' :: w.log from hg) with heq | hmem
    · obtain rfl := ServiceNote.deleted.inj heq
      exact ⟨hc g rfl, fun H hH => by simpa using (List.mem_filter.mp hH).2⟩
    · exact hold g hmem
  | createAndRunServiceGraph =>
    cases j with
    | leftover G => exact hold g hg
    | definition d => exact hold g (by simpa using (show .deleted g ∈ .created w.instances :: w.log from hg))

theorem Erased.change {e : ServiceEvent} (h : Erased w) (hw : Coherent C w) (hchange : Change C w e w') :
    Erased w' := by
  cases hchange with
  | load | start | control => exact h
  | execute s i S b c hs hi hb =>
    refine h.perform (C := C) (j := b.job) (c := c) fun g hg => ?_
    have hsound := hw.sound s S hs
    obtain ⟨G, ⟨L, hL, hG⟩, rfl, _⟩ :=
      hsound.calls b (List.mem_of_getElem? hi) g (BranchStage.graph_of_pending hb ▸ hg)
    exact (hsound.known L hL G hG).1

/-- The first start of a store, while there is no other. -/
inductive Course (C : GraphStates) (defs : GraphDefinitions) (graphs : List ServiceGraphObject) (s : StartId)
    (w : ServiceGraphs) : Prop
  | reading (hdefs : w.definitions = defs) (hgraphs : w.graphs = graphs)
      (hread : ∀ S, w.starts s = some S → S.phase = .reading ∧
        (∀ ds, S.graphDefinitions = some ds → ds = defs.list) ∧ ∀ L, S.serviceGraphs = some L → L = graphs)
  | migrating (S : ServiceStart) (hs : w.starts s = some S)
      (h : Migrating C defs.list graphs w.graphs w.log S)

theorem setStart_self (w : ServiceGraphs) (s : StartId) (S : ServiceStart) :
    (w.setStart s S).starts s = some S := by
  simp [setStart_starts]

theorem Course.control {S S' : ServiceStart} (h : Course C defs graphs s w) (hs : w.starts s = some S)
    (hsound : Sound C w S) (hcontrol : Control C w S S') : Course C defs graphs s (w.setStart s S') := by
  cases h with
  | migrating T hT h =>
    obtain rfl : S = T := Option.some.inj (hs.symm.trans hT)
    exact .migrating S' (setStart_self w s S') (h.control hsound hcontrol)
  | reading hdefs hgraphs hread =>
    obtain ⟨hphase, hds, hL⟩ := hread S hs
    have hidle := hsound.idle hphase
    have hstill : S'.phase = .reading → (∀ ds, S'.graphDefinitions = some ds → ds = defs.list) →
        (∀ L, S'.serviceGraphs = some L → L = graphs) → Course C defs graphs s (w.setStart s S') := by
      refine fun hphase' hds' hL' => .reading hdefs hgraphs fun T hT => ?_
      obtain rfl : S' = T := Option.some.inj ((setStart_self w s S').symm.trans hT)
      exact ⟨hphase', hds', hL'⟩
    cases hcontrol with
    | getGraphDefinitions => exact hstill hphase (fun ds hds' => hdefs ▸ (Option.some.inj hds').symm) hL
    | getServiceGraphs => exact hstill hphase hds fun L hL' => hgraphs ▸ (Option.some.inj hL').symm
    | spread ds L _ hds' hL' =>
      obtain rfl := hds ds hds'
      obtain rfl := hL L hL'
      refine .migrating _ (setStart_self w s _) ?_
      show Migrating C defs.list L w.graphs w.log _
      rw [hgraphs]
      exact .of_spread hL' defs.distinct
    | map i d hi => simp [hidle] at hi
    | reply i b c hi => simp [hidle] at hi
    | reject i b hi => simp [hidle] at hi
    | sweep hphase' | finish hphase' => simp [hphase] at hphase'

structure Alone (C : GraphStates) (defs : GraphDefinitions) (graphs : List ServiceGraphObject) (s : StartId)
    (w : ServiceGraphs) : Prop where
  coherent : Coherent C w
  erased : Erased w
  course : Course C defs graphs s w

theorem Alone.change {e : ServiceEvent} (h : Alone C defs graphs s w) (hchange : Change C w e w')
    (he : e.start? = some s) : Alone C defs graphs s w' := by
  refine ⟨h.coherent.change hchange, h.erased.change h.coherent hchange, ?_⟩
  cases hchange with
  | load ds => simp [ServiceEvent.start?] at he
  | start t ht =>
    obtain rfl : t = s := Option.some.inj he
    cases h.course with
    | migrating S hs => simp [ht] at hs
    | reading hdefs hgraphs =>
      refine .reading hdefs hgraphs fun S hS => ?_
      obtain rfl : ServiceStart.new = S := Option.some.inj ((setStart_self w t .new).symm.trans hS)
      exact ⟨rfl, by simp [ServiceStart.new], by simp [ServiceStart.new]⟩
  | control t S S' ht he' hcontrol =>
    obtain rfl : t = s := Option.some.inj (he'.symm.trans he)
    exact h.course.control ht (h.coherent.sound t S ht) hcontrol
  | execute t i S b c ht hi hb =>
    obtain rfl : t = s := Option.some.inj he
    have hsound := h.coherent.sound t S ht
    cases h.course with
    | reading _ _ hread => simp [hsound.idle (hread S ht).1] at hi
    | migrating T hT hmigrating =>
      obtain rfl : S = T := Option.some.inj (ht.symm.trans hT)
      exact .migrating _ (setStart_self _ t _) (hmigrating.execute hsound hi hb)

theorem alone_run {es : List ServiceEvent} (hids : (graphs.map ServiceGraphObject.instanceId).Nodup)
    (hes : ∀ e ∈ es, e.start? = some s) (hrun : Lts.exec (step C) (start defs graphs) es = some w) :
    Alone C defs graphs s w := by
  refine (Lts.along_of_labels hes _).invariant (Alone C defs graphs s)
    (fun _ _ _ hstep he h => h.change (step_change hstep) he) ⟨.start defs hids, ?_, .reading rfl rfl ?_⟩ hrun
  · simp [Erased, start]
  · simp [start]

theorem Alone.migrating {S : ServiceStart} (h : Alone C defs graphs s w) (hs : w.starts s = some S)
    (hresolved : S.phase = .resolved) : Migrating C defs.list graphs w.graphs w.log S := by
  cases h.course with
  | reading _ _ hread => simp [(hread S hs).1] at hresolved
  | migrating T hT h =>
    obtain rfl : S = T := Option.some.inj (hs.symm.trans hT)
    exact h

theorem Alone.settled {S : ServiceStart} (h : Alone C defs graphs s w) (hs : w.starts s = some S)
    (hresolved : S.phase = .resolved) {j : Job} (hj : j ∈ S.jobs) :
    Settled C graphs w.log j (actives C w.graphs j.name) := by
  have hmigrating := h.migrating hs hresolved
  obtain ⟨b, hb, rfl⟩ := List.mem_map.mp hj
  obtain ⟨i, hi⟩ := List.mem_iff_getElem?.mp hb
  have hprogress := hmigrating.progress i b hi
  rw [allResolved_stage (hmigrating.finished hresolved) hb] at hprogress
  exact hprogress.of_resolved.1

theorem Alone.ended {S : ServiceStart} (h : Alone C defs graphs s w) (hs : w.starts s = some S)
    (hresolved : S.phase = .resolved) {G : ServiceGraphObject} {n : String}
    (hG : (C.groups graphs).running.lookup n = some G)
    (hnone : ∀ d ∈ defs.list, d.serviceGraph = true → d.injectableName ≠ n) :
    Settled C graphs w.log (.leftover G) (actives C w.graphs n) := by
  have hmigrating := h.migrating hs hresolved
  have hmem : n ∈ S.jobNames := by
    by_contra hn
    simp [hmigrating.swept (by simp [hresolved]) n hn] at hG
  obtain ⟨j, hj, rfl⟩ := List.mem_map.mp hmem
  have hsettled := h.settled hs hresolved hj
  cases j with
  | definition d =>
    obtain ⟨hd, hservice⟩ := (hmigrating.definitions d).mp hj
    exact absurd rfl (hnone d hd hservice)
  | leftover G' =>
    obtain rfl : G' = G := by
      generalize actives C w.graphs (Job.leftover G').name = acts at hsettled
      cases hsettled with
      | ended _ hG' => exact Option.some.inj (hG'.2.symm.trans hG)
    exact hsettled

/-- `G` was cancelled and then deleted, and is gone. -/
structure Removed (w : ServiceGraphs) (G : ServiceGraphObject) : Prop where
  ordered : [.deleted G.instanceId, .cancelled G.instanceId].Sublist w.log
  gone : ∀ H ∈ w.graphs, H.instanceId ≠ G.instanceId

theorem Erased.removed {G : ServiceGraphObject} (h : Erased w)
    (hlog : [.deleted G.instanceId, .cancelled G.instanceId].Sublist w.log) : Removed w G :=
  ⟨hlog, (h G.instanceId (hlog.subset List.mem_cons_self)).2⟩

/-- `G` is the one active graph of the name of `d`, and runs `d`. -/
structure Migrated (C : GraphStates) (graphs : List ServiceGraphObject) (w : ServiceGraphs)
    (d : GraphDefinition) (G : ServiceGraphObject) : Prop where
  single : actives C w.graphs d.injectableName = [G]
  definition : G.definition = d
  kept : ∀ G₀ ∈ actives C graphs d.injectableName, G₀.definition = d → G = G₀
  replaced : ∀ G₀ ∈ actives C graphs d.injectableName, G₀.definition ≠ d → Removed w G₀ ∧
    [.created G.instanceId, .deleted G₀.instanceId, .cancelled G₀.instanceId].Sublist w.log

theorem actives_eq_singleton {G : ServiceGraphObject} {n : String}
    (hids : (graphs.map ServiceGraphObject.instanceId).Nodup) (hunique : NoDuplicates C graphs)
    (hG : G ∈ actives C graphs n) : actives C graphs n = [G] := by
  have hsame : ∀ H ∈ actives C graphs n, H = G := by
    intro H hH
    obtain ⟨hHmem, hHactive, hHname⟩ := mem_actives.mp hH
    obtain ⟨hGmem, hGactive, hGname⟩ := mem_actives.mp hG
    have hid := hunique H hHmem G hGmem hHactive hGactive (hHname.trans hGname.symm)
    exact List.inj_on_of_nodup_map hids hHmem hGmem hid
  have hnodup : (actives C graphs n).Nodup := hids.of_map.sublist List.filter_sublist
  generalize actives C graphs n = acts at hG hsame hnodup
  match acts with
  | [] => simp at hG
  | [H] => rw [hsame H List.mem_cons_self]
  | H :: H' :: acts =>
    have heq : H = H' := (hsame H (by simp)).trans (hsame H' (by simp)).symm
    simp [heq] at hnodup

/-- Once a start that was alone has resolved, every service definition has one
active graph and every active graph without one has been removed. -/
theorem serviceGraphs_migrated (C : GraphStates) (defs : GraphDefinitions) (graphs : List ServiceGraphObject)
    (hids : (graphs.map ServiceGraphObject.instanceId).Nodup) (hunique : NoDuplicates C graphs) (s : StartId)
    (es : List ServiceEvent) (hes : ∀ e ∈ es, e.start? = some s) {w : ServiceGraphs} {S : ServiceStart}
    (hrun : Lts.exec (step C) (start defs graphs) es = some w) (hs : w.starts s = some S)
    (hresolved : S.phase = .resolved) :
    (∀ d ∈ defs.list, d.serviceGraph = true → ∃ G, Migrated C graphs w d G) ∧
      ∀ G₀ ∈ graphs, C.active G₀ = true →
        (∀ d ∈ defs.list, d.serviceGraph = true → d.injectableName ≠ G₀.injectableName) → Removed w G₀ := by
  have halone := alone_run hids hes hrun
  have hfound : ∀ n G, (C.groups graphs).running.lookup n = some G → actives C graphs n = [G] := by
    intro n G hG
    obtain ⟨hmem, hname, hactive⟩ := groups_running hG
    exact actives_eq_singleton hids hunique (mem_actives.mpr ⟨hmem, hactive, hname⟩)
  constructor
  · intro d hd hservice
    have hj := ((halone.migrating hs hresolved).definitions d).mpr ⟨hd, hservice⟩
    have hsettled := halone.settled hs hresolved hj
    generalize hacts : actives C w.graphs (Job.definition d).name = acts at hsettled
    cases hsettled with
    | kept _ G hG hsame =>
      have hone := hfound _ G hG
      refine ⟨G, hacts.trans hone, hsame, fun G₀ hG₀ _ => ?_, fun G₀ hG₀ hne => ?_⟩
      · exact (List.mem_singleton.mp (hone ▸ hG₀)).symm
      · exact absurd (List.mem_singleton.mp (hone ▸ hG₀) ▸ hsame) hne
    | created _ k hnone =>
      have hnil := actives_eq_nil hnone
      rw [hnil] at hacts
      exact ⟨_, hacts, rfl, by simp [hnil], by simp [hnil]⟩
    | replaced _ k G h hlog =>
      have hone := hfound _ G h.1
      rw [hone] at hacts
      refine ⟨⟨k, d.injectableName, d, .running⟩, hacts.trans (by simp [without]), rfl, fun G₀ hG₀ heq => ?_,
        fun G₀ hG₀ _ => ?_⟩
      · exact absurd (List.mem_singleton.mp (hone ▸ hG₀) ▸ heq) h.2
      · obtain rfl := List.mem_singleton.mp (hone ▸ hG₀)
        exact ⟨halone.erased.removed ((List.sublist_cons_self _ _).trans hlog), hlog⟩
  · intro G₀ hG₀ hactive hnone
    have hmem : G₀ ∈ actives C graphs G₀.injectableName := mem_actives.mpr ⟨hG₀, hactive, rfl⟩
    cases hlookup : (C.groups graphs).running.lookup G₀.injectableName with
    | none => simp [actives_eq_nil hlookup] at hmem
    | some G =>
      obtain rfl := List.mem_singleton.mp (hfound _ G hlookup ▸ hmem)
      have hsettled := halone.ended hs hresolved hlookup hnone
      generalize actives C w.graphs G₀.injectableName = acts at hsettled
      cases hsettled with
      | ended _ _ hlog => exact halone.erased.removed hlog

end ServiceGraphs

/-- One definition is unchanged, one has changed and one is gone. -/
def GraphDefinitions.pollers : GraphDefinitions where
  list := [⟨"Ipmi", true, "v1"⟩, ⟨"Snmp", true, "v2"⟩, ⟨"Discovery", false, "v1"⟩]
  distinct := by decide

def runningPollers : List ServiceGraphObject :=
  [⟨0, "Ipmi", ⟨"Ipmi", true, "v1"⟩, .running⟩, ⟨1, "Snmp", ⟨"Snmp", true, "v1"⟩, .running⟩,
    ⟨2, "Wsman", ⟨"Wsman", true, "v1"⟩, .running⟩]

/-- Both branches of the start and then its sweep, one call after the other. -/
def pollerMigration : List ServiceEvent :=
  [.start 0, .getGraphDefinitions 0, .getServiceGraphs 0, .spread 0, .map 0 1, .map 0 0, .execute 0 1, .reply 0 1,
    .execute 0 1, .reply 0 1, .execute 0 1, .reply 0 1, .sweep 0, .execute 0 2, .reply 0 2, .execute 0 2,
    .reply 0 2, .finish 0]

namespace ServiceGraphs

theorem serviceGraphs_migrated_pollers : ∃ w,
    Lts.exec (step .sample) (start .pollers runningPollers) pollerMigration = some w ∧
    (∀ d ∈ GraphDefinitions.pollers.list, d.serviceGraph = true → ∃ G, Migrated .sample runningPollers w d G) ∧
    Removed w ⟨2, "Wsman", ⟨"Wsman", true, "v1"⟩, .running⟩ := by
  have hmap : (Lts.exec (step .sample) (start .pollers runningPollers) pollerMigration).bind
      (fun w => (w.starts 0).map ServiceStart.phase) = some .resolved := by decide
  obtain ⟨w, hrun, hstart⟩ := Option.bind_eq_some_iff.mp hmap
  obtain ⟨S, hs, hresolved⟩ := Option.map_eq_some_iff.mp hstart
  have hmigrated := serviceGraphs_migrated .sample .pollers runningPollers (by decide)
    (by simp [NoDuplicates, runningPollers]) 0 pollerMigration (by decide) hrun hs hresolved
  exact ⟨w, hrun, hmigrated.1, hmigrated.2 _ (by decide) (by decide) (by decide)⟩

end ServiceGraphs

end OnTaskGraph
