import OnTaskGraph.ServiceMigration

/-! Duplicate service graphs. A start decides by what it has read; as long as
nothing of a name was created behind its back, it leaves one active graph. -/

namespace OnTaskGraph

/-- From here on the branch needs that no active graph of its name is left. -/
def BranchStage.clears : BranchStage → Bool
  | .called (.cancelTaskGraph _) => false
  | .called _ | .executed (.cancelTaskGraph _) | .executed (.deleteGraph _ _)
  | .rejected (some .createAndRunServiceGraph) => true
  | _ => false

/-- A graph is created only if every active one of its name was in the store
when the start read it. -/
def CreatesInformed (C : GraphStates) (w : ServiceGraphs) : ServiceEvent → ServiceGraphs → Prop
  | .execute s i, _ => ∀ S ∈ w.starts s, ∀ b ∈ S.branches[i]?, b.stage.pending = some .createAndRunServiceGraph →
    ∀ H ∈ w.graphs, C.active H = true → H.injectableName = b.job.name →
      ∃ L ∈ S.serviceGraphs, ∃ G ∈ L, G.instanceId = H.instanceId
  | _, _ => True

instance (C : GraphStates) (w w' : ServiceGraphs) (e : ServiceEvent) : Decidable (CreatesInformed C w e w') := by
  cases e <;> unfold CreatesInformed <;> infer_instance

namespace ServiceGraphs

variable {C : GraphStates}

/-- The active graphs of a name that the start has read are at most `g`. -/
def Only (C : GraphStates) (w : ServiceGraphs) (S : ServiceStart) (n : String) (g : GraphId) : Prop :=
  ∀ H ∈ w.graphs, C.active H = true → H.injectableName = n → ∀ G, S.Read G →
    G.instanceId = H.instanceId → H.instanceId = g

/-- No graph of a name that the start has read is active any more. -/
def Gone (C : GraphStates) (w : ServiceGraphs) (S : ServiceStart) (n : String) : Prop :=
  ∀ H ∈ w.graphs, C.active H = true → H.injectableName = n → ∀ G, S.Read G → G.instanceId ≠ H.instanceId

theorem Only.loses {w w' : ServiceGraphs} {S : ServiceStart} {n : String} {g : GraphId} (h : Only C w S n g)
    (hsound : Sound C w S) (hloses : Loses C w w') : Only C w' S n g := by
  rintro H' hH' hactive hname G ⟨L, hL, hG⟩ hid
  rcases hloses.graphs H' hH' with ⟨H, hH, _, _, _, hsame⟩ | hnew
  · obtain rfl := hsame hactive
    exact h H' hH hactive hname G ⟨L, hL, hG⟩ hid
  · exact absurd (hid ▸ hnew) (Nat.not_le.mpr (hsound.known L hL G hG).1)

theorem Gone.loses {w w' : ServiceGraphs} {S : ServiceStart} {n : String} (h : Gone C w S n)
    (hsound : Sound C w S) (hloses : Loses C w w') : Gone C w' S n := by
  rintro H' hH' hactive hname G ⟨L, hL, hG⟩ hid
  rcases hloses.graphs H' hH' with ⟨H, hH, _, _, _, hsame⟩ | hnew
  · obtain rfl := hsame hactive
    exact h H' hH hactive hname G ⟨L, hL, hG⟩ hid
  · exact absurd (hid ▸ hnew) (Nat.not_le.mpr (hsound.known L hL G hG).1)

/-- What a branch for the name `n` relies on until it has created its graph. -/
structure Watch (C : GraphStates) (w : ServiceGraphs) (S : ServiceStart) (n : String) (stage : BranchStage) :
    Prop where
  absent : stage = .waiting → S.groups.running.lookup n = none → Gone C w S n
  found : stage = .waiting → ∀ G, S.groups.running.lookup n = some G → Only C w S n G.instanceId
  cancelling : ∀ g, stage = .called (.cancelTaskGraph g) → Only C w S n g
  cleared : stage.clears = true → Gone C w S n

theorem Watch.loses {w w' : ServiceGraphs} {S : ServiceStart} {n : String} {stage : BranchStage}
    (h : Watch C w S n stage) (hsound : Sound C w S) (hloses : Loses C w w') : Watch C w' S n stage where
  absent hs hnone := (h.absent hs hnone).loses hsound hloses
  found hs G hG := (h.found hs G hG).loses hsound hloses
  cancelling g hg := (h.cancelling g hg).loses hsound hloses
  cleared hc := (h.cleared hc).loses hsound hloses

theorem Watch.tables {w : ServiceGraphs} {S S' : ServiceStart} {n : String} {stage : BranchStage}
    (h : Watch C w S n stage) (hread : S'.serviceGraphs = S.serviceGraphs)
    (hlookup : S'.groups.running.lookup n = S.groups.running.lookup n) : Watch C w S' n stage := by
  have hReads : ∀ G, S'.Read G ↔ S.Read G := fun G => by rw [ServiceStart.Read, hread, ServiceStart.Read]
  have honly : ∀ g, Only C w S n g → Only C w S' n g :=
    fun g hg H hH ha hn G hG => hg H hH ha hn G ((hReads G).mp hG)
  have hgone : Gone C w S n → Gone C w S' n := fun hg H hH ha hn G hG => hg H hH ha hn G ((hReads G).mp hG)
  exact ⟨fun hs hnone => hgone (h.absent hs (hlookup ▸ hnone)),
    fun hs G hG => honly _ (h.found hs G (hlookup ▸ hG)),
    fun g hg => honly g (h.cancelling g hg), fun hc => hgone (h.cleared hc)⟩

theorem Watch.done {w : ServiceGraphs} {S : ServiceStart} {n : String} {stage : BranchStage}
    (hwaiting : stage ≠ .waiting) (hcalled : ∀ c, stage ≠ .called c) (hclears : stage.clears = false) :
    Watch C w S n stage :=
  ⟨fun h => absurd h hwaiting, fun h => absurd h hwaiting, fun g h => absurd h (hcalled _), by simp [hclears]⟩

theorem Watch.of_gone {w : ServiceGraphs} {S : ServiceStart} {n : String} {stage : BranchStage}
    (hgone : Gone C w S n) (hwaiting : stage ≠ .waiting) (hcancel : ∀ g, stage ≠ .called (.cancelTaskGraph g)) :
    Watch C w S n stage :=
  ⟨fun h => absurd h hwaiting, fun h => absurd h hwaiting, fun g h => absurd h (hcancel g), fun _ => hgone⟩

def Watched (C : GraphStates) (w : ServiceGraphs) (S : ServiceStart) : Prop :=
  ∀ (i : Nat) (d : GraphDefinition) (stage : BranchStage),
    S.branches[i]? = some ⟨.definition d, stage⟩ → Watch C w S d.injectableName stage

/-- No duplicates, and every branch that may create a graph knows of those that
were active when its start read the store. -/
structure Unraced (C : GraphStates) (w : ServiceGraphs) : Prop where
  coherent : Coherent C w
  unique : NoDuplicates C w.graphs
  snapshots : ∀ s S, w.starts s = some S → ∀ L, S.serviceGraphs = some L → NoDuplicates C L
  branches : ∀ s S, w.starts s = some S → Watched C w S

theorem noDuplicates_perform {w : ServiceGraphs} {j : Job} {c : ServiceCall} (h : NoDuplicates C w.graphs)
    (hnew : c = .createAndRunServiceGraph → ∀ d, j = .definition d → ∀ H ∈ w.graphs, C.active H = true →
      H.injectableName ≠ d.injectableName) : NoDuplicates C (w.perform C j c).graphs := by
  -- an active document of a store that has only lost was there before
  have hold : ∀ w' : ServiceGraphs, (∀ H ∈ w'.graphs, C.active H = true → H ∈ w.graphs) →
      NoDuplicates C w'.graphs := fun w' hsub G hG H hH haG haH => h G (hsub G hG haG) H (hsub H hH haH) haG haH
  cases c with
  | cancelTaskGraph g =>
    refine hold _ fun H' hH' ha => ?_
    obtain ⟨H, hH, rfl⟩ := List.mem_map.mp (show H' ∈ (w.cancelTaskGraph C g).graphs from hH')
    split_ifs at ha ⊢
    · simp [active_cancelled] at ha
    · exact hH
  | deleteGraph g table => exact hold _ fun H hH _ => List.mem_of_mem_filter hH
  | createAndRunServiceGraph =>
    cases j with
    | leftover G => exact h
    | definition d =>
      have hname := hnew rfl d rfl
      intro G hG H hH haG haH heq
      rcases List.mem_append.mp (show G ∈ w.graphs ++ [_] from hG) with hG | hG <;>
        rcases List.mem_append.mp (show H ∈ w.graphs ++ [_] from hH) with hH | hH
      · exact h G hG H hH haG haH heq
      · rw [List.mem_singleton] at hH
        exact absurd (heq.trans (congrArg _ hH)) (hname G hG haG)
      · rw [List.mem_singleton] at hG
        exact absurd (heq.symm.trans (congrArg _ hG)) (hname H hH haH)
      · rw [List.mem_singleton] at hG hH
        rw [hG, hH]

theorem Watched.setBranch {w : ServiceGraphs} {S : ServiceStart} {i : Nat} {b : Branch}
    {next : Groups × BranchStage} (h : Watched C w S) (hsound : Sound C w S) (hi : S.branches[i]? = some b)
    (htable : next.1.running = S.groups.running ∨
      ∃ d, b.job = .definition d ∧ next.1.running = S.groups.running.erase d.injectableName)
    (hnew : ∀ d, b.job = .definition d → Watch C w (S.setBranch i b next) d.injectableName next.2) :
    Watched C w (S.setBranch i b next) := by
  intro j d stage hj
  by_cases hij : i = j
  · subst hij
    have hlt : i < S.branches.length := (List.getElem?_eq_some_iff.mp hi).1
    have hb : ({ b with stage := next.2 } : Branch) = ⟨.definition d, stage⟩ := by
      simpa [ServiceStart.setBranch, List.getElem?_set_self hlt] using hj
    have hjob : b.job = .definition d := congrArg Branch.job hb
    have hstage : next.2 = stage := congrArg Branch.stage hb
    exact hstage ▸ hnew d hjob
  · have hold : S.branches[j]? = some ⟨.definition d, stage⟩ := by
      simpa [ServiceStart.setBranch, List.getElem?_set_ne hij] using hj
    refine (h j d stage hold).tables rfl ?_
    show next.1.running.lookup d.injectableName = _
    rcases htable with hsame | ⟨d', hd', herase⟩
    · rw [hsame]
    · have hne := hsound.apart hi hold hij d' d hd' rfl
      rw [herase, AList.lookup_erase_ne hne.symm]

theorem Watched.spread {w : ServiceGraphs} {S : ServiceStart} {ds : List GraphDefinition}
    {L : List ServiceGraphObject} (hL : S.serviceGraphs = some L) (hknown : Known C w L)
    (hunique : NoDuplicates C L) : Watched C w (S.migrateAll C ds L) := by
  have hread : ∀ G, (S.migrateAll C ds L).Read G → G ∈ L := by
    rintro G ⟨L', hL', hG⟩
    obtain rfl : L = L' := Option.some.inj (hL.symm.trans hL')
    exact hG
  intro i d stage hi
  have hmem := List.mem_of_getElem? hi
  obtain ⟨d', _, hd'⟩ := List.mem_map.mp hmem
  obtain rfl : BranchStage.waiting = stage := congrArg Branch.stage hd'
  refine ⟨fun _ hnone H hH ha hn G hG hid => ?_, fun _ G₀ hG₀ H hH ha hn G hG hid => ?_, by simp,
    by simp [BranchStage.clears]⟩
  · obtain ⟨hname, _, hactive⟩ := (hknown G (hread G hG)).2 H hH hid.symm
    exact groups_none hnone G (hread G hG) (hactive ha) (hname.symm.trans hn)
  · obtain ⟨hname, _, hactive⟩ := (hknown G (hread G hG)).2 H hH hid.symm
    obtain ⟨hmem₀, hname₀, hactive₀⟩ := groups_running hG₀
    have hsame := hunique G (hread G hG) G₀ hmem₀ (hactive ha) hactive₀
      ((hname.symm.trans hn).trans hname₀.symm)
    exact hid.symm.trans hsame

theorem Watched.migrate {w : ServiceGraphs} {S : ServiceStart} {i : Nat} {d : GraphDefinition}
    (h : Watched C w S) (hsound : Sound C w S) (hi : S.branches[i]? = some ⟨.definition d, .waiting⟩) :
    Watched C w (S.setBranch i ⟨.definition d, .waiting⟩ (S.groups.migrate d)) := by
  have hwatch := h i d .waiting hi
  unfold Groups.migrate
  split
  · rename_i G hG
    split_ifs
    · refine h.setBranch hsound hi (Or.inl rfl) fun d' hd' => ?_
      obtain rfl := Job.definition.inj hd'
      exact ⟨by simp, by simp, fun g hg => by
        obtain rfl : G.instanceId = g := by simpa using hg
        exact hwatch.found rfl G hG, by simp [BranchStage.clears]⟩
    · exact h.setBranch hsound hi (Or.inr ⟨d, rfl, rfl⟩) fun d' hd' => .done (by simp) (by simp) rfl
  · rename_i hnone
    have hgone := hwatch.absent rfl hnone
    split
    · refine h.setBranch hsound hi (Or.inl rfl) fun d' hd' => ?_
      obtain rfl := Job.definition.inj hd'
      exact .of_gone hgone (by simp) (by simp)
    · refine h.setBranch hsound hi (Or.inr ⟨d, rfl, rfl⟩) fun d' hd' => ?_
      obtain rfl := Job.definition.inj hd'
      exact .of_gone hgone (by simp) (by simp)

theorem Watched.proceed {w : ServiceGraphs} {S : ServiceStart} {i : Nat} {b : Branch} {c : ServiceCall}
    (h : Watched C w S) (hsound : Sound C w S) (hi : S.branches[i]? = some b) (hb : b.stage = .executed c) :
    Watched C w (S.setBranch i b (S.groups.proceed b.job c)) := by
  have hwatch : ∀ d, b.job = .definition d → Watch C w S d.injectableName (.executed c) := by
    intro d hd
    refine h i d _ ?_
    rw [hi, ← hd, ← hb]
  unfold Groups.proceed
  split
  · rename_i d g hd
    have hgone := (hwatch d hd).cleared rfl
    split
    · refine h.setBranch hsound hi (Or.inl rfl) fun d' hd' => ?_
      obtain rfl := Job.definition.inj (hd.symm.trans hd')
      exact .of_gone hgone (by simp) (by simp)
    · exact h.setBranch hsound hi (Or.inl rfl) fun d' hd' => .done (by simp) (by simp) rfl
  · rename_i d g hd
    have hgone := (hwatch d hd).cleared rfl
    refine h.setBranch hsound hi (Or.inr ⟨d, hd, rfl⟩) fun d' hd' => ?_
    obtain rfl := Job.definition.inj (hd.symm.trans hd')
    exact .of_gone hgone (by simp) (by simp)
  · rename_i d g hd
    have hgone := (hwatch d hd).cleared rfl
    refine h.setBranch hsound hi (Or.inl rfl) fun d' hd' => ?_
    obtain rfl := Job.definition.inj (hd.symm.trans hd')
    exact .of_gone hgone (by simp) (by simp)
  · rename_i G g hG
    exact h.setBranch hsound hi (Or.inl rfl) fun d hd => by simp [hG] at hd
  · exact h.setBranch hsound hi (Or.inl rfl) fun d hd => .done (by simp) (by simp) rfl

theorem Watched.reject {w : ServiceGraphs} {S : ServiceStart} {i : Nat} {b : Branch} (h : Watched C w S)
    (hsound : Sound C w S) (hi : S.branches[i]? = some b) :
    Watched C w (S.setBranch i b (S.groups, .rejected b.stage.pending)) := by
  refine h.setBranch hsound hi (Or.inl rfl) fun d hd => ?_
  have hwatch : Watch C w S d.injectableName b.stage := by
    refine h i d _ ?_
    rw [hi, ← hd]
  have hclears : (BranchStage.rejected b.stage.pending).clears = true → b.stage.clears = true := by
    cases hs : b.stage with
    | called c => cases c <;> simp [BranchStage.pending, BranchStage.clears]
    | rejected late => simp [BranchStage.pending]
    | waiting | executed | resolved => simp [BranchStage.pending, BranchStage.clears]
  exact ⟨by simp, by simp, by simp, fun hc => hwatch.cleared (hclears hc)⟩

theorem Watched.control {w : ServiceGraphs} {S S' : ServiceStart} (h : Watched C w S) (hsound : Sound C w S)
    (hunique : ∀ L, S.serviceGraphs = some L → NoDuplicates C L) (hcontrol : Control C w S S') :
    Watched C w S' := by
  cases hcontrol with
  | getGraphDefinitions hphase | getServiceGraphs hphase =>
    intro i d stage hi
    simp [hsound.idle hphase] at hi
  | spread ds L _ _ hL => exact .spread hL (hsound.known L hL) (hunique L hL)
  | map i d hi => exact h.migrate hsound hi
  | reply i b c hi hb => exact h.proceed hsound hi hb
  | reject i b hi => exact h.reject hsound hi
  | sweep =>
    intro i d stage hi
    have hold : S.branches[i]? = some ⟨.definition d, stage⟩ := by
      rw [ServiceStart.sweep, List.getElem?_append] at hi
      split_ifs at hi
      · exact hi
      · obtain ⟨x, _, hx⟩ := List.mem_map.mp (List.mem_of_getElem? hi)
        simp at hx
    exact (h i d stage hold).tables rfl rfl
  | finish => exact fun i d stage hi => (h i d stage hi).tables rfl rfl

theorem Watched.loses {w w' : ServiceGraphs} {S : ServiceStart} (h : Watched C w S) (hsound : Sound C w S)
    (hloses : Loses C w w') : Watched C w' S :=
  fun i d stage hi => (h i d stage hi).loses hsound hloses

/-- The graph that a branch found was the only one that its start had read. -/
theorem Only.cancelled {w : ServiceGraphs} {S : ServiceStart} {n : String} {g : GraphId} (h : Only C w S n g) :
    Gone C (w.cancelTaskGraph C g) S n := by
  intro H' hH' ha hname G hG hid
  obtain ⟨H, hH, rfl⟩ := List.mem_map.mp (show H' ∈ (w.cancelTaskGraph C g).graphs from hH')
  split_ifs at ha hname hid with hcancel
  · simp [active_cancelled] at ha
  · exact hcancel ⟨h H hH ha hname G hG hid, ha⟩

theorem Watched.execute {w : ServiceGraphs} {S : ServiceStart} {i : Nat} {b : Branch} {c : ServiceCall}
    (h : Watched C w S) (hsound : Sound C w S) (hi : S.branches[i]? = some b)
    (hb : b.stage.pending = some c) :
    Watched C (w.perform C b.job c) (S.setBranch i b (S.groups, b.stage.performed c)) := by
  have hloses := perform_loses (C := C) w b.job c
  refine (h.loses hsound hloses).setBranch (hsound.loses hloses) hi (Or.inl rfl) fun d hd => ?_
  have hwatch : Watch C w S d.injectableName b.stage := by
    refine h i d _ ?_
    rw [hi, ← hd]
  cases hstage : b.stage with
  | called c' =>
    obtain rfl : c' = c := by simpa [hstage, BranchStage.pending] using hb
    cases c' with
    | cancelTaskGraph g =>
      have hgone := (hwatch.cancelling g hstage).cancelled
      exact .of_gone hgone (by simp [BranchStage.performed]) (by simp [BranchStage.performed])
    | deleteGraph g table =>
      have hgone := (hwatch.cleared (by simp [hstage, BranchStage.clears])).loses hsound hloses
      exact .of_gone hgone (by simp [BranchStage.performed]) (by simp [BranchStage.performed])
    | createAndRunServiceGraph =>
      exact .done (by simp [BranchStage.performed]) (by simp [BranchStage.performed]) rfl
  | waiting | executed | resolved | rejected =>
    exact .done (by simp [BranchStage.performed]) (by simp [BranchStage.performed]) rfl

theorem Unraced.setStart {w : ServiceGraphs} {s : StartId} {S : ServiceStart} (h : Unraced C w)
    (hS : Sound C w S) (hsnapshot : ∀ L, S.serviceGraphs = some L → NoDuplicates C L)
    (hwatched : Watched C w S) : Unraced C (w.setStart s S) := by
  have hloses : Loses C w (w.setStart s S) := .of_eq rfl rfl
  refine ⟨h.coherent.setStart hS, h.unique, fun t T ht => ?_, fun t T ht => ?_⟩
  · rw [setStart_starts] at ht
    split_ifs at ht
    · exact Option.some.inj ht ▸ hsnapshot
    · exact h.snapshots t T ht
  · rw [setStart_starts] at ht
    split_ifs at ht
    · exact Option.some.inj ht ▸ hwatched.loses hS hloses
    · exact (h.branches t T ht).loses (h.coherent.sound t T ht) hloses

theorem Unraced.change {w w' : ServiceGraphs} {e : ServiceEvent} (h : Unraced C w) (hchange : Change C w e w')
    (hcreates : CreatesInformed C w e w') : Unraced C w' := by
  cases hchange with
  | load ds =>
    refine ⟨h.coherent.change (.load ds), h.unique, h.snapshots, fun s S hs => ?_⟩
    exact (h.branches s S hs).loses (h.coherent.sound s S hs) (.of_eq rfl rfl)
  | start s hs =>
    refine h.setStart ?_ (by simp [ServiceStart.new]) fun i d stage hi => by simp [ServiceStart.new] at hi
    constructor <;> simp [ServiceStart.new, ServiceStart.jobs]
  | control s S S' hs he hcontrol =>
    have hsound := h.coherent.sound s S hs
    have hsnapshot := h.snapshots s S hs
    refine h.setStart (hsound.control h.coherent.identified hcontrol) ?_
      ((h.branches s S hs).control hsound hsnapshot hcontrol)
    cases hcontrol with
    | getServiceGraphs => exact fun L hL => Option.some.inj hL ▸ h.unique
    | getGraphDefinitions | spread | map | reply | reject | sweep | finish => exact hsnapshot
  | execute s i S b c hs hi hb =>
    have hsound := h.coherent.sound s S hs
    have hloses := perform_loses (C := C) w b.job c
    have hperform : Unraced C (w.perform C b.job c) := by
      refine ⟨⟨h.coherent.identified.perform b.job c, fun t T ht => ?_⟩, noDuplicates_perform h.unique ?_,
        fun t T ht => ?_, fun t T ht => ?_⟩
      · rw [perform_starts] at ht
        exact (h.coherent.sound t T ht).loses hloses
      · -- nothing that the start has read is active, and by the condition it has read all there is
        rintro rfl d hd H hH ha hname
        obtain ⟨L, hL, G, hG, hid⟩ := hcreates S hs b hi hb H hH ha (by rw [hd]; exact hname)
        have hwatch : Watch C w S d.injectableName b.stage := by
          refine h.branches s S hs i d _ ?_
          rw [hi, ← hd]
        have hclears : b.stage.clears = true := by
          cases hstage : b.stage <;> simp_all [BranchStage.pending, BranchStage.clears]
        exact hwatch.cleared hclears H hH ha hname G ⟨L, hL, hG⟩ hid
      · rw [perform_starts] at ht
        exact h.snapshots t T ht
      · rw [perform_starts] at ht
        exact (h.branches t T ht).loses (h.coherent.sound t T ht) hloses
    exact hperform.setStart (hsound.execute hi hb) (h.snapshots s S hs)
      ((h.branches s S hs).execute hsound hi hb)

theorem Unraced.start (ds : GraphDefinitions) {graphs : List ServiceGraphObject}
    (hids : (graphs.map ServiceGraphObject.instanceId).Nodup) (hunique : NoDuplicates C graphs) :
    Unraced C (start ds graphs) :=
  ⟨.start ds hids, hunique, by simp [ServiceGraphs.start], by simp [ServiceGraphs.start]⟩

theorem unraced_run {w w' : ServiceGraphs} {es : List ServiceEvent} (h : Unraced C w)
    (hcreates : Lts.Along (step C) (CreatesInformed C) w es) (hrun : Lts.exec (step C) w es = some w') :
    Unraced C w' :=
  hcreates.invariant (Unraced C) (fun _ _ _ hstep hinformed hw => hw.change (step_change hstep) hinformed) h hrun

/-! Duplicates that a start finds: one of them is in its table, and it is blind
for the others. -/

section Duplicates

variable {defs : GraphDefinitions} {graphs : List ServiceGraphObject} {s : StartId} {w : ServiceGraphs}
  {S : ServiceStart} {n : String}

theorem length_without {G : ServiceGraphObject} (hids : (graphs.map ServiceGraphObject.instanceId).Nodup)
    (hG : G ∈ actives C graphs n) :
    (without G.instanceId (actives C graphs n)).length + 1 = (actives C graphs n).length := by
  have hnodup : (actives C graphs n).Nodup := hids.of_map.sublist List.filter_sublist
  have hothers : without G.instanceId (actives C graphs n) = (actives C graphs n).erase G := by
    rw [hnodup.erase_eq_filter]
    refine List.filter_congr fun H hH => ?_
    have hsame : H.instanceId = G.instanceId ↔ H = G :=
      ⟨List.inj_on_of_nodup_map hids (mem_actives.mp hH).1 (mem_actives.mp hG).1, congrArg _⟩
    rw [Bool.eq_iff_iff]
    simp [hsame]
  have hpos : 0 < (actives C graphs n).length := List.length_pos_of_mem hG
  rw [hothers, List.length_erase_of_mem hG]
  omega

theorem Alone.count_of_definition (h : Alone C defs graphs s w) (hs : w.starts s = some S)
    (hresolved : S.phase = .resolved) (hids : (graphs.map ServiceGraphObject.instanceId).Nodup)
    (hsome : actives C graphs n ≠ []) {d : GraphDefinition} (hd : d ∈ defs.list)
    (hservice : d.serviceGraph = true)
    (hname : d.injectableName = n) : (actives C w.graphs n).length = (actives C graphs n).length := by
  subst hname
  have hj := ((h.migrating hs hresolved).definitions d).mpr ⟨hd, hservice⟩
  have hsettled := h.settled hs hresolved hj
  generalize hacts : actives C w.graphs (Job.definition d).name = acts at hsettled
  cases hsettled with
  | kept _ G => exact congrArg List.length hacts
  | created _ k hnone => exact absurd (actives_eq_nil hnone) hsome
  | replaced _ k G hG =>
    obtain ⟨hmem, hname, hactive⟩ := groups_running hG.1
    have hlength := length_without hids (mem_actives.mpr ⟨hmem, hactive, hname⟩)
    have hnow := congrArg List.length hacts
    rw [List.length_append, List.length_singleton] at hnow
    exact hnow.trans hlength

theorem Alone.count_of_leftover (h : Alone C defs graphs s w) (hs : w.starts s = some S)
    (hresolved : S.phase = .resolved) (hids : (graphs.map ServiceGraphObject.instanceId).Nodup)
    (hsome : actives C graphs n ≠ [])
    (hnone : ∀ d ∈ defs.list, d.serviceGraph = true → d.injectableName ≠ n) :
    (actives C w.graphs n).length + 1 = (actives C graphs n).length := by
  cases hlookup : (C.groups graphs).running.lookup n with
  | none => exact absurd (actives_eq_nil hlookup) hsome
  | some G =>
    obtain ⟨hmem, hname, hactive⟩ := groups_running hlookup
    have hsettled := h.ended hs hresolved hlookup hnone
    generalize actives C w.graphs n = acts at hsettled ⊢
    cases hsettled with
    | ended _ _ hlog =>
      rw [hname]
      exact length_without hids (mem_actives.mpr ⟨hmem, hactive, hname⟩)

end Duplicates

/-- No duplicates arise as long as graphs are created by starts that have read
all active ones of the name, and of duplicates that a start finds it leaves
one if there were two and nothing defines them. -/
theorem noDuplicates_informed (C : GraphStates) (defs : GraphDefinitions) (graphs : List ServiceGraphObject)
    (hids : (graphs.map ServiceGraphObject.instanceId).Nodup) :
    (NoDuplicates C graphs → ∀ es w, Lts.Along (step C) (CreatesInformed C) (start defs graphs) es →
      Lts.exec (step C) (start defs graphs) es = some w → NoDuplicates C w.graphs) ∧
    ∀ s es w S n, (∀ e ∈ es, e.start? = some s) → Lts.exec (step C) (start defs graphs) es = some w →
      w.starts s = some S → S.phase = .resolved → 2 ≤ (actives C graphs n).length →
      ((actives C w.graphs n).length = 1 ↔ (actives C graphs n).length = 2 ∧
        ∀ d ∈ defs.list, d.serviceGraph = true → d.injectableName ≠ n) := by
  refine ⟨fun hunique es w hinformed hrun => (unraced_run (.start defs hids hunique) hinformed hrun).unique, ?_⟩
  intro s es w S n hes hrun hs hresolved htwo
  have halone := alone_run hids hes hrun
  have hsome : actives C graphs n ≠ [] := List.ne_nil_of_length_pos (by omega)
  by_cases hnone : ∀ d ∈ defs.list, d.serviceGraph = true → d.injectableName ≠ n
  · have hcount := halone.count_of_leftover hs hresolved hids hsome hnone
    refine ⟨fun hone => ⟨by omega, hnone⟩, fun hend => ?_⟩
    have hold := hend.1
    omega
  · obtain ⟨d, hd, hservice, hname⟩ : ∃ d ∈ defs.list, d.serviceGraph = true ∧ d.injectableName = n := by
      simpa using hnone
    have hcount := halone.count_of_definition hs hresolved hids hsome hd hservice hname
    refine ⟨fun hone => ?_, fun hend => absurd hname (hend.2 d hd hservice)⟩
    omega

end ServiceGraphs

def GraphDefinitions.single : GraphDefinitions where
  list := [⟨"Ipmi", true, "v1"⟩]
  distinct := by decide

/-- A start up to the mapper of its one definition. -/
def mapOne (s : StartId) : List ServiceEvent :=
  [.start s, .getGraphDefinitions s, .getServiceGraphs s, .spread s, .map s 0]

/-- One call of one branch, and its answer. -/
def callOne (s : StartId) (i : Nat) : List ServiceEvent := [.execute s i, .reply s i]

def twoGraphs (d : GraphDefinition) : List ServiceGraphObject :=
  [⟨0, d.injectableName, d, .running⟩, ⟨1, d.injectableName, d, .running⟩]

/-- The start on two graphs that nothing defines. -/
def leaveOne : List ServiceEvent :=
  mapOne 0 ++ callOne 0 0 ++ [.sweep 0] ++ callOne 0 1 ++ callOne 0 1 ++ [.finish 0]

/-- The second start reads the store after the first one has created its graph. -/
def oneByOne : List ServiceEvent :=
  mapOne 0 ++ callOne 0 0 ++ [.sweep 0, .finish 0] ++ mapOne 1 ++ [.sweep 1, .finish 1]

/-- Both starts read the store before one of them creates its graph. -/
def sideBySide : List ServiceEvent :=
  mapOne 0 ++ mapOne 1 ++ callOne 0 0 ++ callOne 1 0 ++ [.sweep 0, .finish 0, .sweep 1, .finish 1]

namespace ServiceGraphs

theorem noDuplicates_informed_single :
    (∃ w, Lts.exec (step .sample) (start .single []) oneByOne = some w ∧ NoDuplicates .sample w.graphs) ∧
    ∃ w, Lts.exec (step .sample) (start .single (twoGraphs ⟨"Wsman", true, "v1"⟩)) leaveOne = some w ∧
      (actives .sample w.graphs "Wsman").length = 1 := by
  constructor
  · have hsome : (Lts.exec (step .sample) (start .single []) oneByOne).isSome = true := by decide
    obtain ⟨w, hrun⟩ := Option.isSome_iff_exists.mp hsome
    have hunique := (noDuplicates_informed .sample .single [] (by decide)).1 (by simp [NoDuplicates]) oneByOne w
      (by decide) hrun
    exact ⟨w, hrun, hunique⟩
  · have hmap : (Lts.exec (step .sample) (start .single (twoGraphs ⟨"Wsman", true, "v1"⟩)) leaveOne).bind
        (fun w => (w.starts 0).map ServiceStart.phase) = some .resolved := by decide
    obtain ⟨w, hrun, hstart⟩ := Option.bind_eq_some_iff.mp hmap
    obtain ⟨S, hs, hresolved⟩ := Option.map_eq_some_iff.mp hstart
    have hcount := (noDuplicates_informed .sample .single (twoGraphs ⟨"Wsman", true, "v1"⟩) (by decide)).2 0
      leaveOne w S "Wsman" (by decide) hrun hs hresolved (by decide)
    exact ⟨w, hrun, hcount.mpr (by decide)⟩

/-- Two starts that both find the store empty create a graph each, and a start
that finds two graphs of its definition leaves both. -/
theorem duplicates_created :
    (∃ w, Lts.exec (step .sample) (start .single []) sideBySide = some w ∧
      (∀ s ∈ [0, 1], (w.starts s).map ServiceStart.phase = some .resolved) ∧ ¬ NoDuplicates .sample w.graphs) ∧
    ∃ w, Lts.exec (step .sample) (start .single (twoGraphs ⟨"Ipmi", true, "v1"⟩))
        (mapOne 0 ++ [.sweep 0, .finish 0]) = some w ∧
      (w.starts 0).map ServiceStart.phase = some .resolved ∧ (actives .sample w.graphs "Ipmi").length = 2 := by
  constructor
  · have hmap : (Lts.exec (step .sample) (start .single []) sideBySide).map
        (fun w => ([0, 1].map fun s => (w.starts s).map ServiceStart.phase, w.graphs)) =
        some ([some .resolved, some .resolved], twoGraphs ⟨"Ipmi", true, "v1"⟩) := by decide
    obtain ⟨w, hrun, hend⟩ := Option.map_eq_some_iff.mp hmap
    obtain ⟨hphases, hgraphs⟩ := Prod.mk.inj hend
    refine ⟨w, hrun, by simpa using hphases, fun hunique => ?_⟩
    have hsame := hunique ⟨0, "Ipmi", ⟨"Ipmi", true, "v1"⟩, .running⟩ (by rw [hgraphs]; decide)
      ⟨1, "Ipmi", ⟨"Ipmi", true, "v1"⟩, .running⟩ (by rw [hgraphs]; decide) (by decide) (by decide) rfl
    exact absurd hsame (by decide)
  · have hmap : (Lts.exec (step .sample) (start .single (twoGraphs ⟨"Ipmi", true, "v1"⟩))
        (mapOne 0 ++ [.sweep 0, .finish 0])).map
        (fun w => ((w.starts 0).map ServiceStart.phase, (actives .sample w.graphs "Ipmi").length)) =
        some (some .resolved, 2) := by decide
    obtain ⟨w, hrun, hend⟩ := Option.map_eq_some_iff.mp hmap
    obtain ⟨hphase, hcount⟩ := Prod.mk.inj hend
    exact ⟨w, hrun, hphase, hcount⟩

end ServiceGraphs

end OnTaskGraph
