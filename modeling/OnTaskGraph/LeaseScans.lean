import OnTaskGraph.History
import OnTaskGraph.Leases

/-! Lease expiration. `findExpiredLeases` and the `expireLease` calls that follow
are separate calls of the store, so what a scan saw is what `expireLease` finds
only while nobody renews or is granted the lease in between. -/

namespace OnTaskGraph

open World

/-- A heartbeat or a checkout has written the lease of a task since a scan. -/
def TouchedSince (s : ScanId) (t : TaskId) (log : List Entry) : Prop :=
  ∃ x ∈ History.since (.scanned s) log, x = .renewed t ∨ ∃ r p, x = .granted r t p

/-- A poller clears a lease only if its last heartbeat is older than `leaseAdjust`. -/
def ClearsExpired (D : Deployment) (w : World) (a : Action) (_ : World) : Prop :=
  ∀ s i S d L, a = .expireLease s i → w.scans s = some S → D.document i = some d →
    w.lease d.taskId = some L → L.heartbeat + (D.poller S.poller).leaseAdjust < w.now

/-- An `expireLease` that finds a lease finds it as the scan did. -/
def ClearsUntouched (D : Deployment) (w : World) (a : Action) (_ : World) : Prop :=
  ∀ s i d, a = .expireLease s i → D.document i = some d → (w.lease d.taskId).isSome = true →
    ¬ TouchedSince s d.taskId w.log

namespace World

variable {D : Deployment} {w w' : World}

/-- What a scan has found and not cleared yet is expired, or touched since. -/
def Scanned (D : Deployment) (w : World) : Prop :=
  ∀ s i S d L, w.scans s = some S → S.pending i = true → D.document i = some d →
    w.lease d.taskId = some L →
      TouchedSince s d.taskId w.log ∨ L.heartbeat + (D.poller S.poller).leaseAdjust < w.now

theorem touchedSince_append {s : ScanId} {t : TaskId} {new log : List Entry}
    (hnew : .scanned s ∉ new) : TouchedSince s t (new ++ log) ↔
      (.renewed t ∈ new ∨ ∃ r p, .granted r t p ∈ new) ∨ TouchedSince s t log := by
  simp only [TouchedSince, History.mem_since_append hnew]
  constructor
  · rintro ⟨x, hx | hx, rfl | ⟨r, p, rfl⟩⟩
    · exact Or.inl (Or.inl hx)
    · exact Or.inl (Or.inr ⟨r, p, hx⟩)
    · exact Or.inr ⟨_, hx, Or.inl rfl⟩
    · exact Or.inr ⟨_, hx, Or.inr ⟨r, p, rfl⟩⟩
  · rintro ((hx | ⟨r, p, hx⟩) | ⟨x, hx, h⟩)
    · exact ⟨_, Or.inl hx, Or.inl rfl⟩
    · exact ⟨_, Or.inl hx, Or.inr ⟨r, p, rfl⟩⟩
    · exact ⟨x, Or.inr hx, h⟩

theorem Scanned.step (new : List Entry) (h : Scanned D w) (hlog : w'.log = new ++ w.log)
    (hmarker : ∀ s, .scanned s ∉ new) (hnow : w.now ≤ w'.now)
    (hscans : ∀ s S, w'.scans s = some S → ∃ S₀, w.scans s = some S₀ ∧ S₀.poller = S.poller ∧
      ∀ i, S.pending i = true → S₀.pending i = true)
    (hlease : ∀ i d L, D.document i = some d → w'.lease d.taskId = some L →
      w.lease d.taskId = some L ∨ .renewed d.taskId ∈ new ∨ ∃ r p, .granted r d.taskId p ∈ new) :
    Scanned D w' := by
  intro s i S d L hS hpending hd hL
  obtain ⟨S₀, hS₀, hpoller, hsub⟩ := hscans s S hS
  rw [hlog, touchedSince_append (hmarker s)]
  rcases hlease i d L hd hL with hold | hnew
  · rcases h s i S₀ d L hS₀ (hsub i hpending) hd hold with ht | hlt
    · exact Or.inl (Or.inr ht)
    · rw [hpoller] at hlt
      exact Or.inr (by omega)
  · exact Or.inl (Or.inl hnew)

theorem Scanned.of_quiet (new : List Entry) (h : Scanned D w) (hlog : w'.log = new ++ w.log)
    (hmarker : ∀ s, .scanned s ∉ new) (hnow : w'.now = w.now) (hscans : w'.scans = w.scans)
    (hlease : w'.lease = w.lease) : Scanned D w' :=
  h.step new hlog hmarker (by omega) (fun s S hS => ⟨S, hscans ▸ hS, rfl, fun _ hi => hi⟩)
    fun _ _ _ _ hL => Or.inl (hlease ▸ hL)

theorem Scanned.expire {i : DocId} (h : Scanned D w) : Scanned D (w.expire D i) := by
  rcases expire_cases (D := D) w i with heq | ⟨t, L, -, heq⟩
  · rw [heq]
    exact h
  · have hlog : (w.expire D i).log = [.expired t] ++ w.log := by
      rw [heq]
      rfl
    have hscans : (w.expire D i).scans = w.scans := by simp
    have hlease : ∀ u M, (w.expire D i).lease u = some M → w.lease u = some M := by
      intro u M hM
      by_cases hut : u = t
      · simp [heq, hut] at hM
      · simpa [heq, hut] using hM
    have hnow : w.now ≤ (w.expire D i).now := by rw [heq]
    exact h.step [.expired t] hlog (by simp) hnow (fun s S hS => ⟨S, hscans ▸ hS, rfl, fun _ hi => hi⟩)
      fun j d M _ hM => Or.inl (hlease d.taskId M hM)

theorem document_mem {i : DocId} {d : Document} (h : D.document i = some d) :
    d.taskId ∈ D.documents.map Document.taskId :=
  List.mem_map_of_mem (List.mem_of_find?_eq_some h)

theorem Scanned.renew {r : RunnerId} (h : Scanned D w) : Scanned D (w.renew D r) := by
  refine h.step _ rfl (by simp) (Nat.le_refl _) (fun s S hS => ⟨S, hS, rfl, fun _ hi => hi⟩) ?_
  intro i d L hd hL
  obtain ⟨M, hM, hML⟩ := Option.map_eq_some_iff.mp hL
  by_cases hr : M.runner = r
  · have hown : d.taskId ∈ w.ownTasks D r := by
      simp [ownTasks, holds, hM, hr, List.mem_filter, document_mem hd, -List.mem_map]
    exact Or.inr (Or.inl (List.mem_map_of_mem hown))
  · rw [if_neg hr] at hML
    exact Or.inl (hML ▸ hM)

theorem Scanned.scan {s : ScanId} {k : PollerId} (h : Scanned D w) :
    Scanned D ((w.setScan s ⟨k, w.expiredLease D (D.poller k)⟩).record (.scanned s)) := by
  intro q i S d L hS hpending hd hL
  by_cases hq : q = s
  · subst hq
    obtain rfl : ⟨k, w.expiredLease D (D.poller k)⟩ = S := by simpa [record, setScan] using hS
    have hL' : w.lease d.taskId = some L := hL
    right
    show L.heartbeat + (D.poller k).leaseAdjust < w.now
    simp only [expiredLease, hd, hL', Bool.and_eq_true, decide_eq_true_eq] at hpending
    exact hpending.2
  · have hS' : w.scans q = some S := by simpa [record, setScan, hq] using hS
    have hmarker : Entry.scanned q ∉ [Entry.scanned s] := by simp [hq]
    have htouched : TouchedSince q d.taskId ([Entry.scanned s] ++ w.log) ↔ _ := touchedSince_append hmarker
    rcases h q i S d L hS' hpending hd hL with ht | hlt
    · exact Or.inl (htouched.mpr (Or.inr ht))
    · exact Or.inr hlt

theorem Scanned.setDone {s : ScanId} {i : DocId} {S : Scan} (h : Scanned D w)
    (hS : w.scans s = some S) : Scanned D (w.setScan s (S.done i)) := by
  have hdone : ∀ j, (S.done i).pending j = true → S.pending j = true := by
    intro j hj
    by_cases hji : j = i
    · simp [Scan.done, hji] at hj
    · simpa [Scan.done, hji] using hj
  have hscans : ∀ q Q, (w.setScan s (S.done i)).scans q = some Q →
      ∃ S₀, w.scans q = some S₀ ∧ S₀.poller = Q.poller ∧ ∀ j, Q.pending j = true → S₀.pending j = true := by
    intro q Q hQ
    by_cases hq : q = s
    · subst hq
      obtain rfl : S.done i = Q := by simpa [setScan] using hQ
      exact ⟨S, hS, rfl, hdone⟩
    · exact ⟨Q, by simpa [setScan, hq] using hQ, rfl, fun _ hj => hj⟩
  exact h.step [] rfl (by simp) (Nat.le_refl _) hscans fun _ _ _ _ hL => Or.inl hL

theorem Scanned.change {a : Action} (h : Scanned D w) (hc : Change D w a w') : Scanned D w' := by
  have hrunner : ∀ r R, Scanned D (w.setRunner r R) := fun r R => h
  cases hc with
  | tick =>
    exact h.step [] rfl (by simp) (Nat.le_add_right _ _) (fun s S hS => ⟨S, hS, rfl, fun _ hi => hi⟩)
      fun _ _ _ _ hL => Or.inl hL
  | runner | refused | setTaskState => exact h
  | @started r t p R => exact (hrunner r R).of_quiet [.started r t p] rfl (by simp) rfl rfl rfl
  | @granted r t p R =>
    have hlease : ∀ u L, ((w.setRunner r R).grant r t p).lease u = some L → u = t ∨ w.lease u = some L := by
      intro u L hL
      by_cases hut : u = t
      · exact Or.inl hut
      · exact Or.inr (by simpa [grant, setRunner, hut] using hL)
    refine (hrunner r R).step [.granted r t p] rfl (by simp) (Nat.le_refl _)
      (fun s S hS => ⟨S, hS, rfl, fun _ hi => hi⟩) ?_
    intro i d L _ hL
    rcases hlease d.taskId L hL with hdt | hold
    · exact Or.inr (Or.inr ⟨r, p, by simp [hdt]⟩)
    · exact Or.inl hold
  | renewed => exact (hrunner _ _).renew
  | @snapshot r b R => exact (hrunner r R).of_quiet [.snapshot r b] rfl (by simp) rfl rfl rfl
  | expireLost => exact (hrunner _ _).expire
  | scanned => exact h.scan
  | expireLease hS _ => exact (h.setDone hS).expire

end World

/-- In every run, a lease that is cleared untouched since the scan has expired. -/
theorem expireLeases_clears_expired (D : Deployment) (acts : List Action)
    (hok : Lts.Along (World.step D) (ClearsUntouched D) (World.start D) acts) :
    Lts.Along (World.step D) (ClearsExpired D) (World.start D) acts := by
  have hstart : Scanned D (World.start D) := by
    intro s i S d L hS
    simp [World.start] at hS
  refine hok.of_invariant (Scanned D) (fun _ _ _ hstep _ h => h.change (step_change hstep)) ?_ hstart
  intro w a w' hstep hclear h s i S d L ha hS hd hL
  subst ha
  have hpending : S.pending i = true := by
    cases step_change hstep with
    | expireLease hS' hp =>
      obtain rfl := Option.some.inj (hS.symm.trans hS')
      exact hp
  exact (h s i S d L hS hpending hd hL).resolve_left (hclear s i d rfl hd (Option.isSome_of_eq_some hL))

theorem expireLeases_clears_expired_run : ∃ w, Lts.exec (World.step .pair) (World.start .pair)
      [.runner 0 (.runTask 0 7), .checkoutTask 0 0 true, .tick 11, .findExpiredLeases 0 0,
        .expireLease 0 5] = some w ∧
    Lts.Along (World.step .pair) (ClearsExpired .pair) (World.start .pair)
      [.runner 0 (.runTask 0 7), .checkoutTask 0 0 true, .tick 11, .findExpiredLeases 0 0,
        .expireLease 0 5] := by
  refine ⟨_, rfl, expireLeases_clears_expired .pair _ ?_⟩
  refine And.intro ?_ (And.intro ?_ (And.intro ?_ (And.intro ?_ (And.intro ?_ trivial))))
  · exact nofun
  · exact nofun
  · exact nofun
  · exact nofun
  · rintro s i d ha hd - ⟨x, hx, -⟩
    obtain ⟨rfl, rfl⟩ := Action.expireLease.inj ha
    simp [World.record] at hx

theorem expireLeases_clears_renewed : ¬ Lts.Along (World.step .pair) (ClearsExpired .pair)
    (World.start .pair) [.runner 0 (.runTask 0 7), .checkoutTask 0 0 true, .tick 11,
      .findExpiredLeases 0 0, .runner 0 (.beat 0), .heartbeatTasks 0 0, .expireLease 0 5] := by
  intro h
  have hclear := h.getLast (List.cons_ne_nil _ _) rfl rfl
  exact absurd (hclear 0 5 _ _ _ rfl rfl rfl rfl) (by decide)

end OnTaskGraph
