import OnTaskGraph.Checkouts

/-! The results that runners record. `setTaskState` does not look at the lease, so
a result comes from a runner that was granted the lease for the very pipeline that
records it, and that holds it still unless the lease has expired meanwhile. -/

namespace OnTaskGraph

namespace Tasks

def LiveCalled (s : Tasks) : Prop := ∀ p t, s.Live p t → .run p ∈ s.log

theorem Change.liveCalled {s s' : Tasks} {e : Event} (h : Change s e s') (hs : s.LiveCalled) :
    s'.LiveCalled := by
  intro p t hl
  have hkeep : s.Live p t → .run p ∈ s'.log := fun hlive => h.log_subset (hs p t hlive)
  cases h with
  | idle | cancel | cancelled | cancelFailed => exact hkeep hl
  | stopping hstop =>
    obtain ⟨st, hp, hst⟩ := hl
    exact hkeep ⟨st, hstop.pipes ▸ hp, hst⟩
  | accept | finish =>
    rcases live_setPipe.mp hl with ⟨-, -, hst⟩ | ⟨-, hold⟩
    · simp [Stage.live] at hst
    · exact hkeep hold
  | move hp hm =>
    rcases live_setPipe.mp hl with ⟨rfl, rfl, hst⟩ | ⟨-, hold⟩
    · exact hkeep ⟨_, hp, Moves.live hm hst⟩
    · exact hkeep hold
  | activate =>
    rcases live_activate.mp hl with ⟨rfl, -⟩ | ⟨-, hold⟩
    · exact List.mem_cons_self
    · exact hkeep hold

end Tasks

/-- A result is recorded only by the runner that holds the lease. -/
def RecordsHeld (w : World) (a : Action) (_ : World) : Prop :=
  ∀ r p t, a = .setTaskState r p → (w.runner r).pipes p = some ⟨t, .setTaskState⟩ →
    w.holds r t = true

/-- A result comes from a `run()` on a checkout of the pipeline's own, by a runner
that holds the lease unless it has expired since that checkout. -/
def RecordsGranted (w : World) (a : Action) (_ : World) : Prop :=
  ∀ r p t, a = .setTaskState r p → (w.runner r).pipes p = some ⟨t, .setTaskState⟩ →
    .started r t p ∈ w.log ∧ .granted r t p ∈ w.log ∧
      (w.holds r t = true ∨ .expired t ∈ History.since (.granted r t p) w.log)

namespace World

variable {D : Deployment} {w w' : World}

/-- A grant lasts until the lease expires. -/
def Leased (w : World) : Prop :=
  ∀ r t p, .granted r t p ∈ w.log →
    w.holds r t = true ∨ .expired t ∈ History.since (.granted r t p) w.log

theorem Leased.step (new : List Entry) (h : w.Leased) (hlog : w'.log = new ++ w.log)
    (hnew : ∀ r t p, .granted r t p ∉ new)
    (hholds : ∀ r t, w.holds r t = true → w'.holds r t = true ∨ .expired t ∈ new) : w'.Leased := by
  intro r t p hmem
  rw [hlog] at hmem ⊢
  rw [History.mem_since_append (hnew r t p)]
  have hold : .granted r t p ∈ w.log := (List.mem_append.mp hmem).resolve_left (hnew r t p)
  rcases h r t p hold with hheld | hexpired
  · exact (hholds r t hheld).imp_right Or.inl
  · exact Or.inr (Or.inr hexpired)

theorem Leased.grant {r : RunnerId} {t : TaskId} {p : PipeId} (h : w.Leased)
    (hfree : w.lease t = none) : (w.grant r t p).Leased := by
  intro q u p' hmem
  by_cases heq : Entry.granted q u p' = .granted r t p
  · obtain ⟨rfl, rfl, rfl⟩ := Entry.granted.inj heq
    exact Or.inl (by simp [holds, World.grant])
  · have hold : .granted q u p' ∈ w.log := (List.mem_cons.mp hmem).resolve_left heq
    rcases h q u p' hold with hheld | hexpired
    · have hut : u ≠ t := by
        rintro rfl
        simp [holds, hfree] at hheld
      exact Or.inl (by simpa [holds, World.grant, hut] using hheld)
    · exact Or.inr (History.mem_since_cons.mpr ⟨Ne.symm heq, Or.inr hexpired⟩)

theorem Leased.expire {i : DocId} (h : w.Leased) : (w.expire D i).Leased := by
  rcases expire_cases (D := D) w i with heq | ⟨t, L, -, heq⟩
  · rw [heq]
    exact h
  · have hlog : (w.expire D i).log = [.expired t] ++ w.log := by
      rw [heq]
      rfl
    refine h.step [.expired t] hlog (by simp) fun r u hu => ?_
    by_cases hut : u = t
    · exact Or.inr (by simp [hut])
    · exact Or.inl (by simpa [holds, heq, hut] using hu)

theorem Leased.renew {r : RunnerId} (h : w.Leased) : (w.renew D r).Leased := by
  refine h.step _ rfl (by simp) fun q t ht => Or.inl ?_
  simp only [holds, World.renew] at ht ⊢
  cases hL : w.lease t with
  | none => simp [hL] at ht
  | some L => by_cases hr : L.runner = r <;> simp_all

theorem Change.leased {a : Action} (hc : Change D w a w') (h : w.Leased) : w'.Leased := by
  have hrunner : ∀ r R, (w.setRunner r R).Leased := fun r R => h
  cases hc with
  | tick | runner | refused | setTaskState => exact h
  | @started r t p R =>
    exact (hrunner r R).step [.started r t p] rfl (by simp) fun _ _ hu => Or.inl hu
  | granted _ _ hfree _ => exact (hrunner _ _).grant hfree
  | renewed => exact (hrunner _ _).renew
  | @snapshot r b R => exact (hrunner r R).step [.snapshot r b] rfl (by simp) fun _ _ hu => Or.inl hu
  | expireLost => exact (hrunner _ _).expire
  | @scanned s k => exact h.step [.scanned s] rfl (by simp) fun _ _ hu => Or.inl hu
  | @expireLease s i S =>
    have hscan : (w.setScan s (S.done i)).Leased := h
    exact hscan.expire

structure Fenced (w : World) : Prop extends Paired w where
  leased : w.Leased
  liveCalled : ∀ r, (w.runner r).LiveCalled

theorem Change.fenced {a : Action} (hc : Change D w a w') (h : w.Fenced) : w'.Fenced := by
  refine { toPaired := hc.paired h.toPaired, leased := hc.leased h.leased, liveCalled := fun r => ?_ }
  rcases hc.runner_step r with heq | ⟨e, hstep⟩
  · rw [heq]
    exact h.liveCalled r
  · exact (TaskRunner.step_change hstep).liveCalled (h.liveCalled r)

theorem fenced_start (D : Deployment) : (start D).Fenced := by
  refine { toPaired := paired_start D, leased := ?_, liveCalled := ?_ }
  · simp [Leased, start]
  · simp [start, TaskRunner.start, Tasks.LiveCalled, Tasks.Live]

theorem Fenced.recordsGranted {a : Action} (h : w.Fenced) : RecordsGranted w a w' := by
  intro r p t _ hp
  have hlive : (w.runner r).Live p t := ⟨_, hp, rfl⟩
  have hrun : .run p ∈ (w.runner r).log := h.liveCalled r p t hlive
  obtain ⟨u, hstarted⟩ := h.called.mp hrun
  obtain rfl : t = u := hlive.started.task_eq (h.asked hstarted)
  have hgranted : .granted r t p ∈ w.log :=
    mem_grantKeys.mp (h.matched.subset (mem_startKeys.mpr hstarted))
  exact ⟨hstarted, hgranted, h.leased r t p hgranted⟩

end World

/-- Every result recorded comes from a runner that was granted the lease for it and
lost it since at most by an expiration. -/
theorem results_granted (D : Deployment) (acts : List Action) :
    Lts.Along (World.step D) RecordsGranted (World.start D) acts :=
  Lts.along_of_invariant World.Fenced (fun _ _ _ hstep h => (World.step_change hstep).fenced h)
    (fun _ _ _ _ h => h.recordsGranted) (World.fenced_start D) acts

/-- The lease of task 7 has moved on to runner 1 when runner 0 records its result. -/
theorem results_unfenced : ¬ Lts.Along (World.step .pair) RecordsHeld (World.start .pair)
    [.runner 0 (.runTask 0 7), .runner 1 (.runTask 0 7), .checkoutTask 0 0 true,
      .runner 0 (.reply 0 .resolve), .runner 0 (.reply 0 .resolve), .runner 0 (.reply 0 .resolve),
      .tick 11, .findExpiredLeases 0 0, .expireLease 0 5, .checkoutTask 1 0 true,
      .runner 0 (.reply 0 .resolve), .setTaskState 0 0] := by
  intro h
  have hheld := h.getLast (List.cons_ne_nil _ _) rfl rfl
  exact absurd (hheld 0 0 7 rfl rfl) (by decide)

end OnTaskGraph
