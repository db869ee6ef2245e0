import OnTaskGraph.TrackedTasks

/-! The run pipelines of a runner only advance: a stage that counts as started is
never left backwards, `run()` is called once, and only on a granted checkout. -/

namespace OnTaskGraph

def Stage.waiting : Stage → Bool
  | .checkedOut true | .getTaskById | .create => true
  | _ => false

inductive Advances (e : Event) (p : PipeId) : Stage → Stage → Prop
  | move {st st'} : Moves e p st st' → Advances e p st st'
  | activate : e = .reply p .resolve → Advances e p .create .run
  | finish {o} : e = .reply p o → o.failed = false → Advances e p .stateSet .ended

namespace Advances

variable {e : Event} {p : PipeId} {st st' : Stage}

theorem started (h : Advances e p st st') (hs : st.started = true) : st'.started = true := by
  cases h with
  | move hm => exact Tasks.Moves.started hm hs
  | activate | finish => rfl

theorem live (h : Advances e p st st') (hs : st.started = true) (hl : st'.live = true) :
    st.live = true := by
  cases h with
  | move hm => exact Tasks.Moves.live hm hl
  | activate => simp [Stage.started] at hs
  | finish => simp [Stage.live] at hl

theorem waiting (h : Advances e p st st') (hw : st'.waiting = true) :
    st.waiting = true ∨ (st = .checkoutTask ∧ e = .checkoutTask p true) := by
  cases h with
  | move hm =>
    cases hm with
    | @checkoutTask _ granted => cases granted <;> simp_all [Stage.waiting]
    | checkedOut | fetched | ran | setTaskState | ended => simp_all [Stage.waiting]
  | activate | finish => simp [Stage.waiting] at hw

end Advances

namespace Tasks

theorem pipes_setPipe_self {s : Tasks} {p : PipeId} {t : TaskId} {st : Stage} :
    (s.setPipe p t st).pipes p = some ⟨t, st⟩ := by
  simp [setPipe]

theorem pipes_setPipe_ne {s : Tasks} {p q : PipeId} {t : TaskId} {st : Stage} (h : q ≠ p) :
    (s.setPipe p t st).pipes q = s.pipes q := by
  simp [setPipe, h]

theorem Stopping.pipes {s s' : Tasks} (h : Stopping s s') : s'.pipes = s.pipes := by
  induction h with
  | refl | threw => rfl
  | absent _ _ ih | stopped _ _ ih => exact ih

theorem Stopping.log_subset {s s' : Tasks} (h : Stopping s s') : s.log ⊆ s'.log := by
  induction h with
  | refl => exact List.Subset.refl _
  | absent _ _ ih => exact ih
  | stopped _ _ ih => exact fun c hc => ih (by simp [record, deactivate, hc])
  | threw => exact List.subset_cons_self _ _

theorem Stopping.run_mem {s s' : Tasks} {p : PipeId} (h : Stopping s s') (hr : .run p ∈ s'.log) :
    .run p ∈ s.log := by
  induction h with
  | refl => exact hr
  | absent _ _ ih => exact ih hr
  | stopped _ _ ih => simpa [record, deactivate] using ih hr
  | threw => simpa [record] using hr

theorem Change.log_subset {s s' : Tasks} {e : Event} (h : Change s e s') : s.log ⊆ s'.log := by
  cases h with
  | idle | accept | move | finish => exact List.Subset.refl _
  | activate | cancel | cancelled | cancelFailed => exact List.subset_cons_self _ _
  | stopping hs => exact hs.log_subset

theorem Change.pipe {s s' : Tasks} {e : Event} (h : Change s e s') (p : PipeId) :
    s'.pipes p = s.pipes p ∨
    (∃ t, e = .runTask p t ∧ s.pipes p = none ∧ s'.pipes p = some ⟨t, .checkoutTask⟩) ∨
    ∃ t st st', Advances e p st st' ∧ s.pipes p = some ⟨t, st⟩ ∧ s'.pipes p = some ⟨t, st'⟩ := by
  cases h with
  | idle | cancel | cancelled | cancelFailed => exact Or.inl rfl
  | stopping hs => exact Or.inl (by rw [hs.pipes])
  | @accept q t hq _ =>
    by_cases hp : p = q
    · subst hp
      exact Or.inr (Or.inl ⟨t, rfl, hq, pipes_setPipe_self⟩)
    · exact Or.inl (pipes_setPipe_ne hp)
  | @move _ q t st st' hq hm =>
    by_cases hp : p = q
    · subst hp
      exact Or.inr (Or.inr ⟨t, st, st', .move hm, hq, pipes_setPipe_self⟩)
    · exact Or.inl (pipes_setPipe_ne hp)
  | @activate q t hq =>
    by_cases hp : p = q
    · subst hp
      exact Or.inr (Or.inr ⟨t, _, _, .activate rfl, hq, pipes_setPipe_self⟩)
    · exact Or.inl (pipes_setPipe_ne hp)
  | @finish q t o hq ho =>
    by_cases hp : p = q
    · subst hp
      exact Or.inr (Or.inr ⟨t, _, _, .finish rfl ho, hq, pipes_setPipe_self⟩)
    · exact Or.inl (pipes_setPipe_ne hp)

theorem Change.started {s s' : Tasks} {e : Event} {p : PipeId} {t : TaskId} (h : Change s e s')
    (hp : s.Started p t) : s'.Started p t := by
  obtain ⟨st, hst, hs⟩ := hp
  rcases h.pipe p with heq | ⟨_, _, hn, _⟩ | ⟨u, st₁, st', hadv, hp, hp'⟩
  · exact ⟨st, heq.trans hst, hs⟩
  · simp [hn] at hst
  · obtain ⟨rfl, rfl⟩ := Tasks.pipe_inj hp hst
    exact ⟨st', hp', hadv.started hs⟩

theorem Change.live_of_started {s s' : Tasks} {e : Event} {p : PipeId} {t : TaskId}
    (h : Change s e s') (hp : s.Started p t) (hl : s'.Live p t) : s.Live p t := by
  obtain ⟨st, hst, hs⟩ := hp
  obtain ⟨st₂, hst₂, hl⟩ := hl
  rcases h.pipe p with heq | ⟨_, _, hn, _⟩ | ⟨u, st₁, st', hadv, hp, hp'⟩
  · exact ⟨st₂, heq.symm.trans hst₂, hl⟩
  · simp [hn] at hst
  · obtain ⟨rfl, rfl⟩ := Tasks.pipe_inj hp hst
    obtain ⟨-, rfl⟩ := Tasks.pipe_inj hp' hst₂
    exact ⟨_, hst, hadv.live hs hl⟩

theorem Change.run_mem {s s' : Tasks} {e : Event} {p : PipeId} (h : Change s e s')
    (hr : .run p ∈ s'.log) :
    .run p ∈ s.log ∨ (e = .reply p .resolve ∧ ∃ t, s.pipes p = some ⟨t, .create⟩) := by
  cases h with
  | idle | accept | move | finish => exact Or.inl hr
  | cancel | cancelled | cancelFailed =>
    left
    simpa [Tasks.cancel, Tasks.cancelled, Tasks.cancelFailed, record, deactivate] using hr
  | stopping hs => exact Or.inl (hs.run_mem hr)
  | @activate q u hq =>
    rcases List.mem_cons.mp hr with hpq | hr
    · obtain rfl := Call.run.inj hpq
      exact Or.inr ⟨rfl, u, hq⟩
    · exact Or.inl hr

theorem Change.run_mem_of_started {s s' : Tasks} {e : Event} {p : PipeId} {t : TaskId}
    (h : Change s e s') (hp : s.Started p t) (hr : .run p ∈ s'.log) : .run p ∈ s.log := by
  rcases h.run_mem hr with hr | ⟨-, u, hq⟩
  · exact hr
  · obtain ⟨st, hst, hs⟩ := hp
    obtain ⟨-, rfl⟩ := Tasks.pipe_inj hst hq
    simp [Stage.started] at hs

theorem Stopping.lookup {s s' : Tasks} {t : TaskId} {p : PipeId} (h : Stopping s s')
    (hl : s'.activeTasks.lookup t = some p) : s.activeTasks.lookup t = some p := by
  induction h with
  | refl | threw => exact hl
  | absent _ _ ih | stopped _ _ ih => exact (lookup_erase_eq_some.mp (ih hl)).2

theorem Change.lookup {s s' : Tasks} {e : Event} {t : TaskId} {p : PipeId} (h : Change s e s')
    (hl : s'.activeTasks.lookup t = some p) :
    s.activeTasks.lookup t = some p ∨
      (e = .reply p .resolve ∧ s.pipes p = some ⟨t, .create⟩ ∧ s' = s.activate p t) := by
  cases h with
  | idle | accept | move | cancel => exact Or.inl hl
  | finish | cancelled => exact Or.inl (lookup_erase_eq_some.mp hl).2
  | cancelFailed => exact Or.inl (lookup_eraseCancels_eq_some.mp hl).2
  | stopping hs => exact Or.inl (hs.lookup hl)
  | @activate q u hq =>
    by_cases htu : t = u
    · subst htu
      obtain rfl : q = p := by simpa [Tasks.activate] using hl
      exact Or.inr ⟨rfl, hq, rfl⟩
    · exact Or.inl ((lookup_assign_ne htu).symm.trans hl)

def Entered (s : Tasks) : Prop := ∀ t p, s.activeTasks.lookup t = some p → s.Started p t

theorem Change.entered {s s' : Tasks} {e : Event} (h : Change s e s') (hs : s.Entered) :
    s'.Entered := by
  intro t p hl
  rcases h.lookup hl with hold | ⟨-, -, rfl⟩
  · exact h.started (hs t p hold)
  · exact ⟨.run, pipes_setPipe_self, rfl⟩

theorem Entered.task_eq {s : Tasks} {t u : TaskId} {p : PipeId} (h : s.Entered)
    (ht : s.activeTasks.lookup t = some p) (hu : s.activeTasks.lookup u = some p) : t = u :=
  (h t p ht).task_eq (h u p hu)

/-- Entries, calls and cancellations in flight are of tasks that have started. -/
structure Known (s : Tasks) : Prop where
  entered : s.Entered
  called : ∀ c ∈ s.log, ∃ t, s.Started c.task t
  pending : ∀ c ∈ s.cancels, s.Started c.task c.taskId

theorem Stopping.called {s s' : Tasks} (h : Stopping s s') (hs : s.Entered) :
    ∀ c ∈ s'.log, c ∈ s.log ∨ ∃ t, s.Started c.task t := by
  induction h with
  | refl => exact fun c hc => Or.inl hc
  | absent _ _ ih => exact ih fun u q hq => hs u q (lookup_erase_eq_some.mp hq).2
  | @stopped s _ t p hl _ ih =>
    intro c hc
    rcases ih (fun u q hq => hs u q (lookup_erase_eq_some.mp hq).2) c hc with hold | hnew
    · rcases List.mem_cons.mp hold with rfl | hold
      · exact Or.inr ⟨t, hs t p hl⟩
      rcases List.mem_cons.mp hold with rfl | hold
      · exact Or.inr ⟨t, hs t p hl⟩
      · exact Or.inl hold
    · exact Or.inr hnew
  | @threw s t p hl =>
    intro c hc
    rcases List.mem_cons.mp hc with rfl | hc
    · exact Or.inr ⟨t, hs t p hl⟩
    · exact Or.inl hc

theorem Stopping.cancels {s s' : Tasks} (h : Stopping s s') : s'.cancels = s.cancels := by
  induction h with
  | refl | threw => rfl
  | absent _ _ ih | stopped _ _ ih => exact ih

theorem Known.change {s s' : Tasks} {e : Event} (h : s.Known) (hc : Change s e s') : s'.Known := by
  have hstarted : ∀ {q u}, s.Started q u → s'.Started q u := fun hu => hc.started hu
  have hcalled : ∀ {call : Call} {t : TaskId}, s'.log = call :: s.log → s'.Started call.task t →
      ∀ c ∈ s'.log, ∃ u, s'.Started c.task u := by
    intro call t hlog ht c hmem
    rw [hlog] at hmem
    rcases List.mem_cons.mp hmem with rfl | hmem
    · exact ⟨t, ht⟩
    · exact (h.called c hmem).imp fun u => hstarted
  have hkept : s'.log = s.log → ∀ c ∈ s'.log, ∃ u, s'.Started c.task u :=
    fun hlog c hmem => (h.called c (hlog ▸ hmem)).imp fun u => hstarted
  have hpending : ∀ c ∈ s.cancels, s'.Started c.task c.taskId := fun c hmem => hstarted (h.pending c hmem)
  refine ⟨hc.entered h.entered, ?_, ?_⟩
  · cases hc with
    | idle | accept | move | finish => exact hkept rfl
    | @activate p t => exact hcalled rfl (started_activate.mpr (Or.inl ⟨rfl, rfl⟩))
    | @cancel t p hl => exact hcalled rfl (h.entered t p hl)
    | cancelled hmem | cancelFailed hmem => exact hcalled rfl (h.pending _ hmem)
    | stopping hs =>
      intro c hmem
      rcases hs.called h.entered c hmem with hold | ⟨u, hu⟩
      · exact (h.called c hold).imp fun u => hstarted
      · exact ⟨u, hstarted hu⟩
  · cases hc with
    | idle | accept | move | finish | activate => exact hpending
    | cancel hl =>
      intro c hmem
      rcases List.mem_cons.mp hmem with rfl | hmem
      · exact h.entered _ _ hl
      · exact hpending c hmem
    | cancelled => exact fun c hmem => hpending c (List.mem_of_mem_erase hmem)
    | cancelFailed => exact nofun
    | stopping hs => exact fun c hmem => hpending c (hs.cancels ▸ hmem)

theorem Change.waiting {s s' : Tasks} {e : Event} {p : PipeId} {t : TaskId} {st' : Stage}
    (h : Change s e s') (hp : s'.pipes p = some ⟨t, st'⟩) (hw : st'.waiting = true) :
    (∃ st, s.pipes p = some ⟨t, st⟩ ∧ st.waiting = true) ∨
      (e = .checkoutTask p true ∧ s.pipes p = some ⟨t, .checkoutTask⟩) := by
  rcases h.pipe p with heq | ⟨_, _, _, hp'⟩ | ⟨u, st₁, st₂, hadv, hq, hq'⟩
  · exact Or.inl ⟨st', heq.symm.trans hp, hw⟩
  · obtain ⟨-, rfl⟩ := Tasks.pipe_inj hp' hp
    simp [Stage.waiting] at hw
  · obtain ⟨rfl, rfl⟩ := Tasks.pipe_inj hq' hp
    rcases hadv.waiting hw with hw₁ | ⟨rfl, he⟩
    · exact Or.inl ⟨st₁, hq, hw₁⟩
    · exact Or.inr ⟨he, hq⟩

end Tasks

/-- What a run keeps of a pipeline that has started. -/
theorem started_run {r r' : TaskRunner} {es : List Event} {p : PipeId} {t : TaskId}
    (h : Lts.exec TaskRunner.step r es = some r') (hp : r.Started p t) :
    r'.Started p t ∧ r.log ⊆ r'.log ∧ (r'.Live p t → r.Live p t) ∧
      (.run p ∈ r'.log → .run p ∈ r.log) := by
  refine Lts.invariant (fun s : TaskRunner => s.Started p t ∧ r.log ⊆ s.log ∧
    (s.Live p t → r.Live p t) ∧ (.run p ∈ s.log → .run p ∈ r.log)) ?_
    ⟨hp, List.Subset.refl _, id, id⟩ h
  rintro s e s' hstep ⟨hs, hlog, hlive, hrun⟩
  have hc := TaskRunner.step_change hstep
  exact ⟨hc.started hs, List.Subset.trans hlog hc.log_subset, fun hl => hlive (hc.live_of_started hs hl),
    fun hr => hrun (hc.run_mem_of_started hs hr)⟩

end OnTaskGraph
