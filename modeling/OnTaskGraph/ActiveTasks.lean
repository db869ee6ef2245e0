import OnTaskGraph.PipeProgress

/-! When `activeTasks` tells the truth: as long as no activated pipeline breaks
off, no `cancel()` fails and no task is activated twice at a time. -/

namespace OnTaskGraph

namespace Tasks

/-- The keys of `activeTasks` are the tasks with a pipeline that was activated,
has not ended, and was neither stopped nor successfully cancelled. -/
def Truthful (s : Tasks) : Prop :=
  ∀ t, t ∈ s.activeTasks ↔ ∃ p, s.Live p t ∧ .stopped p ∉ s.log ∧ .cancelled p ∉ s.log

structure Accurate (s : Tasks) : Prop where
  entry_live : ∀ {t p}, s.activeTasks.lookup t = some p →
    s.Live p t ∧ .stopped p ∉ s.log ∧ .cancelled p ∉ s.log
  live_entry : ∀ {p t}, s.Live p t → .stopped p ∉ s.log → .cancelled p ∉ s.log →
    s.activeTasks.lookup t = some p

theorem Accurate.truthful {s : Tasks} (h : s.Accurate) : s.Truthful := by
  intro t
  constructor
  · intro ht
    obtain ⟨p, hp⟩ := mem_iff_lookup.mp ht
    exact ⟨p, h.entry_live hp⟩
  · rintro ⟨p, hp, hs, hc⟩
    exact mem_of_lookup (h.live_entry hp hs hc)

theorem Accurate.of_live_iff {s s' : Tasks} (h : s.Accurate) (hlive : ∀ p t, s'.Live p t ↔ s.Live p t)
    (hactive : ∀ t p, s'.activeTasks.lookup t = some p ↔ s.activeTasks.lookup t = some p)
    (hlog : ∀ p, (.stopped p ∈ s'.log ↔ .stopped p ∈ s.log) ∧
      (.cancelled p ∈ s'.log ↔ .cancelled p ∈ s.log)) : s'.Accurate where
  entry_live {t p} hl := by
    rw [hlive, (hlog p).1, (hlog p).2]
    exact h.entry_live ((hactive t p).mp hl)
  live_entry {p t} hp hs hc := by
    rw [hlive] at hp
    rw [(hlog p).1] at hs
    rw [(hlog p).2] at hc
    exact (hactive t p).mpr (h.live_entry hp hs hc)

theorem Accurate.setPipe {s : Tasks} {p : PipeId} {t : TaskId} {st : Stage} (h : s.Accurate)
    (htask : ∀ u, s.Live p u → u = t) (hlive : st.live = true → s.Live p t)
    (hentry : s.activeTasks.lookup t = some p → st.live = true) : (s.setPipe p t st).Accurate := by
  refine { entry_live := ?_, live_entry := ?_ }
  · intro u q hl
    have he := h.entry_live hl
    refine ⟨live_setPipe.mpr ?_, he.2⟩
    by_cases hq : q = p
    · subst hq
      obtain rfl := htask u he.1
      exact Or.inl ⟨rfl, rfl, hentry hl⟩
    · exact Or.inr ⟨hq, he.1⟩
  · intro q u hq hs hc
    rcases live_setPipe.mp hq with ⟨rfl, rfl, hl⟩ | ⟨-, hq⟩
    · exact h.live_entry (hlive hl) hs hc
    · exact h.live_entry hq hs hc

theorem Accurate.activate {s : Tasks} {p : PipeId} {t : TaskId} (h : s.Accurate)
    (hk : s.Known) (hp : s.pipes p = some ⟨t, .create⟩) (hfree : ∀ q, ¬ s.Live q t) :
    (s.activate p t).Accurate := by
  have hfresh : ∀ c ∈ s.log, c.task ≠ p := by
    rintro c hc rfl
    obtain ⟨u, st, hp', hst⟩ := hk.called c hc
    obtain ⟨-, rfl⟩ := Tasks.pipe_inj hp' hp
    simp [Stage.started] at hst
  have hlog : ∀ q, (.stopped q ∈ (s.activate p t).log ↔ .stopped q ∈ s.log) ∧
      (.cancelled q ∈ (s.activate p t).log ↔ .cancelled q ∈ s.log) := by
    simp [Tasks.activate, record, Tasks.setPipe]
  refine { entry_live := ?_, live_entry := ?_ }
  · intro u q hl
    rw [live_activate, (hlog q).1, (hlog q).2]
    by_cases hu : u = t
    · subst hu
      have hqp : p = q := by simpa [Tasks.activate] using hl
      subst hqp
      exact ⟨Or.inl ⟨rfl, rfl⟩, fun hs => hfresh _ hs rfl, fun hc => hfresh _ hc rfl⟩
    · have he : s.Live q u ∧ _ := h.entry_live ((lookup_assign_ne hu).symm.trans hl)
      refine ⟨Or.inr ⟨?_, he.1⟩, he.2⟩
      rintro rfl
      obtain ⟨st, hp', hst⟩ := he.1
      obtain ⟨-, rfl⟩ := Tasks.pipe_inj hp' hp
      simp [Stage.live] at hst
  · intro q u hq hs hc
    rw [(hlog q).1] at hs
    rw [(hlog q).2] at hc
    rcases live_activate.mp hq with ⟨rfl, rfl⟩ | ⟨-, hq⟩
    · exact lookup_assign_self s.activeTasks _ _
    · have hu : u ≠ t := fun hu => hfree q (hu ▸ hq)
      exact (lookup_assign_ne hu).trans (h.live_entry hq hs hc)

theorem Accurate.finish {s : Tasks} {p : PipeId} {t : TaskId} (h : s.Accurate)
    (ht : s.Tracked t) (hp : s.pipes p = some ⟨t, .stateSet⟩) :
    ((s.deactivate t).setPipe p t .ended).Accurate := by
  have hlive : s.Live p t := ⟨_, hp, rfl⟩
  refine { entry_live := ?_, live_entry := ?_ }
  · intro u q hl
    obtain ⟨hu, hl⟩ := lookup_erase_eq_some.mp hl
    have he := h.entry_live hl
    refine ⟨live_setPipe.mpr (Or.inr ⟨?_, he.1⟩), he.2⟩
    rintro rfl
    exact hu (he.1.started.task_eq hlive.started)
  · intro q u hq hs hc
    rcases live_setPipe.mp hq with ⟨-, -, hl⟩ | ⟨hqp, hq⟩
    · simp [Stage.live] at hl
    · refine lookup_erase_eq_some.mpr ⟨?_, h.live_entry hq hs hc⟩
      rintro rfl
      exact hqp (ht.unique hq hlive)

theorem Accurate.cancelled {s : Tasks} {c : Cancel} (h : s.Accurate) (hk : s.Known)
    (ht : s.Tracked c.taskId) (hc : c ∈ s.cancels) : (s.cancelled c).Accurate := by
  have hstarted := hk.pending c hc
  obtain ⟨-, honly⟩ := ht.pending c hc rfl
  have hlog : ∀ q, (.stopped q ∈ (s.cancelled c).log ↔ .stopped q ∈ s.log) ∧
      (.cancelled q ∈ (s.cancelled c).log ↔ q = c.task ∨ .cancelled q ∈ s.log) := by
    simp [Tasks.cancelled, record, deactivate]
  refine { entry_live := ?_, live_entry := ?_ }
  · intro u q hl
    obtain ⟨hu, hl⟩ := lookup_erase_eq_some.mp hl
    have he := h.entry_live hl
    rw [(hlog q).1, (hlog q).2]
    have hqc : q ≠ c.task := by
      rintro rfl
      exact hu (he.1.started.task_eq hstarted)
    exact ⟨he.1, he.2.1, fun hq => hq.elim hqc he.2.2⟩
  · intro q u hq hs hcan
    rw [(hlog q).1] at hs
    rw [(hlog q).2, not_or] at hcan
    refine lookup_erase_eq_some.mpr ⟨?_, h.live_entry hq hs hcan.2⟩
    rintro rfl
    exact hcan.1 (honly q hq)

theorem Accurate.absent {s : Tasks} {t : TaskId} (h : s.Accurate)
    (hl : s.activeTasks.lookup t = none) : (s.deactivate t).Accurate := by
  refine h.of_live_iff (fun _ _ => Iff.rfl) ?_ (fun _ => ⟨Iff.rfl, Iff.rfl⟩)
  intro u q
  show (s.activeTasks.erase t).lookup u = some q ↔ _
  rw [lookup_erase_eq_some, and_iff_right_iff_imp]
  rintro hq rfl
  simp [hl] at hq

theorem Accurate.stop {s : Tasks} (h : s.Accurate) (p : PipeId) : (s.record (.stop p)).Accurate :=
  h.of_live_iff (fun _ _ => Iff.rfl) (fun _ _ => Iff.rfl)
    (fun q => by simp [record])

theorem Accurate.stopped {s : Tasks} {t : TaskId} {p : PipeId} (h : s.Accurate)
    (hl : s.activeTasks.lookup t = some p) : ((s.record (.stopped p)).deactivate t).Accurate := by
  have hlog : ∀ q, (.stopped q ∈ ((s.record (.stopped p)).deactivate t).log ↔
      q = p ∨ .stopped q ∈ s.log) ∧
      (.cancelled q ∈ ((s.record (.stopped p)).deactivate t).log ↔ .cancelled q ∈ s.log) := by
    simp [record, deactivate]
  refine { entry_live := ?_, live_entry := ?_ }
  · intro u q hq
    obtain ⟨hu, hq⟩ := lookup_erase_eq_some.mp hq
    have he := h.entry_live hq
    have hqp : q ≠ p := by
      rintro rfl
      exact hu (he.1.started.task_eq (h.entry_live hl).1.started)
    rw [(hlog q).1, (hlog q).2]
    exact ⟨he.1, fun hstop => hstop.elim hqp he.2.1, he.2.2⟩
  · intro q u hq hs hc
    rw [(hlog q).1, not_or] at hs
    rw [(hlog q).2] at hc
    have hlq := h.live_entry hq hs.2 hc
    refine lookup_erase_eq_some.mpr ⟨?_, hlq⟩
    rintro rfl
    exact hs.1 (Option.some.inj (hlq.symm.trans hl))

theorem Accurate.stopping {s s' : Tasks} (h : s.Accurate) (hs : Stopping s s') : s'.Accurate := by
  induction hs with
  | refl => exact h
  | absent hl _ ih => exact ih (h.absent hl)
  | @stopped s _ t p hl _ ih =>
    have hstop := h.stop p
    exact ih (hstop.stopped hl)
  | threw => exact h.stop _

end Tasks

/-- Besides fresh activations: no pipeline whose task is entered ends through its
catch or with an empty result, and no `cancel()` fails while the task of a
cancellation in flight is entered. -/
def Undisturbed (r : TaskRunner) (e : Event) (r' : TaskRunner) : Prop :=
  (∀ t, FreshActivation t r e r') ∧
  (∀ p o t st, e = .reply p o → r.pipes p = some ⟨t, st⟩ → r.activeTasks.lookup t = some p →
    st.breaks o = false) ∧
  ∀ c o, e = .cancelReply c o → o.failed = true → ∀ d ∈ r.cancels, d.taskId ∉ r.activeTasks

theorem Moves.live_of_live {e : Event} {p : PipeId} {st st' : Stage} (h : Moves e p st st')
    (hkeep : ∀ o, e = .reply p o → st.breaks o = false) (hl : st.live = true) : st'.live = true := by
  cases h with
  | ended _ hb =>
    have hb := hb hl
    simp [hkeep _ rfl] at hb
  | checkoutTask | checkedOut | fetched => simp [Stage.live] at hl
  | ran | setTaskState => rfl

theorem Tasks.Change.accurate {r : TaskRunner} {e : Event} {s : Tasks} (hc : r.toTasks.Change e s)
    (hok : Undisturbed r e r) (hk : r.toTasks.Known) (ht : ∀ t, r.toTasks.Tracked t) (h : r.toTasks.Accurate) :
    s.Accurate := by
  obtain ⟨hfresh, hbreak, hcancel⟩ := hok
  cases hc with
  | idle => exact h
  | accept hp _ =>
    refine h.setPipe (by simp [Live, hp]) (by simp [Stage.live]) fun hl => ?_
    obtain ⟨st, hp', -⟩ := (h.entry_live hl).1
    simp [hp] at hp'
  | @move _ p t st st' hp hm =>
    have hlive : ∀ u, r.Live p u → u = t ∧ st.live = true := by
      rintro u ⟨st₁, hp', hl⟩
      obtain ⟨rfl, rfl⟩ := Tasks.pipe_inj hp' hp
      exact ⟨rfl, hl⟩
    refine h.setPipe (fun u hu => (hlive u hu).1) (fun hl => ⟨st, hp, Moves.live hm hl⟩) fun hl => ?_
    exact Moves.live_of_live hm (fun o he => hbreak p o t st he hp hl)
      (hlive t (h.entry_live hl).1).2
  | activate hp => exact h.activate hk hp (hfresh _ _ rfl hp).1
  | finish hp _ => exact h.finish (ht _) hp
  | cancel hl =>
    exact h.of_live_iff (fun _ _ => Iff.rfl) (fun _ _ => Iff.rfl)
      (fun q => by simp [Tasks.cancel, record])
  | cancelled hc _ => exact h.cancelled hk (ht _) hc
  | cancelFailed _ ho =>
    refine h.of_live_iff (fun _ _ => Iff.rfl) (fun t p => ?_)
      (fun q => by simp [Tasks.cancelFailed, record])
    refine lookup_eraseCancels_eq_some.trans (and_iff_right_iff_imp.mpr fun hl d hd he => ?_)
    subst he
    exact hcancel _ _ rfl ho d hd (Tasks.mem_of_lookup hl)
  | stopping hs => exact h.stopping hs

theorem known_start (limit : Nat) : (TaskRunner.start limit).Known := by
  constructor <;> simp [TaskRunner.start, Tasks.Entered]

theorem accurate_start (limit : Nat) : (TaskRunner.start limit).Accurate := by
  constructor <;> simp [TaskRunner.start, Tasks.Live]

theorem activeTasks_truthful (limit : Nat) (es : List Event) (r : TaskRunner)
    (hok : Lts.Along TaskRunner.step Undisturbed (.start limit) es)
    (h : Lts.exec TaskRunner.step (.start limit) es = some r) : r.Truthful := by
  have hacc : r.Known ∧ (∀ t, r.Tracked t) ∧ r.Accurate := by
    refine hok.invariant (fun r => r.Known ∧ (∀ t, r.Tracked t) ∧ r.Accurate) ?_
      ⟨known_start limit, tracked_start limit, accurate_start limit⟩ h
    rintro r e r' hstep hf ⟨hk, ht, hacc⟩
    have hc := TaskRunner.step_change hstep
    exact ⟨hk.change hc, fun t => hc.tracked (hf.1 t) (ht t), hc.accurate hf hk ht hacc⟩
  exact hacc.2.2.truthful

theorem undisturbed_reply {r r' : TaskRunner} {p : PipeId} {t : TaskId} {st : Stage} {o : Outcome}
    (hp : r.pipes p = some ⟨t, st⟩) (hbreak : st.breaks o = false)
    (hfresh : st = .create → (∀ q, ¬ r.Live q t) ∧ ∀ c ∈ r.cancels, c.taskId ≠ t) :
    Undisturbed r (.reply p o) r' := by
  refine ⟨fun u q he hq => ?_, fun q o' u st' he hq _ => ?_, fun c o' he => nomatch he⟩
  · obtain ⟨rfl, rfl⟩ := Event.reply.inj he
    obtain ⟨rfl, rfl⟩ := Tasks.pipe_inj hp hq
    exact hfresh rfl
  · obtain ⟨rfl, rfl⟩ := Event.reply.inj he
    obtain ⟨rfl, rfl⟩ := Tasks.pipe_inj hp hq
    exact hbreak

theorem undisturbed_activation : Lts.Along TaskRunner.step Undisturbed (.start 3) [.runTask 0 7,
    .checkoutTask 0 true, .reply 0 .resolve, .reply 0 .resolve, .reply 0 .resolve] := by
  refine And.intro ?_ (And.intro ?_ (And.intro ?_ (And.intro ?_ (And.intro ?_ trivial))))
  · simp [Undisturbed, FreshActivation]
  · simp [Undisturbed, FreshActivation]
  · exact undisturbed_reply rfl rfl nofun
  · exact undisturbed_reply rfl rfl nofun
  · refine undisturbed_reply rfl rfl fun _ => ⟨?_, nofun⟩
    rintro q ⟨st, hq, hl⟩
    by_cases h0 : q = 0
    · subst h0
      obtain rfl : Stage.create = st := (Pipe.mk.inj (Option.some.inj hq)).2
      simp [Stage.live] at hl
    · simp [h0, TaskRunner.withTasks, Tasks.setPipe, TaskRunner.acceptRunTask, TaskRunner.start] at hq

theorem activeTasks_truthful_run : ∃ r,
    Lts.exec TaskRunner.step (.start 3) [.runTask 0 7, .checkoutTask 0 true, .reply 0 .resolve,
      .reply 0 .resolve, .reply 0 .resolve] = some r ∧ r.Truthful :=
  ⟨_, rfl, activeTasks_truthful 3 _ _ undisturbed_activation rfl⟩

/-- A pipeline that breaks off leaves its entry behind, and a `cancel()` that
fails drops a task that still runs. -/
theorem activeTasks_untruthful :
    (∃ r, Lts.exec TaskRunner.step (.start 3) [.runTask 0 7, .checkoutTask 0 true, .reply 0 .resolve,
      .reply 0 .resolve, .reply 0 .resolve, .reply 0 .reject] = some r ∧ ¬ r.Truthful) ∧
    ∃ r, Lts.exec TaskRunner.step (.start 3) [.runTask 0 7, .checkoutTask 0 true, .reply 0 .resolve,
      .reply 0 .resolve, .reply 0 .resolve, .cancelTask 7, .cancelReply ⟨7, 0⟩ .reject] = some r ∧
      ¬ r.Truthful := by
  constructor
  · refine ⟨_, rfl, fun h => ?_⟩
    obtain ⟨p, ⟨st, hp, hl⟩, -⟩ := (h 7).mp (by decide)
    by_cases h0 : p = 0
    · subst h0
      obtain rfl : Stage.ended = st := (Pipe.mk.inj (Option.some.inj hp)).2
      simp [Stage.live] at hl
    · simp [h0, TaskRunner.withTasks, Tasks.setPipe, TaskRunner.acceptRunTask, TaskRunner.start,
        Tasks.activate, Tasks.record] at hp
  · refine ⟨_, rfl, fun h => ?_⟩
    exact absurd ((h 7).mpr ⟨0, ⟨.run, rfl, rfl⟩, by decide, by decide⟩) (by decide)

end OnTaskGraph
