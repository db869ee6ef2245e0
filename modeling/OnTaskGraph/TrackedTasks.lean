import OnTaskGraph.TaskChanges

/-! What `activeTasks` still says about the pipelines of a runner when calls may
fail: a task that runs is entered, or has been told to cancel or to stop. It
rests on activations that meet no other pipeline of the same task. -/

namespace OnTaskGraph

def Call.task : Call → PipeId
  | .run p | .cancel p | .cancelled p | .cancelFailed p | .stop p | .stopped p => p

namespace Tasks

/-- Pipeline `p` has activated task `t` and has not ended. -/
def Live (s : Tasks) (p : PipeId) (t : TaskId) : Prop :=
  ∃ st, s.pipes p = some ⟨t, st⟩ ∧ st.live = true

def Started (s : Tasks) (p : PipeId) (t : TaskId) : Prop :=
  ∃ st, s.pipes p = some ⟨t, st⟩ ∧ st.started = true

theorem Live.started {s : Tasks} {p : PipeId} {t : TaskId} (h : s.Live p t) : s.Started p t := by
  obtain ⟨st, hp, hst⟩ := h
  exact ⟨st, hp, Stage.started_of_live hst⟩

theorem Started.task_eq {s : Tasks} {p : PipeId} {t u : TaskId} (h : s.Started p t)
    (h' : s.Started p u) : t = u := by
  obtain ⟨st, hp, -⟩ := h
  obtain ⟨st', hp', -⟩ := h'
  exact (Tasks.pipe_inj hp hp').1

theorem stage_setPipe {s : Tasks} {p q : PipeId} {t u : TaskId} {st : Stage} (P : Stage → Bool) :
    (∃ st', (s.setPipe p t st).pipes q = some ⟨u, st'⟩ ∧ P st' = true) ↔
      (q = p ∧ u = t ∧ P st = true) ∨ (q ≠ p ∧ ∃ st', s.pipes q = some ⟨u, st'⟩ ∧ P st' = true) := by
  by_cases h : q = p
  · subst h
    simp only [setPipe, Function.update_self, Option.some.injEq, Pipe.mk.injEq, ne_eq,
      not_true_eq_false, false_and, or_false, true_and]
    constructor
    · rintro ⟨st', ⟨rfl, rfl⟩, hP⟩
      exact ⟨rfl, hP⟩
    · rintro ⟨rfl, hP⟩
      exact ⟨st, ⟨rfl, rfl⟩, hP⟩
  · simp [setPipe, h]

theorem live_setPipe {s : Tasks} {p q : PipeId} {t u : TaskId} {st : Stage} :
    (s.setPipe p t st).Live q u ↔ (q = p ∧ u = t ∧ st.live = true) ∨ (q ≠ p ∧ s.Live q u) :=
  stage_setPipe Stage.live

theorem started_setPipe {s : Tasks} {p q : PipeId} {t u : TaskId} {st : Stage} :
    (s.setPipe p t st).Started q u ↔
      (q = p ∧ u = t ∧ st.started = true) ∨ (q ≠ p ∧ s.Started q u) :=
  stage_setPipe Stage.started

theorem live_activate {s : Tasks} {p q : PipeId} {t u : TaskId} :
    (s.activate p t).Live q u ↔ (q = p ∧ u = t) ∨ (q ≠ p ∧ s.Live q u) := by
  show (s.setPipe p t .run).Live q u ↔ _
  simp [live_setPipe, Stage.live]

theorem started_activate {s : Tasks} {p q : PipeId} {t u : TaskId} :
    (s.activate p t).Started q u ↔ (q = p ∧ u = t) ∨ (q ≠ p ∧ s.Started q u) := by
  show (s.setPipe p t .run).Started q u ↔ _
  simp [started_setPipe, Stage.started]

theorem mem_iff_lookup {active : AList fun _ : TaskId => PipeId} {t : TaskId} :
    t ∈ active ↔ ∃ p, active.lookup t = some p := by
  rw [← AList.lookup_isSome, Option.isSome_iff_exists]

theorem mem_of_lookup {active : AList fun _ : TaskId => PipeId} {t : TaskId} {p : PipeId}
    (h : active.lookup t = some p) : t ∈ active :=
  mem_iff_lookup.mpr ⟨p, h⟩

theorem lookup_erase_eq_some {active : AList fun _ : TaskId => PipeId} {t u : TaskId} {p : PipeId} :
    (active.erase u).lookup t = some p ↔ t ≠ u ∧ active.lookup t = some p := by
  by_cases h : t = u
  · subst h
    simp
  · simp [AList.lookup_erase_ne h, h]

theorem lookup_eraseCancels_eq_some {cs : List Cancel} {active : AList fun _ : TaskId => PipeId}
    {t : TaskId} {p : PipeId} :
    (cs.foldl (fun active c => active.erase c.taskId) active).lookup t = some p ↔
      (∀ c ∈ cs, t ≠ c.taskId) ∧ active.lookup t = some p := by
  induction cs generalizing active with
  | nil => simp
  | cons c cs ih =>
    rw [List.foldl_cons, ih, lookup_erase_eq_some, List.forall_mem_cons]
    tauto

theorem Moves.live {e : Event} {p : PipeId} {st st' : Stage} (h : Moves e p st st')
    (hl : st'.live = true) : st.live = true := by
  cases h <;> simp_all [Stage.live]

theorem Moves.started {e : Event} {p : PipeId} {st st' : Stage} (h : Moves e p st st')
    (hl : st.started = true) : st'.started = true := by
  cases h <;> simp_all [Stage.started]

/-- What `activeTasks` and the log say about the pipelines of a task. -/
structure Tracked (s : Tasks) (t : TaskId) : Prop where
  unique : ∀ {p q}, s.Live p t → s.Live q t → p = q
  entry : ∀ {p}, s.activeTasks.lookup t = some p → ∀ q, s.Live q t → q = p
  pending : ∀ c ∈ s.cancels, c.taskId = t → .cancel c.task ∈ s.log ∧ ∀ q, s.Live q t → q = c.task
  tracked : ∀ {p}, s.Live p t →
    s.activeTasks.lookup t = some p ∨ .cancel p ∈ s.log ∨ .stopped p ∈ s.log

section

variable {s s' : Tasks} {t u : TaskId} {p : PipeId} {c : Cancel}

/-- A change that activates nothing keeps the invariant if an entry it removes
was of a task that is told to cancel or to stop. -/
theorem Tracked.shrink (h : s.Tracked t) (hlive : ∀ p, s'.Live p t → s.Live p t) (hlog : s.log ⊆ s'.log)
    (hentry : ∀ p, s'.activeTasks.lookup t = some p → s.activeTasks.lookup t = some p)
    (hpending : ∀ c ∈ s'.cancels, c.taskId = t → c ∈ s.cancels ∨
      s.activeTasks.lookup t = some c.task ∧ .cancel c.task ∈ s'.log)
    (hdrop : ∀ p, s.activeTasks.lookup t = some p → s'.Live p t →
      s'.activeTasks.lookup t = some p ∨ .cancel p ∈ s'.log ∨ .stopped p ∈ s'.log) : s'.Tracked t where
  unique hp hq := h.unique (hlive _ hp) (hlive _ hq)
  entry hl q hq := h.entry (hentry _ hl) q (hlive q hq)
  pending c hc ht := by
    rcases hpending c hc ht with hold | ⟨hl, hlogged⟩
    · have hp := h.pending c hold ht
      exact ⟨hlog hp.1, fun q hq => hp.2 q (hlive q hq)⟩
    · exact ⟨hlogged, fun q hq => h.entry hl q (hlive q hq)⟩
  tracked hp := by
    rcases h.tracked (hlive _ hp) with hl | hc | hs
    · exact hdrop _ hl hp
    · exact Or.inr (Or.inl (hlog hc))
    · exact Or.inr (Or.inr (hlog hs))

theorem Tracked.setPipe {st : Stage} (h : s.Tracked t) (hlive : st.live = true → s.Live p u) :
    (s.setPipe p u st).Tracked t := by
  have hback : ∀ q, (s.setPipe p u st).Live q t → s.Live q t := by
    intro q hq
    rcases live_setPipe.mp hq with ⟨rfl, rfl, hl⟩ | ⟨-, hq⟩
    · exact hlive hl
    · exact hq
  exact h.shrink hback (List.Subset.refl _) (fun q hl => hl) (fun _ hc _ => Or.inl hc) (fun q hl _ => Or.inl hl)

theorem Tracked.activate (h : s.Tracked t) (hp : s.pipes p = some ⟨u, .create⟩)
    (hfree : u = t → ∀ q, ¬ s.Live q t) (hcancels : u = t → ∀ c ∈ s.cancels, c.taskId ≠ t) :
    (s.activate p u).Tracked t := by
  have hnew : ∀ q, s.Live q t → q ≠ p := by
    rintro q ⟨st, hq, hl⟩ rfl
    obtain ⟨-, rfl⟩ := Tasks.pipe_inj hq hp
    simp [Stage.live] at hl
  by_cases htu : t = u
  · subst htu
    have honly : ∀ q, (s.activate p t).Live q t → q = p := by
      intro q hq
      rcases live_activate.mp hq with ⟨rfl, -⟩ | ⟨-, hq⟩
      · rfl
      · exact absurd hq (hfree rfl q)
    have hentry : (s.activate p t).activeTasks.lookup t = some p := lookup_assign_self _ t p
    refine ⟨fun hq hq' => (honly _ hq).trans (honly _ hq').symm, fun hl q hq => ?_, fun c hc ht => ?_,
      fun hq => ?_⟩
    · rw [honly q hq]
      exact Option.some.inj (hentry.symm.trans hl)
    · exact absurd ht (hcancels rfl c hc)
    · rw [honly _ hq]
      exact Or.inl hentry
  · have hback : ∀ q, (s.activate p u).Live q t → s.Live q t := by
      intro q hq
      rcases live_activate.mp hq with ⟨-, heq⟩ | ⟨-, hq⟩
      · exact absurd heq htu
      · exact hq
    have hlookup : (s.activate p u).activeTasks.lookup t = s.activeTasks.lookup t := lookup_assign_ne htu
    exact h.shrink hback (List.subset_cons_self _ _) (fun q hl => hlookup.symm.trans hl)
      (fun _ hc _ => Or.inl hc) (fun q hl _ => Or.inl (hlookup.trans hl))

theorem Tracked.finish (h : s.Tracked t) (hp : s.pipes p = some ⟨u, .stateSet⟩) :
    ((s.deactivate u).setPipe p u .ended).Tracked t := by
  have hback : ∀ q, ((s.deactivate u).setPipe p u .ended).Live q t → q ≠ p ∧ s.Live q t := by
    intro q hq
    rcases live_setPipe.mp hq with ⟨-, -, hl⟩ | hq
    · simp [Stage.live] at hl
    · exact hq
  have hdrop : ∀ q, s.activeTasks.lookup t = some q → ((s.deactivate u).setPipe p u .ended).Live q t →
      (s.activeTasks.erase u).lookup t = some q := by
    intro q hl hq
    obtain ⟨hqp, hold⟩ := hback q hq
    refine lookup_erase_eq_some.mpr ⟨?_, hl⟩
    rintro rfl
    exact hqp (h.unique hold ⟨_, hp, rfl⟩)
  exact h.shrink (fun q hq => (hback q hq).2) (List.Subset.refl _)
    (fun q hl => (lookup_erase_eq_some.mp hl).2) (fun _ hc _ => Or.inl hc) (fun q hl hq => Or.inl (hdrop q hl hq))

theorem Tracked.cancel (h : s.Tracked t) (hl : s.activeTasks.lookup u = some p) : (s.cancel u p).Tracked t := by
  have hpending : ∀ c ∈ (s.cancel u p).cancels, c.taskId = t → c ∈ s.cancels ∨
      s.activeTasks.lookup t = some c.task ∧ .cancel c.task ∈ (s.cancel u p).log := by
    intro c hc ht
    rcases List.mem_cons.mp hc with rfl | hc
    · exact Or.inr ⟨ht ▸ hl, List.mem_cons_self⟩
    · exact Or.inl hc
  exact h.shrink (fun _ hq => hq) (List.subset_cons_self _ _) (fun _ hq => hq) hpending (fun _ hq _ => Or.inl hq)

theorem Tracked.cancelled (h : s.Tracked t) (hc : c ∈ s.cancels) : (s.cancelled c).Tracked t := by
  have hdrop : ∀ q, s.activeTasks.lookup t = some q → s.Live q t →
      (s.activeTasks.erase c.taskId).lookup t = some q ∨ .cancel q ∈ (s.cancelled c).log := by
    intro q hl hq
    by_cases ht : t = c.taskId
    · obtain ⟨hlogged, honly⟩ := h.pending c hc ht.symm
      obtain rfl := honly q hq
      exact Or.inr (List.mem_cons_of_mem _ hlogged)
    · exact Or.inl (lookup_erase_eq_some.mpr ⟨ht, hl⟩)
  exact h.shrink (fun _ hq => hq) (List.subset_cons_self _ _) (fun _ hq => (lookup_erase_eq_some.mp hq).2)
    (fun d hd _ => Or.inl (List.mem_of_mem_erase hd)) (fun q hl hq => (hdrop q hl hq).imp_right Or.inl)

theorem Tracked.cancelFailed (h : s.Tracked t) : (s.cancelFailed c).Tracked t := by
  have hnone : ∀ d, d ∉ (s.cancelFailed c).cancels := by simp [Tasks.cancelFailed]
  have hdrop : ∀ q, s.activeTasks.lookup t = some q → s.Live q t →
      (s.cancelFailed c).activeTasks.lookup t = some q ∨ .cancel q ∈ (s.cancelFailed c).log := by
    intro q hl hq
    by_cases ht : ∀ d ∈ s.cancels, t ≠ d.taskId
    · exact Or.inl (lookup_eraseCancels_eq_some.mpr ⟨ht, hl⟩)
    · push Not at ht
      obtain ⟨d, hd, rfl⟩ := ht
      obtain ⟨hlogged, honly⟩ := h.pending d hd rfl
      obtain rfl := honly q hq
      exact Or.inr (List.mem_cons_of_mem _ hlogged)
  exact h.shrink (fun _ hq => hq) (List.subset_cons_self _ _) (fun _ hq => (lookup_eraseCancels_eq_some.mp hq).2)
    (fun d hd => absurd hd (hnone d)) (fun q hl hq => (hdrop q hl hq).imp_right Or.inl)

theorem Tracked.absent (h : s.Tracked t) (hl : s.activeTasks.lookup u = none) : (s.deactivate u).Tracked t := by
  have hkeep : ∀ q, s.activeTasks.lookup t = some q → (s.activeTasks.erase u).lookup t = some q := by
    intro q hq
    refine lookup_erase_eq_some.mpr ⟨?_, hq⟩
    rintro rfl
    simp [hl] at hq
  exact h.shrink (fun _ hq => hq) (List.Subset.refl _) (fun _ hq => (lookup_erase_eq_some.mp hq).2)
    (fun _ hc _ => Or.inl hc) (fun q hq _ => Or.inl (hkeep q hq))

theorem Tracked.stop (h : s.Tracked t) (p : PipeId) : (s.record (.stop p)).Tracked t :=
  h.shrink (fun _ hq => hq) (List.subset_cons_self _ _) (fun _ hq => hq) (fun _ hc _ => Or.inl hc)
    (fun _ hq _ => Or.inl hq)

theorem Tracked.stopped (h : s.Tracked t) (hl : s.activeTasks.lookup u = some p) :
    ((s.record (.stopped p)).deactivate u).Tracked t := by
  have hdrop : ∀ q, s.activeTasks.lookup t = some q →
      (s.activeTasks.erase u).lookup t = some q ∨ .stopped q ∈ (s.record (.stopped p)).log := by
    intro q hq
    by_cases ht : t = u
    · subst ht
      obtain rfl : p = q := Option.some.inj (hl.symm.trans hq)
      exact Or.inr List.mem_cons_self
    · exact Or.inl (lookup_erase_eq_some.mpr ⟨ht, hq⟩)
  exact h.shrink (fun _ hq => hq) (List.subset_cons_self _ _) (fun _ hq => (lookup_erase_eq_some.mp hq).2)
    (fun _ hc _ => Or.inl hc) (fun q hq _ => (hdrop q hq).imp_right Or.inr)

theorem Tracked.stopping (h : s.Tracked t) (hs : Stopping s s') : s'.Tracked t := by
  induction hs with
  | refl => exact h
  | absent hl _ ih => exact ih (h.absent hl)
  | @stopped s _ u p hl _ ih =>
    have hstop := h.stop p
    exact ih (hstop.stopped hl)
  | threw => exact h.stop _

end

end Tasks

/-- An activation of the task finds no other pipeline of it at work, nor a `cancel()` on
an earlier task object. -/
def FreshActivation (t : TaskId) (r : TaskRunner) (e : Event) (_ : TaskRunner) : Prop :=
  ∀ p, e = .reply p .resolve → r.pipes p = some ⟨t, .create⟩ →
    (∀ q, ¬ r.Live q t) ∧ ∀ c ∈ r.cancels, c.taskId ≠ t

theorem Tasks.Change.tracked {r : TaskRunner} {e : Event} {s : Tasks} {t : TaskId} (hc : r.toTasks.Change e s)
    (hfresh : FreshActivation t r e r) (h : r.toTasks.Tracked t) : s.Tracked t := by
  cases hc with
  | idle => exact h
  | accept => exact h.setPipe (by simp [Stage.live])
  | move hp hm => exact h.setPipe fun hl => ⟨_, hp, Moves.live hm hl⟩
  | activate hp =>
    exact h.activate hp (fun heq => (hfresh _ rfl (heq ▸ hp)).1) (fun heq => (hfresh _ rfl (heq ▸ hp)).2)
  | finish hp _ => exact h.finish hp
  | cancel hl => exact h.cancel hl
  | cancelled hc _ => exact h.cancelled hc
  | cancelFailed => exact h.cancelFailed
  | stopping hs => exact h.stopping hs

theorem tracked_start (limit : Nat) (t : TaskId) : (TaskRunner.start limit).Tracked t := by
  constructor <;> simp [TaskRunner.start, Tasks.Live]

theorem tracked_run {limit : Nat} {es : List Event} {r : TaskRunner} {t : TaskId}
    (hok : Lts.Along TaskRunner.step (FreshActivation t) (.start limit) es)
    (h : Lts.exec TaskRunner.step (.start limit) es = some r) : r.Tracked t :=
  hok.invariant (fun r => r.toTasks.Tracked t)
    (fun _ _ _ hstep hf hs => (TaskRunner.step_change hstep).tracked hf hs) (tracked_start limit t) h

end OnTaskGraph
