import OnTaskGraph.ActiveTasks
import OnTaskGraph.PipeProgress

/-! Cancel messages. One that finds its task active reaches the task object, one
that comes between checkout and activation is lost, and so is every message
after a `cancel()` that failed. -/

namespace OnTaskGraph

def Stage.granted : Stage → Bool
  | .checkoutTask | .checkedOut false => false
  | _ => true

theorem Stage.started_of_granted {st : Stage} (hg : st.granted = true) (hw : st.waiting = false) :
    st.started = true := by
  cases st with
  | checkedOut granted => cases granted <;> simp_all [granted, waiting]
  | checkoutTask | getTaskById | create => simp_all [granted, waiting]
  | run | setTaskState | stateSet | ended => rfl

namespace TaskRunner

theorem cancelTask_of_lookup {r : TaskRunner} {t : TaskId} {p : PipeId} (hrun : r.running = true)
    (hstream : r.cancelTaskStream = .active) (hl : r.activeTasks.lookup t = some p) :
    r.cancelTask t = r.withTasks (r.cancel t p) := by
  simp [cancelTask, hrun, hstream, hl]

theorem cancelTask_of_absent {r : TaskRunner} {t : TaskId} (hl : r.activeTasks.lookup t = none) :
    (r.cancelTask t).toTasks = r.toTasks := by
  unfold cancelTask
  split_ifs
  · rfl
  · rfl
  · simp [hl]

end TaskRunner

/-- A cancel message that does not come between checkout and activation is not
lost: a task that has not been started then never is, and one that still runs has
been told to cancel or to stop. -/
theorem cancelTask_not_lost (limit : Nat) (pre post : List Event) (p : PipeId) (t : TaskId) (st : Stage)
    (r₁ r₂ r₃ : TaskRunner) (hpre : Lts.exec TaskRunner.step (.start limit) pre = some r₁)
    (hrun : r₁.running = true) (hstream : r₁.cancelTaskStream = .active)
    (hp : r₁.pipes p = some ⟨t, st⟩) (hgranted : st.granted = true)
    (hcancel : r₁.step (.cancelTask t) = some r₂) (hpost : Lts.exec TaskRunner.step r₂ post = some r₃)
    (hwait : st.waiting = false)
    (hfresh : Lts.Along TaskRunner.step (FreshActivation t) (.start limit) pre) :
    (.run p ∈ r₃.log → .run p ∈ r₁.log) ∧
      (r₃.Live p t → .cancel p ∈ r₃.log ∨ .stopped p ∈ r₃.log) := by
  have hstarted : r₁.Started p t := ⟨st, hp, Stage.started_of_granted hgranted hwait⟩
  have hstep := TaskRunner.step_change hcancel
  have hkeep := started_run hpost (hstep.started hstarted)
  refine ⟨fun hr => hstep.run_mem_of_started hstarted (hkeep.2.2.2 hr), fun hl => ?_⟩
  have hlive : r₁.Live p t := hstep.live_of_started hstarted (hkeep.2.2.1 hl)
  have hsub : r₁.log ⊆ r₃.log := List.Subset.trans hstep.log_subset hkeep.2.1
  rcases (tracked_run hfresh hpre).tracked hlive with hentry | hc | hs
  · obtain rfl : r₁.cancelTask t = r₂ := Option.some.inj hcancel
    refine Or.inl (hkeep.2.1 ?_)
    rw [TaskRunner.cancelTask_of_lookup hrun hstream hentry]
    exact List.mem_cons_self
  · exact Or.inl (hsub hc)
  · exact Or.inr (hsub hs)

theorem cancelTask_not_lost_run : ∃ r₁ r₂, Lts.exec TaskRunner.step (.start 3) [.runTask 0 7,
      .checkoutTask 0 true, .reply 0 .resolve, .reply 0 .resolve, .reply 0 .resolve] = some r₁ ∧
    r₁.step (.cancelTask 7) = some r₂ ∧ (.run 0 ∈ r₂.log → .run 0 ∈ r₁.log) ∧
      (r₂.Live 0 7 → .cancel 0 ∈ r₂.log ∨ .stopped 0 ∈ r₂.log) := by
  have hfresh : Lts.Along TaskRunner.step (FreshActivation 7) (.start 3) [.runTask 0 7,
      .checkoutTask 0 true, .reply 0 .resolve, .reply 0 .resolve, .reply 0 .resolve] :=
    undisturbed_activation.mono fun _ _ _ _ h => h.1 7
  exact ⟨_, _, rfl, rfl, cancelTask_not_lost 3 _ [] 0 7 .run _ _ _ rfl rfl rfl rfl rfl rfl rfl rfl hfresh⟩

theorem cancelTask_lost : ∃ r₁ r₂ r₃, Lts.exec TaskRunner.step (.start 3) [.runTask 0 7,
      .checkoutTask 0 true, .reply 0 .resolve, .reply 0 .resolve] = some r₁ ∧
    r₁.running = true ∧ r₁.cancelTaskStream = .active ∧ r₁.pipes 0 = some ⟨7, .create⟩ ∧
    r₁.step (.cancelTask 7) = some r₂ ∧ Lts.exec TaskRunner.step r₂ [.reply 0 .resolve] = some r₃ ∧
    r₃.Live 0 7 ∧ .run 0 ∉ r₂.log ∧ .run 0 ∈ r₃.log ∧ .cancel 0 ∉ r₃.log ∧ .stop 0 ∉ r₃.log :=
  ⟨_, _, _, rfl, rfl, rfl, rfl, rfl, rfl, ⟨.run, rfl, rfl⟩, by decide, by decide, by decide, by decide⟩

/-! The calls of `cancel()` over the whole history of messages. -/

def Call.ofCancel : Call → Option PipeId
  | .cancel p => some p
  | _ => none

def Tasks.cancelCalls (s : Tasks) : List PipeId := s.log.filterMap Call.ofCancel

def TaskRunner.cancelDue (r : TaskRunner) : Event → List PipeId
  | .cancelTask t => if r.running then (r.activeTasks.lookup t).toList else []
  | _ => []

/-- A message for an active task calls its `cancel()` once, nothing else does. -/
def CancelledOnce (r : TaskRunner) (e : Event) (r' : TaskRunner) : Prop :=
  r'.cancelCalls = r.cancelDue e ++ r.cancelCalls

instance {r r' : TaskRunner} {e : Event} : Decidable (CancelledOnce r e r') :=
  inferInstanceAs (Decidable (_ = _))

def BeforeFailure (r : TaskRunner) (e : Event) (_ : TaskRunner) : Prop :=
  ∀ t, e = .cancelTask t → r.running = true → t ∈ r.activeTasks → ∀ p, .cancelFailed p ∉ r.log

namespace Tasks

theorem Stopping.cancelCalls {s s' : Tasks} (h : Stopping s s') : s'.cancelCalls = s.cancelCalls := by
  induction h with
  | refl | threw => rfl
  | absent _ _ ih | stopped _ _ ih => exact ih

theorem Stopping.cancelFailed_mem {s s' : Tasks} {p : PipeId} (h : Stopping s s') :
    .cancelFailed p ∈ s'.log ↔ .cancelFailed p ∈ s.log := by
  induction h with
  | refl => exact Iff.rfl
  | absent _ _ ih => exact ih
  | stopped _ _ ih => simpa [record, deactivate] using ih
  | threw => simp [record]

theorem Change.cancelCalls {s s' : Tasks} {e : Event} (h : Change s e s')
    (he : ∀ t, e ≠ .cancelTask t) : s'.cancelCalls = s.cancelCalls := by
  cases h with
  | idle | accept | move | activate | finish | cancelled | cancelFailed => rfl
  | cancel => exact absurd rfl (he _)
  | stopping hs => exact hs.cancelCalls

theorem Change.cancelFailed_mem {s s' : Tasks} {e : Event} {p : PipeId} (h : Change s e s')
    (he : ∀ c o, e = .cancelReply c o → o.failed = false) :
    .cancelFailed p ∈ s'.log ↔ .cancelFailed p ∈ s.log := by
  cases h with
  | idle | accept | move | finish => exact Iff.rfl
  | activate | cancel | cancelled =>
    simp [Tasks.activate, Tasks.cancel, Tasks.cancelled, record, deactivate, setPipe]
  | cancelFailed _ ho => simp [he _ _ rfl] at ho
  | stopping hs => exact hs.cancelFailed_mem

end Tasks

namespace TaskRunner

structure StreamEnds (r : TaskRunner) : Prop where
  running : r.running = true → r.cancelTaskStream ≠ .completed
  failed : r.cancelTaskStream = .failed ↔ ∃ p, .cancelFailed p ∈ r.log

theorem StreamEnds.active_iff {r : TaskRunner} (h : r.StreamEnds) (hrun : r.running = true) :
    r.cancelTaskStream = .active ↔ ∀ p, .cancelFailed p ∉ r.log := by
  have hnone : (∀ p, .cancelFailed p ∉ r.log) ↔ r.cancelTaskStream ≠ .failed := by
    simp [h.failed]
  have hcompleted := h.running hrun
  rw [hnone]
  cases hs : r.cancelTaskStream <;> simp_all

theorem StreamEnds.step {r r' : TaskRunner} {e : Event} (h : r.StreamEnds)
    (hstep : r.step e = some r') : r'.StreamEnds := by
  have hchange := step_change hstep
  have hquiet : (∀ c o, e = .cancelReply c o → o.failed = false) →
      (r'.running = true → r.running = true) → r'.cancelTaskStream = r.cancelTaskStream → r'.StreamEnds := by
    intro hreply hrunning hstream
    refine ⟨fun hr => hstream ▸ h.running (hrunning hr), ?_⟩
    rw [hstream, h.failed]
    exact exists_congr fun p => (hchange.cancelFailed_mem hreply).symm
  cases step_effect hstep with
  | tasks _ hreply => exact hquiet hreply id rfl
  | runTaskStream | heartbeat | beat | heartbeatTasks | getOwnTasks | expireLease =>
    exact hquiet (by simp) id rfl
  | beatReply hframe => exact hquiet (by simp) hframe.running hframe.cancelTaskStream
  | stop => exact hquiet (by simp) (fun hr => by simp [TaskRunner.stop] at hr) rfl
  | cancelTaskStream hactive hrun =>
    refine ⟨fun hr => by simp [hrun] at hr, ?_⟩
    have hno : ¬ ∃ p, .cancelFailed p ∈ r.log := by simp [← h.failed, hactive]
    simpa using hno
  | @cancelFailed c o hc ho =>
    refine ⟨fun _ => by simp, ?_⟩
    have hmem : .cancelFailed c.task ∈ (r.cancelFailed c).log := List.mem_cons_self
    exact iff_of_true rfl ⟨_, hmem⟩

theorem StreamEnds.start (limit : Nat) : (TaskRunner.start limit).StreamEnds := by
  constructor <;> simp [TaskRunner.start]

end TaskRunner

theorem cancelledOnce_step {r r' : TaskRunner} {e : Event} (h : r.StreamEnds)
    (hstep : r.step e = some r') : CancelledOnce r e r' ↔ BeforeFailure r e r' := by
  by_cases hcancel : ∃ t, e = .cancelTask t
  · obtain ⟨t, rfl⟩ := hcancel
    obtain rfl : r.cancelTask t = r' := Option.some.inj hstep
    by_cases hrun : r.running = true
    · cases hl : r.activeTasks.lookup t with
      | none =>
        have hnot : t ∉ r.activeTasks := AList.lookup_eq_none.mp hl
        refine iff_of_true ?_ ?_
        · simp [CancelledOnce, TaskRunner.cancelDue, hrun, hl, TaskRunner.cancelTask_of_absent hl]
        · rintro u he - hu
          exact absurd (Event.cancelTask.inj he ▸ hu) hnot
      | some p =>
        have hin : t ∈ r.activeTasks := Tasks.mem_of_lookup hl
        have hbefore : BeforeFailure r (.cancelTask t) (r.cancelTask t) ↔
            r.cancelTaskStream = .active := by
          rw [h.active_iff hrun]
          constructor
          · exact fun hb => hb t rfl hrun hin
          · exact fun hb _ _ _ _ => hb
        rw [hbefore]
        by_cases hs : r.cancelTaskStream = .active
        · refine iff_of_true ?_ hs
          rw [CancelledOnce, TaskRunner.cancelTask_of_lookup hrun hs hl]
          simp [TaskRunner.cancelDue, hrun, hl, TaskRunner.withTasks, Tasks.cancelCalls, Tasks.cancel,
            Tasks.record, Call.ofCancel]
        · refine iff_of_false ?_ hs
          simp [CancelledOnce, TaskRunner.cancelDue, hrun, hl, TaskRunner.cancelTask, hs]
    · have hsame : (r.cancelTask t).cancelCalls = r.cancelCalls := by
        unfold TaskRunner.cancelTask
        split_ifs <;> first | rfl | simp_all
      refine iff_of_true ?_ fun _ _ hr => absurd hr hrun
      simpa [CancelledOnce, TaskRunner.cancelDue, hrun] using hsame
  · have hne : ∀ t, e ≠ .cancelTask t := fun t he => hcancel ⟨t, he⟩
    refine iff_of_true ?_ fun t he => absurd he (hne t)
    have hdue : r.cancelDue e = [] := by
      unfold TaskRunner.cancelDue
      split
      · exact absurd rfl (hne _)
      · rfl
    rw [CancelledOnce, hdue, List.nil_append]
    exact (TaskRunner.step_change hstep).cancelCalls hne

/-- Over a whole history of messages, each one for an active task calls its
`cancel()` once exactly when none of them follows a failed `cancel()`. -/
theorem cancelledOnce_iff (limit : Nat) (es : List Event) :
    Lts.Along TaskRunner.step CancelledOnce (.start limit) es ↔
      Lts.Along TaskRunner.step BeforeFailure (.start limit) es := by
  have hinv : ∀ r e r', TaskRunner.step r e = some r' → r.StreamEnds → r'.StreamEnds :=
    fun _ _ _ hstep h => h.step hstep
  constructor
  · intro h
    exact h.of_invariant TaskRunner.StreamEnds (fun r e r' hstep _ => hinv r e r' hstep)
      (fun _ _ _ hstep hc hi => (cancelledOnce_step hi hstep).mp hc) (.start limit)
  · intro h
    exact h.of_invariant TaskRunner.StreamEnds (fun r e r' hstep _ => hinv r e r' hstep)
      (fun _ _ _ hstep hc hi => (cancelledOnce_step hi hstep).mpr hc) (.start limit)

theorem cancelStream_dies : ¬ Lts.Along TaskRunner.step CancelledOnce (.start 3) [.runTask 0 7,
    .runTask 1 8, .checkoutTask 0 true, .checkoutTask 1 true, .reply 0 .resolve, .reply 1 .resolve,
    .reply 0 .resolve, .reply 1 .resolve, .reply 0 .resolve, .reply 1 .resolve, .cancelTask 7,
    .cancelReply ⟨7, 0⟩ .reject, .cancelTask 8] := by
  intro h
  have hlast := h.getLast (List.cons_ne_nil _ _) rfl rfl
  exact absurd hlast (by decide)

end OnTaskGraph
