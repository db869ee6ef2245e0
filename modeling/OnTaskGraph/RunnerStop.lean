import OnTaskGraph.PipeProgress

/-! A heartbeat that fails. The runner takes no more messages, but `stop()` is
called on none of its active tasks, neither by the failed heartbeat nor later. -/

namespace OnTaskGraph

namespace Tasks

/-- No task that is entered has been told to stop. -/
structure Unstopped (s : Tasks) : Prop where
  entered : s.Entered
  called : ∀ {p}, .stop p ∈ s.log → ∃ t, s.Started p t
  entry : ∀ {t p}, s.activeTasks.lookup t = some p → .stop p ∉ s.log

theorem Change.stop_mem {s s' : Tasks} {e : Event} {p : PipeId} (h : Change s e s')
    (he : ∀ b o throws, e ≠ .beatReply b o throws) : .stop p ∈ s'.log ↔ .stop p ∈ s.log := by
  cases h with
  | idle | accept | move | finish => exact Iff.rfl
  | activate | cancel | cancelled | cancelFailed =>
    simp [Tasks.activate, Tasks.cancel, Tasks.cancelled, Tasks.cancelFailed, record, deactivate, setPipe]
  | stopping => exact absurd rfl (he _ _ _)

theorem Unstopped.change {s s' : Tasks} {e : Event} (h : s.Unstopped) (hc : Change s e s')
    (he : ∀ b o throws, e ≠ .beatReply b o throws) : s'.Unstopped := by
  refine { entered := hc.entered h.entered, called := ?_, entry := ?_ }
  · intro p hstop
    obtain ⟨t, ht⟩ := h.called ((hc.stop_mem he).mp hstop)
    exact ⟨t, hc.started ht⟩
  · intro t p hl hstop
    have hbefore : .stop p ∈ s.log := (hc.stop_mem he).mp hstop
    rcases hc.lookup hl with hold | ⟨-, hcreate, -⟩
    · exact h.entry hold hbefore
    · obtain ⟨u, st, hp, hst⟩ := h.called hbefore
      obtain ⟨-, rfl⟩ := Tasks.pipe_inj hp hcreate
      simp [Stage.started] at hst

theorem Unstopped.stopTask {s s' : Tasks} {throws : TaskId → Bool} {t : TaskId} (h : s.Unstopped)
    (hok : stopTask throws s t = .ok s') : s'.Unstopped := by
  cases hl : s.activeTasks.lookup t with
  | none =>
    obtain rfl : s.deactivate t = s' := by simpa [Tasks.stopTask, hl] using hok
    refine { entered := ?_, called := h.called, entry := ?_ }
    · intro u q hq
      exact h.entered u q (lookup_erase_eq_some.mp hq).2
    · intro u q hq
      exact h.entry (lookup_erase_eq_some.mp hq).2
  | some p =>
    obtain rfl : ((s.record (.stop p)).record (.stopped p)).deactivate t = s' := by
      simp only [Tasks.stopTask, hl] at hok
      split_ifs at hok
      exact Except.ok.inj hok
    have hlog : ∀ q, .stop q ∈ (((s.record (.stop p)).record (.stopped p)).deactivate t).log →
        q = p ∨ .stop q ∈ s.log := by
      simp [record, deactivate]
    refine { entered := ?_, called := ?_, entry := ?_ }
    · intro u q hq
      exact h.entered u q (lookup_erase_eq_some.mp hq).2
    · intro q hstop
      rcases hlog q hstop with rfl | hbefore
      · exact ⟨t, h.entered t q hl⟩
      · exact h.called hbefore
    · intro u q hq hstop
      obtain ⟨hut, hold⟩ := lookup_erase_eq_some.mp hq
      rcases hlog q hstop with rfl | hbefore
      · exact hut (h.entered.task_eq hold hl)
      · exact h.entry hold hbefore

end Tasks

namespace TaskRunner

/-- A store call of a heartbeat fails in the reply, or when `handleLostTasks` calls
`store.expireLease` and it throws, and the heartbeat stream is there to handle it. -/
def StoreCallFails (r : TaskRunner) (b : BeatId) (o : Outcome) (throws : TaskId → Bool) : Prop :=
  r.heartbeat ≠ .failed ∧
    (o.failed = true ∨ ∃ own r', r.beats b = some (.ownTasks .handleLostTasks own) ∧
      (r.setBeat b .ended).handleLostTasks own throws = .error r')

/-- The runner takes no more messages, and it has called `stop()` on what was
active before the failure. -/
structure StopsWorking (r₁ r₃ : TaskRunner) : Prop where
  runTask : ∀ p t, (r₃.acceptRunTask p t).toTasks = r₃.toTasks
  cancelTask : ∀ t, (r₃.cancelTask t).toTasks = r₃.toTasks
  stop : ∀ {t p}, r₁.activeTasks.lookup t = some p → .stop p ∈ r₃.log

/-- The runner after a heartbeat that failed in `r₁`. -/
structure Halted (r₁ r : TaskRunner) : Prop where
  running : r.running = false
  heartbeat : r.heartbeat = .failed
  stop : ∀ {p}, .stop p ∈ r.log → .stop p ∈ r₁.log

section

variable {r r' r₁ : TaskRunner} {b : BeatId} {o : Outcome} {throws : TaskId → Bool} {B : Beat} {e : Event}

theorem acceptRunTask_of_halted (h : Halted r₁ r) (p : PipeId) (t : TaskId) :
    (r.acceptRunTask p t).toTasks = r.toTasks := by
  unfold acceptRunTask
  split_ifs with _ hrun
  · rfl
  · rfl
  · exact absurd h.running hrun
  · exact absurd h.running hrun

theorem cancelTask_of_halted (h : Halted r₁ r) (t : TaskId) : (r.cancelTask t).toTasks = r.toTasks := by
  unfold cancelTask
  split_ifs with _ hrun
  · rfl
  · rfl
  · exact absurd h.running hrun

theorem beatReply_of_failed (hf : r.heartbeat = .failed) (h : r.beatReply b o throws B = some r') :
    r'.toTasks = r.toTasks ∧ r'.heartbeat = .failed ∧ r'.running = r.running := by
  cases beatReply_cases h with
  | disposed => exact ⟨rfl, hf, rfl⟩
  | failed hheart | counted hheart | even hheart | repaired hheart | threw hheart =>
    exact absurd hf hheart

theorem repair_unstopped {rep : Repair} {own : List TaskId} (h : r.repair own throws rep = .ok r')
    (hr : r.Unstopped) : r'.Unstopped := by
  cases rep with
  | handleLostTasks =>
    obtain ⟨lost, expiring, rfl⟩ := handleLostTasks_frame (Or.inl h)
    exact hr
  | handleUnownedTasks =>
    simp only [repair, handleUnownedTasks] at h
    split at h
    · rename_i s hs
      obtain rfl := Except.ok.inj h
      exact Loops.foldlM_ok Tasks.Unstopped (fun _ _ _ hok hu => hu.stopTask hok) hs hr
    · simp at h

theorem beatReply_unstopped (h : r.beatReply b o throws B = some r') (hne : r'.heartbeat ≠ .failed)
    (hr : r.Unstopped) : r'.Unstopped := by
  cases beatReply_cases h with
  | disposed | counted | even => exact hr
  | failed | threw => exact absurd rfl hne
  | repaired _ _ hok => exact repair_unstopped hok hr

theorem Halted.of_fails (hfails : r.StoreCallFails b o throws)
    (h : r.step (.beatReply b o throws) = some r') : Halted r r' := by
  obtain ⟨hheart, hcause⟩ := hfails
  obtain ⟨B, hb, h⟩ := Option.bind_eq_some_iff.mp h
  have hquiet : o.failed = false → ∃ own r₁, B = .ownTasks .handleLostTasks own ∧
      (r.setBeat b .ended).handleLostTasks own throws = .error r₁ := by
    intro ho
    obtain ⟨own, r₁, hown, hthrows⟩ := hcause.resolve_left (by simp [ho])
    exact ⟨own, r₁, Option.some.inj (hb.symm.trans hown), hthrows⟩
  cases beatReply_cases h with
  | disposed hdisposed => exact absurd hdisposed hheart
  | failed => exact ⟨rfl, rfl, id⟩
  | counted _ ho | even _ ho =>
    obtain ⟨own, r₁, hown, -⟩ := hquiet ho
    simp at hown
  | repaired _ ho hok =>
    obtain ⟨own, r₁, hown, hthrows⟩ := hquiet ho
    obtain ⟨rfl, rfl⟩ := Beat.ownTasks.inj hown
    simp [repair, hthrows] at hok
  | threw _ ho herror =>
    obtain ⟨own, r₁, hown, -⟩ := hquiet ho
    obtain ⟨rfl, rfl⟩ := Beat.ownTasks.inj hown
    obtain ⟨lost, expiring, rfl⟩ := handleLostTasks_frame (Or.inr herror)
    exact ⟨rfl, rfl, id⟩

theorem Effect.keeps_heartbeat (h : Effect r e r') (hbeat : ∀ b, e ≠ .beat b)
    (hreply : ∀ b o throws, e ≠ .beatReply b o throws) :
    r'.heartbeat = r.heartbeat ∧ (r'.running = true → r.running = true) := by
  cases h with
  | heartbeat | beat => exact absurd rfl (hbeat _)
  | beatReply => exact absurd rfl (hreply _ _ _)
  | stop => exact ⟨rfl, fun hr => by simp [TaskRunner.stop] at hr⟩
  | tasks | runTaskStream | cancelTaskStream | cancelFailed | heartbeatTasks | getOwnTasks | expireLease =>
    exact ⟨rfl, id⟩

theorem keeps_failed (hstep : r.step e = some r') (hf : r.heartbeat = .failed) :
    r'.heartbeat = .failed ∧ (r'.running = true → r.running = true) ∧
      ∀ {p}, .stop p ∈ r'.log → .stop p ∈ r.log := by
  by_cases hbeat : ∃ b, e = .beat b
  · obtain ⟨b, rfl⟩ := hbeat
    obtain ⟨-, rfl⟩ : r.beats b = none ∧ r = r' := by simpa [step, onBeat, hf] using hstep
    exact ⟨hf, id, id⟩
  by_cases hreply : ∃ b o throws, e = .beatReply b o throws
  · obtain ⟨b, o, throws, rfl⟩ := hreply
    obtain ⟨B, -, hB⟩ := Option.bind_eq_some_iff.mp hstep
    obtain ⟨htasks, hheart, hrun⟩ := beatReply_of_failed hf hB
    exact ⟨hheart, fun hr => hrun ▸ hr, fun hp => htasks ▸ hp⟩
  push Not at hbeat hreply
  obtain ⟨hheart, hrun⟩ := (step_effect hstep).keeps_heartbeat hbeat hreply
  exact ⟨hheart.trans hf, hrun, ((step_change hstep).stop_mem hreply).mp⟩

theorem Halted.step (h : Halted r₁ r) (hstep : r.step e = some r') : Halted r₁ r' := by
  obtain ⟨hheart, hrun, hstop⟩ := keeps_failed hstep h.heartbeat
  have hrunning : r'.running = false := by
    by_contra hr
    have hbefore : r.running = true := hrun (by simpa using hr)
    simp [h.running] at hbefore
  exact ⟨hrunning, hheart, fun hp => h.stop (hstop hp)⟩

theorem step_unstopped (hstep : r.step e = some r') (h : r.heartbeat ≠ .failed → r.Unstopped)
    (hne : r'.heartbeat ≠ .failed) : r'.Unstopped := by
  have hnot : r.heartbeat ≠ .failed := fun hf => hne (keeps_failed hstep hf).1
  by_cases hreply : ∃ b o throws, e = .beatReply b o throws
  · obtain ⟨b, o, throws, rfl⟩ := hreply
    obtain ⟨B, -, hB⟩ := Option.bind_eq_some_iff.mp hstep
    exact beatReply_unstopped hB hne (h hnot)
  · push Not at hreply
    exact (h hnot).change (step_change hstep) hreply

end

theorem unstopped_start (limit : Nat) : (start limit).Unstopped := by
  constructor <;> simp [start, Tasks.Entered]

/-- Until a heartbeat fails, no active task has been told to stop. -/
theorem unstopped_run {limit : Nat} {es : List Event} {r : TaskRunner}
    (h : Lts.exec step (start limit) es = some r) (hne : r.heartbeat ≠ .failed) : r.Unstopped :=
  Lts.invariant (fun r => r.heartbeat ≠ .failed → r.Unstopped)
    (fun _ _ _ hstep hs => step_unstopped hstep hs) (fun _ => unstopped_start limit) h hne

theorem Halted.run {r₁ r r' : TaskRunner} {es : List Event} (h : Halted r₁ r)
    (hrun : Lts.exec TaskRunner.step r es = some r') : Halted r₁ r' :=
  Lts.invariant (Halted r₁) (fun _ _ _ hstep hs => hs.step hstep) h hrun

end TaskRunner

open TaskRunner

/-- After a heartbeat has failed, the runner has stopped working exactly when it had
no active tasks. -/
theorem heartbeat_stops_iff (limit : Nat) (pre post : List Event) (b : BeatId) (o : Outcome)
    (throws : TaskId → Bool) (r₁ r₂ r₃ : TaskRunner)
    (hpre : Lts.exec TaskRunner.step (.start limit) pre = some r₁)
    (hfails : r₁.StoreCallFails b o throws) (hstep : r₁.step (.beatReply b o throws) = some r₂)
    (hpost : Lts.exec TaskRunner.step r₂ post = some r₃) :
    StopsWorking r₁ r₃ ↔ ∀ t, t ∉ r₁.activeTasks := by
  have hunstopped : r₁.Unstopped := unstopped_run hpre hfails.1
  have hhalted : Halted r₁ r₃ := (Halted.of_fails hfails hstep).run hpost
  constructor
  · intro hstops t ht
    obtain ⟨p, hp⟩ := Tasks.mem_iff_lookup.mp ht
    have hlater : .stop p ∈ r₃.log := hstops.stop hp
    exact hunstopped.entry hp (hhalted.stop hlater)
  · intro hnone
    refine ⟨acceptRunTask_of_halted hhalted, cancelTask_of_halted hhalted, fun {t p} hp => ?_⟩
    exact absurd (Tasks.mem_of_lookup hp) (hnone t)

def finishedRun : List Event :=
  [.runTask 0 7, .checkoutTask 0 true, .reply 0 .resolve, .reply 0 .resolve, .reply 0 .resolve, .reply 0 .resolve,
    .setTaskState 0, .beat 0, .reply 0 .resolve]

/-- A task has run to its end, and messages for it and another come after the failure. -/
theorem heartbeat_stops_idle : ∃ r₁ r₂ r₃, Lts.exec TaskRunner.step (.start 3) finishedRun = some r₁ ∧
    .run 0 ∈ r₁.log ∧ r₁.step (.beatReply 0 .reject fun _ => false) = some r₂ ∧
    Lts.exec TaskRunner.step r₂ [.runTask 1 8, .cancelTask 7] = some r₃ ∧ StopsWorking r₁ r₃ := by
  refine ⟨_, _, _, rfl, by decide, rfl, rfl, ?_⟩
  refine (heartbeat_stops_iff 3 finishedRun [.runTask 1 8, .cancelTask 7] 0 .reject (fun _ => false) _ _ _ rfl
    ⟨by decide, Or.inl rfl⟩ rfl rfl).mpr ?_
  exact fun t => AList.notMem_empty t

/-- A task that runs when the heartbeat fails goes on to its end. -/
theorem heartbeat_leaves_running : ∃ r₁ r₂ r₃, Lts.exec TaskRunner.step (.start 3) [.runTask 0 7,
      .checkoutTask 0 true, .reply 0 .resolve, .reply 0 .resolve, .reply 0 .resolve, .beat 0] = some r₁ ∧
    r₁.StoreCallFails 0 .reject (fun _ => false) ∧
    r₁.step (.beatReply 0 .reject fun _ => false) = some r₂ ∧
    Lts.exec TaskRunner.step r₂ [.stop, .reply 0 .resolve] = some r₃ ∧
    r₃.pipes 0 = some ⟨7, .setTaskState⟩ ∧ ¬ StopsWorking r₁ r₃ := by
  refine ⟨_, _, _, rfl, ⟨by decide, Or.inl rfl⟩, rfl, rfl, rfl, fun h => ?_⟩
  have hstop : Call.stop 0 ∈ _ := h.stop (t := 7) rfl
  exact absurd hstop (by decide)

end OnTaskGraph
