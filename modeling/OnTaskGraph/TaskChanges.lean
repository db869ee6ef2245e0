import OnTaskGraph.Loops
import OnTaskGraph.TaskRunner

/-! What one event can do to the tasks of a runner. Everything that is proved
about runs of a task runner goes through `step_change`. -/

namespace OnTaskGraph

open Loops (Leaves)

def Stage.live : Stage → Bool
  | .run | .setTaskState | .stateSet => true
  | _ => false

def Stage.started : Stage → Bool
  | .run | .setTaskState | .stateSet | .ended => true
  | _ => false

/-- The outcome ends an activated pipeline through its catch, or empty. -/
def Stage.breaks : Stage → Outcome → Bool
  | .run, o => o ≠ .resolve
  | .setTaskState, o | .stateSet, o => o.failed
  | _, _ => false

theorem Stage.started_of_live {st : Stage} (h : st.live = true) : st.started = true := by
  cases st <;> simp_all [live, started]

inductive Moves : Event → PipeId → Stage → Stage → Prop
  | checkoutTask {p granted} : Moves (.checkoutTask p granted) p .checkoutTask (.checkedOut granted)
  | checkedOut {p o} : Moves (.reply p o) p (.checkedOut true) .getTaskById
  | fetched {p} : Moves (.reply p .resolve) p .getTaskById .create
  | ran {p} : Moves (.reply p .resolve) p .run .setTaskState
  | setTaskState {p} : Moves (.setTaskState p) p .setTaskState .stateSet
  | ended {p o st} : st ≠ .ended → (st.live = true → st.breaks o = true) →
      Moves (.reply p o) p st .ended

namespace Tasks

theorem mem_taskIds {s : Tasks} {t : TaskId} : t ∈ s.taskIds ↔ t ∈ s.activeTasks := by
  rw [taskIds, List.mem_reverse, AList.mem_keys]

theorem taskIds_nodup (s : Tasks) : s.taskIds.Nodup := List.nodup_reverse.mpr s.activeTasks.keys_nodup

theorem lookup_replace {active : AList fun _ : TaskId => PipeId} {t : TaskId} (ht : t ∈ active) (p : PipeId)
    (u : TaskId) : (active.replace t p).lookup u = if u = t then some p else active.lookup u := by
  obtain ⟨l, hl⟩ := active
  replace ht : t ∈ l.keys := ht
  change List.dlookup u (List.kreplace t p l) = if u = t then some p else List.dlookup u l
  clear hl
  induction l with
  | nil => simp at ht
  | cons entry l ih =>
    obtain ⟨v, q⟩ := entry
    by_cases htv : t = v
    · subst htv
      have hfirst : List.kreplace t p (⟨t, q⟩ :: l) = ⟨t, p⟩ :: l := List.lookmap_cons_some _ _ (dif_pos rfl)
      rw [hfirst]
      by_cases hut : u = t
      · subst hut
        simp
      · simp [hut, List.dlookup_cons_ne]
    · have hrest : t ∈ l.keys := by simpa [htv] using ht
      have hlater : List.kreplace t p (⟨v, q⟩ :: l) = ⟨v, q⟩ :: List.kreplace t p l :=
        List.lookmap_cons_none _ _ (dif_neg htv)
      rw [hlater]
      by_cases huv : u = v
      · subst huv
        simp [Ne.symm htv]
      · simpa [huv, List.dlookup_cons_ne] using ih hrest

theorem lookup_assign (active : AList fun _ : TaskId => PipeId) (t : TaskId) (p : PipeId) (u : TaskId) :
    (assign active t p).lookup u = if u = t then some p else active.lookup u := by
  unfold assign
  split_ifs with ht hu hu
  · simp [lookup_replace ht, hu]
  · simp [lookup_replace ht, hu]
  · rw [hu, AList.lookup_insert]
  · rw [AList.lookup_insert_ne hu]

@[simp] theorem lookup_assign_self (active : AList fun _ : TaskId => PipeId) (t : TaskId) (p : PipeId) :
    (assign active t p).lookup t = some p := by
  rw [lookup_assign, if_pos rfl]

theorem lookup_assign_ne {active : AList fun _ : TaskId => PipeId} {t u : TaskId} {p : PipeId} (h : u ≠ t) :
    (assign active t p).lookup u = active.lookup u := by
  rw [lookup_assign, if_neg h]

theorem pipe_inj {s : Tasks} {p : PipeId} {t u : TaskId} {st st' : Stage}
    (h : s.pipes p = some ⟨t, st⟩) (h' : s.pipes p = some ⟨u, st'⟩) : t = u ∧ st = st' :=
  Pipe.mk.inj (Option.some.inj (h.symm.trans h'))

/-- Part of the loop in `handleUnownedTasks`. -/
inductive Stopping : Tasks → Tasks → Prop
  | refl {s} : Stopping s s
  | absent {s s' t} : s.activeTasks.lookup t = none → Stopping (s.deactivate t) s' → Stopping s s'
  | stopped {s s' t p} : s.activeTasks.lookup t = some p →
      Stopping (((s.record (.stop p)).record (.stopped p)).deactivate t) s' → Stopping s s'
  | threw {s t p} : s.activeTasks.lookup t = some p → Stopping s (s.record (.stop p))

inductive Change (s : Tasks) : Event → Tasks → Prop
  | idle {e} : Change s e s
  | accept {p t} : s.pipes p = none → t ∉ s.activeTasks →
      Change s (.runTask p t) (s.setPipe p t .checkoutTask)
  | move {e p t st st'} : s.pipes p = some ⟨t, st⟩ → Moves e p st st' → Change s e (s.setPipe p t st')
  | activate {p t} : s.pipes p = some ⟨t, .create⟩ → Change s (.reply p .resolve) (s.activate p t)
  | finish {p t o} : s.pipes p = some ⟨t, .stateSet⟩ → o.failed = false →
      Change s (.reply p o) ((s.deactivate t).setPipe p t .ended)
  | cancel {t p} : s.activeTasks.lookup t = some p → Change s (.cancelTask t) (s.cancel t p)
  | cancelled {c o} : c ∈ s.cancels → o.failed = false → Change s (.cancelReply c o) (s.cancelled c)
  | cancelFailed {c o} : c ∈ s.cancels → o.failed = true →
      Change s (.cancelReply c o) (s.cancelFailed c)
  | stopping {b o throws s'} : Stopping s s' → Change s (.beatReply b o throws) s'

/-- The loop in `handleUnownedTasks`, over a list of tasks. -/
inductive StopLoop (throws : TaskId → Bool) : List TaskId → Tasks → Tasks → Prop
  | done {s} : StopLoop throws [] s s
  | absent {t ts s s'} : s.activeTasks.lookup t = none → StopLoop throws ts (s.deactivate t) s' →
      StopLoop throws (t :: ts) s s'
  | stopped {t ts s s' p} : s.activeTasks.lookup t = some p → throws t = false →
      StopLoop throws ts (((s.record (.stop p)).record (.stopped p)).deactivate t) s' →
      StopLoop throws (t :: ts) s s'
  | threw {t ts s p} : s.activeTasks.lookup t = some p → throws t = true →
      StopLoop throws (t :: ts) s (s.record (.stop p))

theorem stopLoop_of_foldlM {throws : TaskId → Bool} {ts : List TaskId} {s s' : Tasks}
    (h : Leaves (ts.foldlM (stopTask throws) s) s') : StopLoop throws ts s s' := by
  induction ts generalizing s with
  | nil =>
    have : s = s' := by simpa [Leaves, pure, Except.pure] using h
    exact this ▸ .done
  | cons t ts ih =>
    rw [Loops.foldlM_cons_leaves] at h
    cases hl : s.activeTasks.lookup t with
    | none =>
      have hrest : Leaves (ts.foldlM (stopTask throws) (s.deactivate t)) s' := by
        simpa [stopTask, hl] using h
      exact .absent hl (ih hrest)
    | some p =>
      cases ht : throws t with
      | true =>
        have : s.record (.stop p) = s' := by simpa [stopTask, hl, ht] using h
        exact this ▸ .threw hl ht
      | false =>
        have hrest : Leaves (ts.foldlM (stopTask throws)
            (((s.record (.stop p)).record (.stopped p)).deactivate t)) s' := by
          simpa [stopTask, hl, ht] using h
        exact .stopped hl ht (ih hrest)

theorem StopLoop.stopping {throws : TaskId → Bool} {ts : List TaskId} {s s' : Tasks}
    (h : StopLoop throws ts s s') : Stopping s s' := by
  induction h with
  | done => exact .refl
  | absent hl _ ih => exact .absent hl ih
  | stopped hl _ _ ih => exact .stopped hl ih
  | threw hl _ => exact .threw hl

theorem reply_change {s s' : Tasks} {p : PipeId} {t : TaskId} {st : Stage} {o : Outcome}
    (hp : s.pipes p = some ⟨t, st⟩) (h : s.reply p t o st = some s') : Change s (.reply p o) s' := by
  cases st with
  | checkoutTask =>
    obtain ⟨-, rfl⟩ : o.failed = true ∧ s.setPipe p t .ended = s' := by simpa [reply] using h
    exact .move hp (.ended (by simp) (by simp [Stage.live]))
  | checkedOut granted =>
    simp only [reply] at h
    split at h
    · obtain rfl := Option.some.inj h
      exact .move hp (.ended (by simp) (by simp [Stage.live]))
    · obtain rfl := Option.some.inj h
      obtain rfl : granted = true := by simp_all
      exact .move hp .checkedOut
  | getTaskById =>
    simp only [reply] at h
    split at h <;> obtain rfl := Option.some.inj h
    · rename_i ho
      exact ho ▸ .move hp .fetched
    · exact .move hp (.ended (by simp) (by simp [Stage.live]))
  | create =>
    simp only [reply] at h
    split at h <;> obtain rfl := Option.some.inj h
    · rename_i ho
      exact ho ▸ .activate hp
    · exact .move hp (.ended (by simp) (by simp [Stage.live]))
  | run =>
    simp only [reply] at h
    split at h <;> obtain rfl := Option.some.inj h
    · rename_i ho
      exact ho ▸ .move hp .ran
    · rename_i ho
      exact .move hp (.ended (by simp) (by simp [Stage.breaks, ho]))
  | setTaskState =>
    obtain ⟨ho, rfl⟩ : o.failed = true ∧ s.setPipe p t .ended = s' := by simpa [reply] using h
    exact .move hp (.ended (by simp) (by simp [Stage.breaks, ho]))
  | stateSet =>
    simp only [reply] at h
    split at h <;> obtain rfl := Option.some.inj h
    · rename_i ho
      exact .move hp (.ended (by simp) (by simp [Stage.breaks, ho]))
    · rename_i ho
      exact .finish hp (by simpa using ho)
  | ended => simp [reply] at h

end Tasks

namespace TaskRunner

open Tasks

theorem handleLostTasks_frame {r r' : TaskRunner} {own : List TaskId} {throws : TaskId → Bool}
    (h : Leaves (r.handleLostTasks own throws) r') :
    ∃ lost expiring, r' = { r with lostTasks := lost, expiring := expiring } := by
  refine Loops.foldlM_leaves (fun r r' : TaskRunner =>
    ∃ lost expiring, r' = { r with lostTasks := lost, expiring := expiring }) ?_ ?_ ?_ h
  · exact fun r => ⟨_, _, rfl⟩
  · rintro r _ _ ⟨lost, expiring, rfl⟩ ⟨lost', expiring', rfl⟩
    exact ⟨lost', expiring', rfl⟩
  · intro r t r' hr
    simp only [Leaves, loseTask] at hr
    split_ifs at hr
    · obtain rfl := Except.error.inj (hr.resolve_left (by simp))
      exact ⟨_, _, rfl⟩
    · obtain rfl := Except.ok.inj (hr.resolve_right (by simp))
      exact ⟨_, _, rfl⟩
    · obtain rfl := Except.ok.inj (hr.resolve_right (by simp))
      exact ⟨_, _, rfl⟩

theorem handleUnownedTasks_change {r r' : TaskRunner} {own : List TaskId} {throws : TaskId → Bool}
    (h : Leaves (r.handleUnownedTasks own throws) r') :
    ∃ s, r' = r.withTasks s ∧ StopLoop throws (difference r.taskIds own) r.toTasks s := by
  simp only [Leaves, handleUnownedTasks] at h
  split at h
  · rename_i s hs
    have hr' : r.withTasks s = r' := by simpa using h
    exact ⟨s, hr'.symm, stopLoop_of_foldlM (Or.inl hs)⟩
  · rename_i s hs
    have hr' : r.withTasks s = r' := by simpa using h
    exact ⟨s, hr'.symm, stopLoop_of_foldlM (Or.inr hs)⟩

structure RepairFrame (r r' : TaskRunner) : Prop where
  stopping : Stopping r.toTasks r'.toTasks
  running : r'.running = r.running
  cancelTaskStream : r'.cancelTaskStream = r.cancelTaskStream
  beats : r'.beats = r.beats

theorem repair_frame {r r' : TaskRunner} {own : List TaskId} {throws : TaskId → Bool} {rep : Repair}
    (h : Leaves (r.repair own throws rep) r') : RepairFrame r r' := by
  cases rep with
  | handleLostTasks =>
    obtain ⟨lost, expiring, rfl⟩ := handleLostTasks_frame h
    exact ⟨.refl, rfl, rfl, rfl⟩
  | handleUnownedTasks =>
    obtain ⟨s, rfl, hs⟩ := handleUnownedTasks_change h
    exact ⟨hs.stopping, rfl, rfl, rfl⟩

/-- The answer to the call that a heartbeat waits for. -/
inductive BeatReply (r : TaskRunner) (b : BeatId) (o : Outcome) (throws : TaskId → Bool) :
    Beat → TaskRunner → Prop
  | disposed {B} : r.heartbeat = .failed → BeatReply r b o throws B (r.setBeat b .ended)
  | failed {B} : r.heartbeat ≠ .failed → o.failed = true →
      BeatReply r b o throws B (r.setBeat b .ended).heartbeatFailed
  | counted {n rep} : r.heartbeat ≠ .failed → o.failed = false → r.neededRepair n = some rep →
      BeatReply r b o throws (.taskCount n) (r.setBeat b (.getOwnTasks rep))
  | even {n} : r.heartbeat ≠ .failed → o.failed = false → r.neededRepair n = none →
      BeatReply r b o throws (.taskCount n) (r.setBeat b .ended)
  | repaired {rep own r'} : r.heartbeat ≠ .failed → o.failed = false →
      (r.setBeat b .ended).repair own throws rep = .ok r' → BeatReply r b o throws (.ownTasks rep own) r'
  | threw {rep own r'} : r.heartbeat ≠ .failed → o.failed = false →
      (r.setBeat b .ended).repair own throws rep = .error r' →
      BeatReply r b o throws (.ownTasks rep own) r'.heartbeatFailed

theorem beatReply_cases {r r' : TaskRunner} {b : BeatId} {o : Outcome} {throws : TaskId → Bool}
    {B : Beat} (h : r.beatReply b o throws B = some r') : BeatReply r b o throws B r' := by
  cases B with
  | ended => simp [beatReply] at h
  | heartbeatTasksForRunner | getOwnTasks =>
    simp only [beatReply] at h
    split_ifs at h with hdisposed ho
    · exact Option.some.inj h ▸ .disposed hdisposed
    · exact Option.some.inj h ▸ .failed hdisposed ho
  | taskCount n =>
    simp only [beatReply] at h
    split_ifs at h with hdisposed ho
    · exact Option.some.inj h ▸ .disposed hdisposed
    · exact Option.some.inj h ▸ .failed hdisposed ho
    · have hok : o.failed = false := by simpa using ho
      split at h
      · exact Option.some.inj h ▸ .counted hdisposed hok ‹_›
      · exact Option.some.inj h ▸ .even hdisposed hok ‹_›
  | ownTasks rep own =>
    simp only [beatReply] at h
    split_ifs at h with hdisposed ho
    · exact Option.some.inj h ▸ .disposed hdisposed
    · exact Option.some.inj h ▸ .failed hdisposed ho
    · have hok : o.failed = false := by simpa using ho
      split at h
      · exact Option.some.inj h ▸ .repaired hdisposed hok ‹_›
      · exact Option.some.inj h ▸ .threw hdisposed hok ‹_›

structure BeatFrame (b : BeatId) (r r' : TaskRunner) : Prop where
  stopping : Stopping r.toTasks r'.toTasks
  running : r'.running = true → r.running = true
  cancelTaskStream : r'.cancelTaskStream = r.cancelTaskStream
  beats : ∃ B, (∀ rep own, B ≠ .ownTasks rep own) ∧ r'.beats = Function.update r.beats b (some B)

theorem BeatFrame.heartbeatFailed {b : BeatId} {r r' : TaskRunner} (h : BeatFrame b r r') :
    BeatFrame b r r'.heartbeatFailed :=
  ⟨h.stopping, fun hr => by simp [TaskRunner.heartbeatFailed, stop] at hr, h.cancelTaskStream, h.beats⟩

theorem beatReply_frame {r r' : TaskRunner} {b : BeatId} {o : Outcome} {throws : TaskId → Bool}
    {B : Beat} (h : r.beatReply b o throws B = some r') : BeatFrame b r r' := by
  have hset : ∀ B', (∀ rep own, B' ≠ .ownTasks rep own) → BeatFrame b r (r.setBeat b B') :=
    fun B' hB' => ⟨.refl, id, rfl, B', hB', rfl⟩
  have hrep : ∀ rep own r₁, Leaves ((r.setBeat b .ended).repair own throws rep) r₁ → BeatFrame b r r₁ := by
    intro rep own r₁ h₁
    have hf := repair_frame h₁
    exact ⟨hf.stopping, fun hr => hf.running ▸ hr, hf.cancelTaskStream, .ended, nofun, hf.beats⟩
  cases beatReply_cases h with
  | disposed | even => exact hset .ended nofun
  | failed => exact (hset .ended nofun).heartbeatFailed
  | counted => exact hset _ nofun
  | repaired _ _ hok => exact hrep _ _ _ (Or.inl hok)
  | threw _ _ herror => exact (hrep _ _ _ (Or.inr herror)).heartbeatFailed

/-- What one event does to a runner: to its tasks alone, or to its streams,
heartbeats and pending calls. -/
inductive Effect (r : TaskRunner) : Event → TaskRunner → Prop
  | tasks {e s} : Change r.toTasks e s → (∀ c o, e = .cancelReply c o → o.failed = false) →
      Effect r e (r.withTasks s)
  | runTaskStream {p t} : r.running = false →
      Effect r (.runTask p t) { r with runTaskStream := .completed }
  | cancelTaskStream {t} : r.cancelTaskStream = .active → r.running = false →
      Effect r (.cancelTask t) { r with cancelTaskStream := .completed }
  | cancelFailed {c o} : c ∈ r.cancels → o.failed = true → Effect r (.cancelReply c o)
      { r.withTasks (r.cancelFailed c) with cancelTaskStream := .failed }
  | heartbeat {b} : r.running = false → Effect r (.beat b) { r with heartbeat := .completed }
  | beat {b} : Effect r (.beat b) (r.setBeat b .heartbeatTasksForRunner)
  | heartbeatTasks {b n} : Effect r (.heartbeatTasks b n) (r.setBeat b (.taskCount n))
  | getOwnTasks {b own rep} : r.beats b = some (.getOwnTasks rep) →
      Effect r (.getOwnTasks b own) (r.setBeat b (.ownTasks rep own))
  | beatReply {b o throws r'} : BeatFrame b r r' → Effect r (.beatReply b o throws) r'
  | expireLease {t} : Effect r (.expireLease t) { r with expiring := r.expiring.erase t }
  | stop : Effect r .stop r.stop

theorem step_effect {r r' : TaskRunner} {e : Event} (h : r.step e = some r') : Effect r e r' := by
  cases e with
  | runTask p t =>
    simp only [step, Option.isNone_iff_eq_none] at h
    split_ifs at h with hp
    obtain rfl := Option.some.inj h
    unfold acceptRunTask
    split_ifs with h1 h2 h3
    · exact .tasks .idle nofun
    · exact .runTaskStream h2
    · exact .tasks .idle nofun
    · exact .tasks (.accept hp h3) nofun
  | checkoutTask p granted =>
    simp only [step] at h
    split at h
    · obtain rfl := Option.some.inj h
      exact .tasks (.move ‹_› .checkoutTask) nofun
    · simp at h
  | setTaskState p =>
    simp only [step] at h
    split at h
    · obtain rfl := Option.some.inj h
      exact .tasks (.move ‹_› .setTaskState) nofun
    · simp at h
  | reply p o =>
    obtain ⟨⟨t, st⟩, hp, h⟩ := Option.bind_eq_some_iff.mp h
    obtain ⟨s, hs, rfl⟩ := Option.map_eq_some_iff.mp h
    exact .tasks (reply_change hp hs) nofun
  | cancelTask t =>
    obtain rfl := Option.some.inj h
    unfold cancelTask
    split_ifs with h1 h2
    · exact .tasks .idle nofun
    · exact .cancelTaskStream (not_not.mp h1) h2
    · split
      · exact .tasks .idle nofun
      · exact .tasks (.cancel ‹_›) nofun
  | cancelReply c o =>
    simp only [step] at h
    split_ifs at h with hc
    obtain rfl := Option.some.inj h
    unfold cancelReply
    split_ifs with ho
    · exact .cancelFailed hc ho
    · have hok : o.failed = false := by simpa using ho
      refine .tasks (.cancelled hc hok) fun d o' he => ?_
      exact (Event.cancelReply.inj he).2 ▸ hok
  | beat b =>
    simp only [step] at h
    split_ifs at h
    obtain rfl := Option.some.inj h
    unfold onBeat
    split_ifs with h1 h2
    · exact .tasks .idle nofun
    · exact .heartbeat h2
    · exact .beat
  | heartbeatTasks b n =>
    simp only [step] at h
    split at h
    · obtain rfl := Option.some.inj h
      exact .heartbeatTasks
    · simp at h
  | getOwnTasks b own =>
    simp only [step] at h
    split at h
    · obtain rfl := Option.some.inj h
      exact .getOwnTasks ‹_›
    · simp at h
  | beatReply b o throws =>
    obtain ⟨B, -, h⟩ := Option.bind_eq_some_iff.mp h
    exact .beatReply (beatReply_frame h)
  | expireLease t =>
    simp only [step] at h
    split_ifs at h
    obtain rfl := Option.some.inj h
    exact .expireLease
  | stop =>
    obtain rfl := Option.some.inj h
    exact .stop

theorem step_change {r r' : TaskRunner} {e : Event} (h : r.step e = some r') :
    Change r.toTasks e r'.toTasks := by
  cases step_effect h with
  | tasks hc _ => exact hc
  | cancelFailed hc ho => exact .cancelFailed hc ho
  | beatReply hframe => exact .stopping hframe.stopping
  | runTaskStream | cancelTaskStream | heartbeat | beat | heartbeatTasks | getOwnTasks | expireLease
  | stop => exact .idle

end TaskRunner

end OnTaskGraph
