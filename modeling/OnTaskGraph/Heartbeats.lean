import OnTaskGraph.PipeProgress

/-! One heartbeat that nothing interleaves with. Which repair it runs depends on
the sizes of two sets only, so a lost task can mask an unowned one. -/

namespace OnTaskGraph

open Loops (Leaves)

namespace Tasks

theorem Stopping.not_mem {s s' : Tasks} {t : TaskId} (h : Stopping s s') (ht : t ∉ s.activeTasks) :
    t ∉ s'.activeTasks := by
  intro ht'
  obtain ⟨p, hp⟩ := mem_iff_lookup.mp ht'
  exact ht (mem_of_lookup (h.lookup hp))

theorem StopLoop.stops {throws : TaskId → Bool} {ts : List TaskId} {s s' : Tasks}
    (h : StopLoop throws ts s s') (hthrows : ∀ t ∈ ts, throws t = false) :
    ∀ t ∈ ts, t ∉ s'.activeTasks ∧ ∀ p, s.activeTasks.lookup t = some p → .stopped p ∈ s'.log := by
  induction h with
  | done => simp
  | @absent u ts s s' hl hrest ih =>
    have ih := ih (List.forall_mem_cons.mp hthrows).2
    have hgone : u ∉ (s.deactivate u).activeTasks := by simp [deactivate, AList.mem_erase]
    intro t ht
    by_cases htu : t = u
    · subst htu
      exact ⟨hrest.stopping.not_mem hgone, by simp [hl]⟩
    · obtain ⟨hout, hstopped⟩ := ih t ((List.mem_cons.mp ht).resolve_left htu)
      exact ⟨hout, fun p hp => hstopped p ((AList.lookup_erase_ne htu).trans hp)⟩
  | @stopped u ts s s' q hl _ hrest ih =>
    have ih := ih (List.forall_mem_cons.mp hthrows).2
    have hgone : u ∉ (((s.record (.stop q)).record (.stopped q)).deactivate u).activeTasks := by
      simp [deactivate, AList.mem_erase]
    intro t ht
    by_cases htu : t = u
    · subst htu
      refine ⟨hrest.stopping.not_mem hgone, fun p hp => hrest.stopping.log_subset ?_⟩
      obtain rfl := Option.some.inj (hl.symm.trans hp)
      exact List.mem_cons_self
    · obtain ⟨hout, hstopped⟩ := ih t ((List.mem_cons.mp ht).resolve_left htu)
      exact ⟨hout, fun p hp => hstopped p ((AList.lookup_erase_ne htu).trans hp)⟩
  | threw _ hu => simp [hu] at hthrows

theorem StopLoop.leaves {throws : TaskId → Bool} {ts : List TaskId} {s s' : Tasks}
    (h : StopLoop throws ts s s') (hnodup : ts.Nodup) (hmem : ∀ t ∈ ts, t ∈ s.activeTasks)
    (hthrows : ∃ t ∈ ts, throws t = true) : ∃ t ∈ ts, t ∈ s'.activeTasks := by
  induction h with
  | done => simp at hthrows
  | absent hl =>
    obtain ⟨p, hp⟩ := mem_iff_lookup.mp (hmem _ List.mem_cons_self)
    simp [hl] at hp
  | @stopped u ts s s' q hl hu _ ih =>
    rw [List.nodup_cons] at hnodup
    have hkeep : ∀ t ∈ ts, t ∈ (((s.record (.stop q)).record (.stopped q)).deactivate u).activeTasks := by
      intro t ht
      have htu : t ≠ u := by
        rintro rfl
        exact hnodup.1 ht
      simp [deactivate, record, AList.mem_erase, htu, hmem t (List.mem_cons_of_mem _ ht)]
    have htail : ∃ t ∈ ts, throws t = true := by simpa [hu] using hthrows
    obtain ⟨v, hv, hleft⟩ := ih hnodup.2 hkeep htail
    exact ⟨v, List.mem_cons_of_mem _ hv, hleft⟩
  | threw => exact ⟨_, List.mem_cons_self, hmem _ List.mem_cons_self⟩

end Tasks

namespace TaskRunner

theorem mem_difference {xs ys : List TaskId} {t : TaskId} :
    t ∈ difference xs ys ↔ t ∈ xs ∧ t ∉ ys := by
  simp [difference]

/-- A heartbeat whose store calls succeed, `own` being the tasks the store
reports as owned, with no other event in between. -/
def heartbeatEvents (r : TaskRunner) (b : BeatId) (own : List TaskId) (throws : TaskId → Bool) :
    List Event :=
  [.beat b, .heartbeatTasks b own.length, .beatReply b .resolve throws] ++
    if (r.neededRepair own.length).isSome then [.getOwnTasks b own, .beatReply b .resolve throws]
    else []

section

variable {r : TaskRunner} {b : BeatId} {own : List TaskId} {throws : TaskId → Bool}

theorem setBeat_setBeat {B B' : Beat} : (r.setBeat b B).setBeat b B' = r.setBeat b B' := by
  simp [setBeat]

theorem step_beatReply {B : Beat} (hb : r.beats b = some B) :
    r.step (.beatReply b .resolve throws) = r.beatReply b .resolve throws B := by
  simp [step, hb]

variable (b own throws)

theorem exec_taskCount (hrun : r.running = true) (hactive : r.heartbeat = .active)
    (hb : r.beats b = none) (n : Nat) :
    Lts.exec step r [.beat b, .heartbeatTasks b n, .beatReply b .resolve throws] =
      match r.neededRepair n with
      | some rep => some (r.setBeat b (.getOwnTasks rep))
      | none => some (r.setBeat b .ended) := by
  have hbeat : r.step (.beat b) = some (r.setBeat b .heartbeatTasksForRunner) := by
    simp [step, hb, onBeat, hactive, hrun]
  have hcount : (r.setBeat b .heartbeatTasksForRunner).step (.heartbeatTasks b n) =
      some (r.setBeat b (.taskCount n)) := by
    simp [step, setBeat]
  have hreply : (r.setBeat b (.taskCount n)).step (.beatReply b .resolve throws) =
      (r.setBeat b (.taskCount n)).beatReply b .resolve throws (.taskCount n) :=
    step_beatReply (by simp [setBeat])
  have hneed : (r.setBeat b (.taskCount n)).neededRepair n = r.neededRepair n := rfl
  have hheart : (r.setBeat b (.taskCount n)).heartbeat = .active := hactive
  simp only [Lts.exec, hbeat, hcount, Option.bind_some, hreply, beatReply, hneed, hheart,
    setBeat_setBeat, Outcome.failed]
  cases r.neededRepair n <;> rfl

theorem exec_ownTasks (hactive : r.heartbeat = .active) (rep : Repair) :
    ∃ r' r'', Lts.exec step (r.setBeat b (.getOwnTasks rep))
        [.getOwnTasks b own, .beatReply b .resolve throws] = some r' ∧
      Leaves ((r.setBeat b .ended).repair own throws rep) r'' ∧ r'.toTasks = r''.toTasks := by
  have hown : (r.setBeat b (.getOwnTasks rep)).step (.getOwnTasks b own) =
      some (r.setBeat b (.ownTasks rep own)) := by
    simp [step, setBeat]
  have hreply : (r.setBeat b (.ownTasks rep own)).step (.beatReply b .resolve throws) =
      (r.setBeat b (.ownTasks rep own)).beatReply b .resolve throws (.ownTasks rep own) :=
    step_beatReply (by simp [setBeat])
  have hheart : (r.setBeat b (.ownTasks rep own)).heartbeat = .active := hactive
  simp only [Lts.exec, hown, Option.bind_some, hreply, beatReply, hheart, setBeat_setBeat, Outcome.failed]
  cases hrep : (r.setBeat b .ended).repair own throws rep with
  | ok r₁ => exact ⟨r₁, r₁, rfl, Or.inl rfl, rfl⟩
  | error r₁ => exact ⟨r₁.heartbeatFailed, r₁, rfl, Or.inr rfl, rfl⟩

theorem exec_heartbeat (hrun : r.running = true) (hactive : r.heartbeat = .active)
    (hb : r.beats b = none) :
    ∃ r', Lts.exec step r (r.heartbeatEvents b own throws) = some r' ∧
      (own.length < r.activeTasks.keys.length →
        Tasks.StopLoop throws (difference r.taskIds own) r.toTasks r'.toTasks) ∧
      (r.activeTasks.keys.length ≤ own.length → r'.toTasks = r.toTasks) := by
  have hcount := exec_taskCount b throws hrun hactive hb own.length
  rw [heartbeatEvents, Lts.exec_append, hcount]
  cases hneed : r.neededRepair own.length with
  | none =>
    refine ⟨r.setBeat b .ended, by simp [Lts.exec], fun hlt => ?_, fun _ => rfl⟩
    simp [neededRepair, hlt] at hneed
  | some rep =>
    obtain ⟨r', r'', hr', hrep, htasks⟩ := exec_ownTasks b own throws hactive rep
    refine ⟨r', by simpa using hr', ?_⟩
    rw [htasks]
    cases rep with
    | handleUnownedTasks =>
      obtain ⟨s, rfl, hs⟩ := handleUnownedTasks_change hrep
      refine ⟨fun _ => hs, fun hle => ?_⟩
      have hnot : ¬ own.length < r.activeTasks.keys.length := by omega
      rw [neededRepair, if_neg hnot] at hneed
      split_ifs at hneed
      simp at hneed
    | handleLostTasks =>
      obtain ⟨lost, expiring, rfl⟩ := handleLostTasks_frame hrep
      refine ⟨fun hlt => ?_, fun _ => rfl⟩
      simp [neededRepair, hlt] at hneed

end

end TaskRunner

open TaskRunner

/-- After an uninterrupted heartbeat every unowned task is stopped and removed
exactly when there is none, or the tasks owned are fewer than the active ones and
no `stop()` throws. -/
theorem heartbeat_stops_unowned (r : TaskRunner) (b : BeatId) (own : List TaskId)
    (throws : TaskId → Bool) (hrun : r.running = true) (hactive : r.heartbeat = .active)
    (hb : r.beats b = none) :
    ∃ r', Lts.exec step r (r.heartbeatEvents b own throws) = some r' ∧
      ((∀ t p, r.activeTasks.lookup t = some p → t ∉ own → t ∉ r'.activeTasks ∧ .stopped p ∈ r'.log) ↔
        (∀ t ∈ r.activeTasks, t ∈ own) ∨
          (own.length < r.activeTasks.keys.length ∧ ∀ t ∈ r.activeTasks, t ∉ own → throws t = false)) := by
  obtain ⟨r', hr', hunowned, hnone⟩ := exec_heartbeat b own throws hrun hactive hb
  refine ⟨r', hr', ?_⟩
  have hdiff : ∀ t, t ∈ difference r.taskIds own ↔ t ∈ r.activeTasks ∧ t ∉ own := by
    intro t
    rw [mem_difference, Tasks.mem_taskIds]
  have hentry : ∀ t ∈ r.activeTasks, ∃ p, r.activeTasks.lookup t = some p :=
    fun t ht => Tasks.mem_iff_lookup.mp ht
  by_cases hlt : own.length < r.activeTasks.keys.length
  · have hloop := hunowned hlt
    constructor
    · intro hall
      by_cases hthrows : ∃ t ∈ difference r.taskIds own, throws t = true
      · have hnodup : (difference r.taskIds own).Nodup := r.taskIds_nodup.filter _
        obtain ⟨t, ht, hleft⟩ := hloop.leaves hnodup
          (fun t ht => ((hdiff t).mp ht).1) hthrows
        obtain ⟨hin, hout⟩ := (hdiff t).mp ht
        obtain ⟨p, hp⟩ := hentry t hin
        exact absurd hleft (hall t p hp hout).1
      · refine Or.inr ⟨hlt, fun t ht hout => ?_⟩
        by_contra hc
        exact hthrows ⟨t, (hdiff t).mpr ⟨ht, hout⟩, by simpa using hc⟩
    · rintro hcond t p hp hout
      have hin : t ∈ r.activeTasks := Tasks.mem_of_lookup hp
      have hthrows : ∀ u ∈ difference r.taskIds own, throws u = false := by
        intro u hu
        obtain ⟨huin, huout⟩ := (hdiff u).mp hu
        exact hcond.elim (fun hsub => absurd (hsub u huin) huout) (fun h => h.2 u huin huout)
      have hdone := hloop.stops hthrows t ((hdiff t).mpr ⟨hin, hout⟩)
      exact ⟨hdone.1, hdone.2 p hp⟩
  · have hsame := hnone (by omega)
    constructor
    · intro hall
      refine Or.inl fun t ht => ?_
      by_contra hout
      obtain ⟨p, hp⟩ := hentry t ht
      exact (hall t p hp hout).1 (hsame ▸ ht)
    · rintro (hsub | ⟨hlt', -⟩) t p hp hout
      · have hin : t ∈ r.activeTasks := Tasks.mem_of_lookup hp
        exact absurd (hsub t hin) hout
      · exact absurd hlt' hlt

/-- Of the tasks 7, 8 and 9 the runner owns 8, and a task that it does not run. -/
theorem heartbeat_stops_unowned_overlap : ∃ r : TaskRunner, r.taskIds = [7, 8, 9] ∧
    ∃ r', Lts.exec step r (r.heartbeatEvents 0 [10, 8] fun t => t == 8) = some r' ∧
      (7 ∉ r'.activeTasks ∧ .stopped 0 ∈ r'.log) ∧ 9 ∉ r'.activeTasks ∧ .stopped 2 ∈ r'.log := by
  let r : TaskRunner :=
    { TaskRunner.start 3 with activeTasks := ((∅ : AList _).insert 7 0 |>.insert 8 1).insert 9 2 }
  obtain ⟨r', hr', hiff⟩ := heartbeat_stops_unowned r 0 [10, 8] (fun t => t == 8) rfl rfl rfl
  have hstops := hiff.mpr (Or.inr ⟨by decide, by decide⟩)
  exact ⟨r, rfl, r', hr', hstops 7 0 rfl (by decide), hstops 9 2 rfl (by decide)⟩

theorem heartbeat_masks_unowned : ∃ r r' : TaskRunner, r.running = true ∧ r.heartbeat = .active ∧
    r.beats 0 = none ∧ r.activeTasks.lookup 7 = some 0 ∧
    Lts.exec step r (r.heartbeatEvents 0 [8] fun _ => false) = some r' ∧ 7 ∈ r'.activeTasks ∧
    .stop 0 ∉ r'.log :=
  ⟨{ TaskRunner.start 3 with activeTasks := AList.insert 7 0 ∅ }, _, rfl, rfl, rfl, rfl, rfl,
    by decide, by decide⟩

end OnTaskGraph
