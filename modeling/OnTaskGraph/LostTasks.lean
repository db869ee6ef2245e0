import OnTaskGraph.UnownedTasks

/-! Lost tasks. The counts that `handleLostTasks` keeps outlive the checkout they
were begun for, so what it takes for a full run of missed beats can be an old count. -/

namespace OnTaskGraph

open Loops (Leaves)

namespace Tasks

theorem Change.mem_activeTasks {s s' : Tasks} {e : Event} {t : TaskId} (h : Change s e s')
    (ht : t ∈ s'.activeTasks) :
    t ∈ s.activeTasks ∨ ∃ p, e = .reply p .resolve ∧ s.pipes p = some ⟨t, .create⟩ := by
  obtain ⟨p, hp⟩ := mem_iff_lookup.mp ht
  rcases h.lookup hp with hold | ⟨he, hcreate, -⟩
  · exact Or.inl (mem_of_lookup hold)
  · exact Or.inr ⟨p, he, hcreate⟩

end Tasks

namespace TaskRunner

def lostBeats (R : TaskRunner) (t : TaskId) : Nat := (R.lostTasks.lookup t).getD 0

/-- The tasks that `handleLostTasks` goes through in an event. -/
def foundLost (R : TaskRunner) : Event → List TaskId
  | .beatReply b o _ =>
    match R.beats b with
    | some (.ownTasks .handleLostTasks own) =>
      if R.heartbeat = .failed ∨ o.failed then [] else difference own R.activeTasks.keys
    | _ => []
  | _ => []

/-- The calls of `store.expireLease` that the loop over lost tasks makes, one that throws
included. -/
def expireLeaseCalls (throws : TaskId → Bool) (R : TaskRunner) : List TaskId → List TaskId
  | [] => []
  | t :: ts =>
    match R.loseTask throws t with
    | .error _ => [t]
    | .ok R' =>
      if R.lostBeatLimit ≤ R.lostBeats t + 1 then t :: R'.expireLeaseCalls throws ts
      else R'.expireLeaseCalls throws ts

def lose (R : TaskRunner) (t : TaskId) : TaskRunner :=
  { R with lostTasks := R.lostTasks.insert t (R.lostBeats t + 1) }

def giveUp (R : TaskRunner) (t : TaskId) : TaskRunner :=
  { R with lostTasks := (R.lostTasks.insert t (R.lostBeats t + 1)).erase t, expiring := t :: R.expiring }

inductive LoseLoop (throws : TaskId → Bool) : List TaskId → TaskRunner → TaskRunner → Prop
  | done {R} : LoseLoop throws [] R R
  | kept {t ts R R'} : R.lostBeats t + 1 < R.lostBeatLimit → LoseLoop throws ts (R.lose t) R' →
      LoseLoop throws (t :: ts) R R'
  | expired {t ts R R'} : R.lostBeatLimit ≤ R.lostBeats t + 1 → throws t = false →
      LoseLoop throws ts (R.giveUp t) R' → LoseLoop throws (t :: ts) R R'
  | threw {t ts R} : R.lostBeatLimit ≤ R.lostBeats t + 1 → throws t = true →
      LoseLoop throws (t :: ts) R (R.lose t)

/-- What an event does to the counts of lost tasks and to the calls that are made for them. -/
inductive Loses (R : TaskRunner) : Event → TaskRunner → Prop
  | nothing {e R'} : R.foundLost e = [] → R'.lostTasks = R.lostTasks → R'.expiring = R.expiring →
      R'.lostBeatLimit = R.lostBeatLimit → Loses R e R'
  | expireLease {t R'} : R'.lostTasks = R.lostTasks → R'.expiring = R.expiring.erase t →
      R'.lostBeatLimit = R.lostBeatLimit → Loses R (.expireLease t) R'
  | handleLostTasks {b o throws R₁ R'} :
      LoseLoop throws (R.foundLost (.beatReply b o throws)) (R.setBeat b .ended) R₁ →
      R'.lostTasks = R₁.lostTasks → R'.expiring = R₁.expiring → R'.lostBeatLimit = R₁.lostBeatLimit →
      Loses R (.beatReply b o throws) R'

section

variable {R R' : TaskRunner} {throws : TaskId → Bool} {t u : TaskId} {ts : List TaskId} {e : Event}

@[simp] theorem lostBeatLimit_lose : (R.lose t).lostBeatLimit = R.lostBeatLimit := rfl

@[simp] theorem lostBeatLimit_giveUp : (R.giveUp t).lostBeatLimit = R.lostBeatLimit := rfl

@[simp] theorem lostBeats_lose : (R.lose t).lostBeats t = R.lostBeats t + 1 := by
  simp [lostBeats, lose]

theorem lostBeats_lose_ne (h : u ≠ t) : (R.lose t).lostBeats u = R.lostBeats u := by
  simp [lostBeats, lose, AList.lookup_insert_ne h]

@[simp] theorem lostBeats_giveUp : (R.giveUp t).lostBeats t = 0 := by
  simp [lostBeats, giveUp]

theorem lostBeats_giveUp_ne (h : u ≠ t) : (R.giveUp t).lostBeats u = R.lostBeats u := by
  simp [lostBeats, giveUp, AList.lookup_erase_ne h, AList.lookup_insert_ne h]

theorem loseTask_kept (h : R.lostBeats t + 1 < R.lostBeatLimit) : R.loseTask throws t = .ok (R.lose t) := by
  have hnot : ¬ R.lostBeatLimit ≤ (R.lostTasks.lookup t).getD 0 + 1 := Nat.not_le.mpr h
  simp [loseTask, lose, lostBeats, hnot]

theorem loseTask_expired (h : R.lostBeatLimit ≤ R.lostBeats t + 1) (ht : throws t = false) :
    R.loseTask throws t = .ok (R.giveUp t) := by
  have hreached : R.lostBeatLimit ≤ (R.lostTasks.lookup t).getD 0 + 1 := h
  simp [loseTask, giveUp, lostBeats, hreached, ht]

theorem loseTask_threw (h : R.lostBeatLimit ≤ R.lostBeats t + 1) (ht : throws t = true) :
    R.loseTask throws t = .error (R.lose t) := by
  have hreached : R.lostBeatLimit ≤ (R.lostTasks.lookup t).getD 0 + 1 := h
  simp [loseTask, lose, lostBeats, hreached, ht]

theorem loseLoop_of_foldlM (h : Leaves (ts.foldlM (loseTask throws) R) R') : LoseLoop throws ts R R' := by
  induction ts generalizing R with
  | nil =>
    have hsame : R = R' := by simpa [Leaves, pure, Except.pure] using h
    exact hsame ▸ .done
  | cons t ts ih =>
    rw [Loops.foldlM_cons_leaves] at h
    by_cases hlimit : R.lostBeats t + 1 < R.lostBeatLimit
    · have hrest : Leaves (ts.foldlM (loseTask throws) (R.lose t)) R' := by
        simpa [loseTask_kept hlimit] using h
      exact .kept hlimit (ih hrest)
    · have hreached : R.lostBeatLimit ≤ R.lostBeats t + 1 := by omega
      cases ht : throws t with
      | true =>
        have hleft : R.lose t = R' := by simpa [loseTask_threw hreached ht] using h
        exact hleft ▸ .threw hreached ht
      | false =>
        have hrest : Leaves (ts.foldlM (loseTask throws) (R.giveUp t)) R' := by
          simpa [loseTask_expired hreached ht] using h
        exact .expired hreached ht (ih hrest)

theorem LoseLoop.lostBeats_le (h : LoseLoop throws ts R R') (hnodup : ts.Nodup) (u : TaskId) :
    R'.lostBeats u ≤ R.lostBeats u + if u ∈ ts then 1 else 0 := by
  induction h with
  | done => simp
  | @kept t ts R R' _ _ ih =>
    obtain ⟨ht, hts⟩ := List.nodup_cons.mp hnodup
    have hrest := ih hts
    by_cases hu : u = t
    · subst hu
      simpa [ht] using hrest
    · simpa [hu, lostBeats_lose_ne hu] using hrest
  | @expired t ts R R' _ _ _ ih =>
    obtain ⟨ht, hts⟩ := List.nodup_cons.mp hnodup
    have hrest := ih hts
    by_cases hu : u = t
    · subst hu
      simp only [lostBeats_giveUp, ht, if_false] at hrest
      omega
    · simpa [hu, lostBeats_giveUp_ne hu] using hrest
  | @threw t ts R _ _ =>
    by_cases hu : u = t
    · subst hu
      simp
    · simp [lostBeats_lose_ne hu]

theorem mem_expireLeaseCalls (hnodup : ts.Nodup) (h : u ∈ R.expireLeaseCalls throws ts) :
    u ∈ ts ∧ R.lostBeatLimit ≤ R.lostBeats u + 1 := by
  induction ts generalizing R with
  | nil => simp [expireLeaseCalls] at h
  | cons t ts ih =>
    obtain ⟨ht, hts⟩ := List.nodup_cons.mp hnodup
    have hhead : R.lostBeatLimit ≤ R.lostBeats t + 1 → u = t →
        u ∈ t :: ts ∧ R.lostBeatLimit ≤ R.lostBeats u + 1 := by
      rintro hreached rfl
      exact ⟨List.mem_cons_self, hreached⟩
    have htail : ∀ R₁ : TaskRunner, R₁.lostBeatLimit = R.lostBeatLimit →
        (u ≠ t → R₁.lostBeats u = R.lostBeats u) → u ∈ R₁.expireLeaseCalls throws ts →
        u ∈ t :: ts ∧ R.lostBeatLimit ≤ R.lostBeats u + 1 := by
      intro R₁ hlimit hbeats hu
      obtain ⟨hmem, hreached⟩ := ih hts hu
      have hut : u ≠ t := by
        rintro rfl
        exact ht hmem
      exact ⟨List.mem_cons_of_mem _ hmem, by rwa [hlimit, hbeats hut] at hreached⟩
    by_cases hlimit : R.lostBeats t + 1 < R.lostBeatLimit
    · have hnot : ¬ R.lostBeatLimit ≤ R.lostBeats t + 1 := by omega
      simp only [expireLeaseCalls, loseTask_kept hlimit, hnot, if_false] at h
      exact htail (R.lose t) rfl lostBeats_lose_ne h
    · have hreached : R.lostBeatLimit ≤ R.lostBeats t + 1 := by omega
      cases hthrows : throws t with
      | true =>
        simp only [expireLeaseCalls, loseTask_threw hreached hthrows, List.mem_singleton] at h
        exact hhead hreached h
      | false =>
        simp only [expireLeaseCalls, loseTask_expired hreached hthrows, hreached, if_true, List.mem_cons] at h
        rcases h with rfl | h
        · exact hhead hreached rfl
        · exact htail (R.giveUp t) rfl lostBeats_giveUp_ne h

theorem LoseLoop.lostBeatLimit (h : LoseLoop throws ts R R') : R'.lostBeatLimit = R.lostBeatLimit := by
  induction h with
  | done | threw => rfl
  | kept _ _ ih | expired _ _ _ ih => exact ih

theorem repair_loses {b : BeatId} {o : Outcome} {rep : Repair} {own : List TaskId} {R₁ : TaskRunner}
    (hB : R.beats b = some (.ownTasks rep own)) (hheart : R.heartbeat ≠ .failed) (ho : o.failed = false)
    (hleft : Leaves ((R.setBeat b .ended).repair own throws rep) R₁) (hlost : R'.lostTasks = R₁.lostTasks)
    (hexpiring : R'.expiring = R₁.expiring) (hlimit : R'.lostBeatLimit = R₁.lostBeatLimit) :
    Loses R (.beatReply b o throws) R' := by
  cases rep with
  | handleLostTasks =>
    have hfound : R.foundLost (.beatReply b o throws) = difference own R.activeTasks.keys := by
      simp [foundLost, hB, hheart, ho]
    exact .handleLostTasks (hfound ▸ loseLoop_of_foldlM hleft) hlost hexpiring hlimit
  | handleUnownedTasks =>
    obtain ⟨s, rfl, -⟩ := handleUnownedTasks_change hleft
    exact .nothing (by simp [foundLost, hB]) hlost hexpiring hlimit

theorem foundLost_of_failed {b : BeatId} {o : Outcome} (h : R.heartbeat = .failed ∨ o.failed = true) :
    R.foundLost (.beatReply b o throws) = [] := by
  simp only [foundLost]
  split
  · exact if_pos h
  · rfl

theorem beatReply_loses {b : BeatId} {o : Outcome} {B : Beat} (hB : R.beats b = some B)
    (h : R.beatReply b o throws B = some R') : Loses R (.beatReply b o throws) R' := by
  cases beatReply_cases h with
  | disposed hdisposed => exact .nothing (foundLost_of_failed (Or.inl hdisposed)) rfl rfl rfl
  | failed _ ho => exact .nothing (foundLost_of_failed (Or.inr ho)) rfl rfl rfl
  | counted | even => exact .nothing (by simp [foundLost, hB]) rfl rfl rfl
  | repaired hheart ho hok => exact repair_loses hB hheart ho (Or.inl hok) rfl rfl rfl
  | threw hheart ho herror => exact repair_loses hB hheart ho (Or.inr herror) rfl rfl rfl

theorem step_loses (hstep : R.step e = some R') : Loses R e R' := by
  have hbeat : ∀ b o throws, e = .beatReply b o throws → Loses R e R' := by
    rintro b o throws rfl
    obtain ⟨B, hB, h⟩ := Option.bind_eq_some_iff.mp hstep
    exact beatReply_loses hB h
  cases step_effect hstep with
  | tasks =>
    cases e with
    | beatReply b o throws => exact hbeat b o throws rfl
    | runTask | checkoutTask | setTaskState | reply | cancelTask | cancelReply | beat | heartbeatTasks
    | getOwnTasks | expireLease | stop => exact .nothing rfl rfl rfl rfl
  | beatReply => exact hbeat _ _ _ rfl
  | expireLease => exact .expireLease rfl rfl rfl
  | runTaskStream | cancelTaskStream | cancelFailed | heartbeat | beat | heartbeatTasks | getOwnTasks
  | stop => exact .nothing rfl rfl rfl rfl

theorem Loses.lostBeatLimit (h : Loses R e R') : R'.lostBeatLimit = R.lostBeatLimit := by
  cases h with
  | nothing _ _ _ hlimit | expireLease _ _ hlimit => exact hlimit
  | handleLostTasks hloop _ _ hlimit => exact hlimit.trans hloop.lostBeatLimit

theorem Loses.lostBeats_le (h : Loses R e R') (hnodup : (R.foundLost e).Nodup) (t : TaskId) :
    R'.lostBeats t ≤ R.lostBeats t + if t ∈ R.foundLost e then 1 else 0 := by
  cases h with
  | nothing _ hlost => simp [lostBeats, hlost]
  | expireLease hlost => simp [lostBeats, hlost]
  | @handleLostTasks b o throws R₁ R' hloop hlost =>
    have hsame : R'.lostBeats t = R₁.lostBeats t := by rw [lostBeats, lostBeats, hlost]
    rw [hsame]
    exact hloop.lostBeats_le hnodup t

theorem mem_foundLost (h : t ∈ R.foundLost e) :
    t ∉ R.activeTasks ∧ ∃ b o throws, e = .beatReply b o throws := by
  unfold foundLost at h
  split at h
  · split at h
    · split_ifs at h
      · simp at h
      · exact ⟨fun ht => (mem_difference.mp h).2 (AList.mem_keys.mpr ht), _, _, _, rfl⟩
    · simp at h
  · simp at h

theorem foundLost_nodup (hown : ∀ b own, R.beats b = some (.ownTasks .handleLostTasks own) → own.Nodup) :
    (R.foundLost e).Nodup := by
  unfold foundLost
  split
  · split
    · split_ifs
      · exact List.nodup_nil
      · exact (hown _ _ ‹_›).filter _
    · exact List.nodup_nil
  · exact List.nodup_nil

end

def expiresLeases (R : TaskRunner) : Event → List TaskId
  | .beatReply b o throws => R.expireLeaseCalls throws (R.foundLost (.beatReply b o throws))
  | _ => []

def checkedOut (R : TaskRunner) : Event → Option TaskId
  | .checkoutTask p true => (R.pipes p).map Pipe.taskId
  | _ => none

end TaskRunner

/-- On how many heartbeats a runner has found a task owned and inactive since it last checked
the task out or had it in `activeTasks`, and how much of its count is from before. -/
structure Missed where
  beats : Nat
  left : Nat

abbrev MissedBeats := RunnerId → TaskId → Missed

def MissedBeats.start : MissedBeats := fun _ _ => ⟨0, 0⟩

def MissedBeats.watch (D : Deployment) (w : World) (a : Action) (w' : World) (x : MissedBeats) : MissedBeats :=
  match w.event D a with
  | none => x
  | some (r, e) => Function.update x r fun t =>
    if t ∈ (w'.runner r).activeTasks ∨ (w.runner r).checkedOut e = some t then ⟨0, (w'.runner r).lostBeats t⟩
    else if t ∈ (w.runner r).foundLost e then ⟨(x r t).beats + 1, min (x r t).left ((w'.runner r).lostBeats t)⟩
    else x r t

theorem MissedBeats.watch_event {D : Deployment} {w w' : World} {a : Action} {x : MissedBeats} {r : RunnerId}
    {e : Event} (he : w.event D a = some (r, e)) (t : TaskId) : watch D w a w' x r t =
      if t ∈ (w'.runner r).activeTasks ∨ (w.runner r).checkedOut e = some t then ⟨0, (w'.runner r).lostBeats t⟩
      else if t ∈ (w.runner r).foundLost e then ⟨(x r t).beats + 1, min (x r t).left ((w'.runner r).lostBeats t)⟩
      else x r t := by
  simp [watch, he]

theorem MissedBeats.watch_other {D : Deployment} {w w' : World} {a : Action} {x : MissedBeats} {r : RunnerId}
    (h : ∀ e, w.event D a ≠ some (r, e)) : watch D w a w' x r = x r := by
  cases he : w.event D a with
  | none => simp [watch, he]
  | some y =>
    have hr : r ≠ y.1 := by
      rintro rfl
      exact h y.2 he
    simp [watch, he, hr]

def ExpiresMissed (D : Deployment) (v : World × MissedBeats) (a : Action) (v' : World × MissedBeats) : Prop :=
  ∀ x ∈ v.1.event D a, ∀ t ∈ (v.1.runner x.1).expiresLeases x.2, D.lostBeatLimit x.1 ≤ (v'.2 x.1 t).beats

/-- No count that reaches the limit was there when the task was last checked out or active. -/
def StartsUncounted (D : Deployment) (v : World × MissedBeats) (a : Action) (_ : World × MissedBeats) : Prop :=
  ∀ x ∈ v.1.event D a, ∀ t ∈ (v.1.runner x.1).foundLost x.2,
    D.lostBeatLimit x.1 ≤ (v.1.runner x.1).lostBeats t + 1 → (v.2 x.1 t).left = 0

instance {D : Deployment} {v v' : World × MissedBeats} {a : Action} : Decidable (ExpiresMissed D v a v') :=
  inferInstanceAs (Decidable (∀ x ∈ v.1.event D a, _))

instance {D : Deployment} {v v' : World × MissedBeats} {a : Action} : Decidable (StartsUncounted D v a v') :=
  inferInstanceAs (Decidable (∀ x ∈ v.1.event D a, _))

namespace World

structure Listed (D : Deployment) (w : World) : Prop where
  own : ∀ {r b rep own}, (w.runner r).beats b = some (.ownTasks rep own) → own.Nodup
  limit : ∀ r, (w.runner r).lostBeatLimit = D.lostBeatLimit r

variable {D : Deployment} {w w' : World} {a : Action}

theorem Change.getOwnTasks (hc : Change D w a w') {r : RunnerId} {b : BeatId} {own : List TaskId}
    (he : w.event D a = some (r, .getOwnTasks b own)) : own = w.ownTasks D r := by
  cases hc with
  | @runner q e R hs =>
    obtain ⟨rfl, rfl⟩ := Prod.mk.inj (Option.some.inj he)
    simp [Event.ofStore] at hs
  | snapshot =>
    obtain ⟨rfl, hevent⟩ := Prod.mk.inj (Option.some.inj he)
    exact (Event.getOwnTasks.inj hevent).2.symm
  | tick | started | refused | granted | setTaskState | renewed | expireLost | scanned | expireLease =>
    simp [event] at he

theorem Listed.change (h : Listed D w) (hc : Change D w a w') : Listed D w' := by
  refine ⟨fun {r b rep own} hb => ?_, fun r => ?_⟩
  · rcases hc.runner_event r with ⟨-, heq⟩ | ⟨e, he, hstep⟩
    · exact h.own (heq ▸ hb)
    · rcases TaskRunner.step_ownTasks hstep hb with hold | rfl
      · exact h.own hold
      · rw [hc.getOwnTasks he]
        exact D.nodup_taskIds.filter _
  · rcases hc.runner_event r with ⟨-, heq⟩ | ⟨e, -, hstep⟩
    · rw [heq, h.limit r]
    · rw [(TaskRunner.step_loses hstep).lostBeatLimit, h.limit r]

theorem Listed.foundLost_nodup (h : Listed D w) (r : RunnerId) (e : Event) :
    ((w.runner r).foundLost e).Nodup :=
  TaskRunner.foundLost_nodup fun _ _ hb => h.own hb

theorem listed_start (D : Deployment) : Listed D (start D) := by
  constructor <;> simp [start, TaskRunner.start]

/-- What a count has grown by since it was left over are beats that were missed. -/
structure Counted (D : Deployment) (v : World × MissedBeats) : Prop extends Listed D v.1 where
  counted : ∀ r t, (v.1.runner r).lostBeats t ≤ (v.2 r t).left + (v.2 r t).beats

theorem Counted.step {v v' : World × MissedBeats} (h : Counted D v)
    (hstep : Lts.monitor (World.step D) (MissedBeats.watch D) v a = some v') : Counted D v' := by
  obtain ⟨hmove, hwatch⟩ := Lts.monitor_eq_some.mp hstep
  have hc := step_change hmove
  refine ⟨h.toListed.change hc, fun r t => ?_⟩
  rcases hc.runner_event r with ⟨hother, heq⟩ | ⟨e, he, hrunner⟩
  · rw [hwatch, MissedBeats.watch_other hother, heq]
    exact h.counted r t
  · have hcount := h.counted r t
    have hadded := (TaskRunner.step_loses hrunner).lostBeats_le (h.foundLost_nodup r e) t
    rw [hwatch, MissedBeats.watch_event he]
    split_ifs with hreset hfound
    · exact Nat.le_add_right _ _
    · simp only [hfound, if_true] at hadded
      rcases Nat.le_total (v.2 r t).left ((v'.1.runner r).lostBeats t) with hle | hle
      · rw [Nat.min_eq_left hle]
        show _ ≤ (v.2 r t).left + ((v.2 r t).beats + 1)
        omega
      · rw [Nat.min_eq_right hle]
        exact Nat.le_add_right _ _
    · simp only [hfound, if_false] at hadded
      omega

theorem Counted.expiresMissed {v v' : World × MissedBeats} (h : Counted D v)
    (huncounted : StartsUncounted D v a v')
    (hstep : Lts.monitor (World.step D) (MissedBeats.watch D) v a = some v') : ExpiresMissed D v a v' := by
  obtain ⟨hmove, hwatch⟩ := Lts.monitor_eq_some.mp hstep
  rintro ⟨r, e⟩ he t ht
  have hmem : t ∈ (v.1.runner r).foundLost e ∧
      (v.1.runner r).lostBeatLimit ≤ (v.1.runner r).lostBeats t + 1 := by
    cases e with
    | beatReply b o throws => exact TaskRunner.mem_expireLeaseCalls (h.foundLost_nodup r _) ht
    | runTask | checkoutTask | setTaskState | reply | cancelTask | cancelReply | beat | heartbeatTasks
    | getOwnTasks | expireLease | stop => simp [TaskRunner.expiresLeases] at ht
  obtain ⟨hfound, hreached⟩ := hmem
  rw [h.limit r] at hreached
  obtain ⟨hinactive, b, o, throws, rfl⟩ := TaskRunner.mem_foundLost hfound
  have hstill : t ∉ (v'.1.runner r).activeTasks := by
    intro hactive
    rcases (step_change hmove).runner_event r with ⟨hother, -⟩ | ⟨e, he', hrunner⟩
    · exact hother _ he
    · obtain ⟨-, rfl⟩ := Prod.mk.inj (Option.some.inj (he.symm.trans he'))
      rcases (TaskRunner.step_change hrunner).mem_activeTasks hactive with hold | ⟨p, hreply, -⟩
      · exact hinactive hold
      · simp at hreply
  have hmissed : (v'.2 r t).beats = (v.2 r t).beats + 1 := by
    rw [hwatch, MissedBeats.watch_event he]
    simp [hstill, hfound, TaskRunner.checkedOut]
  have hleft : (v.2 r t).left = 0 := huncounted _ he t hfound hreached
  have hcounted := h.counted r t
  simp only
  omega

theorem counted_start (D : Deployment) : Counted D (start D, .start) :=
  ⟨listed_start D, by simp [start, TaskRunner.start, TaskRunner.lostBeats]⟩

end World

/-- A lease is given up only after a full run of missed beats, as long as no count that
reaches the limit is one that an earlier checkout or activation has left. -/
theorem lostTasks_expire_missed (D : Deployment) (acts : List Action)
    (h : Lts.Along (Lts.monitor (World.step D) (MissedBeats.watch D)) (StartsUncounted D)
      (World.start D, .start) acts) :
    Lts.Along (Lts.monitor (World.step D) (MissedBeats.watch D)) (ExpiresMissed D)
      (World.start D, .start) acts :=
  h.of_invariant (World.Counted D) (fun _ _ _ hstep _ hi => hi.step hstep)
    (fun _ _ _ hstep huncounted hi => hi.expiresMissed huncounted hstep) (World.counted_start D)

def heartbeatActions (r : RunnerId) (b : BeatId) : List Action :=
  [.runner r (.beat b), .heartbeatTasks r b, .runner r (.beatReply b .resolve fun _ => false),
    .getOwnTasks r b, .runner r (.beatReply b .resolve fun _ => false)]

/-- Of two tasks that are checked out, one becomes active after a missed beat; on the other
two more beats pass. -/
theorem lostTasks_expire_missed_beats : ∃ acts,
    (Lts.exec (World.step .pair) (World.start .pair) acts).map (fun w => (w.runner 0).expiring) = some [8] ∧
    Lts.Along (Lts.monitor (World.step .pair) (MissedBeats.watch .pair)) (ExpiresMissed .pair)
      (World.start .pair, .start) acts :=
  ⟨[.runner 0 (.runTask 0 7), .checkoutTask 0 0 true, .runner 0 (.runTask 1 8), .checkoutTask 0 1 true] ++
      heartbeatActions 0 0 ++ [.runner 0 (.reply 0 .resolve), .runner 0 (.reply 0 .resolve),
        .runner 0 (.reply 0 .resolve)] ++ heartbeatActions 0 1 ++ heartbeatActions 0 2,
    by decide, lostTasks_expire_missed .pair _ (by decide)⟩

/-- Two beats are missed before the lease expires. When the runner checks the task out
again, the first heartbeat gives it up. -/
theorem lostTasks_expire_early :
    ¬ Lts.Along (Lts.monitor (World.step .pair) (MissedBeats.watch .pair)) (ExpiresMissed .pair)
      (World.start .pair, .start)
      ([.runner 0 (.runTask 0 7), .checkoutTask 0 0 true] ++ heartbeatActions 0 0 ++ heartbeatActions 0 1 ++
        [.tick 11, .findExpiredLeases 0 0, .expireLease 0 5, .runner 0 (.runTask 1 7), .checkoutTask 0 1 true] ++
        heartbeatActions 0 2) := by
  decide

end OnTaskGraph
