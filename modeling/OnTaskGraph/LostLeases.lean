import OnTaskGraph.LostTasks

/-! Giving lost tasks back. `handleLostTasks` passes a task id to `store.expireLease`,
which takes the id of a document, as the lease expiration poller knows. -/

namespace OnTaskGraph

def Event.throws : Event → TaskId → Bool
  | .beatReply _ _ throws => throws
  | _ => fun _ => false

def Deployment.taskId (D : Deployment) (i : DocId) : Option TaskId := (D.document i).map Document.taskId

namespace TaskRunner

variable {R R' : TaskRunner} {throws : TaskId → Bool} {t u : TaskId} {ts : List TaskId} {e : Event}

def Throwless (R : TaskRunner) (throws : TaskId → Bool) (ts : List TaskId) : Prop :=
  ∀ t ∈ ts, R.lostBeatLimit ≤ R.lostBeats t + 1 → throws t = false

theorem Throwless.tail {R₁ : TaskRunner} (h : R.Throwless throws (t :: ts)) (ht : t ∉ ts)
    (hlimit : R₁.lostBeatLimit = R.lostBeatLimit) (hbeats : ∀ u, u ≠ t → R₁.lostBeats u = R.lostBeats u) :
    R₁.Throwless throws ts := by
  intro u hu hreached
  have hut : u ≠ t := by
    rintro rfl
    exact ht hu
  rw [hlimit, hbeats u hut] at hreached
  exact h u (List.mem_cons_of_mem t hu) hreached

theorem LoseLoop.lostBeats_eq (h : LoseLoop throws ts R R') (hnodup : ts.Nodup)
    (hthrows : R.Throwless throws ts) (u : TaskId) :
    R'.lostBeats u = if u ∈ ts then if R.lostBeatLimit ≤ R.lostBeats u + 1 then 0 else R.lostBeats u + 1
      else R.lostBeats u := by
  induction h with
  | done => simp
  | @kept t ts R R' hlimit _ ih =>
    obtain ⟨ht, hts⟩ := List.nodup_cons.mp hnodup
    have hrest := ih hts (hthrows.tail ht rfl fun _ hu => lostBeats_lose_ne hu)
    by_cases hu : u = t
    · subst hu
      have hnot : ¬ R.lostBeatLimit ≤ R.lostBeats u + 1 := by omega
      simpa [ht, hnot] using hrest
    · simpa [hu, lostBeats_lose_ne hu] using hrest
  | @expired t ts R R' hreached _ _ ih =>
    obtain ⟨ht, hts⟩ := List.nodup_cons.mp hnodup
    have hrest := ih hts (hthrows.tail ht rfl fun _ hu => lostBeats_giveUp_ne hu)
    by_cases hu : u = t
    · subst hu
      simpa [ht, hreached] using hrest
    · simpa [hu, lostBeats_giveUp_ne hu] using hrest
  | @threw t ts R hreached hthrow =>
    have hnot := hthrows t List.mem_cons_self hreached
    simp [hnot] at hthrow

theorem LoseLoop.mem_expiring (h : LoseLoop throws ts R R') (hnodup : ts.Nodup)
    (hthrows : R.Throwless throws ts)
    (hu : u ∈ R.expiring ∨ u ∈ ts ∧ R.lostBeatLimit ≤ R.lostBeats u + 1) : u ∈ R'.expiring := by
  induction h with
  | done => simpa using hu
  | @kept t ts R R' hlimit _ ih =>
    obtain ⟨ht, hts⟩ := List.nodup_cons.mp hnodup
    refine ih hts (hthrows.tail ht rfl fun _ hx => lostBeats_lose_ne hx) ?_
    rcases hu with hold | ⟨hmem, hreached⟩
    · exact Or.inl hold
    · have hut : u ≠ t := by
        rintro rfl
        omega
      refine Or.inr ⟨(List.mem_cons.mp hmem).resolve_left hut, ?_⟩
      rw [lostBeats_lose_ne hut]
      exact hreached
  | @expired t ts R R' _ _ _ ih =>
    obtain ⟨ht, hts⟩ := List.nodup_cons.mp hnodup
    refine ih hts (hthrows.tail ht rfl fun _ hx => lostBeats_giveUp_ne hx) ?_
    rcases hu with hold | ⟨hmem, hreached⟩
    · exact Or.inl (List.mem_cons_of_mem t hold)
    · by_cases hut : u = t
      · subst hut
        exact Or.inl List.mem_cons_self
      · refine Or.inr ⟨(List.mem_cons.mp hmem).resolve_left hut, ?_⟩
        rw [lostBeats_giveUp_ne hut]
        exact hreached
  | @threw t ts R hreached hthrow =>
    have hnot := hthrows t List.mem_cons_self hreached
    simp [hnot] at hthrow

theorem Loses.lostBeats_eq (h : Loses R e R') (hnodup : (R.foundLost e).Nodup)
    (hthrows : R.Throwless e.throws (R.foundLost e)) (u : TaskId) :
    R'.lostBeats u = if u ∈ R.foundLost e then
      if R.lostBeatLimit ≤ R.lostBeats u + 1 then 0 else R.lostBeats u + 1
      else R.lostBeats u := by
  cases h with
  | nothing hfound hlost => simp [hfound, lostBeats, hlost]
  | expireLease hlost => simp [foundLost, lostBeats, hlost]
  | @handleLostTasks b o throws R₁ R' hloop hlost =>
    have hsame : R'.lostBeats u = R₁.lostBeats u := by rw [lostBeats, lostBeats, hlost]
    rw [hsame]
    exact hloop.lostBeats_eq hnodup hthrows u

theorem Loses.mem_expiring (h : Loses R e R') (hnodup : (R.foundLost e).Nodup)
    (hthrows : R.Throwless e.throws (R.foundLost e)) (he : e ≠ .expireLease u)
    (hu : u ∈ R.expiring ∨ u ∈ R.foundLost e ∧ R.lostBeatLimit ≤ R.lostBeats u + 1) : u ∈ R'.expiring := by
  cases h with
  | nothing hfound _ hexpiring =>
    rw [hexpiring]
    simpa [hfound] using hu
  | @expireLease t R' _ hexpiring =>
    have hut : u ≠ t := by
      rintro rfl
      exact he rfl
    rw [hexpiring, List.mem_erase_of_ne hut]
    simpa [foundLost] using hu
  | handleLostTasks hloop _ hexpiring =>
    rw [hexpiring]
    exact hloop.mem_expiring hnodup hthrows hu

end TaskRunner

/-- For each runner and task, the beats on which the task was found lost since the last
full run of them, and whether the lease has not been cleared since that run. -/
structure Losses where
  lost : RunnerId → TaskId → Nat
  due : RunnerId → TaskId → Bool

namespace Losses

def start : Losses := ⟨fun _ _ => 0, fun _ _ => false⟩

def find (limit : Nat) (x : Losses) (r : RunnerId) (found : List TaskId) : Losses where
  lost := Function.update x.lost r fun t =>
    if t ∈ found then if limit ≤ x.lost r t + 1 then 0 else x.lost r t + 1 else x.lost r t
  due := Function.update x.due r fun t => x.due r t || (t ∈ found && limit ≤ x.lost r t + 1)

def watch (D : Deployment) (w : World) (a : Action) (w' : World) (x : Losses) : Losses :=
  let y := match w.event D a with
    | some (r, e) => x.find (D.lostBeatLimit r) r ((w.runner r).foundLost e)
    | none => x
  { y with due := fun r t => y.due r t && (w'.lease t).isSome }

theorem watch_other {D : Deployment} {w w' : World} {a : Action} {x : Losses} {r : RunnerId}
    (h : ∀ e, w.event D a ≠ some (r, e)) (t : TaskId) :
    (watch D w a w' x).lost r t = x.lost r t ∧ ((watch D w a w' x).due r t = true → x.due r t = true) := by
  cases he : w.event D a with
  | none => simp +contextual [watch, he]
  | some y =>
    have hr : r ≠ y.1 := by
      rintro rfl
      exact h y.2 he
    simp +contextual [watch, he, find, hr]

theorem watch_event {D : Deployment} {w w' : World} {a : Action} {x : Losses} {r : RunnerId} {e : Event}
    (he : w.event D a = some (r, e)) (t : TaskId) :
    (watch D w a w' x).lost r t = (if t ∈ (w.runner r).foundLost e then
      if D.lostBeatLimit r ≤ x.lost r t + 1 then 0 else x.lost r t + 1
      else x.lost r t) ∧
    ((watch D w a w' x).due r t = true → w'.lease t ≠ none ∧
      (x.due r t = true ∨ t ∈ (w.runner r).foundLost e ∧ D.lostBeatLimit r ≤ x.lost r t + 1)) := by
  refine ⟨by simp [watch, he, find], fun hdue => ?_⟩
  simp only [watch, he, find, Function.update_self, Bool.and_eq_true, Bool.or_eq_true,
    decide_eq_true_eq] at hdue
  exact ⟨Option.isSome_iff_ne_none.mp hdue.2, hdue.1⟩

end Losses

/-- A task that a runner has found lost on `lostBeatLimit` heartbeats has had its lease
cleared since, or the call that clears it is still to be executed. -/
def GivenBack (D : Deployment) (v : World × Losses) : Prop :=
  ∀ r t, v.2.due r t = true → ∃ i ∈ (v.1.runner r).expiring, D.taskId i = some t

/-- A lost task that has reached the limit has its own id for a document id, and the call
does not throw. -/
def LostIdentified (D : Deployment) (v : World × Losses) (a : Action) (_ : World × Losses) : Prop :=
  ∀ x ∈ v.1.event D a, ∀ t ∈ (v.1.runner x.1).foundLost x.2,
    D.lostBeatLimit x.1 ≤ (v.1.runner x.1).lostBeats t + 1 → x.2.throws t = false ∧ D.taskId t = some t

instance {D : Deployment} {v v' : World × Losses} {a : Action} : Decidable (LostIdentified D v a v') :=
  inferInstanceAs (Decidable (∀ x ∈ v.1.event D a, _))

namespace World

variable {D : Deployment} {w w' : World} {a : Action}

structure Tallied (D : Deployment) (v : World × Losses) : Prop extends Listed D v.1 where
  tally : ∀ r t, (v.1.runner r).lostBeats t = v.2.lost r t
  due : ∀ r t, v.2.due r t = true → t ∈ (v.1.runner r).expiring ∧ D.taskId t = some t

theorem expire_lease {i : DocId} {t : TaskId} (h : D.taskId i = some t) : (w.expire D i).lease t = none := by
  obtain ⟨d, hd, rfl⟩ := Option.map_eq_some_iff.mp h
  cases hL : w.lease d.taskId <;> simp [expire, hd, hL]

theorem Change.expireLease_event (hc : Change D w a w') {r : RunnerId} {i : DocId}
    (he : w.event D a = some (r, .expireLease i)) : ∃ v : World, w' = v.expire D i := by
  cases hc with
  | @runner q e R hs =>
    obtain ⟨rfl, rfl⟩ := Prod.mk.inj (Option.some.inj he)
    simp [Event.ofStore] at hs
  | expireLost =>
    obtain ⟨rfl, hevent⟩ := Prod.mk.inj (Option.some.inj he)
    obtain rfl := Event.expireLease.inj hevent
    exact ⟨_, rfl⟩
  | tick | started | refused | granted | setTaskState | renewed | snapshot | scanned | expireLease =>
    simp [event] at he

theorem Tallied.step {v v' : World × Losses} (h : Tallied D v)
    (hstep : Lts.monitor (World.step D) (Losses.watch D) v a = some v')
    (hidentified : LostIdentified D v a v') : Tallied D v' := by
  obtain ⟨hmove, hwatch⟩ := Lts.monitor_eq_some.mp hstep
  have hc := step_change hmove
  have hthrows : ∀ r e, v.1.event D a = some (r, e) →
      (v.1.runner r).Throwless e.throws ((v.1.runner r).foundLost e) := by
    intro r e he t ht hreached
    exact (hidentified _ he t ht (h.limit r ▸ hreached)).1
  refine ⟨h.toListed.change hc, fun r t => ?_, fun r t ht => ?_⟩
  · rw [hwatch]
    rcases hc.runner_event r with ⟨hother, heq⟩ | ⟨e, he, hrunner⟩
    · rw [(Losses.watch_other hother t).1, heq, h.tally]
    · have hloses := TaskRunner.step_loses hrunner
      rw [(Losses.watch_event he t).1, hloses.lostBeats_eq (h.foundLost_nodup r e) (hthrows r e he),
        h.tally, h.limit]
  · rw [hwatch] at ht
    rcases hc.runner_event r with ⟨hother, heq⟩ | ⟨e, he, hrunner⟩
    · rw [heq]
      exact h.due r t ((Losses.watch_other hother t).2 ht)
    · obtain ⟨hlease, hdue⟩ := (Losses.watch_event he t).2 ht
      have hold : D.taskId t = some t ∧ (t ∈ (v.1.runner r).expiring ∨
          t ∈ (v.1.runner r).foundLost e ∧ (v.1.runner r).lostBeatLimit ≤ (v.1.runner r).lostBeats t + 1) := by
        rcases hdue with hbefore | ⟨hfound, hreached⟩
        · exact ⟨(h.due r t hbefore).2, Or.inl (h.due r t hbefore).1⟩
        · rw [← h.tally] at hreached
          exact ⟨(hidentified _ he t hfound hreached).2, Or.inr ⟨hfound, h.limit r ▸ hreached⟩⟩
      -- the one event that takes the call away has cleared the lease
      have hne : e ≠ .expireLease t := by
        rintro rfl
        obtain ⟨u, hu⟩ := hc.expireLease_event he
        exact hlease (hu ▸ expire_lease hold.1)
      have hloses := TaskRunner.step_loses hrunner
      exact ⟨hloses.mem_expiring (h.foundLost_nodup r e) (hthrows r e he) hne hold.2, hold.1⟩

theorem tallied_start (D : Deployment) : Tallied D (start D, Losses.start) := by
  refine ⟨listed_start D, ?_, ?_⟩ <;> simp [start, TaskRunner.start, TaskRunner.lostBeats, Losses.start]

end World

/-- Lost tasks are given back, as long as those that reach the limit go by the ids of
their documents. -/
theorem lostTasks_given_back (D : Deployment) (acts : List Action) (v : World × Losses)
    (h : Lts.Along (Lts.monitor (World.step D) (Losses.watch D)) (LostIdentified D)
      (World.start D, Losses.start) acts)
    (hexec : Lts.exec (Lts.monitor (World.step D) (Losses.watch D)) (World.start D, Losses.start) acts = some v) :
    GivenBack D v := by
  have htallied : World.Tallied D v :=
    h.invariant (World.Tallied D) (fun _ _ _ hstep hidentified hi => hi.step hstep hidentified)
      (World.tallied_start D) hexec
  intro r t hdue
  obtain ⟨hexpiring, htask⟩ := htallied.due r t hdue
  exact ⟨t, hexpiring, htask⟩

def Deployment.identified : Deployment where
  documents := [⟨7, 7, 0⟩]
  nodup_ids := by decide
  nodup_taskIds := by decide
  lostBeatLimit := fun _ => 3
  poller := fun _ => ⟨0, 10⟩

def lostCheckout (t : TaskId) : List Action :=
  [.runner 0 (.runTask 0 t), .checkoutTask 0 0 true] ++ heartbeatActions 0 0 ++ heartbeatActions 0 1 ++
    heartbeatActions 0 2

theorem lostTasks_given_back_identified : ∃ v,
    Lts.exec (Lts.monitor (World.step .identified) (Losses.watch .identified))
      (World.start .identified, Losses.start) (lostCheckout 7) = some v ∧ v.2.due 0 7 = true ∧
      GivenBack .identified v := by
  have hmap : (Lts.exec (Lts.monitor (World.step .identified) (Losses.watch .identified))
      (World.start .identified, Losses.start) (lostCheckout 7)).map (fun v => v.2.due 0 7) = some true := by
    decide
  obtain ⟨v, hv, hdue⟩ := Option.map_eq_some_iff.mp hmap
  exact ⟨v, hv, hdue, lostTasks_given_back .identified (lostCheckout 7) v (by decide) hv⟩

/-- The call that is made for task 7 names no document, and its lease stays. -/
theorem lostTasks_kept : ∃ v,
    Lts.exec (Lts.monitor (World.step .pair) (Losses.watch .pair)) (World.start .pair, Losses.start)
      (lostCheckout 7 ++ [.expireLost 0 7]) = some v ∧ (v.1.lease 7).isSome ∧ ¬ GivenBack .pair v := by
  have hmap : (Lts.exec (Lts.monitor (World.step .pair) (Losses.watch .pair)) (World.start .pair, Losses.start)
      (lostCheckout 7 ++ [.expireLost 0 7])).map
        (fun v => ((v.1.lease 7).isSome, v.2.due 0 7, (v.1.runner 0).expiring)) = some (true, true, []) := by
    decide
  obtain ⟨v, hv, hend⟩ := Option.map_eq_some_iff.mp hmap
  obtain ⟨hlease, hdue, hexpiring⟩ : (v.1.lease 7).isSome = true ∧ v.2.due 0 7 = true ∧
      (v.1.runner 0).expiring = [] := by simpa using hend
  refine ⟨v, hv, hlease, fun h => ?_⟩
  obtain ⟨i, hi, -⟩ := h 0 7 hdue
  simp [hexpiring] at hi

end OnTaskGraph
