import OnTaskGraph.Checkouts
import OnTaskGraph.Heartbeats

/-! Stopping unowned tasks. A heartbeat compares the active tasks it finds with a
snapshot of the store, so it spares what the runner owns only if nothing active
was checked out after the snapshot. -/

namespace OnTaskGraph

open Loops (Leaves)

namespace Tasks

theorem StopLoop.untouched {throws : TaskId → Bool} {ts : List TaskId} {s s' : Tasks}
    (h : StopLoop throws ts s s') :
    (∀ t, t ∉ ts → s'.activeTasks.lookup t = s.activeTasks.lookup t) ∧
      ∀ p, (∀ t ∈ ts, s.activeTasks.lookup t ≠ some p) → s'.log.count (.stop p) = s.log.count (.stop p) := by
  have herase : ∀ {active : AList fun _ : TaskId => PipeId} {u p} {ts : List TaskId},
      (∀ t ∈ u :: ts, active.lookup t ≠ some p) → ∀ t ∈ ts, (active.erase u).lookup t ≠ some p :=
    fun hp t ht hl => hp t (List.mem_cons_of_mem _ ht) (lookup_erase_eq_some.mp hl).2
  induction h with
  | done => simp
  | absent _ _ ih =>
    constructor
    · intro t ht
      have hrest := ih.1 t (List.not_mem_of_not_mem_cons ht)
      exact hrest.trans (AList.lookup_erase_ne (List.ne_of_not_mem_cons ht))
    · exact fun p hp => ih.2 p (herase hp)
  | @stopped u ts s s' q hl _ _ ih =>
    constructor
    · intro t ht
      have hrest := ih.1 t (List.not_mem_of_not_mem_cons ht)
      exact hrest.trans (AList.lookup_erase_ne (List.ne_of_not_mem_cons ht))
    · intro p hp
      have hqp : q ≠ p := by
        rintro rfl
        exact hp u List.mem_cons_self hl
      rw [ih.2 p (herase hp)]
      simp [record, deactivate, hqp]
  | @threw u ts s q hl _ =>
    refine ⟨fun t _ => rfl, fun p hp => ?_⟩
    have hqp : q ≠ p := by
      rintro rfl
      exact hp u List.mem_cons_self hl
    simp [record, hqp]

end Tasks

namespace TaskRunner

theorem beatReply_touched {R R' : TaskRunner} {b : BeatId} {o : Outcome} {throws : TaskId → Bool}
    {own : List TaskId} {t : TaskId} {p : PipeId}
    (hR : R.beatReply b o throws (.ownTasks .handleUnownedTasks own) = some R') (hentered : R.Entered)
    (hl : R.activeTasks.lookup t = some p)
    (htouched : t ∉ R'.activeTasks ∨ R.log.count (.stop p) < R'.log.count (.stop p)) :
    R.heartbeat ≠ .failed ∧ o.failed = false ∧ t ∉ own := by
  have hsame : R'.toTasks ≠ R.toTasks := by
    intro heq
    rcases htouched with hout | hlt
    · exact absurd (Tasks.mem_of_lookup hl) (heq ▸ hout)
    · rw [heq] at hlt
      omega
  have hrepair : ∀ r₁, Leaves ((R.setBeat b .ended).handleUnownedTasks own throws) r₁ →
      R'.toTasks = r₁.toTasks → t ∉ own := by
    intro r₁ h₁ heq
    obtain ⟨s, rfl, hs⟩ := handleUnownedTasks_change h₁
    have htasks : R'.toTasks = s := heq
    obtain ⟨hlook, hlog⟩ := hs.untouched
    intro hown
    have hnot : t ∉ difference R.taskIds own := fun hd => (mem_difference.mp hd).2 hown
    rcases htouched with hout | hlt
    · have hkeep : s.activeTasks.lookup t = some p := (hlook t hnot).trans hl
      rw [htasks] at hout
      exact hout (Tasks.mem_of_lookup hkeep)
    · have hcount : s.log.count (.stop p) = R.log.count (.stop p) := by
        refine hlog p fun u hu hlu => hnot ?_
        exact hentered.task_eq hlu hl ▸ hu
      rw [htasks] at hlt
      omega
  cases beatReply_cases hR with
  | disposed | failed => exact absurd rfl hsame
  | repaired hheart ho hok => exact ⟨hheart, ho, hrepair _ (Or.inl hok) rfl⟩
  | threw hheart ho herror => exact ⟨hheart, ho, hrepair _ (Or.inr herror) rfl⟩

theorem step_ownTasks {R R' : TaskRunner} {e : Event} {b : BeatId} {rep : Repair} {own : List TaskId}
    (hstep : R.step e = some R') (hb : R'.beats b = some (.ownTasks rep own)) :
    R.beats b = some (.ownTasks rep own) ∨ e = .getOwnTasks b own := by
  have hset : ∀ b' B, (∀ rep own, B ≠ .ownTasks rep own) →
      Function.update R.beats b' (some B) b = some (.ownTasks rep own) →
      R.beats b = some (.ownTasks rep own) := by
    intro b' B hB hb'
    by_cases hbb : b = b'
    · subst hbb
      simp only [Function.update_self, Option.some.injEq] at hb'
      exact absurd hb' (hB rep own)
    · simpa [hbb] using hb'
  cases step_effect hstep with
  | tasks | runTaskStream | cancelTaskStream | cancelFailed | heartbeat | expireLease | stop =>
    exact Or.inl hb
  | beat | heartbeatTasks => exact Or.inl (hset _ _ (by simp) hb)
  | @getOwnTasks b' own' rep' _ =>
    by_cases hbb : b = b'
    · subst hbb
      right
      simp only [setBeat, Function.update_self, Option.some.injEq, Beat.ownTasks.injEq] at hb
      rw [hb.2]
    · exact Or.inl (by simpa [setBeat, hbb] using hb)
  | beatReply hframe =>
    obtain ⟨B', hB', hbeats⟩ := hframe.beats
    rw [hbeats] at hb
    exact Or.inl (hset _ B' hB' hb)

theorem step_getOwnTasks {R R' : TaskRunner} {b : BeatId} {rep : Repair} {own own' : List TaskId}
    (hstep : R.step (.getOwnTasks b own) = some R') (hb : R'.beats b = some (.ownTasks rep own')) :
    own' = own := by
  simp only [step] at hstep
  split at hstep
  · obtain rfl := Option.some.inj hstep
    simp only [setBeat, Function.update_self, Option.some.injEq, Beat.ownTasks.injEq] at hb
    exact hb.2.symm
  · simp at hstep

end TaskRunner

/-- A heartbeat stops and removes only tasks whose lease the runner does not hold. -/
def SparesOwned (w : World) (a : Action) (w' : World) : Prop :=
  ∀ r b o throws own t p, a = .runner r (.beatReply b o throws) →
    (w.runner r).beats b = some (.ownTasks .handleUnownedTasks own) →
    (w.runner r).activeTasks.lookup t = some p →
    (t ∉ (w'.runner r).activeTasks ∨ (w.runner r).log.count (.stop p) < (w'.runner r).log.count (.stop p)) →
    w.holds r t = false

/-- No active task that an answered snapshot misses was checked out after it. -/
def SnapshotCurrent (w : World) (a : Action) (_ : World) : Prop :=
  ∀ r b o throws own t p, a = .runner r (.beatReply b o throws) → o.failed = false →
    (w.runner r).heartbeat ≠ .failed → (w.runner r).beats b = some (.ownTasks .handleUnownedTasks own) →
    t ∈ (w.runner r).activeTasks → t ∉ own → .granted r t p ∉ History.since (.snapshot r b) w.log

namespace World

structure Snapshots (D : Deployment) (w : World) : Prop where
  entered : ∀ r, (w.runner r).Entered
  known : ∀ r t, w.holds r t = true → t ∈ D.documents.map Document.taskId
  missed : ∀ {r b rep own t}, (w.runner r).beats b = some (.ownTasks rep own) → t ∉ own →
    w.holds r t = true → ∃ p, .granted r t p ∈ History.since (.snapshot r b) w.log

variable {D : Deployment} {w w' : World}

theorem Snapshots.step (new : List Entry) (h : Snapshots D w)
    (hrunner : ∀ r, w'.runner r = w.runner r ∨
      ∃ e, (w.runner r).step e = some (w'.runner r) ∧ ∀ b own, e ≠ .getOwnTasks b own)
    (hlog : w'.log = new ++ w.log) (hmarker : ∀ r b, .snapshot r b ∉ new)
    (hholds : ∀ r t, w'.holds r t = true → w.holds r t = true ∨
      (t ∈ D.documents.map Document.taskId ∧ ∃ p, .granted r t p ∈ new)) : Snapshots D w' := by
  refine ⟨fun r => ?_, fun r t ht => ?_, fun {r b rep own t} hb hout ht => ?_⟩
  · rcases hrunner r with heq | ⟨e, hstep, -⟩
    · rw [heq]
      exact h.entered r
    · exact (TaskRunner.step_change hstep).entered (h.entered r)
  · exact (hholds r t ht).elim (h.known r t) (·.1)
  · have hold : (w.runner r).beats b = some (.ownTasks rep own) := by
      rcases hrunner r with heq | ⟨e, hstep, he⟩
      · rw [← heq]
        exact hb
      · exact (TaskRunner.step_ownTasks hstep hb).resolve_right (he b own)
    rw [hlog]
    rcases hholds r t ht with ht | ⟨-, p, hp⟩
    · obtain ⟨p, hp⟩ := h.missed hold hout ht
      exact ⟨p, (History.mem_since_append (hmarker r b)).mpr (Or.inr hp)⟩
    · exact ⟨p, (History.mem_since_append (hmarker r b)).mpr (Or.inl hp)⟩

theorem Snapshots.setRunner {r : RunnerId} {e : Event} {R : TaskRunner} (h : Snapshots D w)
    (hstep : (w.runner r).step e = some R) (he : ∀ b own, e ≠ .getOwnTasks b own) :
    Snapshots D (w.setRunner r R) := by
  refine h.step [] (fun q => ?_) rfl (by simp) fun _ _ ht => Or.inl ht
  by_cases hq : q = r
  · subst hq
    exact Or.inr ⟨e, by simpa [World.setRunner] using hstep, he⟩
  · exact Or.inl (by simp [World.setRunner, hq])

theorem Snapshots.expire {i : DocId} (h : Snapshots D w) : Snapshots D (w.expire D i) := by
  rcases expire_cases (D := D) w i with heq | ⟨t, L, -, heq⟩
  · rw [heq]
    exact h
  · have hrunner : (w.expire D i).runner = w.runner := by simp
    have hlog : (w.expire D i).log = [.expired t] ++ w.log := by
      rw [heq]
      rfl
    have hholds : ∀ r u, (w.expire D i).holds r u = true → w.holds r u = true := by
      intro r u hu
      by_cases hut : u = t
      · simp [holds, heq, hut] at hu
      · simpa [holds, heq, hut] using hu
    exact h.step [.expired t] (fun r => Or.inl (congrFun hrunner r)) hlog (by simp)
      fun r u hu => Or.inl (hholds r u hu)

theorem Snapshots.grant {r : RunnerId} {t : TaskId} {p : PipeId} (h : Snapshots D w)
    (ht : t ∈ D.documents.map Document.taskId) : Snapshots D (w.grant r t p) := by
  have hholds : ∀ q u, (w.grant r t p).holds q u = true → w.holds q u = true ∨ (u = t ∧ q = r) := by
    intro q u hu
    by_cases hut : u = t
    · subst hut
      have hqr : r = q := by simpa [holds, World.grant] using hu
      exact Or.inr ⟨rfl, hqr.symm⟩
    · exact Or.inl (by simpa [holds, World.grant, hut] using hu)
  refine h.step [.granted r t p] (fun _ => Or.inl rfl) rfl (by simp) fun q u hu => ?_
  rcases hholds q u hu with hold | ⟨rfl, rfl⟩
  · exact Or.inl hold
  · exact Or.inr ⟨ht, p, List.mem_singleton_self _⟩

theorem Snapshots.renew {r : RunnerId} (h : Snapshots D w) : Snapshots D (w.renew D r) := by
  have hholds : ∀ q t, (w.renew D r).holds q t = true → w.holds q t = true := by
    intro q t ht
    simp only [holds, World.renew] at ht ⊢
    cases hL : w.lease t with
    | none => simp [hL] at ht
    | some L =>
      by_cases hr : L.runner = r <;> simp_all
  exact h.step _ (fun _ => Or.inl rfl) rfl (by simp) fun q t ht => Or.inl (hholds q t ht)

theorem Snapshots.snapshot {r : RunnerId} {b : BeatId} {R : TaskRunner} (h : Snapshots D w)
    (hstep : (w.runner r).step (.getOwnTasks b (w.ownTasks D r)) = some R) :
    Snapshots D ((w.setRunner r R).record (.snapshot r b)) := by
  refine ⟨fun q => ?_, h.known, fun {q b' rep own t} hb hout ht => ?_⟩
  · by_cases hq : q = r
    · subst hq
      have hentered := (TaskRunner.step_change hstep).entered (h.entered q)
      simpa [World.setRunner, record] using hentered
    · simpa [World.setRunner, record, hq] using h.entered q
  · have ht' : w.holds q t = true := ht
    have hold : (q, b') ≠ (r, b) → (w.runner q).beats b' = some (.ownTasks rep own) →
        ∃ p, .granted q t p ∈ History.since (.snapshot q b') (.snapshot r b :: w.log) := by
      intro hne hb'
      obtain ⟨p, hp⟩ := h.missed hb' hout ht'
      refine ⟨p, History.mem_since_cons.mpr ⟨fun heq => hne ?_, Or.inr hp⟩⟩
      obtain ⟨rfl, rfl⟩ := Entry.snapshot.inj heq
      rfl
    by_cases hq : q = r
    · subst hq
      have hR : R.beats b' = some (.ownTasks rep own) := by
        simpa [World.setRunner, record] using hb
      by_cases hbb : b' = b
      · subst hbb
        obtain rfl := TaskRunner.step_getOwnTasks hstep hR
        have hdoc : t ∈ D.documents.map Document.taskId := h.known q t ht'
        exact absurd (List.mem_filter.mpr ⟨hdoc, ht'⟩) hout
      · rcases TaskRunner.step_ownTasks hstep hR with hb' | he
        · exact hold (by simp [hbb]) hb'
        · exact absurd (Event.getOwnTasks.inj he).1.symm hbb
    · have hb' : (w.runner q).beats b' = some (.ownTasks rep own) := by
        simpa [World.setRunner, record, hq] using hb
      exact hold (by simp [hq]) hb'

theorem Snapshots.change {a : Action} (h : Snapshots D w) (hc : Change D w a w') : Snapshots D w' := by
  cases hc with
  | tick => exact h.step [] (fun _ => Or.inl rfl) rfl (by simp) fun _ _ ht => Or.inl ht
  | runner hs _ hstep => exact h.setRunner hstep fun b own he => by simp [he, Event.ofStore] at hs
  | @started r t p R _ hstep =>
    exact (h.setRunner hstep (by simp)).step [.started r t p] (fun _ => Or.inl rfl) rfl (by simp)
      fun _ _ ht => Or.inl ht
  | refused hstep | setTaskState hstep => exact h.setRunner hstep (by simp)
  | granted _ hdoc _ hstep => exact (h.setRunner hstep (by simp)).grant hdoc
  | renewed hstep => exact (h.setRunner hstep (by simp)).renew
  | snapshot hstep => exact h.snapshot hstep
  | expireLost hstep => exact (h.setRunner hstep (by simp)).expire
  | @scanned s k _ =>
    exact h.step [.scanned s] (fun _ => Or.inl rfl) rfl (by simp) fun _ _ ht => Or.inl ht
  | @expireLease s i S _ _ =>
    have hscan : Snapshots D (w.setScan s (S.done i)) :=
      h.step [] (fun _ => Or.inl rfl) rfl (by simp) fun _ _ ht => Or.inl ht
    exact hscan.expire

theorem snapshots_start (D : Deployment) : Snapshots D (start D) := by
  constructor <;> simp [start, TaskRunner.start, Tasks.Entered, holds]

end World

/-- In every run whose snapshots miss nothing that was checked out and activated
since, heartbeats spare what the runner owns. -/
theorem handleUnownedTasks_spares_owned (D : Deployment) (acts : List Action)
    (hok : Lts.Along (World.step D) SnapshotCurrent (World.start D) acts) :
    Lts.Along (World.step D) SparesOwned (World.start D) acts := by
  refine hok.of_invariant (World.Snapshots D)
    (fun _ _ _ hstep _ h => h.change (World.step_change hstep)) ?_ (World.snapshots_start D)
  intro w a w' hstep hcurrent h r b o throws own t p ha hb hl htouched
  subst ha
  by_contra hnot
  have hheld : w.holds r t = true := by simpa using hnot
  have hreply : ∃ R, (w.runner r).step (.beatReply b o throws) = some R ∧ w'.runner r = R := by
    cases World.step_change hstep with
    | runner _ _ hR => exact ⟨_, hR, by simp [World.setRunner]⟩
  obtain ⟨R, hR, hw'⟩ := hreply
  obtain ⟨B, hB, hR⟩ := Option.bind_eq_some_iff.mp hR
  obtain rfl := Option.some.inj (hb.symm.trans hB)
  rw [hw'] at htouched
  obtain ⟨hheart, ho, hout⟩ := TaskRunner.beatReply_touched hR (h.entered r) hl htouched
  obtain ⟨q, hq⟩ := h.missed hb hout hheld
  have hin : t ∈ (w.runner r).activeTasks := Tasks.mem_of_lookup hl
  exact hcurrent r b o throws own t q rfl ho hheart hb hin hout hq

theorem handleUnownedTasks_spares_owned_run : ∃ acts w,
    Lts.exec (World.step .pair) (World.start .pair) acts = some w ∧
      .stopped 0 ∈ (w.runner 0).log ∧ Lts.Along (World.step .pair) SparesOwned (World.start .pair) acts := by
  have hrun : Lts.exec (World.step .pair) (World.start .pair) [.runner 0 (.runTask 0 7),
      .checkoutTask 0 0 true, .runner 0 (.reply 0 .resolve), .runner 0 (.reply 0 .resolve),
      .runner 0 (.reply 0 .resolve), .tick 11, .findExpiredLeases 0 0, .expireLease 0 5,
      .runner 0 (.beat 0), .heartbeatTasks 0 0, .runner 0 (.beatReply 0 .resolve fun _ => false),
      .getOwnTasks 0 0, .runner 0 (.beatReply 0 .resolve fun _ => false)] = some _ := rfl
  refine ⟨_, _, hrun, by decide, handleUnownedTasks_spares_owned .pair _ ?_⟩
  refine And.intro nofun (And.intro nofun (And.intro nofun (And.intro nofun (And.intro nofun
    (And.intro nofun (And.intro nofun (And.intro nofun (And.intro nofun (And.intro nofun
      (And.intro ?_ (And.intro nofun (And.intro ?_ trivial))))))))))))
  · intro r b o throws own t p ha _ _ hb
    obtain ⟨rfl, he⟩ := Action.runner.inj ha
    obtain ⟨rfl, -, -⟩ := Event.beatReply.inj he
    exact absurd hb (by simp [World.setRunner, TaskRunner.setBeat, World.renew])
  · intro r b o throws own t p ha _ _ _ _ _ hp
    obtain ⟨rfl, he⟩ := Action.runner.inj ha
    obtain ⟨rfl, -, -⟩ := Event.beatReply.inj he
    simp [World.record] at hp

theorem handleUnownedTasks_stops_owned : ¬ Lts.Along (World.step .pair) SparesOwned (World.start .pair)
    [.runner 0 (.runTask 0 7), .checkoutTask 0 0 true, .runner 0 (.reply 0 .resolve),
      .runner 0 (.reply 0 .resolve), .runner 0 (.reply 0 .resolve), .runner 0 (.runTask 1 8), .tick 11,
      .findExpiredLeases 0 0, .expireLease 0 5, .runner 0 (.beat 0), .heartbeatTasks 0 0,
      .runner 0 (.beatReply 0 .resolve fun _ => false), .getOwnTasks 0 0, .checkoutTask 0 1 true,
      .runner 0 (.reply 1 .resolve), .runner 0 (.reply 1 .resolve), .runner 0 (.reply 1 .resolve),
      .runner 0 (.beatReply 0 .resolve fun _ => false)] := by
  intro h
  have hspares := h.getLast (List.cons_ne_nil _ _) rfl rfl
  have hfree := hspares 0 0 .resolve (fun _ => false) [] 8 1 rfl rfl rfl (Or.inl (by decide))
  exact absurd hfree (by decide)

end OnTaskGraph
