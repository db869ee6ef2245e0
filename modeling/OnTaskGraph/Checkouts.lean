import OnTaskGraph.History
import OnTaskGraph.Leases
import OnTaskGraph.PipeProgress

/-! Exclusive execution. A pipeline starts its task on a checkout of its own, the
checkouts of a task are at most one more than the expirations of its lease, so
over all runners the starts are too. -/

namespace OnTaskGraph

abbrev Checkout := RunnerId × TaskId × PipeId

def Entry.startKey : Entry → Option Checkout
  | .started r t p => some (r, t, p)
  | _ => none

def Entry.grantKey : Entry → Option Checkout
  | .granted r t p => some (r, t, p)
  | _ => none

namespace World

def starts (w : World) (t : TaskId) : Nat :=
  ((w.log.filterMap Entry.startKey).filter (·.2.1 = t)).length

def grants (w : World) (t : TaskId) : Nat :=
  ((w.log.filterMap Entry.grantKey).filter (·.2.1 = t)).length

def expirations (w : World) (t : TaskId) : Nat := w.log.count (.expired t)

theorem mem_startKeys {log : List Entry} {r : RunnerId} {t : TaskId} {p : PipeId} :
    (r, t, p) ∈ log.filterMap Entry.startKey ↔ .started r t p ∈ log := by
  rw [List.mem_filterMap]
  constructor
  · rintro ⟨x, hx, hkey⟩
    cases x <;> simp_all [Entry.startKey]
  · exact fun h => ⟨_, h, rfl⟩

theorem mem_grantKeys {log : List Entry} {r : RunnerId} {t : TaskId} {p : PipeId} :
    (r, t, p) ∈ log.filterMap Entry.grantKey ↔ .granted r t p ∈ log := by
  rw [List.mem_filterMap]
  constructor
  · rintro ⟨x, hx, hkey⟩
    cases x <;> simp_all [Entry.grantKey]
  · exact fun h => ⟨_, h, rfl⟩

/-! Each checkout of a task is followed by at most one start and, while the lease
is free again, by one expiration. -/

def Balanced (w : World) : Prop :=
  ∀ t, w.grants t = (if (w.lease t).isSome then 1 else 0) + w.expirations t

def Entry.quiet : Entry → Bool
  | .renewed _ | .snapshot .. | .scanned _ => true
  | _ => false

theorem quiet_filterMap {new : List Entry} (log : List Entry) (hnew : ∀ x ∈ new, Entry.quiet x = true) :
    (new ++ log).filterMap Entry.startKey = log.filterMap Entry.startKey ∧
      (new ++ log).filterMap Entry.grantKey = log.filterMap Entry.grantKey ∧
      ∀ t, (new ++ log).count (.expired t) = log.count (.expired t) := by
  induction new with
  | nil => simp
  | cons x new ih =>
    obtain ⟨hx, hnew⟩ := List.forall_mem_cons.mp hnew
    have ih := ih hnew
    cases x with
    | renewed | snapshot | scanned =>
      simpa [List.filterMap_cons, Entry.startKey, Entry.grantKey] using ih
    | granted | started | expired => simp [Entry.quiet] at hx

theorem quiet_renewed {ts : List TaskId} : ∀ x ∈ ts.map Entry.renewed, Entry.quiet x = true := by
  simp [Entry.quiet]

section

variable {D : Deployment} {w w' : World}

theorem Balanced.of_quiet (new : List Entry) (h : w.Balanced) (hnew : ∀ x ∈ new, Entry.quiet x = true)
    (hlog : w'.log = new ++ w.log) (hlease : ∀ t, (w'.lease t).isSome = (w.lease t).isSome) :
    w'.Balanced := by
  intro t
  have hq := quiet_filterMap w.log hnew
  have ht := h t
  simp only [grants, expirations, hlog, hq.2.1, hq.2.2, hlease] at ht ⊢
  exact ht

theorem Balanced.started {r : RunnerId} {t : TaskId} {p : PipeId} (h : w.Balanced) :
    (w.record (.started r t p)).Balanced := by
  intro u
  have hg : (w.record (.started r t p)).grants u = w.grants u := by
    simp [grants, record, List.filterMap_cons, Entry.grantKey]
  have he : (w.record (.started r t p)).expirations u = w.expirations u := by
    simp [expirations, record]
  have hl : (w.record (.started r t p)).lease u = w.lease u := rfl
  rw [hg, he, hl, h u]

theorem Balanced.grant {r : RunnerId} {t : TaskId} {p : PipeId} (h : w.Balanced)
    (hfree : w.lease t = none) : (w.grant r t p).Balanced := by
  intro u
  have hu := h u
  by_cases htu : u = t
  · subst htu
    simp only [hfree, Option.isSome_none, Bool.false_eq_true, if_false, Nat.zero_add] at hu
    have hg : (w.grant r u p).grants u = w.grants u + 1 := by
      simp [grants, World.grant, Entry.grantKey]
    have he : (w.grant r u p).expirations u = w.expirations u := by
      simp [expirations, World.grant]
    have hl : ((w.grant r u p).lease u).isSome = true := by simp [World.grant]
    rw [hg, he, hl, hu]
    simp only [if_true]
    omega
  · have hg : (w.grant r t p).grants u = w.grants u := by
      simp [grants, World.grant, Entry.grantKey, Ne.symm htu]
    have he : (w.grant r t p).expirations u = w.expirations u := by
      simp [expirations, World.grant]
    have hl : (w.grant r t p).lease u = w.lease u := by simp [World.grant, htu]
    rw [hg, he, hl, hu]

theorem Balanced.expire {i : DocId} (h : w.Balanced) : (w.expire D i).Balanced := by
  rcases expire_cases (D := D) w i with heq | ⟨t, L, hL, heq⟩
  · rw [heq]
    exact h
  · intro u
    have hu := h u
    have hg : (w.expire D i).grants u = w.grants u := by
      simp [grants, heq, List.filterMap_cons, Entry.grantKey]
    by_cases htu : u = t
    · subst htu
      have he : (w.expire D i).expirations u = w.expirations u + 1 := by
        simp [expirations, heq]
      have hl : ((w.expire D i).lease u).isSome = false := by simp [heq]
      simp only [hL, Option.isSome_some, if_true] at hu
      rw [hg, he, hl, hu]
      simp only [Bool.false_eq_true, if_false]
      omega
    · have he : (w.expire D i).expirations u = w.expirations u := by
        simp [expirations, heq, Ne.symm htu]
      have hl : (w.expire D i).lease u = w.lease u := by simp [heq, htu]
      rw [hg, he, hl, hu]

theorem Change.balanced {a : Action} (hc : Change D w a w') (h : w.Balanced) : w'.Balanced := by
  have hrunner : ∀ r R, (w.setRunner r R).Balanced := fun r R => h
  cases hc with
  | tick | runner | refused | setTaskState => exact h
  | started => exact (hrunner _ _).started
  | granted _ _ hfree _ => exact (hrunner _ _).grant hfree
  | @renewed r b R _ =>
    have hlease : ∀ t, (((w.setRunner r R).renew D r).lease t).isSome = (w.lease t).isSome := by
      simp [renew, setRunner]
    exact (hrunner r R).of_quiet _ quiet_renewed rfl hlease
  | @snapshot r b R _ =>
    exact (hrunner r R).of_quiet [.snapshot r b] (by simp [Entry.quiet]) rfl fun _ => rfl
  | expireLost => exact (hrunner _ _).expire
  | @scanned s k _ =>
    exact h.of_quiet [.scanned s] (by simp [Entry.quiet]) rfl fun _ => rfl
  | @expireLease s i S _ _ =>
    have hscan : (w.setScan s (S.done i)).Balanced := h
    exact hscan.expire

/-! Starts and the checkouts they rest on. -/

structure Paired (w : World) : Prop where
  called : ∀ {r p}, .run p ∈ (w.runner r).log ↔ ∃ t, .started r t p ∈ w.log
  asked : ∀ {r t p}, .started r t p ∈ w.log → (w.runner r).Started p t
  given : ∀ {r t p st}, (w.runner r).pipes p = some ⟨t, st⟩ → st.waiting = true →
    .granted r t p ∈ w.log
  matched : History.Matched Entry.startKey Entry.grantKey w.log

theorem activation_step {R R' : TaskRunner} {e : Event} {t : TaskId} {p : PipeId}
    (hact : R.activation e = some (t, p)) (hstep : R.step e = some R') :
    .run p ∈ R'.log ∧ R'.Started p t := by
  obtain ⟨rfl, hp⟩ := TaskRunner.activation_eq_some.mp hact
  have hR : R.withTasks (R.activate p t) = R' := by
    simpa [TaskRunner.step, hp, Tasks.reply] using hstep
  subst hR
  exact ⟨List.mem_cons_self, .run, Tasks.pipes_setPipe_self, rfl⟩

theorem run_mem_step {R R' : TaskRunner} {e : Event} {p : PipeId} (hstep : R.step e = some R') :
    .run p ∈ R'.log ↔ .run p ∈ R.log ∨ ∃ t, R.activation e = some (t, p) := by
  have hc := TaskRunner.step_change hstep
  constructor
  · intro hr
    rcases hc.run_mem hr with hr | ⟨he, t, hp⟩
    · exact Or.inl hr
    · exact Or.inr ⟨t, TaskRunner.activation_eq_some.mpr ⟨he, hp⟩⟩
  · rintro (hr | ⟨t, hact⟩)
    · exact hc.log_subset hr
    · exact (activation_step hact hstep).1

theorem Paired.step {r : RunnerId} {e : Event} {R : TaskRunner} (new : List Entry) (h : w.Paired)
    (hstep : (w.runner r).step e = some R) (hrunner : w'.runner = Function.update w.runner r R)
    (hlog : w'.log = new ++ w.log)
    (hstarted : ∀ q t p, .started q t p ∈ new ↔ q = r ∧ (w.runner r).activation e = some (t, p))
    (hgranted : ∀ t p, e = .checkoutTask p true → (w.runner r).pipes p = some ⟨t, .checkoutTask⟩ →
      .granted r t p ∈ new)
    (hmatched : History.Matched Entry.startKey Entry.grantKey w'.log) : w'.Paired := by
  have hc := TaskRunner.step_change hstep
  have hself : w'.runner r = R := by simp [hrunner]
  have hother : ∀ q, q ≠ r → w'.runner q = w.runner q := by
    intro q hq
    simp [hrunner, hq]
  have hmem : ∀ q t p, .started q t p ∈ w'.log ↔
      (q = r ∧ (w.runner r).activation e = some (t, p)) ∨ .started q t p ∈ w.log := by
    intro q t p
    rw [hlog, List.mem_append, hstarted]
  refine { called := ?_, asked := ?_, given := ?_, matched := hmatched }
  · intro q p
    simp only [hmem]
    by_cases hq : q = r
    · subst hq
      rw [hself, run_mem_step hstep, h.called, ← exists_or]
      exact exists_congr fun t => by tauto
    · rw [hother q hq, h.called]
      simp [hq]
  · intro q t p hin
    rcases (hmem q t p).mp hin with ⟨rfl, hact⟩ | hold
    · rw [hself]
      exact (activation_step hact hstep).2
    · have hs := h.asked hold
      by_cases hq : q = r
      · subst hq
        rw [hself]
        exact hc.started hs
      · rw [hother q hq]
        exact hs
  · intro q t p st hp hw
    rw [hlog, List.mem_append]
    by_cases hq : q = r
    · subst hq
      rw [hself] at hp
      rcases hc.waiting hp hw with ⟨st', hp', hw'⟩ | ⟨he, hp'⟩
      · exact Or.inr (h.given hp' hw')
      · exact Or.inl (hgranted t p he hp')
    · rw [hother q hq] at hp
      exact Or.inr (h.given hp hw)

theorem Paired.setRunner {r : RunnerId} {e : Event} {R : TaskRunner} (h : w.Paired)
    (hstep : (w.runner r).step e = some R) (hact : (w.runner r).activation e = none)
    (hgrant : ∀ p, e ≠ .checkoutTask p true) : (w.setRunner r R).Paired :=
  h.step [] hstep rfl rfl (by simp [hact]) (fun _ p he => absurd he (hgrant p)) h.matched

theorem Paired.started {r : RunnerId} {t : TaskId} {p : PipeId} {R : TaskRunner} (h : w.Paired)
    (hp : (w.runner r).pipes p = some ⟨t, .create⟩)
    (hstep : (w.runner r).step (.reply p .resolve) = some R) :
    ((w.setRunner r R).record (.started r t p)).Paired := by
  have hact : (w.runner r).activation (.reply p .resolve) = some (t, p) :=
    TaskRunner.activation_eq_some.mpr ⟨rfl, hp⟩
  refine h.step [.started r t p] hstep rfl rfl ?_ (by simp) ⟨fun b hb => ?_, h.matched⟩
  · simp [hact, eq_comm]
  · obtain rfl : (r, t, p) = b := by simpa [Entry.startKey] using hb
    refine ⟨mem_grantKeys.mpr (h.given hp rfl), fun hmem => ?_⟩
    obtain ⟨st, hst, hs⟩ := h.asked (mem_startKeys.mp hmem)
    obtain ⟨-, rfl⟩ := Tasks.pipe_inj hst hp
    simp [Stage.started] at hs

theorem Paired.granted {r : RunnerId} {t : TaskId} {p : PipeId} {R : TaskRunner} (h : w.Paired)
    (hp : (w.runner r).pipes p = some ⟨t, .checkoutTask⟩)
    (hstep : (w.runner r).step (.checkoutTask p true) = some R) :
    ((w.setRunner r R).grant r t p).Paired := by
  refine h.step [.granted r t p] hstep rfl rfl (by simp [TaskRunner.activation]) ?_
    ⟨by simp [Entry.startKey], h.matched⟩
  intro u q he hq
  obtain rfl := (Event.checkoutTask.inj he).1
  obtain rfl := (Tasks.pipe_inj hq hp).1
  exact List.mem_singleton_self _

theorem Paired.of_log (new : List Entry) (h : w.Paired) (hrunner : w'.runner = w.runner)
    (hlog : w'.log = new ++ w.log)
    (hnew : ∀ x ∈ new, Entry.startKey x = none ∧ Entry.grantKey x = none) : w'.Paired := by
  have hstarted : ∀ r t p, .started r t p ∈ w'.log ↔ .started r t p ∈ w.log := by
    intro r t p
    rw [hlog, List.mem_append, or_iff_right]
    exact fun hx => by simpa [Entry.startKey] using (hnew _ hx).1
  refine { called := ?_, asked := ?_, given := ?_, matched := ?_ }
  · intro r p
    rw [hrunner, h.called]
    exact exists_congr fun t => (hstarted r t p).symm
  · intro r t p hmem
    rw [hrunner]
    exact h.asked ((hstarted r t p).mp hmem)
  · intro r t p st hp hw
    rw [hrunner] at hp
    rw [hlog]
    exact List.mem_append_right _ (h.given hp hw)
  · rw [hlog]
    refine History.Chronicle.append h.matched fun later x earlier heq b hb => ?_
    have hx : x ∈ new := by simp [heq]
    simp [(hnew x hx).1] at hb

theorem Paired.expire {i : DocId} (h : w.Paired) : (w.expire D i).Paired := by
  rcases expire_cases (D := D) w i with heq | ⟨t, L, -, heq⟩
  · rw [heq]
    exact h
  · exact h.of_log [.expired t] (by rw [heq]) (by rw [heq]; rfl)
      (by simp [Entry.startKey, Entry.grantKey])

theorem Change.paired {a : Action} (hc : Change D w a w') (h : w.Paired) : w'.Paired := by
  cases hc with
  | tick => exact h.of_log [] rfl rfl (by simp)
  | runner hs hact hstep =>
    exact h.setRunner hstep hact fun p he => by simp [he, Event.ofStore] at hs
  | started hp hstep => exact h.started hp hstep
  | refused hstep => exact h.setRunner hstep rfl (by simp)
  | granted hp _ _ hstep => exact h.granted hp hstep
  | setTaskState hstep => exact h.setRunner hstep rfl (by simp)
  | @renewed r b R hstep =>
    have hR := h.setRunner hstep rfl (by simp)
    exact hR.of_log _ rfl rfl (by simp [Entry.startKey, Entry.grantKey])
  | @snapshot r b R hstep =>
    have hR := h.setRunner hstep rfl (by simp)
    exact hR.of_log [.snapshot r b] rfl rfl (by simp [Entry.startKey, Entry.grantKey])
  | expireLost hstep => exact (h.setRunner hstep rfl (by simp)).expire
  | @scanned s k _ =>
    exact h.of_log [.scanned s] rfl rfl (by simp [Entry.startKey, Entry.grantKey])
  | @expireLease s i S _ _ =>
    have hscan : (w.setScan s (S.done i)).Paired := h.of_log [] rfl rfl (by simp)
    exact hscan.expire

end

theorem balanced_start (D : Deployment) : (start D).Balanced := by
  intro t
  simp [start, grants, expirations]

theorem paired_start (D : Deployment) : (start D).Paired := by
  refine { called := ?_, asked := ?_, given := ?_, matched := trivial } <;>
    simp [start, TaskRunner.start]

end World

/-- The log of starts is the log of the `run()` calls of each runner. -/
theorem started_iff_run {D : Deployment} {acts : List Action} {w : World} {r : RunnerId} {p : PipeId}
    (h : Lts.exec (World.step D) (World.start D) acts = some w) :
    .run p ∈ (w.runner r).log ↔ ∃ t, .started r t p ∈ w.log := by
  have hpaired : w.Paired := Lts.invariant World.Paired
    (fun _ _ _ hstep hp => (World.step_change hstep).paired hp) (World.paired_start D) h
  exact hpaired.called

/-- Over all runners, `run()` of a task is started at most once more than its
lease has expired, and each start rests on a checkout of its own. -/
theorem exclusive_execution (D : Deployment) (acts : List Action) (w : World)
    (h : Lts.exec (World.step D) (World.start D) acts = some w) :
    (∀ t, w.starts t ≤ 1 + w.expirations t) ∧
      History.Matched Entry.startKey Entry.grantKey w.log := by
  have hpaired : w.Paired := Lts.invariant World.Paired
    (fun _ _ _ hstep hp => (World.step_change hstep).paired hp) (World.paired_start D) h
  have hbalanced : w.Balanced := Lts.invariant World.Balanced
    (fun _ _ _ hstep hb => (World.step_change hstep).balanced hb) (World.balanced_start D) h
  refine ⟨fun t => ?_, hpaired.matched⟩
  have hle : w.starts t ≤ w.grants t := hpaired.matched.length_le fun b => b.2.1 = t
  have hgrants := hbalanced t
  split_ifs at hgrants <;> omega

theorem exclusive_execution_run : ∃ acts w,
    Lts.exec (World.step .pair) (World.start .pair) acts = some w ∧ .started 0 7 0 ∈ w.log ∧
      (∀ t, w.starts t ≤ 1 + w.expirations t) ∧ History.Matched Entry.startKey Entry.grantKey w.log := by
  have hrun : Lts.exec (World.step .pair) (World.start .pair) [.runner 0 (.runTask 0 7),
      .runner 1 (.runTask 0 7), .checkoutTask 0 0 true, .checkoutTask 1 0 false,
      .runner 0 (.reply 0 .resolve), .runner 0 (.reply 0 .resolve), .runner 0 (.reply 0 .resolve)] =
      some _ := rfl
  exact ⟨_, _, hrun, by decide, exclusive_execution .pair _ _ hrun⟩

end OnTaskGraph
