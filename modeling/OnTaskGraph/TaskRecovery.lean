import OnTaskGraph.Leases
import OnTaskGraph.PipeProgress

/-! A task whose runner has died is not lost: once its lease has expired and a poller has
given it back, any other runner that is told to run it starts it. -/

namespace OnTaskGraph

/-- Only finitely many names of run pipelines are taken. -/
def Tasks.Bounded (s : Tasks) : Prop := ∃ n, ∀ p, n ≤ p → s.pipes p = none

namespace Tasks

variable {s s' : Tasks}

theorem Bounded.of_pipes (h : s.Bounded) (heq : s'.pipes = s.pipes) : s'.Bounded := by
  obtain ⟨n, hn⟩ := h
  exact ⟨n, fun p hp => heq ▸ hn p hp⟩

theorem Bounded.setPipe (h : s.Bounded) (p : PipeId) (t : TaskId) (st : Stage) :
    (s.setPipe p t st).Bounded := by
  obtain ⟨n, hn⟩ := h
  refine ⟨max n (p + 1), fun q hq => ?_⟩
  have hle := Nat.max_le.mp hq
  have hne : q ≠ p := by
    intro heq
    exact absurd hle.2 (by simp [heq])
  rw [pipes_setPipe_ne hne]
  exact hn q hle.1

theorem Change.bounded {e : Event} (hc : s.Change e s') (h : s.Bounded) : s'.Bounded := by
  cases hc with
  | idle => exact h
  | accept | move => exact h.setPipe _ _ _
  | activate => exact (h.setPipe _ _ .run).of_pipes rfl
  | @finish _ t _ =>
    have hpart : (s.deactivate t).Bounded := h.of_pipes rfl
    exact hpart.setPipe _ _ .ended
  | cancel | cancelled | cancelFailed => exact h.of_pipes rfl
  | stopping hstop => exact h.of_pipes hstop.pipes

end Tasks

namespace World

variable {D : Deployment} {w w' : World}

/-- There are names left for scans and run pipelines, and no lease is from the future. -/
structure Bounded (w : World) : Prop where
  scans : ∃ n, ∀ s, n ≤ s → w.scans s = none
  tasks : ∀ r, (w.runner r).toTasks.Bounded
  heartbeat : ∀ t L, w.lease t = some L → L.heartbeat ≤ w.now

theorem bounded_start (D : Deployment) : (start D).Bounded :=
  ⟨⟨0, fun _ _ => rfl⟩, fun _ => ⟨0, fun _ _ => rfl⟩, nofun⟩

theorem setScan_scans (h : ∃ n, ∀ s, n ≤ s → w.scans s = none) (s : ScanId) (S : Scan) :
    ∃ n, ∀ q, n ≤ q → (w.setScan s S).scans q = none := by
  obtain ⟨n, hn⟩ := h
  refine ⟨max n (s + 1), fun q hq => ?_⟩
  have hle := Nat.max_le.mp hq
  have hne : q ≠ s := by
    intro heq
    exact absurd hle.2 (by simp [heq])
  simpa [setScan, Function.update_of_ne hne] using hn q hle.1

theorem expire_heartbeat {i : DocId} (h : ∀ t L, w.lease t = some L → L.heartbeat ≤ w.now) :
    ∀ t L, (w.expire D i).lease t = some L → L.heartbeat ≤ (w.expire D i).now := by
  rcases expire_cases (D := D) w i with heq | ⟨u, -, -, heq⟩
  · rwa [heq]
  · rw [heq]
    intro t L hL
    by_cases ht : t = u
    · simp [ht] at hL
    · exact h t L (by simpa [ht] using hL)

theorem Change.scans {a : Action} (hc : Change D w a w') (h : ∃ n, ∀ s, n ≤ s → w.scans s = none) :
    ∃ n, ∀ s, n ≤ s → w'.scans s = none := by
  cases hc with
  | tick | runner | started | refused | granted | setTaskState | renewed | snapshot => exact h
  | expireLost =>
    rw [expire_scans]
    exact h
  | scanned => exact setScan_scans h _ _
  | expireLease => simpa using setScan_scans h _ _

theorem Change.heartbeat {a : Action} (hc : Change D w a w')
    (h : ∀ t L, w.lease t = some L → L.heartbeat ≤ w.now) :
    ∀ t L, w'.lease t = some L → L.heartbeat ≤ w'.now := by
  cases hc with
  | tick => exact fun t L hL => Nat.le_add_right_of_le (h t L hL)
  | runner | started | refused | setTaskState | snapshot | scanned => exact h
  | @granted r u p R _ _ _ _ =>
    intro t L hL
    by_cases ht : t = u
    · obtain rfl : ⟨r, w.now⟩ = L := by simpa [grant, setRunner, ht] using hL
      exact Nat.le_refl _
    · exact h t L (by simpa [grant, setRunner, ht] using hL)
  | renewed =>
    intro t L hL
    obtain ⟨M, hM, hML⟩ := Option.map_eq_some_iff.mp hL
    split at hML
    · exact hML ▸ Nat.le_refl _
    · exact hML ▸ h t M hM
  | expireLost => exact expire_heartbeat (w := w.setRunner _ _) h
  | expireLease => exact expire_heartbeat (w := w.setScan _ _) h

theorem Change.bounded {a : Action} (hc : Change D w a w') (h : w.Bounded) : w'.Bounded := by
  refine ⟨hc.scans h.scans, fun r => ?_, hc.heartbeat h.heartbeat⟩
  rcases hc.runner_step r with heq | ⟨e, he⟩
  · exact heq ▸ h.tasks r
  · exact (TaskRunner.step_change he).bounded (h.tasks r)

theorem bounded_of_exec {acts : List Action} (hrun : Lts.exec (step D) (start D) acts = some w) : w.Bounded :=
  Lts.invariant Bounded (fun _ _ _ hstep => (step_change hstep).bounded) (bounded_start D) hrun

theorem document_of_mem {doc : Document} (h : doc ∈ D.documents) : D.document doc.id = some doc := by
  have hsome : (D.document doc.id).isSome := List.find?_isSome.mpr ⟨doc, h, by simp⟩
  obtain ⟨d, hd⟩ := Option.isSome_iff_exists.mp hsome
  have hid : d.id = doc.id := by simpa using List.find?_some hd
  obtain rfl := List.inj_on_of_nodup_map D.nodup_ids (List.mem_of_find?_eq_some hd) h hid
  exact hd

/-- A scan of a poller of the task's domain has its lease given back, at any time at which the
lease has not been renewed for long enough. -/
theorem exists_given_back (h : w.Bounded) {doc : Document} (hdoc : doc ∈ D.documents) {k : PollerId}
    (hdomain : doc.domain = (D.poller k).domain) {wait : Nat} (hwait : (D.poller k).leaseAdjust < wait) :
    ∃ acts new w', Lts.exec (step D) w (.tick wait :: acts) = some w' ∧ w'.log = new ++ w.log ∧
      w'.lease doc.taskId = none ∧ w'.runner = w.runner ∧ w'.now = w.now + wait ∧
      ∀ a ∈ acts, ∀ v, event D v a = none := by
  have hd := document_of_mem hdoc
  let later : World := { w with now := w.now + wait }
  have htick : step D w (.tick wait) = some later := rfl
  cases hL : w.lease doc.taskId with
  | none => exact ⟨[], [], later, by simp [Lts.exec, htick], rfl, hL, rfl, rfl, by simp⟩
  | some L =>
    obtain ⟨s, hs⟩ := h.scans
    have hfree : w.scans s = none := hs s (Nat.le_refl s)
    let scanned : World := (later.setScan s ⟨k, later.expiredLease D (D.poller k)⟩).record (.scanned s)
    have hscan : step D later (.findExpiredLeases s k) = some scanned := by simp [step, later, scanned, hfree]
    have hold : later.expiredLease D (D.poller k) doc.id = true := by
      have hle := h.heartbeat _ _ hL
      simp [expiredLease, later, hd, hL, hdomain]
      omega
    have hentry : scanned.scans s = some ⟨k, later.expiredLease D (D.poller k)⟩ := by
      simp [scanned, record, setScan]
    have hlease : scanned.lease doc.taskId = some L := hL
    let done := scanned.setScan s (Scan.done ⟨k, later.expiredLease D (D.poller k)⟩ doc.id)
    have hgive : step D scanned (.expireLease s doc.id) = some (done.expire D doc.id) := by
      simp [step, hentry, hold, done]
    have hexpire : done.expire D doc.id =
        { done with
          lease := Function.update done.lease doc.taskId none
          log := .expired doc.taskId :: done.log } := by
      have hdone : done.lease doc.taskId = some L := hL
      simp [expire, hd, hdone]
    refine ⟨[.findExpiredLeases s k, .expireLease s doc.id], [.expired doc.taskId, .scanned s],
      done.expire D doc.id, ?_, ?_, ?_, ?_, ?_, ?_⟩
    · simp [Lts.exec, htick, hscan, hgive]
    · rw [hexpire]
      rfl
    · simp [hexpire]
    · rw [expire_runner]
      rfl
    · rw [hexpire]
      rfl
    · simp [event]

/-! The way of one pipeline from `runTask` to `task.run()`. -/

/-- The pipeline goes on to the stage. -/
def piped (w : World) (r : RunnerId) (p : PipeId) (t : TaskId) (st : Stage) : World :=
  w.setRunner r ((w.runner r).withTasks ((w.runner r).setPipe p t st))

variable {r : RunnerId} {p : PipeId} {t : TaskId} {st st' : Stage}

theorem piped_pipes : ((w.piped r p t st).runner r).pipes p = some ⟨t, st⟩ := by
  simp [piped, setRunner, TaskRunner.withTasks, Tasks.pipes_setPipe_self]

theorem step_runTask (hrunning : (w.runner r).running = true) (hstream : (w.runner r).runTaskStream = .active)
    (hidle : t ∉ (w.runner r).activeTasks) (hp : (w.runner r).pipes p = none) :
    step D w (.runner r (.runTask p t)) = some (w.piped r p t .checkoutTask) := by
  simp [step, Event.ofStore, TaskRunner.activation, stepRunner, TaskRunner.step, TaskRunner.acceptRunTask, hp,
    hrunning, hstream, hidle, piped]

theorem step_checkoutTask (hp : (w.runner r).pipes p = some ⟨t, .checkoutTask⟩)
    (ht : t ∈ D.documents.map Document.taskId) (hfree : w.lease t = none) :
    step D w (.checkoutTask r p true) = some ((w.piped r p t (.checkedOut true)).grant r t p) := by
  have hstep : (w.runner r).step (.checkoutTask p true) =
      some ((w.runner r).withTasks ((w.runner r).setPipe p t (.checkedOut true))) := by
    simp [TaskRunner.step, hp]
  simp only [step, hp, stepRunner, hstep]
  simp [ht, hfree, piped, -List.mem_map]

theorem step_reply (hp : (w.runner r).pipes p = some ⟨t, st⟩) (hne : st ≠ .create)
    (hmove : ∀ s : Tasks, s.reply p t .resolve st = some (s.setPipe p t st')) :
    step D w (.runner r (.reply p .resolve)) = some (w.piped r p t st') := by
  have hact : (w.runner r).activation (.reply p .resolve) = none := by
    rw [Option.eq_none_iff_forall_not_mem]
    rintro ⟨u, q⟩ hu
    obtain ⟨he, hq⟩ := TaskRunner.activation_eq_some.mp hu
    obtain rfl : p = q := (Event.reply.inj he).1
    exact hne (Tasks.pipe_inj hp hq).2
  have hstep : (w.runner r).step (.reply p .resolve) =
      some ((w.runner r).withTasks ((w.runner r).setPipe p t st')) := by
    simp [TaskRunner.step, hp, hmove]
  simp [step, Event.ofStore, hact, stepRunner, hstep, piped]

theorem step_create (hp : (w.runner r).pipes p = some ⟨t, .create⟩) :
    step D w (.runner r (.reply p .resolve)) =
      some ((w.setRunner r ((w.runner r).withTasks ((w.runner r).activate p t))).record (.started r t p)) := by
  have hact : (w.runner r).activation (.reply p .resolve) = some (t, p) :=
    TaskRunner.activation_eq_some.mpr ⟨rfl, hp⟩
  have hstep : (w.runner r).step (.reply p .resolve) =
      some ((w.runner r).withTasks ((w.runner r).activate p t)) := by
    simp [TaskRunner.step, hp, Tasks.reply]
  simp [step, Event.ofStore, hact, stepRunner, hstep]

/-- A runner that is told to run a task without a lease starts it, if all its calls are answered. -/
theorem exists_started (h : (w.runner r).toTasks.Bounded) (ht : t ∈ D.documents.map Document.taskId)
    (hfree : w.lease t = none) (hrunning : (w.runner r).running = true)
    (hstream : (w.runner r).runTaskStream = .active) (hidle : t ∉ (w.runner r).activeTasks) :
    ∃ p acts w', Lts.exec (step D) w acts = some w' ∧ w'.log = .started r t p :: .granted r t p :: w.log ∧
      w'.holds r t = true ∧ w'.now = w.now ∧ ∀ a ∈ acts, ∀ v q e, event D v a = some (q, e) → q = r := by
  obtain ⟨p, hp⟩ := h
  let asked := w.piped r p t .checkoutTask
  let granted := (asked.piped r p t (.checkedOut true)).grant r t p
  let fetching := granted.piped r p t .getTaskById
  let creating := fetching.piped r p t .create
  let started := (creating.setRunner r ((creating.runner r).withTasks ((creating.runner r).activate p t))).record
    (.started r t p)
  have hasked : step D w (.runner r (.runTask p t)) = some asked :=
    step_runTask hrunning hstream hidle (hp p (Nat.le_refl p))
  have hgranted : step D asked (.checkoutTask r p true) = some granted := step_checkoutTask piped_pipes ht hfree
  have hfetching : step D granted (.runner r (.reply p .resolve)) = some fetching :=
    step_reply piped_pipes nofun fun _ => rfl
  have hcreating : step D fetching (.runner r (.reply p .resolve)) = some creating :=
    step_reply piped_pipes nofun fun _ => rfl
  have hstarted : step D creating (.runner r (.reply p .resolve)) = some started := step_create piped_pipes
  refine ⟨p, [.runner r (.runTask p t), .checkoutTask r p true, .runner r (.reply p .resolve),
    .runner r (.reply p .resolve), .runner r (.reply p .resolve)], started, ?_, rfl, ?_, rfl, ?_⟩
  · simp only [Lts.exec, hasked, hgranted, hfetching, hcreating, hstarted, Option.bind_some]
  · simp [holds, record, setRunner, started, creating, fetching, granted, piped, grant]
  · simp only [List.forall_mem_cons, event, Option.some.injEq, Prod.mk.injEq]
    simp +contextual [eq_comm]

/-- Whatever has happened to the runner that holds a task, any other runner can come to start it, from
whichever scan of a poller of the task's domain that is more than `leaseAdjust` later. -/
theorem orphaned_task_started (D : Deployment) (acts : List Action) (w : World)
    (hrun : Lts.exec (step D) (start D) acts = some w) (doc : Document) (hdoc : doc ∈ D.documents) (k : PollerId)
    (hdomain : doc.domain = (D.poller k).domain) (r : RunnerId) (hrunning : (w.runner r).running = true)
    (hstream : (w.runner r).runTaskStream = .active) (hidle : doc.taskId ∉ (w.runner r).activeTasks)
    (wait : Nat) (hwait : (D.poller k).leaseAdjust < wait) :
    ∃ p more new w', Lts.exec (step D) w (.tick wait :: more) = some w' ∧
      w'.log = .started r doc.taskId p :: .granted r doc.taskId p :: (new ++ w.log) ∧
      w'.holds r doc.taskId = true ∧ w'.now = w.now + wait ∧
      ∀ a ∈ more, ∀ v q e, event D v a = some (q, e) → q = r := by
  have hb := bounded_of_exec hrun
  obtain ⟨back, new, v, hback, hnew, hfree, hrunner, hnow, hquiet⟩ := exists_given_back hb hdoc hdomain hwait
  have ht : doc.taskId ∈ D.documents.map Document.taskId := List.mem_map_of_mem hdoc
  rw [← hrunner] at hrunning hstream hidle
  obtain ⟨p, run, w', hstarted, hlog, hholds, hsame, honly⟩ :=
    exists_started (hrunner ▸ hb.tasks r) ht hfree hrunning hstream hidle
  refine ⟨p, back ++ run, new, w', ?_, hnew ▸ hlog, hholds, hsame.trans hnow, fun a ha u q e he => ?_⟩
  · rw [← List.cons_append, Lts.exec_append, hback, Option.bind_some, hstarted]
  · rcases List.mem_append.mp ha with hmem | hmem
    · simp [hquiet a hmem u] at he
    · exact honly a hmem u q e he

/-- The runner that has started task 7 is not heard of again. -/
def abandonedRun : List Action :=
  [.runner 0 (.runTask 1 7), .checkoutTask 0 1 true, .runner 0 (.reply 1 .resolve),
    .runner 0 (.reply 1 .resolve), .runner 0 (.reply 1 .resolve)]

theorem orphaned_task_started_pair :
    ∃ w p more new w', Lts.exec (step .pair) (start .pair) abandonedRun = some w ∧
    w.holds 0 7 = true ∧ Lts.exec (step .pair) w (.tick 40 :: more) = some w' ∧
    w'.log = .started 1 7 p :: .granted 1 7 p :: (new ++ w.log) ∧ w'.holds 1 7 = true := by
  obtain ⟨w, hw, hown, hrunning, hstream, hidle⟩ :
      ∃ w, Lts.exec (step .pair) (start .pair) abandonedRun = some w ∧
      w.holds 0 7 = true ∧ (w.runner 1).running = true ∧ (w.runner 1).runTaskStream = .active ∧
      (w.runner 1).activeTasks = ∅ := ⟨_, rfl, rfl, rfl, rfl, rfl⟩
  obtain ⟨p, more, new, w', hrun, hlog, hholds, -⟩ := orphaned_task_started .pair abandonedRun w hw ⟨5, 7, 0⟩
    (by simp [Deployment.pair]) 0 rfl 1 hrunning hstream (by simp [hidle]) 40 (by decide)
  exact ⟨w, p, more, new, w', hw, hown, hrun, hlog, hholds⟩

end World

end OnTaskGraph
