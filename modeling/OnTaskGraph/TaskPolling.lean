import OnTaskGraph.TaskScheduling

/-! What `mergeLossy` drops is not lost: as long as a task is ready, the poller of evaluated
tasks leads to its message, `handleScheduleTaskEvent` many tasks with each tick. -/

namespace OnTaskGraph

/-- A tick of the poller, an answer that is no error, or a checkout. -/
def ScheduleAction.smooth : ScheduleAction → Prop
  | .evaluateGraph graphId => graphId = none
  | .found _ throws => ∀ t, throws t = false
  | .executeFind _ | .taskById _ | .published _ | .checkout _ => True
  | .findFails .. | .scheduleFails .. | .write _ | .stop => False

def ScheduleAction.ticks : ScheduleAction → Bool
  | .evaluateGraph _ => true
  | _ => false

/-- An answer to a call in flight. -/
def ScheduleAction.answers (a : ScheduleAction) : Prop :=
  a.smooth ∧ a.ticks = false ∧ ∀ t, a ≠ .checkout t

def ticks (actions : List ScheduleAction) : Nat := actions.countP ScheduleAction.ticks

namespace TaskScheduling

def idle (s : TaskScheduling) : Prop := s.finding = [] ∧ s.scheduling = []

/-- How many answers a call may still lead to, with `n` ready tasks. -/
def findingLeft (n : Nat) : List Finding → Nat
  | [] => 0
  | .called _ :: rest => 2 * n + 2 + findingLeft n rest
  | .executed tasks :: rest => 2 * tasks.length + 1 + findingLeft n rest

def schedulingLeft : List Scheduling → Nat
  | [] => 0
  | .getTaskById _ :: rest => 2 + schedulingLeft rest
  | .publishRunTask _ :: rest => 1 + schedulingLeft rest

def left (s : TaskScheduling) : Nat := findingLeft s.ready.length s.finding + schedulingLeft s.scheduling

/-- A running scheduler, in which the tasks `T` have been published since a time with `base`
messages for each task, or will be. -/
structure Going (max : Int) (ready T : List ReadyTask) (base : ReadyTask → Nat) (s : TaskScheduling) : Prop where
  inv : s.Inv max []
  running : s.running = true
  source : s.source = .active
  ready : s.ready = ready
  slots : 0 < s.findReadyTasks.max
  grown : ∀ t, base t ≤ (published s.log).count t
  coming : ∀ t ∈ T, base t < (published s.log).count t ∨ .getTaskById t ∈ s.scheduling

@[simp] theorem schedulingLeft_append (xs ys : List Scheduling) :
    schedulingLeft (xs ++ ys) = schedulingLeft xs + schedulingLeft ys := by
  induction xs with
  | nil => simp [schedulingLeft]
  | cons x xs ih => cases x <;> simp only [List.cons_append, schedulingLeft, ih] <;> omega

section Found

variable {s : TaskScheduling} {f : ReadyTask → Bool}

/-- What `schedule` leaves as it is. -/
structure SameCalls (s t : TaskScheduling) : Prop where
  ready : t.ready = s.ready
  running : t.running = s.running
  source : t.source = s.source
  finding : t.finding = s.finding
  looks : t.findReadyTasks = s.findReadyTasks
  max : t.handleScheduleTaskEvent.max = s.handleScheduleTaskEvent.max

theorem sameCalls_schedule (t : ReadyTask) : SameCalls s (s.schedule f t) := by
  unfold schedule
  split
  · split <;> exact ⟨rfl, rfl, rfl, rfl, rfl, rfl⟩
  · exact ⟨rfl, rfl, rfl, rfl, rfl, rfl⟩

theorem sameCalls_scheduleAll (tasks : List ReadyTask) : SameCalls s (tasks.foldl (schedule f) s) := by
  induction tasks generalizing s with
  | nil => exact ⟨rfl, rfl, rfl, rfl, rfl, rfl⟩
  | cons t tasks ih =>
    have hhead := sameCalls_schedule (s := s) (f := f) t
    have htail := ih (s := s.schedule f t)
    exact ⟨htail.ready.trans hhead.ready, htail.running.trans hhead.running, htail.source.trans hhead.source,
      htail.finding.trans hhead.finding, htail.looks.trans hhead.looks, htail.max.trans hhead.max⟩

/-- Of the tasks that are found, those are let in for which there are slots left. -/
theorem scheduleAll_scheduling (hthrows : ∀ t, f t = false) (tasks : List ReadyTask)
    (hcount : s.handleScheduleTaskEvent.count = s.scheduling.length) :
    (tasks.foldl (schedule f) s).scheduling = s.scheduling ++
      (tasks.take (s.handleScheduleTaskEvent.max.toNat - s.scheduling.length)).map .getTaskById := by
  induction tasks generalizing s with
  | nil => simp
  | cons t tasks ih =>
    rw [List.foldl_cons]
    by_cases hfree : s.handleScheduleTaskEvent.free = true
    · have hlt : s.handleScheduleTaskEvent.count < s.handleScheduleTaskEvent.max := by
        simpa [ConcurrentCounter.free] using hfree
      have hslots : s.handleScheduleTaskEvent.max.toNat - s.scheduling.length =
          s.handleScheduleTaskEvent.max.toNat - (s.scheduling.length + 1) + 1 := by omega
      have hin : s.schedule f t = { s with
          handleScheduleTaskEvent := s.handleScheduleTaskEvent.acquire
          scheduling := s.scheduling ++ [.getTaskById t]
          log := .getTaskById t :: s.log } := by
        simp [schedule, hfree, hthrows]
      rw [ih, hin, hslots]
      · simp [ConcurrentCounter.acquire]
      · rw [hin]
        simp [ConcurrentCounter.acquire, hcount]
    · have hslots : s.handleScheduleTaskEvent.max.toNat - s.scheduling.length = 0 := by
        simp only [ConcurrentCounter.free, decide_eq_true_eq] at hfree
        omega
      have hout : s.schedule f t = s.note (.drop t s.scheduling.length) := by simp [schedule, hfree]
      rw [ih, hout]
      · simp [note, hslots]
      · rw [hout]
        exact hcount

theorem scheduleAll_published (tasks : List ReadyTask) :
    published (tasks.foldl (schedule f) s).log = published s.log := by
  induction tasks generalizing s with
  | nil => rfl
  | cons t tasks ih =>
    rw [List.foldl_cons, ih]
    unfold schedule
    split
    · split <;> exact published_cons rfl
    · exact published_cons rfl

end Found

section Settling

variable {max : Int} {ready T : List ReadyTask} {base : ReadyTask → Nat} {s : TaskScheduling}

theorem schedulingLeft_map (tasks : List ReadyTask) :
    schedulingLeft (tasks.map .getTaskById) = 2 * tasks.length := by
  induction tasks with
  | nil => rfl
  | cons t tasks ih =>
    simp only [List.map_cons, schedulingLeft, ih, List.length_cons]
    omega

theorem Going.mono (h : s.Going max ready T base) {U : List ReadyTask} (hsub : U ⊆ T) :
    s.Going max ready U base :=
  { h with coming := fun t ht => h.coming t (hsub ht) }

theorem Going.executeFind (h : s.Going max ready T base) {graphId : Option GraphId} {rest : List Finding}
    (hfinding : s.finding = .called graphId :: rest) :
    ∃ t, s.step (.executeFind 0) = some t ∧ t.Going max ready T base ∧ t.left < s.left := by
  have hi : s.finding[0]? = some (.called graphId) := by rw [hfinding]; rfl
  have hstep : s.step (.executeFind 0) = some { s with
      finding := s.finding.set 0 (.executed (s.ready.filter (inGraph graphId)))
      log := .found graphId (s.ready.filter (inGraph graphId)) :: s.log } := by
    simp only [step, hi]
  refine ⟨_, hstep, ⟨step_inv hstep h.inv, h.running, h.source, h.ready, h.slots, ?_, ?_⟩, ?_⟩
  · intro t
    rw [published_cons rfl]
    exact h.grown t
  · intro t ht
    rw [published_cons rfl]
    exact h.coming t ht
  · have hle := List.length_filter_le (inGraph graphId) s.ready
    simp only [left, hfinding, List.set_cons_zero, findingLeft]
    omega

/-- The tasks that have been found are let in as far as there are slots. -/
theorem Going.found (h : s.Going max ready T base) {tasks : List ReadyTask} {rest : List Finding}
    (hfinding : s.finding = .executed tasks :: rest) :
    ∃ t, s.step (.found 0 fun _ => false) = some t ∧ t.finding = rest ∧
      t.Going max ready (T ++ tasks.take (max.toNat - s.scheduling.length)) base ∧ t.left < s.left := by
  have hi : s.finding[0]? = some (.executed tasks) := by rw [hfinding]; rfl
  have hstep : s.step (.found 0 fun _ => false) = some ((tasks.foldl (schedule fun _ => false) s).endFind 0) := by
    simp only [step, hi]
  have hcount : s.handleScheduleTaskEvent.count = s.scheduling.length :=
    (h.inv.counts (by simp [h.source])).2
  have hsame := sameCalls_scheduleAll (s := s) (f := fun _ => false) tasks
  have hscheduling := scheduleAll_scheduling (s := s) (f := fun _ => false) (fun _ => rfl) tasks hcount
  rw [h.inv.slots] at hscheduling
  refine ⟨_, hstep, ?_, ⟨step_inv hstep h.inv, hsame.running.trans h.running, hsame.source.trans h.source,
    hsame.ready.trans h.ready, ?_, ?_, ?_⟩, ?_⟩
  · simp only [endFind, hsame.finding, hfinding, List.eraseIdx_cons_zero]
  · simp only [endFind, ConcurrentCounter.release, hsame.looks]
    exact h.slots
  · intro t
    simp only [endFind, scheduleAll_published]
    exact h.grown t
  · intro t ht
    simp only [endFind, scheduleAll_published, hscheduling]
    rcases List.mem_append.mp ht with ht | ht
    · exact (h.coming t ht).imp_right (List.mem_append_left _)
    · exact .inr (List.mem_append_right _ (List.mem_map_of_mem ht))
  · have hle := List.length_take_le' (max.toNat - s.scheduling.length) tasks
    simp only [left, endFind, hsame.ready, hsame.finding, hfinding, List.eraseIdx_cons_zero, hscheduling,
      schedulingLeft_append, schedulingLeft_map, findingLeft]
    omega

theorem Going.taskById (h : s.Going max ready T base) {r : ReadyTask} {rest : List Scheduling}
    (hscheduling : s.scheduling = .getTaskById r :: rest) :
    ∃ t, s.step (.taskById 0) = some t ∧ t.Going max ready T base ∧ t.left < s.left := by
  have hi : s.scheduling[0]? = some (.getTaskById r) := by rw [hscheduling]; rfl
  have hstep : s.step (.taskById 0) = some { s with
      scheduling := s.scheduling.set 0 (.publishRunTask r), log := .publishRunTask r :: s.log } := by
    simp only [step, hi]
  have hpub : OnTaskGraph.published (.publishRunTask r :: s.log) = r :: OnTaskGraph.published s.log := rfl
  refine ⟨_, hstep, ⟨step_inv hstep h.inv, h.running, h.source, h.ready, h.slots, ?_, ?_⟩, ?_⟩
  · intro t
    rw [hpub]
    exact Nat.le_trans (h.grown t) List.count_le_count_cons
  · intro t ht
    rw [hpub]
    rcases h.coming t ht with hlt | hmem
    · exact .inl (Nat.lt_of_lt_of_le hlt List.count_le_count_cons)
    · rw [hscheduling] at hmem
      rcases List.mem_cons.mp hmem with heq | hmem
      · cases heq
        rw [List.count_cons_self]
        exact .inl (Nat.lt_succ_of_le (h.grown r))
      · exact .inr (by simp [hscheduling, hmem])
  · simp only [left, hscheduling, List.set_cons_zero, schedulingLeft]
    omega

theorem Going.published (h : s.Going max ready T base) {r : ReadyTask} {rest : List Scheduling}
    (hscheduling : s.scheduling = .publishRunTask r :: rest) :
    ∃ t, s.step (.published 0) = some t ∧ t.Going max ready T base ∧ t.left < s.left := by
  have hi : s.scheduling[0]? = some (.publishRunTask r) := by rw [hscheduling]; rfl
  have hstep : s.step (.published 0) = some ((s.endSchedule 0).note (.scheduled r)) := by simp only [step, hi]
  refine ⟨_, hstep, ⟨step_inv hstep h.inv, h.running, h.source, h.ready, h.slots, ?_, ?_⟩, ?_⟩
  · intro t
    simp only [note, endSchedule]
    rw [published_cons rfl]
    exact h.grown t
  · intro t ht
    simp only [note, endSchedule]
    rw [published_cons rfl]
    rcases h.coming t ht with hlt | hmem
    · exact .inl hlt
    · rw [hscheduling] at hmem
      rcases List.mem_cons.mp hmem with heq | hmem
      · cases heq
      · exact .inr (by simpa [hscheduling] using hmem)
  · simp only [left, note, endSchedule, hscheduling, List.eraseIdx_cons_zero, schedulingLeft]
    omega

/-- As long as something is in flight, an answer brings it on. -/
theorem Going.step (h : s.Going max ready T base) (hbusy : ¬ s.idle) :
    ∃ a t, a.answers ∧ s.step a = some t ∧ t.Going max ready T base ∧ t.left < s.left := by
  cases hfinding : s.finding with
  | cons f rest =>
    cases f with
    | called graphId =>
      obtain ⟨t, ht⟩ := h.executeFind hfinding
      exact ⟨.executeFind 0, t, ⟨trivial, rfl, nofun⟩, ht⟩
    | executed tasks =>
      obtain ⟨t, hstep, -, ht, hlt⟩ := h.found hfinding
      exact ⟨.found 0 fun _ => false, t, ⟨fun _ => rfl, rfl, nofun⟩, hstep, ht.mono (List.subset_append_left _ _),
        hlt⟩
  | nil =>
    cases hscheduling : s.scheduling with
    | nil => exact absurd ⟨hfinding, hscheduling⟩ hbusy
    | cons c rest =>
      cases c with
      | getTaskById r =>
        obtain ⟨t, ht⟩ := h.taskById hscheduling
        exact ⟨.taskById 0, t, ⟨trivial, rfl, nofun⟩, ht⟩
      | publishRunTask r =>
        obtain ⟨t, ht⟩ := h.published hscheduling
        exact ⟨.published 0, t, ⟨trivial, rfl, nofun⟩, ht⟩

/-- Answers bring everything in flight to its end. -/
theorem Going.settle (h : s.Going max ready T base) :
    ∃ more t, (∀ a ∈ more, a.answers) ∧ Lts.exec TaskScheduling.step s more = some t ∧
      t.Going max ready T base ∧ t.idle :=
  Lts.exists_exec_of_labels ScheduleAction.answers (Going max ready T base) left idle (fun _ => Going.step) s h

theorem Going.evaluateGraph (h : s.Going max ready T base) (hidle : s.idle) :
    ∃ t, s.step (.evaluateGraph none) = some t ∧ t.finding = [.called none] ∧ t.scheduling = [] ∧
      t.Going max ready T base := by
  have hcount : s.findReadyTasks.count = 0 := by
    rw [(h.inv.counts (by simp [h.source])).1, hidle.1]
    rfl
  have hfree : s.findReadyTasks.free = true := by
    have hslots := h.slots
    simp only [ConcurrentCounter.free, decide_eq_true_eq]
    omega
  have hstep : s.step (.evaluateGraph none) = some { s with
      findReadyTasks := s.findReadyTasks.acquire
      finding := [.called none]
      log := .findReadyTasks none :: s.log } := by
    simp [TaskScheduling.step, TaskScheduling.evaluateGraph, h.source, h.running, hfree, hidle.1]
  refine ⟨_, hstep, rfl, hidle.2, ⟨step_inv hstep h.inv, h.running, h.source, h.ready, h.slots, ?_, ?_⟩⟩
  · intro t
    rw [published_cons rfl]
    exact h.grown t
  · intro t ht
    rw [published_cons rfl]
    exact h.coming t ht

/-- One tick of the poller leads to messages for the first tasks that are ready. -/
theorem Going.sweep (h : s.Going max ready T base) (hidle : s.idle) :
    ∃ more t, (∀ a ∈ more, a.smooth) ∧ ticks more = 1 ∧ Lts.exec TaskScheduling.step s more = some t ∧
      t.Going max ready (T ++ ready.take max.toNat) base ∧ t.idle := by
  obtain ⟨s₁, hstep₁, hfinding₁, hscheduling₁, h₁⟩ := h.evaluateGraph hidle
  obtain ⟨s₂, hstep₂, h₂, -⟩ := h₁.executeFind hfinding₁
  have hall : s₁.ready.filter (inGraph none) = ready := by
    rw [h₁.ready]
    exact List.filter_eq_self.mpr fun _ _ => rfl
  have hs₂ : s₂.finding = [.executed ready] ∧ s₂.scheduling = [] := by
    simp only [TaskScheduling.step, hfinding₁, List.getElem?_cons_zero, Option.some.injEq] at hstep₂
    rw [← hstep₂]
    exact ⟨by simp [hall], hscheduling₁⟩
  obtain ⟨s₃, hstep₃, -, h₃, -⟩ := h₂.found hs₂.1
  rw [hs₂.2, List.length_nil, Nat.sub_zero] at h₃
  obtain ⟨more, t, hanswers, hexec, ht, hdone⟩ := h₃.settle
  refine ⟨.evaluateGraph none :: .executeFind 0 :: (.found 0 fun _ => false) :: more, t, ?_, ?_, ?_, ht, hdone⟩
  · intro a ha
    simp only [List.mem_cons] at ha
    rcases ha with rfl | rfl | rfl | ha
    · rfl
    · trivial
    · exact fun _ => rfl
    · exact (hanswers a ha).1
  · have hnone : more.countP ScheduleAction.ticks = 0 := by
      rw [List.countP_eq_zero]
      intro a ha
      simp [(hanswers a ha).2.1]
    simp only [ticks, List.countP_cons, hnone]
    rfl
  · simp [Lts.exec, hstep₁, hstep₂, hstep₃, hexec]

/-- The task runners take tasks from the front. -/
theorem Going.checkouts {first : List ReadyTask} (h : s.Going max (first ++ ready) T base) (hidle : s.idle) :
    ∃ t, Lts.exec TaskScheduling.step s (first.map .checkout) = some t ∧ t.Going max ready T base ∧ t.idle := by
  induction first generalizing s with
  | nil => exact ⟨s, rfl, h, hidle⟩
  | cons r first ih =>
    have hstep : s.step (.checkout r) = some { s with
        ready := s.ready.erase r, log := .write (s.ready.erase r) :: s.log } := rfl
    have hready : s.ready.erase r = first ++ ready := by simp [h.ready]
    have hnext : Going max (first ++ ready) T base { s with
        ready := s.ready.erase r, log := .write (s.ready.erase r) :: s.log } :=
      ⟨step_inv hstep h.inv, h.running, h.source, hready, h.slots, h.grown, h.coming⟩
    obtain ⟨t, hexec, ht⟩ := ih hnext hidle
    exact ⟨t, by simpa [Lts.exec, hstep] using hexec, ht⟩

/-- The poller gets to a ready task by going through those before it. -/
theorem Going.poll {T : List ReadyTask} {s : TaskScheduling} (hmax : 0 < max) {before after : List ReadyTask}
    {r : ReadyTask}
    (h : s.Going max (before ++ r :: after) T base) (hidle : s.idle) :
    ∃ more t, (∀ a ∈ more, a.smooth) ∧ ticks more = before.length / max.toNat + 1 ∧
      Lts.exec TaskScheduling.step s more = some t ∧
      ∀ q ∈ T ++ before ++ [r], base q < (OnTaskGraph.published t.log).count q := by
  obtain ⟨more, u, hsmooth, hticks, hexec, hu, hdone⟩ := h.sweep hidle
  have hsent :
      ∀ q ∈ T ++ (before ++ r :: after).take max.toNat, base q < (OnTaskGraph.published u.log).count q := by
    intro q hq
    refine (hu.coming q hq).resolve_right ?_
    rw [hdone.2]
    exact List.not_mem_nil
  by_cases hlt : before.length < max.toNat
  · refine ⟨more, u, hsmooth, ?_, hexec, fun q hq => hsent q ?_⟩
    · rw [hticks, Nat.div_eq_of_lt hlt]
    · have hfirst : (before ++ r :: after).take (before.length + 1) = before ++ [r] := by
        simp [List.take_append, List.take_of_length_le (Nat.le_succ before.length)]
      have hsub := List.take_subset_take_left (before ++ r :: after) hlt
      rw [hfirst] at hsub
      rw [List.append_assoc] at hq
      rcases List.mem_append.mp hq with hq | hq
      · exact List.mem_append_left _ hq
      · exact List.mem_append_right _ (hsub hq)
  · have hle : max.toNat ≤ before.length := by omega
    have hfirst : (before ++ r :: after).take max.toNat = before.take max.toNat :=
      List.take_append_of_le_length hle
    have hsplit : before ++ r :: after = before.take max.toNat ++ (before.drop max.toNat ++ r :: after) := by
      rw [← List.append_assoc, List.take_append_drop]
    rw [hfirst] at hu
    rw [hsplit] at hu
    obtain ⟨v, hexec₁, hv, hvdone⟩ := hu.checkouts hdone
    obtain ⟨more₁, t, hsmooth₁, hticks₁, hexec₂, ht⟩ := Going.poll hmax hv hvdone
    have hlen : (before.drop max.toNat).length = before.length - max.toNat := List.length_drop
    refine ⟨more ++ (before.take max.toNat).map .checkout ++ more₁, t, ?_, ?_, ?_, fun q hq => ht q ?_⟩
    · intro a ha
      simp only [List.mem_append, List.mem_map] at ha
      rcases ha with (ha | ⟨q, -, rfl⟩) | ha
      · exact hsmooth a ha
      · trivial
      · exact hsmooth₁ a ha
    · have hnone : ((before.take max.toNat).map ScheduleAction.checkout).countP ScheduleAction.ticks = 0 := by
        rw [List.countP_eq_zero]
        intro a ha
        obtain ⟨q, -, rfl⟩ := List.mem_map.mp ha
        exact Bool.false_ne_true
      have hdiv : before.length / max.toNat = (before.length - max.toNat) / max.toNat + 1 :=
        Nat.div_eq_sub_div (by omega) hle
      rw [ticks] at hticks hticks₁
      rw [ticks, List.countP_append, List.countP_append, hticks, hticks₁, hnone, hlen, hdiv]
      omega
    · rw [Lts.exec_append, Lts.exec_append, hexec, Option.bind_some, hexec₁]
      exact hexec₂
    · have hparts := List.take_append_drop max.toNat before
      rw [← hparts] at hq
      simpa [List.append_assoc] using hq
termination_by before.length
decreasing_by
  rw [List.length_drop]
  omega

end Settling

end TaskScheduling

theorem TaskScheduling.step_looks {s t : TaskScheduling} {a : ScheduleAction} (h : s.step a = some t) :
    t.findReadyTasks.max = s.findReadyTasks.max := by
  cases a with
  | evaluateGraph graphId =>
    obtain rfl := Option.some.inj h
    unfold evaluateGraph
    split
    · rfl
    · split
      · rfl
      · split <;> rfl
  | found i throws =>
    simp only [step] at h
    split at h
    · obtain rfl := Option.some.inj h
      simp only [endFind, ConcurrentCounter.release, (sameCalls_scheduleAll _).looks]
    · cases h
  | findFails i reason | scheduleFails i reason =>
    simp only [step] at h
    split at h
    · cases h
    · cases reason <;> obtain rfl := Option.some.inj h <;> rfl
  | executeFind i | taskById i | published i =>
    simp only [step] at h
    split at h
    · obtain rfl := Option.some.inj h
      rfl
    · cases h
  | checkout | write | stop =>
    obtain rfl := Option.some.inj h
    rfl

/-- However many calls are in flight and whatever has been dropped, answers, checkouts and
ticks of the poller lead to a message for each ready task and for those before it; one tick
is enough for as many tasks as may be scheduled at a time. -/
theorem ready_task_published (findReadyTasks handleScheduleTaskEvent : Int) (ready : List ReadyTask)
    (actions : List ScheduleAction) (s : TaskScheduling) (before after : List ReadyTask) (r : ReadyTask)
    (hfind : 0 < findReadyTasks) (hschedule : 0 < handleScheduleTaskEvent)
    (h : Lts.exec TaskScheduling.step (.start findReadyTasks handleScheduleTaskEvent ready) actions = some s)
    (hrunning : s.running = true) (hsource : s.source = .active) (hready : s.ready = before ++ r :: after) :
    ∃ more t, (∀ a ∈ more, a.smooth) ∧ ticks more = before.length / handleScheduleTaskEvent.toNat + 1 ∧
      Lts.exec TaskScheduling.step s more = some t ∧
      ∀ q ∈ before ++ [r], (published s.log).count q < (published t.log).count q := by
  have hinv := Lts.invariant (TaskScheduling.Inv handleScheduleTaskEvent [])
    (fun _ _ _ hstep => TaskScheduling.step_inv hstep) (.start findReadyTasks ready) h
  have hlooks := Lts.invariant (fun u : TaskScheduling => u.findReadyTasks.max = findReadyTasks)
    (fun _ _ _ hstep hu => (TaskScheduling.step_looks hstep).trans hu) rfl h
  have hgoing : s.Going handleScheduleTaskEvent (before ++ r :: after) [] (published s.log).count :=
    ⟨hinv, hrunning, hsource, hready, by omega, fun _ => Nat.le_refl _, nofun⟩
  obtain ⟨answers, u, hanswers, hexec, hu, hidle⟩ := hgoing.settle
  obtain ⟨more, t, hsmooth, hticks, hmore, hsent⟩ := hu.poll hschedule hidle
  refine ⟨answers ++ more, t, ?_, ?_, ?_, fun q hq => hsent q (by simpa using hq)⟩
  · intro a ha
    rcases List.mem_append.mp ha with ha | ha
    · exact (hanswers a ha).1
    · exact hsmooth a ha
  · have hnone : answers.countP ScheduleAction.ticks = 0 := by
      rw [List.countP_eq_zero]
      intro a ha
      simp [(hanswers a ha).2.1]
    rw [← hticks, ticks, ticks, List.countP_append, hnone, Nat.zero_add]
  · rw [Lts.exec_append, hexec]
    exact hmore

theorem ready_task_published_dropped : ∃ s : TaskScheduling,
    Lts.exec TaskScheduling.step (.start 1 1 [⟨7, 1⟩, ⟨7, 2⟩]) (droppingRun.take 3) = some s ∧
    ∃ more t, (∀ a ∈ more, a.smooth) ∧ ticks more = 2 ∧ Lts.exec TaskScheduling.step s more = some t ∧
      ∀ q ∈ [⟨7, 1⟩, ⟨7, 2⟩], (published s.log).count q < (published t.log).count q :=
  ⟨_, rfl, ready_task_published 1 1 [⟨7, 1⟩, ⟨7, 2⟩] (droppingRun.take 3) _ [⟨7, 1⟩] [] ⟨7, 2⟩
    (by decide) (by decide) rfl rfl rfl rfl⟩

end OnTaskGraph
