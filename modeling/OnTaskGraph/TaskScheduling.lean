import OnTaskGraph.History
import OnTaskGraph.TaskEvaluation
import OnTaskGraph.TaskRunner

/-! The stream of `createTasksToScheduleSubscription`: an event on `evaluateGraphStream`
leads to a call of `store.findReadyTasks`, each task found to a message to the task
runners. Both steps are behind a `mergeLossy`, which drops what comes while too many calls
are in flight. The observables are cold: no call is made for what is dropped. -/

namespace OnTaskGraph

structure ReadyTask where
  graphId : GraphId
  taskId : TaskKey
  deriving DecidableEq

/-- A call of `store.findReadyTasks`; the store has executed it or not. -/
inductive Finding
  | called (graphId : Option GraphId)
  | executed (tasks : List ReadyTask)

/-- What an observable of `handleScheduleTaskEvent` waits for. -/
inductive Scheduling
  | getTaskById (t : ReadyTask)
  | publishRunTask (t : ReadyTask)
  deriving DecidableEq

inductive ScheduleNote
  /-- The store has these tasks to find from now on. -/
  | write (ready : List ReadyTask)
  | findReadyTasks (graphId : Option GraphId)
  | found (graphId : Option GraphId) (tasks : List ReadyTask)
  | getTaskById (t : ReadyTask)
  /-- `mergeLossy` drops a task, with this many schedule events in flight. -/
  | drop (t : ReadyTask) (inFlight : Nat)
  | publishRunTask (t : ReadyTask)
  | scheduled (t : ReadyTask)
  | stop

structure TaskScheduling where
  /-- The tasks of the scheduler's domain that are ready, as the store has them. -/
  ready : List ReadyTask
  running : Bool
  source : Subscription
  findReadyTasks : ConcurrentCounter
  handleScheduleTaskEvent : ConcurrentCounter
  finding : List Finding
  scheduling : List Scheduling
  log : List ScheduleNote

inductive ScheduleAction
  /-- An event on `evaluateGraphStream`: from `handleEvaluatedTask` or `runTaskGraphCallback`
  with a graph, from the poller of evaluated tasks without one. -/
  | evaluateGraph (graphId : Option GraphId)
  | executeFind (i : Nat)
  /-- `throws` are the tasks for which `store.getTaskById` throws. -/
  | found (i : Nat) (throws : ReadyTask → Bool)
  | findFails (i : Nat) (reason : Reason)
  | taskById (i : Nat)
  | published (i : Nat)
  | scheduleFails (i : Nat) (reason : Reason)
  /-- A task runner checks out a task. -/
  | checkout (t : ReadyTask)
  | write (ready : List ReadyTask)
  | stop

namespace ConcurrentCounter

def free (c : ConcurrentCounter) : Bool := c.count < c.max

def acquire (c : ConcurrentCounter) : ConcurrentCounter := { c with count := c.count + 1 }

def release (c : ConcurrentCounter) : ConcurrentCounter := { c with count := c.count - 1 }

end ConcurrentCounter

section Counting

variable {α β : Type*} [DecidableEq β]

theorem count_flatMap_eraseIdx (f : α → List β) {l : List α} {i : Nat} {a : α} (h : l[i]? = some a) (b : β) :
    (l.flatMap f).count b = (f a).count b + ((l.eraseIdx i).flatMap f).count b := by
  obtain ⟨hi, rfl⟩ := List.getElem?_eq_some_iff.mp h
  have hperm := ((List.getElem_cons_eraseIdx_perm hi).flatMap_right f).count_eq b
  rw [← hperm, List.flatMap_cons, List.count_append]

theorem count_flatMap_set (f : α → List β) {l : List α} {i : Nat} {a : α} (h : l[i]? = some a) (c : α) (b : β) :
    ((l.set i c).flatMap f).count b + (f a).count b = (l.flatMap f).count b + (f c).count b := by
  have hi := (List.getElem?_eq_some_iff.mp h).1
  have hperm := ((List.set_perm_cons_eraseIdx hi c).flatMap_right f).count_eq b
  rw [hperm, count_flatMap_eraseIdx f h b, List.flatMap_cons, List.count_append]
  omega

end Counting

def Finding.tasks : Finding → List ReadyTask
  | .called _ => []
  | .executed tasks => tasks

/-- The task that is still to be published. -/
def Scheduling.unpublished : Scheduling → List ReadyTask
  | .getTaskById t => [t]
  | .publishRunTask _ => []

def ScheduleNote.foundTasks : ScheduleNote → List ReadyTask
  | .found _ tasks => tasks
  | _ => []

def ScheduleNote.publishes : ScheduleNote → List ReadyTask
  | .publishRunTask t => [t]
  | _ => []

/-- The tasks that messages have been published for, and the tasks that have been found. -/
def published (log : List ScheduleNote) : List ReadyTask := log.flatMap ScheduleNote.publishes

def foundTasks (log : List ScheduleNote) : List ReadyTask := log.flatMap ScheduleNote.foundTasks

/-- The ready tasks of the store, as the log has them. -/
def stored : List ScheduleNote → List ReadyTask
  | [] => []
  | .write ready :: _ => ready
  | _ :: log => stored log

namespace TaskScheduling

/-- A scheduler that has been started, with what the options say of its concurrency. -/
def start (findReadyTasks handleScheduleTaskEvent : Int) (ready : List ReadyTask) : TaskScheduling where
  ready := ready
  running := true
  source := .active
  findReadyTasks := concurrentCounter findReadyTasks
  handleScheduleTaskEvent := concurrentCounter handleScheduleTaskEvent
  finding := []
  scheduling := []
  log := [.write ready]

def inGraph (graphId : Option GraphId) (t : ReadyTask) : Bool := graphId.all (· = t.graphId)

def note (s : TaskScheduling) (x : ScheduleNote) : TaskScheduling := { s with log := x :: s.log }

/-- `takeWhile`, then `findReadyTasks` if `mergeLossy` lets it in. -/
def evaluateGraph (s : TaskScheduling) (graphId : Option GraphId) : TaskScheduling :=
  if s.source ≠ .active then s
  else if s.running = false then { s with source := .completed }
  else if s.findReadyTasks.free then
    { s with
      findReadyTasks := s.findReadyTasks.acquire
      finding := s.finding ++ [.called graphId]
      log := .findReadyTasks graphId :: s.log }
  else s

/-- An error that reaches the subscriber disposes of everything in flight, and no slot is
given back. -/
def terminate (s : TaskScheduling) : TaskScheduling :=
  { s with source := .failed, finding := [], scheduling := [] }

/-- `handleScheduleTaskEvent` for a task that has been found, if `mergeLossy` lets it in. -/
def schedule (throws : ReadyTask → Bool) (s : TaskScheduling) (t : ReadyTask) : TaskScheduling :=
  if s.handleScheduleTaskEvent.free then
    -- the observable completes at once after the catch, and gives its slot back
    if throws t then s.note (.getTaskById t)
    else
      { s with
        handleScheduleTaskEvent := s.handleScheduleTaskEvent.acquire
        scheduling := s.scheduling ++ [.getTaskById t]
        log := .getTaskById t :: s.log }
  else s.note (.drop t s.scheduling.length)

/-- An observable of `findReadyTasks` is over. -/
def endFind (s : TaskScheduling) (i : Nat) : TaskScheduling :=
  { s with findReadyTasks := s.findReadyTasks.release, finding := s.finding.eraseIdx i }

def endSchedule (s : TaskScheduling) (i : Nat) : TaskScheduling :=
  { s with
    handleScheduleTaskEvent := s.handleScheduleTaskEvent.release
    scheduling := s.scheduling.eraseIdx i }

def step (s : TaskScheduling) : ScheduleAction → Option TaskScheduling
  | .evaluateGraph graphId => some (s.evaluateGraph graphId)
  | .executeFind i =>
    match s.finding[i]? with
    | some (.called graphId) =>
      let tasks := s.ready.filter (inGraph graphId)
      some { s with finding := s.finding.set i (.executed tasks), log := .found graphId tasks :: s.log }
    | _ => none
  | .found i throws =>
    match s.finding[i]? with
    | some (.executed tasks) => some ((tasks.foldl (schedule throws) s).endFind i)
    | _ => none
  | .findFails i reason =>
    match s.finding[i]? with
    | none => none
    | some _ =>
      match reason with
      | .error => some (s.endFind i)
      | .nullish => some s.terminate
  | .taskById i =>
    match s.scheduling[i]? with
    | some (.getTaskById t) =>
      some { s with scheduling := s.scheduling.set i (.publishRunTask t), log := .publishRunTask t :: s.log }
    | _ => none
  | .published i =>
    match s.scheduling[i]? with
    | some (.publishRunTask t) => some ((s.endSchedule i).note (.scheduled t))
    | _ => none
  | .scheduleFails i reason =>
    match s.scheduling[i]? with
    | none => none
    | some _ =>
      match reason with
      | .error => some (s.endSchedule i)
      | .nullish => some s.terminate
  | .checkout t => some { s with ready := s.ready.erase t, log := .write (s.ready.erase t) :: s.log }
  | .write ready => some { s with ready := ready, log := .write ready :: s.log }
  | .stop => some { s.note .stop with running := false }

/-- What a note may rely on among the earlier ones. -/
def Sound (max : Int) : ScheduleNote → List ScheduleNote → Prop
  | .findReadyTasks _, earlier => .stop ∉ earlier
  | .found graphId tasks, earlier =>
    .findReadyTasks graphId ∈ earlier ∧ tasks = (stored earlier).filter (inGraph graphId)
  | .getTaskById t, earlier => t ∈ foundTasks earlier
  | .drop t inFlight, earlier => t ∈ foundTasks earlier ∧ max ≤ inFlight
  | .publishRunTask t, earlier =>
    .getTaskById t ∈ earlier ∧ (published earlier).count t < (foundTasks earlier).count t
  | .scheduled t, earlier => t ∈ published earlier
  | .write _, _ | .stop, _ => True

/-- `rest` are tasks that have been found and that the stream has still to go through. -/
structure Inv (max : Int) (rest : List ReadyTask) (s : TaskScheduling) : Prop where
  chronicle : History.Chronicle (Sound max) s.log
  slots : s.handleScheduleTaskEvent.max = max
  counts : s.source ≠ .failed → s.findReadyTasks.count = s.finding.length ∧
    s.handleScheduleTaskEvent.count = s.scheduling.length
  disposed : s.source = .failed → s.finding = [] ∧ s.scheduling = []
  stored : stored s.log = s.ready
  stopped : .stop ∈ s.log → s.running = false
  called : ∀ graphId, .called graphId ∈ s.finding → .findReadyTasks graphId ∈ s.log
  looked : ∀ t, .getTaskById t ∈ s.scheduling → .getTaskById t ∈ s.log
  sent : ∀ t, .publishRunTask t ∈ s.scheduling → t ∈ published s.log
  conserved : ∀ t, (published s.log).count t + (s.scheduling.flatMap Scheduling.unpublished).count t +
    (s.finding.flatMap Finding.tasks).count t + rest.count t ≤ (foundTasks s.log).count t

section Logs

variable {log : List ScheduleNote} {x : ScheduleNote}

theorem published_cons (h : x.publishes = []) : published (x :: log) = published log := by
  rw [published, List.flatMap_cons, h]
  rfl

theorem foundTasks_cons (h : x.foundTasks = []) : foundTasks (x :: log) = foundTasks log := by
  rw [foundTasks, List.flatMap_cons, h]
  rfl

theorem mem_published_cons {t : ReadyTask} (h : t ∈ published log) : t ∈ published (x :: log) :=
  List.mem_append_right _ h

end Logs

variable {max : Int} {rest : List ReadyTask} {s t : TaskScheduling}

theorem Inv.found_of_mem_rest (h : s.Inv max rest) {r : ReadyTask} (hr : r ∈ rest) : r ∈ foundTasks s.log := by
  have hle := h.conserved r
  have hpos := List.count_pos_iff.mpr hr
  exact List.count_pos_iff.mp (by omega)

theorem Inv.start (findReadyTasks : Int) (ready : List ReadyTask) :
    (start findReadyTasks max ready).Inv max [] where
  chronicle := ⟨trivial, trivial⟩
  slots := rfl
  counts := fun _ => ⟨rfl, rfl⟩
  disposed := nofun
  stored := rfl
  stopped := by simp [TaskScheduling.start]
  called := nofun
  looked := nofun
  sent := nofun
  conserved := fun _ => Nat.le_refl _

/-- A note that says nothing of tasks, and changes nothing of the store. -/
theorem Inv.note (h : s.Inv max rest) {x : ScheduleNote} (hsound : Sound max x s.log)
    (hpublishes : x.publishes = []) (hfound : x.foundTasks = [])
    (hstored : OnTaskGraph.stored (x :: s.log) = s.ready) (hstop : x ≠ .stop) : (s.note x).Inv max rest where
  chronicle := ⟨hsound, h.chronicle⟩
  slots := h.slots
  counts := h.counts
  disposed := h.disposed
  stored := hstored
  stopped := by
    intro hmem
    rcases List.mem_cons.mp hmem with heq | hmem
    · exact absurd heq.symm hstop
    · exact h.stopped hmem
  called := fun graphId hg => List.mem_cons_of_mem _ (h.called graphId hg)
  looked := fun r hr => List.mem_cons_of_mem _ (h.looked r hr)
  sent := fun r hr => mem_published_cons (h.sent r hr)
  conserved := by
    intro r
    rw [TaskScheduling.note, published_cons hpublishes, foundTasks_cons hfound]
    exact h.conserved r

/-- A found task that the stream does not go on with. -/
theorem Inv.skip (h : s.Inv max (r :: rest)) : s.Inv max rest :=
  { h with conserved := fun t => Nat.le_trans (Nat.add_le_add_left (List.count_le_count_cons) _) (h.conserved t) }

theorem Inv.schedule (throws : ReadyTask → Bool) {r : ReadyTask} (hactive : s.source ≠ .failed)
    (h : s.Inv max (r :: rest)) : (s.schedule throws r).Inv max rest := by
  have hfound := h.found_of_mem_rest (List.mem_cons_self)
  unfold TaskScheduling.schedule
  split
  · split
    · exact (h.note (x := .getTaskById r) hfound rfl rfl h.stored nofun).skip
    · have hnote := h.note (x := .getTaskById r) hfound rfl rfl h.stored nofun
      refine ⟨hnote.chronicle, h.slots, fun _ => ?_, fun hf => absurd hf hactive, h.stored, hnote.stopped,
        hnote.called, ?_, ?_, ?_⟩
      · obtain ⟨hfind, hschedule⟩ := h.counts hactive
        refine ⟨hfind, ?_⟩
        simp [ConcurrentCounter.acquire, hschedule]
      · intro q hq
        rcases List.mem_append.mp hq with hq | hq
        · exact hnote.looked q hq
        · cases List.mem_singleton.mp hq
          exact List.mem_cons_self
      · intro q hq
        rcases List.mem_append.mp hq with hq | hq
        · exact hnote.sent q hq
        · cases List.mem_singleton.mp hq
      · intro q
        have hle := hnote.conserved q
        simp only [TaskScheduling.note] at hle
        simp only [List.flatMap_append, List.count_append, List.flatMap_cons, List.flatMap_nil,
          Scheduling.unpublished, List.append_nil] at hle ⊢
        rw [List.count_cons] at hle
        rw [List.count_singleton]
        omega
  · rename_i hfull
    have hdrop : Sound max (.drop r s.scheduling.length) s.log := by
      refine ⟨hfound, ?_⟩
      have hcount := (h.counts hactive).2
      have hslots := h.slots
      simp only [ConcurrentCounter.free, decide_eq_true_eq] at hfull
      omega
    exact (h.note (x := .drop r s.scheduling.length) hdrop rfl rfl h.stored nofun).skip

theorem schedule_source (throws : ReadyTask → Bool) (r : ReadyTask) :
    (s.schedule throws r).source = s.source := by
  unfold schedule
  split
  · split <;> rfl
  · rfl

theorem Inv.scheduleAll (throws : ReadyTask → Bool) {tasks : List ReadyTask} (hactive : s.source ≠ .failed)
    (h : s.Inv max tasks) : (tasks.foldl (TaskScheduling.schedule throws) s).Inv max [] := by
  induction tasks generalizing s with
  | nil => exact h
  | cons r tasks ih =>
    rw [List.foldl_cons]
    apply ih
    · rwa [schedule_source]
    · exact h.schedule throws hactive

/-- What becomes of the tasks does not depend on the calls of `findReadyTasks`. -/
theorem foldl_endFind (throws : ReadyTask → Bool) (tasks : List ReadyTask) (s : TaskScheduling) (i : Nat) :
    (tasks.foldl (schedule throws) s).endFind i = tasks.foldl (schedule throws) (s.endFind i) := by
  induction tasks generalizing s with
  | nil => rfl
  | cons r tasks ih =>
    have hcomm : (s.schedule throws r).endFind i = (s.endFind i).schedule throws r := by
      by_cases hfree : s.handleScheduleTaskEvent.free = true
      · cases hthrows : throws r <;> simp [schedule, endFind, note, hfree, hthrows]
      · simp [schedule, endFind, note, hfree]
    rw [List.foldl_cons, List.foldl_cons, ih, hcomm]

theorem Inv.endFind (h : s.Inv max []) (hactive : s.source ≠ .failed) {i : Nat} {f : Finding}
    (hi : s.finding[i]? = some f) :
    (s.endFind i).Inv max f.tasks where
  chronicle := h.chronicle
  slots := h.slots
  counts := by
    intro _
    obtain ⟨hfind, hschedule⟩ := h.counts hactive
    refine ⟨?_, hschedule⟩
    have hlt := (List.getElem?_eq_some_iff.mp hi).1
    have hlen := List.length_eraseIdx_of_lt hlt
    simp only [TaskScheduling.endFind, ConcurrentCounter.release]
    omega
  disposed := fun hf => absurd hf hactive
  stored := h.stored
  stopped := h.stopped
  called := fun graphId hg => h.called graphId (List.mem_of_mem_eraseIdx hg)
  looked := h.looked
  sent := h.sent
  conserved := by
    intro r
    have hle := h.conserved r
    have hcount := count_flatMap_eraseIdx Finding.tasks hi r
    simp only [TaskScheduling.endFind]
    rw [List.count_nil] at hle
    omega

theorem Inv.terminate (h : s.Inv max []) : s.terminate.Inv max [] where
  chronicle := h.chronicle
  slots := h.slots
  counts := fun hne => absurd rfl hne
  disposed := fun _ => ⟨rfl, rfl⟩
  stored := h.stored
  stopped := h.stopped
  called := nofun
  looked := nofun
  sent := nofun
  conserved := by
    intro r
    have hle := h.conserved r
    simp only [TaskScheduling.terminate, List.flatMap_nil, List.count_nil] at hle ⊢
    omega

theorem Inv.endSchedule (h : s.Inv max []) (hactive : s.source ≠ .failed) {i : Nat} {c : Scheduling}
    (hi : s.scheduling[i]? = some c) : (s.endSchedule i).Inv max [] where
  chronicle := h.chronicle
  slots := h.slots
  counts := by
    intro _
    obtain ⟨hfind, hschedule⟩ := h.counts hactive
    refine ⟨hfind, ?_⟩
    have hlt := (List.getElem?_eq_some_iff.mp hi).1
    have hlen := List.length_eraseIdx_of_lt hlt
    simp only [TaskScheduling.endSchedule, ConcurrentCounter.release]
    omega
  disposed := fun hf => absurd hf hactive
  stored := h.stored
  stopped := h.stopped
  called := h.called
  looked := fun r hr => h.looked r (List.mem_of_mem_eraseIdx hr)
  sent := fun r hr => h.sent r (List.mem_of_mem_eraseIdx hr)
  conserved := by
    intro r
    have hle := h.conserved r
    have hcount := count_flatMap_eraseIdx Scheduling.unpublished hi r
    simp only [TaskScheduling.endSchedule]
    omega

theorem Inv.evaluateGraph (h : s.Inv max []) (graphId : Option GraphId) :
    (s.evaluateGraph graphId).Inv max [] := by
  unfold TaskScheduling.evaluateGraph
  split
  · exact h
  · rename_i hsource
    rw [not_not] at hsource
    split
    · refine ⟨h.chronicle, h.slots, fun _ => ?_, nofun, h.stored, h.stopped, h.called, h.looked, h.sent,
        h.conserved⟩
      exact h.counts (by simp [hsource])
    · rename_i hrunning
      split
      · have hstop : .stop ∉ s.log := fun hmem => hrunning (h.stopped hmem)
        have hnote := h.note (x := .findReadyTasks graphId) hstop rfl rfl h.stored nofun
        refine ⟨hnote.chronicle, h.slots, fun _ => ?_, fun hf => ?_, h.stored, hnote.stopped, ?_, hnote.looked,
          hnote.sent, ?_⟩
        · obtain ⟨hfind, hschedule⟩ := h.counts (by simp [hsource])
          refine ⟨?_, hschedule⟩
          simp [ConcurrentCounter.acquire, hfind]
        · rw [hsource] at hf
          cases hf
        · intro g hg
          rcases List.mem_append.mp hg with hg | hg
          · exact hnote.called g hg
          · cases List.mem_singleton.mp hg
            exact List.mem_cons_self
        · intro r
          have hle := hnote.conserved r
          simpa [TaskScheduling.note, Finding.tasks, List.flatMap_append] using hle
      · exact h

theorem Inv.executeFind (h : s.Inv max []) (hactive : s.source ≠ .failed) {i : Nat} {graphId : Option GraphId}
    (hi : s.finding[i]? = some (.called graphId)) {tasks : List ReadyTask}
    (htasks : tasks = s.ready.filter (inGraph graphId)) :
    Inv max [] { s with finding := s.finding.set i (.executed tasks), log := .found graphId tasks :: s.log } where
  chronicle := by
    refine ⟨⟨h.called graphId (List.mem_of_getElem? hi), ?_⟩, h.chronicle⟩
    rw [h.stored, htasks]
  slots := h.slots
  counts := by
    intro _
    have hcounts := h.counts hactive
    simpa using hcounts
  disposed := fun hf => absurd hf hactive
  stored := h.stored
  stopped := by
    intro hmem
    exact h.stopped (by simpa using hmem)
  called := by
    intro g hg
    apply List.mem_cons_of_mem
    rcases List.mem_or_eq_of_mem_set hg with hg | heq
    · exact h.called g hg
    · cases heq
  looked := fun r hr => List.mem_cons_of_mem _ (h.looked r hr)
  sent := fun r hr => mem_published_cons (h.sent r hr)
  conserved := by
    intro r
    have hle := h.conserved r
    have hcount := count_flatMap_set Finding.tasks hi (.executed tasks) r
    have hfound : (foundTasks (.found graphId tasks :: s.log)).count r =
        tasks.count r + (foundTasks s.log).count r := by
      rw [foundTasks, List.flatMap_cons, List.count_append]
      rfl
    have hpub : (published (.found graphId tasks :: s.log)) = published s.log := published_cons rfl
    simp only [Finding.tasks, List.count_nil] at hcount hle ⊢
    rw [hfound, hpub]
    omega

theorem Inv.taskById (h : s.Inv max []) (hactive : s.source ≠ .failed) {i : Nat} {r : ReadyTask}
    (hi : s.scheduling[i]? = some (.getTaskById r)) :
    Inv max []
      { s with scheduling := s.scheduling.set i (.publishRunTask r), log := .publishRunTask r :: s.log } where
  chronicle := by
    refine ⟨⟨h.looked r (List.mem_of_getElem? hi), ?_⟩, h.chronicle⟩
    have hle := h.conserved r
    have hcount := count_flatMap_eraseIdx Scheduling.unpublished hi r
    simp only [Scheduling.unpublished, List.count_singleton_self] at hcount
    omega
  slots := h.slots
  counts := by
    intro _
    have hcounts := h.counts hactive
    simpa using hcounts
  disposed := fun hf => absurd hf hactive
  stored := h.stored
  stopped := by
    intro hmem
    exact h.stopped (by simpa using hmem)
  called := fun g hg => List.mem_cons_of_mem _ (h.called g hg)
  looked := by
    intro q hq
    apply List.mem_cons_of_mem
    rcases List.mem_or_eq_of_mem_set hq with hq | heq
    · exact h.looked q hq
    · cases heq
  sent := by
    intro q hq
    rcases List.mem_or_eq_of_mem_set hq with hq | heq
    · exact mem_published_cons (h.sent q hq)
    · cases heq
      exact List.mem_cons_self
  conserved := by
    intro q
    have hle := h.conserved q
    have hcount := count_flatMap_set Scheduling.unpublished hi (.publishRunTask r) q
    have hpub : (published (.publishRunTask r :: s.log)).count q = [r].count q + (published s.log).count q := by
      rw [published, List.flatMap_cons, List.count_append]
      rfl
    have hfound : foundTasks (.publishRunTask r :: s.log) = foundTasks s.log := foundTasks_cons rfl
    simp only [Scheduling.unpublished, List.count_nil] at hcount hle ⊢
    rw [hpub, hfound]
    omega

theorem Inv.write (h : s.Inv max []) (ready : List ReadyTask) :
    Inv max [] { s with ready := ready, log := .write ready :: s.log } where
  chronicle := ⟨trivial, h.chronicle⟩
  slots := h.slots
  counts := h.counts
  disposed := h.disposed
  stored := rfl
  stopped := by
    intro hmem
    exact h.stopped (by simpa using hmem)
  called := fun g hg => List.mem_cons_of_mem _ (h.called g hg)
  looked := fun r hr => List.mem_cons_of_mem _ (h.looked r hr)
  sent := fun r hr => mem_published_cons (h.sent r hr)
  conserved := h.conserved

theorem step_inv {a : ScheduleAction} (h : s.step a = some t) (hs : s.Inv max []) : t.Inv max [] := by
  have hfinding : ∀ (i : Nat) (f : Finding), s.finding[i]? = some f → s.source ≠ .failed := by
    intro i f hi hf
    rw [(hs.disposed hf).1] at hi
    cases hi
  have hscheduling : ∀ (i : Nat) (c : Scheduling), s.scheduling[i]? = some c → s.source ≠ .failed := by
    intro i c hi hf
    rw [(hs.disposed hf).2] at hi
    cases hi
  cases a with
  | evaluateGraph graphId =>
    obtain rfl := Option.some.inj h
    exact hs.evaluateGraph graphId
  | executeFind i =>
    simp only [step] at h
    split at h
    · rename_i graphId hi
      obtain rfl := Option.some.inj h
      exact hs.executeFind (hfinding i _ hi) hi rfl
    · cases h
  | found i throws =>
    simp only [step] at h
    split at h
    · rename_i tasks hi
      obtain rfl := Option.some.inj h
      rw [foldl_endFind]
      exact (hs.endFind (hfinding i _ hi) hi).scheduleAll throws (hfinding i _ hi)
    · cases h
  | findFails i reason =>
    simp only [step] at h
    split at h
    · cases h
    · rename_i f hi
      cases reason with
      | error =>
        obtain rfl := Option.some.inj h
        have hend := hs.endFind (hfinding i f hi) hi
        refine { hend with conserved := fun r => ?_ }
        have hle := hend.conserved r
        rw [List.count_nil]
        omega
      | nullish =>
        obtain rfl := Option.some.inj h
        exact hs.terminate
  | taskById i =>
    simp only [step] at h
    split at h
    · rename_i r hi
      obtain rfl := Option.some.inj h
      exact hs.taskById (hscheduling i _ hi) hi
    · cases h
  | published i =>
    simp only [step] at h
    split at h
    · rename_i r hi
      obtain rfl := Option.some.inj h
      have hend := hs.endSchedule (hscheduling i _ hi) hi
      exact hend.note (x := .scheduled r) (hs.sent r (List.mem_of_getElem? hi)) rfl rfl hs.stored nofun
    · cases h
  | scheduleFails i reason =>
    simp only [step] at h
    split at h
    · cases h
    · rename_i c hi
      cases reason with
      | error =>
        obtain rfl := Option.some.inj h
        exact hs.endSchedule (hscheduling i c hi) hi
      | nullish =>
        obtain rfl := Option.some.inj h
        exact hs.terminate
  | checkout r =>
    obtain rfl := Option.some.inj h
    exact hs.write (s.ready.erase r)
  | write ready =>
    obtain rfl := Option.some.inj h
    exact hs.write ready
  | stop =>
    obtain rfl := Option.some.inj h
    exact ⟨⟨trivial, hs.chronicle⟩, hs.slots, hs.counts, hs.disposed, hs.stored, fun _ => rfl,
      fun g hg => List.mem_cons_of_mem _ (hs.called g hg), fun r hr => List.mem_cons_of_mem _ (hs.looked r hr),
      fun r hr => mem_published_cons (hs.sent r hr), hs.conserved⟩

end TaskScheduling

/-- Only tasks that the store had ready are published: as often as they were found, after
a look into their graph that a running scheduler began; a task that was found is dropped
only with as many schedule events in flight as are allowed. -/
theorem published_tasks_ready (findReadyTasks handleScheduleTaskEvent : Int) (ready : List ReadyTask)
    (actions : List ScheduleAction) (s : TaskScheduling)
    (h : Lts.exec TaskScheduling.step (.start findReadyTasks handleScheduleTaskEvent ready) actions = some s) :
    History.Chronicle (TaskScheduling.Sound handleScheduleTaskEvent) s.log :=
  (Lts.invariant (TaskScheduling.Inv handleScheduleTaskEvent [])
    (fun _ _ _ hstep => TaskScheduling.step_inv hstep) (.start findReadyTasks ready) h).chronicle

/-- Two tasks are ready and one is scheduled at a time; the scheduler is stopped before the
message of the first one is confirmed. -/
def droppingRun : List ScheduleAction :=
  [.evaluateGraph (some 7), .executeFind 0, .found 0 fun _ => false, .checkout ⟨7, 1⟩, .taskById 0, .stop,
    .published 0]

theorem published_tasks_ready_dropped : ∃ s : TaskScheduling,
    Lts.exec TaskScheduling.step (.start 1 1 [⟨7, 1⟩, ⟨7, 2⟩]) droppingRun = some s ∧
      History.Chronicle (TaskScheduling.Sound 1) s.log :=
  ⟨_, rfl, published_tasks_ready 1 1 [⟨7, 1⟩, ⟨7, 2⟩] droppingRun _ rfl⟩

end OnTaskGraph
