import OnTaskGraph.GraphFailure

/-! The pending tasks of graphs that end badly. `failGraph` takes them through four
rounds of calls before it sets the graph done; the poller sets a graph to failed
without looking at them. -/

namespace OnTaskGraph

def FailRound.earlier : FailRound → List FailRound
  | .setTaskState => []
  | .markTaskEvaluated => [.setTaskState]
  | .publishCancelTask => [.setTaskState, .markTaskEvaluated]
  | .setTaskStateInGraph => [.setTaskState, .markTaskEvaluated, .publishCancelTask]

theorem FailRound.mem_earlier_next {round next r : FailRound} (h : round.next = some next)
    (hr : r ∈ next.earlier) : r ∈ round.earlier ∨ r = round := by
  cases round <;> simp only [FailRound.next, Option.some.injEq, reduceCtorEq] at h <;> subst h <;>
    simp_all [FailRound.earlier, or_assoc]

theorem FailRound.mem_earlier_last {round : FailRound} (h : round.next = none) (r : FailRound) :
    r ∈ round.earlier ∨ r = round := by
  cases round <;> simp only [FailRound.next, reduceCtorEq] at h
  cases r <;> simp [FailRound.earlier]

def ProcId.Runs : ProcId → Proc → Prop
  | .event _, .setGraphDone (.polledFailure _) _ => False
  | .event _, _ => True
  | .batch _ _, .checkGraphSucceeded .poller _ | .batch _ _, .graphChecked .poller _ _
  | .batch _ _, .setGraphDone (.succeeded .poller) _ | .batch _ _, .setGraphDone (.polledFailure _) _
  | .batch _ _, .graphDone _ _ _ | .batch _ _, .ended _ => True
  | .batch _ _, _ => False

/-- What the procedures have done about the tasks of the graphs that they fail. -/
structure CleanUp where
  /-- The tasks that were pending when the procedure read the graph. -/
  seen : ProcId → Option (List TaskKey)
  executed : ProcId → List StoreCall

namespace Evaluation

def pendingTasks (w : Evaluation) (g : GraphId) : List TaskKey :=
  match w.graphs g with
  | some G => G.tasks.filter fun t => G.taskState t = .pending
  | none => []

end Evaluation

namespace CleanUp

def start : CleanUp := ⟨fun _ => none, fun _ => []⟩

def watch (w : Evaluation) (m : Move) (_ : Evaluation) (x : CleanUp) : CleanUp :=
  match m with
  | .call p c _ => { x with executed := Function.update x.executed p (c :: x.executed p) }
  | .execute p =>
    match w.procs p with
    | some (.getActiveGraphById _ g) =>
      { x with seen := Function.update x.seen p (some (w.pendingTasks g)) }
    | _ => x
  | _ => x

theorem executed_subset (w : Evaluation) (m : Move) (w' : Evaluation) (x : CleanUp) (p : ProcId) :
    x.executed p ⊆ (watch w m w' x).executed p := by
  cases m with
  | call q c us =>
    by_cases hp : p = q
    · subst hp
      simp [watch]
    · simp [watch, hp]
  | execute q =>
    simp only [watch]
    split <;> simp
  | createGraph | finishTask | evaluateTask | cancelGraph | findCompletedTasks | deleteTasks | stray
  | reply | fail => simp [watch]

theorem seen_eq (w : Evaluation) (m : Move) (w' : Evaluation) (x : CleanUp) (p : ProcId) :
    (watch w m w' x).seen p = x.seen p ∨ ∃ reason g, w.procs p = some (.getActiveGraphById reason g) := by
  cases m with
  | execute q =>
    simp only [watch]
    split
    · rename_i reason g hq
      by_cases hp : p = q
      · exact Or.inr ⟨reason, g, hp ▸ hq⟩
      · exact Or.inl (by simp [hp])
    · exact Or.inl rfl
  | call | createGraph | finishTask | evaluateTask | cancelGraph | findCompletedTasks | deleteTasks | stray
  | reply | fail => exact Or.inl rfl

end CleanUp

structure CleanedUp (executed : List StoreCall) (g : GraphId) (state : TaskState) (t : TaskKey) : Prop where
  setTaskState : .setTaskState t state ∈ executed
  markTaskEvaluated : .markTaskEvaluated t ∈ executed
  publishCancelTask : .publishCancelTask t ∈ executed
  setTaskStateInGraph : .setTaskStateInGraph g t state ∈ executed

theorem cleanedUp_of_rounds {executed : List StoreCall} {g : GraphId} {state : TaskState} {t : TaskKey}
    {tasks : List (TaskKey × TaskState)} (ht : (t, state) ∈ tasks)
    (h : ∀ round : FailRound, ∀ c ∈ round.calls g tasks, c ∈ executed) : CleanedUp executed g state t where
  setTaskState := h .setTaskState _ (List.mem_map.mpr ⟨_, ht, rfl⟩)
  markTaskEvaluated := h .markTaskEvaluated _ (List.mem_map.mpr ⟨_, ht, rfl⟩)
  publishCancelTask := h .publishCancelTask _ (List.mem_map.mpr ⟨_, ht, rfl⟩)
  setTaskStateInGraph := h .setTaskStateInGraph _ (List.mem_map.mpr ⟨_, ht, rfl⟩)

theorem CleanedUp.mono {executed executed' : List StoreCall} {g : GraphId} {state : TaskState} {t : TaskKey}
    (h : CleanedUp executed g state t) (hsub : executed ⊆ executed') : CleanedUp executed' g state t :=
  ⟨hsub h.1, hsub h.2, hsub h.3, hsub h.4⟩

/-- How far a `failGraph` is with the tasks that it has seen pending. -/
def Proc.CleansUp (seen : Option (List TaskKey)) (executed : List StoreCall) : Proc → Prop
  | .handleFailGraphTasks reason g round tasks calls =>
    (∃ ts, seen = some ts ∧ ∀ t ∈ ts, (t, reason.graphState) ∈ tasks) ∧
      (∀ c ∈ round.calls g tasks, c ∈ calls ∨ c ∈ executed) ∧
      ∀ r ∈ round.earlier, ∀ c ∈ r.calls g tasks, c ∈ executed
  | .setGraphDone (.failGraph reason) g =>
    ∃ ts, seen = some ts ∧ ∀ t ∈ ts, CleanedUp executed g reason.graphState t
  | _ => True

theorem Proc.CleansUp.mono {seen : Option (List TaskKey)} {executed executed' : List StoreCall} {P : Proc}
    (h : P.CleansUp seen executed) (hsub : executed ⊆ executed') : P.CleansUp seen executed' := by
  unfold Proc.CleansUp at h ⊢
  split at h
  · obtain ⟨hseen, hround, hearlier⟩ := h
    exact ⟨hseen, fun c hc => (hround c hc).imp_right fun hmem => hsub hmem,
      fun r hr c hc => hsub (hearlier r hr c hc)⟩
  · obtain ⟨ts, hts, hclean⟩ := h
    exact ⟨ts, hts, fun t ht => (hclean t ht).mono hsub⟩
  · trivial

theorem Proc.CleansUp.called {seen : Option (List TaskKey)} {executed : List StoreCall} {P : Proc}
    {c : StoreCall} (h : P.CleansUp seen executed) : (P.called c).CleansUp seen (c :: executed) := by
  cases P with
  | handleFailGraphTasks reason g round tasks calls =>
    obtain ⟨hseen, hround, hearlier⟩ := h
    refine ⟨hseen, fun d hd => ?_, fun r hr d hd => List.mem_cons_of_mem _ (hearlier r hr d hd)⟩
    by_cases hcd : d = c
    · exact Or.inr (hcd ▸ List.mem_cons_self)
    · rcases hround d hd with hleft | hdone
      · exact Or.inl ((List.mem_erase_of_ne hcd).mpr hleft)
      · exact Or.inr (List.mem_cons_of_mem _ hdone)
  | updateTaskDependencies | markTaskEvaluated | handleEvaluatedTask | checkGraphSucceeded | graphChecked
  | getActiveGraphById | setGraphDone | graphDone | ended =>
    exact Proc.CleansUp.mono h (List.subset_cons_self c executed)

theorem Proc.CleansUp.moved {C : Constants} {seen : Option (List TaskKey)} {executed : List StoreCall}
    {P P' : Proc} (h : P.CleansUp seen executed) (hm : Moved C P P') : P'.CleansUp seen executed := by
  cases hm with
  | dependencies | succeeded | ended => trivial
  | @terminal data =>
    unfold TaskData.checkGraphFinished
    split <;> trivial
  | @nextRound reason g round next tasks hnext =>
    obtain ⟨hseen, hround, hearlier⟩ := h
    refine ⟨hseen, fun c hc => Or.inl hc, fun r hr c hc => ?_⟩
    rcases FailRound.mem_earlier_next hnext hr with hold | rfl
    · exact hearlier r hold c hc
    · exact (hround c hc).resolve_left (by simp)
  | @lastRound reason g round tasks hlast =>
    obtain ⟨⟨ts, hts, hmem⟩, hround, hearlier⟩ := h
    refine ⟨ts, hts, fun t ht => cleanedUp_of_rounds (hmem t ht) fun r c hc => ?_⟩
    rcases FailRound.mem_earlier_last hlast r with hold | rfl
    · exact hearlier r hold c hc
    · exact (hround c hc).resolve_left (by simp)

namespace Evaluation

/-- A graph that is set to failed or cancelled has been relieved of every task that
the procedure saw pending; one that did not read the graph leaves those that are. -/
def TakesPending (v : Evaluation × CleanUp) (m : Move) (_ : Evaluation × CleanUp) : Prop :=
  ∀ p ending g, m = .execute p → v.1.procs p = some (.setGraphDone ending g) →
    ending.graphState = .failed ∨ ending.graphState = .cancelled →
    ∀ t ∈ (v.2.seen p).getD (v.1.pendingTasks g), CleanedUp (v.2.executed p) g ending.graphState t

def PolledSettled (v : Evaluation × CleanUp) (m : Move) (_ : Evaluation × CleanUp) : Prop :=
  ∀ x ∈ m.polled v.1, v.1.pendingTasks x.2 = []

instance {v v' : Evaluation × CleanUp} {m : Move} : Decidable (PolledSettled v m v') :=
  inferInstanceAs (Decidable (∀ x ∈ m.polled v.1, _))

structure CleansUp (v : Evaluation × CleanUp) : Prop where
  procs : ∀ {p P}, v.1.procs p = some P → P.CleansUp (v.2.seen p) (v.2.executed p)
  runs : ∀ {p P}, v.1.procs p = some P → p.Runs P
  batches : ∀ b i, v.2.seen (.batch b i) = none ∧ v.2.executed (.batch b i) = []

section

variable {C : Constants} {w w' : Evaluation} {m : Move}

theorem mem_pendingTasks {g : GraphId} {G : Graph} {t : TaskKey} (hG : w.graphs g = some G) :
    t ∈ w.pendingTasks g ↔ t ∈ G.tasks ∧ G.taskState t = .pending := by
  simp [pendingTasks, hG]

theorem Arises.runs {p : ProcId} {P : Proc} (ha : Arises C w m p P)
    (h : ∀ {q Q}, w.procs q = some Q → q.Runs Q) : p.Runs P := by
  cases ha with
  | evaluateTask | cancelGraph => trivial
  | @polled b ts i R =>
    unfold TaskData.handlePotentialFinishedGraph
    split <;> trivial
  | @called _ P c _ hP hc =>
    have hold := h hP
    cases p with
    | event n => cases P <;> trivial
    | batch b i => cases P <;> simp_all [Proc.calls, ProcId.Runs]
  | marked hP =>
    have hold := h hP
    cases p <;> trivial
  | @checked _ path g hP =>
    have hold := h hP
    cases p <;> cases path <;> trivial
  | graphRead hP =>
    have hold := h hP
    cases p <;> trivial
  | graphSet | ended => cases p <;> trivial
  | @moved _ P P' _ hP hm =>
    have hold := h hP
    cases p with
    | event n =>
      cases hm with
      | @terminal data =>
        unfold TaskData.checkGraphFinished
        split <;> trivial
      | dependencies | succeeded | nextRound | lastRound | ended => trivial
    | batch b i =>
      cases hm with
      | dependencies | terminal | nextRound | lastRound => exact absurd hold (by simp [ProcId.Runs])
      | @succeeded path => cases path <;> trivial
      | ended => trivial

theorem Arises.cleansUp {x : CleanUp} {p : ProcId} {P : Proc} (ha : Arises C w m p P)
    (h : ∀ {q Q}, w.procs q = some Q → Q.CleansUp (x.seen q) (x.executed q)) :
    P.CleansUp ((CleanUp.watch w m w' x).seen p) ((CleanUp.watch w m w' x).executed p) := by
  cases ha with
  | evaluateTask | cancelGraph | marked | checked | graphSet | ended => trivial
  | @polled b ts i R =>
    unfold TaskData.handlePotentialFinishedGraph
    split <;> trivial
  | @called _ P c us hP =>
    have hcalled := (h hP).called (c := c)
    simpa [CleanUp.watch] using hcalled
  | moved hP hm => exact (h hP).moved hm
  | @graphRead _ reason g G hP hG =>
    have hseen : (CleanUp.watch w (.execute p) w' x).seen p = some (w.pendingTasks g) := by
      simp [CleanUp.watch, hP]
    refine ⟨⟨_, hseen, fun t ht => ?_⟩, fun c hc => Or.inl hc, by simp [FailRound.earlier]⟩
    obtain ⟨htasks, hpending⟩ := (mem_pendingTasks hG).mp ht
    exact List.mem_map.mpr ⟨t, htasks, by rw [if_pos hpending]⟩

/-- A procedure that waits for no calls has none executed. -/
theorem Change.executed_eq (hc : Change C w m w') (x : CleanUp) {p : ProcId}
    (hidle : ∀ {P}, w.procs p = some P → P.calls = []) :
    (CleanUp.watch w m w' x).executed p = x.executed p := by
  cases hc with
  | @call q P c us hP hcall =>
    have hne : p ≠ q := by
      rintro rfl
      simp [hidle hP] at hcall
    simp [CleanUp.watch, hne]
  | marked hP | unmarked hP | checked hP | graphRead hP | graphInactive hP | graphSet hP | graphKept hP =>
    simp [CleanUp.watch, hP]
  | createGraph | finishTask | evaluateTask | cancelGraph | findCompletedTasks | deleteTasks | stray
  | moved | published | failed => rfl

end

theorem CleansUp.step {C : Constants} {v v' : Evaluation × CleanUp} {m : Move} (h : CleansUp v)
    (hstep : Lts.monitor (Evaluation.step C) CleanUp.watch v m = some v') : CleansUp v' := by
  obtain ⟨hmove, hwatch⟩ := Lts.monitor_eq_some.mp hstep
  have hc := step_change hmove
  refine ⟨fun {p P} hP => ?_, fun {p P} hP => ?_, fun b i => ?_⟩
  · rw [hwatch]
    rcases hc.procs hP with hold | ha
    · rcases CleanUp.seen_eq v.1 m v'.1 v.2 p with hseen | ⟨reason, g, hget⟩
      · rw [hseen]
        exact (h.procs hold).mono (CleanUp.executed_subset _ _ _ _ _)
      · obtain rfl := Option.some.inj (hget.symm.trans hold)
        trivial
    · exact ha.cleansUp h.procs
  · rcases hc.procs hP with hold | ha
    · exact h.runs hold
    · exact ha.runs h.runs
  · have hidle : ∀ {P}, v.1.procs (.batch b i) = some P → P.calls = [] ∧
        ∀ reason g, P ≠ .getActiveGraphById reason g := by
      intro P hP
      have hruns := h.runs hP
      cases P <;> simp_all [ProcId.Runs, Proc.calls]
    rw [hwatch]
    constructor
    · rcases CleanUp.seen_eq v.1 m v'.1 v.2 (.batch b i) with hseen | ⟨reason, g, hget⟩
      · exact hseen.trans (h.batches b i).1
      · exact absurd rfl ((hidle hget).2 reason g)
    · exact (hc.executed_eq v.2 fun hP => (hidle hP).1).trans (h.batches b i).2

theorem cleansUp_start : CleansUp (start, CleanUp.start) := by
  constructor <;> simp [start, CleanUp.start]

/-- Only pollers set a graph to failed without `failGraph`, and they make no calls for it. -/
theorem CleansUp.polled {v : Evaluation × CleanUp} {p : ProcId} {data : TaskData} {g : GraphId}
    (h : CleansUp v) (hP : v.1.procs p = some (.setGraphDone (.polledFailure data) g)) :
    v.2.seen p = none ∧ v.2.executed p = [] := by
  cases p with
  | event n => exact (h.runs hP).elim
  | batch b i => exact h.batches b i

theorem CleansUp.takesPending_iff {v v' : Evaluation × CleanUp} {m : Move} (h : CleansUp v) :
    TakesPending v m v' ↔ PolledSettled v m v' := by
  constructor
  · rintro htakes ⟨data, g⟩ hpolled
    obtain ⟨p, rfl⟩ : ∃ p, m = .execute p := by
      cases m <;> simp_all [Move.polled]
    have hP : v.1.procs p = some (.setGraphDone (.polledFailure data) g) := by
      simp only [Move.polled] at hpolled
      split at hpolled <;> simp_all
    have htaken := htakes _ _ _ rfl hP (Or.inl rfl)
    rw [(h.polled hP).1, (h.polled hP).2] at htaken
    refine List.eq_nil_iff_forall_not_mem.mpr fun t ht => ?_
    have hclean := htaken t ht
    exact absurd hclean.setTaskState (by simp)
  · rintro hsettled p ending g rfl hP hbad t ht
    cases ending with
    | succeeded => simp [Ending.graphState] at hbad
    | polledFailure data =>
      have hnone : v.1.pendingTasks g = [] := hsettled (data, g) (by simp [Move.polled, hP])
      simp [(h.polled hP).1, hnone] at ht
    | failGraph reason =>
      obtain ⟨ts, hts, hclean⟩ := h.procs hP
      rw [hts] at ht
      exact hclean t ht

end Evaluation

open Evaluation

/-- Pending tasks stay behind in a graph that ends badly exactly where a poller sets
a graph to failed that still has some. -/
theorem pending_taken_iff (C : Constants) (ms : List Move) :
    Lts.Along (Lts.monitor (Evaluation.step C) CleanUp.watch) TakesPending
        (Evaluation.start, CleanUp.start) ms ↔
      Lts.Along (Lts.monitor (Evaluation.step C) CleanUp.watch) PolledSettled
        (Evaluation.start, CleanUp.start) ms := by
  constructor
  · intro h
    exact h.of_invariant CleansUp (fun _ _ _ hstep _ hi => hi.step hstep)
      (fun _ _ _ _ htakes hi => hi.takesPending_iff.mp htakes) cleansUp_start
  · intro h
    exact h.of_invariant CleansUp (fun _ _ _ hstep _ hi => hi.step hstep)
      (fun _ _ _ _ hsettled hi => hi.takesPending_iff.mpr hsettled) cleansUp_start

/-- Task 1 has failed and is marked evaluated, but its scheduler did not accept the
check; the poller fails the graph with task 2 still pending. -/
theorem pending_left :
    ¬ Lts.Along (Lts.monitor (Evaluation.step .sample) CleanUp.watch) TakesPending
      (Evaluation.start, CleanUp.start)
      [.createGraph 0 [⟨1, [.failed], false⟩, ⟨2, [.succeeded], false⟩], .finishTask 1 .failed,
        .evaluateTask 0 ⟨0, 1, .failed, [.failed], false⟩,
        .call (.event 0) (.setTaskStateInGraph 0 1 .failed) [],
        .call (.event 0) (.updateDependentTasks 1) [], .call (.event 0) (.updateUnreachableTasks 0) [],
        .reply (.event 0) true, .execute (.event 0), .reply (.event 0) false, .findCompletedTasks 0 [1],
        .execute (.batch 0 0)] := by
  intro h
  have htaken := h.getLast (List.cons_ne_nil _ _) rfl rfl _ _ _ rfl rfl (Or.inl rfl) 2 (by decide)
  exact absurd htaken.setTaskState (by decide)

end OnTaskGraph
