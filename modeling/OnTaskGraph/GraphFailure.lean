import OnTaskGraph.GraphSuccess

/-! Graphs recorded as failed. The scheduler counts a failure only if it is not to
be ignored; the poller does not look at that, so the two give a graph different
verdicts on an ignored failure. -/

namespace OnTaskGraph

inductive Verdict
  | failed
  | checked
  deriving DecidableEq

def Proc.verdict : Proc → Option Verdict
  | .getActiveGraphById _ _ | .setGraphDone (.polledFailure _) _ => some .failed
  | .checkGraphSucceeded _ _ => some .checked
  | _ => none

/-- A procedure that fails a graph does so for an outcome that was recorded. -/
def Proc.Grounded (C : Constants) (log : List Note) : Proc → Prop
  | .handleEvaluatedTask data => data.state = .pending ∨ .recorded data ∈ log
  | .getActiveGraphById (.failure data) g | .handleFailGraphTasks (.failure data) g _ _ _
  | .setGraphDone (.failGraph (.failure data)) g =>
    data.graphId = g ∧ data.realFailure C = true ∧ .recorded data ∈ log
  | .setGraphDone (.polledFailure data) g =>
    data.graphId = g ∧ data.state ∈ C.failedStates ∧ data.state ∈ data.terminalOnStates ∧
      .recorded data ∈ log
  | _ => True

theorem Proc.Grounded.mono {C : Constants} {log log' : List Note} {P : Proc} (h : P.Grounded C log)
    (hsub : log ⊆ log') : P.Grounded C log' := by
  unfold Proc.Grounded at h ⊢
  split at h
  · exact h.imp_right fun hmem => hsub hmem
  · exact ⟨h.1, h.2.1, hsub h.2.2⟩
  · exact ⟨h.1, h.2.1, hsub h.2.2⟩
  · exact ⟨h.1, h.2.1, hsub h.2.2⟩
  · exact ⟨h.1, h.2.1, h.2.2.1, hsub h.2.2.2⟩
  · trivial

def Move.polled (w : Evaluation) : Move → Option (TaskData × GraphId)
  | .execute p =>
    match w.procs p with
    | some (.setGraphDone (.polledFailure data) g) => some (data, g)
    | _ => none
  | _ => none

def Note.recording : Note → Option TaskData
  | .recorded data => some data
  | _ => none

namespace Evaluation

def NoFalseFailure (C : Constants) (w : Evaluation) (_ : Move) (w' : Evaluation) : Prop :=
  ∀ g, w.status g ≠ some .failed → w'.status g = some .failed →
    ∃ data, .recorded data ∈ w.log ∧ data.graphId = g ∧ data.realFailure C = true

/-- No poller sets an active graph to failed for a failure that is to be ignored. -/
def PolledCount (w : Evaluation) (m : Move) (_ : Evaluation) : Prop :=
  ∀ x ∈ m.polled w, w.active x.2 = true → x.1.ignoreFailure = false

instance {w w' : Evaluation} {m : Move} : Decidable (PolledCount w m w') :=
  inferInstanceAs (Decidable (∀ x ∈ m.polled w, _))

structure Grounded (C : Constants) (w : Evaluation) : Prop where
  records : ∀ {t R}, w.records t = some R → R.state = .pending ∨ .recorded R.toTaskData ∈ w.log
  procs : ∀ {p P}, w.procs p = some P → P.Grounded C w.log

section

variable {C : Constants} {w w' : Evaluation} {m : Move}

theorem Grounded.data (h : Grounded C w) {t : TaskKey} {R : TaskRecord} (hR : w.records t = some R)
    (hfailed : R.state ∈ C.failedStates) : .recorded R.toTaskData ∈ w.log := by
  refine (h.records hR).resolve_left fun hpending => C.pending_not_failed ?_
  exact hpending ▸ hfailed

theorem Grounded.arises (h : Grounded C w) {p : ProcId} {P' : Proc} (ha : Arises C w m p P') :
    P'.Grounded C w.log := by
  cases ha with
  | evaluateTask | cancelGraph | checked | graphSet | ended => trivial
  | @polled b ts i R t hR _ hterminal =>
    unfold TaskData.handlePotentialFinishedGraph
    split_ifs with hfailed
    · exact ⟨rfl, hfailed, hterminal, h.data hR hfailed⟩
    · trivial
  | @called _ P c _ hP _ =>
    have hg := h.procs hP
    cases P with
    | handleFailGraphTasks reason => cases reason <;> exact hg
    | updateTaskDependencies | markTaskEvaluated | handleEvaluatedTask | checkGraphSucceeded
    | graphChecked | getActiveGraphById | setGraphDone | graphDone | ended => exact hg
  | marked _ hR => exact h.records hR
  | @graphRead _ reason g G hP _ =>
    have hg := h.procs hP
    cases reason with
    | failure data => exact hg
    | cancelGraph => trivial
  | @moved _ P P' _ hP hm =>
    have hg := h.procs hP
    cases hm with
    | @terminal data hterminal =>
      unfold TaskData.checkGraphFinished
      split_ifs with hfail
      · simp only [Bool.and_eq_true, Bool.not_eq_true', decide_eq_true_eq] at hfail
        have hrecorded : .recorded data ∈ w.log := by
          refine Or.resolve_left hg fun hpending => C.pending_not_failed ?_
          exact hpending ▸ hfail.2
        exact ⟨rfl, by simp [TaskData.realFailure, hterminal, hfail.1, hfail.2], hrecorded⟩
      · trivial
    | @nextRound reason => cases reason <;> exact hg
    | @lastRound reason => cases reason <;> exact hg
    | dependencies | succeeded | ended => trivial

theorem Grounded.change (h : Grounded C w) (hc : Change C w m w') : Grounded C w' := by
  refine ⟨fun {t R'} hR' => ?_, fun {p P'} hP' => ?_⟩
  · rcases hc.recorded hR' with ⟨R, hR, hdata⟩ | hpending | hnew
    · have hold := h.records hR
      rw [← hdata] at hold
      exact hold.imp_right fun hmem => hc.log_subset hmem
    · exact Or.inl hpending
    · exact Or.inr hnew
  · rcases hc.procs hP' with hold | ha
    · exact (h.procs hold).mono hc.log_subset
    · exact (h.arises ha).mono hc.log_subset

theorem grounded_start (C : Constants) : Grounded C start := by
  constructor <;> simp [start]

theorem Grounded.noFalseFailure (h : Grounded C w) (hc : Change C w m w') (hcount : PolledCount w m w') :
    NoFalseFailure C w m w' := by
  intro g hbefore hafter
  obtain ⟨G', hG', hstatus'⟩ := Option.map_eq_some_iff.mp hafter
  rcases hc.status hG' with ⟨G, hG, hstatus, -⟩ | ⟨-, hpending⟩ | ⟨p, ending, G, hm, hP, hG, ha, hstatus, -⟩
  · exact absurd (by simp [status, hG, ← hstatus, hstatus']) hbefore
  · simp [hpending] at hstatus'
  · have hg := h.procs hP
    cases ending with
    | succeeded path => simp [hstatus, Ending.graphState] at hstatus'
    | polledFailure data =>
      obtain ⟨hgraph, hfailed, hterminal, hrecorded⟩ := hg
      have hpolled : m.polled w = some (data, g) := by simp [hm, Move.polled, hP]
      have hignore : data.ignoreFailure = false :=
        hcount (data, g) hpolled (by simp [Evaluation.active, hG, ha])
      exact ⟨data, hrecorded, hgraph, by simp [TaskData.realFailure, hterminal, hignore, hfailed]⟩
    | failGraph reason =>
      cases reason with
      | failure data => exact ⟨data, hg.2.2, hg.1, hg.2.1⟩
      | cancelGraph => simp [hstatus, Ending.graphState, FailReason.graphState] at hstatus'

end

end Evaluation

open Evaluation

theorem verdict_eq_iff (C : Constants) (data : TaskData) :
    (data.checkGraphFinished C).verdict = (data.handlePotentialFinishedGraph C).verdict ↔
      ¬ (data.ignoreFailure = true ∧ data.state ∈ C.failedStates) := by
  unfold TaskData.checkGraphFinished TaskData.handlePotentialFinishedGraph
  by_cases hfailed : data.state ∈ C.failedStates
  · cases hignore : data.ignoreFailure <;> simp [hfailed, Proc.verdict]
  · simp [hfailed, Proc.verdict]

/-- Scheduler and poller agree on a task unless it failed and is to be ignored; in
every run in which no poller ends an active graph on such a task, no graph is
recorded as failed without a real failure. -/
theorem graph_failed_really (C : Constants) :
    (∀ data : TaskData, (data.checkGraphFinished C).verdict = (data.handlePotentialFinishedGraph C).verdict ↔
      ¬ (data.ignoreFailure = true ∧ data.state ∈ C.failedStates)) ∧
    ∀ ms, Lts.Along (Evaluation.step C) PolledCount Evaluation.start ms →
      Lts.Along (Evaluation.step C) (NoFalseFailure C) Evaluation.start ms := by
  refine ⟨verdict_eq_iff C, fun ms hok => ?_⟩
  exact hok.of_invariant (Grounded C) (fun _ _ _ hstep _ h => h.change (step_change hstep))
    (fun _ _ _ hstep hcount h => h.noFalseFailure (step_change hstep) hcount) (grounded_start C)

def failingRun : List Move :=
  [.createGraph 0 [⟨1, [.failed], false⟩], .finishTask 1 .failed,
    .evaluateTask 0 ⟨0, 1, .failed, [.failed], false⟩,
    .call (.event 0) (.setTaskStateInGraph 0 1 .failed) [], .call (.event 0) (.updateDependentTasks 1) [],
    .call (.event 0) (.updateUnreachableTasks 0) [], .reply (.event 0) true, .execute (.event 0),
    .reply (.event 0) true, .execute (.event 0), .call (.event 0) (.setTaskState 1 .failed) [],
    .reply (.event 0) true, .call (.event 0) (.markTaskEvaluated 1) [], .reply (.event 0) true,
    .call (.event 0) (.publishCancelTask 1) [], .reply (.event 0) true,
    .call (.event 0) (.setTaskStateInGraph 0 1 .failed) [], .reply (.event 0) true, .execute (.event 0)]

theorem graph_failed_really_run : ∃ w,
    Lts.exec (Evaluation.step .sample) Evaluation.start failingRun = some w ∧ w.status 0 = some .failed ∧
      Lts.Along (Evaluation.step .sample) (NoFalseFailure .sample) Evaluation.start failingRun :=
  ⟨_, rfl, rfl, (graph_failed_really .sample).2 _ (by decide)⟩

def ignoredRun : List Move :=
  [.createGraph 0 [⟨1, [.failed], true⟩], .finishTask 1 .failed,
    .evaluateTask 0 ⟨0, 1, .failed, [.failed], true⟩,
    .call (.event 0) (.setTaskStateInGraph 0 1 .failed) [], .call (.event 0) (.updateDependentTasks 1) [],
    .call (.event 0) (.updateUnreachableTasks 0) [], .reply (.event 0) true, .execute (.event 0),
    .findCompletedTasks 0 [1]]

theorem graph_failed_on_ignored :
    (∃ data : TaskData, data.state ∈ data.terminalOnStates ∧
      (data.checkGraphFinished .sample).verdict ≠ (data.handlePotentialFinishedGraph .sample).verdict) ∧
    ¬ Lts.Along (Evaluation.step .sample) (NoFalseFailure .sample) Evaluation.start
      (ignoredRun ++ [.execute (.batch 0 0)]) := by
  refine ⟨⟨⟨0, 1, .failed, [.failed], true⟩, by decide, by decide⟩, fun h => ?_⟩
  have hlast := Lts.along_iff.mp h ignoredRun (.execute (.batch 0 0)) [] _ _ rfl rfl rfl
  obtain ⟨data, hmem, -, hfail⟩ := hlast 0 (by decide) (by decide)
  have hnone : ∀ x ∈ (Lts.exec (Evaluation.step .sample) Evaluation.start ignoredRun).elim [] (·.log),
      ∀ d ∈ x.recording, d.realFailure .sample = false := by decide
  have hnot := hnone _ hmem data rfl
  simp [hnot] at hfail

end OnTaskGraph
