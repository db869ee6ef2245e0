import OnTaskGraph.EvaluationChanges
import OnTaskGraph.Lts

/-! Graphs recorded as succeeded. A check that finds every task evaluated and a
failure that is still being worked off race for the status, so success can be
trusted only where no evaluated failure was waiting when the check was answered. -/

namespace OnTaskGraph

def Proc.succeeding : Proc → Option GraphId
  | .graphChecked _ g true => some g
  | .setGraphDone (.succeeded _) g => some g
  | _ => none

namespace Evaluation

def FailureEvaluated (C : Constants) (w : Evaluation) (g : GraphId) : Prop :=
  ∃ data, .evaluated data ∈ w.log ∧ data.graphId = g ∧ data.realFailure C = true

def status (w : Evaluation) (g : GraphId) : Option TaskState := (w.graphs g).map Graph.status

def NoFalseSuccess (C : Constants) (w : Evaluation) (_ : Move) (w' : Evaluation) : Prop :=
  ∀ g, w.status g ≠ some .succeeded → w'.status g = some .succeeded → ¬ FailureEvaluated C w g

/-- A check has found the graph complete, and the success is on its way to the status. -/
def Succeeding (w : Evaluation) (g : GraphId) : Prop := ∃ p P, w.procs p = some P ∧ P.succeeding = some g

/-- The task is not settled yet, or a failure of its graph has been evaluated before. -/
def Markable (C : Constants) (w : Evaluation) (R : TaskRecord) : Prop :=
  FailureEvaluated C w R.graphId ∨ (R.evaluated = false ∧ R.reachable = true)

/-- A failure that has been evaluated ends its graph before a check finds the graph complete,
and none is marked on a task that was settled when the check found it so. -/
def FailuresFirst (C : Constants) (w : Evaluation) (m : Move) (_ : Evaluation) : Prop :=
  (∀ p path g, m = .execute p → w.procs p = some (.checkGraphSucceeded path g) → w.active g = true →
    w.checkGraphSucceeded g = true → ¬ FailureEvaluated C w g) ∧
  ∀ t R, m.marks w = some t → w.records t = some R → R.realFailure C = true →
    w.active R.graphId = true → w.Succeeding R.graphId → Markable C w R

def Owned (w : Evaluation) : Prop :=
  ∀ t R, w.records t = some R → ∃ G, w.graphs R.graphId = some G ∧ t ∈ G.tasks

/-- As long as the graph is active, all its tasks stay evaluated, none as a failure. -/
structure Clean (C : Constants) (w : Evaluation) (g : GraphId) : Prop where
  known : (w.graphs g).isSome = true
  settled : w.active g = true → w.checkGraphSucceeded g = true
  unfailed : w.active g = true → ¬ FailureEvaluated C w g

section

variable {C : Constants} {w w' : Evaluation} {m : Move}

theorem checkGraphSucceeded_iff {g : GraphId} {G : Graph} (hG : w.graphs g = some G) :
    w.checkGraphSucceeded g = true ↔ ∀ t ∈ G.tasks, ∀ R, w.records t = some R → R.graphId = g →
      R.reachable = true → R.evaluated = true := by
  simp only [checkGraphSucceeded, hG, List.all_eq_true]
  refine forall₂_congr fun t _ => ?_
  cases w.records t with
  | none => simp
  | some R =>
    simp only [Bool.or_eq_true, decide_eq_true_eq, Bool.not_eq_true', Option.some.injEq,
      forall_eq']
    cases R.reachable <;> cases R.evaluated <;> simp

theorem Change.owned (hc : Change C w m w') (h : w.Owned) : w'.Owned := by
  intro t R' hR'
  rcases hc.record hR' with ⟨R, hR, hev⟩ | ⟨-, -, -, hG'⟩
  · obtain ⟨G, hG, ht⟩ := h t R hR
    obtain ⟨G', hG'⟩ := Option.isSome_iff_exists.mp (hc.graphs_isSome (Option.isSome_of_eq_some hG))
    refine ⟨G', hev.graphId ▸ hG', ?_⟩
    rcases hc.status hG' with ⟨G₀, hG₀, -, htasks⟩ | ⟨hnone, -⟩ | ⟨_, _, G₀, -, -, hG₀, -, -, htasks⟩
    · obtain rfl := Option.some.inj (hG.symm.trans hG₀)
      exact htasks ▸ ht
    · simp [hG] at hnone
    · obtain rfl := Option.some.inj (hG.symm.trans hG₀)
      exact htasks ▸ ht
  · exact hG'

theorem Change.active (hc : Change C w m w') {g : GraphId} (hknown : (w.graphs g).isSome = true)
    (h : w'.active g = true) : ∃ G G', w.graphs g = some G ∧ w'.graphs g = some G' ∧
      G.active = true ∧ G'.tasks = G.tasks := by
  cases hG' : w'.graphs g with
  | none => simp [Evaluation.active, hG'] at h
  | some G' =>
    have hactive : G'.active = true := by simpa [Evaluation.active, hG'] using h
    rcases hc.status hG' with ⟨G, hG, hstatus, htasks⟩ | ⟨hnone, -⟩ | ⟨_, _, G, -, -, hG, ha, -, htasks⟩
    · exact ⟨G, G', hG, rfl, by simpa [Graph.active, hstatus] using hactive, htasks⟩
    · simp [hnone] at hknown
    · exact ⟨G, G', hG, rfl, ha, htasks⟩

theorem Clean.change {g : GraphId} (h : Clean C w g) (hc : Change C w m w') (howned : w.Owned)
    (hmarked : ∀ t R, m.marks w = some t → w.records t = some R → R.realFailure C = true → R.graphId = g →
      w.active g = true → Markable C w R) : Clean C w' g := by
  refine ⟨hc.graphs_isSome h.known, fun hactive => ?_, fun hactive => ?_⟩
  · obtain ⟨G, G', hG, hG', ha, htasks⟩ := hc.active h.known hactive
    have hsettled := (checkGraphSucceeded_iff hG).mp (h.settled (by simp [Evaluation.active, hG, ha]))
    rw [checkGraphSucceeded_iff hG', htasks]
    intro t ht R' hR' hg hreach
    rcases hc.record hR' with ⟨R, hR, hev⟩ | ⟨hnone, -⟩
    · exact hev.evaluated (hsettled t ht R hR (hev.graphId ▸ hg) (hev.reachable hreach))
    · simp [hg, hG] at hnone
  · obtain ⟨G, G', hG, hG', ha, htasks⟩ := hc.active h.known hactive
    have hact : w.active g = true := by simp [Evaluation.active, hG, ha]
    rintro ⟨data, hmem, rfl, hfail⟩
    rcases hc.evaluated_mem hmem with hold | ⟨t, R, hmarks, hR, rfl⟩
    · exact h.unfailed hact ⟨data, hold, rfl, hfail⟩
    · rcases hmarked t R hmarks hR hfail rfl hact with hbefore | ⟨hev, hreach⟩
      · exact h.unfailed hact hbefore
      · obtain ⟨G₀, hG₀, ht⟩ := howned t R hR
        have hsettled := (checkGraphSucceeded_iff hG₀).mp (h.settled hact) t ht R hR rfl hreach
        simp [hsettled] at hev

theorem Change.succeeding (hc : Change C w m w') {p : ProcId} {P' : Proc} {g : GraphId}
    (hP' : w'.procs p = some P') (hg : P'.succeeding = some g) :
    (∃ P, w.procs p = some P ∧ P.succeeding = some g) ∨
      ∃ path, m = .execute p ∧ w.procs p = some (.checkGraphSucceeded path g) ∧
        w.checkGraphSucceeded g = true := by
  rcases hc.procs hP' with hold | harises
  · exact Or.inl ⟨P', hold, hg⟩
  · cases harises with
    | evaluateTask | cancelGraph | marked | graphRead | graphSet | ended => simp [Proc.succeeding] at hg
    | polled =>
      unfold TaskData.handlePotentialFinishedGraph at hg
      split_ifs at hg <;> simp [Proc.succeeding] at hg
    | called hP hcall =>
      refine Or.inl ⟨_, hP, ?_⟩
      rename_i P c us
      cases P <;> simp_all [Proc.calls, Proc.called, Proc.succeeding]
    | @checked _ path g₀ hP =>
      cases hdone : w.checkGraphSucceeded g₀ with
      | false => simp [hdone, Proc.succeeding] at hg
      | true =>
        obtain rfl : g₀ = g := by simpa [hdone, Proc.succeeding] using hg
        exact Or.inr ⟨path, rfl, hP, hdone⟩
    | moved hP hm =>
      cases hm with
      | succeeded => exact Or.inl ⟨_, hP, hg⟩
      | terminal =>
        unfold TaskData.checkGraphFinished at hg
        split_ifs at hg <;> simp [Proc.succeeding] at hg
      | dependencies | nextRound | lastRound | ended => simp [Proc.succeeding] at hg

structure Vetted (C : Constants) (w : Evaluation) : Prop where
  owned : w.Owned
  clean : ∀ {p P g}, w.procs p = some P → P.succeeding = some g → Clean C w g

theorem Vetted.change (h : Vetted C w) (hc : Change C w m w') (hfirst : FailuresFirst C w m w') :
    Vetted C w' := by
  refine ⟨hc.owned h.owned, fun {p P g} hP hg => ?_⟩
  rcases hc.succeeding hP hg with ⟨P₀, hP₀, hg₀⟩ | ⟨path, rfl, hcheck, hdone⟩
  · refine (h.clean hP₀ hg₀).change hc h.owned fun t R hmarks hR hfail hgraph hactive => ?_
    subst hgraph
    exact hfirst.2 t R hmarks hR hfail hactive ⟨p, P₀, hP₀, hg₀⟩
  · have hknown : (w.graphs g).isSome = true := by
      cases hG : w.graphs g with
      | none => simp [checkGraphSucceeded, hG] at hdone
      | some G => rfl
    have hclean : Clean C w g :=
      ⟨hknown, fun _ => hdone, fun hactive => hfirst.1 p path g rfl hcheck hactive hdone⟩
    refine hclean.change hc h.owned fun t R hmarks => ?_
    simp [Move.marks, hcheck] at hmarks

theorem vetted_start (C : Constants) : Vetted C start := by
  constructor <;> simp [start, Owned]

theorem Vetted.noFalseSuccess (h : Vetted C w) (hc : Change C w m w') : NoFalseSuccess C w m w' := by
  intro g hbefore hafter
  obtain ⟨G', hG', hstatus'⟩ := Option.map_eq_some_iff.mp hafter
  rcases hc.status hG' with ⟨G, hG, hstatus, -⟩ | ⟨-, hpending⟩ | ⟨p, ending, G, -, hP, hG, ha, hstatus, -⟩
  · exact absurd (by simp [status, hG, ← hstatus, hstatus']) hbefore
  · simp [hpending] at hstatus'
  · cases ending with
    | succeeded path => exact (h.clean hP rfl).unfailed (by simp [Evaluation.active, hG, ha])
    | polledFailure data => simp [hstatus, Ending.graphState] at hstatus'
    | failGraph reason =>
      cases reason <;> simp [hstatus, Ending.graphState, FailReason.graphState] at hstatus'

end

end Evaluation

open Evaluation

/-- In every run in which evaluated failures come first, no graph is recorded as
succeeded over a real failure. -/
theorem graph_succeeded_unfailed (C : Constants) (ms : List Move)
    (hok : Lts.Along (Evaluation.step C) (FailuresFirst C) Evaluation.start ms) :
    Lts.Along (Evaluation.step C) (NoFalseSuccess C) Evaluation.start ms :=
  hok.of_invariant (Vetted C) (fun _ _ _ hstep hfirst h => h.change (step_change hstep) hfirst)
    (fun _ _ _ hstep _ h => h.noFalseSuccess (step_change hstep)) (vetted_start C)

def Note.evaluation : Note → Option TaskData
  | .evaluated data => some data
  | _ => none

def Proc.checking : Proc → Option GraphId
  | .checkGraphSucceeded _ g => some g
  | _ => none

def Move.checks (w : Evaluation) : Move → Option GraphId
  | .execute p => (w.procs p).bind Proc.checking
  | _ => none

instance {C : Constants} {w : Evaluation} {g : GraphId} : Decidable (FailureEvaluated C w g) :=
  decidable_of_iff (∃ x ∈ w.log, ∃ data ∈ x.evaluation, data.graphId = g ∧ data.realFailure C = true) <| by
    constructor
    · rintro ⟨x, hx, data, hdata, hg, hfail⟩
      cases x with
      | evaluated =>
        obtain rfl := Option.some.inj hdata
        exact ⟨_, hx, hg, hfail⟩
      | recorded | cancelPublished | graphDone | published => simp [Note.evaluation] at hdata
    · rintro ⟨data, hmem, hg, hfail⟩
      exact ⟨_, hmem, data, rfl, hg, hfail⟩

instance {C : Constants} {w : Evaluation} {R : TaskRecord} : Decidable (Markable C w R) :=
  inferInstanceAs (Decidable (_ ∨ _))

/-- Failures come first in a move, whatever checks there are. -/
def ComesFirst (C : Constants) (w : Evaluation) (m : Move) (_ : Evaluation) : Prop :=
  (∀ g ∈ m.checks w, w.active g = true → ¬ FailureEvaluated C w g) ∧
    ∀ R ∈ (m.marks w).bind w.records, R.realFailure C = true → Markable C w R

instance {C : Constants} {w w' : Evaluation} {m : Move} : Decidable (ComesFirst C w m w') :=
  inferInstanceAs (Decidable (_ ∧ _))

theorem ComesFirst.failuresFirst {C : Constants} {w w' : Evaluation} {m : Move} (h : ComesFirst C w m w') :
    FailuresFirst C w m w' := by
  refine ⟨fun p path g hm hP hactive _ => ?_, fun t R hmarks hR hfail _ _ => ?_⟩
  · exact h.1 g (by simp [hm, Move.checks, hP, Proc.checking]) hactive
  · exact h.2 R (by simp [hmarks, hR]) hfail

/-- Task 2 has succeeded and its check is on its way when task 1 fails and is evaluated. -/
def racingRun : List Move :=
  [.createGraph 0 [⟨1, [.failed], false⟩, ⟨2, [.succeeded], false⟩], .finishTask 2 .succeeded,
    .evaluateTask 0 ⟨0, 2, .succeeded, [.succeeded], false⟩,
    .call (.event 0) (.setTaskStateInGraph 0 2 .succeeded) [], .call (.event 0) (.updateDependentTasks 2) [],
    .call (.event 0) (.updateUnreachableTasks 0) [], .reply (.event 0) true, .execute (.event 0),
    .reply (.event 0) true, .finishTask 1 .failed, .evaluateTask 1 ⟨0, 1, .failed, [.failed], false⟩,
    .call (.event 1) (.setTaskStateInGraph 0 1 .failed) [], .call (.event 1) (.updateDependentTasks 1) [],
    .call (.event 1) (.updateUnreachableTasks 0) [], .reply (.event 1) true, .execute (.event 1),
    .reply (.event 1) true]

/-- A poller has found the failure before the check is answered; another graph succeeds. -/
def failedFirstRun : List Move :=
  racingRun ++ [.findCompletedTasks 0 [1], .execute (.batch 0 0), .execute (.event 0), .reply (.event 0) true,
    .execute (.event 0), .createGraph 1 [⟨3, [.succeeded], false⟩], .finishTask 3 .succeeded,
    .evaluateTask 2 ⟨1, 3, .succeeded, [.succeeded], false⟩,
    .call (.event 2) (.setTaskStateInGraph 1 3 .succeeded) [], .call (.event 2) (.updateDependentTasks 3) [],
    .call (.event 2) (.updateUnreachableTasks 1) [], .reply (.event 2) true, .execute (.event 2),
    .reply (.event 2) true, .execute (.event 2), .reply (.event 2) true, .execute (.event 2)]

theorem graph_succeeded_unfailed_run : ∃ w,
    Lts.exec (Evaluation.step .sample) Evaluation.start failedFirstRun = some w ∧
      w.status 0 = some .failed ∧ w.status 1 = some .succeeded ∧
      Lts.Along (Evaluation.step .sample) (NoFalseSuccess .sample) Evaluation.start failedFirstRun := by
  have hok : Lts.Along (Evaluation.step .sample) (ComesFirst .sample) Evaluation.start failedFirstRun := by
    decide
  exact ⟨_, rfl, rfl, rfl, graph_succeeded_unfailed .sample _ (hok.mono fun _ _ _ _ h => h.failuresFirst)⟩

/-- The check is answered before `failGraph` reaches the status. -/
theorem graph_succeeded_over_failure : ¬ Lts.Along (Evaluation.step .sample) (NoFalseSuccess .sample)
    Evaluation.start (racingRun ++ [.execute (.event 0), .reply (.event 0) true, .execute (.event 0)]) := by
  rw [Lts.along_iff]
  intro h
  have hlast :=
    h (racingRun ++ [.execute (.event 0), .reply (.event 0) true]) (.execute (.event 0)) [] _ _ rfl rfl rfl
  exact hlast 0 (by decide) (by decide) ⟨⟨0, 1, .failed, [.failed], false⟩, by decide, rfl, by decide⟩

end OnTaskGraph
