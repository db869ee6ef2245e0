import OnTaskGraph.GraphFinished
import OnTaskGraph.GraphFailure

/-! A graph whose tasks are all finished ends, however many schedulers and pollers have
died on the way: the pollers alone can evaluate what is left, and a pass of the completed
task poller that ends without a failure leaves the graph done. -/

namespace OnTaskGraph

/-- The procedure that a move starts or goes on with. -/
def Move.proc : Move → Option ProcId
  | .evaluateTask n _ | .cancelGraph n _ => some (.event n)
  | .call p _ _ | .execute p | .reply p _ | .fail p => some p
  | _ => none

/-- A poller's move: no result comes in, nothing is cancelled or deleted, nothing fails. -/
def Move.polling : Move → Bool
  | .evaluateTask _ _ | .findCompletedTasks _ _ | .call _ _ _ | .execute _ | .reply _ _ => true
  | _ => false

theorem TaskRecord.Evolves.trans {R R' R'' : TaskRecord} (h : R.Evolves R') (h' : R'.Evolves R'') :
    R.Evolves R'' where
  graphId := h'.graphId.trans h.graphId
  taskId := h'.taskId.trans h.taskId
  terminalOnStates := h'.terminalOnStates.trans h.terminalOnStates
  ignoreFailure := h'.ignoreFailure.trans h.ignoreFailure
  reachable hreach := h.reachable (h'.reachable hreach)
  evaluated hdone := h'.evaluated (h.evaluated hdone)

theorem TaskRecord.Evolves.completed {R R' : TaskRecord} (h : R.Evolves R') (hR : R.completed = true) :
    R'.completed = true := by
  simp only [TaskRecord.completed, Bool.or_eq_true, Bool.not_eq_true'] at hR ⊢
  rcases hR with hev | hreach
  · exact Or.inl (h.evaluated hev)
  · refine Or.inr (Bool.eq_false_iff.mpr fun hreach' => ?_)
    simp [h.reachable hreach'] at hreach

namespace Evaluation

/-- A poller's move with the store's answer to which tasks of a graph are unreachable. -/
def Polls (unreachable : Evaluation → GraphId → List TaskKey) (w : Evaluation) : Move → Evaluation → Prop
  | .call _ (.updateUnreachableTasks g) us, _ => us = unreachable w g
  | m, _ => m.polling = true

section

variable {C : Constants} {w w' : Evaluation} {m : Move} {g : GraphId} {b : BatchId} {i : Nat}

/-- A procedure of a poller's pass that is about to finish the graph, or has found it finished. -/
def Finishing (w : Evaluation) (g : GraphId) : Proc → Prop
  | .checkGraphSucceeded _ h => h = g ∧ w.checkGraphSucceeded g = true
  | .graphChecked _ h done => h = g ∧ done = true
  | .setGraphDone _ h => h = g
  | .graphDone _ _ _ | .ended false => w.active g = false
  | .ended true => True
  | _ => False

theorem Change.settled (hc : Change C w m w') (hknown : (w.graphs g).isSome = true)
    (h : w.checkGraphSucceeded g = true) : w'.checkGraphSucceeded g = true := by
  obtain ⟨G, hG⟩ := Option.isSome_iff_exists.mp hknown
  obtain ⟨G', hG'⟩ := Option.isSome_iff_exists.mp (hc.graphs_isSome hknown)
  have htasks : G'.tasks = G.tasks := by
    rcases hc.status hG' with ⟨G₀, hG₀, -, htasks⟩ | ⟨hnone, -⟩ | ⟨_, _, G₀, -, -, hG₀, -, -, htasks⟩
    · obtain rfl := Option.some.inj (hG.symm.trans hG₀)
      exact htasks
    · simp [hG] at hnone
    · obtain rfl := Option.some.inj (hG.symm.trans hG₀)
      exact htasks
  rw [checkGraphSucceeded_iff hG', htasks]
  intro t ht R' hR' hg hreach
  rcases hc.record hR' with ⟨R, hR, hev⟩ | ⟨hnone, -⟩
  · exact hev.evaluated ((checkGraphSucceeded_iff hG).mp h t ht R hR (hev.graphId ▸ hg) (hev.reachable hreach))
  · simp [hg, hG] at hnone

theorem Change.inactive (hc : Change C w m w') (hknown : (w.graphs g).isSome = true)
    (h : w.active g = false) : w'.active g = false := by
  by_contra hactive
  obtain ⟨G, G', hG, -, ha, -⟩ := hc.active hknown (by simpa using hactive)
  simp [Evaluation.active, hG, ha] at h

theorem Change.finishing {P : Proc} (hc : Change C w m w') (hknown : (w.graphs g).isSome = true)
    (h : w.Finishing g P) : w'.Finishing g P := by
  unfold Finishing at h ⊢
  split at h
  · exact ⟨h.1, hc.settled hknown h.2⟩
  · exact h
  · exact h
  · exact hc.inactive hknown h
  · exact hc.inactive hknown h
  · trivial
  · exact h

/-- A procedure is moved by its own steps only. -/
theorem Change.proc_eq {p : ProcId} (hc : Change C w m w') (hm : m.proc ≠ some p)
    (hp : ∀ b i, p = .batch b i → (w.batches b).isSome = true) : w'.procs p = w.procs p := by
  have hset : ∀ {v : Evaluation} {q : ProcId} {P : Proc}, v.procs = w.procs → some q ≠ some p →
      (v.setProc q P).procs p = w.procs p := by
    intro v q P hv hq
    have hne : p ≠ q := fun heq => hq (congrArg some heq.symm)
    simp [setProc, hne, hv]
  cases hc with
  | createGraph | deleteTasks => rfl
  | @finishTask t state => exact congrFun (perform_performed [] (.setTaskState t state)).procs _
  | @findCompletedTasks c ts hnone =>
    cases p with
    | event n => rfl
    | batch b i =>
      have hcb : b ≠ c := by
        rintro rfl
        simpa [hnone] using hp b i rfl
      simp [startBatch, hcb]
  | call => exact hset (perform_performed _ _).procs hm
  | stray => exact congrFun (perform_performed _ _).procs _
  | @marked q data => exact hset (perform_performed [] (.markTaskEvaluated data.taskId)).procs hm
  | evaluateTask | cancelGraph | unmarked | checked | graphRead | graphInactive | graphSet | graphKept | moved
  | published => exact hset rfl hm
  | @failed q P => exact hset (v := w) rfl hm

theorem perform_batches (w : Evaluation) (us : List TaskKey) (c : StoreCall) :
    (w.perform us c).batches = w.batches := by
  have hbatches : ∀ {v : Evaluation}, Performed w us c v → v.batches = w.batches := by
    intro v hv
    cases hv <;> rfl
  exact hbatches (perform_performed us c)

theorem Change.batches (hc : Change C w m w') (hb : (w.batches b).isSome = true) :
    (w'.batches b).isSome = true := by
  have hset : ∀ (c : BatchId) (B : Batch), (Function.update w.batches c (some B) b).isSome = true := by
    intro c B
    by_cases hcb : b = c
    · simp [hcb]
    · rwa [Function.update_of_ne hcb]
  have hkept : ∀ us c, ((w.perform us c).batches b).isSome = true := by
    intro us c
    rwa [perform_batches]
  cases hc with
  | findCompletedTasks | deleteTasks => exact hset _ _
  | @finishTask t state => exact hkept [] (.setTaskState t state)
  | call | stray => exact hkept _ _
  | @marked p data => exact hkept [] (.markTaskEvaluated data.taskId)
  | createGraph | evaluateTask | cancelGraph | unmarked | checked | graphRead | graphInactive | graphSet
  | graphKept | moved | published | failed => exact hb

/-- The graph that a pass looks at is complete, or the outcome it looks at is a failure. -/
structure Passing (w : Evaluation) (g : GraphId) (b : BatchId) (i : Nat) : Prop where
  known : (w.graphs g).isSome = true
  begun : (w.batches b).isSome = true
  proc : ∃ P, w.procs (.batch b i) = some P ∧ w.Finishing g P

theorem Finishing.calls {P : Proc} (h : w.Finishing g P) : P.calls = [] := by
  unfold Finishing at h
  split at h <;> first | rfl | exact h.elim

theorem procs_setProc_self (w : Evaluation) (p : ProcId) (P : Proc) : (w.setProc p P).procs p = some P :=
  Function.update_self ..

theorem finishing_execute {p : ProcId} {P : Proc} (hP : w.procs p = some P) (h : w.Finishing g P)
    (hknown : (w.graphs g).isSome = true) (hstep : step C w (.execute p) = some w') :
    ∃ P', w'.procs p = some P' ∧ w'.Finishing g P' := by
  have hc := step_change hstep
  cases hc with
  | marked hQ | unmarked hQ | graphRead hQ | graphInactive hQ =>
    obtain rfl := Option.some.inj (hP.symm.trans hQ)
    exact h.elim
  | checked hQ =>
    obtain rfl := Option.some.inj (hP.symm.trans hQ)
    obtain ⟨rfl, hdone⟩ := h
    exact ⟨_, procs_setProc_self .., rfl, hdone⟩
  | @graphSet _ ending _ G hQ hG hactive =>
    obtain rfl := Option.some.inj (hP.symm.trans hQ)
    obtain rfl := h
    refine ⟨_, procs_setProc_self .., ?_⟩
    have hfinal := graphState_final ending
    simp [Finishing, Evaluation.active, setGraph, setProc, note, Graph.active, hfinal.1, hfinal.2]
  | graphKept hQ hactive =>
    obtain rfl := Option.some.inj (hP.symm.trans hQ)
    obtain rfl := h
    exact ⟨_, procs_setProc_self .., hactive⟩

theorem finishing_reply {p : ProcId} {P : Proc} {accepted : Bool} (hP : w.procs p = some P) (h : w.Finishing g P)
    (hstep : step C w (.reply p accepted) = some w') : ∃ P', w'.procs p = some P' ∧ w'.Finishing g P' := by
  rw [step, hP, Option.bind_some] at hstep
  cases P with
  | graphChecked path k done =>
    obtain ⟨rfl, rfl⟩ := h
    obtain rfl := Option.some.inj hstep
    exact ⟨_, procs_setProc_self .., rfl⟩
  | graphDone ending k changed =>
    cases changed with
    | true | false =>
      obtain rfl := Option.some.inj hstep
      exact ⟨_, procs_setProc_self .., h⟩
  | checkGraphSucceeded | setGraphDone | ended => simp [reply] at hstep
  | updateTaskDependencies | markTaskEvaluated | handleEvaluatedTask | getActiveGraphById
  | handleFailGraphTasks =>
    exact h.elim

theorem finishing_step {P : Proc} (hP : w.procs (.batch b i) = some P) (h : w.Finishing g P)
    (hm : m.proc = some (.batch b i)) (hknown : (w.graphs g).isSome = true) (hstep : step C w m = some w') :
    ∃ P', w'.procs (.batch b i) = some P' ∧ w'.Finishing g P' := by
  cases m with
  | call q c us =>
    obtain rfl := Option.some.inj hm
    simp [step, hP, h.calls] at hstep
  | execute q =>
    obtain rfl := Option.some.inj hm
    exact finishing_execute hP h hknown hstep
  | reply q accepted =>
    obtain rfl := Option.some.inj hm
    exact finishing_reply hP h hstep
  | fail q =>
    obtain rfl := Option.some.inj hm
    have hc := step_change hstep
    cases hc with
    | failed => exact ⟨_, procs_setProc_self .., trivial⟩
  | createGraph | finishTask | evaluateTask | cancelGraph | findCompletedTasks | deleteTasks | stray => cases hm

theorem Passing.step (h : w.Passing g b i) (hstep : step C w m = some w') : w'.Passing g b i := by
  have hc := step_change hstep
  refine ⟨hc.graphs_isSome h.known, hc.batches h.begun, ?_⟩
  obtain ⟨P, hP, hfinishing⟩ := h.proc
  by_cases hm : m.proc = some (.batch b i)
  · exact finishing_step hP hfinishing hm h.known hstep
  · have hbegun : ∀ c j, ProcId.batch b i = .batch c j → (w.batches c).isSome = true := by
      intro c j heq
      exact (ProcId.batch.inj heq).1 ▸ h.begun
    exact ⟨P, hc.proc_eq hm hbegun ▸ hP, hc.finishing h.known hfinishing⟩

theorem owned_start : start.Owned := by simp [Owned, start]

theorem mem_found {ts : List TaskKey} {R : TaskRecord} : R ∈ w.found ts ↔ ∃ t ∈ ts, w.records t = some R :=
  List.mem_filterMap

theorem checkGraphSucceeded_of_completed {G : Graph} (hG : w.graphs g = some G)
    (h : ∀ t R, w.records t = some R → R.graphId = g → R.completed = true) : w.checkGraphSucceeded g = true := by
  refine (checkGraphSucceeded_iff hG).mpr fun t _ R hR hg hreach => ?_
  simpa [TaskRecord.completed, hreach] using h t R hR hg

theorem Owned.passing {ts : List TaskKey} {R : TaskRecord} (h : w.Owned)
    (hR : (Batch.mk (w.found ts) false).terminalTasks[i]? = some R)
    (hdone :
      R.state ∈ C.failedStates ∨ ∀ t Q, w.records t = some Q → Q.graphId = R.graphId → Q.completed = true) :
    (w.startBatch C b ⟨w.found ts, false⟩).Passing R.graphId b i := by
  obtain ⟨t, -, ht⟩ := mem_found.mp (List.mem_filter.mp (List.mem_of_getElem? hR)).1
  obtain ⟨G, hG, -⟩ := h t R ht
  refine ⟨Option.isSome_of_eq_some hG, by simp [startBatch], R.handlePotentialFinishedGraph C, ?_, ?_⟩
  · simp [startBatch, hR]
  · unfold TaskData.handlePotentialFinishedGraph
    split_ifs with hfailed
    · rfl
    · exact ⟨rfl, checkGraphSucceeded_of_completed hG (hdone.resolve_left hfailed)⟩

theorem setProc_setProc (w : Evaluation) (p : ProcId) (P Q : Proc) :
    (w.setProc p P).setProc p Q = w.setProc p Q := by
  simp [setProc]

theorem perform_setProc (w : Evaluation) (p : ProcId) (P : Proc) (us : List TaskKey) (c : StoreCall) :
    (w.setProc p P).perform us c = (w.perform us c).setProc p P := by
  cases c with
  | setTaskState t state =>
    simp only [perform, setTaskState, setProc]
    split <;> rfl
  | markTaskEvaluated t =>
    simp only [perform, markTaskEvaluated, setProc]
    split <;> rfl
  | setTaskStateInGraph h t state =>
    simp only [perform, setTaskStateInGraph, setProc]
    split <;> rfl
  | publishCancelTask | updateDependentTasks | updateUnreachableTasks => rfl

/-- Tasks have been evaluated or found unreachable, and no more. -/
structure Evaluates (w w' : Evaluation) : Prop where
  record : ∀ {t R'}, w'.records t = some R' → ∃ R, w.records t = some R ∧ R.Evolves R' ∧ R'.state = R.state
  known : ∀ {t}, (w.records t).isSome = true → (w'.records t).isSome = true
  status : ∀ g, w'.status g = w.status g
  batches : w'.batches = w.batches

theorem Evaluates.refl (w : Evaluation) : w.Evaluates w :=
  ⟨fun {_ R} hR => ⟨R, hR, .refl R, rfl⟩, id, fun _ => rfl, rfl⟩

theorem Evaluates.trans {v : Evaluation} (h : w.Evaluates v) (h' : v.Evaluates w') : w.Evaluates w' := by
  refine ⟨fun {t R''} hR'' => ?_, fun hk => h'.known (h.known hk), fun g => (h'.status g).trans (h.status g),
    h'.batches.trans h.batches⟩
  obtain ⟨R', hR', hev', hstate'⟩ := h'.record hR''
  obtain ⟨R, hR, hev, hstate⟩ := h.record hR'
  exact ⟨R, hR, hev.trans hev', hstate'.trans hstate⟩

theorem Evaluates.setProc (h : w.Evaluates w') (p : ProcId) (P : Proc) : w.Evaluates (w'.setProc p P) :=
  ⟨h.record, h.known, h.status, h.batches⟩

theorem Performed.state {us : List TaskKey} {c : StoreCall} {v : Evaluation} (h : Performed w us c v)
    (hc : ∀ t state, c ≠ .setTaskState t state) {t : TaskKey} {R' : TaskRecord} (hR' : v.records t = some R') :
    ∃ R, w.records t = some R ∧ R.Evolves R' ∧ R'.state = R.state := by
  cases h with
  | nothing | publishCancelTask | setTaskStateInGraph => exact ⟨R', hR', .refl R', rfl⟩
  | setTaskState => exact absurd rfl (hc _ _)
  | @markTaskEvaluated u R hR =>
    by_cases ht : t = u
    · subst ht
      obtain rfl : { R with evaluated := true } = R' := by simpa [note, Evaluation.setRecord] using hR'
      exact ⟨R, hR, ⟨rfl, rfl, rfl, rfl, id, fun _ => rfl⟩, rfl⟩
    · exact ⟨R', by simpa [note, Evaluation.setRecord, ht] using hR', .refl R', rfl⟩
  | updateUnreachableTasks =>
    obtain ⟨R, hR, heq⟩ := Option.map_eq_some_iff.mp hR'
    refine ⟨R, hR, ?_⟩
    split_ifs at heq <;> subst heq
    · exact ⟨⟨rfl, rfl, rfl, rfl, fun h => absurd h Bool.false_ne_true, id⟩, rfl⟩
    · exact ⟨.refl R, rfl⟩

theorem Performed.known {us : List TaskKey} {c : StoreCall} {v : Evaluation} (h : Performed w us c v)
    {t : TaskKey} (ht : (w.records t).isSome = true) : (v.records t).isSome = true := by
  have hset : ∀ u R, ((w.setRecord u R).records t).isSome = true := by
    intro u R
    by_cases hu : t = u
    · simp [Evaluation.setRecord, hu]
    · simpa [Evaluation.setRecord, hu] using ht
  cases h with
  | nothing | publishCancelTask | setTaskStateInGraph => exact ht
  | setTaskState | markTaskEvaluated => exact hset _ _
  | updateUnreachableTasks => simpa [Evaluation.updateUnreachableTasks] using ht

theorem evaluates_perform (w : Evaluation) (us : List TaskKey) {c : StoreCall}
    (hc : ∀ t state, c ≠ .setTaskState t state) : w.Evaluates (w.perform us c) where
  record hR' := (perform_performed us c).state hc hR'
  known ht := (perform_performed us c).known ht
  status g := (perform_performed us c).status_eq g
  batches := perform_batches w us c

section Poll

variable {unreachable : Evaluation → GraphId → List TaskKey} {data : TaskData} {p : ProcId}

theorem leads_call (us : List TaskKey) {c : StoreCall} {cs : List StoreCall}
    (hus : ∀ h, c = .updateUnreachableTasks h →
      us = unreachable (w.setProc p (.updateTaskDependencies data (c :: cs))) h) :
    Lts.Leads (step C) (Polls unreachable) (w.setProc p (.updateTaskDependencies data (c :: cs)))
      ((w.perform us c).setProc p (.updateTaskDependencies data cs)) := by
  have hstep : step C (w.setProc p (.updateTaskDependencies data (c :: cs))) (.call p c us) =
      some ((w.perform us c).setProc p (.updateTaskDependencies data cs)) := by
    simp [step, procs_setProc_self, Proc.calls, Proc.called, perform_setProc, setProc_setProc]
  refine .single hstep ?_
  cases c with
  | updateUnreachableTasks h => exact hus h rfl
  | setTaskState | markTaskEvaluated | publishCancelTask | setTaskStateInGraph | updateDependentTasks => rfl

theorem leads_dependencyCalls (unreachable : Evaluation → GraphId → List TaskKey) (w : Evaluation) (p : ProcId)
    (data : TaskData) : ∃ v, w.Evaluates v ∧ Lts.Leads (step C) (Polls unreachable)
      (w.setProc p (.updateTaskDependencies data data.dependencyCalls))
      (v.setProc p (.updateTaskDependencies data [])) := by
  let v := w.setTaskStateInGraph data.graphId data.taskId data.state
  let us :=
    unreachable (v.setProc p (.updateTaskDependencies data [.updateUnreachableTasks data.graphId])) data.graphId
  have hstate : w.Evaluates v := evaluates_perform w [] (c := .setTaskStateInGraph ..) nofun
  have hreach : v.Evaluates (v.updateUnreachableTasks data.graphId us) :=
    evaluates_perform v us (c := .updateUnreachableTasks data.graphId) nofun
  have hfirst : Lts.Leads (step C) (Polls unreachable)
      (w.setProc p (.updateTaskDependencies data data.dependencyCalls))
      (v.setProc p (.updateTaskDependencies data [.updateDependentTasks data.taskId,
        .updateUnreachableTasks data.graphId])) :=
    leads_call [] nofun
  have hsecond : Lts.Leads (step C) (Polls unreachable)
      (v.setProc p (.updateTaskDependencies data [.updateDependentTasks data.taskId,
        .updateUnreachableTasks data.graphId]))
      (v.setProc p (.updateTaskDependencies data [.updateUnreachableTasks data.graphId])) :=
    leads_call [] nofun
  refine ⟨v.updateUnreachableTasks data.graphId us, hstate.trans hreach, hfirst.trans (hsecond.trans ?_)⟩
  exact leads_call us fun h heq => by rw [← StoreCall.updateUnreachableTasks.inj heq]

theorem leads_mark {R : TaskRecord} (hR : w.records data.taskId = some R) :
    Lts.Leads (step C) (Polls unreachable) (w.setProc p (.updateTaskDependencies data []))
      ((w.perform [] (.markTaskEvaluated data.taskId)).setProc p (.handleEvaluatedTask R.toTaskData)) := by
  have hreply : step C (w.setProc p (.updateTaskDependencies data [])) (.reply p true) =
      some (w.setProc p (.markTaskEvaluated data)) := by
    simp [step, procs_setProc_self, reply, setProc_setProc]
  have hread : (w.setProc p (.markTaskEvaluated data)).records data.taskId = some R := hR
  have hmark : (w.setProc p (.markTaskEvaluated data)).markTaskEvaluated data.taskId =
      (w.markTaskEvaluated data.taskId).setProc p (.markTaskEvaluated data) :=
    perform_setProc w p _ [] (.markTaskEvaluated data.taskId)
  have hexecute : step C (w.setProc p (.markTaskEvaluated data)) (.execute p) =
      some ((w.perform [] (.markTaskEvaluated data.taskId)).setProc p (.handleEvaluatedTask R.toTaskData)) := by
    simp only [step, procs_setProc_self, Option.bind_some, execute, hread, hmark, setProc_setProc]
    rfl
  exact .head hreply rfl (.single hexecute rfl)

theorem evaluated_perform {t : TaskKey} {R' : TaskRecord}
    (h : (w.perform [] (.markTaskEvaluated t)).records t = some R') : R'.evaluated = true := by
  cases hR : w.records t with
  | none => simp [perform, Evaluation.markTaskEvaluated, hR] at h
  | some R =>
    obtain rfl : { R with evaluated := true } = R' := by
      simpa [perform, Evaluation.markTaskEvaluated, hR, note, Evaluation.setRecord] using h
    rfl

/-- A poll of the unevaluated tasks takes up an outcome: all calls but the check are made. -/
theorem leads_evaluateTask (unreachable : Evaluation → GraphId → List TaskKey) {n : Nat}
    (hfree : w.procs (.event n) = none) (hmem : .recorded data ∈ w.log)
    (hR : (w.records data.taskId).isSome = true) :
    ∃ w', Lts.Leads (step C) (Polls unreachable) w w' ∧ w.Evaluates w' ∧
      ∀ R, w'.records data.taskId = some R → R.evaluated = true := by
  have hbegin : step C w (.evaluateTask n data) =
      some (w.setProc (.event n) (.updateTaskDependencies data data.dependencyCalls)) := by
    simp [step, hfree, hmem]
  obtain ⟨v, hev, hcalls⟩ := leads_dependencyCalls (C := C) unreachable w (.event n) data
  obtain ⟨R, hRv⟩ := Option.isSome_iff_exists.mp (hev.known hR)
  have hmark : v.Evaluates (v.perform [] (.markTaskEvaluated data.taskId)) := evaluates_perform v [] (by simp)
  exact ⟨_, .head hbegin rfl (hcalls.trans (leads_mark hRv)), (hev.trans hmark).setProc _ _,
    fun Q hQ => evaluated_perform hQ⟩

end Poll

/-- What a poll relies on in a reachable state. -/
structure Evaluable (C : Constants) (w : Evaluation) : Prop where
  grounded : Grounded C w
  owned : w.Owned
  named : ∀ t R, w.records t = some R → R.taskId = t
  events : ∃ n, ∀ k, n ≤ k → w.procs (.event k) = none

theorem evaluable_start (C : Constants) : Evaluable C start :=
  ⟨grounded_start C, owned_start, by simp [start], 0, fun _ _ => rfl⟩

theorem Evaluable.change (h : Evaluable C w) (hc : Change C w m w') : Evaluable C w' := by
  refine ⟨h.grounded.change hc, hc.owned h.owned, fun t R' hR' => ?_, ?_⟩
  · rcases hc.record hR' with ⟨R, hR, hev⟩ | ⟨-, htask, -⟩
    · rw [hev.taskId, h.named t R hR]
    · exact htask
  · obtain ⟨n, hn⟩ := h.events
    have hfree : ∃ n, ∀ k, n ≤ k → m.proc ≠ some (.event k) := by
      cases hm : m.proc with
      | none => exact ⟨0, nofun⟩
      | some p =>
        cases p with
        | event j =>
          refine ⟨j + 1, fun k hk heq => ?_⟩
          obtain rfl := ProcId.event.inj (Option.some.inj heq)
          omega
        | batch => exact ⟨0, nofun⟩
    obtain ⟨j, hj⟩ := hfree
    refine ⟨max n j, fun k hk => ?_⟩
    have hle := Nat.max_le.mp hk
    rw [hc.proc_eq (hj k hle.2) nofun]
    exact hn k hle.1

theorem Evaluable.step (h : Evaluable C w) (hstep : step C w m = some w') : Evaluable C w' :=
  h.change (step_change hstep)

/-- Every task of a graph is finished, or will not be run. -/
def Ran (w : Evaluation) (g : GraphId) : Prop :=
  ∀ t R, w.records t = some R → R.graphId = g → R.reachable = true → R.state.finished = true

theorem leads_evaluated (unreachable : Evaluation → GraphId → List TaskKey) (h : Evaluable C w)
    (ts : List TaskKey) :
    ∃ w', Lts.Leads (step C) (Polls unreachable) w w' ∧ w.Evaluates w' ∧
      ∀ t ∈ ts, ∀ R, w'.records t = some R → R.state.finished = true → R.completed = true := by
  induction ts with
  | nil => exact ⟨w, .refl w, .refl w, nofun⟩
  | cons t ts ih =>
    obtain ⟨v, hv, hev, hdone⟩ := ih
    by_cases ht : ∀ R, v.records t = some R → R.state.finished = true → R.completed = true
    · exact ⟨v, hv, hev, List.forall_mem_cons.mpr ⟨ht, hdone⟩⟩
    simp only [not_forall] at ht
    obtain ⟨R, hR, hfinished, -⟩ := ht
    have hevaluable : Evaluable C v := hv.invariant (Evaluable C) (fun _ _ _ hs h => h.step hs) h
    obtain ⟨n, hn⟩ := hevaluable.events
    obtain rfl := hevaluable.named t R hR
    -- an outcome has been recorded
    have hrecorded : .recorded R.toTaskData ∈ v.log := by
      refine (hevaluable.grounded.records hR).resolve_left fun hpending => ?_
      rw [hpending] at hfinished
      exact Bool.false_ne_true hfinished
    have hknown : (v.records R.taskId).isSome = true := Option.isSome_of_eq_some hR
    obtain ⟨w', hw', hev', hnew⟩ :=
      leads_evaluateTask (C := C) unreachable (hn n (Nat.le_refl n)) hrecorded hknown
    refine ⟨w', hv.trans hw', hev.trans hev',
      List.forall_mem_cons.mpr ⟨fun P hP _ => ?_, fun u hu P hP hfin => ?_⟩⟩
    · simp [TaskRecord.completed, hnew P hP]
    · obtain ⟨Q, hQ, hQP, hstate⟩ := hev'.record hP
      exact hQP.completed (hdone u hu Q hQ (hstate ▸ hfin))

/-- Once every task of a graph that will run has finished, what has finished of it is all of it. -/
theorem Ran.completed {R : TaskRecord} {t : TaskKey} (hran : w.Ran g) (hev : w.Evaluates w')
    (hR : w'.records t = some R) (hg : R.graphId = g) (hdone : R.state.finished = true → R.completed = true) :
    R.completed = true := by
  obtain ⟨Q, hQ, hQR, hstate⟩ := hev.record hR
  by_cases hreach : R.reachable = true
  · exact hdone (hstate ▸ hran t Q hQ (hQR.graphId ▸ hg) (hQR.reachable hreach))
  · simp [TaskRecord.completed, hreach]

/-- What a finished pass has done: the graph has ended as it says, and that has been told. -/
def Ended (w : Evaluation) (g : GraphId) (state : TaskState) : Prop :=
  w.status g = some state ∧ .published g state ∈ w.log

section Pass

variable {unreachable : Evaluation → GraphId → List TaskKey} {p : ProcId}

theorem exists_of_active (h : w.active g = true) : ∃ G, w.graphs g = some G ∧ G.active = true := by
  cases hG : w.graphs g with
  | none => simp [Evaluation.active, hG] at h
  | some G => exact ⟨G, rfl, by simpa [Evaluation.active, hG] using h⟩

theorem leads_setGraphDone {ending : Ending} (hP : w.procs p = some (.setGraphDone ending g))
    (hactive : w.active g = true) :
    ∃ w', Lts.Leads (step C) (Polls unreachable) w w' ∧ w'.Ended g ending.graphState := by
  obtain ⟨G, hG, ha⟩ := exists_of_active hactive
  let v := ((w.setGraph g { G with status := ending.graphState }).note
    (.graphDone g ending.graphState)).setProc p (.graphDone ending g true)
  have hexecute : step C w (.execute p) = some v := by
    simp [step, hP, execute, hG, ha, v]
  have hreply : step C v (.reply p true) =
      some ((v.note (.published g ending.graphState)).setProc p (.ended false)) := by
    simp [step, v, procs_setProc_self, reply]
  refine ⟨_, .head hexecute rfl (.single hreply rfl), ?_, ?_⟩
  · simp [status, setProc, note, setGraph, v]
  · simp [setProc, note]

theorem leads_check {path : Path} (hP : w.procs p = some (.checkGraphSucceeded path g))
    (hdone : w.checkGraphSucceeded g = true) :
    Lts.Leads (step C) (Polls unreachable) w (w.setProc p (.setGraphDone (.succeeded path) g)) := by
  have hexecute : step C w (.execute p) = some (w.setProc p (.graphChecked path g true)) := by
    simp [step, hP, execute, hdone]
  have hreply : step C (w.setProc p (.graphChecked path g true)) (.reply p true) =
      some (w.setProc p (.setGraphDone (.succeeded path) g)) := by
    simp [step, procs_setProc_self, reply, setProc_setProc]
  exact .head hexecute rfl (.single hreply rfl)

/-- The verdict of a pass over a completed task. -/
def verdictOf (C : Constants) (R : TaskRecord) : TaskState :=
  if R.state ∈ C.failedStates then .failed else .succeeded

theorem leads_pass {R : TaskRecord} (hP : w.procs p = some (R.handlePotentialFinishedGraph C))
    (hactive : w.active R.graphId = true) (hdone : w.checkGraphSucceeded R.graphId = true) :
    ∃ w', Lts.Leads (step C) (Polls unreachable) w w' ∧ w'.Ended R.graphId (verdictOf C R) := by
  unfold TaskData.handlePotentialFinishedGraph at hP
  unfold verdictOf
  split_ifs at hP ⊢ with hfailed
  · exact leads_setGraphDone hP hactive
  · have hset := procs_setProc_self w p (.setGraphDone (.succeeded .poller) R.graphId)
    obtain ⟨w', hw', hended⟩ := leads_setGraphDone (C := C) hset hactive
    exact ⟨w', (leads_check hP hdone).trans hw', hended⟩

theorem leads_findCompletedTasks {ts : List TaskKey} {t : TaskKey} {R : TaskRecord} (h : w.Owned)
    (hfree : w.batches b = none) (hcompleted : ∀ Q ∈ w.found ts, Q.completed = true) (ht : t ∈ ts)
    (hR : w.records t = some R) (hterminal : R.state ∈ R.terminalOnStates) (hactive : w.active R.graphId = true)
    (hdone : ∀ u Q, w.records u = some Q → Q.graphId = R.graphId → Q.completed = true) :
    ∃ v w', step C w (.findCompletedTasks b ts) = some v ∧ Lts.Leads (step C) (Polls unreachable) v w' ∧
      w'.Ended R.graphId (verdictOf C R) := by
  have hmem : R ∈ (Batch.mk (w.found ts) false).terminalTasks :=
    List.mem_filter.mpr ⟨mem_found.mpr ⟨t, ht, hR⟩, by simpa using hterminal⟩
  obtain ⟨i, hi⟩ := List.getElem?_of_mem hmem
  obtain ⟨G, hG, -⟩ := h t R hR
  let v := w.startBatch C b ⟨w.found ts, false⟩
  have hstep : step C w (.findCompletedTasks b ts) = some v := by
    simp only [step, hfree, Option.isNone_none, true_and]
    exact if_pos hcompleted
  have hP : v.procs (.batch b i) = some (R.handlePotentialFinishedGraph C) := by
    simp [v, startBatch, hi]
  obtain ⟨w', hw', hended⟩ := leads_pass hP hactive (checkGraphSucceeded_of_completed (w := v) hG hdone)
  exact ⟨v, w', hstep, hw', hended⟩

end Pass

end

end Evaluation

section

open Evaluation

/-- A pass of the completed task poller over a failed task, or over a task of a graph whose
tasks are all completed, leaves the graph finished, whatever else is done meanwhile. -/
theorem poll_finishes_graph (C : Constants) (ms ns : List Move) (w w' : Evaluation) (b : BatchId)
    (ts : List TaskKey) (i : Nat) (R : TaskRecord)
    (hw : Lts.exec (Evaluation.step C) Evaluation.start ms = some w)
    (hR : (Batch.mk (w.found ts) false).terminalTasks[i]? = some R)
    (hdone : R.state ∈ C.failedStates ∨ ∀ t Q, w.records t = some Q → Q.graphId = R.graphId → Q.completed = true)
    (hw' : Lts.exec (Evaluation.step C) w (.findCompletedTasks b ts :: ns) = some w')
    (hended : w'.procs (.batch b i) = some (.ended false)) : w'.active R.graphId = false := by
  have howned : w.Owned := Lts.invariant Owned (fun _ _ _ h hs => (step_change h).owned hs) owned_start hw
  obtain ⟨v, hv, hrest⟩ := Option.bind_eq_some_iff.mp hw'
  have hpassing : v.Passing R.graphId b i := by
    cases step_change hv with
    | findCompletedTasks => exact howned.passing hR hdone
  obtain ⟨P, hP, hfinishing⟩ :=
    (Lts.invariant (Passing · R.graphId b i) (fun _ _ _ h hs => hs.step h) hpassing hrest).proc
  obtain rfl := Option.some.inj (hended.symm.trans hP)
  exact hfinishing

/-- A task has failed and been evaluated, and the scheduler that evaluated it has died. -/
def failedRun : List Move :=
  [.createGraph 0 [⟨1, [.failed], false⟩, ⟨2, [.succeeded], false⟩], .finishTask 1 .failed,
    .evaluateTask 0 ⟨0, 1, .failed, [.failed], false⟩, .call (.event 0) (.setTaskStateInGraph 0 1 .failed) [],
    .call (.event 0) (.updateDependentTasks 1) [], .call (.event 0) (.updateUnreachableTasks 0) [],
    .reply (.event 0) true, .execute (.event 0), .fail (.event 0)]

/-- While the pass goes on, the graph is cancelled and the other task succeeds. -/
theorem poll_finishes_graph_failed :
    ∃ w w', Lts.exec (Evaluation.step .sample) Evaluation.start failedRun = some w ∧
    Lts.exec (Evaluation.step .sample) w [.findCompletedTasks 0 [1], .cancelGraph 1 0, .finishTask 2 .succeeded,
      .execute (.event 1), .execute (.batch 0 0), .reply (.batch 0 0) true] = some w' ∧ w'.active 0 = false := by
  have hfound : ∃ w w', Lts.exec (Evaluation.step .sample) Evaluation.start failedRun = some w ∧
      (Batch.mk (w.found [1]) false).terminalTasks[0]? = some ⟨⟨0, 1, .failed, [.failed], false⟩, true, true⟩ ∧
      Lts.exec (Evaluation.step .sample) w [.findCompletedTasks 0 [1], .cancelGraph 1 0, .finishTask 2 .succeeded,
        .execute (.event 1), .execute (.batch 0 0), .reply (.batch 0 0) true] = some w' ∧
      w'.procs (.batch 0 0) = some (.ended false) := ⟨_, _, rfl, rfl, rfl, rfl⟩
  obtain ⟨w, w', hw, hR, hw', hended⟩ := hfound
  exact ⟨w, w', hw, hw', poll_finishes_graph .sample _ _ w w' 0 [1] 0 _ hw hR (Or.inl (by decide)) hw' hended⟩

/-- From every reachable state, however the store answers, the pollers alone can evaluate what
has finished of an active graph; if that is all of it, every poll that finds a terminal task
of it can then end it. -/
theorem finished_graph_ends (C : Constants) (unreachable : Evaluation → GraphId → List TaskKey) (ms : List Move)
    (w : Evaluation) (g : GraphId) (hw : Lts.exec (Evaluation.step C) Evaluation.start ms = some w)
    (hactive : w.active g = true) :
    ∃ v, Lts.Leads (Evaluation.step C) (Polls unreachable) w v ∧ w.Evaluates v ∧
      (∀ t R, v.records t = some R → R.graphId = g → R.state.finished = true → R.completed = true) ∧
      (w.Ran g → (∀ t R, v.records t = some R → R.graphId = g → R.completed = true) ∧
        ∀ b ts t R, v.batches b = none → (∀ Q ∈ v.found ts, Q.completed = true) → t ∈ ts →
          v.records t = some R → R.graphId = g → R.state ∈ R.terminalOnStates →
          ∃ u w', Evaluation.step C v (.findCompletedTasks b ts) = some u ∧
            Lts.Leads (Evaluation.step C) (Polls unreachable) u w' ∧ w'.Ended g (verdictOf C R)) := by
  have hevaluable : Evaluable C w :=
    Lts.invariant (Evaluable C) (fun _ _ _ hs h => h.step hs) (evaluable_start C) hw
  obtain ⟨G, hG, -⟩ := exists_of_active hactive
  obtain ⟨v, hv, hev, hdone⟩ := leads_evaluated unreachable hevaluable G.tasks
  have hevaluated :
      ∀ t R, v.records t = some R → R.graphId = g → R.state.finished = true → R.completed = true := by
    intro t R hR hg
    obtain ⟨Q, hQ, hQR, -⟩ := hev.record hR
    obtain ⟨G₀, hG₀, ht⟩ := hevaluable.owned t Q hQ
    rw [← hQR.graphId, hg] at hG₀
    obtain rfl := Option.some.inj (hG.symm.trans hG₀)
    exact hdone t ht R hR
  refine ⟨v, hv, hev, hevaluated, fun hran => ?_⟩
  have hcompleted : ∀ t R, v.records t = some R → R.graphId = g → R.completed = true :=
    fun t R hR hg => hran.completed hev hR hg (hevaluated t R hR hg)
  refine ⟨hcompleted, fun b ts t R hfree hfound ht hR hg hterminal => ?_⟩
  subst hg
  have hstill : v.active R.graphId = true := by rwa [active_congr (hev.status R.graphId)]
  have howned : v.Owned := (hv.invariant (Evaluable C) (fun _ _ _ hs h => h.step hs) hevaluable).owned
  exact leads_findCompletedTasks howned hfree hfound ht hR hterminal hstill hcompleted

/-- The only scheduler has died before it evaluated the outcome. -/
def unevaluatedRun : List Move :=
  [.createGraph 0 [⟨1, [.succeeded], false⟩], .finishTask 1 .succeeded,
    .evaluateTask 0 ⟨0, 1, .succeeded, [.succeeded], false⟩, .fail (.event 0)]

theorem finished_graph_ends_unevaluated : ∃ w v u w',
    Lts.exec (Evaluation.step .sample) Evaluation.start unevaluatedRun = some w ∧
      Lts.Leads (Evaluation.step .sample) (Polls fun _ _ => []) w v ∧
      Evaluation.step .sample v (.findCompletedTasks 0 [1]) = some u ∧
      Lts.Leads (Evaluation.step .sample) (Polls fun _ _ => []) u w' ∧ w'.Ended 0 .succeeded := by
  have hfound : ∃ w, Lts.exec (Evaluation.step .sample) Evaluation.start unevaluatedRun = some w ∧
      w.active 0 = true ∧ w.batches 0 = none ∧
      w.records 1 = some ⟨⟨0, 1, .succeeded, [.succeeded], false⟩, false, true⟩ ∧
      ∀ t, t ≠ 1 → w.records t = none := by
    refine ⟨_, rfl, rfl, rfl, rfl, fun t ht => ?_⟩
    have hne : ¬ 1 = t := fun h => ht h.symm
    simp [Evaluation.setProc, Evaluation.setTaskState, Evaluation.setRecord, Evaluation.createGraph, note,
      Evaluation.start, ht, hne]
  obtain ⟨w, hw, hactive, hbatches, hone, hother⟩ := hfound
  have hall : ∀ t R, w.records t = some R → t = 1 ∧ R.state = .succeeded := by
    intro t R hR
    by_cases ht : t = 1
    · subst ht
      exact ⟨rfl, by rw [← Option.some.inj (hone.symm.trans hR)]⟩
    · simp [hother t ht] at hR
  have hran : w.Ran 0 := fun t R hR _ _ => by rw [(hall t R hR).2]; rfl
  obtain ⟨v, hv, hev, -, hends⟩ := finished_graph_ends .sample (fun _ _ => []) _ w 0 hw hactive
  obtain ⟨hdone, hends⟩ := hends hran
  obtain ⟨R, hR⟩ := Option.isSome_iff_exists.mp (hev.known (Option.isSome_of_eq_some hone))
  obtain ⟨Q, hQ, hQR, hstate⟩ := hev.record hR
  obtain rfl := Option.some.inj (hone.symm.trans hQ)
  have hfound : ∀ P ∈ v.found [1], P.completed = true := by
    intro P hP
    obtain ⟨t, ht, hPv⟩ := mem_found.mp hP
    obtain rfl := List.mem_singleton.mp ht
    obtain rfl := Option.some.inj (hR.symm.trans hPv)
    exact hdone 1 R hR hQR.graphId
  have hterminal : R.state ∈ R.terminalOnStates := by
    rw [hstate, hQR.terminalOnStates]
    decide
  obtain ⟨u, w', hu, hw', hended⟩ :=
    hends 0 [1] 1 R (hev.batches ▸ hbatches) hfound List.mem_cons_self hR hQR.graphId hterminal
  have hverdict : verdictOf .sample R = .succeeded := by
    rw [verdictOf, hstate]
    decide
  exact ⟨w, v, u, w', hw, hv, hu, hw', hverdict ▸ hended⟩

end

end OnTaskGraph
