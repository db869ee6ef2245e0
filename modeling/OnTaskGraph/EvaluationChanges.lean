import OnTaskGraph.Evaluation

/-! What one move can do to the evaluation of graphs, in terms of the calls of
the store and of the procedures' moves. -/

namespace OnTaskGraph

inductive Moved (C : Constants) : Proc → Proc → Prop
  | dependencies {data} : Moved C (.updateTaskDependencies data []) (.markTaskEvaluated data)
  | terminal {data} : data.state ∈ data.terminalOnStates →
      Moved C (.handleEvaluatedTask data) (data.checkGraphFinished C)
  | succeeded {path g} : Moved C (.graphChecked path g true) (.setGraphDone (.succeeded path) g)
  | nextRound {reason g round next tasks} : FailRound.next round = some next →
      Moved C (.handleFailGraphTasks reason g round tasks [])
        (.handleFailGraphTasks reason g next tasks (next.calls g tasks))
  | lastRound {reason g round tasks} : FailRound.next round = none →
      Moved C (.handleFailGraphTasks reason g round tasks []) (.setGraphDone (.failGraph reason) g)
  | ended {P} : Moved C P (.ended false)

structure TaskRecord.Evolves (R R' : TaskRecord) : Prop where
  graphId : R'.graphId = R.graphId
  taskId : R'.taskId = R.taskId
  terminalOnStates : R'.terminalOnStates = R.terminalOnStates
  ignoreFailure : R'.ignoreFailure = R.ignoreFailure
  reachable : R'.reachable = true → R.reachable = true
  evaluated : R.evaluated = true → R'.evaluated = true

theorem TaskRecord.Evolves.refl (R : TaskRecord) : R.Evolves R := ⟨rfl, rfl, rfl, rfl, id, id⟩

def Move.marks (w : Evaluation) : Move → Option TaskKey
  | .call _ (.markTaskEvaluated t) _ | .stray (.markTaskEvaluated t) _ => some t
  | .execute p =>
    match w.procs p with
    | some (.markTaskEvaluated data) => some data.taskId
    | _ => none
  | _ => none

namespace Evaluation

inductive Change (C : Constants) (w : Evaluation) : Move → Evaluation → Prop
  | createGraph {g tasks} : w.graphs g = none → (tasks.map TaskDefinition.taskId).Nodup →
      (∀ d ∈ tasks, w.records d.taskId = none) → Change C w (.createGraph g tasks) (w.createGraph g tasks)
  | finishTask {t state R} : w.records t = some R →
      Change C w (.finishTask t state) (w.setTaskState t state)
  | evaluateTask {n data} : w.procs (.event n) = none → .recorded data ∈ w.log →
      Change C w (.evaluateTask n data)
        (w.setProc (.event n) (.updateTaskDependencies data data.dependencyCalls))
  | cancelGraph {n g} : w.procs (.event n) = none →
      Change C w (.cancelGraph n g) (w.setProc (.event n) (.getActiveGraphById .cancelGraph g))
  | findCompletedTasks {b ts} : w.batches b = none → (∀ R ∈ w.found ts, R.completed = true) →
      Change C w (.findCompletedTasks b ts) (w.startBatch C b ⟨w.found ts, false⟩)
  | deleteTasks {b B} : w.batches b = some B → B.deleted = false → w.batchEnded b B = true →
      Change C w (.deleteTasks b) (w.deleteTasks b B)
  | call {p P c us} : w.procs p = some P → c ∈ P.calls →
      Change C w (.call p c us) ((w.perform us c).setProc p (P.called c))
  | stray {c us} : c ∈ w.strays →
      Change C w (.stray c us) { w.perform us c with strays := w.strays.erase c }
  | marked {p data R} : w.procs p = some (.markTaskEvaluated data) → w.records data.taskId = some R →
      Change C w (.execute p)
        ((w.markTaskEvaluated data.taskId).setProc p (.handleEvaluatedTask R.toTaskData))
  | unmarked {p data} : w.procs p = some (.markTaskEvaluated data) → w.records data.taskId = none →
      Change C w (.execute p) (w.setProc p (.ended false))
  | checked {p path g} : w.procs p = some (.checkGraphSucceeded path g) →
      Change C w (.execute p) (w.setProc p (.graphChecked path g (w.checkGraphSucceeded g)))
  | graphRead {p reason g G} : w.procs p = some (.getActiveGraphById reason g) → w.graphs g = some G →
      G.active = true → Change C w (.execute p) (w.setProc p (.handleFailGraphTasks reason g .setTaskState
        (failedTasks reason G) (FailRound.setTaskState.calls g (failedTasks reason G))))
  | graphInactive {p reason g} : w.procs p = some (.getActiveGraphById reason g) → w.active g = false →
      Change C w (.execute p) (w.setProc p (.ended false))
  | graphSet {p ending g G} : w.procs p = some (.setGraphDone ending g) → w.graphs g = some G →
      G.active = true → Change C w (.execute p)
        (((w.setGraph g { G with status := ending.graphState }).note
          (.graphDone g ending.graphState)).setProc p (.graphDone ending g true))
  | graphKept {p ending g} : w.procs p = some (.setGraphDone ending g) → w.active g = false →
      Change C w (.execute p) (w.setProc p (.graphDone ending g false))
  | moved {p P P' accepted} : w.procs p = some P → Moved C P P' →
      Change C w (.reply p accepted) (w.setProc p P')
  | published {p ending g accepted} : w.procs p = some (.graphDone ending g true) →
      Change C w (.reply p accepted) ((w.note (.published g ending.graphState)).setProc p (.ended false))
  | failed {p P} : w.procs p = some P →
      Change C w (.fail p) { w.setProc p (.ended true) with strays := P.calls ++ w.strays }

theorem reply_change {C : Constants} {w w' : Evaluation} {p : ProcId} {accepted : Bool} {P : Proc}
    (hP : w.procs p = some P) (h : w.reply C p accepted P = some w') :
    Change C w (.reply p accepted) w' := by
  cases P with
  | updateTaskDependencies data calls =>
    cases calls with
    | nil =>
      obtain rfl := Option.some.inj h
      exact .moved hP .dependencies
    | cons => simp [reply] at h
  | handleEvaluatedTask data =>
    simp only [reply] at h
    split_ifs at h with hterminal <;> obtain rfl := Option.some.inj h
    · exact .moved hP (.terminal hterminal.1)
    · exact .moved hP .ended
  | graphChecked path g done =>
    cases done with
    | true =>
      obtain rfl := Option.some.inj h
      exact .moved hP .succeeded
    | false =>
      obtain rfl := Option.some.inj h
      exact .moved hP .ended
  | handleFailGraphTasks reason g round tasks calls =>
    cases calls with
    | nil =>
      simp only [reply] at h
      split at h <;> obtain rfl := Option.some.inj h
      · exact .moved hP (.nextRound ‹_›)
      · exact .moved hP (.lastRound ‹_›)
    | cons => simp [reply] at h
  | graphDone ending g changed =>
    cases changed with
    | true =>
      obtain rfl := Option.some.inj h
      exact .published hP
    | false =>
      obtain rfl := Option.some.inj h
      exact .moved hP .ended
  | markTaskEvaluated | checkGraphSucceeded | getActiveGraphById | setGraphDone | ended =>
    simp [reply] at h

theorem step_change {C : Constants} {w w' : Evaluation} {m : Move} (h : step C w m = some w') :
    Change C w m w' := by
  cases m with
  | createGraph g tasks =>
    simp only [step] at h
    split_ifs at h with hg
    obtain rfl := Option.some.inj h
    simp only [Option.isNone_iff_eq_none] at hg
    exact .createGraph hg.1 hg.2.1 hg.2.2
  | finishTask t state =>
    simp only [step] at h
    split_ifs at h with ht
    obtain rfl := Option.some.inj h
    obtain ⟨R, hR⟩ := Option.isSome_iff_exists.mp ht
    exact .finishTask hR
  | evaluateTask n data =>
    simp only [step] at h
    split_ifs at h with hn
    obtain rfl := Option.some.inj h
    exact .evaluateTask (Option.isNone_iff_eq_none.mp hn.1) hn.2
  | cancelGraph n g =>
    simp only [step] at h
    split_ifs at h with hn
    obtain rfl := Option.some.inj h
    exact .cancelGraph (Option.isNone_iff_eq_none.mp hn)
  | findCompletedTasks b ts =>
    simp only [step] at h
    split_ifs at h with hb
    obtain rfl := Option.some.inj h
    exact .findCompletedTasks (Option.isNone_iff_eq_none.mp hb.1) hb.2
  | deleteTasks b =>
    simp only [step] at h
    split at h
    · split_ifs at h with hB
      obtain rfl := Option.some.inj h
      simp only [Bool.and_eq_true, Bool.not_eq_true'] at hB
      exact .deleteTasks ‹_› hB.1 hB.2
    · simp at h
  | call p c us =>
    simp only [step] at h
    split at h
    · split_ifs at h with hc
      obtain rfl := Option.some.inj h
      exact .call ‹_› hc
    · simp at h
  | stray c us =>
    simp only [step] at h
    split_ifs at h with hc
    obtain rfl := Option.some.inj h
    exact .stray hc
  | execute p =>
    obtain ⟨P, hP, h⟩ := Option.bind_eq_some_iff.mp h
    cases P with
    | markTaskEvaluated data =>
      simp only [execute] at h
      split at h <;> obtain rfl := Option.some.inj h
      · exact .unmarked hP ‹_›
      · exact .marked hP ‹_›
    | checkGraphSucceeded path g =>
      obtain rfl := Option.some.inj h
      exact .checked hP
    | getActiveGraphById reason g =>
      simp only [execute] at h
      split at h
      · obtain rfl := Option.some.inj h
        exact .graphInactive hP (by simp [active, *])
      · split_ifs at h with hG <;> obtain rfl := Option.some.inj h
        · exact .graphRead hP ‹_› hG
        · exact .graphInactive hP (by simp_all [active])
    | setGraphDone ending g =>
      simp only [execute] at h
      split at h
      · obtain rfl := Option.some.inj h
        exact .graphKept hP (by simp [active, *])
      · split_ifs at h with hG <;> obtain rfl := Option.some.inj h
        · exact .graphSet hP ‹_› hG
        · exact .graphKept hP (by simp_all [active])
    | updateTaskDependencies | handleEvaluatedTask | graphChecked | handleFailGraphTasks | graphDone
    | ended => simp [execute] at h
  | reply p accepted =>
    obtain ⟨P, hP, h⟩ := Option.bind_eq_some_iff.mp h
    exact reply_change hP h
  | fail p =>
    simp only [step] at h
    split at h
    · simp at h
    · obtain rfl := Option.some.inj h
      exact .failed ‹_›
    · simp at h

section

variable {C : Constants} {w w' : Evaluation} {m : Move}

/-- How a procedure comes to wait for what it waits for. -/
inductive Arises (C : Constants) (w : Evaluation) : Move → ProcId → Proc → Prop
  | evaluateTask {n data} : .recorded data ∈ w.log → Arises C w (.evaluateTask n data) (.event n)
      (.updateTaskDependencies data data.dependencyCalls)
  | cancelGraph {n g} : Arises C w (.cancelGraph n g) (.event n) (.getActiveGraphById .cancelGraph g)
  | polled {b ts i R t} : w.records t = some R → R.completed = true → R.state ∈ R.terminalOnStates →
      Arises C w (.findCompletedTasks b ts) (.batch b i) (R.handlePotentialFinishedGraph C)
  | called {p P c us} : w.procs p = some P → c ∈ P.calls → Arises C w (.call p c us) p (P.called c)
  | marked {p data R} : w.procs p = some (.markTaskEvaluated data) → w.records data.taskId = some R →
      Arises C w (.execute p) p (.handleEvaluatedTask R.toTaskData)
  | checked {p path g} : w.procs p = some (.checkGraphSucceeded path g) →
      Arises C w (.execute p) p (.graphChecked path g (w.checkGraphSucceeded g))
  | graphRead {p reason g G} : w.procs p = some (.getActiveGraphById reason g) → w.graphs g = some G →
      Arises C w (.execute p) p (.handleFailGraphTasks reason g .setTaskState
        (failedTasks reason G) (FailRound.setTaskState.calls g (failedTasks reason G)))
  | graphSet {p ending g} : w.procs p = some (.setGraphDone ending g) →
      Arises C w (.execute p) p (.graphDone ending g (w.active g))
  | moved {p P P' accepted} : w.procs p = some P → Moved C P P' → Arises C w (.reply p accepted) p P'
  | ended {m p failed} : Arises C w m p (.ended failed)

theorem setProc_eq_some {v : Evaluation} {p q : ProcId} {P Q : Proc} (hv : v.procs = w.procs)
    (h : (v.setProc p P).procs q = some Q) : (q = p ∧ P = Q) ∨ w.procs q = some Q := by
  by_cases hq : q = p
  · subst hq
    exact Or.inl ⟨rfl, by simpa [setProc] using h⟩
  · exact Or.inr (by simpa [setProc, hq, hv] using h)

theorem procs_setProc {v : Evaluation} {p q : ProcId} {P Q : Proc} (hv : v.procs = w.procs)
    (harises : Arises C w m p P) (h : (v.setProc p P).procs q = some Q) :
    w.procs q = some Q ∨ Arises C w m q Q := by
  rcases setProc_eq_some hv h with ⟨rfl, rfl⟩ | hold
  · exact Or.inr harises
  · exact Or.inl hold

inductive Performed (w : Evaluation) (us : List TaskKey) : StoreCall → Evaluation → Prop
  | nothing {c} : Performed w us c w
  | setTaskState {t state R} : w.records t = some R → Performed w us (.setTaskState t state)
      ((w.setRecord t { R with state := state }).note (.recorded { R.toTaskData with state := state }))
  | markTaskEvaluated {t R} : w.records t = some R → Performed w us (.markTaskEvaluated t)
      ((w.setRecord t { R with evaluated := true }).note (.evaluated R.toTaskData))
  | publishCancelTask {t} : Performed w us (.publishCancelTask t) (w.note (.cancelPublished t))
  | setTaskStateInGraph {g t state G} : w.graphs g = some G → Performed w us (.setTaskStateInGraph g t state)
      (w.setGraph g { G with taskState := Function.update G.taskState t state })
  | updateUnreachableTasks {g} : Performed w us (.updateUnreachableTasks g) (w.updateUnreachableTasks g us)

theorem perform_performed (us : List TaskKey) (c : StoreCall) : Performed w us c (w.perform us c) := by
  cases c with
  | setTaskState t state =>
    simp only [perform, Evaluation.setTaskState]
    split
    · exact .nothing
    · exact .setTaskState ‹_›
  | markTaskEvaluated t =>
    simp only [perform, Evaluation.markTaskEvaluated]
    split
    · exact .nothing
    · exact .markTaskEvaluated ‹_›
  | publishCancelTask t => exact .publishCancelTask
  | setTaskStateInGraph g t state =>
    simp only [perform, Evaluation.setTaskStateInGraph]
    split
    · exact .nothing
    · exact .setTaskStateInGraph ‹_›
  | updateDependentTasks t => exact .nothing
  | updateUnreachableTasks g => exact .updateUnreachableTasks

namespace Performed

variable {us : List TaskKey} {c : StoreCall} {v : Evaluation}

theorem procs (h : Performed w us c v) : v.procs = w.procs := by
  cases h <;> rfl

theorem strays (h : Performed w us c v) : v.strays = w.strays := by
  cases h <;> rfl

theorem log_subset (h : Performed w us c v) : w.log ⊆ v.log := by
  cases h with
  | nothing | setTaskStateInGraph | updateUnreachableTasks => exact List.Subset.refl _
  | setTaskState | markTaskEvaluated | publishCancelTask => exact List.subset_cons_self _ _

theorem graphs (h : Performed w us c v) (g : GraphId) :
    (w.graphs g = none ∧ v.graphs g = none) ∨ ∃ G G', w.graphs g = some G ∧ v.graphs g = some G' ∧
      G'.status = G.status ∧ G'.tasks = G.tasks := by
  have hsame : v.graphs g = w.graphs g → (w.graphs g = none ∧ v.graphs g = none) ∨
      ∃ G G', w.graphs g = some G ∧ v.graphs g = some G' ∧ G'.status = G.status ∧ G'.tasks = G.tasks := by
    intro heq
    rw [heq]
    cases hG : w.graphs g with
    | none => exact Or.inl ⟨rfl, rfl⟩
    | some G => exact Or.inr ⟨G, G, rfl, rfl, rfl, rfl⟩
  cases h with
  | nothing | setTaskState | markTaskEvaluated | publishCancelTask | updateUnreachableTasks => exact hsame rfl
  | @setTaskStateInGraph g₀ t state G hG =>
    by_cases hg : g = g₀
    · subst hg
      have hnew : (w.setGraph g { G with taskState := Function.update G.taskState t state }).graphs g =
          some { G with taskState := Function.update G.taskState t state } := by simp [setGraph]
      exact Or.inr ⟨G, _, hG, hnew, rfl, rfl⟩
    · exact hsame (by simp [setGraph, hg])

theorem setRecord {t u : TaskKey} {R R' Q' : TaskRecord} (hR : w.records t = some R)
    (hev : R.Evolves R') (h : (w.setRecord t R').records u = some Q') :
    ∃ Q, w.records u = some Q ∧ Q.Evolves Q' ∧ (Q'.toTaskData = Q.toTaskData ∨ (u = t ∧ Q' = R')) := by
  by_cases hu : u = t
  · subst hu
    obtain rfl : R' = Q' := by simpa [Evaluation.setRecord] using h
    exact ⟨R, hR, hev, Or.inr ⟨rfl, rfl⟩⟩
  · exact ⟨Q', by simpa [Evaluation.setRecord, hu] using h, .refl Q', Or.inl rfl⟩

theorem records (h : Performed w us c v) {u : TaskKey} {Q' : TaskRecord} (hQ' : v.records u = some Q') :
    ∃ Q, w.records u = some Q ∧ Q.Evolves Q' ∧
      (Q'.toTaskData = Q.toTaskData ∨ .recorded Q'.toTaskData ∈ v.log) := by
  cases h with
  | nothing | publishCancelTask | setTaskStateInGraph => exact ⟨Q', hQ', .refl Q', Or.inl rfl⟩
  | @setTaskState t state R hR =>
    have hset : R.Evolves { R with state := state } := ⟨rfl, rfl, rfl, rfl, id, id⟩
    obtain ⟨Q, hQ, hev, hdata⟩ := setRecord hR hset hQ'
    refine ⟨Q, hQ, hev, hdata.imp_right ?_⟩
    rintro ⟨-, rfl⟩
    exact List.mem_cons_self
  | @markTaskEvaluated t R hR =>
    have hset : R.Evolves { R with evaluated := true } := ⟨rfl, rfl, rfl, rfl, id, fun _ => rfl⟩
    obtain ⟨Q, hQ, hev, hdata⟩ := setRecord hR hset hQ'
    refine ⟨Q, hQ, hev, Or.inl (hdata.elim id ?_)⟩
    rintro ⟨rfl, rfl⟩
    obtain rfl := Option.some.inj (hR.symm.trans hQ)
    rfl
  | updateUnreachableTasks =>
    obtain ⟨Q, hQ, hQQ'⟩ := Option.map_eq_some_iff.mp hQ'
    refine ⟨Q, hQ, ?_⟩
    split_ifs at hQQ' <;> subst hQQ'
    · exact ⟨⟨rfl, rfl, rfl, rfl, fun h => by simp at h, id⟩, Or.inl rfl⟩
    · exact ⟨.refl Q, Or.inl rfl⟩

theorem evaluated (h : Performed w us c v) {data : TaskData} (hdata : .evaluated data ∈ v.log) :
    .evaluated data ∈ w.log ∨
      ∃ t R, c = .markTaskEvaluated t ∧ w.records t = some R ∧ data = R.toTaskData := by
  cases h with
  | nothing | setTaskStateInGraph | updateUnreachableTasks => exact Or.inl hdata
  | setTaskState | publishCancelTask => exact Or.inl (by simpa [note, Evaluation.setRecord] using hdata)
  | @markTaskEvaluated t R hR =>
    rcases List.mem_cons.mp hdata with heq | hold
    · exact Or.inr ⟨t, R, rfl, hR, Note.evaluated.inj heq⟩
    · exact Or.inl hold

end Performed

theorem Change.procs (hc : Change C w m w') {p : ProcId} {P : Proc} (hp : w'.procs p = some P) :
    w.procs p = some P ∨ Arises C w m p P := by
  cases hc with
  | createGraph | deleteTasks => exact Or.inl hp
  | @finishTask t state =>
    have hsame : (w.setTaskState t state).procs = w.procs :=
      (perform_performed [] (.setTaskState t state)).procs
    exact Or.inl (hsame ▸ hp)
  | evaluateTask _ hdata => exact procs_setProc rfl (.evaluateTask hdata) hp
  | cancelGraph => exact procs_setProc rfl .cancelGraph hp
  | @findCompletedTasks b ts _ hcompleted =>
    cases p with
    | event n => exact Or.inl hp
    | batch c i =>
      by_cases hcb : c = b
      · subst hcb
        simp only [startBatch, if_true, Option.map_eq_some_iff] at hp
        obtain ⟨R, hR, rfl⟩ := hp
        have hmem := List.mem_filter.mp (List.mem_of_getElem? hR)
        obtain ⟨t, -, ht⟩ := List.mem_filterMap.mp hmem.1
        exact Or.inr (.polled ht (hcompleted R hmem.1) (by simpa using hmem.2))
      · left
        simpa [startBatch, hcb] using hp
  | call hP hc => exact procs_setProc (perform_performed _ _).procs (.called hP hc) hp
  | stray => exact Or.inl ((perform_performed _ _).procs ▸ hp)
  | @marked q data R hP hR =>
    exact procs_setProc (perform_performed [] (.markTaskEvaluated data.taskId)).procs (.marked hP hR) hp
  | checked hP => exact procs_setProc rfl (.checked hP) hp
  | graphRead hP hG => exact procs_setProc rfl (.graphRead hP hG) hp
  | @graphSet q ending g G hP hG hactive =>
    have ha : w.active g = true := by simp [active, hG, hactive]
    exact procs_setProc rfl (ha ▸ Arises.graphSet hP) hp
  | graphKept hP hactive => exact procs_setProc rfl (hactive ▸ Arises.graphSet hP) hp
  | moved hP hm => exact procs_setProc rfl (.moved hP hm) hp
  | unmarked | graphInactive | published => exact procs_setProc rfl .ended hp
  | @failed q Q =>
    have hp' : (w.setProc q (.ended true)).procs p = some P := hp
    exact procs_setProc rfl .ended hp'

/-- What one move does to the store, and what it logs. -/
inductive Written (w : Evaluation) (m : Move) (w' : Evaluation) : Prop
  | nothing : w'.records = w.records → w'.graphs = w.graphs → w'.log = w.log → Written w m w'
  | published {g status} : w'.records = w.records → w'.graphs = w.graphs →
      w'.log = .published g status :: w.log → Written w m w'
  | createGraph {g tasks} : w.graphs g = none → w'.records = (w.createGraph g tasks).records →
      w'.graphs = (w.createGraph g tasks).graphs → w'.log = w.log → Written w m w'
  | deleteTasks {b B} : w'.records = (w.deleteTasks b B).records → w'.graphs = w.graphs →
      w'.log = w.log → Written w m w'
  | performed {us c v} : Performed w us c v → (∀ t, c = .markTaskEvaluated t → m.marks w = some t) →
      w'.records = v.records → w'.graphs = v.graphs → w'.log = v.log → Written w m w'
  | setGraphDone {p ending g G} : m = .execute p → w.procs p = some (.setGraphDone ending g) →
      w.graphs g = some G → G.active = true → w'.records = w.records →
      w'.graphs = (w.setGraph g { G with status := ending.graphState }).graphs →
      w'.log = .graphDone g ending.graphState :: w.log → Written w m w'

theorem Change.written (hc : Change C w m w') : Written w m w' := by
  cases hc with
  | createGraph hnone => exact .createGraph hnone rfl rfl rfl
  | deleteTasks => exact .deleteTasks rfl rfl rfl
  | @finishTask t state =>
    exact .performed (perform_performed [] (.setTaskState t state)) (by simp) rfl rfl rfl
  | call | stray =>
    exact .performed (perform_performed _ _) (by rintro t rfl; rfl) rfl rfl rfl
  | @marked p data R hP =>
    have hmarks : ∀ t, StoreCall.markTaskEvaluated data.taskId = .markTaskEvaluated t →
        (Move.execute p).marks w = some t := by
      intro t ht
      simp [Move.marks, hP, StoreCall.markTaskEvaluated.inj ht]
    exact .performed (perform_performed [] (.markTaskEvaluated data.taskId)) hmarks rfl rfl rfl
  | graphSet hP hG hactive => exact .setGraphDone rfl hP hG hactive rfl rfl rfl
  | published => exact .published rfl rfl rfl
  | evaluateTask | cancelGraph | findCompletedTasks | unmarked | checked | graphRead | graphInactive
  | graphKept | moved | failed => exact .nothing rfl rfl rfl

/-- A record is one that was there, or a pending task of a new graph. -/
theorem Change.record (hc : Change C w m w') {t : TaskKey} {R' : TaskRecord}
    (h : w'.records t = some R') :
    (∃ R, w.records t = some R ∧ R.Evolves R') ∨
      (w.graphs R'.graphId = none ∧ R'.taskId = t ∧ R'.state = .pending ∧
        ∃ G', w'.graphs R'.graphId = some G' ∧ t ∈ G'.tasks) := by
  cases hc.written with
  | nothing hrecords | published hrecords | setGraphDone _ _ _ _ hrecords =>
    exact Or.inl ⟨R', hrecords ▸ h, .refl R'⟩
  | @createGraph g tasks hnone hrecords hgraphs _ =>
    rw [hrecords] at h
    simp only [Evaluation.createGraph] at h
    split at h
    · rename_i d hd
      obtain rfl := Option.some.inj h
      have htask : d.taskId = t := by simpa using List.find?_some hd
      have hmem : t ∈ tasks.map TaskDefinition.taskId :=
        htask ▸ List.mem_map_of_mem (List.mem_of_find?_eq_some hd)
      refine Or.inr ⟨hnone, rfl, rfl, ⟨.pending, tasks.map TaskDefinition.taskId, fun _ => .pending⟩, ?_, hmem⟩
      simp [hgraphs, Evaluation.createGraph, setGraph]
    · exact Or.inl ⟨R', h, .refl R'⟩
  | deleteTasks hrecords =>
    rw [hrecords] at h
    simp only [Evaluation.deleteTasks] at h
    split_ifs at h
    exact Or.inl ⟨R', h, .refl R'⟩
  | performed hv _ hrecords =>
    obtain ⟨R, hR, hev, -⟩ := hv.records (hrecords ▸ h)
    exact Or.inl ⟨R, hR, hev⟩

theorem Change.evaluated_mem (hc : Change C w m w') {data : TaskData} (h : .evaluated data ∈ w'.log) :
    .evaluated data ∈ w.log ∨
      ∃ t R, m.marks w = some t ∧ w.records t = some R ∧ data = R.toTaskData := by
  cases hc.written with
  | nothing _ _ hlog | createGraph _ _ _ hlog | deleteTasks _ _ hlog => exact Or.inl (hlog ▸ h)
  | published _ _ hlog | setGraphDone _ _ _ _ _ _ hlog => exact Or.inl (by simpa [hlog] using h)
  | performed hv hmarks _ _ hlog =>
    rcases hv.evaluated (hlog ▸ h) with hold | ⟨t, R, rfl, hR, hdata⟩
    · exact Or.inl hold
    · exact Or.inr ⟨t, R, hmarks t rfl, hR, hdata⟩

/-- A status is written when a graph is created, or by `setGraphDone` on an active graph. -/
theorem Change.status (hc : Change C w m w') {g : GraphId} {G' : Graph} (hG' : w'.graphs g = some G') :
    (∃ G, w.graphs g = some G ∧ G'.status = G.status ∧ G'.tasks = G.tasks) ∨
    (w.graphs g = none ∧ G'.status = .pending) ∨
    ∃ p ending G, m = .execute p ∧ w.procs p = some (.setGraphDone ending g) ∧ w.graphs g = some G ∧
      G.active = true ∧ G'.status = ending.graphState ∧ G'.tasks = G.tasks := by
  cases hc.written with
  | nothing _ hgraphs | published _ hgraphs | deleteTasks _ hgraphs =>
    exact Or.inl ⟨G', hgraphs ▸ hG', rfl, rfl⟩
  | @createGraph g₀ tasks hnone _ hgraphs =>
    rw [hgraphs] at hG'
    by_cases hg : g = g₀
    · subst hg
      obtain rfl : _ = G' := by simpa [Evaluation.createGraph, setGraph] using hG'
      exact Or.inr (Or.inl ⟨hnone, rfl⟩)
    · exact Or.inl ⟨G', by simpa [Evaluation.createGraph, setGraph, hg] using hG', rfl, rfl⟩
  | performed hv _ _ hgraphs =>
    rcases hv.graphs g with ⟨-, hnone⟩ | ⟨G, G₁, hG, hG₁, hstatus, htasks⟩
    · simp [hgraphs, hnone] at hG'
    · obtain rfl := Option.some.inj (hG₁.symm.trans (hgraphs ▸ hG'))
      exact Or.inl ⟨G, hG, hstatus, htasks⟩
  | @setGraphDone p ending g₀ G hm hP hG hactive _ hgraphs =>
    rw [hgraphs] at hG'
    by_cases hg : g = g₀
    · subst hg
      obtain rfl : _ = G' := by simpa [setGraph] using hG'
      exact Or.inr (Or.inr ⟨p, ending, G, hm, hP, hG, hactive, rfl, rfl⟩)
    · exact Or.inl ⟨G', by simpa [setGraph, hg] using hG', rfl, rfl⟩

theorem Change.graphs_isSome (hc : Change C w m w') {g : GraphId} (h : (w.graphs g).isSome = true) :
    (w'.graphs g).isSome = true := by
  have hset : ∀ g₀ G, ((w.setGraph g₀ G).graphs g).isSome = true := by
    intro g₀ G
    by_cases hg : g = g₀
    · simp [setGraph, hg]
    · simpa [setGraph, hg] using h
  cases hc.written with
  | nothing _ hgraphs | published _ hgraphs | deleteTasks _ hgraphs => exact hgraphs ▸ h
  | createGraph _ _ hgraphs | setGraphDone _ _ _ _ _ hgraphs =>
    rw [hgraphs]
    exact hset _ _
  | performed hv _ _ hgraphs =>
    rw [hgraphs]
    rcases hv.graphs g with ⟨hnone, -⟩ | ⟨G, G₁, -, hG₁, -⟩
    · simp [hnone] at h
    · simp [hG₁]

theorem Change.log_subset (hc : Change C w m w') : w.log ⊆ w'.log := by
  cases hc.written with
  | nothing _ _ hlog | createGraph _ _ _ hlog | deleteTasks _ _ hlog =>
    rw [hlog]
    exact List.Subset.refl _
  | published _ _ hlog | setGraphDone _ _ _ _ _ _ hlog =>
    rw [hlog]
    exact List.subset_cons_self _ _
  | performed hv _ _ _ hlog =>
    rw [hlog]
    exact hv.log_subset

theorem Change.recorded (hc : Change C w m w') {u : TaskKey} {R' : TaskRecord}
    (h : w'.records u = some R') : (∃ R, w.records u = some R ∧ R'.toTaskData = R.toTaskData) ∨
      R'.state = .pending ∨ .recorded R'.toTaskData ∈ w'.log := by
  cases hc.written with
  | nothing hrecords | published hrecords | setGraphDone _ _ _ _ hrecords =>
    exact Or.inl ⟨R', hrecords ▸ h, rfl⟩
  | createGraph _ hrecords =>
    rw [hrecords] at h
    simp only [Evaluation.createGraph] at h
    split at h
    · exact Or.inr (Or.inl (by rw [← Option.some.inj h]))
    · exact Or.inl ⟨R', h, rfl⟩
  | deleteTasks hrecords =>
    rw [hrecords] at h
    simp only [Evaluation.deleteTasks] at h
    split_ifs at h
    exact Or.inl ⟨R', h, rfl⟩
  | performed hv _ hrecords _ hlog =>
    obtain ⟨R, hR, -, hdata | hnew⟩ := hv.records (hrecords ▸ h)
    · exact Or.inl ⟨R, hR, hdata⟩
    · exact Or.inr (Or.inr (hlog ▸ hnew))

end

end Evaluation

end OnTaskGraph
