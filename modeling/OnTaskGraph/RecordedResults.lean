import OnTaskGraph.EvaluationChanges
import OnTaskGraph.Lts

/-! What `failGraph` does to the results that runners record. It writes back the
states of a snapshot of the graph, so it keeps a result only if the graph document
has it when it is read, and no other result comes in before the write. -/

namespace OnTaskGraph

def Move.reads (w : Evaluation) : Move → Option (FailReason × Graph)
  | .execute p =>
    match w.procs p with
    | some (.getActiveGraphById reason g) => ((w.graphs g).filter Graph.active).map (reason, ·)
    | _ => none
  | _ => none

def Move.finishes : Move → Bool
  | .finishTask _ _ => true
  | _ => false

/-- The finished state that a runner has recorded last for a task. -/
abbrev Results := TaskKey → Option TaskState

def Results.watch (_ : Evaluation) (m : Move) (_ : Evaluation) (results : Results) : Results :=
  match m with
  | .finishTask t state => Function.update results t (if state.finished then some state else none)
  | .createGraph _ tasks => fun t =>
    if t ∈ tasks.map TaskDefinition.taskId then none else results t
  | _ => results

theorem Proc.calls_called {P : Proc} {c d : StoreCall} (h : d ∈ (P.called c).calls) : d ∈ P.calls := by
  cases P <;> simp_all [Proc.called, Proc.calls]
  all_goals exact List.mem_of_mem_erase h

theorem Moved.setTaskState_mem {C : Constants} {P P' : Proc} {t : TaskKey} {s : TaskState}
    (h : Moved C P P') :
    .setTaskState t s ∉ P'.calls := by
  cases h with
  | dependencies | succeeded | lastRound | ended => simp [Proc.calls]
  | terminal =>
    unfold TaskData.checkGraphFinished
    split <;> simp [Proc.calls]
  | @nextRound reason g round next tasks hnext =>
    cases round <;> simp_all [FailRound.next, Proc.calls] <;> subst hnext <;> simp [FailRound.calls]

namespace Evaluation

def Outstanding (w : Evaluation) (c : StoreCall) : Prop :=
  (∃ p P, w.procs p = some P ∧ c ∈ P.calls) ∨ c ∈ w.strays

def KeepsResults (v : Evaluation × Results) : Prop :=
  ∀ t r R, v.2 t = some r → v.1.records t = some R → R.state = r

/-- A graph document that `failGraph` reads has the results that were recorded. -/
def ReadsResults (v : Evaluation × Results) (m : Move) : Prop :=
  ∀ x ∈ m.reads v.1, ∀ t ∈ x.2.tasks, ∀ r ∈ v.2 t,
    x.2.taskState t = r ∨ (x.2.taskState t = .pending ∧ x.1.graphState = r)

instance {v : Evaluation × Results} {m : Move} : Decidable (ReadsResults v m) :=
  inferInstanceAs (Decidable (∀ x ∈ m.reads v.1, _))

/-- Besides, no result is recorded while a `failGraph` is still to write another state. -/
def UpToDate (v : Evaluation × Results) (m : Move) (_ : Evaluation × Results) : Prop :=
  ReadsResults v m ∧ ∀ t state s, m = .finishTask t state → state.finished = true →
    v.1.Outstanding (.setTaskState t s) → s = state

section

variable {C : Constants} {w w' : Evaluation} {m : Move} {t : TaskKey} {s : TaskState}

theorem outstanding_setProc {v : Evaluation} {p : ProcId} {P : Proc} {c : StoreCall}
    (hprocs : v.procs = w.procs) (hstrays : ∀ d ∈ v.strays, d ∈ w.strays)
    (h : (v.setProc p P).Outstanding c) : c ∈ P.calls ∨ w.Outstanding c := by
  rcases h with ⟨q, Q, hQ, hc⟩ | hc
  · rcases setProc_eq_some hprocs hQ with ⟨-, rfl⟩ | hold
    · exact Or.inl hc
    · exact Or.inr (Or.inl ⟨q, Q, hold, hc⟩)
  · exact Or.inr (Or.inr (hstrays c hc))

theorem Outstanding.of_eq {c : StoreCall} (h : w'.Outstanding c) (hprocs : w'.procs = w.procs)
    (hstrays : ∀ d ∈ w'.strays, d ∈ w.strays) : w.Outstanding c := by
  rcases h with ⟨p, P, hP, hc⟩ | hc
  · exact Or.inl ⟨p, P, hprocs ▸ hP, hc⟩
  · exact Or.inr (hstrays c hc)

/-- Only the reading of a graph brings new calls that set a task's state. -/
theorem Change.outstanding (hc : Change C w m w') (h : w'.Outstanding (.setTaskState t s)) :
    w.Outstanding (.setTaskState t s) ∨ ∃ x ∈ m.reads w, (t, s) ∈ failedTasks x.1 x.2 := by
  have hsame : ∀ d ∈ w.strays, d ∈ w.strays := fun _ hd => hd
  have hset : ∀ {v : Evaluation} {p P}, v.procs = w.procs → v.strays = w.strays →
      .setTaskState t s ∉ P.calls → (v.setProc p P).Outstanding (.setTaskState t s) →
      w.Outstanding (.setTaskState t s) ∨ ∃ x ∈ m.reads w, (t, s) ∈ failedTasks x.1 x.2 := by
    intro v p P hprocs hstrays hnot hout
    exact Or.inl ((outstanding_setProc hprocs (hstrays ▸ hsame) hout).resolve_left hnot)
  cases hc with
  | createGraph | deleteTasks => exact Or.inl (h.of_eq rfl hsame)
  | @finishTask u state =>
    have hp := perform_performed (w := w) [] (.setTaskState u state)
    exact Or.inl (h.of_eq hp.procs (hp.strays ▸ hsame))
  | @findCompletedTasks b ts hb hcompleted =>
    rcases h with ⟨q, Q, hQ, hmem⟩ | hmem
    · rcases Change.procs (C := C) (.findCompletedTasks hb hcompleted) hQ with hold | harises
      · exact Or.inl (Or.inl ⟨q, Q, hold, hmem⟩)
      · cases harises with
        | @polled _ _ _ R =>
          unfold TaskData.handlePotentialFinishedGraph at hmem
          split at hmem <;> simp [Proc.calls] at hmem
        | ended => simp [Proc.calls] at hmem
    · exact Or.inl (Or.inr hmem)
  | evaluateTask => exact hset rfl rfl (by simp [Proc.calls, TaskData.dependencyCalls]) h
  | @call p P c us hP hc =>
    have hp := perform_performed (w := w) us c
    rcases outstanding_setProc hp.procs (hp.strays ▸ hsame) h with hnew | hold
    · exact Or.inl (Or.inl ⟨p, P, hP, Proc.calls_called hnew⟩)
    · exact Or.inl hold
  | @stray c us hc =>
    have hp := perform_performed (w := w) us c
    exact Or.inl (h.of_eq hp.procs fun _ hd => List.mem_of_mem_erase hd)
  | @marked p data R hP =>
    have hp := perform_performed (w := w) [] (.markTaskEvaluated data.taskId)
    exact hset hp.procs hp.strays (by simp [Proc.calls]) h
  | @graphRead p reason g G hP hG hactive =>
    rcases outstanding_setProc rfl hsame h with hnew | hold
    · right
      have hmem : (t, s) ∈ failedTasks reason G := by
        simpa [Proc.calls, FailRound.calls] using hnew
      exact ⟨(reason, G), by simp [Move.reads, hP, hG, hactive], hmem⟩
    · exact Or.inl hold
  | cancelGraph | unmarked | checked | graphInactive | graphSet | graphKept | published =>
    exact hset rfl rfl (by simp [Proc.calls]) h
  | moved hP hm => exact hset rfl rfl hm.setTaskState_mem h
  | @failed p P hP =>
    rcases h with ⟨q, Q, hQ, hmem⟩ | hmem
    · have hQ' : (w.setProc p (.ended true)).procs q = some Q := hQ
      have hout : (w.setProc p (.ended true)).Outstanding (.setTaskState t s) := Or.inl ⟨q, Q, hQ', hmem⟩
      exact hset rfl rfl (by simp [Proc.calls]) hout
    · rcases List.mem_append.mp hmem with hnew | hold
      · exact Or.inl (Or.inl ⟨p, P, hP, hnew⟩)
      · exact Or.inl (Or.inr hold)

theorem Performed.taskState {us : List TaskKey} {c : StoreCall} {v : Evaluation} {R' : TaskRecord}
    (h : Performed w us c v) (hR' : v.records t = some R') :
    (∃ R, w.records t = some R ∧ R'.state = R.state) ∨ c = .setTaskState t R'.state := by
  cases h with
  | nothing | publishCancelTask | setTaskStateInGraph => exact Or.inl ⟨R', hR', rfl⟩
  | @setTaskState u state R hR =>
    by_cases ht : t = u
    · subst ht
      obtain rfl : { R with state := state } = R' := by simpa [Evaluation.note, Evaluation.setRecord] using hR'
      exact Or.inr rfl
    · exact Or.inl ⟨R', by simpa [Evaluation.note, Evaluation.setRecord, ht] using hR', rfl⟩
  | @markTaskEvaluated u R hR =>
    by_cases ht : t = u
    · subst ht
      obtain rfl : { R with evaluated := true } = R' := by simpa [Evaluation.note, Evaluation.setRecord] using hR'
      exact Or.inl ⟨R, hR, rfl⟩
    · exact Or.inl ⟨R', by simpa [Evaluation.note, Evaluation.setRecord, ht] using hR', rfl⟩
  | updateUnreachableTasks =>
    obtain ⟨R, hR, hRR'⟩ := Option.map_eq_some_iff.mp hR'
    refine Or.inl ⟨R, hR, ?_⟩
    split_ifs at hRR' <;> rw [← hRR']

theorem Change.finished {u : TaskKey} {state : TaskState} {R' : TaskRecord}
    (hc : Change C w (.finishTask u state) w') (hR' : w'.records t = some R') :
    (t = u ∧ R'.state = state) ∨ (t ≠ u ∧ w.records t = some R') := by
  cases hc with
  | @finishTask _ _ R hR =>
    simp only [Evaluation.setTaskState, hR, note] at hR'
    by_cases ht : t = u
    · subst ht
      obtain rfl : { R with state := state } = R' := by simpa [setRecord] using hR'
      exact Or.inl ⟨rfl, rfl⟩
    · exact Or.inr ⟨ht, by simpa [setRecord, ht] using hR'⟩

/-- Besides runners, only a call that was outstanding sets the state of a task. -/
theorem Change.taskState {R' : TaskRecord} (hc : Change C w m w')
    (hm : ∀ u state, m ≠ .finishTask u state) (hR' : w'.records t = some R') :
    (∃ R, w.records t = some R ∧ R'.state = R.state) ∨ w.Outstanding (.setTaskState t R'.state) ∨
      ∃ g tasks, m = .createGraph g tasks ∧ t ∈ tasks.map TaskDefinition.taskId := by
  cases hc with
  | finishTask => exact absurd rfl (hm _ _)
  | @createGraph g tasks =>
    simp only [Evaluation.createGraph] at hR'
    split at hR'
    · rename_i d hd
      have htask : d.taskId = t := by simpa using List.find?_some hd
      have hmem : d ∈ tasks := List.mem_of_find?_eq_some hd
      exact Or.inr (Or.inr ⟨g, tasks, rfl, htask ▸ List.mem_map_of_mem hmem⟩)
    · exact Or.inl ⟨R', hR', rfl⟩
  | deleteTasks =>
    simp only [Evaluation.deleteTasks] at hR'
    split_ifs at hR'
    exact Or.inl ⟨R', hR', rfl⟩
  | @call p P c us hP hcall =>
    rcases (perform_performed us c).taskState hR' with hold | rfl
    · exact Or.inl hold
    · exact Or.inr (Or.inl (Or.inl ⟨p, P, hP, hcall⟩))
  | @stray c us hcall =>
    rcases (perform_performed us c).taskState hR' with hold | rfl
    · exact Or.inl hold
    · exact Or.inr (Or.inl (Or.inr hcall))
  | @marked p data =>
    have hmark := (perform_performed [] (.markTaskEvaluated data.taskId)).taskState hR'
    exact Or.inl (hmark.resolve_right (by simp))
  | evaluateTask | cancelGraph | findCompletedTasks | unmarked | checked | graphRead | graphInactive
  | graphSet | graphKept | moved | published | failed => exact Or.inl ⟨R', hR', rfl⟩

end

/-- The results are in the store, and what `failGraph` has still to write agrees
with them. -/
structure Kept (v : Evaluation × Results) : Prop where
  keeps : KeepsResults v
  finished : ∀ {t r}, v.2 t = some r → r.finished = true
  agreed : ∀ {t r s}, v.2 t = some r → v.1.Outstanding (.setTaskState t s) → s = r

theorem Results.watch_of_ne {w w' : Evaluation} {m : Move} {results : Results} {t : TaskKey}
    {r : TaskState} (hm : ∀ u state, m ≠ .finishTask u state)
    (h : Results.watch w m w' results t = some r) : results t = some r ∧
      ∀ g tasks, m = .createGraph g tasks → t ∉ tasks.map TaskDefinition.taskId := by
  cases m with
  | finishTask => exact absurd rfl (hm _ _)
  | createGraph g tasks =>
    simp only [Results.watch] at h
    split_ifs at h with ht
    exact ⟨h, fun g' tasks' he => (Move.createGraph.inj he).2 ▸ ht⟩
  | evaluateTask | cancelGraph | findCompletedTasks | deleteTasks | call | stray | execute | reply
  | fail => exact ⟨h, by simp⟩

theorem ReadsResults.written {v : Evaluation × Results} {m : Move} {reason : FailReason} {G : Graph}
    {t : TaskKey} {r s : TaskState} (h : ReadsResults v m) (hG : (reason, G) ∈ m.reads v.1)
    (hs : (t, s) ∈ failedTasks reason G) (hr : v.2 t = some r) (hfinished : r.finished = true) : s = r := by
  obtain ⟨u, hu, heq⟩ := List.mem_map.mp hs
  obtain ⟨rfl, rfl⟩ := Prod.mk.inj heq
  rcases h _ hG u hu r hr with hstate | ⟨hpending, hgraph⟩
  · have hne : G.taskState u ≠ .pending := by
      rintro hpending
      rw [← hstate, hpending] at hfinished
      simp [TaskState.finished] at hfinished
    rw [if_neg hne, hstate]
  · rw [if_pos hpending, hgraph]

theorem Kept.step {C : Constants} {v v' : Evaluation × Results} {m : Move} (h : Kept v)
    (hstep : Lts.monitor (Evaluation.step C) Results.watch v m = some v') (hok : UpToDate v m v') :
    Kept v' := by
  obtain ⟨hmove, hwatch⟩ := Lts.monitor_eq_some.mp hstep
  have hc := step_change hmove
  obtain ⟨hreads, hwrites⟩ := hok
  by_cases hm : ∃ u state, m = .finishTask u state
  · obtain ⟨u, state, rfl⟩ := hm
    have hresult : ∀ t r, v'.2 t = some r →
        (t = u ∧ state.finished = true ∧ r = state) ∨ (t ≠ u ∧ v.2 t = some r) := by
      intro t r hr
      rw [hwatch] at hr
      by_cases ht : t = u
      · subst ht
        have hif : (if state.finished then some state else none) = some r := by
          simpa [Results.watch] using hr
        split_ifs at hif with hfinished
        exact Or.inl ⟨rfl, hfinished, (Option.some.inj hif).symm⟩
      · exact Or.inr ⟨ht, by simpa [Results.watch, ht] using hr⟩
    have hread : Move.reads v.1 (.finishTask u state) = none := rfl
    constructor
    · intro t r R' hr hR'
      rcases hresult t r hr with ⟨rfl, -, rfl⟩ | ⟨ht, hold⟩
      · exact (hc.finished hR').elim (·.2) fun hne => absurd rfl hne.1
      · have hR := (hc.finished hR').resolve_left fun heq => ht heq.1
        exact h.keeps t r R' hold hR.2
    · intro t r hr
      rcases hresult t r hr with ⟨-, hfinished, rfl⟩ | ⟨-, hold⟩
      · exact hfinished
      · exact h.finished hold
    · intro t r s hr hout
      have hbefore := (hc.outstanding hout).resolve_right (by simp [hread])
      rcases hresult t r hr with ⟨rfl, hfinished, rfl⟩ | ⟨-, hold⟩
      · exact hwrites t r s rfl hfinished hbefore
      · exact h.agreed hold hbefore
  · have hne : ∀ u state, m ≠ .finishTask u state := fun u state he => hm ⟨u, state, he⟩
    constructor
    · intro t r R' hr hR'
      obtain ⟨hold, hnew⟩ := Results.watch_of_ne hne (hwatch ▸ hr)
      rcases hc.taskState hne hR' with ⟨R, hR, hstate⟩ | hout | ⟨g, tasks, he, ht⟩
      · exact hstate.trans (h.keeps t r R hold hR)
      · exact h.agreed hold hout
      · exact absurd ht (hnew g tasks he)
    · exact fun hr => h.finished (Results.watch_of_ne hne (hwatch ▸ hr)).1
    · intro t r s hr hout
      have hold := (Results.watch_of_ne hne (hwatch ▸ hr)).1
      rcases hc.outstanding hout with hbefore | ⟨⟨reason, G⟩, hread, hmem⟩
      · exact h.agreed hold hbefore
      · exact hreads.written hread hmem hold (h.finished hold)

theorem kept_start : Kept (start, fun _ => none) := by
  constructor <;> simp [KeepsResults]

end Evaluation

open Evaluation

/-- In every run in which `failGraph` reads graphs that are up to date, no result
that a runner has recorded is replaced. -/
theorem failGraph_keeps_results (C : Constants) (ms : List Move) (v : Evaluation × Results)
    (hok : Lts.Along (Lts.monitor (Evaluation.step C) Results.watch) UpToDate
      (Evaluation.start, fun _ => none) ms)
    (h : Lts.exec (Lts.monitor (Evaluation.step C) Results.watch) (Evaluation.start, fun _ => none) ms =
      some v) : KeepsResults v :=
  (hok.invariant Kept (fun _ _ _ hstep hc hk => hk.step hstep hc) kept_start h).keeps

def cancelledAfter : List Move :=
  [.createGraph 0 [⟨1, [], false⟩, ⟨2, [.succeeded], false⟩], .finishTask 1 .succeeded,
    .evaluateTask 0 ⟨0, 1, .succeeded, [], false⟩, .call (.event 0) (.setTaskStateInGraph 0 1 .succeeded) [],
    .cancelGraph 1 0, .execute (.event 1), .call (.event 1) (.setTaskState 1 .succeeded) [],
    .call (.event 1) (.setTaskState 2 .cancelled) []]

theorem failGraph_keeps_results_cancelled : ∃ v,
    Lts.exec (Lts.monitor (Evaluation.step .sample) Results.watch) (Evaluation.start, fun _ => none)
      cancelledAfter = some v ∧ v.2 1 = some .succeeded ∧ KeepsResults v := by
  refine ⟨_, rfl, rfl, failGraph_keeps_results .sample cancelledAfter _ ?_ rfl⟩
  have hothers : ∀ v m v', ReadsResults v m ∧ m.finishes = false → UpToDate v m v' := by
    rintro v m v' ⟨hread, hm⟩
    exact ⟨hread, fun t state s heq => by simp [heq, Move.finishes] at hm⟩
  refine (Lts.along_cons_of_some rfl).mpr ⟨hothers _ _ _ (by decide), ?_⟩
  refine (Lts.along_cons_of_some rfl).mpr ⟨⟨by decide, ?_⟩, ?_⟩
  · rintro t state s - - (⟨p, P, hP, -⟩ | hstray)
    · cases hP
    · cases hstray
  · refine Lts.Along.mono (P := fun v m _ => ReadsResults v m ∧ m.finishes = false) ?_
      fun v m v' _ => hothers v m v'
    decide

/-- Task 1 has succeeded when its graph is cancelled, but the graph document has it
as pending still. -/
theorem failGraph_replaces_result : ∃ v,
    Lts.exec (Lts.monitor (Evaluation.step .sample) Results.watch) (Evaluation.start, fun _ => none)
      [.createGraph 0 [⟨1, [.succeeded], false⟩], .finishTask 1 .succeeded, .cancelGraph 0 0,
        .execute (.event 0), .call (.event 0) (.setTaskState 1 .cancelled) []] = some v ∧
      ¬ KeepsResults v := by
  refine ⟨_, rfl, fun h => ?_⟩
  have hstate := h 1 .succeeded _ rfl rfl
  exact absurd hstate (by decide)

end OnTaskGraph
