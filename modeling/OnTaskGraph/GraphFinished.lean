import OnTaskGraph.EvaluationChanges
import OnTaskGraph.GraphSuccess

/-! Who changes the status of a graph, and who publishes that it has finished. A
procedure publishes only after its own `setGraphDone` has changed the status, which
can happen to a graph once. -/

namespace OnTaskGraph

/-- The changes of a graph's status and the events about them, each with the
procedure that it goes back to. -/
structure Finishes where
  changed : GraphId → List (ProcId × TaskState)
  published : GraphId → List (ProcId × TaskState)

namespace Evaluation

def emitted (w w' : Evaluation) : List Note := w'.log.take (w'.log.length - w.log.length)

theorem emitted_of_log {w w' : Evaluation} {xs : List Note} (h : w'.log = xs ++ w.log) :
    w.emitted w' = xs := by
  simp [emitted, h]

end Evaluation

namespace Finishes

def start : Finishes := ⟨fun _ => [], fun _ => []⟩

def addChanged (x : Finishes) (p : ProcId) (g : GraphId) (state : TaskState) : Finishes :=
  { x with changed := Function.update x.changed g ((p, state) :: x.changed g) }

def addPublished (x : Finishes) (p : ProcId) (g : GraphId) (state : TaskState) : Finishes :=
  { x with published := Function.update x.published g ((p, state) :: x.published g) }

def watch (w : Evaluation) (m : Move) (w' : Evaluation) (x : Finishes) : Finishes :=
  match m with
  | .execute p =>
    match w.procs p with
    | some (.setGraphDone _ g) =>
      match w'.status g with
      | some state => if w.status g = some state then x else x.addChanged p g state
      | none => x
    | _ => x
  | .reply p _ =>
    match w.emitted w' with
    | [.published g state] => x.addPublished p g state
    | _ => x
  | _ => x

end Finishes

namespace Evaluation

theorem graphState_final (ending : Ending) : ending.graphState ≠ .pending ∧ ending.graphState ≠ .running := by
  cases ending with
  | succeeded | polledFailure => simp [Ending.graphState]
  | failGraph reason => cases reason <;> simp [Ending.graphState, FailReason.graphState]

theorem active_iff {w : Evaluation} {g : GraphId} :
    w.active g = true ↔ w.status g = some .pending ∨ w.status g = some .running := by
  cases hG : w.graphs g with
  | none => simp [active, status, hG]
  | some G => simp [active, status, hG, Graph.active]

/-- What a move can mean for the ends of graphs. -/
inductive Finished (w w' : Evaluation) (x : Finishes) : Move → Finishes → Prop
  | changed {p ending g} : w.active g = true → w'.procs p = some (.graphDone ending g true) →
      (∀ q, q ≠ p → w'.procs q = w.procs q) → w'.status g = some ending.graphState →
      (∀ h, h ≠ g → w'.status h = w.status h) →
      Finished w w' x (.execute p) (x.addChanged p g ending.graphState)
  | published {p ending g accepted} : w.procs p = some (.graphDone ending g true) →
      w'.procs p = some (.ended false) → (∀ q, q ≠ p → w'.procs q = w.procs q) →
      (∀ h, w'.status h = w.status h) →
      Finished w w' x (.reply p accepted) (x.addPublished p g ending.graphState)
  | nothing {m} : (∀ h, w.status h ≠ none → w'.status h = w.status h) →
      (∀ p ending g, w'.procs p = some (.graphDone ending g true) →
        w.procs p = some (.graphDone ending g true)) → Finished w w' x m x

section

variable {C : Constants} {w w' : Evaluation} {m : Move} {x : Finishes}

theorem Performed.status_eq {us : List TaskKey} {c : StoreCall} {v : Evaluation}
    (h : Performed w us c v) (g : GraphId) : v.status g = w.status g := by
  rcases h.graphs g with ⟨hnone, hnone'⟩ | ⟨G, G', hG, hG', hstatus, -⟩
  · simp [status, hnone, hnone']
  · simp [status, hG, hG', hstatus]

theorem Change.finishes (hc : Change C w m w') : Finished w w' x m (Finishes.watch w m w' x) := by
  have hkept : ∀ {v : Evaluation} {p : ProcId} {P : Proc}, v.procs = w.procs →
      (∀ ending g, P ≠ .graphDone ending g true) → ∀ q ending g,
      (v.setProc p P).procs q = some (.graphDone ending g true) →
      w.procs q = some (.graphDone ending g true) := by
    intro v p P hprocs hP q ending g hq
    exact (setProc_eq_some hprocs hq).resolve_left fun hnew => hP ending g hnew.2
  cases hc with
  | @createGraph g tasks hnone =>
    refine .nothing (fun h hh => ?_) fun _ _ _ hq => hq
    have hne : h ≠ g := by
      rintro rfl
      simp [Evaluation.status, hnone] at hh
    simp [Evaluation.status, Evaluation.createGraph, setGraph, hne]
  | deleteTasks => exact .nothing (fun _ _ => rfl) fun _ _ _ hq => hq
  | @finishTask t state =>
    have hp := perform_performed (w := w) [] (.setTaskState t state)
    exact .nothing (fun h _ => hp.status_eq h) fun q ending g hq => hp.procs ▸ hq
  | evaluateTask | cancelGraph => exact .nothing (fun _ _ => rfl) (hkept rfl (by simp))
  | @findCompletedTasks b ts hb hcompleted =>
    refine .nothing (fun _ _ => rfl) fun q ending g hq => ?_
    rcases Change.procs (C := C) (.findCompletedTasks hb hcompleted) hq with hold | ha
    · exact hold
    · generalize hP : Proc.graphDone ending g true = P at ha
      cases ha with
      | @polled _ _ _ R =>
        unfold TaskData.handlePotentialFinishedGraph at hP
        split at hP <;> simp at hP
      | ended => simp at hP
  | @call p P c us hP hcall =>
    have hp := perform_performed (w := w) us c
    refine .nothing (fun h _ => hp.status_eq h) (hkept hp.procs fun ending g => ?_)
    cases P <;> simp_all [Proc.calls, Proc.called]
  | @stray c us =>
    have hp := perform_performed (w := w) us c
    exact .nothing (fun h _ => hp.status_eq h) fun q ending g hq => by simpa [hp.procs] using hq
  | @marked p data R hP =>
    have hp := perform_performed (w := w) [] (.markTaskEvaluated data.taskId)
    have hx : Finishes.watch w (.execute p)
        ((w.markTaskEvaluated data.taskId).setProc p (.handleEvaluatedTask R.toTaskData)) x = x := by
      simp [Finishes.watch, hP]
    rw [hx]
    exact .nothing (fun h _ => hp.status_eq h) (hkept hp.procs (by simp))
  | unmarked hP | checked hP | graphRead hP | graphInactive hP =>
    rw [show Finishes.watch w (.execute _) _ x = x by simp [Finishes.watch, hP]]
    exact .nothing (fun _ _ => rfl) (hkept rfl (by simp))
  | @graphSet p ending g G hP hG hactive =>
    have hwas : w.active g = true := by simp [Evaluation.active, hG, hactive]
    have hold : w.status g ≠ some ending.graphState := by
      have hfinal := graphState_final ending
      rcases active_iff.mp hwas with h | h <;> rw [h] <;> simp [Ne.symm hfinal.1, Ne.symm hfinal.2]
    set v := ((w.setGraph g { G with status := ending.graphState }).note
      (.graphDone g ending.graphState)).setProc p (.graphDone ending g true) with hv
    have hnew : v.status g = some ending.graphState := by
      simp [hv, Evaluation.status, setProc, note, setGraph]
    have hx : Finishes.watch w (.execute p) v x = x.addChanged p g ending.graphState := by
      simp [Finishes.watch, hP, hnew, hold]
    rw [hx]
    refine .changed hwas ?_ (fun q hq => ?_) hnew fun h hh => ?_
    · simp [hv, setProc]
    · simp [hv, setProc, note, setGraph, hq]
    · simp [hv, Evaluation.status, setProc, note, setGraph, hh]
  | @graphKept p ending g hP hactive =>
    have hx : Finishes.watch w (.execute p) (w.setProc p (.graphDone ending g false)) x = x := by
      have hsame : (w.setProc p (.graphDone ending g false)).status g = w.status g := rfl
      simp only [Finishes.watch, hP, hsame]
      cases w.status g <;> simp
    rw [hx]
    exact .nothing (fun _ _ => rfl) (hkept rfl (by simp))
  | @moved p P P' accepted hP hm =>
    have hx : Finishes.watch w (.reply p accepted) (w.setProc p P') x = x := by
      have hlog : w.emitted (w.setProc p P') = [] := emitted_of_log rfl
      simp [Finishes.watch, hlog]
    rw [hx]
    refine .nothing (fun _ _ => rfl) (hkept rfl fun ending g => ?_)
    cases hm with
    | @terminal data =>
      unfold TaskData.checkGraphFinished
      split <;> simp
    | dependencies | succeeded | nextRound | lastRound | ended => simp
  | @published p ending g accepted hP =>
    have hx : Finishes.watch w (.reply p accepted)
        ((w.note (.published g ending.graphState)).setProc p (.ended false)) x =
          x.addPublished p g ending.graphState := by
      have hlog : w.emitted ((w.note (.published g ending.graphState)).setProc p (.ended false)) =
        [.published g ending.graphState] := emitted_of_log rfl
      simp [Finishes.watch, hlog]
    rw [hx]
    exact .published hP (by simp [setProc]) (fun q hq => by simp [setProc, note, hq]) fun _ => rfl
  | @failed p P =>
    refine .nothing (fun _ _ => rfl) fun q ending g hq => ?_
    have hq' : (w.setProc p (.ended true)).procs q = some (.graphDone ending g true) := hq
    exact hkept rfl (by simp) q ending g hq'

end

/-- A graph's status changes once, and whoever changed it may publish that once. -/
structure FinishedOnce (v : Evaluation × Finishes) : Prop where
  changed : ∀ {g p state}, (p, state) ∈ v.2.changed g →
    v.2.changed g = [(p, state)] ∧ v.1.status g = some state ∧ v.1.active g = false
  publishing : ∀ {p ending g}, v.1.procs p = some (.graphDone ending g true) →
    (p, ending.graphState) ∈ v.2.changed g ∧ v.2.published g = []
  published : ∀ {g p state}, (p, state) ∈ v.2.published g →
    v.2.published g = [(p, state)] ∧ (p, state) ∈ v.2.changed g

theorem active_congr {w w' : Evaluation} {g : GraphId} (h : w'.status g = w.status g) :
    w'.active g = w.active g := by
  rw [Bool.eq_iff_iff, active_iff, active_iff, h]

section

variable {w w' : Evaluation} {x : Finishes} {p : ProcId} {ending : Ending} {g : GraphId}

theorem FinishedOnce.kept (h : FinishedOnce (w, x)) {state : TaskState} (hstatus : w'.status g = w.status g)
    (hmem : (p, state) ∈ x.changed g) :
    x.changed g = [(p, state)] ∧ w'.status g = some state ∧ w'.active g = false := by
  rw [active_congr hstatus, hstatus]
  exact h.changed hmem

theorem FinishedOnce.addChanged (h : FinishedOnce (w, x)) (hactive : w.active g = true)
    (hdone : w'.procs p = some (.graphDone ending g true)) (hothers : ∀ q, q ≠ p → w'.procs q = w.procs q)
    (hstatus : w'.status g = some ending.graphState) (hkeep : ∀ e, e ≠ g → w'.status e = w.status e) :
    FinishedOnce (w', x.addChanged p g ending.graphState) := by
  have hinactive : w'.active g = false := by
    have hfinal := graphState_final ending
    rw [Bool.eq_false_iff, Ne, active_iff, hstatus]
    simp [hfinal.1, hfinal.2]
  have hfree : x.changed g = [] := by
    refine List.eq_nil_iff_forall_not_mem.mpr fun y hy => ?_
    simp [(h.changed hy).2.2] at hactive
  have hunpublished : x.published g = [] := by
    refine List.eq_nil_iff_forall_not_mem.mpr fun y hy => ?_
    have hchanged := (h.published hy).2
    simp only [hfree, List.not_mem_nil] at hchanged
  refine ⟨fun {e q state} hq => ?_, fun {q end' e} hq => ?_, fun {e q state} hq => ?_⟩
  · by_cases he : e = g
    · subst he
      obtain ⟨rfl, rfl⟩ : q = p ∧ state = ending.graphState := by
        simpa [Finishes.addChanged, hfree] using hq
      exact ⟨by simp [Finishes.addChanged, hfree], hstatus, hinactive⟩
    · have hold : (q, state) ∈ x.changed e := by simpa [Finishes.addChanged, he] using hq
      simpa [Finishes.addChanged, he] using h.kept (hkeep e he) hold
  · by_cases hqp : q = p
    · subst hqp
      obtain ⟨rfl, rfl, -⟩ := Proc.graphDone.inj (Option.some.inj (hdone.symm.trans hq))
      exact ⟨by simp [Finishes.addChanged], hunpublished⟩
    · have hold := h.publishing ((hothers q hqp).symm.trans hq)
      have he : e ≠ g := by
        rintro rfl
        simp [hfree] at hold
      exact ⟨by simpa [Finishes.addChanged, he] using hold.1, hold.2⟩
  · have hold := h.published hq
    have he : e ≠ g := by
      rintro rfl
      simp [hfree] at hold
    exact ⟨hold.1, by simpa [Finishes.addChanged, he] using hold.2⟩

theorem FinishedOnce.addPublished (h : FinishedOnce (w, x)) (hdone : w.procs p = some (.graphDone ending g true))
    (hended : w'.procs p = some (.ended false)) (hothers : ∀ q, q ≠ p → w'.procs q = w.procs q)
    (hstatus : ∀ e, w'.status e = w.status e) : FinishedOnce (w', x.addPublished p g ending.graphState) := by
  obtain ⟨hchanged, hunpublished⟩ := h.publishing hdone
  have hnone : x.published g = [] := hunpublished
  refine ⟨fun hq => h.kept (hstatus _) hq, fun {q end' e} hq => ?_, fun {e q state} hq => ?_⟩
  · have hqp : q ≠ p := by
      rintro rfl
      simp [hended] at hq
    have hold := h.publishing ((hothers q hqp).symm.trans hq)
    have he : e ≠ g := by
      rintro rfl
      have hone : x.changed e = [(p, ending.graphState)] := (h.changed hchanged).1
      have hmem : (q, end'.graphState) ∈ x.changed e := hold.1
      rw [hone] at hmem
      exact hqp (Prod.mk.inj (List.mem_singleton.mp hmem)).1
    exact ⟨hold.1, by simpa [Finishes.addPublished, he] using hold.2⟩
  · by_cases he : e = g
    · subst he
      obtain ⟨rfl, rfl⟩ : q = p ∧ state = ending.graphState := by
        simpa [Finishes.addPublished, hnone] using hq
      exact ⟨by simp [Finishes.addPublished, hnone], hchanged⟩
    · have hold : (q, state) ∈ x.published e := by simpa [Finishes.addPublished, he] using hq
      simpa [Finishes.addPublished, he] using h.published hold

theorem FinishedOnce.finished {x' : Finishes} {m : Move} (h : FinishedOnce (w, x))
    (hf : Finished w w' x m x') : FinishedOnce (w', x') := by
  cases hf with
  | changed hactive hdone hothers hstatus hkeep => exact h.addChanged hactive hdone hothers hstatus hkeep
  | published hdone hended hothers hstatus => exact h.addPublished hdone hended hothers hstatus
  | nothing hstatus hprocs =>
    refine ⟨fun {e q state} hq => ?_, fun hq => h.publishing (hprocs _ _ _ hq), fun hq => h.published hq⟩
    have hknown : w.status e ≠ none := by simp [(h.changed hq).2.1]
    exact h.kept (hstatus e hknown) hq

end

theorem FinishedOnce.step {C : Constants} {v v' : Evaluation × Finishes} {m : Move} (h : FinishedOnce v)
    (hstep : Lts.monitor (Evaluation.step C) Finishes.watch v m = some v') : FinishedOnce v' := by
  obtain ⟨hmove, hwatch⟩ := Lts.monitor_eq_some.mp hstep
  have hfinishes := (step_change hmove).finishes (x := v.2)
  rw [← hwatch] at hfinishes
  exact h.finished hfinishes

theorem finishedOnce_start : FinishedOnce (start, Finishes.start) := by
  constructor <;> simp [start, Finishes.start]

end Evaluation

open Evaluation

/-- A graph's finish is published at most once, by the procedure whose `setGraphDone`
was the one that changed the status, and with the status that is stored. -/
theorem graphFinished_once (C : Constants) (ms : List Move) (v : Evaluation × Finishes)
    (h : Lts.exec (Lts.monitor (Evaluation.step C) Finishes.watch) (Evaluation.start, Finishes.start) ms =
      some v) (g : GraphId) :
    (v.2.published g).length ≤ 1 ∧ ∀ p state, (p, state) ∈ v.2.published g →
      v.2.changed g = [(p, state)] ∧ v.1.status g = some state := by
  have honce : FinishedOnce v :=
    Lts.invariant FinishedOnce (fun _ _ _ hstep hi => hi.step hstep) finishedOnce_start h
  refine ⟨?_, fun p state hmem => ?_⟩
  · cases hpublished : v.2.published g with
    | nil => simp
    | cons y ys =>
      have hone := (honce.published (hpublished ▸ List.mem_cons_self : y ∈ v.2.published g)).1
      simp [← hpublished, hone]
  · have hchanged := honce.changed (honce.published hmem).2
    exact ⟨hchanged.1, hchanged.2.1⟩

/-- Two cancel requests for one graph; the second reads it while the first works. -/
def cancelledTwice : List Move :=
  [.createGraph 0 [⟨1, [.failed], false⟩], .cancelGraph 0 0, .cancelGraph 1 0, .execute (.event 0),
    .execute (.event 1), .call (.event 0) (.setTaskState 1 .cancelled) [], .reply (.event 0) true,
    .call (.event 0) (.markTaskEvaluated 1) [], .reply (.event 0) true,
    .call (.event 0) (.publishCancelTask 1) [], .reply (.event 0) true,
    .call (.event 0) (.setTaskStateInGraph 0 1 .cancelled) [], .reply (.event 0) true,
    .execute (.event 0), .reply (.event 0) true]

theorem graphFinished_once_cancelled : ∃ v,
    Lts.exec (Lts.monitor (Evaluation.step .sample) Finishes.watch) (Evaluation.start, Finishes.start)
      cancelledTwice = some v ∧ v.2.published 0 = [(.event 0, .cancelled)] ∧
      (v.2.published 0).length ≤ 1 ∧ ∀ p state, (p, state) ∈ v.2.published 0 →
        v.2.changed 0 = [(p, state)] ∧ v.1.status 0 = some state := by
  have hmap : (Lts.exec (Lts.monitor (Evaluation.step .sample) Finishes.watch)
      (Evaluation.start, Finishes.start) cancelledTwice).map (fun v => v.2.published 0) =
        some [(.event 0, .cancelled)] := by decide
  obtain ⟨v, hv, hpublished⟩ := Option.map_eq_some_iff.mp hmap
  exact ⟨v, hv, hpublished, graphFinished_once .sample cancelledTwice v hv 0⟩

end OnTaskGraph
