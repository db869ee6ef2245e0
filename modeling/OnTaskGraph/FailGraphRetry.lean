import OnTaskGraph.GraphFinished
import OnTaskGraph.PendingTasks
import Mathlib.Data.Set.Insert

/-! `failGraph` after a failure of `failGraph`. All that it writes for a task is
determined by the graph as the first call found it, also when it reads a graph that is
partly rewritten, so that any number of calls end where a single one does. The records
of the tasks have no part in it: one that is ahead of the graph document is replaced. -/

namespace OnTaskGraph

def Graph.failedState (G : Graph) (state : TaskState) (t : TaskKey) : TaskState :=
  if G.taskState t = .pending then state else G.taskState t

def Graph.failing (G : Graph) (state : TaskState) : List (TaskKey × TaskState) :=
  G.tasks.map fun t => (t, G.failedState state t)

/-- The graph and the task records as a complete `failGraph` leaves them. -/
def Graph.failedGraph (G : Graph) (state : TaskState) : Graph where
  status := state
  tasks := G.tasks
  taskState := fun t => if t ∈ G.tasks then G.failedState state t else G.taskState t

def Graph.failedRecords (G : Graph) (state : TaskState) (records : TaskKey → Option TaskRecord) :
    TaskKey → Option TaskRecord :=
  fun t => if t ∈ G.tasks then
    (records t).map fun R => { R with state := G.failedState state t, evaluated := true }
  else records t

/-- A record that is not pending has the state that the graph document has for its task.
One that the document has as pending has the graph's new state already. -/
def Graph.InStep (G : Graph) (state : TaskState) (records : TaskKey → Option TaskRecord) : Prop :=
  ∀ t ∈ G.tasks, ∀ R ∈ records t, R.state ≠ .pending →
    R.state = G.taskState t ∨ (G.taskState t = .pending ∧ R.state = state)

instance {G : Graph} {state : TaskState} {records : TaskKey → Option TaskRecord} :
    Decidable (G.InStep state records) :=
  inferInstanceAs (Decidable (∀ t ∈ G.tasks, _))

/-- The tasks of the graph that were not pending keep their states. -/
def Graph.StatesKept (G : Graph) (records records' : TaskKey → Option TaskRecord) : Prop :=
  ∀ t ∈ G.tasks, ∀ R ∈ records t, R.state ≠ .pending → ∃ R' ∈ records' t, R'.state = R.state

theorem Graph.statesKept_failedRecords_iff {G : Graph} {state : TaskState}
    {records : TaskKey → Option TaskRecord} :
    G.StatesKept records (G.failedRecords state records) ↔ G.InStep state records := by
  have hrecord : ∀ t ∈ G.tasks, ∀ R ∈ records t,
      ((∃ R' ∈ G.failedRecords state records t, R'.state = R.state) ↔ G.failedState state t = R.state) := by
    intro t ht R hR
    simp [failedRecords, ht, Option.mem_def.mp hR]
  have hstate : ∀ t, ∀ R : TaskRecord, R.state ≠ .pending → (G.failedState state t = R.state ↔
      R.state = G.taskState t ∨ (G.taskState t = .pending ∧ R.state = state)) := by
    intro t R hpending
    by_cases ht : G.taskState t = .pending
    · simp [failedState, ht, hpending, eq_comm]
    · simp [failedState, ht, eq_comm]
  constructor
  · intro h t ht R hR hpending
    exact (hstate t R hpending).mp ((hrecord t ht R hR).mp (h t ht R hR hpending))
  · intro h t ht R hR hpending
    exact (hrecord t ht R hR).mpr ((hstate t R hpending).mpr (h t ht R hR hpending))

/-- What the failing of its graph leaves alone of a task's record. -/
def TaskRecord.unfailed (R : TaskRecord) : TaskRecord := { R with state := .pending, evaluated := false }

theorem TaskRecord.eq_of_unfailed {R R' : TaskRecord} (h : R.unfailed = R'.unfailed) :
    R' = { R with state := R'.state, evaluated := R'.evaluated } := by
  obtain ⟨⟨g, t, s, ts, i⟩, e, r⟩ := R
  obtain ⟨⟨g', t', s', ts', i'⟩, e', r'⟩ := R'
  simp only [TaskRecord.unfailed, TaskRecord.mk.injEq, TaskData.mk.injEq] at h ⊢
  obtain ⟨⟨rfl, rfl, -, rfl, rfl⟩, -, rfl⟩ := h
  simp

def StoreCall.write (u : TaskKey) : StoreCall → TaskRecord → TaskRecord
  | .setTaskState t state, R => if u = t then { R with state := state } else R
  | .markTaskEvaluated t, R => if u = t then { R with evaluated := true } else R
  | _, R => R

def StoreCall.writeGraph (e : GraphId) : StoreCall → Graph → Graph
  | .setTaskStateInGraph g t state, G =>
    if e = g then { G with taskState := Function.update G.taskState t state } else G
  | _, G => G

namespace StoreCall

variable {t u : TaskKey} {state : TaskState} {g e : GraphId}

@[simp] theorem write_publishCancelTask : (publishCancelTask t).write u = id := rfl

@[simp] theorem write_setTaskStateInGraph : (setTaskStateInGraph g t state).write u = id := rfl

@[simp] theorem writeGraph_setTaskState : (setTaskState t state).writeGraph e = id := rfl

@[simp] theorem writeGraph_markTaskEvaluated : (markTaskEvaluated t).writeGraph e = id := rfl

@[simp] theorem writeGraph_publishCancelTask : (publishCancelTask t).writeGraph e = id := rfl

theorem write_setTaskState_ne (h : u ≠ t) : (setTaskState t state).write u = id := by
  funext R
  simp [write, h]

theorem write_markTaskEvaluated_ne (h : u ≠ t) : (markTaskEvaluated t).write u = id := by
  funext R
  simp [write, h]

theorem writeGraph_ne (h : e ≠ g) : (setTaskStateInGraph g t state).writeGraph e = id := by
  funext G
  simp [writeGraph, h]

end StoreCall

/-- Moves of the given procedures, and of calls that failed procedures left behind. -/
def Move.By (S : Set ProcId) : Move → Prop
  | .call p _ _ | .execute p | .reply p _ | .fail p => p ∈ S
  | .stray _ _ => True
  | _ => False

namespace Evaluation

/-- The procedures of `S` have called `failGraph` with one state for an active graph. -/
structure FailCalled (S : Set ProcId) (g : GraphId) (G : Graph) (state : TaskState) (w : Evaluation) : Prop where
  graph : w.graphs g = some G
  active : G.active = true
  strays : w.strays = []
  procs : ∀ p ∈ S, ∃ reason : FailReason,
    reason.graphState = state ∧ w.procs p = some (.getActiveGraphById reason g)

def callFailGraph (w : Evaluation) (p : ProcId) (reason : FailReason) (g : GraphId) : Evaluation :=
  w.setProc p (.getActiveGraphById reason g)

def publications (w : Evaluation) (g : GraphId) : Nat :=
  w.log.countP fun
    | .published h _ => h = g
    | _ => false

def Intended (g : GraphId) (G : Graph) (state : TaskState) (c : StoreCall) : Prop :=
  ∃ round : FailRound, c ∈ round.calls g (G.failing state)

/-- What a call is there to bring about holds in the store. -/
def Effective (w : Evaluation) : StoreCall → Prop
  | .setTaskState t state => ∀ R, w.records t = some R → R.state = state
  | .markTaskEvaluated t => ∀ R, w.records t = some R → R.evaluated = true
  | .setTaskStateInGraph g t state => ∀ G, w.graphs g = some G → G.taskState t = state
  | _ => True

end Evaluation

open Evaluation

/-- How far a call of `failGraph` is, and what it relies on in the store. -/
def Proc.FailsIn (w : Evaluation) (g : GraphId) (G : Graph) (state : TaskState) : Proc → Prop
  | .getActiveGraphById reason h => h = g ∧ reason.graphState = state
  | .handleFailGraphTasks reason h round tasks calls =>
    h = g ∧ reason.graphState = state ∧ tasks = G.failing state ∧ (∀ c ∈ calls, c ∈ round.calls g tasks) ∧
      (∀ c ∈ round.calls g tasks, c ∈ calls ∨ w.Effective c) ∧
      ∀ r ∈ round.earlier, ∀ c ∈ r.calls g tasks, w.Effective c
  | .setGraphDone (.failGraph reason) h =>
    h = g ∧ reason.graphState = state ∧ ∀ c, Intended g G state c → w.Effective c
  | .graphDone (.failGraph reason) h _ => h = g ∧ reason.graphState = state ∧ w.active g = false
  | .ended failed => failed = false → w.active g = false
  | _ => False

/-- What a call of `failGraph` has done, or is still going to do, about the one event. -/
def Proc.Publishes (w : Evaluation) (g : GraphId) (n : Nat) : Proc → Prop
  | .graphDone _ _ changed => changed = true ∧ w.publications g = n
  | .ended failed => failed = false → w.publications g = n + 1
  | _ => w.active g = true ∧ w.publications g = n

namespace Evaluation

/-- The store between the start and the end of failing a graph. -/
structure Failing (S : Set ProcId) (g : GraphId) (G : Graph) (state : TaskState) (w v : Evaluation) : Prop where
  procs : ∀ p ∈ S, ∃ P, v.procs p = some P ∧ P.FailsIn v g G state
  strays : ∀ c ∈ v.strays, Intended g G state c
  others : ∀ t, t ∉ G.tasks → v.records t = w.records t
  records : ∀ t ∈ G.tasks, (v.records t).map TaskRecord.unfailed = (w.records t).map TaskRecord.unfailed
  otherGraphs : ∀ h, h ≠ g → v.graphs h = w.graphs h
  graph : ∃ G', v.graphs g = some G' ∧ G'.tasks = G.tasks ∧ (G'.active = true ∨ G'.status = state) ∧
    ∀ t, G'.taskState t = G.taskState t ∨ (t ∈ G.tasks ∧ G'.taskState t = G.failedState state t)
  done : v.active g = false → ∀ c, Intended g G state c → v.Effective c
  unpublished : v.active g = true → v.publications g = w.publications g

section

variable {C : Constants} {S : Set ProcId} {g : GraphId} {G : Graph} {state : TaskState} {w v v' : Evaluation}
  {p : ProcId} {P : Proc} {c d : StoreCall}

theorem FailCalled.mono {T : Set ProcId} (h : FailCalled S g G state w) (hT : T ⊆ S) :
    FailCalled T g G state w :=
  ⟨h.graph, h.active, h.strays, fun p hp => h.procs p (hT hp)⟩

theorem FailCalled.failing (h : FailCalled S g G state w) : Failing S g G state w w := by
  have hactive : w.active g = true := by simp [Evaluation.active, h.graph, h.active]
  refine ⟨fun p hp => ?_, by simp [h.strays], fun _ _ => rfl, fun _ _ => rfl, fun _ _ => rfl,
    ⟨G, h.graph, rfl, Or.inl h.active, fun _ => Or.inl rfl⟩, fun hinactive => ?_, fun _ => rfl⟩
  · obtain ⟨reason, hreason, hP⟩ := h.procs p hp
    exact ⟨_, hP, rfl, hreason⟩
  · simp [hactive] at hinactive

theorem intended_iff : Intended g G state c ↔ ∃ t ∈ G.tasks,
    c = .setTaskState t (G.failedState state t) ∨ c = .markTaskEvaluated t ∨ c = .publishCancelTask t ∨
      c = .setTaskStateInGraph g t (G.failedState state t) := by
  constructor
  · rintro ⟨round, hc⟩
    cases round <;> simp only [FailRound.calls, Graph.failing, List.map_map, List.mem_map] at hc <;>
      obtain ⟨t, ht, rfl⟩ := hc <;> exact ⟨t, ht, by simp⟩
  · rintro ⟨t, ht, rfl | rfl | rfl | rfl⟩
    · exact ⟨.setTaskState, List.mem_map.mpr ⟨_, List.mem_map_of_mem ht, rfl⟩⟩
    · exact ⟨.markTaskEvaluated, List.mem_map.mpr ⟨_, List.mem_map_of_mem ht, rfl⟩⟩
    · exact ⟨.publishCancelTask, List.mem_map.mpr ⟨_, List.mem_map_of_mem ht, rfl⟩⟩
    · exact ⟨.setTaskStateInGraph, List.mem_map.mpr ⟨_, List.mem_map_of_mem ht, rfl⟩⟩

theorem records_perform (hc : Intended g G state c) (us : List TaskKey) (u : TaskKey) :
    (v.perform us c).records u = (v.records u).map (c.write u) := by
  obtain ⟨t, -, rfl | rfl | rfl | rfl⟩ := intended_iff.mp hc
  · by_cases hu : u = t
    · subst hu
      cases hR : v.records u <;> simp [Evaluation.perform, setTaskState, StoreCall.write, hR, note, setRecord]
    · rw [StoreCall.write_setTaskState_ne hu, Option.map_id]
      cases hR : v.records t <;> simp [Evaluation.perform, setTaskState, hR, hu, note, setRecord]
  · by_cases hu : u = t
    · subst hu
      cases hR : v.records u <;>
        simp [Evaluation.perform, markTaskEvaluated, StoreCall.write, hR, note, setRecord]
    · rw [StoreCall.write_markTaskEvaluated_ne hu, Option.map_id]
      cases hR : v.records t <;> simp [Evaluation.perform, markTaskEvaluated, hR, hu, note, setRecord]
  · simp [Evaluation.perform, note]
  · cases hG : v.graphs g <;> simp [Evaluation.perform, setTaskStateInGraph, hG, setGraph]

theorem graphs_perform (hc : Intended g G state c) (us : List TaskKey) (e : GraphId) :
    (v.perform us c).graphs e = (v.graphs e).map (c.writeGraph e) := by
  obtain ⟨t, -, rfl | rfl | rfl | rfl⟩ := intended_iff.mp hc
  · cases hR : v.records t <;> simp [Evaluation.perform, setTaskState, hR, note, setRecord]
  · cases hR : v.records t <;> simp [Evaluation.perform, markTaskEvaluated, hR, note, setRecord]
  · simp [Evaluation.perform, note]
  · by_cases he : e = g
    · subst he
      cases hG : v.graphs e <;> simp [Evaluation.perform, setTaskStateInGraph, StoreCall.writeGraph, hG, setGraph]
    · rw [StoreCall.writeGraph_ne he, Option.map_id]
      cases hG : v.graphs g <;> simp [Evaluation.perform, setTaskStateInGraph, hG, he, setGraph]

theorem Intended.write_unfailed (hc : Intended g G state c) (u : TaskKey) (R : TaskRecord) :
    (c.write u R).unfailed = R.unfailed := by
  obtain ⟨t, -, rfl | rfl | rfl | rfl⟩ := intended_iff.mp hc
  · by_cases hu : u = t <;> simp [StoreCall.write, hu, TaskRecord.unfailed]
  · by_cases hu : u = t <;> simp [StoreCall.write, hu, TaskRecord.unfailed]
  · rfl
  · rfl

theorem Intended.write_state (hc : Intended g G state c) {u : TaskKey} {R : TaskRecord}
    (h : R.state = G.failedState state u) : (c.write u R).state = G.failedState state u := by
  obtain ⟨t, -, rfl | rfl | rfl | rfl⟩ := intended_iff.mp hc
  · by_cases hu : u = t
    · simp [StoreCall.write, hu]
    · simpa [StoreCall.write, hu] using h
  · by_cases hu : u = t <;> simpa [StoreCall.write, hu] using h
  · exact h
  · exact h

theorem Intended.write_evaluated (hc : Intended g G state c) {u : TaskKey} {R : TaskRecord}
    (h : R.evaluated = true) : (c.write u R).evaluated = true := by
  obtain ⟨t, -, rfl | rfl | rfl | rfl⟩ := intended_iff.mp hc
  · by_cases hu : u = t <;> simpa [StoreCall.write, hu] using h
  · by_cases hu : u = t
    · simp [StoreCall.write, hu]
    · simpa [StoreCall.write, hu] using h
  · exact h
  · exact h

theorem Intended.writeGraph_taskState (hc : Intended g G state c) (u : TaskKey) (G' : Graph) :
    (c.writeGraph g G').taskState u = G'.taskState u ∨
      (u ∈ G.tasks ∧ (c.writeGraph g G').taskState u = G.failedState state u) := by
  obtain ⟨t, ht, rfl | rfl | rfl | rfl⟩ := intended_iff.mp hc
  · exact Or.inl rfl
  · exact Or.inl rfl
  · exact Or.inl rfl
  · by_cases hu : u = t
    · subst hu
      exact Or.inr ⟨ht, by simp [StoreCall.writeGraph]⟩
    · exact Or.inl (by simp [StoreCall.writeGraph, hu])

/-- Intended calls write the same for the same task. -/
theorem Effective.perform (hc : Intended g G state c) (hd : Intended g G state d) (us : List TaskKey)
    (h : v.Effective d ∨ d = c) : (v.perform us c).Effective d := by
  obtain ⟨u, -, rfl | rfl | rfl | rfl⟩ := intended_iff.mp hd
  · intro R hR
    rw [records_perform hc] at hR
    obtain ⟨R₀, hR₀, rfl⟩ := Option.map_eq_some_iff.mp hR
    rcases h with hold | rfl
    · exact hc.write_state (hold R₀ hR₀)
    · simp [StoreCall.write]
  · intro R hR
    rw [records_perform hc] at hR
    obtain ⟨R₀, hR₀, rfl⟩ := Option.map_eq_some_iff.mp hR
    rcases h with hold | rfl
    · exact hc.write_evaluated (hold R₀ hR₀)
    · simp [StoreCall.write]
  · trivial
  · intro G' hG'
    rw [graphs_perform hc] at hG'
    obtain ⟨G₀, hG₀, rfl⟩ := Option.map_eq_some_iff.mp hG'
    rcases h with hold | rfl
    · rcases hc.writeGraph_taskState u G₀ with hsame | ⟨-, hnew⟩
      · exact hsame.trans (hold G₀ hG₀)
      · exact hnew
    · simp [StoreCall.writeGraph]

theorem active_perform (us : List TaskKey) : (v.perform us c).active g = v.active g :=
  active_congr ((perform_performed us c).status_eq g)

theorem publications_perform (us : List TaskKey) : (v.perform us c).publications g = v.publications g := by
  cases c with
  | setTaskState t s =>
    simp only [Evaluation.perform, setTaskState]
    split <;> simp [publications, note, setRecord]
  | markTaskEvaluated t =>
    simp only [Evaluation.perform, markTaskEvaluated]
    split <;> simp [publications, note, setRecord]
  | setTaskStateInGraph h t s =>
    simp only [Evaluation.perform, setTaskStateInGraph]
    split <;> rfl
  | publishCancelTask t => simp [Evaluation.perform, publications, note]
  | updateDependentTasks | updateUnreachableTasks => rfl

end

end Evaluation

section

variable {S : Set ProcId} {g : GraphId} {G : Graph} {state : TaskState} {v v' : Evaluation} {P : Proc}
  {c : StoreCall}

theorem Proc.FailsIn.mono (h : P.FailsIn v g G state) (hactive : v.active g = false → v'.active g = false)
    (heffective : ∀ d, Intended g G state d → v.Effective d → v'.Effective d) : P.FailsIn v' g G state := by
  unfold Proc.FailsIn at h ⊢
  split at h
  · exact h
  · obtain ⟨hg, hreason, htasks, hcalls, hround, hearlier⟩ := h
    subst hg htasks
    exact ⟨rfl, hreason, rfl, hcalls, fun d hd => (hround d hd).imp_right (heffective d ⟨_, hd⟩),
      fun r hr d hd => heffective d ⟨r, hd⟩ (hearlier r hr d hd)⟩
  · exact ⟨h.1, h.2.1, fun d hd => heffective d hd (h.2.2 d hd)⟩
  · exact ⟨h.1, h.2.1, hactive h.2.2⟩
  · exact fun hfailed => hactive (h hfailed)
  · exact h

theorem Proc.FailsIn.intended (h : P.FailsIn v g G state) (hc : c ∈ P.calls) : Intended g G state c := by
  cases P with
  | handleFailGraphTasks reason e round tasks calls =>
    obtain ⟨rfl, -, rfl, hcalls, -⟩ := h
    exact ⟨round, hcalls c hc⟩
  | updateTaskDependencies => exact h.elim
  | markTaskEvaluated | handleEvaluatedTask | checkGraphSucceeded | graphChecked | getActiveGraphById
  | setGraphDone | graphDone | ended => simp [Proc.calls] at hc

theorem Proc.FailsIn.called (h : P.FailsIn v g G state) (hc : c ∈ P.calls) (us : List TaskKey) :
    (P.called c).FailsIn (v.perform us c) g G state := by
  have hintended := h.intended hc
  have hkept : ∀ d, Intended g G state d → v.Effective d ∨ d = c → (v.perform us c).Effective d :=
    fun d hd hor => Effective.perform hintended hd us hor
  cases P with
  | handleFailGraphTasks reason e round tasks calls =>
    obtain ⟨rfl, hreason, rfl, hcalls, hround, hearlier⟩ := h
    refine ⟨rfl, hreason, rfl, fun d hd => hcalls d (List.mem_of_mem_erase hd), fun d hd => ?_,
      fun r hr d hd => hkept d ⟨r, hd⟩ (Or.inl (hearlier r hr d hd))⟩
    by_cases hdc : d = c
    · exact Or.inr (hkept d ⟨round, hd⟩ (Or.inr hdc))
    · exact (hround d hd).imp (List.mem_erase_of_ne hdc).mpr fun hold => hkept d ⟨round, hd⟩ (Or.inl hold)
  | updateTaskDependencies => exact h.elim
  | markTaskEvaluated | handleEvaluatedTask | checkGraphSucceeded | graphChecked | getActiveGraphById
  | setGraphDone | graphDone | ended => simp [Proc.calls] at hc

theorem Proc.Publishes.perform {n : Nat} (h : P.Publishes v g n) (us : List TaskKey) :
    P.Publishes (v.perform us c) g n := by
  have hactive : (v.perform us c).active g = v.active g := active_perform us
  have hsame : (v.perform us c).publications g = v.publications g := publications_perform us
  unfold Proc.Publishes at h ⊢
  rw [hactive, hsame]
  exact h

theorem Proc.Publishes.called {n : Nat} (h : P.Publishes v g n) (hc : c ∈ P.calls) :
    (P.called c).Publishes v g n := by
  cases P with
  | updateTaskDependencies | handleFailGraphTasks => exact h
  | markTaskEvaluated | handleEvaluatedTask | checkGraphSucceeded | graphChecked | getActiveGraphById
  | setGraphDone | graphDone | ended => simp [Proc.calls] at hc

theorem Proc.Publishes.reply {C : Constants} {p : ProcId} {accepted : Bool} {n : Nat}
    (h : P.Publishes v g n) (hfails : P.FailsIn v g G state) (hreply : v.reply C p accepted P = some v') :
    ∃ P', v'.procs p = some P' ∧ P'.Publishes v' g n := by
  cases P with
  | handleFailGraphTasks reason e round tasks calls =>
    cases calls with
    | cons => simp [Evaluation.reply] at hreply
    | nil =>
      simp only [Evaluation.reply] at hreply
      split at hreply <;> obtain rfl := Option.some.inj hreply
      · exact ⟨_, Function.update_self .., h⟩
      · exact ⟨_, Function.update_self .., h⟩
  | graphDone ending e changed =>
    obtain ⟨rfl, hcount⟩ := h
    cases ending with
    | succeeded | polledFailure => exact hfails.elim
    | failGraph reason =>
      obtain ⟨rfl, -⟩ := hfails
      obtain rfl := Option.some.inj hreply
      refine ⟨.ended false, Function.update_self .., fun _ => ?_⟩
      simpa [publications, setProc, note] using hcount
  | updateTaskDependencies | markTaskEvaluated | handleEvaluatedTask | checkGraphSucceeded
  | graphChecked => exact hfails.elim
  | getActiveGraphById | setGraphDone | ended => simp [Evaluation.reply] at hreply

end

namespace Evaluation

section

variable {C : Constants} {S : Set ProcId} {g : GraphId} {G : Graph} {state : TaskState} {w v v' : Evaluation}
  {p : ProcId} {P : Proc} {c : StoreCall} {m : Move}

theorem Failing.setProc (h : Failing S g G state w v) (hP : P.FailsIn v g G state) :
    Failing S g G state w (v.setProc p P) := by
  refine ⟨fun q hq => ?_, h.strays, h.others, h.records, h.otherGraphs, h.graph, h.done, h.unpublished⟩
  by_cases hqp : q = p
  · exact ⟨P, by simp [Evaluation.setProc, hqp], hP⟩
  · obtain ⟨Q, hQ, hfails⟩ := h.procs q hq
    exact ⟨Q, by simpa [Evaluation.setProc, hqp] using hQ, hfails⟩

theorem Failing.perform (h : Failing S g G state w v) (hc : Intended g G state c) (us : List TaskKey) :
    Failing S g G state w (v.perform us c) := by
  have hp := perform_performed (w := v) us c
  have hkept : ∀ d, Intended g G state d → v.Effective d → (v.perform us c).Effective d :=
    fun d hd hold => Effective.perform hc hd us (Or.inl hold)
  have hactive : (v.perform us c).active g = v.active g := active_perform us
  obtain ⟨t, ht, hwrites⟩ := intended_iff.mp hc
  obtain ⟨G', hG', htasks, hstatus, hstates⟩ := h.graph
  refine ⟨fun q hq => ?_, ?_, fun u hu => ?_, fun u hu => ?_, fun e he => ?_, ?_, fun hinactive d hd => ?_,
    fun hv => ?_⟩
  · obtain ⟨Q, hQ, hfails⟩ := h.procs q hq
    exact ⟨Q, by rw [hp.procs, hQ], hfails.mono (fun hv => hactive.trans hv) hkept⟩
  · rw [hp.strays]
    exact h.strays
  · have hsame : c.write u = id := by
      have hut : u ≠ t := by
        rintro rfl
        exact hu ht
      rcases hwrites with rfl | rfl | rfl | rfl
      · exact StoreCall.write_setTaskState_ne hut
      · exact StoreCall.write_markTaskEvaluated_ne hut
      · exact StoreCall.write_publishCancelTask
      · exact StoreCall.write_setTaskStateInGraph
    simpa [records_perform hc, hsame] using h.others u hu
  · rw [← h.records u hu, records_perform hc, Option.map_map]
    exact congrArg (fun f => (v.records u).map f) (funext fun R => hc.write_unfailed u R)
  · have hsame : c.writeGraph e = id := by
      rcases hwrites with rfl | rfl | rfl | rfl
      · exact StoreCall.writeGraph_setTaskState
      · exact StoreCall.writeGraph_markTaskEvaluated
      · exact StoreCall.writeGraph_publishCancelTask
      · exact StoreCall.writeGraph_ne he
    simpa [graphs_perform hc, hsame] using h.otherGraphs e he
  · have hkeeps : (c.writeGraph g G').tasks = G'.tasks ∧ (c.writeGraph g G').status = G'.status := by
      rcases hwrites with rfl | rfl | rfl | rfl <;> simp [StoreCall.writeGraph]
    refine ⟨c.writeGraph g G', by simp [graphs_perform hc, hG'], hkeeps.1.trans htasks, ?_, fun u => ?_⟩
    · simpa [Graph.active, hkeeps.2] using hstatus
    · rcases hc.writeGraph_taskState u G' with hsame | hnew
      · rw [hsame]
        exact hstates u
      · exact Or.inr hnew
  · exact hkept d hd (h.done (hactive.symm.trans hinactive) d hd)
  · rw [publications_perform]
    exact h.unpublished (hactive.symm.trans hv)

theorem Failing.withStrays (h : Failing S g G state w v) {cs : List StoreCall}
    (hcs : ∀ c ∈ cs, Intended g G state c) : Failing S g G state w { v with strays := cs } :=
  ⟨h.procs, hcs, h.others, h.records, h.otherGraphs, h.graph, h.done, h.unpublished⟩

theorem Failing.failedTasks (h : Failing S g G state w v) {reason : FailReason} {G' : Graph}
    (hreason : reason.graphState = state) (hG' : v.graphs g = some G') :
    Evaluation.failedTasks reason G' = G.failing state := by
  obtain ⟨G₁, hG₁, htasks, -, hstates⟩ := h.graph
  obtain rfl := Option.some.inj (hG₁.symm.trans hG')
  have hfinal : state ≠ .pending := by
    rw [← hreason]
    exact (graphState_final (.failGraph reason)).1
  unfold Evaluation.failedTasks Graph.failing
  rw [htasks, hreason]
  refine List.map_congr_left fun t _ => ?_
  rcases hstates t with hold | ⟨-, hnew⟩
  · rw [hold, Graph.failedState]
  · rw [hnew, Graph.failedState]
    split_ifs <;> simp_all

theorem Failing.setGraphDone (h : Failing S g G state w v) {G' : Graph} (hG' : v.graphs g = some G')
    (hstate : state ≠ .pending ∧ state ≠ .running) (hdone : ∀ c, Intended g G state c → v.Effective c) :
    Failing S g G state w ((v.setGraph g { G' with status := state }).note (.graphDone g state)) := by
  set u := (v.setGraph g { G' with status := state }).note (.graphDone g state) with hu
  have hnew : u.graphs g = some { G' with status := state } := by simp [hu, note, setGraph]
  have hothers : ∀ e, e ≠ g → u.graphs e = v.graphs e := fun e he => by simp [hu, note, setGraph, he]
  have hinactive : u.active g = false := by
    simp [Evaluation.active, hnew, Graph.active, hstate.1, hstate.2]
  have hkept : ∀ d, Intended g G state d → v.Effective d → u.Effective d := by
    intro d hd hold
    obtain ⟨t, -, rfl | rfl | rfl | rfl⟩ := intended_iff.mp hd
    · exact hold
    · exact hold
    · trivial
    · intro G₁ hG₁
      obtain rfl := Option.some.inj (hnew.symm.trans hG₁)
      exact hold G' hG'
  obtain ⟨G₁, hG₁, htasks, -, hstates⟩ := h.graph
  obtain rfl := Option.some.inj (hG₁.symm.trans hG')
  refine ⟨fun q hq => ?_, h.strays, h.others, h.records, fun e he => (hothers e he).trans (h.otherGraphs e he),
    ⟨_, hnew, htasks, Or.inr rfl, hstates⟩, fun _ d hd => hkept d hd (hdone d hd), fun hv => ?_⟩
  · obtain ⟨Q, hQ, hfails⟩ := h.procs q hq
    exact ⟨Q, hQ, hfails.mono (fun _ => hinactive) hkept⟩
  · simp [hinactive] at hv

theorem Failing.note (h : Failing S g G state w v) (hinactive : v.active g = false) (x : Note) :
    Failing S g G state w (v.note x) := by
  refine ⟨h.procs, h.strays, h.others, h.records, h.otherGraphs, h.graph, h.done, fun hv => ?_⟩
  have hactive : v.active g = true := hv
  simp [hinactive] at hactive

theorem Failing.reply (h : Failing S g G state w v) (hp : p ∈ S) {accepted : Bool}
    (hP : v.procs p = some P) (hreply : v.reply C p accepted P = some v') : Failing S g G state w v' := by
  obtain ⟨Q, hQ, hfails⟩ := h.procs p hp
  obtain rfl := Option.some.inj (hQ.symm.trans hP)
  cases Q with
  | handleFailGraphTasks reason e round tasks calls =>
    obtain ⟨rfl, hreason, rfl, -, hround, hearlier⟩ := hfails
    cases calls with
    | cons => simp [Evaluation.reply] at hreply
    | nil =>
      have hall : ∀ c ∈ round.calls e (G.failing state), v.Effective c :=
        fun c hc => (hround c hc).resolve_left List.not_mem_nil
      simp only [Evaluation.reply] at hreply
      split at hreply <;> obtain rfl := Option.some.inj hreply
      · rename_i next hnext
        refine h.setProc ⟨rfl, hreason, rfl, fun c hc => hc, fun c hc => Or.inl hc, fun r hr c hc => ?_⟩
        rcases FailRound.mem_earlier_next hnext hr with hold | rfl
        · exact hearlier r hold c hc
        · exact hall c hc
      · rename_i hlast
        refine h.setProc ⟨rfl, hreason, ?_⟩
        rintro c ⟨r, hc⟩
        rcases FailRound.mem_earlier_last hlast r with hold | rfl
        · exact hearlier r hold c hc
        · exact hall c hc
  | graphDone ending e changed =>
    cases ending with
    | succeeded | polledFailure => exact hfails.elim
    | failGraph reason =>
      obtain ⟨rfl, -, hinactive⟩ := hfails
      cases changed <;> obtain rfl := Option.some.inj hreply
      · exact h.setProc fun _ => hinactive
      · exact (h.note hinactive _).setProc fun _ => hinactive
  | updateTaskDependencies | markTaskEvaluated | handleEvaluatedTask | checkGraphSucceeded
  | graphChecked => exact hfails.elim
  | getActiveGraphById | setGraphDone | ended => simp [Evaluation.reply] at hreply

theorem Failing.step (h : Failing S g G state w v) (hby : m.By S) (hstep : step C v m = some v') :
    Failing S g G state w v' := by
  have hproc : ∀ {q Q}, q ∈ S → v.procs q = some Q → Q.FailsIn v g G state := by
    intro q Q hq hQ
    obtain ⟨Q', hQ', hfails⟩ := h.procs q hq
    exact Option.some.inj (hQ'.symm.trans hQ) ▸ hfails
  cases step_change hstep with
  | createGraph | finishTask | evaluateTask | cancelGraph | findCompletedTasks | deleteTasks => exact hby.elim
  | @call p P c us hP hc =>
    have hfails := hproc hby hP
    exact (h.perform (hfails.intended hc) us).setProc (hfails.called hc us)
  | @stray c us hc =>
    exact (h.perform (h.strays c hc) us).withStrays fun d hd => h.strays d (List.mem_of_mem_erase hd)
  | marked hP | unmarked hP | checked hP => exact (hproc hby hP).elim
  | @graphRead p reason e G' hP hG' =>
    obtain ⟨rfl, hreason⟩ := hproc hby hP
    rw [h.failedTasks hreason hG']
    exact h.setProc ⟨rfl, hreason, rfl, fun c hc => hc, fun c hc => Or.inl hc, by simp [FailRound.earlier]⟩
  | @graphInactive p reason e hP hinactive =>
    obtain ⟨rfl, -⟩ := hproc hby hP
    exact h.setProc fun _ => hinactive
  | @graphSet p ending e G' hP hG' =>
    cases ending with
    | succeeded | polledFailure => exact (hproc hby hP).elim
    | failGraph reason =>
      obtain ⟨rfl, hreason, hdone⟩ := hproc hby hP
      have hstate := graphState_final (.failGraph reason)
      simp only [Ending.graphState, hreason] at hstate ⊢
      have hset := h.setGraphDone hG' hstate hdone
      obtain ⟨G₁, hG₁, -⟩ := h.graph
      refine hset.setProc ⟨rfl, hreason, ?_⟩
      simp [Evaluation.active, Evaluation.note, setGraph, Graph.active, hstate.1, hstate.2]
  | @graphKept p ending e hP hinactive =>
    cases ending with
    | succeeded | polledFailure => exact (hproc hby hP).elim
    | failGraph reason =>
      obtain ⟨rfl, hreason, -⟩ := hproc hby hP
      exact h.setProc ⟨rfl, hreason, hinactive⟩
  | @failed p P hP =>
    have hfails := hproc hby hP
    have hleft : Failing S g G state w { v with strays := P.calls ++ v.strays } := by
      refine h.withStrays fun c hc => ?_
      rcases List.mem_append.mp hc with hcall | hstray
      · exact hfails.intended hcall
      · exact h.strays c hstray
    exact hleft.setProc (P := .ended true) (by simp [Proc.FailsIn])
  | moved hP | published hP =>
    exact h.reply hby hP (by simpa [Evaluation.step, hP] using hstep)

theorem Failing.run (h : Failing S g G state w v) {ms : List Move} (hby : ∀ m ∈ ms, m.By S)
    (hexec : Lts.exec (Evaluation.step C) v ms = some v') : Failing S g G state w v' := by
  have hlabels : Lts.Along (Evaluation.step C) (fun _ m _ => m.By S) v ms := Lts.along_of_labels hby v
  refine hlabels.invariant (Failing S g G state w) ?_ h hexec
  exact fun _ _ _ hstep hm hi => hi.step hm hstep

theorem Failing.restart (h : Failing S g G state w v) {reason : FailReason} (hreason : reason.graphState = state)
    (p : ProcId) : Failing {p} g G state w (v.callFailGraph p reason g) := by
  refine ⟨fun q hq => ?_, h.strays, h.others, h.records, h.otherGraphs, h.graph, h.done, h.unpublished⟩
  obtain rfl := Set.mem_singleton_iff.mp hq
  exact ⟨_, Function.update_self .., rfl, hreason⟩

/-- An ended call has left the store as a complete failing of the first graph leaves it. -/
theorem Failing.ended (h : Failing S g G state w v) (hp : p ∈ S) (hended : v.procs p = some (.ended false)) :
    v.records = G.failedRecords state w.records ∧
      v.graphs = Function.update w.graphs g (some (G.failedGraph state)) := by
  obtain ⟨P, hP, hfails⟩ := h.procs p hp
  obtain rfl := Option.some.inj (hP.symm.trans hended)
  have hinactive : v.active g = false := hfails rfl
  have hdone := h.done hinactive
  constructor
  · funext t
    by_cases ht : t ∈ G.tasks
    · have hsame := h.records t ht
      rw [Graph.failedRecords, if_pos ht]
      cases hR : v.records t with
      | none =>
        have hnone : w.records t = none := by simpa [hR] using hsame.symm
        simp [hnone]
      | some R =>
        obtain ⟨R₀, hR₀, hforget⟩ : ∃ R₀, w.records t = some R₀ ∧ R₀.unfailed = R.unfailed := by
          simpa [hR] using hsame.symm
        have hstate : R.state = G.failedState state t :=
          hdone (.setTaskState t (G.failedState state t)) (intended_iff.mpr ⟨t, ht, by simp⟩) R hR
        have hevaluated : R.evaluated = true :=
          hdone (.markTaskEvaluated t) (intended_iff.mpr ⟨t, ht, by simp⟩) R hR
        have hR' : R = { R₀ with state := G.failedState state t, evaluated := true } := by
          rw [← hstate, ← hevaluated]
          exact TaskRecord.eq_of_unfailed hforget
        simp [hR₀, ← hR']
    · rw [Graph.failedRecords, if_neg ht]
      exact h.others t ht
  · obtain ⟨G', hG', htasks, hstatus, hstates⟩ := h.graph
    have hfinal : G'.status = state := by
      refine hstatus.resolve_left ?_
      simpa [Evaluation.active, hG'] using hinactive
    have hgraph : G' = G.failedGraph state := by
      have hmap : G'.taskState = (G.failedGraph state).taskState := by
        funext t
        by_cases ht : t ∈ G.tasks
        · have heffective := hdone (.setTaskStateInGraph g t (G.failedState state t))
            (intended_iff.mpr ⟨t, ht, by simp⟩) G' hG'
          simpa [Graph.failedGraph, ht] using heffective
        · have hkept : G'.taskState t = G.taskState t := (hstates t).resolve_right fun hnew => ht hnew.1
          simpa [Graph.failedGraph, ht] using hkept
      cases G'
      simp_all [Graph.failedGraph]
    funext e
    by_cases he : e = g
    · subst he
      simp [hG', hgraph]
    · simpa [he] using h.otherGraphs e he

structure Retrying (p : ProcId) (g : GraphId) (G : Graph) (state : TaskState) (w v : Evaluation) : Prop where
  failing : Failing {p} g G state w v
  publishes : ∃ P, v.procs p = some P ∧ P.Publishes v g (w.publications g)

theorem Retrying.step (h : Retrying p g G state w v) (hby : m.By {p}) (hstep : step C v m = some v') :
    Retrying p g G state w v' := by
  refine ⟨h.failing.step hby hstep, ?_⟩
  obtain ⟨P, hP, hpublishes⟩ := h.publishes
  obtain ⟨Q, hQ, hfails⟩ := h.failing.procs p rfl
  obtain rfl := Option.some.inj (hP.symm.trans hQ)
  have hown : ∀ {q Q}, q ∈ ({p} : Set ProcId) → v.procs q = some Q → q = p ∧ Q = P := by
    rintro q Q rfl hQ
    exact ⟨rfl, Option.some.inj (hQ.symm.trans hP)⟩
  cases step_change hstep with
  | createGraph | finishTask | evaluateTask | cancelGraph | findCompletedTasks | deleteTasks => exact hby.elim
  | @call q R c us hR hc =>
    obtain ⟨rfl, rfl⟩ := hown hby hR
    exact ⟨R.called c, Function.update_self .., (hpublishes.called hc).perform us⟩
  | @stray c us hc =>
    have hprocs : (v.perform us c).procs = v.procs := (perform_performed us c).procs
    exact ⟨P, (congrFun hprocs p).trans hP, hpublishes.perform us⟩
  | marked hR | unmarked hR | checked hR =>
    obtain ⟨rfl, rfl⟩ := hown hby hR
    exact hfails.elim
  | @graphRead q reason e G' hR hG' =>
    obtain ⟨rfl, rfl⟩ := hown hby hR
    exact ⟨_, Function.update_self .., hpublishes.1, hpublishes.2⟩
  | @graphInactive q reason e hR hinactive =>
    obtain ⟨rfl, rfl⟩ := hown hby hR
    obtain ⟨rfl, -⟩ := hfails
    exact absurd hpublishes.1 (by simp [hinactive])
  | @graphSet q ending e G' hR hG' =>
    obtain ⟨rfl, rfl⟩ := hown hby hR
    refine ⟨_, Function.update_self .., rfl, ?_⟩
    simpa [publications, Evaluation.setProc, Evaluation.note, setGraph] using hpublishes.2
  | @graphKept q ending e hR hinactive =>
    obtain ⟨rfl, rfl⟩ := hown hby hR
    cases ending with
    | succeeded | polledFailure => exact hfails.elim
    | failGraph reason =>
      obtain ⟨rfl, -⟩ := hfails
      exact absurd hpublishes.1 (by simp [hinactive])
  | @failed q R hR =>
    obtain ⟨rfl, rfl⟩ := hown hby hR
    exact ⟨.ended true, Function.update_self .., by simp [Proc.Publishes]⟩
  | @moved q _ _ accepted hR =>
    obtain ⟨rfl, rfl⟩ := hown hby hR
    exact hpublishes.reply hfails (by simpa [Evaluation.step, hP] using hstep)
  | @published q _ _ accepted hR =>
    obtain ⟨rfl, rfl⟩ := hown hby hR
    exact hpublishes.reply hfails (by simpa [Evaluation.step, hP] using hstep)

theorem Retrying.run (h : Retrying p g G state w v) {ms : List Move} (hby : ∀ m ∈ ms, m.By {p})
    (hexec : Lts.exec (Evaluation.step C) v ms = some v') : Retrying p g G state w v' := by
  have hlabels : Lts.Along (Evaluation.step C) (fun _ m _ => m.By {p}) v ms := Lts.along_of_labels hby v
  refine hlabels.invariant (Retrying p g G state w) ?_ h hexec
  exact fun _ _ _ hstep hm hi => hi.step hm hstep

theorem Failing.retrying (h : Failing S g G state w v) {reason : FailReason} (hreason : reason.graphState = state)
    (hactive : v.active g = true) (p : ProcId) : Retrying p g G state w (v.callFailGraph p reason g) :=
  ⟨h.restart hreason p, _, Function.update_self .., hactive, h.unpublished hactive⟩

/-- Alone, the procedure can come to its end. -/
def Completes (C : Constants) (p : ProcId) (w : Evaluation) : Prop :=
  ∃ ms w', (∀ m ∈ ms, m.By {p}) ∧ Lts.exec (Evaluation.step C) w ms = some w' ∧
    w'.procs p = some (.ended false)

theorem Completes.step (hstep : step C v m = some v') (hby : m.By {p}) (h : Completes C p v') :
    Completes C p v := by
  obtain ⟨ms, u, hms, hexec, hended⟩ := h
  refine ⟨m :: ms, u, ?_, by simpa [Lts.exec, hstep] using hexec, hended⟩
  rintro m' (_ | ⟨_, hm'⟩)
  · exact hby
  · exact hms m' hm'

theorem completes_of_calls {reason : FailReason} {round : FailRound} {tasks : List (TaskKey × TaskState)}
    (hround : ∀ u : Evaluation, u.procs p = some (.handleFailGraphTasks reason g round tasks []) →
      Completes C p u) (calls : List StoreCall) (v : Evaluation)
    (hP : v.procs p = some (.handleFailGraphTasks reason g round tasks calls)) : Completes C p v := by
  induction calls generalizing v with
  | nil => exact hround v hP
  | cons c calls ih =>
    have hcall : step C v (.call p c []) =
        some ((v.perform [] c).setProc p (.handleFailGraphTasks reason g round tasks calls)) := by
      simp [Evaluation.step, hP, Proc.calls, Proc.called]
    exact Completes.step hcall (Set.mem_singleton p) (ih _ (Function.update_self ..))

theorem completes_of_graphDone {ending : Ending} {changed : Bool}
    (hP : v.procs p = some (.graphDone ending g changed)) : Completes C p v := by
  have hreply : ∃ u, step C v (.reply p true) = some u ∧ u.procs p = some (.ended false) := by
    cases changed with
    | true => exact ⟨_, by simp [Evaluation.step, hP, Evaluation.reply]; rfl, Function.update_self ..⟩
    | false => exact ⟨_, by simp [Evaluation.step, hP, Evaluation.reply]; rfl, Function.update_self ..⟩
  obtain ⟨u, hu, hended⟩ := hreply
  exact Completes.step hu (Set.mem_singleton p) ⟨[], u, by simp, rfl, hended⟩

theorem completes_of_setGraphDone {ending : Ending} (hP : v.procs p = some (.setGraphDone ending g)) :
    Completes C p v := by
  have hset : ∃ u changed, step C v (.execute p) = some u ∧
      u.procs p = some (.graphDone ending g changed) := by
    simp only [Evaluation.step, hP, Option.bind_some, Evaluation.execute]
    cases v.graphs g with
    | none => exact ⟨_, false, rfl, Function.update_self ..⟩
    | some G =>
      cases hactive : G.active with
      | true => exact ⟨_, true, by simp [hactive]; rfl, Function.update_self ..⟩
      | false => exact ⟨_, false, by simp [hactive]; rfl, Function.update_self ..⟩
  obtain ⟨u, changed, hu, hQ⟩ := hset
  exact Completes.step hu (Set.mem_singleton p) (completes_of_graphDone hQ)

theorem completes_of_round {reason : FailReason} {tasks : List (TaskKey × TaskState)} (round : FailRound)
    (calls : List StoreCall) (v : Evaluation)
    (hP : v.procs p = some (.handleFailGraphTasks reason g round tasks calls)) : Completes C p v := by
  refine completes_of_calls (fun u hu => ?_) calls v hP
  cases hround : round.next with
  | some next =>
    have hreply : step C u (.reply p true) =
        some (u.setProc p (.handleFailGraphTasks reason g next tasks (next.calls g tasks))) := by
      simp [Evaluation.step, hu, Evaluation.reply, hround]
    exact Completes.step hreply (Set.mem_singleton p) (completes_of_round next _ _ (Function.update_self ..))
  | none =>
    have hreply : step C u (.reply p true) = some (u.setProc p (.setGraphDone (.failGraph reason) g)) := by
      simp [Evaluation.step, hu, Evaluation.reply, hround]
    exact Completes.step hreply (Set.mem_singleton p) (completes_of_setGraphDone (Function.update_self ..))
termination_by 3 - round.earlier.length
decreasing_by
  cases round <;> simp only [FailRound.next, Option.some.injEq, reduceCtorEq] at hround <;> subst hround <;>
    simp [FailRound.earlier]

/-- An undisturbed call of `failGraph` for an active graph comes to its end. -/
theorem failGraph_completes {reason : FailReason} (hG : v.graphs g = some G) (hactive : G.active = true)
    (hP : v.procs p = some (.getActiveGraphById reason g)) : Completes C p v := by
  have hread : ∃ tasks calls u, step C v (.execute p) = some u ∧
      u.procs p = some (.handleFailGraphTasks reason g .setTaskState tasks calls) :=
    ⟨_, _, _, by simp [Evaluation.step, hP, Evaluation.execute, hG, hactive]; rfl, Function.update_self ..⟩
  obtain ⟨tasks, calls, u, hu, hQ⟩ := hread
  exact Completes.step hu (Set.mem_singleton p) (completes_of_round _ _ _ hQ)

end

end Evaluation

/-- Any number of calls of `failGraph` may stop anywhere before the graph is set done.
A call that is then left alone and ends leaves the store as a single undisturbed one
does, publishes the one event, and keeps what the graph document has of tasks that are
not pending there. Of the records of tasks that are not pending it keeps the states just
when they are in step with the graph document. -/
theorem failGraph_retried (C : Constants) {S : Set ProcId} {g : GraphId} {G : Graph} {state : TaskState}
    {w w₁ w₂ w₃ : Evaluation} {ms₁ ms₂ ms₃ : List Move} {p q : ProcId} {reason : FailReason}
    (h : FailCalled S g G state w) (hby₁ : ∀ m ∈ ms₁, m.By S)
    (h₁ : Lts.exec (Evaluation.step C) w ms₁ = some w₁) (hactive : w₁.active g = true)
    (hreason : reason.graphState = state) (hby₂ : ∀ m ∈ ms₂, m.By {p})
    (h₂ : Lts.exec (Evaluation.step C) (w₁.callFailGraph p reason g) ms₂ = some w₂)
    (hended₂ : w₂.procs p = some (.ended false)) (hq : q ∈ S) (hby₃ : ∀ m ∈ ms₃, m.By {q})
    (h₃ : Lts.exec (Evaluation.step C) w ms₃ = some w₃) (hended₃ : w₃.procs q = some (.ended false)) :
    w₂.records = w₃.records ∧ w₂.graphs = w₃.graphs ∧ w₂.publications g = w.publications g + 1 ∧
      (∃ G₂, w₂.graphs g = some G₂ ∧ G₂.status = state ∧
        ∀ t ∈ G.tasks, G.taskState t ≠ .pending → G₂.taskState t = G.taskState t) ∧
      (G.StatesKept w.records w₂.records ↔ G.InStep state w.records) := by
  have hretrying : Retrying p g G state w w₂ := ((h.failing.run hby₁ h₁).retrying hreason hactive p).run hby₂ h₂
  have hsingle : Failing {q} g G state w w₃ :=
    (h.mono (Set.singleton_subset_iff.mpr hq)).failing.run hby₃ h₃
  obtain ⟨hrecords₂, hgraphs₂⟩ := hretrying.failing.ended rfl hended₂
  obtain ⟨hrecords₃, hgraphs₃⟩ := hsingle.ended rfl hended₃
  refine ⟨hrecords₂.trans hrecords₃.symm, hgraphs₂.trans hgraphs₃.symm, ?_,
    ⟨G.failedGraph state, ?_, rfl, fun t ht hpending => ?_⟩, ?_⟩
  · obtain ⟨P, hP, hpublishes⟩ := hretrying.publishes
    obtain rfl := Option.some.inj (hP.symm.trans hended₂)
    exact hpublishes rfl
  · rw [hgraphs₂, Function.update_self]
  · simp [Graph.failedGraph, Graph.failedState, ht, hpending]
  · rw [hrecords₂]
    exact Graph.statesKept_failedRecords_iff

/-- Task 1 has succeeded and task 2 is pending when the graph is to be cancelled. -/
def cancelCalled : Evaluation :=
  (((Evaluation.start.createGraph 0 [⟨1, [.failed], false⟩, ⟨2, [.failed], false⟩]).setTaskState 1
    .succeeded).setTaskStateInGraph 0 1 .succeeded).callFailGraph (.event 1) .cancelGraph 0

def cancelledDocument : Graph := ⟨.pending, [1, 2], Function.update (fun _ => .pending) 1 .succeeded⟩

theorem failCalled_cancelCalled : FailCalled {.event 1} 0 cancelledDocument .cancelled cancelCalled where
  graph := rfl
  active := rfl
  strays := rfl
  procs := by
    rintro p rfl
    exact ⟨.cancelGraph, rfl, rfl⟩

def cancelGraph (p : ProcId) : List Move :=
  [.execute p, .call p (.setTaskState 1 .succeeded) [], .call p (.setTaskState 2 .cancelled) [],
    .reply p true, .call p (.markTaskEvaluated 1) [], .call p (.markTaskEvaluated 2) [], .reply p true,
    .call p (.publishCancelTask 1) [], .call p (.publishCancelTask 2) [], .reply p true,
    .call p (.setTaskStateInGraph 0 1 .succeeded) [], .call p (.setTaskStateInGraph 0 2 .cancelled) [],
    .reply p true, .execute p, .reply p true]

theorem cancelGraph_by (p : ProcId) : ∀ m ∈ cancelGraph p, m.By {p} := by
  simp [cancelGraph, Move.By]

def interruptedCancelGraph : List Move :=
  (cancelGraph (.event 1)).take 5 ++ [.fail (.event 1), .stray (.markTaskEvaluated 2) []]

/-- The first call stops with a write of the second round still on its way, which is
executed before the call is repeated. -/
theorem failGraph_retried_cancelled : ∃ w₁ w₂ w₃,
    Lts.exec (Evaluation.step .sample) cancelCalled interruptedCancelGraph = some w₁ ∧
    Lts.exec (Evaluation.step .sample) (w₁.callFailGraph (.event 2) .cancelGraph 0) (cancelGraph (.event 2)) =
      some w₂ ∧
    Lts.exec (Evaluation.step .sample) cancelCalled (cancelGraph (.event 1)) = some w₃ ∧
    w₂.records = w₃.records ∧ w₂.graphs = w₃.graphs ∧
      w₂.publications 0 = cancelCalled.publications 0 + 1 ∧
      cancelledDocument.StatesKept cancelCalled.records w₂.records := by
  obtain ⟨w₁, w₂, h₁, hactive, h₂, hended₂⟩ : ∃ w₁ w₂,
      Lts.exec (Evaluation.step .sample) cancelCalled interruptedCancelGraph = some w₁ ∧ w₁.active 0 = true ∧
      Lts.exec (Evaluation.step .sample) (w₁.callFailGraph (.event 2) .cancelGraph 0) (cancelGraph (.event 2)) =
        some w₂ ∧ w₂.procs (.event 2) = some (.ended false) := ⟨_, _, rfl, rfl, rfl, rfl⟩
  obtain ⟨w₃, h₃, hended₃⟩ : ∃ w₃, Lts.exec (Evaluation.step .sample) cancelCalled (cancelGraph (.event 1)) =
      some w₃ ∧ w₃.procs (.event 1) = some (.ended false) := ⟨_, rfl, rfl⟩
  have hby : ∀ m ∈ interruptedCancelGraph, m.By {.event 1} := by
    simp [interruptedCancelGraph, cancelGraph, Move.By]
  obtain ⟨hrecords, hgraphs, hpublished, -, hkept⟩ := failGraph_retried .sample failCalled_cancelCalled hby h₁
    hactive rfl (cancelGraph_by _) h₂ hended₂ rfl (cancelGraph_by _) h₃ hended₃
  exact ⟨w₁, w₂, w₃, h₁, h₂, h₃, hrecords, hgraphs, hpublished, hkept.mpr (by decide)⟩

def staleCancelGraph (p : ProcId) : List Move :=
  [.execute p, .call p (.setTaskState 1 .cancelled) [], .reply p true, .call p (.markTaskEvaluated 1) [],
    .reply p true, .call p (.publishCancelTask 1) [], .reply p true,
    .call p (.setTaskStateInGraph 0 1 .cancelled) [], .reply p true, .execute p, .reply p true]

/-- Task 1 has succeeded, but the graph document still has it as pending when the graph is
cancelled. The cancel fails in its second round, is repeated, and ends with the task cancelled. -/
theorem cancelGraph_replaces_recorded : ∃ w w₁ w₂ G,
    Lts.exec (Evaluation.step .sample) Evaluation.start [.createGraph 0 [⟨1, [.succeeded], false⟩],
      .finishTask 1 .succeeded, .cancelGraph 1 0] = some w ∧ FailCalled {.event 1} 0 G .cancelled w ∧
    Lts.exec (Evaluation.step .sample) w ((staleCancelGraph (.event 1)).take 3 ++ [.fail (.event 1)]) = some w₁ ∧
    Lts.exec (Evaluation.step .sample) (w₁.callFailGraph (.event 2) .cancelGraph 0)
      (staleCancelGraph (.event 2)) = some w₂ ∧ w₂.procs (.event 2) = some (.ended false) ∧
    (w.records 1).map (·.state) = some .succeeded ∧ (w₂.records 1).map (·.state) = some .cancelled ∧
    ¬ G.StatesKept w.records w₂.records := by
  refine ⟨_, _, _, ⟨.pending, [1], fun _ => .pending⟩, rfl, ⟨rfl, rfl, rfl, ?_⟩, rfl, rfl, rfl, rfl, rfl,
    fun h => ?_⟩
  · rintro p rfl
    exact ⟨.cancelGraph, rfl, rfl⟩
  · obtain ⟨R', hR', hstate⟩ := h 1 (by decide) _ rfl (by decide)
    obtain rfl := Option.some.inj hR'
    exact absurd hstate (by decide)

end OnTaskGraph
