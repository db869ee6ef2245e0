import Mathlib.Data.Prod.Lex
import OnTaskGraph.EvaluationChanges
import OnTaskGraph.Lts
import OnTaskGraph.TaskEvaluation

/-! The answers to cancel requests. `subscribeCancelGraph` subscribes to `failGraph` for
each request, and resolves the promise that it returns from the callbacks; what it has
resolved it with is beside the evaluation of the graphs. -/

namespace OnTaskGraph

inductive CancelEvent
  | move (m : Move)
  /-- What a procedure waits for is rejected, or throws. -/
  | fail (p : ProcId) (reason : Reason)
  /-- The store answers with null. -/
  | empty (p : ProcId)

def CancelEvent.proc : CancelEvent → Option ProcId
  | .move (.call p _ _) | .move (.execute p) | .move (.reply p _) | .fail p _ | .empty p => some p
  | _ => none

/-- What the observable of `failGraph` gives to its subscriber. -/
inductive CancelSignal
  | next (instanceId : GraphId)
  | error
  | completed
  deriving DecidableEq

structure CancelRequest where
  graphId : GraphId
  /-- Its own `setGraphDone` has set the graph to cancelled. -/
  cancelled : Bool
  /-- What its promise has been resolved with. -/
  answers : List (Option GraphId)

def CancelRequest.isPending (x : CancelRequest) : Bool := x.answers.isEmpty

def CancelRequest.resolve (x : CancelRequest) (answer : Option GraphId) : CancelRequest :=
  { x with answers := answer :: x.answers }

/-- The callbacks of `subscribeCancelGraph`; the one for errors only logs them. -/
def CancelRequest.receive (x : CancelRequest) : CancelSignal → CancelRequest
  | .next instanceId => if x.isPending then x.resolve (some instanceId) else x
  | .error => x
  | .completed => if x.isPending then x.resolve none else x

/-- What its procedure tells of a request. -/
def CancelRequest.Right (x : CancelRequest) : Proc → Prop
  | .getActiveGraphById .cancelGraph g | .handleFailGraphTasks .cancelGraph g _ _ _
  | .setGraphDone (.failGraph .cancelGraph) g => g = x.graphId ∧ x.cancelled = false ∧ x.answers = []
  | .graphDone (.failGraph .cancelGraph) g changed => g = x.graphId ∧ x.cancelled = changed ∧ x.answers = []
  | .ended _ => x.answers = [if x.cancelled then some x.graphId else none]
  | _ => False

/-- As long as its procedure goes on, a request is not answered. -/
theorem CancelRequest.Right.answers {x : CancelRequest} {P : Proc} (hright : x.Right P)
    (hlive : ∀ failed, P ≠ .ended failed) : x.answers = [] := by
  unfold CancelRequest.Right at hright
  split at hright
  · exact hright.2.2
  · exact hright.2.2
  · exact hright.2.2
  · exact hright.2.2
  · rename_i failed
    exact absurd rfl (hlive failed)
  · exact absurd hright id

/-- Before the `setGraphDone` of a request has been executed, it has set no graph. -/
theorem CancelRequest.Right.not_cancelled {x : CancelRequest} {P : Proc} (hright : x.Right P)
    (hlive : ∀ failed, P ≠ .ended failed) (hdone : ∀ ending g, P ≠ .graphDone ending g true) :
    x.cancelled = false := by
  unfold CancelRequest.Right at hright
  split at hright
  · exact hright.2.1
  · exact hright.2.1
  · exact hright.2.1
  · rename_i g changed
    cases changed with
    | true => exact absurd rfl (hdone _ g)
    | false => exact hright.2.1
  · rename_i failed
    exact absurd rfl (hlive failed)
  · exact absurd hright id

/-- The `catch` of `failGraph`: it goes on with an empty observable, or throws when it
reads the stack of null or undefined. -/
def Reason.handleStreamError : Reason → List CancelSignal
  | .error => [.completed]
  | .nullish => [.error]

structure CancelRequests where
  evaluation : Evaluation
  requests : Nat → Option CancelRequest

/-- How far a cancel request is, and how many calls it waits for. -/
def Proc.rank : Proc → ℕ ×ₗ ℕ
  | .getActiveGraphById _ _ => toLex (6, 0)
  | .handleFailGraphTasks _ _ .setTaskState _ calls => toLex (5, calls.length)
  | .handleFailGraphTasks _ _ .markTaskEvaluated _ calls => toLex (4, calls.length)
  | .handleFailGraphTasks _ _ .publishCancelTask _ calls => toLex (3, calls.length)
  | .handleFailGraphTasks _ _ .setTaskStateInGraph _ calls => toLex (2, calls.length)
  | .setGraphDone _ _ => toLex (1, 0)
  | .graphDone _ _ _ => toLex (0, 1)
  | _ => toLex (0, 0)

namespace Evaluation

def respond (C : Constants) (w : Evaluation) : CancelEvent → Option Evaluation
  | .move (.fail _) => none
  | .move m => w.step C m
  | .fail p _ => w.step C (.fail p)
  | .empty p =>
    match w.procs p with
    | some (.getActiveGraphById _ _) => some (w.setProc p (.ended false))
    | some (.setGraphDone ending g) => some (w.setProc p (.graphDone ending g false))
    | _ => none

/-- The filter behind `setGraphDone` throws when there is no graph. -/
def signals (w : Evaluation) : CancelEvent → List CancelSignal
  | .move (.execute p) =>
    match w.procs p with
    | some (.getActiveGraphById _ g) => if w.active g then [] else [.completed]
    | _ => []
  | .move (.reply p _) =>
    match w.procs p with
    | some (.graphDone (.failGraph _) g true) => [.next g, .completed]
    | some (.graphDone (.failGraph _) _ false) => Reason.error.handleStreamError
    | _ => []
  | .empty p =>
    match w.procs p with
    | some (.getActiveGraphById _ _) => [.completed]
    | _ => []
  | .fail _ reason => reason.handleStreamError
  | _ => []

/-- The event is a `setGraphDone` that moves its graph. -/
def setsGraph (w : Evaluation) : CancelEvent → Bool
  | .move (.execute p) =>
    match w.procs p with
    | some (.setGraphDone _ g) => w.active g
    | _ => false
  | _ => false

/-- How the procedure of a cancel request goes on. -/
inductive Progress (w : Evaluation) (p : ProcId) : CancelEvent → Proc → Proc → Prop
  | called {P c us} : c ∈ P.calls → Progress w p (.move (.call p c us)) P (P.called c)
  | graphRead {reason g tasks calls} : w.active g = true → Progress w p (.move (.execute p))
      (.getActiveGraphById reason g) (.handleFailGraphTasks reason g .setTaskState tasks calls)
  | graphInactive {reason g} : w.active g = false →
      Progress w p (.move (.execute p)) (.getActiveGraphById reason g) (.ended false)
  | graphSet {ending g} :
    Progress w p (.move (.execute p)) (.setGraphDone ending g) (.graphDone ending g (w.active g))
  | nextRound {reason g round next tasks calls accepted} : FailRound.next round = some next →
      Progress w p (.move (.reply p accepted)) (.handleFailGraphTasks reason g round tasks [])
        (.handleFailGraphTasks reason g next tasks calls)
  | lastRound {reason g round tasks accepted} : Progress w p (.move (.reply p accepted))
      (.handleFailGraphTasks reason g round tasks []) (.setGraphDone (.failGraph reason) g)
  | finished {ending g changed accepted} :
      Progress w p (.move (.reply p accepted)) (.graphDone ending g changed) (.ended false)
  | failed {P reason} : (∀ failed, P ≠ .ended failed) → Progress w p (.fail p reason) P (.ended true)
  | notFound {reason g} : Progress w p (.empty p) (.getActiveGraphById reason g) (.ended false)
  | notSet {ending g} : Progress w p (.empty p) (.setGraphDone ending g) (.graphDone ending g false)

section

variable {C : Constants} {w w' : Evaluation} {e : CancelEvent} {n : Nat} {p : ProcId} {P P' : Proc}
  {x : CancelRequest}

theorem respond_change {m : Move} (h : w.respond C (.move m) = some w') : Change C w m w' := by
  cases m with
  | fail p => simp [respond] at h
  | _ => exact step_change h

/-- The events of other procedures leave one as it is. -/
theorem respond_other (h : w.respond C e = some w') (hP : w.procs (.event n) = some P)
    (hother : e.proc ≠ some (.event n)) : w'.procs (.event n) = some P := by
  have hset : ∀ {v : Evaluation} {q : ProcId} {Q : Proc}, v.procs = w.procs → q ≠ .event n →
      (v.setProc q Q).procs (.event n) = some P := by
    intro v q Q hv hq
    rw [← hP, ← hv]
    exact Function.update_of_ne (Ne.symm hq) _ _
  cases e with
  | move m =>
    cases respond_change h with
    | createGraph | deleteTasks | findCompletedTasks => exact hP
    | @finishTask t state => exact (perform_performed (w := w) [] (.setTaskState t state)).procs ▸ hP
    | stray => exact (perform_performed (w := w) _ _).procs ▸ hP
    | evaluateTask hnone | cancelGraph hnone =>
      refine hset rfl fun heq => ?_
      rw [heq, hP] at hnone
      exact absurd hnone (by simp)
    | call => exact hset (perform_performed _ _).procs fun heq => hother (by rw [heq]; rfl)
    | @marked _ data =>
      refine hset (perform_performed [] (.markTaskEvaluated data.taskId)).procs fun heq => hother ?_
      rw [heq]
      rfl
    | unmarked | checked | graphRead | graphInactive | graphSet | graphKept | moved | published =>
      exact hset rfl fun heq => hother (by rw [heq]; rfl)
    | failed => simp [respond] at h
  | fail q reason =>
    have hq : q ≠ .event n := fun heq => hother (by rw [heq]; rfl)
    cases step_change (C := C) (m := .fail q) h with
    | failed => exact (Function.update_of_ne (Ne.symm hq) _ _).trans hP
  | empty q =>
    have hq : q ≠ .event n := fun heq => hother (by rw [heq]; rfl)
    simp only [respond] at h
    split at h
    · exact Option.some.inj h ▸ hset rfl hq
    · exact Option.some.inj h ▸ hset rfl hq
    · simp at h

theorem respond_progress (h : w.respond C e = some w') (hP : w.procs p = some P) (hp : e.proc = some p)
    (hright : x.Right P) : ∃ P', w'.procs p = some P' ∧ w.Progress p e P P' := by
  have hself : ∀ {v : Evaluation} {Q : Proc}, (v.setProc p Q).procs p = some Q :=
    fun {v Q} => Function.update_self ..
  cases e with
  | move m =>
    cases m with
    | createGraph | finishTask | evaluateTask | cancelGraph | findCompletedTasks | deleteTasks | stray | fail =>
      simp [CancelEvent.proc] at hp
    | call q c us =>
      obtain rfl := Option.some.inj hp
      cases respond_change h with
      | call hQ hc =>
        obtain rfl := Option.some.inj (hP.symm.trans hQ)
        exact ⟨_, hself, .called hc⟩
    | execute q =>
      obtain rfl := Option.some.inj hp
      cases respond_change h with
      | marked hQ | unmarked hQ | checked hQ =>
        obtain rfl := Option.some.inj (hP.symm.trans hQ)
        exact absurd hright id
      | graphRead hQ hG hactive =>
        obtain rfl := Option.some.inj (hP.symm.trans hQ)
        exact ⟨_, hself, .graphRead (by simp [active, hG, hactive])⟩
      | graphInactive hQ hactive =>
        obtain rfl := Option.some.inj (hP.symm.trans hQ)
        exact ⟨_, hself, .graphInactive hactive⟩
      | @graphSet _ ending g G hQ hG hactive =>
        obtain rfl := Option.some.inj (hP.symm.trans hQ)
        have ha : w.active g = true := by simp [active, hG, hactive]
        exact ⟨_, hself, ha ▸ Progress.graphSet⟩
      | graphKept hQ hactive =>
        obtain rfl := Option.some.inj (hP.symm.trans hQ)
        exact ⟨_, hself, hactive ▸ Progress.graphSet⟩
    | reply q accepted =>
      obtain rfl := Option.some.inj hp
      cases P with
      | handleFailGraphTasks reason g round tasks calls =>
        cases calls with
        | cons c calls => simp [respond, step, hP, reply] at h
        | nil =>
          simp only [respond, step, hP, Option.bind_some, reply] at h
          split at h <;> obtain rfl := Option.some.inj h
          · exact ⟨_, hself, .nextRound ‹_›⟩
          · exact ⟨_, hself, .lastRound⟩
      | graphDone ending g changed =>
        simp only [respond, step, hP, Option.bind_some, reply] at h
        split at h <;> obtain rfl := Option.some.inj h <;> exact ⟨_, hself, .finished⟩
      | getActiveGraphById | setGraphDone | ended => simp [respond, step, hP, reply] at h
      | updateTaskDependencies | markTaskEvaluated | handleEvaluatedTask | checkGraphSucceeded | graphChecked =>
        exact absurd hright id
  | fail q reason =>
    obtain rfl := Option.some.inj hp
    have hlive : ∀ failed, P ≠ .ended failed := by
      rintro failed rfl
      simp [respond, step, hP] at h
    cases step_change (C := C) (m := .fail q) h with
    | failed => exact ⟨_, Function.update_self .., .failed hlive⟩
  | empty q =>
    obtain rfl := Option.some.inj hp
    simp only [respond, hP] at h
    split at h
    · rename_i heq
      obtain rfl := Option.some.inj heq
      exact ⟨_, Option.some.inj h ▸ hself, .notFound⟩
    · rename_i heq
      obtain rfl := Option.some.inj heq
      exact ⟨_, Option.some.inj h ▸ hself, .notSet⟩
    · simp at h

theorem Progress.rank_lt (h : w.Progress p e P P') (hright : x.Right P) : P'.rank < P.rank := by
  cases h with
  | @called _ c _ hc =>
    cases P with
    | handleFailGraphTasks reason g round tasks calls =>
      have hmem : c ∈ calls := hc
      have hlt : (calls.erase c).length < calls.length := by
        rw [List.length_erase_of_mem hmem]
        have hpos := List.length_pos_of_mem hmem
        omega
      cases round <;> exact Prod.Lex.toLex_lt_toLex.mpr (Or.inr ⟨rfl, hlt⟩)
    | updateTaskDependencies => exact absurd hright id
    | _ => simp [Proc.calls] at hc
  | failed hlive =>
    cases P with
    | handleFailGraphTasks reason g round tasks calls => cases round <;> simp [Proc.rank, Prod.Lex.toLex_lt_toLex]
    | getActiveGraphById | setGraphDone | graphDone => simp [Proc.rank, Prod.Lex.toLex_lt_toLex]
    | ended failed => exact absurd rfl (hlive failed)
    | updateTaskDependencies | markTaskEvaluated | handleEvaluatedTask | checkGraphSucceeded | graphChecked =>
      exact absurd hright id
  | @nextRound reason g round next tasks calls accepted hnext =>
    cases round <;> simp only [FailRound.next, Option.some.injEq, reduceCtorEq] at hnext <;> subst hnext <;>
      simp [Proc.rank, Prod.Lex.toLex_lt_toLex]
  | @lastRound reason g round => cases round <;> simp [Proc.rank, Prod.Lex.toLex_lt_toLex]
  | graphRead | graphInactive | graphSet | finished | notFound | notSet =>
    simp [Proc.rank, Prod.Lex.toLex_lt_toLex]

/-- A request that has not ended waits for something that can be answered. -/
theorem exists_respond (hP : w.procs p = some P) (hright : x.Right P) (hlive : ∀ failed, P ≠ .ended failed) :
    ∃ m w', (CancelEvent.move m).proc = some p ∧ w.respond C (.move m) = some w' := by
  cases P with
  | handleFailGraphTasks reason g round tasks calls =>
    cases calls with
    | nil =>
      refine ⟨.reply p true, ?_⟩
      simp only [respond, step, hP, Option.bind_some, reply]
      split <;> exact ⟨_, rfl, rfl⟩
    | cons c calls =>
      have hmem : c ∈ (Proc.handleFailGraphTasks reason g round tasks (c :: calls)).calls := List.mem_cons_self
      refine ⟨.call p c [], ?_⟩
      simp only [respond, step, hP]
      exact ⟨_, rfl, if_pos hmem⟩
  | getActiveGraphById reason g =>
    refine ⟨.execute p, ?_⟩
    simp only [respond, step, hP, Option.bind_some, execute]
    split
    · exact ⟨_, rfl, rfl⟩
    · split_ifs <;> exact ⟨_, rfl, rfl⟩
  | setGraphDone ending g =>
    refine ⟨.execute p, ?_⟩
    simp only [respond, step, hP, Option.bind_some, execute]
    split
    · exact ⟨_, rfl, rfl⟩
    · split_ifs <;> exact ⟨_, rfl, rfl⟩
  | graphDone ending g changed =>
    refine ⟨.reply p true, ?_⟩
    simp only [respond, step, hP, Option.bind_some, reply]
    split <;> exact ⟨_, rfl, rfl⟩
  | ended failed => exact absurd rfl (hlive failed)
  | updateTaskDependencies | markTaskEvaluated | handleEvaluatedTask | checkGraphSucceeded | graphChecked =>
    exact absurd hright id

end

end Evaluation

namespace CancelRequests

def start : CancelRequests := ⟨.start, fun _ => none⟩

def hear (w : Evaluation) (e : CancelEvent) (x : CancelRequest) : CancelRequest :=
  (w.signals e).foldl CancelRequest.receive { x with cancelled := x.cancelled || w.setsGraph e }

def subscribeCancelGraph (s : CancelRequests) (e : CancelEvent) (n : Nat) : Option CancelRequest :=
  if e.proc = some (.event n) then (s.requests n).map (hear s.evaluation e)
  else
    match e with
    | .move (.cancelGraph m g) => if n = m then some ⟨g, false, []⟩ else s.requests n
    | _ => s.requests n

def step (C : Constants) (s : CancelRequests) (e : CancelEvent) : Option CancelRequests :=
  (s.evaluation.respond C e).map fun w => ⟨w, s.subscribeCancelGraph e⟩

def ended (s : CancelRequests) (n : Nat) : Prop := ∃ failed, s.evaluation.procs (.event n) = some (.ended failed)

def rank (s : CancelRequests) (n : Nat) : ℕ ×ₗ ℕ :=
  ((s.evaluation.procs (.event n)).map Proc.rank).getD (toLex (0, 0))

/-- Requests that have ended are answered once and truly; the others are not answered
yet, can go on, and every answer that they get brings them nearer to their end. -/
structure Answered (C : Constants) (s : CancelRequests) (e : CancelEvent) (s' : CancelRequests) : Prop where
  ended : ∀ n x, s'.requests n = some x → s'.ended n → x.answers = [if x.cancelled then some x.graphId else none]
  waiting : ∀ n x, s'.requests n = some x → ¬ s'.ended n → x.answers = [] ∧
    ∃ m s'', (CancelEvent.move m).proc = some (.event n) ∧ step C s' (.move m) = some s''
  nearer : ∀ n x, s.requests n = some x → s'.rank n ≤ s.rank n ∧
    (e.proc = some (.event n) → s'.rank n < s.rank n)

/-- A call that fails a request gives a reason, and is not the `setGraphDone` that has
moved its graph. -/
def Explained (s : CancelRequests) (e : CancelEvent) (_ : CancelRequests) : Prop :=
  ∀ n x reason, e = .fail (.event n) reason → s.requests n = some x → reason = .error ∧
    ∀ ending g, s.evaluation.procs (.event n) ≠ some (.graphDone ending g true)

section

variable {C : Constants} {s s' : CancelRequests} {w : Evaluation} {e : CancelEvent} {n : Nat} {p : ProcId}
  {P P' : Proc} {x : CancelRequest}

theorem hear_nothing (hsignals : w.signals e = []) (hset : w.setsGraph e = false) : hear w e x = x := by
  simp [hear, hsignals, hset]

theorem hear_completed (hsignals : w.signals e = [.completed]) (hset : w.setsGraph e = false)
    (hanswers : x.answers = []) : hear w e x = { x with answers := [none] } := by
  simp [hear, hsignals, hset, CancelRequest.receive, CancelRequest.isPending, CancelRequest.resolve, hanswers]

theorem hear_next {g : GraphId} (hsignals : w.signals e = [.next g, .completed]) (hset : w.setsGraph e = false)
    (hanswers : x.answers = []) : hear w e x = { x with answers := [some g] } := by
  simp [hear, hsignals, hset, CancelRequest.receive, CancelRequest.isPending, CancelRequest.resolve, hanswers]

theorem hear_set (hsignals : w.signals e = []) :
    hear w e x = { x with cancelled := x.cancelled || w.setsGraph e } := by
  simp [hear, hsignals]

/-- What a request hears of an event of its procedure keeps it right. -/
theorem hear_right (h : w.Progress p e P P') (hP : w.procs p = some P) (hright : x.Right P)
    (hok : ∀ reason, e = .fail p reason → reason = .error ∧ ∀ ending g, P ≠ .graphDone ending g true) :
    (hear w e x).Right P' := by
  cases h with
  | called hc =>
    rw [hear_nothing rfl rfl]
    cases P with
    | handleFailGraphTasks reason g round tasks calls =>
      cases reason with
      | failure data => exact absurd hright id
      | cancelGraph => exact hright
    | updateTaskDependencies => exact absurd hright id
    | _ => simp [Proc.calls] at hc
  | @graphRead reason g tasks calls hactive =>
    rw [hear_nothing (by simp [Evaluation.signals, hP, hactive]) (by simp [Evaluation.setsGraph, hP])]
    cases reason with
    | failure data => exact absurd hright id
    | cancelGraph => exact hright
  | @graphInactive reason g hactive =>
    rw [hear_completed (by simp [Evaluation.signals, hP, hactive]) (by simp [Evaluation.setsGraph, hP])
      (CancelRequest.Right.answers hright (by simp))]
    simp [CancelRequest.Right, CancelRequest.Right.not_cancelled hright (by simp) (by simp)]
  | @graphSet ending g =>
    rw [hear_set (by simp [Evaluation.signals, hP])]
    cases ending with
    | failGraph reason =>
      cases reason with
      | failure data => exact absurd hright id
      | cancelGraph => exact ⟨hright.1, by simp [hright.2.1, Evaluation.setsGraph, hP], hright.2.2⟩
    | succeeded path | polledFailure data => exact absurd hright id
  | @nextRound reason g round next tasks calls accepted hnext =>
    rw [hear_nothing (by simp [Evaluation.signals, hP]) rfl]
    cases reason with
    | failure data => exact absurd hright id
    | cancelGraph => exact hright
  | @lastRound reason g round tasks accepted =>
    rw [hear_nothing (by simp [Evaluation.signals, hP]) rfl]
    cases reason with
    | failure data => exact absurd hright id
    | cancelGraph => exact hright
  | @finished ending g changed accepted =>
    cases ending with
    | failGraph reason =>
      cases reason with
      | failure data => exact absurd hright id
      | cancelGraph =>
        obtain ⟨hg, hcancelled, hanswers⟩ := hright
        cases changed with
        | true =>
          rw [hear_next (g := g) (by simp [Evaluation.signals, hP]) rfl hanswers]
          simp [CancelRequest.Right, hcancelled, hg]
        | false =>
          rw [hear_completed (by simp [Evaluation.signals, hP, Reason.handleStreamError]) rfl hanswers]
          simp [CancelRequest.Right, hcancelled]
    | succeeded path | polledFailure data => exact absurd hright id
  | @failed _ reason hlive =>
    obtain ⟨rfl, hdone⟩ := hok reason rfl
    rw [hear_completed rfl rfl (CancelRequest.Right.answers hright hlive)]
    simp [CancelRequest.Right, CancelRequest.Right.not_cancelled hright hlive hdone]
  | @notFound reason g =>
    rw [hear_completed (by simp [Evaluation.signals, hP]) rfl (CancelRequest.Right.answers hright (by simp))]
    simp [CancelRequest.Right, CancelRequest.Right.not_cancelled hright (by simp) (by simp)]
  | @notSet ending g =>
    rw [hear_nothing (by simp [Evaluation.signals, hP]) rfl]
    cases ending with
    | failGraph reason =>
      cases reason with
      | failure data => exact absurd hright id
      | cancelGraph => exact hright
    | succeeded path | polledFailure data => exact absurd hright id

theorem subscribeCancelGraph_self (hp : e.proc = some (.event n)) :
    s.subscribeCancelGraph e n = (s.requests n).map (hear s.evaluation e) := if_pos hp

theorem subscribeCancelGraph_other (hp : e.proc ≠ some (.event n)) (h : s.subscribeCancelGraph e n = some x) :
    s.requests n = some x ∨ ∃ g, e = .move (.cancelGraph n g) ∧ x = ⟨g, false, []⟩ := by
  unfold subscribeCancelGraph at h
  rw [if_neg hp] at h
  split at h
  · rename_i m g
    split_ifs at h with hm
    · obtain rfl := hm
      exact Or.inr ⟨g, rfl, (Option.some.inj h).symm⟩
    · exact Or.inl h
  · exact Or.inl h

/-- Every request has a procedure, which tells how far the request is. -/
def Asked (s : CancelRequests) : Prop :=
  ∀ n x, s.requests n = some x → ∃ P, s.evaluation.procs (.event n) = some P ∧ x.Right P

theorem Asked.step (h : Asked s) (hstep : step C s e = some s') (hok : Explained s e s') : Asked s' := by
  obtain ⟨w, hw, rfl⟩ := Option.map_eq_some_iff.mp hstep
  intro n x' hx'
  by_cases hp : e.proc = some (.event n)
  · obtain ⟨x, hx, rfl⟩ := Option.map_eq_some_iff.mp ((subscribeCancelGraph_self hp).symm.trans hx')
    obtain ⟨P, hP, hright⟩ := h n x hx
    obtain ⟨P', hP', hprogress⟩ := Evaluation.respond_progress hw hP hp hright
    refine ⟨P', hP', hear_right hprogress hP hright fun reason he => ?_⟩
    obtain ⟨herror, hdone⟩ := hok n x reason he hx
    exact ⟨herror, fun ending g hPd => hdone ending g (hP.trans (congrArg some hPd))⟩
  · rcases subscribeCancelGraph_other hp hx' with hx | ⟨g, rfl, rfl⟩
    · obtain ⟨P, hP, hright⟩ := h n x' hx
      exact ⟨P, Evaluation.respond_other hw hP hp, hright⟩
    · cases Evaluation.respond_change hw with
      | cancelGraph => exact ⟨_, Function.update_self .., rfl, rfl, rfl⟩

theorem Asked.answered (h : Asked s) (hstep : CancelRequests.step C s e = some s') (h' : Asked s') :
    Answered C s e s' := by
  obtain ⟨w, hw, rfl⟩ := Option.map_eq_some_iff.mp hstep
  refine ⟨fun n x hx hended => ?_, fun n x hx hlive => ?_, fun n x hx => ?_⟩
  · obtain ⟨P, hP, hright⟩ := h' n x hx
    obtain ⟨failed, hfailed⟩ := hended
    obtain rfl := Option.some.inj (hP.symm.trans hfailed)
    exact hright
  · obtain ⟨P, hP, hright⟩ := h' n x hx
    have hnot : ∀ failed, P ≠ .ended failed := by
      rintro failed rfl
      exact hlive ⟨failed, hP⟩
    obtain ⟨m, w', hm, hw'⟩ := Evaluation.exists_respond (C := C) hP hright hnot
    exact ⟨hright.answers hnot, m, _, hm, Option.map_eq_some_iff.mpr ⟨w', hw', rfl⟩⟩
  · obtain ⟨P, hP, hright⟩ := h n x hx
    by_cases hp : e.proc = some (.event n)
    · obtain ⟨P', hP', hprogress⟩ := Evaluation.respond_progress hw hP hp hright
      have hlt : P'.rank < P.rank := hprogress.rank_lt hright
      simp only [rank, hP, hP', Option.map_some, Option.getD_some]
      exact ⟨hlt.le, fun _ => hlt⟩
    · have hP' := Evaluation.respond_other hw hP hp
      simp only [rank, hP, hP']
      exact ⟨le_rfl, fun hself => absurd hself hp⟩

/-- A request that is answered truly once it has failed was failed with a reason, before
it had set its graph. -/
theorem Asked.explained (h : Asked s) (hstep : CancelRequests.step C s e = some s')
    (hanswered : Answered C s e s') :
    Explained s e s' := by
  obtain ⟨w, hw, rfl⟩ := Option.map_eq_some_iff.mp hstep
  rintro n x reason rfl hx
  obtain ⟨P, hP, hright⟩ := h n x hx
  obtain ⟨P', hP', hprogress⟩ := Evaluation.respond_progress hw hP rfl hright
  cases hprogress with
  | failed hlive =>
    have hanswers := hright.answers hlive
    have hx' : s.subscribeCancelGraph (.fail (.event n) reason) n =
        some (hear s.evaluation (.fail (.event n) reason) x) := by
      rw [subscribeCancelGraph_self rfl, hx]
      rfl
    have hanswer := hanswered.ended n _ hx' ⟨true, hP'⟩
    cases reason with
    | nullish =>
      have hnone : (hear s.evaluation (.fail (.event n) .nullish) x).answers = [] := hanswers
      rw [hnone] at hanswer
      simp at hanswer
    | error =>
      rw [hear_completed rfl rfl hanswers] at hanswer
      refine ⟨rfl, fun ending g hdone => ?_⟩
      obtain rfl := Option.some.inj (hP.symm.trans hdone)
      cases ending with
      | failGraph reason =>
        cases reason with
        | failure data => exact absurd hright id
        | cancelGraph => simp [hright.2.1] at hanswer
      | succeeded path | polledFailure data => exact absurd hright id

theorem asked_start : Asked start := by
  intro n x hx
  simp [start] at hx

end

end CancelRequests

open CancelRequests

/-- The cancel requests of a run are answered once and truly, just if each call that
fails one of them gives a reason and has not moved the graph. -/
theorem cancel_answered_iff (C : Constants) (es : List CancelEvent) :
    Lts.Along (CancelRequests.step C) (Answered C) CancelRequests.start es ↔
      Lts.Along (CancelRequests.step C) Explained CancelRequests.start es := by
  constructor
  · intro h
    exact h.of_invariant Asked (fun _ _ _ hstep hanswered hs => hs.step hstep (hs.explained hstep hanswered))
      (fun _ _ _ hstep hanswered hs => hs.explained hstep hanswered) asked_start
  · intro h
    exact h.of_invariant Asked (fun _ _ _ hstep hok hs => hs.step hstep hok)
      (fun _ _ _ hstep hok hs => hs.answered hstep (hs.step hstep hok)) asked_start

/-- `publishCancelTask` rejects with undefined, and the request is never answered. -/
theorem cancel_unanswered : ¬ Lts.Along (CancelRequests.step .sample) (Answered .sample) CancelRequests.start
    [.move (.createGraph 0 [⟨0, [.succeeded], false⟩]), .move (.cancelGraph 0 0), .move (.execute (.event 0)),
      .move (.call (.event 0) (.setTaskState 0 .cancelled) []), .move (.reply (.event 0) true),
      .move (.call (.event 0) (.markTaskEvaluated 0) []), .move (.reply (.event 0) true),
      .fail (.event 0) .nullish] := by
  intro h
  have hlast := h.getLast (List.cons_ne_nil _ _) rfl rfl
  have hanswer : ([] : List (Option GraphId)) = [none] := hlast.ended 0 _ rfl ⟨true, rfl⟩
  exact absurd hanswer (by decide)

end OnTaskGraph
