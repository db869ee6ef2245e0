import OnTaskGraph.Evaluation
import OnTaskGraph.History
import OnTaskGraph.Lts

/-! One poll of the completed task poller. Every check of a terminal task emits one
element, so the buffer that has a place for each of them is full when the last check
has finished, and only then the records of the batch are deleted. -/

namespace OnTaskGraph

open History

section Buffer

variable {α : Type*}

/-- `bufferWithCount` at an element: what is kept, and the buffers that are emitted. -/
def bufferOnNext (count : Nat) (buffer : List α) (x : α) : List α × List (List α) :=
  if buffer.length + 1 = count then ([], [buffer ++ [x]]) else (buffer ++ [x], [])

/-- `bufferWithCount` at the end: a part of a buffer is emitted unless it is empty. -/
def bufferOnCompleted : List α → List (List α)
  | [] => []
  | x :: buffer => [x :: buffer]

end Buffer

structure TaskDocument where
  id : Nat
  data : TaskData
  deriving DecidableEq

def TaskDocument.terminal (d : TaskDocument) : Bool := d.data.state ∈ d.data.terminalOnStates

/-- How far `handlePotentialFinishedGraph` is with a terminal task. -/
inductive CheckStage
  | waiting
  | checkGraphSucceeded
  | setGraphDone (graphState : TaskState)
  | publishProgress (graphState : TaskState)
  | publishGraphFinished (graphState : TaskState)
  | emitted
  | failed
  /-- The answer came when another check had failed. -/
  | disposed
  deriving DecidableEq

inductive PollNote
  | checkGraphSucceeded (i : Nat) (done : Bool)
  | setGraphDone (i : Nat) (graphState : TaskState) (changed : Bool)
  | publishGraphFinished (i : Nat) (ok : Bool)
  | failed (i : Nat)
  | deleteTasks (ids : List Nat)
  deriving DecidableEq

structure Poll where
  batch : Option (List TaskDocument)
  /-- The checks of the terminal tasks, in their order. -/
  checks : List CheckStage
  buffer : List Nat
  stopped : Bool
  log : List PollNote

/-- An answer `none` is a rejection, a throw, or a value that the next step cannot read.
`ok` of `publishProgress` says that the graph progress service has resolved. The
graph finished event has a handler of its own: `some ok` is its resolved or rejected
promise, of which the latter is logged only, and `none` a throw before the promise. -/
inductive PollEvent
  | findCompletedTasks (answer : Option (List TaskDocument))
  | handlePotentialFinishedGraph (i : Nat)
  | checkGraphSucceeded (i : Nat) (answer : Option Bool)
  | setGraphDone (i : Nat) (answer : Option Bool)
  | publishProgress (i : Nat) (ok : Bool)
  | publishGraphFinished (i : Nat) (answer : Option Bool)

namespace Poll

def start : Poll := ⟨none, [], [], false, []⟩

def note (p : Poll) (x : PollNote) : Poll := { p with log := x :: p.log }

def setCheck (p : Poll) (i : Nat) (stage : CheckStage) : Poll := { p with checks := p.checks.set i stage }

def terminalTasks (p : Poll) : List TaskDocument := (p.batch.getD []).filter TaskDocument.terminal

def deleteTasks (p : Poll) : Poll := p.note (.deleteTasks ((p.batch.getD []).map TaskDocument.id))

/-- Each buffer is mapped to the batch, whose records are deleted. -/
def deliver (p : Poll) (buffers : List (List Nat)) : Poll := buffers.foldl (fun p _ => p.deleteTasks) p

/-- The checks are merged; their stream completes with the last of them. -/
def complete (p : Poll) : Poll :=
  if p.checks.all (· = .emitted) then { p with buffer := [] }.deliver (bufferOnCompleted p.buffer) else p

def onNext (p : Poll) (i : Nat) : Poll :=
  { p with buffer := (bufferOnNext p.checks.length p.buffer i).1 }.deliver
    (bufferOnNext p.checks.length p.buffer i).2

/-- A check emits its one element and completes. -/
def emit (p : Poll) (i : Nat) : Poll :=
  if p.stopped then p.setCheck i .emitted else ((p.setCheck i .emitted).onNext i).complete

def fail (p : Poll) (i : Nat) : Poll := { (p.setCheck i .failed).note (.failed i) with stopped := true }

def deleteCompletedGraphs (p : Poll) (tasks : List TaskDocument) : Poll :=
  let p := { p with batch := some tasks }
  if p.terminalTasks = [] then p.deleteTasks else { p with checks := p.terminalTasks.map fun _ => .waiting }

def step (C : Constants) (p : Poll) : PollEvent → Option Poll
  | .findCompletedTasks answer =>
    if p.batch.isNone ∧ p.stopped = false then
      match answer with
      | none => some { p with stopped := true }
      | some [] => some { p with batch := some [] }
      | some tasks => some (p.deleteCompletedGraphs tasks)
    else none
  | .handlePotentialFinishedGraph i =>
    if p.stopped = false ∧ p.checks[i]? = some .waiting ∧ (p.checks.take i).all (· ≠ .waiting) then
      p.terminalTasks[i]?.map fun d => p.setCheck i
        (if d.data.state ∈ C.failedStates then .setGraphDone .failed else .checkGraphSucceeded)
    else none
  | .checkGraphSucceeded i answer =>
    match p.checks[i]? with
    | some .checkGraphSucceeded =>
      if p.stopped then some (p.setCheck i .disposed)
      else
        match answer with
        | none => some (p.fail i)
        | some true =>
          some ((p.note (.checkGraphSucceeded i true)).setCheck i (.setGraphDone .succeeded))
        | some false => some ((p.note (.checkGraphSucceeded i false)).emit i)
    | _ => none
  | .setGraphDone i answer =>
    match p.checks[i]?, answer with
    | some (.setGraphDone _), none => some (p.fail i)
    | some (.setGraphDone state), some true =>
      some ((p.note (.setGraphDone i state true)).setCheck i (.publishProgress state))
    | some (.setGraphDone state), some false => some ((p.note (.setGraphDone i state false)).emit i)
    | _, _ => none
  | .publishProgress i ok =>
    match p.checks[i]? with
    | some (.publishProgress state) =>
      some (if ok then p.setCheck i (.publishGraphFinished state) else p.fail i)
    | _ => none
  | .publishGraphFinished i answer =>
    match p.checks[i]?, answer with
    | some (.publishGraphFinished _), none => some (p.fail i)
    -- _publishGraphFinished catches and logs a rejection, and its check goes on
    | some (.publishGraphFinished _), some ok => some ((p.note (.publishGraphFinished i ok)).emit i)
    | _, _ => none

end Poll

def PollNote.quiet : PollNote → Bool
  | .deleteTasks _ | .failed _ => false
  | _ => true

def PollNote.deletion : PollNote → Option (List Nat)
  | .deleteTasks ids => some ids
  | _ => none

/-- The graph was found not done, or it was set done, and where that has changed it the
publishing has ended, with an answer or with a rejection that was logged. -/
def CheckFinished (i : Nat) (log : List PollNote) : Prop :=
  .checkGraphSucceeded i false ∈ log ∨ (∃ state, .setGraphDone i state false ∈ log) ∨
    (∃ state, .setGraphDone i state true ∈ log) ∧ ∃ ok, .publishGraphFinished i ok ∈ log

/-- The whole batch is deleted, once, after all checks of its terminal tasks. -/
def PollNote.Follows (tasks : List TaskDocument) : PollNote → List PollNote → Prop
  | .deleteTasks ids, earlier => ids = tasks.map TaskDocument.id ∧ (∀ ids', .deleteTasks ids' ∉ earlier) ∧
      ∀ i < (tasks.filter TaskDocument.terminal).length, CheckFinished i earlier
  | _, _ => True

theorem length_deletion_le {tasks : List TaskDocument} {log : List PollNote}
    (h : Chronicle (PollNote.Follows tasks) log) : (log.filterMap PollNote.deletion).length ≤ 1 := by
  induction log with
  | nil => simp
  | cons x log ih =>
    have hrest := ih h.2
    cases x with
    | deleteTasks ids =>
      have hnone : log.filterMap PollNote.deletion = [] := by
        refine List.filterMap_eq_nil_iff.mpr fun y hy => ?_
        cases y with
        | deleteTasks ids' => exact absurd hy (h.1.2.1 ids')
        | checkGraphSucceeded | setGraphDone | publishGraphFinished | failed => rfl
      simp [PollNote.deletion, hnone]
    | checkGraphSucceeded | setGraphDone | publishGraphFinished | failed =>
      simpa [List.filterMap_cons, PollNote.deletion] using hrest

theorem CheckFinished.mono {i : Nat} {log log' : List PollNote} (h : CheckFinished i log)
    (hsub : log ⊆ log') : CheckFinished i log' := by
  rcases h with hnot | ⟨state, hkept⟩ | ⟨⟨state, hset⟩, ok, hended⟩
  · exact Or.inl (hsub hnot)
  · exact Or.inr (Or.inl ⟨state, hsub hkept⟩)
  · exact Or.inr (Or.inr ⟨⟨state, hsub hset⟩, ok, hsub hended⟩)

namespace Poll

def Undeleted (p : Poll) : Prop := ∀ ids, .deleteTasks ids ∉ p.log

structure Checked (p : Poll) : Prop where
  chronicle : Chronicle (PollNote.Follows (p.batch.getD [])) p.log
  unfound : p.batch = none → p.log = []
  checks : p.checks.length = p.terminalTasks.length
  emitted : ∀ {i}, p.checks[i]? = some .emitted → CheckFinished i p.log
  publishing : ∀ {i state}, p.checks[i]? = some (.publishProgress state) ∨
    p.checks[i]? = some (.publishGraphFinished state) → ∃ state, .setGraphDone i state true ∈ p.log
  buffered : p.stopped = false → p.Undeleted → p.buffer.length = p.checks.countP (· = .emitted)
  remaining : p.stopped = false → p.Undeleted → p.checks ≠ [] →
    p.checks.countP (· = .emitted) < p.checks.length
  deleted : ∀ {ids}, .deleteTasks ids ∈ p.log →
    p.stopped = false ∧ ∀ i < p.checks.length, p.checks[i]? = some .emitted
  failed : ∀ {i}, .failed i ∈ p.log → p.stopped = true

section

variable {C : Constants} {p p' : Poll} {i : Nat} {s s' : CheckStage} {x : PollNote}

theorem Checked.undeleted (h : Checked p) (hi : p.checks[i]? = some s) (hs : s ≠ .emitted) :
    p.Undeleted := by
  intro ids hmem
  have hlt : i < p.checks.length := (List.getElem?_eq_some_iff.mp hi).1
  have hemitted := (h.deleted hmem).2 i hlt
  exact hs (Option.some.inj (hi.symm.trans hemitted))

theorem mem_note (hx : x.quiet = true) {y : PollNote} (hy : y.quiet = false) :
    y ∈ (p.note x).log ↔ y ∈ p.log := by
  have hne : y ≠ x := by
    rintro rfl
    simp [hx] at hy
  simp [note, hne]

theorem Checked.note (h : Checked p) (hx : x.quiet = true) (hbatch : p.batch ≠ none) : Checked (p.note x) := by
  have hsub : p.log ⊆ (p.note x).log := List.subset_cons_self _ _
  have hundeleted : (p.note x).Undeleted → p.Undeleted := fun hu ids hmem => hu ids (hsub hmem)
  refine ⟨⟨?_, h.chronicle⟩, fun hnone => absurd hnone hbatch, h.checks, fun he => (h.emitted he).mono hsub,
    fun he => ?_, fun hs hu => h.buffered hs (hundeleted hu), fun hs hu => h.remaining hs (hundeleted hu),
    fun hmem => h.deleted ((mem_note hx rfl).mp hmem), fun hmem => h.failed ((mem_note hx rfl).mp hmem)⟩
  · cases x <;> trivial
  · obtain ⟨state, hset⟩ := h.publishing he
    exact ⟨state, hsub hset⟩

theorem getElem?_setCheck_ne {j : Nat} (h : j ≠ i) : (p.setCheck i s).checks[j]? = p.checks[j]? := by
  simp [setCheck, List.getElem?_set_ne (Ne.symm h)]

theorem getElem?_setCheck_self (hi : p.checks[i]? = some s) : (p.setCheck i s').checks[i]? = some s' := by
  have hlt : i < p.checks.length := (List.getElem?_eq_some_iff.mp hi).1
  simp [setCheck, hlt]

theorem countP_setCheck (stage : CheckStage) (hi : p.checks[i]? = some s) (hs : s ≠ .emitted) :
    (p.setCheck i stage).checks.countP (· = .emitted) =
      p.checks.countP (· = .emitted) + if stage = .emitted then 1 else 0 := by
  obtain ⟨hlt, hget⟩ := List.getElem?_eq_some_iff.mp hi
  simp [setCheck, List.countP_set hlt, hget, hs]

theorem Checked.setCheck (h : Checked p) (hi : p.checks[i]? = some s) (hs : s ≠ .emitted)
    (hs' : s' ≠ .emitted) (hpublishing : ∀ state, s' = .publishProgress state ∨ s' = .publishGraphFinished state →
      ∃ state, .setGraphDone i state true ∈ p.log) : Checked (p.setCheck i s') := by
  have hundeleted := h.undeleted hi hs
  have hcount := countP_setCheck s' hi hs
  simp only [if_neg hs', Nat.add_zero] at hcount
  have hlength : (p.setCheck i s').checks.length = p.checks.length := by simp [Poll.setCheck]
  refine ⟨h.chronicle, h.unfound, hlength.trans h.checks, fun {j} he => ?_, fun {j state} he => ?_,
    fun hstopped hu => ?_, fun hstopped hu hne => ?_, fun hmem => absurd hmem (hundeleted _), h.failed⟩
  · by_cases hj : j = i
    · subst hj
      rw [getElem?_setCheck_self hi] at he
      exact absurd (Option.some.inj he) hs'
    · exact h.emitted (getElem?_setCheck_ne hj ▸ he)
  · by_cases hj : j = i
    · subst hj
      rw [getElem?_setCheck_self hi] at he
      exact hpublishing state (he.imp Option.some.inj Option.some.inj)
    · rw [getElem?_setCheck_ne hj] at he
      exact h.publishing he
  · rw [hcount]
    exact h.buffered hstopped hundeleted
  · rw [hcount, hlength]
    refine h.remaining hstopped hundeleted ?_
    rintro hnil
    simp [hnil] at hi

theorem Checked.fail (h : Checked p) (hi : p.checks[i]? = some s) (hs : s ≠ .emitted)
    (hbatch : p.batch ≠ none) : Checked (p.fail i) := by
  have hundeleted := h.undeleted hi hs
  have hset : Checked (p.setCheck i .failed) := h.setCheck hi hs (by simp) (by simp)
  refine ⟨⟨trivial, hset.chronicle⟩, fun hnone => absurd hnone hbatch, hset.checks, fun he => ?_, fun he => ?_,
    fun hstopped => by simp [Poll.fail] at hstopped, fun hstopped => by simp [Poll.fail] at hstopped,
    fun {ids} hmem => ?_, fun _ => rfl⟩
  · exact (hset.emitted he).mono (List.subset_cons_self _ _)
  · obtain ⟨state, hmem⟩ := hset.publishing he
    exact ⟨state, List.mem_cons_of_mem _ hmem⟩
  · exact absurd (List.mem_of_ne_of_mem (by simp) hmem) (hundeleted ids)

theorem all_emitted_iff : p.checks.all (· = .emitted) = true ↔
    p.checks.countP (· = .emitted) = p.checks.length := by
  rw [List.countP_eq_length, List.all_eq_true]

/-- The last check fills the buffer, which is empty when the stream then completes. -/
theorem emit_last (hstopped : p.stopped = false)
    (hall : (p.setCheck i .emitted).checks.countP (· = .emitted) = p.checks.length)
    (hlast : p.buffer.length + 1 = p.checks.length) :
    p.emit i = { p.setCheck i .emitted with buffer := [] }.deleteTasks := by
  have hlength : (p.setCheck i .emitted).checks.length = p.checks.length := by simp [Poll.setCheck]
  have hnext : (p.setCheck i .emitted).onNext i = { p.setCheck i .emitted with buffer := [] }.deleteTasks := by
    simp [onNext, bufferOnNext, Poll.setCheck, hlast, deliver]
  have hdone : (p.setCheck i .emitted).checks.all (· = .emitted) = true :=
    all_emitted_iff.mpr (hall.trans hlength.symm)
  rw [emit, if_neg (by simp [hstopped]), hnext, complete]
  exact if_pos hdone

theorem emit_more (hstopped : p.stopped = false)
    (hopen : (p.setCheck i .emitted).checks.countP (· = .emitted) ≠ p.checks.length)
    (hmore : p.buffer.length + 1 ≠ p.checks.length) :
    p.emit i = { p.setCheck i .emitted with buffer := p.buffer ++ [i] } := by
  have hlength : (p.setCheck i .emitted).checks.length = p.checks.length := by simp [Poll.setCheck]
  have hnext : (p.setCheck i .emitted).onNext i =
      { p.setCheck i .emitted with buffer := p.buffer ++ [i] } := by
    simp [onNext, bufferOnNext, Poll.setCheck, hmore, deliver]
  have hdone : ¬ (p.setCheck i .emitted).checks.all (· = .emitted) = true := by
    rw [all_emitted_iff, hlength]
    exact hopen
  rw [emit, if_neg (by simp [hstopped]), hnext, complete]
  exact if_neg hdone

theorem Checked.emit (h : Checked p) (hi : p.checks[i]? = some s) (hs : s ≠ .emitted)
    (hfinished : CheckFinished i p.log) (hbatch : p.batch ≠ none) : Checked (p.emit i) := by
  have hundeleted := h.undeleted hi hs
  have hlength : (p.setCheck i .emitted).checks.length = p.checks.length := by simp [Poll.setCheck]
  have hcount := countP_setCheck .emitted hi hs
  simp only [if_true] at hcount
  have hemitted : ∀ {j}, (p.setCheck i .emitted).checks[j]? = some .emitted → CheckFinished j p.log := by
    intro j he
    by_cases hj : j = i
    · exact hj ▸ hfinished
    · exact h.emitted (getElem?_setCheck_ne hj ▸ he)
  have hpublishing : ∀ {j state}, (p.setCheck i .emitted).checks[j]? = some (.publishProgress state) ∨
      (p.setCheck i .emitted).checks[j]? = some (.publishGraphFinished state) →
      ∃ state, .setGraphDone j state true ∈ p.log := by
    intro j state he
    have hj : j ≠ i := by
      rintro rfl
      simp [getElem?_setCheck_self hi] at he
    rw [getElem?_setCheck_ne hj] at he
    exact h.publishing he
  cases hstopped : p.stopped with
  | true =>
    have heq : p.emit i = p.setCheck i .emitted := by simp [Poll.emit, hstopped]
    rw [heq]
    have hstopped' : (p.setCheck i .emitted).stopped ≠ false := by simp [Poll.setCheck, hstopped]
    exact ⟨h.chronicle, h.unfound, hlength.trans h.checks, hemitted, hpublishing,
      fun hs' => absurd hs' hstopped', fun hs' => absurd hs' hstopped',
      fun hmem => absurd hmem (hundeleted _), h.failed⟩
  | false =>
    have hbuffer := h.buffered hstopped hundeleted
    have hremaining := h.remaining hstopped hundeleted fun hnil => by simp [hnil] at hi
    by_cases hlast : p.buffer.length + 1 = p.checks.length
    · have hall : (p.setCheck i .emitted).checks.countP (· = .emitted) = p.checks.length := by omega
      have hdone : ∀ j < p.checks.length, (p.setCheck i .emitted).checks[j]? = some .emitted := by
        intro j hj
        have hj' : j < (p.setCheck i .emitted).checks.length := by omega
        have hmem := List.countP_eq_length.mp (hall.trans hlength.symm) _ (List.getElem_mem hj')
        rw [List.getElem?_eq_getElem hj']
        simpa using hmem
      rw [emit_last hstopped hall hlast]
      refine ⟨⟨⟨rfl, hundeleted, fun j hj => hemitted (hdone j ?_)⟩, h.chronicle⟩,
        fun hnone => absurd hnone hbatch, hlength.trans h.checks,
        fun he => (hemitted he).mono (List.subset_cons_self _ _), fun he => ?_,
        fun _ hu => absurd List.mem_cons_self (hu _), fun _ hu => absurd List.mem_cons_self (hu _),
        fun _ => ⟨hstopped, fun j hj => hdone j (hlength ▸ hj)⟩, fun hmem => ?_⟩
      · have hchecks := h.checks
        simp only [terminalTasks] at hchecks
        exact hchecks ▸ hj
      · obtain ⟨state, hmem⟩ := hpublishing he
        exact ⟨state, List.mem_cons_of_mem _ hmem⟩
      · exact h.failed (List.mem_of_ne_of_mem (by simp) hmem)
    · have hopen : (p.setCheck i .emitted).checks.countP (· = .emitted) ≠ p.checks.length := by omega
      rw [emit_more hstopped hopen hlast]
      refine ⟨h.chronicle, h.unfound, hlength.trans h.checks, hemitted, hpublishing, fun _ _ => ?_,
        fun _ _ _ => ?_, fun hmem => absurd hmem (hundeleted _), h.failed⟩
      · have hnew : (p.buffer ++ [i]).length = p.buffer.length + 1 := by simp
        simp only [hnew]
        omega
      · have hle := List.countP_le_length (p := (decide <| · = CheckStage.emitted))
          (l := (p.setCheck i .emitted).checks)
        simp only
        omega

theorem Checked.deleteCompletedGraphs (h : Checked p) (hbatch : p.batch = none) (hstopped : p.stopped = false)
    (tasks : List TaskDocument) : Checked (p.deleteCompletedGraphs tasks) := by
  have hlog : p.log = [] := h.unfound hbatch
  have hchecks : p.checks = [] := by
    have hlength := h.checks
    simpa [terminalTasks, hbatch] using hlength
  have hbuffer : p.buffer = [] := by
    have hlength := h.buffered hstopped (by simp [Undeleted, hlog])
    simpa [hchecks] using hlength
  unfold Poll.deleteCompletedGraphs
  by_cases hterminal : tasks.filter TaskDocument.terminal = []
  · have hnone : ({ p with batch := some tasks } : Poll).terminalTasks = [] := hterminal
    simp only [hnone, if_true]
    refine ⟨⟨⟨rfl, by simp [hlog], fun i hi => ?_⟩, by simp [hlog, Chronicle]⟩,
      by simp [Poll.deleteTasks, Poll.note], ?_, fun he => ?_, fun he => ?_,
      fun _ hu => absurd List.mem_cons_self (hu _), fun _ hu => absurd List.mem_cons_self (hu _),
      fun _ => ⟨hstopped, fun i hi => ?_⟩, fun hmem => ?_⟩
    · have hlt : i < (tasks.filter TaskDocument.terminal).length := hi
      rw [hterminal] at hlt
      exact absurd hlt (Nat.not_lt_zero i)
    · simp [Poll.deleteTasks, Poll.note, terminalTasks, hchecks, hterminal]
    · simp [Poll.deleteTasks, Poll.note, hchecks] at he
    · simp [Poll.deleteTasks, Poll.note, hchecks] at he
    · simp [Poll.deleteTasks, Poll.note, hchecks] at hi
    · simp [Poll.deleteTasks, Poll.note, hlog] at hmem
  · have hsome : ({ p with batch := some tasks } : Poll).terminalTasks ≠ [] := hterminal
    have hwaiting : ∀ s ∈ (tasks.filter TaskDocument.terminal).map fun _ => CheckStage.waiting, s = .waiting := by
      simp
    have hcount : ((tasks.filter TaskDocument.terminal).map fun _ => CheckStage.waiting).countP
        (· = .emitted) = 0 := by
      refine List.countP_eq_zero.mpr fun s hs => ?_
      simp [hwaiting s hs]
    simp only [if_neg hsome]
    refine ⟨by simp [hlog, Chronicle], fun _ => hlog, by simp [terminalTasks], fun he => ?_, fun he => ?_,
      fun _ _ => ?_, fun _ _ _ => ?_, fun hmem => ?_, fun hmem => ?_⟩
    · have hs := hwaiting _ (List.mem_of_getElem? he)
      simp at hs
    · have hs :=
        he.imp (fun h => hwaiting _ (List.mem_of_getElem? h)) fun h => hwaiting _ (List.mem_of_getElem? h)
      simp at hs
    · exact (congrArg List.length hbuffer).trans hcount.symm
    · have hpos := List.length_pos_of_ne_nil hterminal
      simpa [terminalTasks, List.countP_replicate] using hpos
    · simp [hlog] at hmem
    · simp [hlog] at hmem

theorem Checked.step (h : Checked p) {e : PollEvent} (hstep : p.step C e = some p') : Checked p' := by
  have hbatch : p.checks ≠ [] → p.batch ≠ none := by
    intro hne hnone
    have hlength := h.checks
    simp [terminalTasks, hnone] at hlength
    exact hne hlength
  have hfound : ∀ {i : Nat} {s}, p.checks[i]? = some s → p.batch ≠ none := by
    intro i s hi
    refine hbatch fun hnil => ?_
    simp [hnil] at hi
  cases e with
  | findCompletedTasks answer =>
    simp only [Poll.step] at hstep
    split_ifs at hstep with hopen
    obtain ⟨hnone, hstopped⟩ := hopen
    rw [Option.isNone_iff_eq_none] at hnone
    have hlog : p.log = [] := h.unfound hnone
    have hchecks : p.checks = [] := by
      have hlength := h.checks
      simpa [terminalTasks, hnone] using hlength
    split at hstep <;> obtain rfl := Option.some.inj hstep
    · refine ⟨h.chronicle, h.unfound, h.checks, h.emitted, h.publishing, fun hopen => by simp at hopen,
        fun hopen => by simp at hopen, fun hmem => ?_, fun _ => rfl⟩
      simp [hlog] at hmem
    · refine ⟨by simp [hlog, Chronicle], fun _ => hlog, by simp [terminalTasks, hchecks], h.emitted, h.publishing,
        h.buffered, h.remaining, h.deleted, h.failed⟩
    · exact h.deleteCompletedGraphs hnone hstopped _
  | handlePotentialFinishedGraph i =>
    simp only [Poll.step] at hstep
    split_ifs at hstep with hopen
    obtain ⟨d, -, rfl⟩ := Option.map_eq_some_iff.mp hstep
    refine h.setCheck hopen.2.1 (by simp) ?_ ?_ <;> split <;> simp
  | checkGraphSucceeded i answer =>
    simp only [Poll.step] at hstep
    split at hstep
    · rename_i hi
      split_ifs at hstep with hstopped
      · obtain rfl := Option.some.inj hstep
        exact h.setCheck hi (by simp) (by simp) (by simp)
      · split at hstep <;> obtain rfl := Option.some.inj hstep
        · exact h.fail hi (by simp) (hfound hi)
        · exact (h.note rfl (hfound hi)).setCheck hi (by simp) (by simp) (by simp)
        · exact (h.note rfl (hfound hi)).emit hi (by simp) (Or.inl List.mem_cons_self) (hfound hi)
    · simp at hstep
  | setGraphDone i answer =>
    simp only [Poll.step] at hstep
    split at hstep
    · rename_i hi
      obtain rfl := Option.some.inj hstep
      exact h.fail hi (by simp) (hfound hi)
    · rename_i state hi
      obtain rfl := Option.some.inj hstep
      refine (h.note rfl (hfound hi)).setCheck hi (by simp) (by simp) fun _ _ => ?_
      exact ⟨state, List.mem_cons_self⟩
    · rename_i state hi
      obtain rfl := Option.some.inj hstep
      refine (h.note rfl (hfound hi)).emit hi (by simp) ?_ (hfound hi)
      exact Or.inr (Or.inl ⟨state, List.mem_cons_self⟩)
    · simp at hstep
  | publishProgress i ok =>
    simp only [Poll.step] at hstep
    split at hstep
    · rename_i state hi
      obtain rfl := Option.some.inj hstep
      cases ok with
      | true => exact h.setCheck hi (by simp) (by simp) fun _ _ => h.publishing (Or.inl hi)
      | false => exact h.fail hi (by simp) (hfound hi)
    · simp at hstep
  | publishGraphFinished i answer =>
    simp only [Poll.step] at hstep
    split at hstep
    · rename_i hi
      obtain rfl := Option.some.inj hstep
      exact h.fail hi (by simp) (hfound hi)
    · rename_i ok hi
      obtain rfl := Option.some.inj hstep
      refine (h.note rfl (hfound hi)).emit hi (by simp) ?_ (hfound hi)
      obtain ⟨state, hset⟩ := h.publishing (Or.inr hi)
      exact Or.inr (Or.inr ⟨⟨state, List.mem_cons_of_mem _ hset⟩, ok, List.mem_cons_self⟩)
    · simp at hstep

theorem checked_start : Checked start := by
  refine ⟨trivial, fun _ => rfl, rfl, ?_, ?_, ?_, ?_, ?_, ?_⟩ <;> simp [start]

end

end Poll

open Poll

/-- A poll deletes the records of its batch at most once, all of them in order, after
every terminal task's graph was found not done or was set done and its publishing has
ended, and not at all if one of these checks fails. -/
theorem deleteTasks_once (C : Constants) (es : List PollEvent) (p : Poll)
    (h : Lts.exec (Poll.step C) Poll.start es = some p) :
    (p.log.filterMap PollNote.deletion).length ≤ 1 ∧
    Chronicle (PollNote.Follows (p.batch.getD [])) p.log ∧
    ∀ i, .failed i ∈ p.log → ∀ ids, .deleteTasks ids ∉ p.log := by
  have hchecked : Checked p := Lts.invariant Checked (fun _ _ _ hstep hp => hp.step hstep) checked_start h
  refine ⟨length_deletion_le hchecked.chronicle, hchecked.chronicle, fun i hfailed ids hdeleted => ?_⟩
  have hstopped := hchecked.failed hfailed
  have hopen := (hchecked.deleted hdeleted).1
  simp [hstopped] at hopen

/-- Two of three tasks are terminal, in graphs 0 and 1; the event of graph 0 is rejected. -/
def completedBatch : List TaskDocument :=
  [⟨10, ⟨0, 1, .failed, [.failed], false⟩⟩, ⟨11, ⟨0, 2, .succeeded, [], false⟩⟩,
    ⟨12, ⟨1, 3, .succeeded, [.succeeded], false⟩⟩]

def completedPoll : List PollEvent :=
  [.findCompletedTasks (some completedBatch), .handlePotentialFinishedGraph 0,
    .handlePotentialFinishedGraph 1, .checkGraphSucceeded 1 (some false), .setGraphDone 0 (some true),
    .publishProgress 0 true, .publishGraphFinished 0 (some false)]

theorem deleteTasks_once_completed : ∃ p,
    Lts.exec (Poll.step .sample) Poll.start completedPoll = some p ∧ .deleteTasks [10, 11, 12] ∈ p.log ∧
      (p.log.filterMap PollNote.deletion).length ≤ 1 ∧
      Chronicle (PollNote.Follows (p.batch.getD [])) p.log ∧
      ∀ i, .failed i ∈ p.log → ∀ ids, .deleteTasks ids ∉ p.log :=
  ⟨_, rfl, by decide, deleteTasks_once .sample completedPoll _ rfl⟩

end OnTaskGraph
