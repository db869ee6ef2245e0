import OnTaskGraph.History
import OnTaskGraph.Lts
import OnTaskGraph.TaskEvaluation

/-! The order in which a finished task is evaluated. Its consequences are in the store
before it is marked evaluated, it is marked before the next streams hear of it, and an
attempt that is dropped or fails leaves it to be found by the next poll. -/

namespace OnTaskGraph

open History

/-- What an entry of the log needs to have come before it, for the same attempt. -/
def AttemptNote.Follows : AttemptNote → List AttemptNote → Prop
  | .markTaskEvaluated n data, earlier => ∀ c ∈ data.dependencyCalls, .performed n c ∈ earlier
  | .marked n _, earlier => ∃ data, .markTaskEvaluated n data ∈ earlier
  | .handleEvaluatedTask n record next, earlier =>
    .marked n record ∈ earlier ∧ next = OnTaskGraph.handleEvaluatedTask record
  | _, _ => True

def AttemptStage.hasMarked : AttemptStage → Bool
  | .marked _ | .completed => true
  | _ => false

/-- No other process writes the record, and no call finds the task unreachable. -/
def StreamEvent.spares (t : TaskKey) : StreamEvent → Bool
  | .write u _ => u ≠ t
  | .resolve _ _ unreachable => t ∉ unreachable
  | _ => true

namespace TaskEvaluation

def unevaluated (w : TaskEvaluation) (t : TaskKey) : Bool := (w.records t).any TaskRecord.unevaluated

structure Ordered (w : TaskEvaluation) : Prop where
  chronicle : Chronicle AttemptNote.Follows w.log
  known : ∀ {n A}, w.attempts n = some A → n ∈ w.pushed
  joined : ∀ {n data calls}, w.attempts n = some ⟨data, .forkJoin calls⟩ →
    ∀ c ∈ data.dependencyCalls, c ∈ calls ∨ .performed n c ∈ w.log
  marking : ∀ {n data}, w.attempts n = some ⟨data, .markTaskEvaluated⟩ → .markTaskEvaluated n data ∈ w.log
  marked : ∀ {n data record}, w.attempts n = some ⟨data, .marked (some record)⟩ → .marked n record ∈ w.log
  hasMarked : ∀ {n record}, .marked n record ∈ w.log → ∃ A, w.attempts n = some A ∧ A.stage.hasMarked = true

section

variable {w w' : TaskEvaluation} {e : StreamEvent}

/-- How an attempt comes to the stage that it is in after an event. -/
inductive Advances (w w' : TaskEvaluation) : AttemptId → Attempt → Prop
  | admitted {n data} : n ∉ w.pushed → n ∈ w'.pushed →
      Advances w w' n ⟨data, .forkJoin data.dependencyCalls⟩
  | refused {n data stage} : n ∉ w.pushed → n ∈ w'.pushed → stage = .dropped ∨ stage = .failed →
      Advances w w' n ⟨data, stage⟩
  | joined {n data calls c} : w.attempts n = some ⟨data, .forkJoin calls⟩ → .performed n c ∈ w'.log →
      Advances w w' n ⟨data, .forkJoin (calls.filter (· ≠ c))⟩
  | marking {n data} : w.attempts n = some ⟨data, .forkJoin []⟩ → .markTaskEvaluated n data ∈ w'.log →
      Advances w w' n ⟨data, .markTaskEvaluated⟩
  | marked {n data record} : w.attempts n = some ⟨data, .markTaskEvaluated⟩ →
      (∀ r, record = some r → .marked n r ∈ w'.log) → Advances w w' n ⟨data, .marked record⟩
  | failed {n data stage} : w.attempts n = some ⟨data, stage⟩ → stage.fallible = true →
      Advances w w' n ⟨data, .failed⟩
  | completed {n data record} : w.attempts n = some ⟨data, .marked record⟩ →
      Advances w w' n ⟨data, .completed⟩

theorem attempts_setAttempt {v : TaskEvaluation} {n m : AttemptId} {A B : Attempt}
    (hv : v.attempts = w.attempts) (hadvances : Advances w w' n A)
    (h : (v.setAttempt n A).attempts m = some B) : w.attempts m = some B ∨ Advances w w' m B := by
  by_cases hmn : m = n
  · subst hmn
    obtain rfl : A = B := by simpa [setAttempt] using h
    exact Or.inr hadvances
  · left
    simpa [setAttempt, hmn, hv] using h

theorem Change.attempt (hc : Change w e w') {m : AttemptId} {B : Attempt} (h : w'.attempts m = some B) :
    w.attempts m = some B ∨ Advances w w' m B := by
  cases hc with
  | @handed _ n data found throws _ hpush hn _ hhanded =>
    cases hhanded with
    | admitted => exact attempts_setAttempt rfl (.admitted hn List.mem_cons_self) h
    | dropped => exact attempts_setAttempt rfl (.refused hn List.mem_cons_self (Or.inl rfl)) h
    | thrown => exact attempts_setAttempt (w := w) rfl (.refused hn List.mem_cons_self (Or.inr rfl)) h
  | unheard | polled | resolved | rejected | written => exact Or.inl h
  | joined _ hA => exact attempts_setAttempt rfl (.joined hA List.mem_cons_self) h
  | @caught _ n data reason calls hfails =>
    obtain ⟨stage, hA, hfallible⟩ := fails_eq_some hfails
    cases reason <;> exact attempts_setAttempt rfl (.failed hA hfallible) h
  | disposed hfails =>
    obtain ⟨stage, hA, hfallible⟩ := fails_eq_some hfails
    exact attempts_setAttempt rfl (.failed hA hfallible) h
  | marking hA => exact attempts_setAttempt rfl (.marking hA List.mem_cons_self) h
  | @marked n data R hA =>
    refine attempts_setAttempt rfl (.marked hA fun r hr => ?_) h
    obtain rfl := Option.some.inj hr
    exact List.mem_cons_self
  | unknown hA => exact attempts_setAttempt rfl (.marked hA (by simp)) h
  | @emitted n data record hA =>
    cases record <;> exact attempts_setAttempt rfl (.completed hA) h
  | unemitted hA => exact attempts_setAttempt rfl (.completed hA) h

inductive Logged (w w' : TaskEvaluation) : Prop
  | nothing : w'.log = w.log → Logged w w'
  | handed {n} : w'.log = .updateTaskDependencies n :: w.log → Logged w w'
  | performed {n c} : w'.log = .performed n c :: w.log → Logged w w'
  | marking {n data} : w'.log = .markTaskEvaluated n data :: w.log →
      w.attempts n = some ⟨data, .forkJoin []⟩ → Logged w w'
  | marked {n data record} : w'.log = .marked n record :: w.log →
      w.attempts n = some ⟨data, .markTaskEvaluated⟩ →
      w'.attempts n = some ⟨data, .marked (some record)⟩ → Logged w w'
  | emitted {n data record} :
      w'.log = .handleEvaluatedTask n record (OnTaskGraph.handleEvaluatedTask record) :: w.log →
      w.attempts n = some ⟨data, .marked (some record)⟩ → Logged w w'

theorem Change.logged (hc : Change w e w') : Logged w w' := by
  cases hc with
  | handed _ _ _ hhanded => cases hhanded <;> exact .handed rfl
  | unheard | polled | rejected | disposed | unknown | unemitted | written => exact .nothing rfl
  | joined | resolved => exact .performed rfl
  | @caught _ n data reason => cases reason <;> exact .nothing rfl
  | marking hA => exact .marking rfl hA
  | marked hA => exact .marked rfl hA (by simp [setAttempt])
  | @emitted n data record hA =>
    cases record with
    | none => exact .nothing rfl
    | some record => exact .emitted rfl hA

theorem Logged.log_subset (h : Logged w w') : w.log ⊆ w'.log := by
  cases h with
  | nothing hlog =>
    rw [hlog]
    exact List.Subset.refl _
  | handed hlog | performed hlog | marking hlog | marked hlog | emitted hlog =>
    rw [hlog]
    exact List.subset_cons_self _ _

theorem Change.pushed_subset (hc : Change w e w') : w.pushed ⊆ w'.pushed := by
  cases hc with
  | handed _ _ _ hhanded => cases hhanded <;> exact List.subset_cons_self _ _
  | unheard => exact List.subset_cons_self _ _
  | @caught _ n data reason => cases reason <;> exact List.Subset.refl _
  | @emitted n data record => cases record <;> exact List.Subset.refl _
  | polled | joined | resolved | rejected | disposed | marking | marked | unknown | unemitted | written =>
    exact List.Subset.refl _

theorem isSome_setAttempt {v : TaskEvaluation} {n m : AttemptId} {A : Attempt}
    (hv : v.attempts = w.attempts) (h : (w.attempts m).isSome = true) :
    ((v.setAttempt n A).attempts m).isSome = true := by
  by_cases hmn : m = n
  · simp [setAttempt, hmn]
  · simpa [setAttempt, hmn, hv] using h

theorem Change.attempt_isSome (hc : Change w e w') {m : AttemptId} (h : (w.attempts m).isSome = true) :
    (w'.attempts m).isSome = true := by
  cases hc with
  | handed _ _ _ hhanded =>
    cases hhanded with
    | admitted | dropped => exact isSome_setAttempt rfl h
    | thrown => exact isSome_setAttempt (w := w) rfl h
  | @caught _ n data reason => cases reason <;> exact isSome_setAttempt rfl h
  | @emitted n data record => cases record <;> exact isSome_setAttempt rfl h
  | joined | disposed | marking | marked | unknown | unemitted => exact isSome_setAttempt rfl h
  | unheard | polled | resolved | rejected | written => exact h

theorem Change.hasMarked (hc : Change w e w') (hw : Ordered w) {n : AttemptId} {A : Attempt}
    (hA : w.attempts n = some A) (hmarked : A.stage.hasMarked = true) :
    ∃ A', w'.attempts n = some A' ∧ A'.data = A.data ∧ A'.stage.hasMarked = true := by
  obtain ⟨A', hA'⟩ := Option.isSome_iff_exists.mp (hc.attempt_isSome (Option.isSome_of_eq_some hA))
  refine ⟨A', hA', ?_⟩
  have hknown := hw.known hA
  rcases hc.attempt hA' with hold | hadvances
  · obtain rfl := Option.some.inj (hA.symm.trans hold)
    exact ⟨rfl, hmarked⟩
  · cases hadvances with
    | admitted hn | refused hn => exact absurd hknown hn
    | joined h | marking h | marked h =>
      obtain rfl := Option.some.inj (hA.symm.trans h)
      simp [AttemptStage.hasMarked] at hmarked
    | @failed data stage hbefore hfallible =>
      obtain rfl := Option.some.inj (hA.symm.trans hbefore)
      cases stage <;> simp_all [AttemptStage.hasMarked, AttemptStage.fallible]
    | completed h =>
      obtain rfl := Option.some.inj (hA.symm.trans h)
      exact ⟨rfl, rfl⟩

theorem Ordered.change (h : Ordered w) (hc : Change w e w') : Ordered w' := by
  have hlogged := hc.logged
  have hsub := hlogged.log_subset
  refine ⟨?_, fun {n A} hA => ?_, fun {n data calls} hA c hcall => ?_, fun {n data} hA => ?_,
    fun {n data record} hA => ?_, fun {n record} hmem => ?_⟩
  · cases hlogged with
    | nothing hlog => exact hlog ▸ h.chronicle
    | handed hlog | performed hlog => exact hlog ▸ ⟨trivial, h.chronicle⟩
    | @marking n data hlog hA =>
      rw [hlog]
      refine ⟨fun c hcall => ?_, h.chronicle⟩
      exact (h.joined hA c hcall).resolve_left (by simp)
    | @marked n data record hlog hA =>
      rw [hlog]
      exact ⟨⟨data, h.marking hA⟩, h.chronicle⟩
    | @emitted n data record hlog hA =>
      rw [hlog]
      exact ⟨⟨h.marked hA, rfl⟩, h.chronicle⟩
  · rcases hc.attempt hA with hold | hadvances
    · exact hc.pushed_subset (h.known hold)
    · cases hadvances with
      | admitted _ hn | refused _ hn => exact hn
      | joined hbefore | marking hbefore | marked hbefore | failed hbefore | completed hbefore =>
        exact hc.pushed_subset (h.known hbefore)
  · rcases hc.attempt hA with hold | hadvances
    · exact (h.joined hold c hcall).imp_right fun hmem => hsub hmem
    · cases hadvances with
      | admitted => exact Or.inl hcall
      | refused _ _ hstage => simp at hstage
      | @joined data left d hbefore hperformed =>
        by_cases hcd : c = d
        · exact Or.inr (hcd ▸ hperformed)
        · rcases h.joined hbefore c hcall with hleft | hdone
          · exact Or.inl (List.mem_filter.mpr ⟨hleft, by simpa using hcd⟩)
          · exact Or.inr (hsub hdone)
  · rcases hc.attempt hA with hold | hadvances
    · exact hsub (h.marking hold)
    · cases hadvances with
      | refused _ _ hstage => simp at hstage
      | marking _ hmem => exact hmem
  · rcases hc.attempt hA with hold | hadvances
    · exact hsub (h.marked hold)
    · cases hadvances with
      | refused _ _ hstage => simp at hstage
      | marked _ hmem => exact hmem record rfl
  · have hold : .marked n record ∈ w.log → ∃ A, w'.attempts n = some A ∧ A.stage.hasMarked = true := by
      intro hmem
      obtain ⟨A, hA, hmarked⟩ := h.hasMarked hmem
      obtain ⟨A', hA', -, hmarked'⟩ := hc.hasMarked h hA hmarked
      exact ⟨A', hA', hmarked'⟩
    cases hlogged with
    | nothing hlog | handed hlog | performed hlog | marking hlog | emitted hlog =>
      exact hold (by simpa [hlog] using hmem)
    | @marked m data record' hlog _ hA' =>
      rw [hlog] at hmem
      rcases List.mem_cons.mp hmem with heq | hmem
      · obtain ⟨rfl, rfl⟩ := AttemptNote.marked.inj heq
        exact ⟨_, hA', rfl⟩
      · exact hold hmem

theorem ordered_start (max : Int) (records : TaskKey → Option TaskRecord) : Ordered (start max records) := by
  constructor <;> simp [start, Chronicle]

theorem unevaluated_eq_true {t : TaskKey} : w.unevaluated t = true ↔
    ∃ R, w.records t = some R ∧ R.unevaluated = true := by
  simp [unevaluated, Option.any_eq_true]

/-- Only the marking by an attempt of the task's own takes it from what a poll finds. -/
theorem Change.unevaluated (hc : Change w e w') {t : TaskKey} (hspares : e.spares t = true)
    (h : w.unevaluated t = true) : w'.unevaluated t = true ∨
      ∃ n A, w'.attempts n = some A ∧ A.data.taskId = t ∧ A.stage.hasMarked = true := by
  have hsame : w'.records t = w.records t → w'.unevaluated t = true := by
    intro heq
    simpa [TaskEvaluation.unevaluated, heq] using h
  have hperform : ∀ n c us, t ∉ us → (w.perform n c us).records t = w.records t := by
    intro n c us ht
    cases c with
    | updateUnreachableTasks g => simp [perform, performed, ht]
    | setTaskState | markTaskEvaluated | publishCancelTask | setTaskStateInGraph | updateDependentTasks =>
      rfl
  cases hc with
  | handed _ _ _ hhanded => cases hhanded <;> exact Or.inl (hsame rfl)
  | @joined n c us | @resolved n c us =>
    have ht : t ∉ us := by simpa [StreamEvent.spares] using hspares
    exact Or.inl (hsame (hperform n c us ht))
  | @caught _ n data reason => cases reason <;> exact Or.inl (hsame rfl)
  | @marked n data R hA hR =>
    by_cases ht : data.taskId = t
    · exact Or.inr ⟨n, ⟨data, .marked (some R.toTaskData)⟩, by simp [setAttempt], ht, rfl⟩
    · have hne : t ≠ data.taskId := Ne.symm ht
      exact Or.inl (hsame (by simp [setAttempt, note, markTaskEvaluated, hne]))
  | @emitted n data record => cases record <;> exact Or.inl (hsame rfl)
  | @written u R =>
    have ht : t ≠ u := by
      have hne : u ≠ t := by simpa [StreamEvent.spares] using hspares
      exact Ne.symm hne
    exact Or.inl (hsame (by simp [ht]))
  | unheard | polled | rejected | disposed | marking | unknown | unemitted => exact Or.inl (hsame rfl)

theorem unevaluated_run {option : Nat} {t : TaskKey} {es : List StreamEvent} (hw : Ordered w)
    (h : w.unevaluated t = true) (hspares : ∀ e ∈ es, e.spares t = true)
    (hexec : Lts.exec (TaskEvaluation.step option) w es = some w') : w'.unevaluated t = true ∨
      ∃ n A, w'.attempts n = some A ∧ A.data.taskId = t ∧ A.stage.hasMarked = true := by
  have halong : Lts.Along (TaskEvaluation.step option) (fun _ e _ => e.spares t = true) w es := by
    refine Lts.along_iff.mpr fun pre e post _ _ he _ _ => hspares e ?_
    simp [he]
  have hinv := halong.invariant (fun v => Ordered v ∧ (v.unevaluated t = true ∨
      ∃ n A, v.attempts n = some A ∧ A.data.taskId = t ∧ A.stage.hasMarked = true))
    (fun v e v' hstep hspare hv => ?_) ⟨hw, Or.inl h⟩ hexec
  · exact hinv.2
  · have hc := step_change hstep
    refine ⟨hv.1.change hc, ?_⟩
    rcases hv.2 with hunevaluated | ⟨n, A, hA, ht, hmarked⟩
    · exact hc.unevaluated hspare hunevaluated
    · obtain ⟨A', hA', hdata, hmarked'⟩ := hc.hasMarked hv.1 hA hmarked
      exact Or.inr ⟨n, A', hA', hdata ▸ ht, hmarked'⟩

/-- A poll may find any task that is unevaluated. -/
theorem unevaluated_found (option : Nat) {t : TaskKey} (h : w.unevaluated t = true) :
    ∃ w' R, w.step option (.findUnevaluatedTasks [t]) = some w' ∧ w.records t = some R ∧
      R.toTaskData ∈ w'.found := by
  obtain ⟨R, hR, hunevaluated⟩ := unevaluated_eq_true.mp h
  have hlimit : 1 ≤ findUnevaluatedTasksLimit option := by
    unfold findUnevaluatedTasksLimit
    split <;> omega
  refine ⟨{ w with found := w.found ++ [R.toTaskData] }, R, ?_, hR, by simp⟩
  simp [step, hlimit, hR, hunevaluated]

end

end TaskEvaluation

open TaskEvaluation

/-- A task is marked evaluated after its consequences are in the store; only a record
that was marked so is handled; and as long as all attempts for it are dropped or fail,
the task stays one that the next poll may find. -/
theorem evaluated_in_order (option : Nat) (max : Int) (records : TaskKey → Option TaskRecord)
    (es : List StreamEvent) (w : TaskEvaluation)
    (h : Lts.exec (TaskEvaluation.step option) (TaskEvaluation.start max records) es = some w) :
    Chronicle AttemptNote.Follows w.log ∧
    (∀ n A, w.attempts n = some A → A.stage = .dropped ∨ A.stage = .failed →
      ∀ record, .marked n record ∉ w.log) ∧
    ∀ es' w' t, Lts.exec (TaskEvaluation.step option) w es' = some w' → w.unevaluated t = true →
      (∀ e ∈ es', e.spares t = true) →
      (∀ n A, w'.attempts n = some A → A.data.taskId = t → A.stage.hasMarked = false) →
      ∃ w'' R, w'.step option (.findUnevaluatedTasks [t]) = some w'' ∧ w'.records t = some R ∧
        R.evaluated = false ∧ R.toTaskData ∈ w''.found := by
  have hordered : Ordered w := Lts.invariant Ordered (fun _ _ _ hstep hw => hw.change (step_change hstep))
    (ordered_start max records) h
  refine ⟨hordered.chronicle, fun n A hA hstage record hmem => ?_,
    fun es' w' t h' hbefore hspares hunmarked => ?_⟩
  · obtain ⟨B, hB, hmarked⟩ := hordered.hasMarked hmem
    obtain rfl := Option.some.inj (hA.symm.trans hB)
    rcases hstage with hstage | hstage <;> simp [hstage, AttemptStage.hasMarked] at hmarked
  · have hunevaluated : w'.unevaluated t = true := by
      rcases unevaluated_run hordered hbefore hspares h' with hleft | ⟨n, A, hA, ht, hmarked⟩
      · exact hleft
      · simp [hunmarked n A hA ht] at hmarked
    obtain ⟨w'', R, hstep, hR, hmem⟩ := unevaluated_found option hunevaluated
    obtain ⟨R', hR', hflags⟩ := unevaluated_eq_true.mp hunevaluated
    obtain rfl := Option.some.inj (hR.symm.trans hR')
    have hflag : R.evaluated = false := by
      simp only [TaskRecord.unevaluated, Bool.and_eq_true, Bool.not_eq_true'] at hflags
      exact hflags.2
    exact ⟨w'', R, hstep, hR, hflag, hmem⟩

def finishedTask (t : TaskKey) : TaskData := ⟨0, t, .succeeded, [.succeeded], false⟩

def finishedRecords (t : TaskKey) : Option TaskRecord :=
  if t = 1 ∨ t = 2 then some ⟨finishedTask t, false, true⟩ else none

def lossyRun : List StreamEvent :=
  [.taskFinished 0 (finishedTask 1) none, .taskFinished 1 (finishedTask 1) none,
    .resolve 0 (.setTaskStateInGraph 0 1 .succeeded) [], .reject 0 (.updateDependentTasks 1) .error,
    .taskFinished 2 (finishedTask 2) none, .resolve 2 (.setTaskStateInGraph 0 2 .succeeded) [],
    .resolve 2 (.updateUnreachableTasks 0) [], .resolve 2 (.updateDependentTasks 2) [],
    .markTaskEvaluated 2 none, .executeMark 2, .emit 2]

theorem evaluated_in_order_lossy : ∃ w,
    Lts.exec (TaskEvaluation.step 0) (TaskEvaluation.start 1 finishedRecords) lossyRun = some w ∧
      .handleEvaluatedTask 2 (finishedTask 2) (.checkGraphFinished (finishedTask 2)) ∈ w.log ∧
      Chronicle AttemptNote.Follows w.log ∧
      ∃ w'' R, w.step 0 (.findUnevaluatedTasks [1]) = some w'' ∧ w.records 1 = some R ∧
        R.evaluated = false ∧ R.toTaskData ∈ w''.found := by
  refine ⟨_, rfl, by decide, ?_⟩
  have h := evaluated_in_order 0 1 finishedRecords lossyRun _ rfl
  refine ⟨h.1, h.2.2 [] _ 1 rfl (by decide) (by simp) fun n A hA ht => ?_⟩
  match n with
  | 0 | 1 | 2 =>
    obtain rfl := Option.some.inj hA
    first | rfl | exact absurd ht (by decide)
  | n + 3 => cases hA

end OnTaskGraph
