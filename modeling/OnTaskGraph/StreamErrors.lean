import OnTaskGraph.TaskEvaluation
import OnTaskGraph.Lts

/-! Failures of store calls and the evaluation stream. An error ends the whole
subscription if it is thrown while an event is handed over, or if the handler that
should contain it throws; all others end one attempt and give its slot back. -/

namespace OnTaskGraph

theorem countP_toNat {α : Type*} {l : List α} {a : α} {p q : α → Bool} (hl : l.Nodup) (ha : a ∈ l)
    (hpq : ∀ b, b ≠ a → q b = p b) : l.countP q + (p a).toNat = l.countP p + (q a).toNat := by
  induction l with
  | nil => simp at ha
  | cons b l ih =>
    obtain ⟨hb, hl⟩ := List.nodup_cons.mp hl
    by_cases hab : a = b
    · subst hab
      have hrest : l.countP q = l.countP p := by
        refine List.countP_congr fun c hc => ?_
        have hca : c ≠ a := by
          rintro rfl
          exact hb hc
        simp [hpq c hca]
      cases hp : p a <;> cases hq : q a <;> simp [hp, hq, hrest]
    · have hrest := ih hl ((List.mem_cons.mp ha).resolve_left hab)
      have hhead := hpq b (Ne.symm hab)
      simp only [List.countP_cons, hhead]
      omega

def AttemptStage.inFlight : AttemptStage → Bool
  | .forkJoin _ | .markTaskEvaluated | .marked _ => true
  | _ => false

theorem AttemptStage.inFlight_of_fallible {stage : AttemptStage} (h : stage.fallible = true) :
    stage.inFlight = true := by
  cases stage <;> simp_all [AttemptStage.fallible, AttemptStage.inFlight]

namespace TaskEvaluation

def inFlight (w : TaskEvaluation) (n : AttemptId) : Bool := (w.attempts n).any fun A => A.stage.inFlight

/-- Nothing that an attempt waits for is outstanding. -/
def Settled (w : TaskEvaluation) : Prop :=
  w.calls = [] ∧ ∀ n A, w.attempts n = some A →
    A.stage ≠ .forkJoin [] ∧ A.stage ≠ .markTaskEvaluated ∧ ∀ record, A.stage ≠ .marked record

/-- The subscription is alive after the event, has been handed all events, and
subscribed to an attempt if the counter admitted it. -/
structure Contained (w : TaskEvaluation) (e : StreamEvent) (w' : TaskEvaluation) : Prop where
  subscribed : w'.subscribed = true
  handed : ∀ n ∈ w'.pushed, .updateTaskDependencies n ∈ w'.log
  admitted : ∀ n throws, e.pushes = some (n, throws) → w.counter.count < w.counter.max →
    ∃ data, w'.attempts n = some ⟨data, .forkJoin data.dependencyCalls⟩
  settled : w'.Settled → w'.counter.count = 0

/-- No call throws while an event is handed over, and the error that an attempt ends
with is one that `handleStreamError` can read. -/
def Harmless (w : TaskEvaluation) (e : StreamEvent) (_ : TaskEvaluation) : Prop :=
  (∀ x ∈ e.pushes, x.2 = none) ∧ ∀ x ∈ e.fails w, x.2.2 = .error

instance {w w' : TaskEvaluation} {e : StreamEvent} : Decidable (Harmless w e w') :=
  inferInstanceAs (Decidable (_ ∧ _))

structure Flowing (w : TaskEvaluation) : Prop where
  subscribed : w.subscribed = true
  nodup : w.pushed.Nodup
  known : ∀ {n A}, w.attempts n = some A → n ∈ w.pushed
  handed : ∀ {n}, n ∈ w.pushed → .updateTaskDependencies n ∈ w.log
  awaited : ∀ {n data calls}, w.attempts n = some ⟨data, .forkJoin calls⟩ → ∀ c ∈ calls, (n, c) ∈ w.calls
  count : w.counter.count = w.pushed.countP w.inFlight

section

variable {w w' v : TaskEvaluation} {e : StreamEvent} {n : AttemptId} {A A' : Attempt}

theorem inFlight_setAttempt_self : (w.setAttempt n A).inFlight n = A.stage.inFlight := by
  simp [inFlight, setAttempt]

theorem inFlight_setAttempt_ne {m : AttemptId} (h : m ≠ n) :
    (w.setAttempt n A).inFlight m = w.inFlight m := by
  simp [inFlight, setAttempt, h]

theorem inFlight_congr (h : v.attempts = w.attempts) : v.inFlight = w.inFlight := by
  funext m
  simp [inFlight, h]

/-- An attempt goes on, and the counter with it. -/
theorem Flowing.advance (h : Flowing w) (hA : w.attempts n = some A) (hsub : v.subscribed = true)
    (hpushed : v.pushed = w.pushed) (hattempts : v.attempts = w.attempts) (hlog : w.log ⊆ v.log)
    (hcalls : ∀ m c, m ≠ n → (m, c) ∈ w.calls → (m, c) ∈ v.calls)
    (hawaited : ∀ calls, A'.stage = .forkJoin calls → ∀ c ∈ calls, (n, c) ∈ v.calls)
    (hcount : v.counter.count + A.stage.inFlight.toNat = w.counter.count + A'.stage.inFlight.toNat) :
    Flowing (v.setAttempt n A') := by
  have hn : n ∈ w.pushed := h.known hA
  refine ⟨hsub, hpushed ▸ h.nodup, fun {m B} hm => ?_, fun {m} hm => ?_, fun {m data calls} hm c hc => ?_, ?_⟩
  · have hmem : m ∈ w.pushed := by
      by_cases hmn : m = n
      · exact hmn ▸ hn
      · exact h.known (by simpa [setAttempt, hmn, hattempts] using hm)
    exact hpushed ▸ hmem
  · have hm' : m ∈ w.pushed := hpushed ▸ hm
    exact hlog (h.handed hm')
  · by_cases hmn : m = n
    · subst hmn
      obtain rfl : A' = ⟨data, .forkJoin calls⟩ := by simpa [setAttempt] using hm
      exact hawaited calls rfl c hc
    · exact hcalls m c hmn (h.awaited (by simpa [setAttempt, hmn, hattempts] using hm) c hc)
  · have hflight : w.inFlight n = A.stage.inFlight := by simp [inFlight, hA]
    have hupdate := countP_toNat (q := (v.setAttempt n A').inFlight) (p := w.inFlight) h.nodup hn
      fun m hm => by rw [inFlight_setAttempt_ne hm, inFlight_congr hattempts]
    rw [inFlight_setAttempt_self, hflight] at hupdate
    have hold := h.count
    have hnew : (v.setAttempt n A').pushed = w.pushed := hpushed
    have hcounter : (v.setAttempt n A').counter.count = v.counter.count := rfl
    rw [hnew, hcounter]
    omega

theorem Flowing.begin (h : Flowing w) (hn : n ∉ w.pushed) (hsub : v.subscribed = true)
    (hpushed : v.pushed = n :: w.pushed) (hattempts : v.attempts = w.attempts)
    (hlog : v.log = .updateTaskDependencies n :: w.log) (hcalls : w.calls ⊆ v.calls)
    (hawaited : ∀ calls, A.stage = .forkJoin calls → ∀ c ∈ calls, (n, c) ∈ v.calls)
    (hcount : v.counter.count = w.counter.count + A.stage.inFlight.toNat) :
    Flowing (v.setAttempt n A) := by
  refine ⟨hsub, ?_, fun {m B} hm => ?_, fun {m} hm => ?_, fun {m data calls} hm c hc => ?_, ?_⟩
  · have hnodup : (n :: w.pushed).Nodup := List.nodup_cons.mpr ⟨hn, h.nodup⟩
    exact hpushed ▸ hnodup
  · have hmem : m ∈ n :: w.pushed := by
      by_cases hmn : m = n
      · exact hmn ▸ List.mem_cons_self
      · exact List.mem_cons_of_mem _ (h.known (by simpa [setAttempt, hmn, hattempts] using hm))
    exact hpushed ▸ hmem
  · have hm' : m ∈ n :: w.pushed := hpushed ▸ hm
    have hlog' : (v.setAttempt n A).log = .updateTaskDependencies n :: w.log := hlog
    rw [hlog']
    rcases List.mem_cons.mp hm' with rfl | hold
    · exact List.mem_cons_self
    · exact List.mem_cons_of_mem _ (h.handed hold)
  · by_cases hmn : m = n
    · subst hmn
      obtain rfl : A = ⟨data, .forkJoin calls⟩ := by simpa [setAttempt] using hm
      exact hawaited calls rfl c hc
    · exact hcalls (h.awaited (by simpa [setAttempt, hmn, hattempts] using hm) c hc)
  · have hsame : w.pushed.countP (v.setAttempt n A).inFlight = w.pushed.countP w.inFlight := by
      refine List.countP_congr fun m hm => ?_
      have hmn : m ≠ n := by
        rintro rfl
        exact hn hm
      rw [inFlight_setAttempt_ne hmn, inFlight_congr hattempts]
    have hnew : (v.setAttempt n A).pushed = n :: w.pushed := hpushed
    have hold := h.count
    have hcounter : (v.setAttempt n A).counter.count = v.counter.count := rfl
    rw [hnew, hcounter, List.countP_cons, hsame, inFlight_setAttempt_self, hcount]
    cases A.stage.inFlight <;> simp [hold]

theorem Flowing.of_eq (h : Flowing w) (hsub : v.subscribed = w.subscribed) (hpushed : v.pushed = w.pushed)
    (hattempts : v.attempts = w.attempts) (hlog : w.log ⊆ v.log) (hcounter : v.counter = w.counter)
    (hcalls : ∀ m data calls, w.attempts m = some ⟨data, .forkJoin calls⟩ →
      ∀ c ∈ calls, (m, c) ∈ w.calls → (m, c) ∈ v.calls) : Flowing v where
  subscribed := hsub ▸ h.subscribed
  nodup := hpushed ▸ h.nodup
  known := fun hm => hpushed ▸ h.known (hattempts ▸ hm)
  handed := fun hm => hlog (h.handed (hpushed ▸ hm))
  awaited := fun {m data calls} hm c hc => by
    have hm' : w.attempts m = some ⟨data, .forkJoin calls⟩ := hattempts ▸ hm
    exact hcalls m data calls hm' c hc (h.awaited hm' c hc)
  count := by rw [hcounter, hpushed, inFlight_congr hattempts, h.count]

theorem mem_erase_calls {m : AttemptId} {c d : StoreCall} (h : m ≠ n ∨ d ≠ c) (hm : (m, d) ∈ w.calls) :
    (m, d) ∈ w.calls.erase (n, c) := by
  refine (List.mem_erase_of_ne fun heq => ?_).mpr hm
  obtain ⟨rfl, rfl⟩ := Prod.mk.inj heq
  exact h.elim (fun hne => hne rfl) fun hne => hne rfl

theorem Change.flowing (hc : Change w e w') (hok : Harmless w e w') (h : Flowing w) : Flowing w' := by
  have hsubscribed := h.subscribed
  cases hc with
  | @handed _ n data found throws _ hpush hn _ hhanded =>
    have hnone : throws = none := hok.1 (n, throws) hpush
    subst hnone
    cases hhanded with
    | admitted =>
      refine h.begin hn hsubscribed rfl rfl rfl (fun x hx => List.mem_append_right _ hx) ?_ rfl
      intro calls hcalls c hmem
      obtain rfl := AttemptStage.forkJoin.inj hcalls
      exact List.mem_append_left _ (List.mem_map_of_mem hmem)
    | dropped =>
      refine h.begin hn hsubscribed rfl rfl rfl (fun x hx => List.mem_append_right _ hx) (by simp) ?_
      simp [call, note, AttemptStage.inFlight]
  | unheard _ _ hsub | disposed _ hsub | unemitted _ hsub => simp [hsubscribed] at hsub
  | polled | written => exact h.of_eq rfl rfl rfl (List.Subset.refl _) rfl fun _ _ _ _ _ _ hm => hm
  | @joined n c us data calls hmem hA =>
    refine h.advance hA hsubscribed rfl rfl (List.subset_cons_self _ _) (fun m d hm => ?_) ?_ rfl
    · exact mem_erase_calls (Or.inl hm)
    · intro left hleft d hd
      obtain rfl := AttemptStage.forkJoin.inj hleft
      obtain ⟨hcalls, hdc⟩ := List.mem_filter.mp hd
      exact mem_erase_calls (Or.inr (by simpa using hdc)) (h.awaited hA d hcalls)
  | @resolved n c us hmem hnot =>
    refine h.of_eq rfl rfl rfl (List.subset_cons_self _ _) rfl fun m data calls hm d _ hd => ?_
    have hmn : m ≠ n := by
      rintro rfl
      exact hnot data calls hm
    exact mem_erase_calls (Or.inl hmn) hd
  | @rejected n c reason hmem hnot =>
    refine h.of_eq rfl rfl rfl (List.Subset.refl _) rfl fun m data calls hm d _ hd => ?_
    have hmn : m ≠ n := by
      rintro rfl
      exact hnot data calls hm
    exact mem_erase_calls (Or.inl hmn) hd
  | @caught _ n data reason calls hfails _ hcalls =>
    have hreason : reason = .error := hok.2 (n, data, reason) hfails
    subst hreason
    obtain ⟨stage, hA, hfallible⟩ := fails_eq_some hfails
    have hflight := AttemptStage.inFlight_of_fallible hfallible
    refine h.advance hA hsubscribed rfl rfl (List.Subset.refl _) hcalls (by simp) ?_
    rw [hflight]
    simp [release, AttemptStage.inFlight]
  | @marking n data hA =>
    exact h.advance hA hsubscribed rfl rfl (List.subset_cons_self _ _) (fun _ _ _ hm => hm) (by simp) rfl
  | @marked n data R hA =>
    exact h.advance hA hsubscribed rfl rfl (List.subset_cons_self _ _) (fun _ _ _ hm => hm) (by simp) rfl
  | @unknown n data hA =>
    exact h.advance hA hsubscribed rfl rfl (List.Subset.refl _) (fun _ _ _ hm => hm) (by simp) rfl
  | @emitted n data record hA =>
    cases record with
    | none =>
      refine h.advance hA hsubscribed rfl rfl (List.Subset.refl _) (fun _ _ _ hm => hm) (by simp) ?_
      simp [release, emit, AttemptStage.inFlight]
    | some record =>
      refine h.advance hA hsubscribed rfl rfl (List.subset_cons_self _ _) (fun _ _ _ hm => hm) (by simp) ?_
      simp [release, emit, note, AttemptStage.inFlight]

theorem Flowing.count_eq_zero (h : Flowing w) (hsettled : w.Settled) : w.counter.count = 0 := by
  have hidle : w.pushed.countP w.inFlight = 0 := by
    refine List.countP_eq_zero.mpr fun n _ hn => ?_
    cases hA : w.attempts n with
    | none => simp [inFlight, hA] at hn
    | some A =>
      obtain ⟨hjoin, hmark, hmarked⟩ := hsettled.2 n A hA
      obtain ⟨data, stage⟩ := A
      cases stage with
      | forkJoin calls =>
        obtain ⟨c, hc⟩ := List.exists_mem_of_ne_nil calls fun hnil => hjoin (by rw [hnil])
        have hcall := h.awaited hA c hc
        simp [hsettled.1] at hcall
      | markTaskEvaluated => exact hmark rfl
      | marked record => exact hmarked record rfl
      | dropped | failed | completed => simp [inFlight, hA, AttemptStage.inFlight] at hn
  have hcount := h.count
  omega

theorem Change.contained (hc : Change w e w') (hok : Harmless w e w') (h : Flowing w) : Contained w e w' := by
  have hw' := hc.flowing hok h
  refine ⟨hw'.subscribed, fun n hn => hw'.handed hn, fun n throws hpush hcount => ?_, hw'.count_eq_zero⟩
  cases hc with
  | @handed _ m data found throws' _ hpush' hn _ hhanded =>
    obtain ⟨rfl, rfl⟩ := Prod.mk.inj (Option.some.inj (hpush'.symm.trans hpush))
    cases hhanded with
    | admitted => exact ⟨data, by simp [setAttempt]⟩
    | dropped hfull => exact absurd hcount hfull
    | thrown => exact absurd hw'.subscribed (by simp [terminate])
  | unheard _ _ hsub => simp [h.subscribed] at hsub
  | caught hfails | disposed hfails => cases e <;> simp_all [StreamEvent.pushes, StreamEvent.fails]
  | polled | joined | resolved | rejected | marking | marked | unknown | emitted | unemitted | written =>
    simp [StreamEvent.pushes] at hpush

theorem pushes_fails (hpush : e.pushes ≠ none) : e.fails w = none := by
  cases e <;> simp_all [StreamEvent.pushes, StreamEvent.fails]

theorem Change.harmless (hc : Change w e w') (hbefore : w.subscribed = true) (h : w'.subscribed = true) :
    Harmless w e w' := by
  cases hc with
  | @handed _ n data found throws _ hpush hn _ hhanded =>
    have hnone : throws = none := by
      cases hhanded with
      | admitted | dropped => rfl
      | thrown => simp [terminate] at h
    have hfails : e.fails w = none := pushes_fails (by simp [hpush])
    exact ⟨by simp [hpush, hnone], by simp [hfails]⟩
  | unheard _ _ hsub | disposed _ hsub => simp [hbefore] at hsub
  | @caught _ n data reason calls hfails =>
    have herror : reason = .error := by
      cases reason with
      | error => rfl
      | nullish => simp [handleStreamError, terminate, setAttempt] at h
    have hpush : e.pushes = none := by
      by_contra hpush
      simp [pushes_fails hpush] at hfails
    exact ⟨by simp [hpush], by simp [hfails, herror]⟩
  | @rejected n c reason hmem hnot =>
    have hfails : (StreamEvent.reject n c reason).fails w = none := by
      cases hA : w.attempts n with
      | none => simp [StreamEvent.fails, hA]
      | some A =>
        obtain ⟨data, stage⟩ := A
        cases stage <;> simp_all [StreamEvent.fails]
    exact ⟨by simp [StreamEvent.pushes], by simp [hfails]⟩
  | polled | joined | resolved | marking | marked | unknown | emitted | unemitted | written =>
    exact ⟨by simp [StreamEvent.pushes], by simp [StreamEvent.fails]⟩

theorem flowing_start (max : Int) (records : TaskKey → Option TaskRecord) : Flowing (start max records) := by
  constructor <;> simp [start, concurrentCounter]

end

end TaskEvaluation

open TaskEvaluation

/-- The evaluation stream stands every failure but two: a call that throws while an
event is handed over, and an error that its handler cannot read. -/
theorem evaluation_contained_iff (option : Nat) (max : Int) (records : TaskKey → Option TaskRecord)
    (es : List StreamEvent) :
    Lts.Along (TaskEvaluation.step option) Contained (TaskEvaluation.start max records) es ↔
      Lts.Along (TaskEvaluation.step option) Harmless (TaskEvaluation.start max records) es := by
  constructor
  · intro h
    have hstep : ∀ w e w', w.step option e = some w' → Contained w e w' → Flowing w → Harmless w e w' :=
      fun w e w' hmove hcontained hw => (step_change hmove).harmless hw.subscribed hcontained.subscribed
    refine h.of_invariant Flowing (fun w e w' hmove hcontained hw => ?_) hstep (flowing_start max records)
    exact (step_change hmove).flowing (hstep w e w' hmove hcontained hw) hw
  · intro h
    exact h.of_invariant Flowing (fun _ _ _ hmove hok hw => (step_change hmove).flowing hok hw)
      (fun _ _ _ hmove hok hw => (step_change hmove).contained hok hw) (flowing_start max records)

/-- `setTaskStateInGraph` throws for the first event; the second one is not heard. -/
theorem evaluation_dies : ¬ Lts.Along (TaskEvaluation.step 0) Contained
    (TaskEvaluation.start 100 fun _ => none)
    [.taskFinished 0 ⟨0, 1, .succeeded, [], false⟩ (some (.setTaskStateInGraph 0 1 .succeeded)),
      .taskFinished 1 ⟨0, 2, .succeeded, [], false⟩ none] := by
  intro h
  have hlast := h.getLast (List.cons_ne_nil _ _) rfl rfl
  exact absurd (hlast.handed 1 (by decide)) (by decide)

end OnTaskGraph
