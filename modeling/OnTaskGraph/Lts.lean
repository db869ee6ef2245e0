import Mathlib.Data.List.Basic

/-! Labelled transition systems whose step is a partial function of the state
and the label: runs, properties of every step of a run, and invariants. -/

namespace Lts

variable {σ α : Type*} {step : σ → α → Option σ} {P Q : σ → α → σ → Prop}

/-- The state reached by a list of labels, if each of them is enabled in turn. -/
def exec (step : σ → α → Option σ) : σ → List α → Option σ
  | s, [] => some s
  | s, a :: as => (step s a).bind fun t => exec step t as

/-- `P` holds of every step that is taken along a list of labels. -/
def Along (step : σ → α → Option σ) (P : σ → α → σ → Prop) : σ → List α → Prop
  | _, [] => True
  | s, a :: as =>
    match step s a with
    | none => True
    | some t => P s a t ∧ Along step P t as

theorem exec_append (s : σ) (as bs : List α) :
    exec step s (as ++ bs) = (exec step s as).bind fun t => exec step t bs := by
  induction as generalizing s with
  | nil => rfl
  | cons a as ih =>
    cases h : step s a with
    | none => simp [exec, h]
    | some t => simpa [exec, h] using ih t

theorem along_cons_of_some {s t : σ} {a : α} {as : List α} (h : step s a = some t) :
    Along step P s (a :: as) ↔ P s a t ∧ Along step P t as := by
  simp [Along, h]

theorem along_cons {s : σ} {a : α} {as : List α} :
    Along step P s (a :: as) ↔ ∀ t, step s a = some t → P s a t ∧ Along step P t as := by
  cases h : step s a with
  | none => simp [Along, h]
  | some t => simp [Along, h]

theorem along_iff {s : σ} {as : List α} :
    Along step P s as ↔ ∀ pre a post t u, as = pre ++ a :: post →
      exec step s pre = some t → step t a = some u → P t a u := by
  induction as generalizing s with
  | nil => simp [Along]
  | cons b bs ih =>
    cases hs : step s b with
    | none =>
      refine ⟨fun _ pre a post t u he ht hu => ?_, fun _ => by simp [Along, hs]⟩
      cases pre with
      | nil =>
        simp only [List.nil_append, List.cons.injEq] at he
        simp only [exec, Option.some.injEq] at ht
        simp [← ht, ← he.1, hs] at hu
      | cons c pre =>
        simp only [List.cons_append, List.cons.injEq] at he
        simp [exec, ← he.1, hs] at ht
    | some r =>
      rw [along_cons_of_some hs, ih]
      constructor
      · rintro ⟨hp, hrest⟩ pre a post t u he ht hu
        cases pre with
        | nil =>
          simp only [List.nil_append, List.cons.injEq] at he
          simp only [exec, Option.some.injEq] at ht
          obtain rfl := ht
          rw [← he.1, hs] at hu
          obtain rfl := Option.some.inj hu
          exact he.1 ▸ hp
        | cons c pre =>
          simp only [List.cons_append, List.cons.injEq] at he
          simp only [exec, ← he.1, hs, Option.bind_some] at ht
          exact hrest pre a post t u he.2 ht hu
      · intro hall
        refine ⟨hall [] b bs s r rfl rfl hs, fun pre a post t u he ht hu => ?_⟩
        exact hall (b :: pre) a post t u (by simp [he]) (by simpa [exec, hs] using ht) hu

theorem Along.mono {s : σ} {as : List α} (h : Along step P s as)
    (himp : ∀ s a t, step s a = some t → P s a t → Q s a t) : Along step Q s as := by
  rw [along_iff] at h ⊢
  exact fun pre a post t u he ht hu => himp t a u hu (h pre a post t u he ht hu)

theorem along_of_forall (h : ∀ s a t, step s a = some t → P s a t) (s : σ) (as : List α) :
    Along step P s as :=
  along_iff.mpr fun _ a _ t u _ _ hu => h t a u hu

theorem along_of_labels {R : α → Prop} {as : List α} (h : ∀ a ∈ as, R a) (s : σ) :
    Along step (fun _ a _ => R a) s as :=
  along_iff.mpr fun _ a _ _ _ he _ _ => h a (by simp [he])

theorem Along.left {s : σ} {as bs : List α} (h : Along step P s (as ++ bs)) :
    Along step P s as := by
  rw [along_iff] at h ⊢
  exact fun pre a post t u he => h pre a (post ++ bs) t u (by simp [he])

theorem Along.append {s t : σ} {as bs : List α} (h : Along step P s as) (ht : exec step s as = some t)
    (hrest : Along step P t bs) : Along step P s (as ++ bs) := by
  induction as generalizing s with
  | nil =>
    obtain rfl := Option.some.inj ht
    exact hrest
  | cons a as ih =>
    obtain ⟨u, hu, hexec⟩ := Option.bind_eq_some_iff.mp ht
    obtain ⟨ha, has⟩ := (along_cons_of_some hu).mp h
    exact (along_cons_of_some hu).mpr ⟨ha, ih has hexec⟩

theorem Along.getLast {s t u : σ} {as : List α} (h : Along step P s as) (hne : as ≠ [])
    (ht : exec step s as.dropLast = some t) (hu : step t (as.getLast hne) = some u) :
    P t (as.getLast hne) u := by
  have hsplit : as = as.dropLast ++ [as.getLast hne] := (List.dropLast_append_getLast hne).symm
  exact along_iff.mp h _ _ [] t u hsplit ht hu

/-- An invariant that every allowed step preserves holds at the end of every
run whose steps are all allowed. -/
theorem Along.invariant (Inv : σ → Prop)
    (hstep : ∀ s a t, step s a = some t → P s a t → Inv s → Inv t)
    {s t : σ} {as : List α} (h : Along step P s as) (hs : Inv s)
    (ht : exec step s as = some t) : Inv t := by
  induction as generalizing s with
  | nil => exact Option.some.inj ht ▸ hs
  | cons a as ih =>
    obtain ⟨u, hu, hrest⟩ := Option.bind_eq_some_iff.mp ht
    have hc := (along_cons_of_some hu).mp h
    exact ih hc.2 (hstep s a u hu hc.1 hs) hrest

theorem invariant (Inv : σ → Prop) (hstep : ∀ s a t, step s a = some t → Inv s → Inv t)
    {s t : σ} {as : List α} (hs : Inv s) (ht : exec step s as = some t) : Inv t :=
  (along_of_forall (P := fun _ _ _ => True) (fun _ _ _ _ => trivial) s as).invariant Inv
    (fun s a t h _ => hstep s a t h) hs ht

/-- A run whose steps all make a measure smaller is no longer than what it begins with. -/
theorem length_add_le_of_labels (R : α → Prop) (Inv : σ → Prop) (μ : σ → Nat)
    (hstep : ∀ s a t, step s a = some t → R a → Inv s → Inv t ∧ μ t < μ s) {s t : σ} {as : List α}
    (hR : ∀ a ∈ as, R a) (hs : Inv s) (ht : exec step s as = some t) : as.length + μ t ≤ μ s := by
  induction as generalizing s with
  | nil =>
    obtain rfl := Option.some.inj ht
    simp
  | cons a as ih =>
    obtain ⟨u, hu, hrest⟩ := Option.bind_eq_some_iff.mp ht
    obtain ⟨ha, hR⟩ := List.forall_mem_cons.mp hR
    obtain ⟨hinv, hlt⟩ := hstep s a u hu ha hs
    have hle := ih hR hinv hrest
    rw [List.length_cons]
    omega

/-- A run is no longer than what a measure that falls at every step begins with. -/
theorem length_add_le (Inv : σ → Prop) (μ : σ → Nat)
    (hstep : ∀ s a t, step s a = some t → Inv s → Inv t ∧ μ t < μ s) {s t : σ} {as : List α} (hs : Inv s)
    (ht : exec step s as = some t) : as.length + μ t ≤ μ s :=
  length_add_le_of_labels (fun _ => True) Inv μ (fun s a t h _ => hstep s a t h) (fun _ _ => trivial) hs ht

/-- A state with `P` is reached by labels with `R`, if these can make a measure smaller until then. -/
theorem exists_exec_of_labels (R : α → Prop) (Inv : σ → Prop) (μ : σ → Nat) (P : σ → Prop)
    (hstep : ∀ s, Inv s → ¬ P s → ∃ a t, R a ∧ step s a = some t ∧ Inv t ∧ μ t < μ s) (s : σ) (hs : Inv s) :
    ∃ as t, (∀ a ∈ as, R a) ∧ exec step s as = some t ∧ Inv t ∧ P t := by
  by_cases hP : P s
  · exact ⟨[], s, by simp, rfl, hs, hP⟩
  · obtain ⟨a, t, ha, ht, hinv, hlt⟩ := hstep s hs hP
    obtain ⟨as, u, hR, hu, hrest⟩ := exists_exec_of_labels R Inv μ P hstep t hinv
    exact ⟨a :: as, u, by simpa [ha] using hR, by simpa [exec, ht] using hu, hrest⟩
termination_by μ s

/-- A state with `P` is reached, if a measure can always be made smaller until then. -/
theorem exists_exec (μ : σ → Nat) (P : σ → Prop) (hstep : ∀ s, ¬ P s → ∃ a t, step s a = some t ∧ μ t < μ s)
    (s : σ) :
    ∃ as t, exec step s as = some t ∧ P t := by
  have hany : ∀ s, True → ¬ P s → ∃ a t, True ∧ step s a = some t ∧ True ∧ μ t < μ s := by
    intro s _ hs
    obtain ⟨a, t, ht, hlt⟩ := hstep s hs
    exact ⟨a, t, trivial, ht, trivial, hlt⟩
  obtain ⟨as, t, -, ht, -, hP⟩ := exists_exec_of_labels (fun _ : α => True) (fun _ => True) μ P hany s trivial
  exact ⟨as, t, ht, hP⟩

/-- What an invariant gives for one allowed step holds of all of them. -/
theorem Along.of_invariant (Inv : σ → Prop)
    (hstep : ∀ s a t, step s a = some t → P s a t → Inv s → Inv t)
    (hsafe : ∀ s a t, step s a = some t → P s a t → Inv s → Q s a t)
    {s : σ} {as : List α} (h : Along step P s as) (hs : Inv s) : Along step Q s as := by
  refine along_iff.mpr fun pre a post t u he ht hu => ?_
  have hp := along_iff.mp h pre a post t u he ht hu
  subst he
  exact hsafe t a u hu hp (h.left.invariant Inv hstep hs ht)

theorem along_of_invariant (Inv : σ → Prop) (hstep : ∀ s a t, step s a = some t → Inv s → Inv t)
    (hsafe : ∀ s a t, step s a = some t → Inv s → Q s a t) {s : σ} (hs : Inv s) (as : List α) :
    Along step Q s as :=
  (along_of_forall (P := fun _ _ _ => True) (fun _ _ _ _ => trivial) s as).of_invariant Inv
    (fun s a t h _ => hstep s a t h) (fun s a t h _ => hsafe s a t h) hs

/-- Two properties of a step that an invariant makes equivalent agree along a
run, if the first one keeps the invariant. -/
theorem along_congr {R : α → Prop} (Inv : σ → Prop)
    (hiff : ∀ s a t, step s a = some t → R a → Inv s → (P s a t ↔ Q s a t))
    (hkeep : ∀ s a t, step s a = some t → R a → Inv s → P s a t → Inv t)
    {s : σ} {as : List α} (hR : ∀ a ∈ as, R a) (hs : Inv s) : Along step P s as ↔ Along step Q s as := by
  induction as generalizing s with
  | nil => exact Iff.rfl
  | cons a as ih =>
    cases hstep : step s a with
    | none => simp [Along, hstep]
    | some t =>
      have ha := hR a (List.mem_cons_self)
      rw [along_cons_of_some hstep, along_cons_of_some hstep, ← hiff s a t hstep ha hs]
      refine and_congr_right fun hp => ?_
      exact ih (fun b hb => hR b (List.mem_cons_of_mem a hb)) (hkeep s a t hstep ha hs hp)

section Leads

variable {s t u : σ} {a : α}

/-- A run whose steps all have `P` leads from the one state to the other. -/
def Leads (step : σ → α → Option σ) (P : σ → α → σ → Prop) (s t : σ) : Prop :=
  ∃ as, exec step s as = some t ∧ Along step P s as

theorem Leads.refl (s : σ) : Leads step P s s := ⟨[], rfl, trivial⟩

theorem Leads.head (h : step s a = some t) (hp : P s a t) (hrest : Leads step P t u) : Leads step P s u := by
  obtain ⟨as, hu, has⟩ := hrest
  exact ⟨a :: as, by rw [exec, h, Option.bind_some, hu], (along_cons_of_some h).mpr ⟨hp, has⟩⟩

theorem Leads.single (h : step s a = some t) (hp : P s a t) : Leads step P s t := .head h hp (.refl t)

theorem Leads.trans (h : Leads step P s t) (h' : Leads step P t u) : Leads step P s u := by
  obtain ⟨as, ht, has⟩ := h
  obtain ⟨bs, hu, hbs⟩ := h'
  exact ⟨as ++ bs, by rw [exec_append, ht, Option.bind_some, hu], has.append ht hbs⟩

theorem Leads.invariant (Inv : σ → Prop) (hstep : ∀ s a t, step s a = some t → Inv s → Inv t)
    (h : Leads step P s t) (hs : Inv s) : Inv t := by
  obtain ⟨as, ht, -⟩ := h
  exact Lts.invariant Inv hstep hs ht

end Leads

instance instDecidableAlong [∀ s a t, Decidable (P s a t)] :
    ∀ s as, Decidable (Along step P s as)
  | _, [] => isTrue trivial
  | s, a :: as =>
    match h : step s a with
    | none => isTrue (by simp [Along, h])
    | some t =>
      have : Decidable (Along step P t as) := instDecidableAlong t as
      decidable_of_iff (P s a t ∧ Along step P t as) (along_cons_of_some h).symm

section Monitor

variable {μ : Type*} {watch : σ → α → σ → μ → μ}

/-- The system beside a monitor, which is told of every step and changes none. -/
def monitor (step : σ → α → Option σ) (watch : σ → α → σ → μ → μ) (x : σ × μ) (a : α) :
    Option (σ × μ) :=
  (step x.1 a).map fun t => (t, watch x.1 a t x.2)

theorem monitor_eq_some {x y : σ × μ} {a : α} : monitor step watch x a = some y ↔
    step x.1 a = some y.1 ∧ y.2 = watch x.1 a y.1 x.2 := by
  rw [monitor, Option.map_eq_some_iff]
  constructor
  · rintro ⟨t, ht, rfl⟩
    exact ⟨ht, rfl⟩
  · rintro ⟨ht, hm⟩
    exact ⟨y.1, ht, by rw [← hm]⟩

end Monitor

end Lts
