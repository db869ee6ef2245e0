import Mathlib.Data.List.Basic

/-! Programs that make calls to the outside: each call is answered, the call and its
answer are noted as an event, and the program goes on from the answer. A run is its
events with its result. -/

inductive Script (ω ε α : Type) : Type 1
  | ret (result : Except ε α)
  | call {ρ : Type} (event : ρ → ω) (next : ρ → Script ω ε α)

namespace Script

variable {ω ε α β ρ : Type}

def bind : Script ω ε α → (α → Script ω ε β) → Script ω ε β
  | ret (.ok a), f => f a
  | ret (.error e), _ => ret (.error e)
  | call event next, f => call event fun x => (next x).bind f

instance : Monad (Script ω ε) where
  pure a := ret (.ok a)
  bind := bind

def fail (e : ε) : Script ω ε α := ret (.error e)

/-- A call whose answer is the result. -/
def ask (event : ρ → ω) : Script ω ε ρ := call event pure

/-- `e` is raised unless `b` holds. -/
def assert (b : Bool) (e : ε) : Script ω ε Unit := if b then pure () else fail e

/-- The events of a run from its beginning to its end, with the result. -/
def Runs : Script ω ε α → List ω → Except ε α → Prop
  | ret result, l, r => l = [] ∧ r = result
  | call event next, l, r => ∃ x l', l = event x :: l' ∧ (next x).Runs l' r

variable {p : Script ω ε α} {f : α → Script ω ε β} {l : List ω} {r : Except ε α} {e : ε} {event : ρ → ω}

@[simp] theorem runs_pure {a : α} : (pure a : Script ω ε α).Runs l r ↔ l = [] ∧ r = .ok a := Iff.rfl

@[simp] theorem runs_fail : (fail e : Script ω ε α).Runs l r ↔ l = [] ∧ r = .error e := Iff.rfl

@[simp] theorem runs_ask {r : Except ε ρ} : (ask event).Runs l r ↔ ∃ x, l = [event x] ∧ r = .ok x := by
  constructor
  · rintro ⟨x, l', rfl, rfl, rfl⟩
    exact ⟨x, rfl, rfl⟩
  · rintro ⟨x, rfl, rfl⟩
    exact ⟨x, [], rfl, rfl, rfl⟩

@[simp] theorem runs_assert {b : Bool} {r : Except ε Unit} :
    (assert b e : Script ω ε Unit).Runs l r ↔ l = [] ∧ r = if b then .ok () else .error e := by
  cases b <;> exact Iff.rfl

/-- A sequence goes on from the result of its first part, unless that fails. -/
theorem runs_bind {r : Except ε β} : (p >>= f).Runs l r ↔
    (∃ l₁ l₂ a, l = l₁ ++ l₂ ∧ p.Runs l₁ (.ok a) ∧ (f a).Runs l₂ r) ∨
      ∃ e, p.Runs l (.error e) ∧ r = .error e := by
  change (p.bind f).Runs l r ↔ _
  induction p generalizing l with
  | ret result =>
    cases result with
    | error e =>
      constructor
      · rintro ⟨rfl, rfl⟩
        exact Or.inr ⟨e, ⟨rfl, rfl⟩, rfl⟩
      · rintro (⟨l₁, l₂, a, -, ⟨-, h⟩, -⟩ | ⟨e', ⟨rfl, he⟩, rfl⟩)
        · cases h
        · cases he
          exact ⟨rfl, rfl⟩
    | ok a =>
      constructor
      · intro h
        exact Or.inl ⟨[], l, a, rfl, ⟨rfl, rfl⟩, h⟩
      · rintro (⟨l₁, l₂, a', rfl, ⟨rfl, ha⟩, h⟩ | ⟨e', ⟨-, he⟩, -⟩)
        · cases ha
          exact h
        · cases he
  | call event next ih =>
    constructor
    · rintro ⟨x, l', rfl, h⟩
      rcases (ih x).mp h with ⟨l₁, l₂, a, rfl, hp, hf⟩ | ⟨e, hp, rfl⟩
      · exact Or.inl ⟨event x :: l₁, l₂, a, rfl, ⟨x, l₁, rfl, hp⟩, hf⟩
      · exact Or.inr ⟨e, ⟨x, l', rfl, hp⟩, rfl⟩
    · rintro (⟨l₁, l₂, a, rfl, ⟨x, l', rfl, hp⟩, hf⟩ | ⟨e, ⟨x, l', rfl, hp⟩, rfl⟩)
      · exact ⟨x, l' ++ l₂, rfl, (ih x).mpr (Or.inl ⟨l', l₂, a, rfl, hp, hf⟩)⟩
      · exact ⟨x, l', rfl, (ih x).mpr (Or.inr ⟨e, hp, rfl⟩)⟩

theorem runs_bind_ok {b : β} : (p >>= f).Runs l (.ok b) ↔
    ∃ l₁ l₂ a, l = l₁ ++ l₂ ∧ p.Runs l₁ (.ok a) ∧ (f a).Runs l₂ (.ok b) := by
  rw [runs_bind]
  constructor
  · rintro (h | ⟨e, -, he⟩)
    · exact h
    · cases he
  · exact Or.inl

theorem bind_assoc {γ : Type} (p : Script ω ε α) (f : α → Script ω ε β) (g : β → Script ω ε γ) :
    (p >>= f) >>= g = p >>= fun a => f a >>= g := by
  change (p.bind f).bind g = p.bind fun a => (f a).bind g
  induction p with
  | ret result => cases result <;> rfl
  | call event next ih =>
    simp only [bind]
    exact congrArg _ (funext ih)

/-- In some run, the event comes next after the given ones. -/
def Reaches (p : Script ω ε α) (before : List ω) (x : ω) : Prop := ∃ after r, p.Runs (before ++ x :: after) r

variable {before : List ω} {x : ω}

theorem not_reaches_ret {result : Except ε α} : ¬ (ret result : Script ω ε α).Reaches before x := by
  rintro ⟨after, r, h, -⟩
  simp at h

theorem not_reaches_assert {b : Bool} : ¬ (assert b e : Script ω ε Unit).Reaches before x := by
  cases b
  · exact not_reaches_ret
  · exact not_reaches_ret

theorem reaches_ask (h : (ask event : Script ω ε ρ).Reaches before x) : before = [] ∧ ∃ y, x = event y := by
  obtain ⟨after, r, hrun⟩ := h
  obtain ⟨y, hl, -⟩ := runs_ask.mp hrun
  cases before with
  | nil =>
    simp only [List.nil_append, List.cons.injEq] at hl
    exact ⟨rfl, y, hl.1⟩
  | cons z before => simp at hl

/-- A sequence is either in its first part, or in its second one after a run of the first. -/
theorem Reaches.of_bind (h : (p >>= f).Reaches before x) : p.Reaches before x ∨
    ∃ l₁ a l₂, before = l₁ ++ l₂ ∧ p.Runs l₁ (.ok a) ∧ (f a).Reaches l₂ x := by
  obtain ⟨after, r, hrun⟩ := h
  rcases runs_bind.mp hrun with ⟨l₁, l₂, a, hl, hp, hf⟩ | ⟨e, hp, -⟩
  · rcases List.append_eq_append_iff.mp hl with ⟨m, rfl, hm⟩ | ⟨m, rfl, rfl⟩
    · cases m with
      | nil => exact Or.inr ⟨before, a, [], by simp, by simpa using hp, after, r, by simpa [hm] using hf⟩
      | cons y m =>
        simp only [List.cons_append, List.cons.injEq] at hm
        obtain ⟨rfl, -⟩ := hm
        exact Or.inl ⟨m, _, hp⟩
    · exact Or.inr ⟨l₁, a, m, rfl, hp, after, r, hf⟩
  · exact Or.inl ⟨after, _, hp⟩

/-- Every event of every run satisfies `P`. -/
def Only (P : ω → Prop) (p : Script ω ε α) : Prop := ∀ before x, p.Reaches before x → P x

variable {P Q : ω → Prop}

theorem only_ret (result : Except ε α) : (ret result : Script ω ε α).Only P :=
  fun _ _ h => absurd h not_reaches_ret

theorem only_assert (b : Bool) (e : ε) : (assert b e : Script ω ε Unit).Only P :=
  fun _ _ h => absurd h not_reaches_assert

theorem only_ask (h : ∀ y, P (event y)) : (ask event : Script ω ε ρ).Only P := by
  intro before x hx
  obtain ⟨-, y, rfl⟩ := reaches_ask hx
  exact h y

theorem Only.bind (hp : p.Only P) (hf : ∀ a, (f a).Only P) : (p >>= f).Only P := by
  intro before x hx
  rcases hx.of_bind with hx | ⟨l₁, a, l₂, -, -, hx⟩
  · exact hp before x hx
  · exact hf a l₂ x hx

theorem Only.mono (hp : p.Only P) (himp : ∀ x, P x → Q x) : p.Only Q :=
  fun before x hx => himp x (hp before x hx)

section Worlds

variable {σ τ : Type*} {δ : Type} {R : σ → ω → σ → Prop} {s t : σ}

/-- The states that the events of a run lead through, where `R` tells what an event can do. -/
def Through (R : σ → ω → σ → Prop) : σ → List ω → σ → Prop
  | s, [], t => s = t
  | s, x :: l, t => ∃ u, R s x u ∧ Through R u l t

theorem through_append {l₁ l₂ : List ω} :
    Through R s (l₁ ++ l₂) t ↔ ∃ u, Through R s l₁ u ∧ Through R u l₂ t := by
  induction l₁ generalizing s with
  | nil => simp [Through]
  | cons x l ih => simp only [List.cons_append, Through, ih]; tauto

theorem through_stay (h : ∀ x ∈ l, R s x s) : Through R s l s := by
  induction l with
  | nil => rfl
  | cons x l ih =>
    obtain ⟨hx, hl⟩ := List.forall_mem_cons.mp h
    exact ⟨s, hx, ih hl⟩

/-- What the events of a run keep. -/
theorem Through.keeps (I : σ → Prop) (hkeep : ∀ s x t, P x → R s x t → I s → I t) (h : Through R s l t)
    (hl : ∀ x ∈ l, P x) (hs : I s) : I t := by
  induction l generalizing s with
  | nil => exact h ▸ hs
  | cons x l ih =>
    obtain ⟨u, hu, hrest⟩ := h
    obtain ⟨hx, hl⟩ := List.forall_mem_cons.mp hl
    exact ih hrest hl (hkeep s x u hx hu hs)

/-- The events of one of many that run beside each other. -/
def own [DecidableEq δ] (d : δ) (l : List (δ × ω)) : List ω :=
  l.filterMap fun x => if x.1 = d then some x.2 else none

/-- What one of them sees, if the events of the others do not change it. -/
theorem Through.project [DecidableEq δ] {S : σ → δ × ω → σ → Prop} {V : τ → ω → τ → Prop} (d : δ) (view : σ → τ)
    (hown : ∀ s x t, S s (d, x) t → V (view s) x (view t)) {l : List (δ × ω)}
    (hother : ∀ s d' x t, (d', x) ∈ l → d' ≠ d → S s (d', x) t → view t = view s) (h : Through S s l t) :
    Through V (view s) (own d l) (view t) := by
  induction l generalizing s with
  | nil => exact congrArg view h
  | cons x l ih =>
    obtain ⟨u, hu, hrest⟩ := h
    obtain ⟨d', x⟩ := x
    have hrest := ih (fun s d' x t hx => hother s d' x t (List.mem_cons_of_mem _ hx)) hrest
    by_cases hd : d' = d
    · subst hd
      simpa [own] using ⟨view u, hown s x u hu, hrest⟩
    · have hview := hother s d' x u List.mem_cons_self hd hu
      simpa [own, hd, ← hview] using hrest

/-- Where its own events are two runs, one after the other, so are all events. -/
theorem own_eq_append [DecidableEq δ] {d : δ} {l : List (δ × ω)} {l₁ l₂ : List ω} (h : own d l = l₁ ++ l₂) :
    ∃ m₁ m₂, l = m₁ ++ m₂ ∧ own d m₁ = l₁ ∧ own d m₂ = l₂ :=
  List.filterMap_eq_append_iff.mp h

end Worlds

end Script
