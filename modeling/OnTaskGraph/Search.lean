import Mathlib.Computability.RegularExpressions

/-! Unanchored search: whether a regular expression matches somewhere in a word. -/

namespace Search

open RegularExpression

variable {α : Type*}

def literal (s : List α) : RegularExpression α := s.foldr (fun a r => char a * r) 1

def oneOf (s : List α) : RegularExpression α := s.foldr (fun a r => char a + r) 0

def onceOrTwice (r : RegularExpression α) : RegularExpression α := r + r * r

theorem mem_char_mul {a : α} {r : RegularExpression α} {t : List α} :
    t ∈ (char a * r).matches' ↔ ∃ u ∈ r.matches', t = a :: u := by
  rw [matches'_mul, matches'_char, Language.mem_mul]
  constructor
  · rintro ⟨x, hx, u, hu, rfl⟩
    obtain rfl : x = [a] := hx
    exact ⟨u, hu, rfl⟩
  · rintro ⟨u, hu, rfl⟩
    exact ⟨[a], rfl, u, hu, rfl⟩

theorem mem_literal {s t : List α} : t ∈ (literal s).matches' ↔ t = s := by
  induction s generalizing t with
  | nil => exact Language.mem_one t
  | cons a s ih =>
    rw [literal, List.foldr_cons, ← literal, mem_char_mul]
    constructor
    · rintro ⟨u, hu, rfl⟩
      rw [ih.mp hu]
    · rintro rfl
      exact ⟨s, ih.mpr rfl, rfl⟩

theorem mem_oneOf {s t : List α} : t ∈ (oneOf s).matches' ↔ ∃ a ∈ s, t = [a] := by
  induction s with
  | nil => exact ⟨fun h => absurd h (Language.notMem_zero t), by simp⟩
  | cons a s ih =>
    rw [oneOf, List.foldr_cons, ← oneOf, matches'_add, Language.mem_add, ih, List.exists_mem_cons_iff]
    rfl

theorem mem_mul {r r' : RegularExpression α} {t : List α} :
    t ∈ (r * r').matches' ↔ ∃ u ∈ r.matches', ∃ v ∈ r'.matches', t = u ++ v := by
  rw [matches'_mul, Language.mem_mul]
  exact ⟨fun ⟨u, hu, v, hv, h⟩ => ⟨u, hu, v, hv, h.symm⟩, fun ⟨u, hu, v, hv, h⟩ => ⟨u, hu, v, hv, h.symm⟩⟩

theorem mem_onceOrTwice {r : RegularExpression α} {t : List α} :
    t ∈ (onceOrTwice r).matches' ↔
      t ∈ r.matches' ∨ ∃ u ∈ r.matches', ∃ v ∈ r.matches', t = u ++ v := by
  rw [onceOrTwice, matches'_add, Language.mem_add, mem_mul]

/-- No word matches, as far as the form of the expression shows. -/
def never : RegularExpression α → Bool
  | .zero => true
  | .epsilon | .char _ | .star _ => false
  | .plus r r' => never r && never r'
  | .comp r r' => never r || never r'

theorem notMem_of_never {r : RegularExpression α} (h : never r = true) (t : List α) : t ∉ r.matches' := by
  induction r generalizing t with
  | zero => exact Language.notMem_zero t
  | epsilon | char | star => simp [never] at h
  | plus r r' ih ih' =>
    obtain ⟨hr, hr'⟩ := Bool.and_eq_true_iff.mp h
    rintro (hmem | hmem)
    · exact ih hr t hmem
    · exact ih' hr' t hmem
  | comp r r' ih ih' =>
    intro hmem
    obtain ⟨u, hu, v, hv, _⟩ := mem_mul.mp hmem
    rcases Bool.or_eq_true_iff.mp h with hr | hr'
    · exact ih hr u hu
    · exact ih' hr' v hv

section DecidableEq

variable [DecidableEq α]

def matchPrefix : RegularExpression α → List α → Bool
  | r, [] => r.matchEpsilon
  | r, a :: s => r.matchEpsilon || !never (r.deriv a) && matchPrefix (r.deriv a) s

def search (r : RegularExpression α) : List α → Bool
  | [] => r.matchEpsilon
  | a :: s => matchPrefix r (a :: s) || search r s

theorem matchPrefix_iff {r : RegularExpression α} {s : List α} :
    matchPrefix r s = true ↔ ∃ t ∈ r.matches', t <+: s := by
  induction s generalizing r with
  | nil =>
    have hempty : r.matchEpsilon = true ↔ [] ∈ r.matches' := rmatch_iff_matches' r []
    simpa [matchPrefix, List.prefix_nil] using hempty
  | cons a s ih =>
    have hempty : r.matchEpsilon = true ↔ [] ∈ r.matches' := rmatch_iff_matches' r []
    have hderiv : ∀ t, t ∈ (r.deriv a).matches' ↔ a :: t ∈ r.matches' := fun t => by
      rw [← rmatch_iff_matches', ← rmatch_iff_matches', rmatch]
    rw [matchPrefix, Bool.or_eq_true, Bool.and_eq_true, hempty, ih]
    constructor
    · rintro (hnil | ⟨_, t, ht, hstarts⟩)
      · exact ⟨[], hnil, List.nil_prefix⟩
      · exact ⟨a :: t, (hderiv t).mp ht, List.cons_prefix_cons.mpr ⟨rfl, hstarts⟩⟩
    · rintro ⟨t, ht, hstarts⟩
      cases t with
      | nil => exact Or.inl ht
      | cons b t =>
        obtain ⟨rfl, htail⟩ := List.cons_prefix_cons.mp hstarts
        have ht' := (hderiv t).mpr ht
        have halive : never (r.deriv b) = false := by
          by_contra hnever
          exact notMem_of_never (by simpa using hnever) t ht'
        exact Or.inr ⟨by rw [halive]; rfl, t, ht', htail⟩

theorem search_iff {r : RegularExpression α} {s : List α} :
    search r s = true ↔ ∃ t ∈ r.matches', t <:+: s := by
  induction s with
  | nil =>
    have hempty : r.matchEpsilon = true ↔ [] ∈ r.matches' := rmatch_iff_matches' r []
    simpa [search, List.infix_nil] using hempty
  | cons a s ih =>
    rw [search, Bool.or_eq_true, matchPrefix_iff, ih]
    simp only [List.infix_cons_iff, and_or_left, exists_or]

theorem search_literal {t s : List α} : search (literal t) s = true ↔ t <:+: s := by
  simp [search_iff, mem_literal]

end DecidableEq

end Search
