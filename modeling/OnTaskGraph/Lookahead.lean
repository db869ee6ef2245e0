import Mathlib.Data.List.Basic

/-! Regular expressions with negative lookahead: a backtracking matcher, and the splits
of a text that it searches. -/

namespace Lookahead

variable {α : Type*}

inductive Pattern (α : Type*)
  | empty
  | one (p : α → Bool)
  /-- Any number of characters of a class. -/
  | star (p : α → Bool)
  | seq (r r' : Pattern α)
  | notAhead (r : Pattern α)

namespace Pattern

/-- The longest repetition first. -/
def runStar (p : α → Bool) (k : List α → Bool) : List α → Bool
  | [] => k []
  | a :: s => p a && runStar p k s || k (a :: s)

/-- Whether what is left after a match, beginning with `s`, satisfies `k`. -/
def run : Pattern α → List α → (List α → Bool) → Bool
  | empty, s, k => k s
  | one _, [], _ => false
  | one p, a :: s, k => p a && k s
  | star p, s, k => runStar p k s
  | seq r r', s, k => r.run s fun t => r'.run t k
  | notAhead r, s, k => !(r.run s fun _ => true) && k s

/-- Whether the pattern matches at the beginning of `s`. -/
def matchStart (r : Pattern α) (s : List α) : Bool := r.run s fun _ => true

/-- The pattern takes `u`, if `v` is left after it. -/
def Takes : Pattern α → List α → List α → Prop
  | empty, u, _ => u = []
  | one p, u, _ => ∃ a, u = [a] ∧ p a
  | star p, u, _ => ∀ a ∈ u, p a
  | seq r r', u, v => ∃ x y, u = x ++ y ∧ r.Takes x (y ++ v) ∧ r'.Takes y v
  | notAhead r, u, v => u = [] ∧ ¬ ∃ x y, v = x ++ y ∧ r.Takes x y

theorem runStar_iff {p : α → Bool} {k : List α → Bool} {s : List α} :
    runStar p k s ↔ ∃ u v, s = u ++ v ∧ (∀ a ∈ u, p a) ∧ k v := by
  induction s with
  | nil => simp [runStar]
  | cons a s ih =>
    rw [runStar, Bool.or_eq_true, Bool.and_eq_true, ih]
    constructor
    · rintro (⟨ha, u, v, rfl, hu, hk⟩ | hk)
      · exact ⟨a :: u, v, rfl, List.forall_mem_cons.mpr ⟨ha, hu⟩, hk⟩
      · exact ⟨[], a :: s, rfl, by simp, hk⟩
    · rintro ⟨u, v, hs, hu, hk⟩
      cases u with
      | nil =>
        rw [List.nil_append] at hs
        exact .inr (hs ▸ hk)
      | cons b u =>
        obtain ⟨rfl, rfl⟩ := List.cons.inj hs
        have hall := List.forall_mem_cons.mp hu
        exact .inl ⟨hall.1, u, v, rfl, hall.2, hk⟩

/-- The matcher answers for all splits of the text. -/
theorem run_iff {r : Pattern α} {s : List α} {k : List α → Bool} :
    r.run s k ↔ ∃ u v, s = u ++ v ∧ r.Takes u v ∧ k v := by
  induction r generalizing s k with
  | empty => simp [run, Takes]
  | one p =>
    cases s with
    | nil =>
      simp only [run, Takes, Bool.false_eq_true, false_iff]
      rintro ⟨u, v, hs, ⟨a, rfl, _⟩, _⟩
      cases hs
    | cons b s =>
      rw [run, Bool.and_eq_true]
      constructor
      · rintro ⟨hb, hk⟩
        exact ⟨[b], s, rfl, ⟨b, rfl, hb⟩, hk⟩
      · rintro ⟨u, v, hs, ⟨a, rfl, ha⟩, hk⟩
        obtain ⟨rfl, rfl⟩ := List.cons.inj hs
        exact ⟨ha, hk⟩
  | star p => exact runStar_iff
  | seq r r' ih ih' =>
    rw [run, ih]
    constructor
    · rintro ⟨x, t, rfl, hx, hk⟩
      obtain ⟨y, v, rfl, hy, hk⟩ := ih'.mp hk
      exact ⟨x ++ y, v, (List.append_assoc x y v).symm, ⟨x, y, rfl, hx, hy⟩, hk⟩
    · rintro ⟨u, v, rfl, ⟨x, y, rfl, hx, hy⟩, hk⟩
      exact ⟨x, y ++ v, List.append_assoc x y v, hx, ih'.mpr ⟨y, v, rfl, hy, hk⟩⟩
  | notAhead r ih =>
    rw [run, Bool.and_eq_true, Bool.not_eq_true', ← Bool.not_eq_true, ih]
    constructor
    · rintro ⟨hnot, hk⟩
      exact ⟨[], s, rfl, ⟨rfl, fun ⟨x, y, hs, hx⟩ => hnot ⟨x, y, hs, hx, rfl⟩⟩, hk⟩
    · rintro ⟨u, v, rfl, ⟨rfl, hnot⟩, hk⟩
      exact ⟨fun ⟨x, y, hs, hx, _⟩ => hnot ⟨x, y, hs, hx⟩, hk⟩

theorem matchStart_iff {r : Pattern α} {s : List α} : r.matchStart s ↔ ∃ u v, s = u ++ v ∧ r.Takes u v := by
  simp [matchStart, run_iff]

def sequence (rs : List (Pattern α)) : Pattern α := rs.foldr seq empty

variable [DecidableEq α]

def literal (w : List α) : Pattern α := w.foldr (fun a r => (one fun b => a = b).seq r) empty

theorem takes_literal {w u v : List α} : (literal w).Takes u v ↔ u = w := by
  induction w generalizing u with
  | nil => rfl
  | cons a w ih =>
    rw [literal, List.foldr_cons, ← literal]
    simp only [Takes, ih, decide_eq_true_eq]
    constructor
    · rintro ⟨x, y, rfl, ⟨b, rfl, rfl⟩, rfl⟩
      rfl
    · rintro rfl
      exact ⟨[a], w, rfl, ⟨a, rfl, rfl⟩, rfl⟩

/-- Words, each behind any number of characters of a class. -/
def spaced (p : α → Bool) (ws : List (List α)) : Pattern α :=
  ws.foldr (fun w r => (star p).seq ((literal w).seq r)) empty

/-- A text that consists of words behind characters of a class. -/
def Spaced (p : α → Bool) : List (List α) → List α → Prop
  | [], u => u = []
  | w :: ws, u => ∃ x y, u = x ++ (w ++ y) ∧ (∀ a ∈ x, p a) ∧ Spaced p ws y

theorem takes_spaced {p : α → Bool} {ws : List (List α)} {u v : List α} :
    (spaced p ws).Takes u v ↔ Spaced p ws u := by
  induction ws generalizing u with
  | nil => rfl
  | cons w ws ih =>
    rw [spaced, List.foldr_cons, ← spaced]
    simp only [Takes, takes_literal, ih, Spaced]
    constructor
    · rintro ⟨x, y, rfl, hx, _, z, rfl, rfl, hz⟩
      exact ⟨x, z, rfl, hx, hz⟩
    · rintro ⟨x, y, rfl, hx, hy⟩
      exact ⟨x, w ++ y, rfl, hx, w, y, rfl, rfl, hy⟩

omit [DecidableEq α] in
/-- Two words of a sequence with nothing but characters of the class between them. -/
theorem Spaced.between {p : α → Bool} {w w' : List α} {ws ws' : List (List α)} {u : List α}
    (h : Spaced p (ws ++ w :: w' :: ws') u) :
    ∃ x y z, u = x ++ (w ++ (y ++ (w' ++ z))) ∧ ∀ a ∈ y, p a := by
  induction ws generalizing u with
  | nil =>
    obtain ⟨x, _, rfl, _, y, z, rfl, hy, _⟩ := h
    exact ⟨x, y, z, rfl, hy⟩
  | cons w₀ ws ih =>
    obtain ⟨x₀, y₀, rfl, _, hrest⟩ := h
    obtain ⟨x, y, z, rfl, hy⟩ := ih hrest
    exact ⟨x₀ ++ (w₀ ++ x), y, z, by simp, hy⟩

end Pattern

end Lookahead
