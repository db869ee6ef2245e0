import Mathlib.Data.Set.Lattice
import Mathlib.Order.CompletePartialOrder
import Mathlib.Order.Interval.Set.LinearOrder

/-! Following links until there is none, and half-open intervals that lie end to
end. -/

namespace Tiling

variable {α : Type*}

/-- From `a` on, these are visited by following `next` until it answers none. -/
inductive Follows (next : α → Option α) : α → List α → Prop
  | last {a : α} (h : next a = none) : Follows next a [a]
  | link {a b : α} {rest : List α} (h : next a = some b) (hrest : Follows next b rest) :
      Follows next a (a :: rest)

/-- The sets are disjoint from one another and cover exactly `s`. -/
def Partitions (ws : List (Set α)) (s : Set α) : Prop :=
  ws.Pairwise Disjoint ∧ ∀ x, x ∈ s ↔ ∃ w ∈ ws, x ∈ w

theorem Partitions.reverse {ws : List (Set α)} {s : Set α} (h : Partitions ws s) :
    Partitions ws.reverse s := by
  constructor
  · rw [List.pairwise_reverse]
    exact h.1.imp fun hab => hab.symm
  · simpa using h.2

section Intervals

variable [LinearOrder α]

/-- The intervals lie end to end from `lo` to `hi`. -/
def Tiles : α → List (α × α) → α → Prop
  | lo, [], hi => lo = hi
  | lo, w :: ws, hi => w.1 = lo ∧ lo ≤ w.2 ∧ Tiles w.2 ws hi

theorem Tiles.single {lo hi : α} (h : lo ≤ hi) : Tiles lo [(lo, hi)] hi := ⟨rfl, h, rfl⟩

theorem Tiles.append {lo mid hi : α} {vs ws : List (α × α)} (h : Tiles lo vs mid)
    (hrest : Tiles mid ws hi) : Tiles lo (vs ++ ws) hi := by
  induction vs generalizing lo with
  | nil => exact h ▸ hrest
  | cons w vs ih => exact ⟨h.1, h.2.1, ih h.2.2⟩

theorem Tiles.le {lo hi : α} {ws : List (α × α)} (h : Tiles lo ws hi) : lo ≤ hi := by
  induction ws generalizing lo with
  | nil => exact le_of_eq h
  | cons w ws ih => exact h.2.1.trans (ih h.2.2)

theorem Tiles.mem_iff {lo hi x : α} {ws : List (α × α)} (h : Tiles lo ws hi) :
    x ∈ Set.Ico lo hi ↔ ∃ w ∈ ws, x ∈ Set.Ico w.1 w.2 := by
  induction ws generalizing lo with
  | nil =>
    obtain rfl : lo = hi := h
    simp
  | cons w ws ih =>
    obtain ⟨rfl, hw, hrest⟩ := h
    have hle := hrest.le
    have hcons : (∃ v ∈ w :: ws, x ∈ Set.Ico v.1 v.2) ↔
        x ∈ Set.Ico w.1 w.2 ∨ ∃ v ∈ ws, x ∈ Set.Ico v.1 v.2 := by simp
    rw [hcons, ← ih hrest, ← Set.mem_union, Set.Ico_union_Ico_eq_Ico hw hle]

end Intervals

end Tiling
