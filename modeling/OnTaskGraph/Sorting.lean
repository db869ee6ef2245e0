import Mathlib.Data.List.Perm.Subperm
import Mathlib.Data.List.ProdSigma
import Mathlib.Order.Lattice

/-! Sorting by a comparison function that may throw, as far as a language promises
it: where the function tells no total preorder, the order of the result is the
implementation's own. -/

namespace Sorting

variable {α ε κ : Type*} {cmp : α → α → Except ε Int} {xs ys : List α}

/-- No call for two of the elements throws. -/
def Returns (cmp : α → α → Except ε Int) (xs : List α) : Prop := ∀ a ∈ xs, ∀ b ∈ xs, ∃ n, cmp a b = .ok n

/-- On the elements the function tells a total preorder. -/
def Consistent (cmp : α → α → Except ε Int) (xs : List α) : Prop :=
  ∃ le : α → α → Prop, (∀ a b, le a b ∨ le b a) ∧ (∀ a b c, le a b → le b c → le a c) ∧
    ∀ a ∈ xs, ∀ b ∈ xs, ∃ n, cmp a b = .ok n ∧ (0 < n ↔ ¬ le a b) ∧ (n < 0 ↔ ¬ le b a)

def InOrder (cmp : α → α → Except ε Int) (ys : List α) : Prop :=
  ys.Pairwise fun a b => ∃ n, cmp a b = .ok n ∧ n ≤ 0

/-- An implementation of sorting. It need not be stable. -/
structure Conforms (sort : (α → α → Except ε Int) → List α → Except ε (List α)) : Prop where
  short : ∀ {cmp xs}, xs.length ≤ 1 → sort cmp xs = .ok xs
  returns : ∀ {cmp xs}, Returns cmp xs → ∃ ys, sort cmp xs = .ok ys
  perm : ∀ {cmp xs ys}, sort cmp xs = .ok ys → ys.Perm xs
  inOrder : ∀ {cmp xs ys}, Consistent cmp xs → sort cmp xs = .ok ys → InOrder cmp ys
  /-- Every element of two or more has been compared. -/
  compares : ∀ {cmp xs ys}, 2 ≤ xs.length → sort cmp xs = .ok ys →
    ∀ a ∈ xs, ∃ b ∈ xs, ∃ n, cmp a b = .ok n ∨ cmp b a = .ok n

theorem Consistent.returns (h : Consistent cmp xs) : Returns cmp xs := by
  obtain ⟨le, _, _, hle⟩ := h
  intro a ha b hb
  obtain ⟨n, hn, _⟩ := hle a ha b hb
  exact ⟨n, hn⟩

theorem consistent_of_key [LinearOrder κ] (key : α → κ)
    (h : ∀ a ∈ xs, ∀ b ∈ xs, ∃ n, cmp a b = .ok n ∧ (0 < n ↔ key b < key a) ∧ (n < 0 ↔ key a < key b)) :
    Consistent cmp xs := by
  refine ⟨fun a b => key a ≤ key b, fun a b => le_total _ _, fun a b c => le_trans, fun a ha b hb => ?_⟩
  obtain ⟨n, hn, hpos, hneg⟩ := h a ha b hb
  exact ⟨n, hn, hpos.trans not_le.symm, hneg.trans not_le.symm⟩

theorem Consistent.level {a b c : α} (h : Consistent cmp xs) (ha : a ∈ xs) (hb : b ∈ xs) (hc : c ∈ xs)
    (hca : cmp c a = .ok 0) (hcb : cmp c b = .ok 0) : cmp a b = .ok 0 := by
  obtain ⟨le, _, htrans, hle⟩ := h
  have hlevel : ∀ x ∈ xs, cmp c x = .ok 0 → le c x ∧ le x c := by
    intro x hx hcx
    obtain ⟨n, hn, hpos, hneg⟩ := hle c hc x hx
    obtain rfl : 0 = n := Except.ok.inj (hcx.symm.trans hn)
    exact ⟨by simpa using hpos, by simpa using hneg⟩
  obtain ⟨hca, hac⟩ := hlevel a ha hca
  obtain ⟨hcb, hbc⟩ := hlevel b hb hcb
  obtain ⟨n, hn, hpos, hneg⟩ := hle a ha b hb
  have h1 : ¬ 0 < n := fun h => hpos.mp h (htrans a c b hac hcb)
  have h2 : ¬ n < 0 := fun h => hneg.mp h (htrans b c a hbc hca)
  obtain rfl : n = 0 := by omega
  exact hn

section Arranging

def firstThrow (cmp : α → α → Except ε Int) (xs : List α) : Option ε :=
  (xs.product xs).findSome? fun p =>
    match cmp p.1 p.2 with
    | .error e => some e
    | .ok _ => none

theorem firstThrow_eq_none : firstThrow cmp xs = none ↔ Returns cmp xs := by
  simp only [firstThrow, List.findSome?_eq_none_iff, Prod.forall, List.pair_mem_product, and_imp]
  refine forall_congr' fun a => ⟨fun h ha b hb => ?_, fun h b ha hb => ?_⟩
  · have hab := h b ha hb
    cases hcmp : cmp a b with
    | error e => simp [hcmp] at hab
    | ok n => exact ⟨n, rfl⟩
  · obtain ⟨n, hn⟩ := h ha b hb
    simp [hn]

open Classical in
/-- An implementation that brings the elements into the order of `arranged` before it
sorts them, and leaves them there if the comparison is not consistent. -/
noncomputable def arranging (arranged : List α) (cmp : α → α → Except ε Int) (xs : List α) :
    Except ε (List α) :=
  let xs' := if arranged.Perm xs then arranged else xs
  if xs.length ≤ 1 then .ok xs
  else
    match firstThrow cmp xs with
    | some e => .error e
    | none => if h : Consistent cmp xs then .ok (xs'.mergeSort fun a b => decide (h.choose a b)) else .ok xs'

theorem arranging_eq_ok {arranged : List α} (h : arranging arranged cmp xs = .ok ys) (hlong : 2 ≤ xs.length) :
    Returns cmp xs := by
  rw [arranging, if_neg (by omega)] at h
  split at h
  · simp at h
  · exact firstThrow_eq_none.mp ‹_›

theorem arranging_consistent (arranged : List α) (hlong : 2 ≤ xs.length) (h : Consistent cmp xs) :
    ∃ zs, zs.Perm xs ∧ (arranged.Perm xs → zs = arranged) ∧ ∃ ys, arranging arranged cmp xs = .ok ys ∧
      ys.Perm xs ∧ InOrder cmp ys ∧
        ∀ a b, [a, b].Sublist zs → (∀ n, cmp a b = .ok n → n ≤ 0) → [a, b].Sublist ys := by
  classical
  let le := fun a b => decide (h.choose a b)
  have hspec := h.choose_spec
  have htrans : ∀ a b c, le a b = true → le b c = true → le a c = true := by
    simpa [le] using hspec.2.1
  have htotal : ∀ a b, (le a b || le b a) = true := by
    simpa [le] using hspec.1
  let xs' := if arranged.Perm xs then arranged else xs
  have hperm : xs'.Perm xs := by
    by_cases hp : arranged.Perm xs
    · simp [xs', hp]
    · simp [xs', hp]
  refine ⟨xs', hperm, fun hp => if_pos hp, xs'.mergeSort le, ?_, (List.mergeSort_perm xs' le).trans hperm, ?_, ?_⟩
  · rw [arranging, if_neg (by omega), firstThrow_eq_none.mpr h.returns]
    exact dif_pos h
  · have hsorted : (xs'.mergeSort le).Pairwise fun a b => le a b = true :=
      List.pairwise_mergeSort htrans htotal xs'
    refine hsorted.imp_of_mem fun {a b} ha hb hab => ?_
    obtain ⟨n, hn, hpos, _⟩ := hspec.2.2 a (hperm.mem_iff.mp (List.mem_mergeSort.mp ha)) b
      (hperm.mem_iff.mp (List.mem_mergeSort.mp hb))
    have hle : h.choose a b := by simpa [le] using hab
    exact ⟨n, hn, by_contra fun h0 => hpos.mp (by omega) hle⟩
  · intro a b hsub hcmp
    have hmem : ∀ x ∈ [a, b], x ∈ xs := fun x hx => hperm.mem_iff.mp (hsub.subset hx)
    obtain ⟨n, hn, hpos, _⟩ := hspec.2.2 a (hmem a (by simp)) b (hmem b (by simp))
    have hab : le a b = true := by
      have hle := hcmp n hn
      have : ¬ ¬ h.choose a b := fun hnot => absurd (hpos.mpr hnot) (by omega)
      simpa [le] using this
    exact List.pair_sublist_mergeSort htrans htotal hab hsub

theorem arranging_inconsistent (arranged : List α) (hlong : 2 ≤ xs.length) (hreturns : Returns cmp xs)
    (h : ¬ Consistent cmp xs) : ∃ zs, zs.Perm xs ∧ (arranged.Perm xs → zs = arranged) ∧
      arranging arranged cmp xs = .ok zs := by
  classical
  refine ⟨if arranged.Perm xs then arranged else xs, ?_, fun hp => if_pos hp, ?_⟩
  · by_cases hp : arranged.Perm xs
    · simp [hp]
    · simp [hp]
  · rw [arranging, if_neg (by omega), firstThrow_eq_none.mpr hreturns]
    exact dif_neg h

theorem arranging_perm {arranged : List α} (h : arranging arranged cmp xs = .ok ys) : ys.Perm xs := by
  by_cases hlong : 2 ≤ xs.length
  · by_cases hc : Consistent cmp xs
    · obtain ⟨_, _, _, ys', hys, hperm, _⟩ := arranging_consistent arranged hlong hc
      exact Except.ok.inj (hys.symm.trans h) ▸ hperm
    · obtain ⟨zs, hperm, _, hzs⟩ := arranging_inconsistent arranged hlong (arranging_eq_ok h hlong) hc
      exact Except.ok.inj (hzs.symm.trans h) ▸ hperm
  · rw [arranging, if_pos (by omega)] at h
    exact Except.ok.inj h ▸ List.Perm.refl _

theorem arranging_conforms (arranged : List α) : Conforms (ε := ε) (arranging arranged) where
  short h := by rw [arranging, if_pos h]
  returns {cmp xs} h := by
    by_cases hlong : 2 ≤ xs.length
    · by_cases hc : Consistent cmp xs
      · obtain ⟨_, _, _, ys, hys, _⟩ := arranging_consistent arranged hlong hc
        exact ⟨ys, hys⟩
      · obtain ⟨zs, _, _, hzs⟩ := arranging_inconsistent arranged hlong h hc
        exact ⟨zs, hzs⟩
    · exact ⟨xs, by rw [arranging, if_pos (by omega)]⟩
  perm := arranging_perm
  inOrder {cmp xs ys} hc h := by
    by_cases hlong : 2 ≤ xs.length
    · obtain ⟨_, _, _, ys', hys, _, horder, _⟩ := arranging_consistent arranged hlong hc
      exact Except.ok.inj (hys.symm.trans h) ▸ horder
    · have hshort : ys.length ≤ 1 := by
        have hlength := (arranging_perm h).length_eq
        omega
      match ys, hshort with
      | [], _ => exact .nil
      | [a], _ => exact List.pairwise_singleton _ a
  compares {cmp xs ys} hlong h a ha := by
    obtain ⟨n, hn⟩ := arranging_eq_ok h hlong a ha a ha
    exact ⟨a, ha, n, Or.inl hn⟩

/-- Of two elements that the comparison does not put the other way, some
implementation leaves `a` before `b`, wherever they were. -/
theorem exists_conforming {a b : α} (hreturns : Returns cmp xs) (hab : [a, b].Subperm xs)
    (hcmp : Consistent cmp xs → ∀ n, cmp a b = .ok n → n ≤ 0) :
    ∃ sort, Conforms sort ∧ ∃ ys, sort cmp xs = .ok ys ∧ [a, b].Sublist ys := by
  classical
  obtain ⟨rest, hrest⟩ := List.subperm_iff.mp hab
  obtain ⟨zs, hperm, hsub⟩ : ∃ zs : List α, zs.Perm xs ∧ [a, b].Sublist zs := ⟨rest, hrest.1, hrest.2⟩
  have hlong : 2 ≤ xs.length := hperm.length_eq ▸ hsub.length_le
  refine ⟨arranging zs, arranging_conforms zs, ?_⟩
  by_cases hc : Consistent cmp xs
  · obtain ⟨zs', _, heq, ys, hys, _, _, hkeeps⟩ := arranging_consistent zs hlong hc
    exact ⟨ys, hys, hkeeps a b ((heq hperm).symm ▸ hsub) (hcmp hc)⟩
  · obtain ⟨zs', _, heq, hzs⟩ := arranging_inconsistent zs hlong hreturns hc
    exact ⟨zs', hzs, (heq hperm).symm ▸ hsub⟩

end Arranging

end Sorting
