import Mathlib.Data.List.Basic
import Mathlib.Data.List.Nodup
import Mathlib.Data.List.Sort
import OnTaskGraph.JsText

/-! Objects of JavaScript that begin as `{}` and are assigned to: their own properties in
the order of their creation, and the order in which they are enumerated. -/

namespace JsObject

open JsText

variable {δ : Type*}

abbrev Properties (δ : Type*) := List (Text × δ)

def proto : Text := "__proto__".toList

/-- The own property `k`. -/
def own : Properties δ → Text → Option δ
  | [], _ => none
  | (a, v) :: h, k => if a = k then some v else own h k

def put : Properties δ → Text → δ → Properties δ
  | [], k, v => [(k, v)]
  | (a, w) :: h, k, v => if a = k then (a, v) :: h else (a, w) :: put h k v

/-- `object[k] = v`, which changes no property but the prototype for "__proto__". -/
def assign (h : Properties δ) (k : Text) (v : δ) : Properties δ := if k = proto then h else put h k v

/-- The number of an array index. -/
def index? (k : Text) : Option Nat :=
  let i := k.foldl (fun n c => 10 * n + digitValue c) 0
  if Nat.toDigits 10 i = k ∧ i < 2 ^ 32 - 1 then some i else none

/-- The properties as they are enumerated: array indices come first, by their numbers. -/
def enumerate (h : Properties δ) : Properties δ :=
  (h.filter fun p => (index? p.1).isSome).insertionSort (fun p q => (index? p.1).getD 0 ≤ (index? q.1).getD 0) ++
    h.filter fun p => !(index? p.1).isSome

def keys (h : Properties δ) : List Text := (enumerate h).map Prod.fst

theorem enumerate_perm (h : Properties δ) : (enumerate h).Perm h := by
  have hsplit := List.filter_append_perm (fun p : Text × δ => (index? p.1).isSome) h
  exact ((List.perm_insertionSort _ _).append_right _).trans hsplit

theorem own_put (h : Properties δ) (k k' : Text) (v : δ) :
    own (put h k v) k' = if k = k' then some v else own h k' := by
  induction h with
  | nil => rfl
  | cons p h ih =>
    obtain ⟨a, w⟩ := p
    by_cases hk : a = k
    · subst hk
      by_cases hk' : a = k' <;> simp [put, own, hk']
    · by_cases ha : a = k'
      · subst ha
        simp [put, own, hk, Ne.symm hk]
      · simp [put, own, hk, ha, ih]

theorem own_assign (h : Properties δ) (k k' : Text) (v : δ) :
    own (assign h k v) k' = if k = k' ∧ k ≠ proto then some v else own h k' := by
  by_cases hk : k = proto
  · simp [assign, hk]
  · simp [assign, hk, own_put]

theorem own_isSome_iff {h : Properties δ} {k : Text} : (own h k).isSome ↔ k ∈ h.map Prod.fst := by
  induction h with
  | nil => simp [own]
  | cons p h ih =>
    obtain ⟨a, w⟩ := p
    by_cases hk : a = k
    · simp [own, hk]
    · simp [own, hk, ih, Ne.symm hk]

theorem mem_keys {h : Properties δ} {k : Text} : k ∈ keys h ↔ (own h k).isSome := by
  rw [own_isSome_iff, keys]
  exact ((enumerate_perm h).map Prod.fst).mem_iff

theorem put_nodup {h : Properties δ} (hnodup : (h.map Prod.fst).Nodup) (k : Text) (v : δ) :
    ((put h k v).map Prod.fst).Nodup := by
  induction h with
  | nil => simp [put]
  | cons p h ih =>
    obtain ⟨a, w⟩ := p
    rw [List.map_cons, List.nodup_cons] at hnodup
    by_cases hk : a = k
    · rw [put, if_pos hk, List.map_cons, List.nodup_cons]
      exact hnodup
    · have hmem : a ∉ (put h k v).map Prod.fst := by
        rw [← own_isSome_iff, own_put, if_neg (Ne.symm hk), own_isSome_iff]
        exact hnodup.1
      simpa only [put, hk, if_false, List.map_cons, List.nodup_cons] using ⟨hmem, ih hnodup.2⟩

theorem assign_nodup {h : Properties δ} (hnodup : (h.map Prod.fst).Nodup) (k : Text) (v : δ) :
    ((assign h k v).map Prod.fst).Nodup := by
  unfold assign
  split
  · exact hnodup
  · exact put_nodup hnodup k v

theorem mem_iff_own {h : Properties δ} (hnodup : (h.map Prod.fst).Nodup) {k : Text} {v : δ} :
    (k, v) ∈ h ↔ own h k = some v := by
  induction h with
  | nil => simp [own]
  | cons p h ih =>
    obtain ⟨a, w⟩ := p
    rw [List.map_cons, List.nodup_cons] at hnodup
    rw [List.mem_cons, ih hnodup.2]
    by_cases hk : a = k
    · subst hk
      have hnone : own h a = none := by
        rw [← Option.not_isSome_iff_eq_none, own_isSome_iff]
        exact hnodup.1
      simp [own, hnone, eq_comm]
    · simp [own, hk, Ne.symm hk]

/-- The assignments of a value to each key of a list. -/
def ofKeys (f : Text → δ) (ks : List Text) : Properties δ := ks.foldl (fun h k => assign h k (f k)) []

theorem own_ofKeys (f : Text → δ) (ks : List Text) (k : Text) :
    own (ofKeys f ks) k = if k ∈ ks ∧ k ≠ proto then some (f k) else none := by
  induction ks using List.reverseRecOn with
  | nil => simp [ofKeys, own]
  | append_singleton ks a ih =>
    rw [ofKeys, List.foldl_append, ← ofKeys, List.foldl_cons, List.foldl_nil, own_assign, ih]
    by_cases ha : a = k
    · subst ha
      by_cases hp : a = proto <;> simp [hp]
    · simp [ha, Ne.symm ha]

theorem ofKeys_nodup (f : Text → δ) (ks : List Text) : ((ofKeys f ks).map Prod.fst).Nodup := by
  induction ks using List.reverseRecOn with
  | nil => simp [ofKeys]
  | append_singleton ks a ih =>
    rw [ofKeys, List.foldl_append, ← ofKeys, List.foldl_cons, List.foldl_nil]
    exact assign_nodup ih a (f a)

end JsObject
