import Mathlib.Data.List.Perm.Subperm
import Mathlib.Data.List.Nodup

/-! Logs kept newest entry first: what an entry may rely on among the earlier
ones, what was logged since a marker, and counting matched entries. -/

namespace History

variable {ε β : Type*}

/-- Every entry stands in relation `P` to the entries logged before it. -/
def Chronicle (P : ε → List ε → Prop) : List ε → Prop
  | [] => True
  | e :: log => P e log ∧ Chronicle P log

theorem Chronicle.append {P : ε → List ε → Prop} {new log : List ε}
    (h : Chronicle P log) (hnew : ∀ later e earlier, new = later ++ e :: earlier → P e (earlier ++ log)) :
    Chronicle P (new ++ log) := by
  induction new with
  | nil => exact h
  | cons x new ih =>
    refine ⟨hnew [] x new rfl, ih fun later e earlier he => ?_⟩
    exact hnew (x :: later) e earlier (by simp [he])

theorem Chronicle.imp {P Q : ε → List ε → Prop} {log : List ε} (himp : ∀ e earlier, P e earlier → Q e earlier)
    (h : Chronicle P log) : Chronicle Q log := by
  induction log with
  | nil => trivial
  | cons e log ih => exact ⟨himp e log h.1, ih h.2⟩

theorem Chronicle.exists_of_mem {P : ε → List ε → Prop} {log : List ε} {e : ε} (h : Chronicle P log)
    (he : e ∈ log) : ∃ later earlier, log = later ++ e :: earlier ∧ P e earlier := by
  induction log with
  | nil => cases he
  | cons x log ih =>
    rcases List.mem_cons.mp he with rfl | he
    · exact ⟨[], log, rfl, h.1⟩
    · obtain ⟨later, earlier, rfl, hP⟩ := ih h.2 he
      exact ⟨x :: later, earlier, rfl, hP⟩

/-- Each key asked for was given before, and was not asked for before. -/
def Matched (ask give : ε → Option β) : List ε → Prop :=
  Chronicle fun e earlier => ∀ b ∈ ask e, b ∈ earlier.filterMap give ∧ b ∉ earlier.filterMap ask

theorem Matched.subset {ask give : ε → Option β} {log : List ε} (h : Matched ask give log) :
    log.filterMap ask ⊆ log.filterMap give := by
  induction log with
  | nil => simp
  | cons e log ih =>
    have hsub := ih h.2
    have hgive : log.filterMap give ⊆ (e :: log).filterMap give := by
      rw [List.filterMap_cons]
      split
      · exact List.Subset.refl _
      · exact List.subset_cons_self _ _
    intro b hb
    cases ha : ask e with
    | none => exact hgive (hsub (by simpa [List.filterMap_cons, ha] using hb))
    | some c =>
      have hb' : b = c ∨ b ∈ log.filterMap ask := by simpa [List.filterMap_cons, ha] using hb
      rcases hb' with rfl | hb'
      · exact hgive (h.1 b ha).1
      · exact hgive (hsub hb')

theorem Matched.nodup {ask give : ε → Option β} {log : List ε} (h : Matched ask give log) :
    (log.filterMap ask).Nodup := by
  induction log with
  | nil => simp
  | cons e log ih =>
    cases ha : ask e with
    | none => simpa [List.filterMap_cons, ha] using ih h.2
    | some c =>
      rw [List.filterMap_cons_some ha, List.nodup_cons]
      exact ⟨(h.1 c ha).2, ih h.2⟩

theorem Matched.length_le {ask give : ε → Option β} {log : List ε} (h : Matched ask give log)
    (q : β → Bool) : ((log.filterMap ask).filter q).length ≤ ((log.filterMap give).filter q).length := by
  refine (List.subperm_of_subset (h.nodup.filter q) fun b hb => ?_).length_le
  rw [List.mem_filter] at hb ⊢
  exact ⟨h.subset hb.1, hb.2⟩

section Since

variable [DecidableEq ε]

/-- The entries logged after the last `marker`. -/
def since (marker : ε) (log : List ε) : List ε := log.takeWhile (· ≠ marker)

@[simp] theorem since_cons_self (marker : ε) (log : List ε) : since marker (marker :: log) = [] := by
  simp [since]

theorem mem_since_cons {marker x e : ε} {log : List ε} :
    e ∈ since marker (x :: log) ↔ x ≠ marker ∧ (e = x ∨ e ∈ since marker log) := by
  by_cases h : x = marker <;> simp [since, h]

theorem mem_since_append {marker e : ε} {new log : List ε} (hnew : marker ∉ new) :
    e ∈ since marker (new ++ log) ↔ e ∈ new ∨ e ∈ since marker log := by
  induction new with
  | nil => simp
  | cons x new ih =>
    have hx : x ≠ marker := fun h => hnew (by simp [h])
    have hrest : marker ∉ new := fun h => hnew (by simp [h])
    rw [List.cons_append, mem_since_cons, ih hrest]
    simp [hx, or_assoc]

end Since

end History
