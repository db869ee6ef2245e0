import Mathlib.Data.List.Basic

/-! Loops over a list, and ones whose body may throw. What the body had done to the
state before the throw stays, so a throw carries the state as well. -/

namespace Loops

variable {σ α : Type*} {body : σ → α → Except σ σ}

/-- What is found after a loop was there before it or is due to one of its rounds. -/
theorem foldl_found {β : Type*} {round : σ → α → σ} (find : σ → Option β) (P : α → β → Prop)
    (hround : ∀ s a b, find (round s a) = some b → find s = some b ∨ P a b)
    {s : σ} {as : List α} {b : β} (h : find (as.foldl round s) = some b) :
    find s = some b ∨ ∃ a ∈ as, P a b := by
  induction as generalizing s with
  | nil => exact Or.inl h
  | cons a as ih =>
    rcases ih h with hfirst | ⟨a', ha', hP⟩
    · rcases hround s a b hfirst with hold | hP
      · exact Or.inl hold
      · exact Or.inr ⟨a, List.mem_cons_self, hP⟩
    · exact Or.inr ⟨a', List.mem_cons_of_mem a ha', hP⟩

/-- The state that is left, whether or not there was a throw. -/
def Leaves (result : Except σ σ) (s : σ) : Prop := result = .ok s ∨ result = .error s

theorem foldlM_cons_leaves {s s' : σ} {a : α} {as : List α} :
    Leaves ((a :: as).foldlM body s) s' ↔
      body s a = .error s' ∨ ∃ t, body s a = .ok t ∧ Leaves (as.foldlM body t) s' := by
  cases h : body s a <;> simp [Leaves, h, bind, Except.bind]

/-- A relation that each round keeps relates the first state to the one left. -/
theorem foldlM_leaves (R : σ → σ → Prop) (hrefl : ∀ s, R s s)
    (htrans : ∀ s t u, R s t → R t u → R s u) (hbody : ∀ s a s', Leaves (body s a) s' → R s s')
    {s s' : σ} {as : List α} (h : Leaves (as.foldlM body s) s') : R s s' := by
  induction as generalizing s with
  | nil =>
    have : s = s' := by simpa [Leaves, pure, Except.pure] using h
    exact this ▸ hrefl s
  | cons a as ih =>
    rcases foldlM_cons_leaves.mp h with herr | ⟨t, hok, hrest⟩
    · exact hbody s a s' (Or.inr herr)
    · exact htrans s t s' (hbody s a t (Or.inl hok)) (ih hrest)

/-- An invariant that each round keeps holds at the end of a loop without a throw. -/
theorem foldlM_ok (Inv : σ → Prop) (hbody : ∀ s a s', body s a = .ok s' → Inv s → Inv s')
    {s s' : σ} {as : List α} (h : as.foldlM body s = .ok s') (hs : Inv s) : Inv s' := by
  induction as generalizing s with
  | nil => exact Except.ok.inj h ▸ hs
  | cons a as ih =>
    cases hround : body s a with
    | error t => simp [hround, bind, Except.bind] at h
    | ok t =>
      have hrest : as.foldlM body t = .ok s' := by
        simpa [hround, bind, Except.bind] using h
      exact ih hrest (hbody s a t hround hs)

end Loops
