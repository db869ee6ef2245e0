import OnTaskGraph.History
import OnTaskGraph.Lts

/-! Numbered messages over a network that loses copies and answers. The sender keeps a
message until a copy of it is answered, or gives the message up; a copy that nobody waits
for any more may still arrive. Logs are kept newest first. -/

namespace Delivery

structure Channel where
  /-- The number of messages that have been answered or given up. -/
  next : Nat
  /-- Message `next` has been offered. -/
  busy : Bool
  /-- The copy that is waited for, and whether it has arrived. -/
  copy : Option Bool
  stray : List Nat
  sent : List Nat
  arrived : List Nat
  abandoned : List Nat

inductive Move
  | offer
  | send
  | arrive
  | answer
  | fail
  /-- The copy at an index of `stray` arrives. -/
  | late (i : Nat)
  | abandon
  deriving DecidableEq

namespace Channel

def empty : Channel where
  next := 0
  busy := false
  copy := none
  stray := []
  sent := []
  arrived := []
  abandoned := []

def step (c : Channel) : Move → Option Channel
  | .offer => if c.busy then none else some { c with busy := true }
  | .send =>
    if c.busy && c.copy.isNone then some { c with copy := some false, sent := c.next :: c.sent } else none
  | .arrive =>
    if c.copy = some false then some { c with copy := some true, arrived := c.next :: c.arrived } else none
  | .answer =>
    if c.copy = some true then some { c with next := c.next + 1, busy := false, copy := none } else none
  | .fail =>
    match c.copy with
    | none => none
    | some true => some { c with copy := none }
    | some false => some { c with copy := none, stray := c.next :: c.stray }
  | .late i =>
    match c.stray[i]? with
    | none => none
    | some k => some { c with stray := c.stray.eraseIdx i, arrived := k :: c.arrived }
  | .abandon =>
    if c.busy && c.copy.isNone then
      some { c with next := c.next + 1, busy := false, abandoned := c.next :: c.abandoned }
    else none

/-- Message `k` has been offered. -/
def Known (c : Channel) (k : Nat) : Prop := k < c.next ∨ k = c.next ∧ c.busy = true

/-- The copies of message `k` that have not been lost for good. -/
def copies (c : Channel) (k : Nat) : Nat :=
  c.arrived.count k + c.stray.count k + if c.copy = some false ∧ k = c.next then 1 else 0

structure Inv (c : Channel) : Prop where
  waited : c.copy.isSome → c.busy = true
  settled : ∀ k < c.next, k ∈ c.arrived ∨ k ∈ c.abandoned
  here : c.copy = some true → c.next ∈ c.arrived
  known : ∀ k ∈ c.sent, c.Known k
  conserved : ∀ k, c.copies k ≤ c.sent.count k
  order : History.Chronicle (fun k earlier => ∀ j < k, j ∈ earlier ∨ j ∈ c.abandoned) c.arrived

theorem empty_inv : empty.Inv where
  waited := nofun
  settled := nofun
  here := nofun
  known := nofun
  conserved := by simp [copies, empty]
  order := trivial

variable {c d : Channel}

theorem Known.mono {k : Nat} (h : c.Known k) (hnext : c.next ≤ d.next)
    (hbusy : c.next = d.next → c.busy = true → d.busy = true) : d.Known k := by
  rcases h with hlt | ⟨rfl, hb⟩
  · exact .inl (by omega)
  · rcases Nat.lt_or_eq_of_le hnext with hlt | heq
    · exact .inl hlt
    · exact .inr ⟨heq, hbusy heq hb⟩

theorem Inv.sent_of_stray (h : c.Inv) {k : Nat} (hk : k ∈ c.stray) : k ∈ c.sent := by
  have hle := h.conserved k
  have hpos := List.count_pos_iff.mpr hk
  rw [copies] at hle
  exact List.count_pos_iff.mp (by omega)

/-- A copy may be added to what has arrived when all messages before it are settled. -/
theorem Inv.settled_of_known (h : c.Inv) {k : Nat} (hk : c.Known k) :
    ∀ j < k, j ∈ c.arrived ∨ j ∈ c.abandoned := by
  intro j hj
  rcases hk with hlt | ⟨rfl, hbusy⟩
  · exact h.settled j (by omega)
  · exact h.settled j hj

theorem Inv.offer (h : c.Inv) : Inv { c with busy := true } where
  waited := fun _ => rfl
  settled := h.settled
  here := h.here
  known := fun k hk => (h.known k hk).mono (Nat.le_refl c.next) fun _ _ => rfl
  conserved := h.conserved
  order := h.order

theorem Inv.send (h : c.Inv) (hbusy : c.busy = true) (hcopy : c.copy = none) :
    Inv { c with copy := some false, sent := c.next :: c.sent } where
  waited := fun _ => hbusy
  settled := h.settled
  here := nofun
  known := by
    intro k hk
    rcases List.mem_cons.mp hk with rfl | hk
    · exact .inr ⟨rfl, hbusy⟩
    · exact h.known k hk
  conserved := by
    intro k
    have hle := h.conserved k
    simp only [copies, hcopy] at hle ⊢
    by_cases hk : k = c.next
    · subst hk
      simp only [List.count_cons_self]
      simp at hle ⊢
      omega
    · simp only [List.count_cons_of_ne (Ne.symm hk), hk, and_false]
      simpa using hle
  order := h.order

theorem Inv.arrive (h : c.Inv) (hcopy : c.copy = some false) :
    Inv { c with copy := some true, arrived := c.next :: c.arrived } where
  waited := fun _ => h.waited (by simp [hcopy])
  settled := by
    intro k hk
    rcases h.settled k hk with harr | hab
    · exact .inl (List.mem_cons_of_mem _ harr)
    · exact .inr hab
  here := fun _ => List.mem_cons_self
  known := h.known
  conserved := by
    intro k
    have hle := h.conserved k
    simp only [copies, hcopy] at hle ⊢
    by_cases hk : k = c.next
    · subst hk
      simp at hle ⊢
      omega
    · simp only [List.count_cons_of_ne (Ne.symm hk)]
      simp [hk] at hle ⊢
      omega
  order := ⟨h.settled, h.order⟩

theorem Inv.answer (h : c.Inv) (hcopy : c.copy = some true) :
    Inv { c with next := c.next + 1, busy := false, copy := none } where
  waited := nofun
  settled := by
    intro k hk
    rcases Nat.lt_succ_iff_lt_or_eq.mp hk with hlt | rfl
    · exact h.settled k hlt
    · exact .inl (h.here hcopy)
  here := nofun
  known := by
    intro k hk
    refine (h.known k hk).mono (Nat.le_succ c.next) fun heq => ?_
    exact absurd heq (Nat.ne_of_lt (Nat.lt_succ_self c.next))
  conserved := by
    intro k
    have hle := h.conserved k
    simp only [copies, hcopy] at hle ⊢
    simpa using hle
  order := h.order

theorem Inv.fail_arrived (h : c.Inv) (hcopy : c.copy = some true) : Inv { c with copy := none } where
  waited := nofun
  settled := h.settled
  here := nofun
  known := h.known
  conserved := by
    intro k
    have hle := h.conserved k
    simp only [copies, hcopy] at hle ⊢
    simpa using hle
  order := h.order

theorem Inv.fail_stray (h : c.Inv) (hcopy : c.copy = some false) :
    Inv { c with copy := none, stray := c.next :: c.stray } where
  waited := nofun
  settled := h.settled
  here := nofun
  known := h.known
  conserved := by
    intro k
    have hle := h.conserved k
    simp only [copies, hcopy] at hle ⊢
    by_cases hk : k = c.next
    · subst hk
      simp at hle ⊢
      omega
    · simp only [List.count_cons_of_ne (Ne.symm hk)]
      simp [hk] at hle ⊢
      omega
  order := h.order

theorem Inv.late (h : c.Inv) {i k : Nat} (hk : c.stray[i]? = some k) :
    Inv { c with stray := c.stray.eraseIdx i, arrived := k :: c.arrived } where
  waited := h.waited
  settled := by
    intro j hj
    rcases h.settled j hj with harr | hab
    · exact .inl (List.mem_cons_of_mem _ harr)
    · exact .inr hab
  here := fun hcopy => List.mem_cons_of_mem _ (h.here hcopy)
  known := h.known
  conserved := by
    intro j
    have hle := h.conserved j
    simp only [copies] at hle ⊢
    obtain ⟨hi, hget⟩ := List.getElem?_eq_some_iff.mp hk
    have hcount := (List.getElem_cons_eraseIdx_perm hi).count_eq j
    rw [hget] at hcount
    simp only [List.count_cons] at hcount ⊢
    omega
  order := ⟨h.settled_of_known (h.known k (h.sent_of_stray (List.mem_of_getElem? hk))), h.order⟩

theorem Inv.abandon (h : c.Inv) (hcopy : c.copy = none) :
    Inv { c with next := c.next + 1, busy := false, abandoned := c.next :: c.abandoned } where
  waited := by simp [hcopy]
  settled := by
    intro k hk
    rcases Nat.lt_succ_iff_lt_or_eq.mp hk with hlt | rfl
    · rcases h.settled k hlt with harr | hab
      · exact .inl harr
      · exact .inr (List.mem_cons_of_mem _ hab)
    · exact .inr List.mem_cons_self
  here := by simp [hcopy]
  known := by
    intro k hk
    refine (h.known k hk).mono (Nat.le_succ c.next) fun heq => ?_
    exact absurd heq (Nat.ne_of_lt (Nat.lt_succ_self c.next))
  conserved := by
    intro k
    have hle := h.conserved k
    simp only [copies, hcopy] at hle ⊢
    simpa using hle
  order := h.order.imp fun k earlier hprev j hj => (hprev j hj).imp_right (List.mem_cons_of_mem _)

theorem step_inv {m : Move} (h : c.step m = some d) (hc : c.Inv) : d.Inv := by
  cases m with
  | offer =>
    simp only [step, Option.ite_none_left_eq_some, Bool.not_eq_true, Option.some.injEq] at h
    obtain ⟨-, rfl⟩ := h
    exact hc.offer
  | send =>
    simp only [step, Option.ite_none_right_eq_some, Bool.and_eq_true, Option.isNone_iff_eq_none,
      Option.some.injEq] at h
    obtain ⟨⟨hbusy, hcopy⟩, rfl⟩ := h
    exact hc.send hbusy hcopy
  | arrive =>
    simp only [step, Option.ite_none_right_eq_some, Option.some.injEq] at h
    obtain ⟨hcopy, rfl⟩ := h
    exact hc.arrive hcopy
  | answer =>
    simp only [step, Option.ite_none_right_eq_some, Option.some.injEq] at h
    obtain ⟨hcopy, rfl⟩ := h
    exact hc.answer hcopy
  | fail =>
    simp only [step] at h
    split at h
    · cases h
    · obtain rfl := Option.some.inj h
      exact hc.fail_arrived ‹_›
    · obtain rfl := Option.some.inj h
      exact hc.fail_stray ‹_›
  | late i =>
    simp only [step] at h
    split at h
    · cases h
    · obtain rfl := Option.some.inj h
      exact hc.late ‹_›
  | abandon =>
    simp only [step, Option.ite_none_right_eq_some, Bool.and_eq_true, Option.isNone_iff_eq_none,
      Option.some.injEq] at h
    obtain ⟨⟨hbusy, hcopy⟩, rfl⟩ := h
    exact hc.abandon hcopy

theorem exec_inv {ms : List Move} (hc : c.Inv) (h : Lts.exec step c ms = some d) : d.Inv :=
  Lts.invariant Inv (fun _ _ _ hstep => step_inv hstep) hc h

/-- A message that is settled has arrived, unless it has been given up. -/
theorem Inv.arrived_of_lt (h : c.Inv) (hkept : c.abandoned = []) {k : Nat} (hk : k < c.next) :
    k ∈ c.arrived := by
  have hsettled := h.settled k hk
  rw [hkept] at hsettled
  simpa using hsettled

end Channel

end Delivery
