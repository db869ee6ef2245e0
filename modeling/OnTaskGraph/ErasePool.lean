import Mathlib.Algebra.GroupWithZero.Nat
import Mathlib.Algebra.Order.BigOperators.Group.List
import Mathlib.Algebra.Order.Group.Nat
import OnTaskGraph.Lts

/-! The worker pool of `secure_erase.py`: the progress job is submitted first, and then one
erase job for each disk; a worker is given to the jobs in this order. -/

namespace OnTaskGraph.ErasePool

/-- How far the erase job of a disk is. -/
inductive Phase
  | queued
  /-- It has a worker, and has not opened its log. -/
  | starting
  | erasing
  /-- The erase process has ended, and the job still has its worker. -/
  | ended
  | finished
  deriving DecidableEq

namespace Phase

def working : Phase → Bool
  | starting | erasing | ended => true
  | queued | finished => false

/-- `os.path.exists` of the log -/
def logExists : Phase → Bool
  | queued | starting => false
  | erasing | ended | finished => true

def processEnded : Phase → Bool
  | queued | starting | erasing => false
  | ended | finished => true

def rank : Phase → Nat
  | queued => 4
  | starting => 3
  | erasing => 2
  | ended => 1
  | finished => 0

end Phase

/-- The steps of the erase jobs, and the end of the progress job. -/
inductive Action (δ : Type)
  | take (d : δ)
  | openLog (d : δ)
  | endProcess (d : δ)
  | finish (d : δ)
  | exit

structure System (δ : Type) where
  phase : δ → Phase
  /-- The progress job has its worker. -/
  progress : Bool

namespace System

variable {δ : Type} [DecidableEq δ] {disks : List δ} {cpuCount : Nat} {s t : System δ}

/-- All jobs are submitted, and the first worker has taken the first of them. -/
def start : System δ := { phase := fun _ => .queued, progress := true }

def queue (disks : List δ) (s : System δ) : List δ := disks.filter fun d => s.phase d = .queued

def busy (disks : List δ) (s : System δ) : Nat :=
  (disks.filter fun d => (s.phase d).working).length + s.progress.toNat

def move (s : System δ) (d : δ) (p : Phase) : System δ := { s with phase := Function.update s.phase d p }

def step (disks : List δ) (cpuCount : Nat) (s : System δ) : Action δ → Option (System δ)
  | .take d =>
    if (s.queue disks).head? = some d ∧ s.busy disks < cpuCount then some (s.move d .starting) else none
  | .openLog d => if d ∈ disks ∧ s.phase d = .starting then some (s.move d .erasing) else none
  | .endProcess d => if d ∈ disks ∧ s.phase d = .erasing then some (s.move d .ended) else none
  | .finish d => if d ∈ disks ∧ s.phase d = .ended then some (s.move d .finished) else none
  | .exit =>
    if s.progress ∧ ∀ d ∈ disks, (s.phase d).logExists ∧ (s.phase d).processEnded then
      some { s with progress := false }
    else none

def Final (disks : List δ) (s : System δ) : Prop := s.progress = false ∧ ∀ d ∈ disks, s.phase d = .finished

def rank (disks : List δ) (s : System δ) : Nat := (disks.map fun d => (s.phase d).rank).sum + s.progress.toNat

theorem rank_move {d : δ} {p : Phase} (hd : d ∈ disks) (hlt : p.rank < (s.phase d).rank) :
    (s.move d p).rank disks < s.rank disks := by
  have hsum :
      (disks.map fun e => ((s.move d p).phase e).rank).sum < (disks.map fun e => (s.phase e).rank).sum := by
    apply List.sum_lt_sum
    · intro e _
      by_cases he : e = d
      · subst he
        simpa [move] using Nat.le_of_lt hlt
      · simp [move, Function.update_of_ne he]
    · exact ⟨d, hd, by simpa [move] using hlt⟩
  simp only [rank]
  have hprogress : (s.move d p).progress = s.progress := rfl
  rw [hprogress]
  omega

omit [DecidableEq δ] in
theorem mem_disks_of_queue {d : δ} (h : (s.queue disks).head? = some d) : d ∈ disks ∧ s.phase d = .queued := by
  have hmem : d ∈ s.queue disks := List.mem_of_head? h
  simpa [queue] using hmem

theorem step_rank {a : Action δ} (h : s.step disks cpuCount a = some t) : t.rank disks < s.rank disks := by
  cases a with
  | take d =>
    simp only [step, Option.ite_none_right_eq_some, Option.some.injEq] at h
    obtain ⟨⟨hhead, _⟩, rfl⟩ := h
    obtain ⟨hd, hphase⟩ := mem_disks_of_queue hhead
    exact rank_move hd (by simp [hphase, Phase.rank])
  | openLog d =>
    simp only [step, Option.ite_none_right_eq_some, Option.some.injEq] at h
    obtain ⟨⟨hd, hphase⟩, rfl⟩ := h
    exact rank_move hd (by simp [hphase, Phase.rank])
  | endProcess d =>
    simp only [step, Option.ite_none_right_eq_some, Option.some.injEq] at h
    obtain ⟨⟨hd, hphase⟩, rfl⟩ := h
    exact rank_move hd (by simp [hphase, Phase.rank])
  | finish d =>
    simp only [step, Option.ite_none_right_eq_some, Option.some.injEq] at h
    obtain ⟨⟨hd, hphase⟩, rfl⟩ := h
    exact rank_move hd (by simp [hphase, Phase.rank])
  | exit =>
    simp only [step, Option.ite_none_right_eq_some, Option.some.injEq] at h
    obtain ⟨⟨hprogress, _⟩, rfl⟩ := h
    simp [rank, hprogress]

/-- A job that has a worker and is not the progress job can go on. -/
theorem exists_step_of_working {d : δ} (hd : d ∈ disks) (h : (s.phase d).working) :
    ∃ a, (s.step disks cpuCount a).isSome := by
  cases hphase : s.phase d with
  | queued => simp [hphase, Phase.working] at h
  | starting => exact ⟨.openLog d, by simp [step, hd, hphase]⟩
  | erasing => exact ⟨.endProcess d, by simp [step, hd, hphase]⟩
  | ended => exact ⟨.finish d, by simp [step, hd, hphase]⟩
  | finished => simp [hphase, Phase.working] at h

/-- With a second worker, a system that is not final can always go on. -/
theorem exists_step (hcpu : 2 ≤ cpuCount) (h : ¬ s.Final disks) : ∃ a, (s.step disks cpuCount a).isSome := by
  by_cases hworking : ∃ d ∈ disks, (s.phase d).working
  · obtain ⟨d, hd, hphase⟩ := hworking
    exact exists_step_of_working hd hphase
  · have hnone : ∀ d ∈ disks, (s.phase d).working = false := by
      intro d hd
      exact Bool.eq_false_iff.mpr fun hphase => hworking ⟨d, hd, hphase⟩
    -- at most the progress job has a worker
    have hbusy : s.busy disks < cpuCount := by
      have hempty : (disks.filter fun d => (s.phase d).working) = [] := by simpa using hnone
      have hle := Bool.toNat_le s.progress
      rw [busy, hempty, List.length_nil]
      omega
    cases hqueue : s.queue disks with
    | cons d rest => exact ⟨.take d, by simp [step, hqueue, hbusy]⟩
    | nil =>
      have hfinished : ∀ d ∈ disks, s.phase d = .finished := by
        intro d hd
        have hwaits : s.phase d ≠ .queued := by
          simp only [queue, List.filter_eq_nil_iff, decide_eq_true_eq] at hqueue
          exact hqueue d hd
        have hidle := hnone d hd
        cases hphase : s.phase d <;> simp_all [Phase.working]
      have hprogress : s.progress = true := by
        by_contra hended
        exact h ⟨Bool.eq_false_iff.mpr hended, hfinished⟩
      refine ⟨.exit, ?_⟩
      have hall : ∀ d ∈ disks, (s.phase d).logExists ∧ (s.phase d).processEnded := by
        intro d hd
        rw [hfinished d hd]
        exact ⟨rfl, rfl⟩
      simp only [step, hprogress]
      rw [if_pos ⟨trivial, hall⟩]
      rfl

/-- With a second worker, all jobs can return. -/
theorem exists_final (hcpu : 2 ≤ cpuCount) (s : System δ) :
    ∃ as t, Lts.exec (step disks cpuCount) s as = some t ∧ t.Final disks := by
  apply Lts.exists_exec (rank disks)
  intro u hu
  obtain ⟨a, ha⟩ := exists_step hcpu hu
  obtain ⟨t, ht⟩ := Option.isSome_iff_exists.mp ha
  exact ⟨a, t, ht, step_rank ht⟩

/-- On a single worker the progress job waits for the jobs behind it. -/
theorem start_stuck (hne : disks ≠ []) (hcpu : cpuCount < 2) (a : Action δ) :
    (start : System δ).step disks cpuCount a = none := by
  obtain ⟨d, hd⟩ := List.exists_mem_of_ne_nil disks hne
  cases a with
  | take e =>
    have hbusy : (start : System δ).busy disks = 1 := by simp [busy, start, Phase.working]
    rw [step, hbusy]
    exact if_neg fun h => absurd h.2 (by omega)
  | exit =>
    rw [step]
    refine if_neg fun h => ?_
    exact absurd (h.2 d hd).1 (by simp [start, Phase.logExists])
  | _ => simp [step, start]

/-- The secure erase never blocks itself if and only if there is a second worker. -/
theorem secure_erase_live_iff (disks : List δ) (hne : disks ≠ []) (cpuCount : Nat) :
    ((∀ as s, Lts.exec (step disks cpuCount) start as = some s → ¬ s.Final disks →
        ∃ a, (s.step disks cpuCount a).isSome) ∧
      ∀ as s, Lts.exec (step disks cpuCount) start as = some s → ∀ d ∈ s.queue disks,
        ∃ bs t, Lts.exec (step disks cpuCount) s bs = some t ∧ t.phase d ≠ .queued) ↔ 2 ≤ cpuCount := by
  constructor
  · rintro ⟨hlive, _⟩
    by_contra hcpu
    have hnot : ¬ (start : System δ).Final disks := fun h => absurd h.1 (by simp [start])
    obtain ⟨a, ha⟩ := hlive [] start rfl hnot
    rw [start_stuck hne (by omega) a] at ha
    cases ha
  · intro hcpu
    refine ⟨fun _ s _ hnot => exists_step hcpu hnot, ?_⟩
    intro as s _ d hd
    obtain ⟨bs, t, ht, hfinal⟩ := exists_final hcpu s
    refine ⟨bs, t, ht, ?_⟩
    rw [hfinal.2 d (List.mem_of_mem_filter hd)]
    intro h
    cases h

theorem secure_erase_live_iff_two_disks : ∃ a, ((start : System String).step ["sda", "sdb"] 2 a).isSome := by
  have hlive := ((secure_erase_live_iff ["sda", "sdb"] (by simp) 2).mpr (Nat.le_refl 2)).1
  exact hlive [] start rfl fun h => absurd h.1 (by simp [start])

/-- A single processor: the progress job has its only worker, and the erase job waits for it. -/
theorem secure_erase_blocked : ¬ (start : System String).Final ["sda"] ∧
    ¬ ∃ a, ((start : System String).step ["sda"] 1 a).isSome := by
  refine ⟨fun h => absurd h.1 (by simp [start]), ?_⟩
  rintro ⟨a, ha⟩
  rw [start_stuck (by simp) (by omega) a] at ha
  cases ha

end System

end OnTaskGraph.ErasePool
