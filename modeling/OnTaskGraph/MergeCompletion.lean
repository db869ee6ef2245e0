import OnTaskGraph.MergeLossy

/-! When a `mergeLossy` stream completes. Whether it does is read off the shared
counter at the moment it has finished, and never again. -/

namespace OnTaskGraph

variable {ν : Type}

def Signal.value : Signal ν → Option ν
  | .next x => some x
  | .error | .completed => none

def Signal.isCompleted : Signal ν → Bool
  | .completed => true
  | .next _ | .error => false

def MergeEvent.subscribed : MergeEvent ν → Option StreamId
  | .subscribe s => some s
  | _ => none

def MergeEvent.isError : MergeEvent ν → Bool
  | .error _ | .innerError _ => true
  | _ => false

namespace MergeLossyObserver

def values (S : MergeLossyObserver ν) : List ν := S.received.filterMap Signal.value

def completions (S : MergeLossyObserver ν) : Nat := S.received.countP Signal.isCompleted

/-- What `o` was told about the end agrees with its state. -/
structure Signalled (S : MergeLossyObserver ν) : Prop where
  listening : S.o = .listening → S.completions = 0
  completed : S.o = .completed → S.completions = 1
  not_failed : S.o ≠ .failed

theorem emit_eq {S : MergeLossyObserver ν} (h : S.o = .listening) (x : ν) :
    S.emit x = { S with received := .next x :: S.received } := if_pos h

theorem complete_eq {S : MergeLossyObserver ν} (h : S.o = .listening) :
    S.complete = { S with o := .completed, received := .completed :: S.received } := if_pos h

theorem complete_values (S : MergeLossyObserver ν) : S.complete.values = S.values := by
  unfold complete
  split_ifs
  · exact List.filterMap_cons_none rfl
  · rfl

theorem complete_completions {S : MergeLossyObserver ν} (h : S.o = .listening) :
    S.complete.completions = S.completions + 1 := by
  rw [complete_eq h]
  exact List.countP_cons_of_pos rfl

theorem Signalled.emit {S : MergeLossyObserver ν} (h : S.Signalled) (x : ν) : (S.emit x).Signalled := by
  by_cases ho : S.o = .listening
  · rw [emit_eq ho]
    constructor
    · intro hl
      simpa [completions, Signal.isCompleted] using h.listening ho
    · intro hc
      exact absurd (ho.symm.trans hc) (by decide)
    · exact h.not_failed
  · rw [MergeLossyObserver.emit, if_neg ho]
    exact h

theorem Signalled.complete {S : MergeLossyObserver ν} (h : S.Signalled) : S.complete.Signalled := by
  by_cases ho : S.o = .listening
  · have hone : S.complete.completions = 1 := by rw [complete_completions ho, h.listening ho]
    have hout : S.complete.o = .completed := by rw [complete_eq ho]
    exact ⟨fun hl => by simp [hout] at hl, fun _ => hone, by simp [hout]⟩
  · rw [MergeLossyObserver.complete, if_neg ho]
    exact h

end MergeLossyObserver

namespace MergeLossy

/-- The source of the stream and all inner streams that it accepted have completed. -/
def Finished (w : MergeLossy ν) (s : StreamId) (S : MergeLossyObserver ν) : Prop :=
  S.done = true ∧ ∀ I ∈ w.inners, I.parent = s → I.stage = .completed

instance {w : MergeLossy ν} {s : StreamId} {S : MergeLossyObserver ν} : Decidable (w.Finished s S) :=
  inferInstanceAs (Decidable (_ ∧ _))

def emission (w : MergeLossy ν) (s : StreamId) : MergeEvent ν → Option ν
  | .innerNext i x =>
    if w.inners[i]?.any fun I => I.parent = s ∧ I.stage.isStopped = false then some x else none
  | _ => none

/-- The slots held by the inner streams of some of the streams. -/
def slots (w : MergeLossy ν) (q : StreamId → Bool) : Nat :=
  w.inners.countP fun I => q I.parent && I.holdsSlot

theorem slots_setInner {w : MergeLossy ν} {i : InnerId} {I : InnerObserver} {stage : InnerStage}
    (hi : w.inners[i]? = some I) (hI : I.stage.isStopped = false) (hstage : stage ≠ .completed)
    (q : StreamId → Bool) : (w.setInner i I stage).slots q = w.slots q := by
  have hset := countP_set_add (fun I => q I.parent && I.holdsSlot) hi ⟨I.parent, stage⟩
  have hold : I.holdsSlot = true := by
    cases hs : I.stage <;> simp_all [InnerObserver.holdsSlot, InnerStage.isStopped]
  have hnew : InnerObserver.holdsSlot ⟨I.parent, stage⟩ = true := by simpa [InnerObserver.holdsSlot]
  rw [hold, hnew] at hset
  exact Nat.add_right_cancel hset

theorem slots_setCompleted {w : MergeLossy ν} {i : InnerId} {I : InnerObserver}
    (hi : w.inners[i]? = some I) (hI : I.stage = .completing) (q : StreamId → Bool) :
    (w.setInner i I .completed).slots q + (q I.parent).toNat = w.slots q := by
  have hset := countP_set_add (fun I => q I.parent && I.holdsSlot) hi ⟨I.parent, .completed⟩
  have hold : I.holdsSlot = true := by simp [InnerObserver.holdsSlot, hI]
  have hnew : InnerObserver.holdsSlot ⟨I.parent, .completed⟩ = false := by simp [InnerObserver.holdsSlot]
  rw [hold, hnew, Bool.and_true, Bool.and_false, Bool.toNat_false, Nat.add_zero] at hset
  exact hset

theorem slots_accepted (w : MergeLossy ν) (s : StreamId) (q : StreamId → Bool) :
    w.slots q ≤ ({ w with inners := w.inners ++ [⟨s, .live⟩] } : MergeLossy ν).slots q := by
  simp [slots]

theorem slots_eq_zero {w : MergeLossy ν} {q : StreamId → Bool} :
    w.slots q = 0 ↔ ∀ I ∈ w.inners, q I.parent = true → I.stage = .completed := by
  simp [slots, InnerObserver.holdsSlot]

theorem Counted.count_eq_slots {max : Nat} {w : MergeLossy ν} (h : Counted max w) (s : StreamId) :
    w.counter.count = w.slots (· = s) + w.slots (· ≠ s) := by
  have hsplit : w.inners.countP InnerObserver.holdsSlot = w.slots (· = s) + w.slots (· ≠ s) := by
    unfold slots
    induction w.inners with
    | nil => rfl
    | cons I l ih =>
      simp only [List.countP_cons, ih]
      by_cases hp : I.parent = s <;> cases I.holdsSlot <;> simp [hp] <;> omega
  rw [h.count_eq, hsplit]
  exact Int.natCast_add _ _

theorem finished_iff {w : MergeLossy ν} {s : StreamId} {S : MergeLossyObserver ν} :
    w.Finished s S ↔ S.done = true ∧ w.slots (· = s) = 0 := by
  rw [slots_eq_zero]
  simp [Finished]

/-! What one event that is no error does to one stream. -/

inductive StreamChange (w : MergeLossy ν) (e : MergeEvent ν) (w' : MergeLossy ν) (s : StreamId)
    (S : MergeLossyObserver ν) : MergeLossyObserver ν → Prop
  | quiet {S' : MergeLossyObserver ν} (ho : S'.o = S.o) (hreceived : S'.received = S.received)
      (hdone : S'.done = S.done) (hstopped : S.isStopped = true → S'.isStopped = true)
      (hemission : w.emission s e = none) (hslots : w.slots (· = s) ≤ w'.slots (· = s))
      (hsame : S.isStopped = true → w'.slots (· = s) = w.slots (· = s)) : StreamChange w e w' s S S'
  | emitted (x : ν) (i : InnerId) (I : InnerObserver) (hi : w.inners[i]? = some I) (hparent : I.parent = s)
      (hrun : I.stage.isStopped = false) (hemission : w.emission s e = some x)
      (hinners : w'.inners = w.inners) : StreamChange w e w' s S (S.emit x)
  | completed (hrun : S.isStopped = false) (hcounter : w'.counter = w.counter)
      (hinners : w'.inners = w.inners) (hemission : w.emission s e = none) : StreamChange w e w' s S
        (if w'.counter.count = 0 then { S with isStopped := true, done := true }.complete
        else { S with isStopped := true, done := true })
  | released (hslots : w'.slots (· = s) + 1 = w.slots (· = s)) (hother : w'.slots (· ≠ s) = w.slots (· ≠ s))
      (hemission : w.emission s e = none) : StreamChange w e w' s S
        (if S.done ∧ w'.counter.count = 0 then S.complete else S)
  | detached {S' : MergeLossyObserver ν} (ho : S'.o = .disposed) (hdone : S'.done = S.done)
      (hstopped : S'.isStopped = S.isStopped) : StreamChange w e w' s S S'

theorem StreamChange.same {w w' : MergeLossy ν} {e : MergeEvent ν} {s : StreamId} {S : MergeLossyObserver ν}
    (hemission : w.emission s e = none) (hslots : w'.slots (· = s) = w.slots (· = s)) :
    StreamChange w e w' s S S :=
  .quiet rfl rfl rfl id hemission (Nat.le_of_eq hslots.symm) fun _ => hslots

theorem setStream_streams (w : MergeLossy ν) (s t : StreamId) (S : MergeLossyObserver ν) :
    (w.setStream s S).streams t = if t = s then some S else w.streams t := by
  simp [setStream, Function.update_apply]

theorem stream_of_setStream {w v : MergeLossy ν} {e : MergeEvent ν} {s t : StreamId}
    {S T T' : MergeLossyObserver ν} (hs : w.streams s = some S) (ht : w.streams t = some T)
    (hv : v.streams = w.streams)
    (hwritten : t = s → T = S → StreamChange w e (v.setStream t T') s S T')
    (hother : t ≠ s → StreamChange w e (v.setStream t T') s S S) :
    ∃ S', (v.setStream t T').streams s = some S' ∧ StreamChange w e (v.setStream t T') s S S' := by
  by_cases hts : t = s
  · subst hts
    obtain rfl : S = T := Option.some.inj (hs.symm.trans ht)
    exact ⟨T', by rw [setStream_streams, if_pos rfl], hwritten rfl rfl⟩
  · have hst : s ≠ t := fun h => hts h.symm
    exact ⟨S, by rw [setStream_streams, if_neg hst, hv, hs], hother hts⟩

theorem step_stream {w w' : MergeLossy ν} {e : MergeEvent ν} (h : w.step e = some w')
    (he : e.isError = false) {s : StreamId} {S : MergeLossyObserver ν} (hs : w.streams s = some S) :
    ∃ S', w'.streams s = some S' ∧ StreamChange w e w' s S S' := by
  cases e with
  | error t | innerError i => simp [MergeEvent.isError] at he
  | subscribe t =>
    simp only [step] at h
    split_ifs at h with hnone
    obtain rfl := Option.some.inj h
    have hne : s ≠ t := by
      rintro rfl
      simp [hs] at hnone
    exact ⟨S, by rw [setStream_streams, if_neg hne, hs], .same rfl rfl⟩
  | next t =>
    obtain ⟨T, ht, rfl⟩ := onStream_eq_some.mp h
    unfold onNext
    split_ifs with hstop hlt
    · exact ⟨S, hs, .same rfl rfl⟩
    · refine ⟨S, hs, .quiet rfl rfl rfl id rfl (slots_accepted _ t _) fun hstopped => ?_⟩
      have hne : t ≠ s := by
        rintro rfl
        obtain rfl : S = T := Option.some.inj (hs.symm.trans ht)
        exact hstop hstopped
      simp [slots, hne]
    · exact ⟨S, hs, .same rfl rfl⟩
  | completed t =>
    obtain ⟨T, ht, rfl⟩ := onStream_eq_some.mp h
    unfold onCompleted
    by_cases hstop : T.isStopped = true
    · rw [if_pos hstop]
      exact ⟨S, hs, .same rfl rfl⟩
    · rw [if_neg hstop]
      refine stream_of_setStream hs ht rfl ?_ fun _ => .same rfl rfl
      rintro - rfl
      exact .completed (by simpa using hstop) rfl rfl rfl
  | stop t =>
    obtain ⟨T, ht, rfl⟩ := onStream_eq_some.mp h
    refine stream_of_setStream hs ht rfl ?_ fun _ => .same rfl rfl
    rintro - rfl
    exact .quiet rfl rfl rfl (fun _ => rfl) rfl (Nat.le_refl _) fun _ => rfl
  | dispose t =>
    obtain ⟨T, ht, rfl⟩ := onStream_eq_some.mp h
    refine stream_of_setStream hs ht rfl ?_ fun _ => .same rfl rfl
    rintro - rfl
    by_cases ho : T.o = .listening
    · have hdetached : T.detach = { T with o := .disposed } := if_pos ho
      exact .detached (by rw [hdetached]) (by rw [hdetached]) (by rw [hdetached])
    · have hdetached : T.detach = T := if_neg ho
      rw [hdetached]
      exact .same rfl rfl
  | innerNext i x =>
    obtain ⟨I, T, hi, ht, rfl⟩ := onInner_eq_some.mp h
    unfold innerNext
    by_cases hstop : I.stage.isStopped = true
    · rw [if_pos hstop]
      exact ⟨S, hs, .same (by simp [emission, hi, hstop]) rfl⟩
    · rw [if_neg hstop]
      have hrun : I.stage.isStopped = false := by simpa using hstop
      refine stream_of_setStream hs ht rfl ?_ fun hne => .same (by simp [emission, hi, hne]) rfl
      rintro hparent rfl
      exact .emitted x i I hi hparent hrun (by simp [emission, hi, hparent, hrun]) rfl
  | innerCompleted i =>
    obtain ⟨I, T, hi, ht, rfl⟩ := onInner_eq_some.mp h
    unfold innerCompleted
    split_ifs with hstop
    · exact ⟨S, hs, .same rfl rfl⟩
    · exact ⟨S, hs, .same rfl (slots_setInner hi (by simpa using hstop) (by simp) _)⟩
  | innerStop i =>
    obtain ⟨I, T, hi, ht, rfl⟩ := onInner_eq_some.mp h
    unfold innerStop
    split_ifs with hstop
    · exact ⟨S, hs, .same rfl rfl⟩
    · exact ⟨S, hs, .same rfl (slots_setInner hi (by simpa using hstop) (by simp) _)⟩
  | innerRemoved i =>
    obtain ⟨I, hi, h⟩ := Option.bind_eq_some_iff.mp h
    split_ifs at h with hI
    obtain ⟨T, ht, rfl⟩ := Option.map_eq_some_iff.mp h
    have hslots : ∀ q, (w.innerRemoved i I T).slots q + (q I.parent).toNat = w.slots q :=
      slots_setCompleted hi hI
    have hkept : I.parent ≠ s → (w.innerRemoved i I T).slots (· = s) = w.slots (· = s) :=
      fun hne => by simpa [hne] using hslots (· = s)
    refine stream_of_setStream hs ht rfl ?_ fun hne => .same rfl (hkept hne)
    rintro rfl rfl
    have hreleased : (w.innerRemoved i I T).slots (· = I.parent) + 1 = w.slots (· = I.parent) := by
      simpa using hslots (· = I.parent)
    have hothers : (w.innerRemoved i I T).slots (· ≠ I.parent) = w.slots (· ≠ I.parent) := by
      simpa using hslots (· ≠ I.parent)
    exact .released hreleased hothers rfl
  | disposeInner i =>
    obtain ⟨I, hi, h⟩ := Option.bind_eq_some_iff.mp h
    obtain ⟨T, ht, h⟩ := Option.bind_eq_some_iff.mp h
    split_ifs at h
    obtain rfl := Option.some.inj h
    unfold disposeInner
    split_ifs with hlive
    · exact ⟨S, hs, .same rfl (slots_setInner hi (by simp [hlive, InnerStage.isStopped]) (by simp) _)⟩
    · exact ⟨S, hs, .same rfl rfl⟩

/-- Each stream has completed if it has finished, the ones disposed of aside. -/
structure Settled (max : Nat) (w : MergeLossy ν) : Prop where
  counted : Counted max w
  signalled : ∀ s S, w.streams s = some S → S.Signalled
  stopped : ∀ s S, w.streams s = some S → S.done = true → S.isStopped = true
  completions : ∀ s S, w.streams s = some S → S.o ≠ .disposed →
    S.completions = if w.Finished s S then 1 else 0

section Stream

variable {max : Nat} {w w' : MergeLossy ν} {e : MergeEvent ν} {s : StreamId} {S S' : MergeLossyObserver ν}

theorem Settled.listening (h : Settled max w) (hs : w.streams s = some S) (ho : S.o = .listening) :
    ¬ w.Finished s S := by
  intro hfinished
  have hone := h.completions s S hs (by simp [ho])
  rw [if_pos hfinished, (h.signalled s S hs).listening ho] at hone
  omega

theorem Settled.completed (h : Settled max w) (hs : w.streams s = some S) (ho : S.o = .completed) :
    w.Finished s S := by
  by_contra hnot
  have hzero := h.completions s S hs (by simp [ho])
  rw [if_neg hnot, (h.signalled s S hs).completed ho] at hzero
  omega

theorem Settled.open_cases (h : Settled max w) (hs : w.streams s = some S) (ho : S.o ≠ .disposed) :
    S.o = .listening ∧ ¬ w.Finished s S ∨ S.o = .completed ∧ w.Finished s S := by
  have hsignalled := h.signalled s S hs
  cases hout : S.o with
  | listening => exact Or.inl ⟨rfl, h.listening hs hout⟩
  | completed => exact Or.inr ⟨rfl, h.completed hs hout⟩
  | failed => exact absurd hout hsignalled.not_failed
  | disposed => exact absurd hout ho

theorem StreamChange.signalled (hchange : StreamChange w e w' s S S') (h : S.Signalled) : S'.Signalled := by
  have hstopped : MergeLossyObserver.Signalled { S with isStopped := true, done := true } :=
    ⟨h.listening, h.completed, h.not_failed⟩
  cases hchange with
  | quiet ho hreceived =>
    refine ⟨fun hl => ?_, fun hc => ?_, by rw [ho]; exact h.not_failed⟩
    · rw [MergeLossyObserver.completions, hreceived]
      exact h.listening (ho ▸ hl)
    · rw [MergeLossyObserver.completions, hreceived]
      exact h.completed (ho ▸ hc)
  | emitted x => exact h.emit x
  | completed =>
    split_ifs
    · exact hstopped.complete
    · exact hstopped
  | released =>
    split_ifs
    · exact h.complete
    · exact h
  | detached ho => exact ⟨by simp [ho], by simp [ho], by simp [ho]⟩

theorem StreamChange.open (hchange : StreamChange w e w' s S S') (hopen : S'.o ≠ .disposed) :
    S.o ≠ .disposed := by
  intro hd
  cases hchange with
  | quiet ho => exact hopen (ho.trans hd)
  | emitted => exact hopen (by simp [MergeLossyObserver.emit, hd])
  | completed => split_ifs at hopen <;> simp [MergeLossyObserver.complete, hd] at hopen
  | released => split_ifs at hopen <;> simp [MergeLossyObserver.complete, hd] at hopen
  | detached ho => exact hopen ho

theorem StreamChange.stopped (hchange : StreamChange w e w' s S S') (h : S.done = true → S.isStopped = true)
    (hdone : S'.done = true) : S'.isStopped = true := by
  cases hchange with
  | quiet _ _ hd hst => exact hst (h (hd ▸ hdone))
  | emitted x =>
    unfold MergeLossyObserver.emit at hdone ⊢
    split_ifs at hdone ⊢ <;> exact h hdone
  | completed =>
    unfold MergeLossyObserver.complete
    split_ifs <;> rfl
  | released =>
    unfold MergeLossyObserver.complete at hdone ⊢
    split_ifs at hdone ⊢ <;> exact h hdone
  | detached _ hd hst => exact hst ▸ h (hd ▸ hdone)

theorem StreamChange.values (hchange : StreamChange w e w' s S S') (hopen : S'.o ≠ .disposed)
    (hlistening : ∀ I ∈ w.inners, I.parent = s → I.stage.isStopped = false → S.o = .listening) :
    S'.values = (w.emission s e).toList ++ S.values := by
  cases hchange with
  | quiet _ hreceived _ _ hemission => simp [MergeLossyObserver.values, hreceived, hemission]
  | emitted x i I hi hparent hrun hemission =>
    have ho := hlistening I (List.mem_of_getElem? hi) hparent hrun
    simp [MergeLossyObserver.emit_eq ho, hemission, MergeLossyObserver.values, Signal.value]
  | completed _ _ _ hemission =>
    rw [hemission]
    split_ifs
    · exact MergeLossyObserver.complete_values _
    · rfl
  | released _ _ hemission =>
    rw [hemission]
    split_ifs
    · exact MergeLossyObserver.complete_values S
    · rfl
  | detached ho => exact absurd ho hopen

/-- A stream that was listening completes when it finishes, unless another
stream holds a slot. -/
theorem StreamChange.completions_iff (hchange : StreamChange w e w' s S S') (hcounted : Counted max w')
    (hsignalled : S.Signalled) (ho : S.o = .listening)
    (hnot : ¬ w.Finished s S) (hopen : S'.o ≠ .disposed) :
    (S'.completions = if w'.Finished s S' then 1 else 0) ↔ (w'.Finished s S' → w.slots (· ≠ s) = 0) := by
  have hzero : S.completions = 0 := hsignalled.listening ho
  have hcount := hcounted.count_eq_slots s
  rw [finished_iff] at hnot
  -- the stream has not completed; whether it should have is the question
  have hkept : S'.completions = 0 → (w'.Finished s S' → w.slots (· ≠ s) ≠ 0) →
      ((S'.completions = if w'.Finished s S' then 1 else 0) ↔
        (w'.Finished s S' → w.slots (· ≠ s) = 0)) := by
    intro hnone hother
    by_cases hfinished : w'.Finished s S'
    · rw [hnone, if_pos hfinished]
      exact iff_of_false (by omega) fun h => hother hfinished (h hfinished)
    · rw [hnone, if_neg hfinished]
      exact iff_of_true rfl fun h => absurd h hfinished
  have hdone : S'.completions = 1 → w'.Finished s S' → w.slots (· ≠ s) = 0 →
      ((S'.completions = if w'.Finished s S' then 1 else 0) ↔
        (w'.Finished s S' → w.slots (· ≠ s) = 0)) := by
    intro hone hfinished hother
    rw [hone, if_pos hfinished]
    exact iff_of_true rfl fun _ => hother
  cases hchange with
  | quiet _ hreceived hd _ _ hslots =>
    refine hkept (by rw [MergeLossyObserver.completions, hreceived]; exact hzero) fun hfinished => ?_
    rw [finished_iff, hd] at hfinished
    exact absurd ⟨hfinished.1, by omega⟩ hnot
  | emitted x i I hi hparent hrun hemission hinners =>
    have hslots : w'.slots (· = s) = w.slots (· = s) := by rw [slots, hinners, slots]
    rw [MergeLossyObserver.emit_eq ho] at hkept ⊢
    refine hkept hzero fun hfinished => ?_
    rw [finished_iff, hslots] at hfinished
    exact absurd hfinished hnot
  | completed hrun hcounter hinners =>
    have hother : w'.slots (· ≠ s) = w.slots (· ≠ s) := by rw [slots, hinners, slots]
    by_cases hc : w'.counter.count = 0
    · have hout : MergeLossyObserver.o { S with isStopped := true, done := true } = .listening := ho
      have hone := MergeLossyObserver.complete_completions hout
      rw [if_pos hc] at hdone ⊢
      rw [MergeLossyObserver.complete_eq hout] at hdone hone ⊢
      exact hdone (hone.trans (congrArg (· + 1) hzero)) (finished_iff.mpr ⟨rfl, by omega⟩) (by omega)
    · rw [if_neg hc] at hkept ⊢
      refine hkept hzero fun hfinished => ?_
      have hnone := (finished_iff.mp hfinished).2
      omega
  | released hslots hother =>
    by_cases hc : S.done = true ∧ w'.counter.count = 0
    · have hone := MergeLossyObserver.complete_completions ho
      rw [if_pos hc] at hdone ⊢
      rw [MergeLossyObserver.complete_eq ho] at hdone hone ⊢
      exact hdone (hone.trans (congrArg (· + 1) hzero)) (finished_iff.mpr ⟨hc.1, by omega⟩) (by omega)
    · rw [if_neg hc] at hkept ⊢
      refine hkept hzero fun hfinished => ?_
      have hnone := finished_iff.mp hfinished
      have hne : w'.counter.count ≠ 0 := fun h => hc ⟨hnone.1, h⟩
      omega
  | detached hd => exact absurd hd hopen

theorem StreamChange.completions_kept (hchange : StreamChange w e w' s S S')
    (hstopped : S.done = true → S.isStopped = true) (hone : S.completions = 1) (hfinished : w.Finished s S)
    (hopen : S'.o ≠ .disposed) : S'.completions = 1 ∧ w'.Finished s S' := by
  have hstop := hstopped hfinished.1
  have hnone := (finished_iff.mp hfinished).2
  cases hchange with
  | quiet _ hreceived hd _ _ _ hsame =>
    refine ⟨by rw [MergeLossyObserver.completions, hreceived]; exact hone, finished_iff.mpr ⟨?_, ?_⟩⟩
    · exact hd ▸ hfinished.1
    · rw [hsame hstop, hnone]
  | emitted x i I hi hparent hrun =>
    have hcompleted := hfinished.2 I (List.mem_of_getElem? hi) hparent
    simp [hcompleted, InnerStage.isStopped] at hrun
  | completed hrun => simp [hstop] at hrun
  | released hslots => omega
  | detached hd => exact absurd hd hopen

end Stream

theorem step_streams {w w' : MergeLossy ν} {e : MergeEvent ν} (h : w.step e = some w') :
    w'.streams = w.streams ∨ ∃ t S, w'.streams = Function.update w.streams t (some S) ∧
      ((w.streams t).isSome ∨ e = .subscribe t ∧ S = ⟨.listening, [], false, false⟩) := by
  cases e with
  | subscribe t =>
    simp only [step] at h
    split_ifs at h
    obtain rfl := Option.some.inj h
    exact Or.inr ⟨t, _, rfl, Or.inr ⟨rfl, rfl⟩⟩
  | next t =>
    obtain ⟨T, ht, rfl⟩ := onStream_eq_some.mp h
    unfold onNext
    split_ifs <;> exact Or.inl rfl
  | error t =>
    obtain ⟨T, ht, rfl⟩ := onStream_eq_some.mp h
    unfold onError
    split_ifs
    · exact Or.inl rfl
    · exact Or.inr ⟨t, _, rfl, Or.inl (by simp [ht])⟩
  | completed t =>
    obtain ⟨T, ht, rfl⟩ := onStream_eq_some.mp h
    unfold onCompleted
    by_cases hstop : T.isStopped = true
    · exact Or.inl (by rw [if_pos hstop])
    · rw [if_neg hstop]
      exact Or.inr ⟨t, _, rfl, Or.inl (by simp [ht])⟩
  | stop t | dispose t =>
    obtain ⟨T, ht, rfl⟩ := onStream_eq_some.mp h
    exact Or.inr ⟨t, _, rfl, Or.inl (by simp [ht])⟩
  | innerNext i x =>
    obtain ⟨I, T, hi, ht, rfl⟩ := onInner_eq_some.mp h
    unfold innerNext
    split_ifs
    · exact Or.inl rfl
    · exact Or.inr ⟨I.parent, _, rfl, Or.inl (by simp [ht])⟩
  | innerError i =>
    obtain ⟨I, T, hi, ht, rfl⟩ := onInner_eq_some.mp h
    unfold innerError
    split_ifs
    · exact Or.inl rfl
    · exact Or.inr ⟨I.parent, _, rfl, Or.inl (by simp [ht])⟩
  | innerCompleted i =>
    obtain ⟨I, T, hi, ht, rfl⟩ := onInner_eq_some.mp h
    unfold innerCompleted
    split_ifs <;> exact Or.inl rfl
  | innerStop i =>
    obtain ⟨I, T, hi, ht, rfl⟩ := onInner_eq_some.mp h
    unfold innerStop
    split_ifs <;> exact Or.inl rfl
  | innerRemoved i =>
    obtain ⟨I, hi, h⟩ := Option.bind_eq_some_iff.mp h
    split_ifs at h
    obtain ⟨T, ht, rfl⟩ := Option.map_eq_some_iff.mp h
    exact Or.inr ⟨I.parent, _, rfl, Or.inl (by simp [ht])⟩
  | disposeInner i =>
    obtain ⟨I, hi, h⟩ := Option.bind_eq_some_iff.mp h
    obtain ⟨T, ht, h⟩ := Option.bind_eq_some_iff.mp h
    split_ifs at h
    obtain rfl := Option.some.inj h
    unfold disposeInner
    split_ifs <;> exact Or.inl rfl

theorem step_new {w w' : MergeLossy ν} {e : MergeEvent ν} (h : w.step e = some w') {s : StreamId}
    {S' : MergeLossyObserver ν} (hs : w.streams s = none) (hs' : w'.streams s = some S') :
    S' = ⟨.listening, [], false, false⟩ ∧ w.emission s e = none := by
  rcases step_streams h with hsame | ⟨t, S, hupdate, hold⟩
  · simp [hsame, hs] at hs'
  · rw [hupdate, Function.update_apply] at hs'
    split_ifs at hs' with hst
    · subst hst
      rcases hold with hsome | ⟨rfl, rfl⟩
      · simp [hs] at hsome
      · exact ⟨(Option.some.inj hs').symm, rfl⟩
    · simp [hs] at hs'

end MergeLossy

open MergeLossy

/-- Each stream's observer has been told of the completion if the stream has
finished, and of the values of its inner streams as they emitted them. -/
def CompletesWhenFinished (w : MergeLossy ν) (e : MergeEvent ν) (w' : MergeLossy ν) : Prop :=
  ∀ s S', w'.streams s = some S' → S'.o ≠ .disposed →
    (S'.completions = if w'.Finished s S' then 1 else 0) ∧
    S'.values = (w.emission s e).toList ++ ((w.streams s).map MergeLossyObserver.values).getD []

/-- When a stream finishes, all inner streams that the other ones accepted have
completed. -/
def AloneWhenFinished (w : MergeLossy ν) (_ : MergeEvent ν) (w' : MergeLossy ν) : Prop :=
  ∀ s S S', w.streams s = some S → w'.streams s = some S' → S'.o ≠ .disposed →
    ¬ w.Finished s S → w'.Finished s S' → ∀ I ∈ w.inners, I.parent ≠ s → I.stage = .completed

namespace MergeLossy

theorem settled_step_iff {max : Nat} {w w' : MergeLossy ν} {e : MergeEvent ν} (hstep : w.step e = some w')
    (he : e.isError = false) (h : Settled max w) :
    CompletesWhenFinished w e w' ↔ AloneWhenFinished w e w' := by
  have hcounted : Counted max w' := h.counted.change (step_slots hstep)
  have hother : ∀ s, w.slots (· ≠ s) = 0 ↔ ∀ I ∈ w.inners, I.parent ≠ s → I.stage = .completed := by
    intro s
    rw [slots_eq_zero]
    simp
  constructor
  · intro hcompletes s S S' hs hs' hopen hnot hfinished
    obtain ⟨S'', hs'', hchange⟩ := step_stream hstep he hs
    obtain rfl : S' = S'' := Option.some.inj (hs'.symm.trans hs'')
    have hopen' : S.o ≠ .disposed := hchange.open hopen
    rcases h.open_cases hs hopen' with ⟨ho, hn⟩ | ⟨_, hf⟩
    · have hiff := hchange.completions_iff hcounted (h.signalled s S hs) ho hn hopen
      exact (hother s).mp (hiff.mp (hcompletes s S' hs' hopen).1 hfinished)
    · exact absurd hf hnot
  · intro halone s S' hs' hopen
    cases hs : w.streams s with
    | none =>
      obtain ⟨rfl, hemission⟩ := step_new hstep hs hs'
      simp [hemission, Finished, MergeLossyObserver.completions, MergeLossyObserver.values]
    | some S =>
      obtain ⟨S'', hs'', hchange⟩ := step_stream hstep he hs
      obtain rfl : S' = S'' := Option.some.inj (hs'.symm.trans hs'')
      have hopen' : S.o ≠ .disposed := hchange.open hopen
      rcases h.open_cases hs hopen' with ⟨ho, hn⟩ | ⟨ho, hf⟩
      · have hiff := hchange.completions_iff hcounted (h.signalled s S hs) ho hn hopen
        have halone' := fun hfin => (hother s).mpr (halone s S S' hs hs' hopen hn hfin)
        exact ⟨hiff.mpr halone', hchange.values hopen fun _ _ _ _ => ho⟩
      · have hone := (h.signalled s S hs).completed ho
        obtain ⟨hone', hfin'⟩ := hchange.completions_kept (h.stopped s S hs) hone hf hopen
        refine ⟨by rw [if_pos hfin', hone'], hchange.values hopen fun I hI hparent hrun => ?_⟩
        rw [hf.2 I hI hparent] at hrun
        simp [InnerStage.isStopped] at hrun

theorem settled_step {max : Nat} {w w' : MergeLossy ν} {e : MergeEvent ν} (hstep : w.step e = some w')
    (he : e.isError = false) (h : Settled max w) (hcompletes : CompletesWhenFinished w e w') :
    Settled max w' := by
  have hnew : ∀ s S', w'.streams s = some S' → S' = ⟨.listening, [], false, false⟩ ∨
      ∃ S, w.streams s = some S ∧ StreamChange w e w' s S S' := by
    intro s S' hs'
    cases hs : w.streams s with
    | none => exact Or.inl (step_new hstep hs hs').1
    | some S =>
      obtain ⟨S'', hs'', hchange⟩ := step_stream hstep he hs
      obtain rfl : S' = S'' := Option.some.inj (hs'.symm.trans hs'')
      exact Or.inr ⟨S, rfl, hchange⟩
  refine ⟨h.counted.change (step_slots hstep), ?_, ?_, fun s S' hs' hopen => (hcompletes s S' hs' hopen).1⟩
  · intro s S' hs'
    rcases hnew s S' hs' with rfl | ⟨S, hs, hchange⟩
    · constructor <;> simp [MergeLossyObserver.completions]
    · exact hchange.signalled (h.signalled s S hs)
  · intro s S' hs'
    rcases hnew s S' hs' with rfl | ⟨S, hs, hchange⟩
    · simp
    · exact hchange.stopped (h.stopped s S hs)

theorem streams_of_step {w w' : MergeLossy ν} {e : MergeEvent ν} {s : StreamId} (h : w.step e = some w')
    (hs' : (w'.streams s).isSome = true) : (w.streams s).isSome = true ∨ e = .subscribe s := by
  rcases step_streams h with hsame | ⟨t, S, hupdate, hold⟩
  · exact Or.inl (hsame ▸ hs')
  · by_cases hst : s = t
    · subst hst
      exact hold.imp_right And.left
    · rw [hupdate, Function.update_of_ne hst] at hs'
      exact Or.inl hs'

theorem Settled.start (max : Nat) : Settled max (start max : MergeLossy ν) :=
  ⟨Counted.start max, by simp [MergeLossy.start], by simp [MergeLossy.start], by simp [MergeLossy.start]⟩

end MergeLossy

/-- In a run without errors each stream completes exactly when it has finished,
if and only if no other stream holds a slot at that moment. -/
theorem mergeLossy_completes_iff (max : Nat) (es : List (MergeEvent ν)) (herror : ∀ e ∈ es, e.isError = false) :
    Lts.Along MergeLossy.step CompletesWhenFinished (.start max) es ↔
      Lts.Along MergeLossy.step AloneWhenFinished (.start max) es := by
  refine Lts.along_congr (Settled max) ?_ ?_ herror (Settled.start max)
  · intro w e w' hstep he h
    exact settled_step_iff hstep he h
  · intro w e w' hstep he h hcompletes
    exact settled_step hstep he h hcompletes

/-- As `AloneWhenFinished`, for the streams of a list. -/
def AloneAmong (ids : List StreamId) (w : MergeLossy ν) (e : MergeEvent ν) (w' : MergeLossy ν) : Prop :=
  (∀ s ∈ e.subscribed, s ∈ ids) ∧ ∀ s ∈ ids, ∀ S ∈ w.streams s, ∀ S' ∈ w'.streams s, S'.o ≠ .disposed →
    ¬ w.Finished s S → w'.Finished s S' → ∀ I ∈ w.inners, I.parent ≠ s → I.stage = .completed

instance {ids : List StreamId} {w w' : MergeLossy ν} {e : MergeEvent ν} : Decidable (AloneAmong ids w e w') :=
  inferInstanceAs (Decidable (_ ∧ _))

theorem along_aloneAmong (ids : List StreamId) {max : Int} {es : List (MergeEvent ν)}
    (h : Lts.Along MergeLossy.step (AloneAmong ids) (.start max) es) :
    Lts.Along MergeLossy.step AloneWhenFinished (.start max) es := by
  refine h.of_invariant (fun w => ∀ s, (w.streams s).isSome = true → s ∈ ids) ?_ ?_ (by simp [MergeLossy.start])
  · intro w e w' hstep halone hids s hs
    rcases MergeLossy.streams_of_step hstep hs with hold | rfl
    · exact hids s hold
    · exact halone.1 s rfl
  · intro w e w' _ halone hids s S S' hs hs'
    exact halone.2 s (hids s (Option.isSome_of_eq_some hs)) S hs S' hs'

/-- Two streams take turns, and the first to finish does so when the other's inner stream
is over. -/
def turnsRun : List (MergeEvent Nat) :=
  [.subscribe 0, .subscribe 1, .next 0, .next 1, .innerNext 1 6, .completed 0, .innerCompleted 1, .innerRemoved 1,
    .innerNext 0 5, .innerCompleted 0, .innerRemoved 0, .completed 1]

theorem mergeLossy_completes_iff_turns :
    Lts.Along MergeLossy.step CompletesWhenFinished (.start 2 : MergeLossy Nat) turnsRun ∧
      ¬ Lts.Along MergeLossy.step CompletesWhenFinished (.start 2 : MergeLossy Nat)
        (turnsRun.take 6 ++ [.innerCompleted 0, .innerRemoved 0]) := by
  refine ⟨(mergeLossy_completes_iff 2 _ (by decide)).mpr (along_aloneAmong [0, 1] (by decide)), fun h => ?_⟩
  have halone := (mergeLossy_completes_iff 2 _ (by decide)).mp h
  exact absurd (halone.getLast (List.cons_ne_nil _ _) rfl rfl 0 _ _ rfl rfl) (by decide)

/-- Stream 0 finishes while stream 1 has an inner stream in flight, and is never
told, not even when that one is over as well. -/
theorem mergeLossy_never_completes : ∃ w S, Lts.exec MergeLossy.step (.start 2 : MergeLossy Nat)
      [.subscribe 0, .subscribe 1, .next 0, .next 1, .completed 0, .innerCompleted 0, .innerRemoved 0,
        .innerCompleted 1, .innerRemoved 1, .completed 1] = some w ∧
    w.streams 0 = some S ∧ w.Finished 0 S ∧ S.o ≠ .disposed ∧ S.completions = 0 :=
  ⟨_, _, rfl, rfl, by decide, by decide, by decide⟩

end OnTaskGraph
