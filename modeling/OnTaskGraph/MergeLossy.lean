import Mathlib.Data.List.Basic
import Mathlib.Logic.Function.Basic
import OnTaskGraph.Lts
import OnTaskGraph.TaskEvaluation

/-! `mergeLossy`: streams of streams that share one counter of inner streams. A
handler that runs foreign code, which may call back at once, ends there; what it
does afterwards is an event of its own. Inner streams are numbered as they are
accepted. -/

namespace OnTaskGraph

abbrev StreamId := Nat
abbrev InnerId := Nat

inductive Signal (ν : Type)
  | next (x : ν)
  | error
  | completed
  deriving DecidableEq

/-- The observer that subscribed to a `mergeLossy` stream: nothing reaches it any
more once it has had an end or its subscription is disposed of. -/
inductive Outlet
  | listening
  | completed
  | failed
  | disposed
  deriving DecidableEq

structure MergeLossyObserver (ν : Type) where
  o : Outlet
  /-- What `o` was given, newest first. -/
  received : List (Signal ν)
  done : Bool
  isStopped : Bool

inductive InnerStage
  | live
  /-- Its subscription is disposed of. -/
  | disposed
  /-- `onError`, `fail` or `dispose` was called. -/
  | failed
  /-- `onCompleted` has called `g.remove(sad)`, which may run foreign code. -/
  | completing
  | completed
  deriving DecidableEq

def InnerStage.isStopped : InnerStage → Bool
  | .live | .disposed => false
  | .failed | .completing | .completed => true

structure InnerObserver where
  parent : StreamId
  stage : InnerStage
  deriving DecidableEq

def InnerObserver.holdsSlot (I : InnerObserver) : Bool := I.stage ≠ .completed

/-- Subscribed and not terminated, the handler of `onCompleted` included. -/
def InnerObserver.inFlight (I : InnerObserver) : Bool := I.stage = .live ∨ I.stage = .completing

/-- Terminated by an error or by disposal. -/
def InnerObserver.lost (I : InnerObserver) : Bool := I.stage = .failed ∨ I.stage = .disposed

/-- The signals to the two observers and the disposals. `error` and `innerError`
stand for `onError` and `fail`, which do the same. -/
inductive MergeEvent (ν : Type)
  | subscribe (s : StreamId)
  | next (s : StreamId)
  | error (s : StreamId)
  | completed (s : StreamId)
  | stop (s : StreamId)
  | innerNext (i : InnerId) (x : ν)
  | innerError (i : InnerId)
  | innerCompleted (i : InnerId)
  /-- `g.remove(sad)` has returned to `onCompleted`. -/
  | innerRemoved (i : InnerId)
  | innerStop (i : InnerId)
  | dispose (s : StreamId)
  | disposeInner (i : InnerId)

structure MergeLossy (ν : Type) where
  counter : ConcurrentCounter
  streams : StreamId → Option (MergeLossyObserver ν)
  inners : List InnerObserver

namespace MergeLossyObserver

variable {ν : Type}

/-- `o.onNext(x)`. -/
def emit (S : MergeLossyObserver ν) (x : ν) : MergeLossyObserver ν :=
  if S.o = .listening then { S with received := .next x :: S.received } else S

/-- `o.onError(e)`. -/
def fail (S : MergeLossyObserver ν) : MergeLossyObserver ν :=
  if S.o = .listening then { S with o := .failed, received := .error :: S.received } else S

/-- `o.onCompleted()`. -/
def complete (S : MergeLossyObserver ν) : MergeLossyObserver ν :=
  if S.o = .listening then { S with o := .completed, received := .completed :: S.received } else S

def detach (S : MergeLossyObserver ν) : MergeLossyObserver ν :=
  if S.o = .listening then { S with o := .disposed } else S

end MergeLossyObserver

namespace MergeLossy

variable {ν : Type}

def start (max : Int) : MergeLossy ν := ⟨concurrentCounter max, fun _ => none, []⟩

def setStream (w : MergeLossy ν) (s : StreamId) (S : MergeLossyObserver ν) : MergeLossy ν :=
  { w with streams := Function.update w.streams s (some S) }

def setInner (w : MergeLossy ν) (i : InnerId) (I : InnerObserver) (stage : InnerStage) : MergeLossy ν :=
  { w with inners := w.inners.set i { I with stage := stage } }

def count (w : MergeLossy ν) (n : Int) : MergeLossy ν := { w with counter := { w.counter with count := n } }

/-- `MergeLossyObserver.onNext`: `handleSubscribe` makes an `InnerObserver`. -/
def onNext (w : MergeLossy ν) (s : StreamId) (S : MergeLossyObserver ν) : MergeLossy ν :=
  if S.isStopped then w
  else if w.counter.count < w.counter.max then
    { w.count (w.counter.count + 1) with inners := w.inners ++ [⟨s, .live⟩] }
  else w

def onError (w : MergeLossy ν) (s : StreamId) (S : MergeLossyObserver ν) : MergeLossy ν :=
  if S.isStopped then w else w.setStream s { S with isStopped := true }.fail

def onCompleted (w : MergeLossy ν) (s : StreamId) (S : MergeLossyObserver ν) : MergeLossy ν :=
  if S.isStopped then w
  else
    let S' := { S with isStopped := true, done := true }
    w.setStream s (if w.counter.count = 0 then S'.complete else S')

def innerNext (w : MergeLossy ν) (I : InnerObserver) (x : ν) (S : MergeLossyObserver ν) : MergeLossy ν :=
  if I.stage.isStopped then w else w.setStream I.parent (S.emit x)

def innerError (w : MergeLossy ν) (i : InnerId) (I : InnerObserver) (S : MergeLossyObserver ν) : MergeLossy ν :=
  if I.stage.isStopped then w else (w.setInner i I .failed).setStream I.parent S.fail

/-- `InnerObserver.onCompleted` up to `g.remove(sad)`. -/
def innerCompleted (w : MergeLossy ν) (i : InnerId) (I : InnerObserver) : MergeLossy ν :=
  if I.stage.isStopped then w else w.setInner i I .completing

/-- `InnerObserver.onCompleted` after `g.remove(sad)`. -/
def innerRemoved (w : MergeLossy ν) (i : InnerId) (I : InnerObserver) (S : MergeLossyObserver ν) : MergeLossy ν :=
  ((w.count (w.counter.count - 1)).setInner i I .completed).setStream I.parent
    (if S.done ∧ w.counter.count - 1 = 0 then S.complete else S)

def innerStop (w : MergeLossy ν) (i : InnerId) (I : InnerObserver) : MergeLossy ν :=
  if I.stage.isStopped then w else w.setInner i I .failed

/-- The subscriptions in `g` are disposed of when the one of `o` is, which an end
that reached `o` causes as well. -/
def disposeInner (w : MergeLossy ν) (i : InnerId) (I : InnerObserver) : MergeLossy ν :=
  if I.stage = .live then w.setInner i I .disposed else w

def onStream (w : MergeLossy ν) (s : StreamId) (f : MergeLossyObserver ν → MergeLossy ν) :
    Option (MergeLossy ν) :=
  (w.streams s).map f

def onInner (w : MergeLossy ν) (i : InnerId) (f : InnerObserver → MergeLossyObserver ν → MergeLossy ν) :
    Option (MergeLossy ν) :=
  w.inners[i]?.bind fun I => (w.streams I.parent).map (f I)

def step (w : MergeLossy ν) : MergeEvent ν → Option (MergeLossy ν)
  | .subscribe s => if (w.streams s).isNone then some (w.setStream s ⟨.listening, [], false, false⟩) else none
  | .next s => w.onStream s (w.onNext s)
  | .error s => w.onStream s (w.onError s)
  | .completed s => w.onStream s (w.onCompleted s)
  | .stop s => w.onStream s fun S => w.setStream s { S with isStopped := true }
  | .innerNext i x => w.onInner i fun I S => w.innerNext I x S
  | .innerError i => w.onInner i (w.innerError i)
  | .innerCompleted i => w.onInner i fun I _ => w.innerCompleted i I
  | .innerRemoved i =>
    w.inners[i]?.bind fun I =>
      if I.stage = .completing then (w.streams I.parent).map (w.innerRemoved i I) else none
  | .innerStop i => w.onInner i fun I _ => w.innerStop i I
  | .dispose s => w.onStream s fun S => w.setStream s S.detach
  | .disposeInner i =>
    w.inners[i]?.bind fun I => (w.streams I.parent).bind fun S =>
      if S.o = .listening then none else some (w.disposeInner i I)

/-! What one event does to the counter and the inner streams. -/

inductive SlotChange (w : MergeLossy ν) : MergeLossy ν → Prop
  | same {w' : MergeLossy ν} (hcounter : w'.counter = w.counter) (hinners : w'.inners = w.inners) :
      SlotChange w w'
  | accepted {w' : MergeLossy ν} (s : StreamId) (hlt : w.counter.count < w.counter.max)
      (hcounter : w'.counter = ⟨w.counter.count + 1, w.counter.max⟩)
      (hinners : w'.inners = w.inners ++ [⟨s, .live⟩]) : SlotChange w w'
  | ended {w' : MergeLossy ν} (i : InnerId) (I : InnerObserver) (stage : InnerStage)
      (hi : w.inners[i]? = some I) (hI : I.stage.isStopped = false)
      (hlive : stage ≠ .live) (hcompleted : stage ≠ .completed)
      (hcounter : w'.counter = w.counter) (hinners : w'.inners = w.inners.set i ⟨I.parent, stage⟩) :
      SlotChange w w'
  | released {w' : MergeLossy ν} (i : InnerId) (I : InnerObserver)
      (hi : w.inners[i]? = some I) (hI : I.stage = .completing)
      (hcounter : w'.counter = ⟨w.counter.count - 1, w.counter.max⟩)
      (hinners : w'.inners = w.inners.set i ⟨I.parent, .completed⟩) : SlotChange w w'

theorem onStream_eq_some {w w' : MergeLossy ν} {s : StreamId} {f : MergeLossyObserver ν → MergeLossy ν} :
    w.onStream s f = some w' ↔ ∃ S, w.streams s = some S ∧ f S = w' := by
  simp [onStream]

theorem onInner_eq_some {w w' : MergeLossy ν} {i : InnerId}
    {f : InnerObserver → MergeLossyObserver ν → MergeLossy ν} :
    w.onInner i f = some w' ↔ ∃ I S, w.inners[i]? = some I ∧ w.streams I.parent = some S ∧ f I S = w' := by
  simp [onInner, Option.bind_eq_some_iff]

theorem step_slots {w w' : MergeLossy ν} {e : MergeEvent ν} (h : w.step e = some w') : SlotChange w w' := by
  cases e with
  | subscribe s =>
    simp only [step] at h
    split_ifs at h
    exact Option.some.inj h ▸ .same rfl rfl
  | next s =>
    obtain ⟨S, hs, rfl⟩ := onStream_eq_some.mp h
    unfold onNext
    split_ifs with hstop hlt
    · exact .same rfl rfl
    · exact .accepted s hlt rfl rfl
    · exact .same rfl rfl
  | error s =>
    obtain ⟨S, hs, rfl⟩ := onStream_eq_some.mp h
    unfold onError
    split_ifs <;> exact .same rfl rfl
  | completed s =>
    obtain ⟨S, hs, rfl⟩ := onStream_eq_some.mp h
    unfold onCompleted
    split_ifs <;> exact .same rfl rfl
  | stop s | dispose s =>
    obtain ⟨S, hs, rfl⟩ := onStream_eq_some.mp h
    exact .same rfl rfl
  | innerNext i x =>
    obtain ⟨I, S, hi, hs, rfl⟩ := onInner_eq_some.mp h
    unfold innerNext
    split_ifs <;> exact .same rfl rfl
  | innerError i =>
    obtain ⟨I, S, hi, hs, rfl⟩ := onInner_eq_some.mp h
    unfold innerError
    split_ifs with hstop
    · exact .same rfl rfl
    · exact .ended i I .failed hi (by simpa using hstop) (by simp) (by simp) rfl rfl
  | innerCompleted i =>
    obtain ⟨I, S, hi, hs, rfl⟩ := onInner_eq_some.mp h
    unfold innerCompleted
    split_ifs with hstop
    · exact .same rfl rfl
    · exact .ended i I .completing hi (by simpa using hstop) (by simp) (by simp) rfl rfl
  | innerStop i =>
    obtain ⟨I, S, hi, hs, rfl⟩ := onInner_eq_some.mp h
    unfold innerStop
    split_ifs with hstop
    · exact .same rfl rfl
    · exact .ended i I .failed hi (by simpa using hstop) (by simp) (by simp) rfl rfl
  | innerRemoved i =>
    obtain ⟨I, hi, h⟩ := Option.bind_eq_some_iff.mp h
    split_ifs at h with hI
    obtain ⟨S, hs, rfl⟩ := Option.map_eq_some_iff.mp h
    exact .released i I hi hI rfl rfl
  | disposeInner i =>
    obtain ⟨I, hi, h⟩ := Option.bind_eq_some_iff.mp h
    obtain ⟨S, hs, h⟩ := Option.bind_eq_some_iff.mp h
    split_ifs at h
    obtain rfl := Option.some.inj h
    unfold disposeInner
    split_ifs with hlive
    · exact .ended i I .disposed hi (by simp [hlive, InnerStage.isStopped]) (by simp) (by simp) rfl rfl
    · exact .same rfl rfl

/-! The counter counts the accepted inner streams that have not completed. -/

theorem countP_set_add {α : Type*} (p : α → Bool) {l : List α} {i : Nat} {x : α} (h : l[i]? = some x) (a : α) :
    (l.set i a).countP p + (p x).toNat = l.countP p + (p a).toNat := by
  induction l generalizing i with
  | nil => simp at h
  | cons y ys ih =>
    cases i with
    | zero =>
      obtain rfl : y = x := by simpa using h
      simp only [List.set_cons_zero, List.countP_cons]
      cases p a <;> cases p y <;> simp
    | succ i =>
      have := ih (i := i) (by simpa using h)
      simp only [List.set_cons_succ, List.countP_cons]
      omega

structure Counted (max : Nat) (w : MergeLossy ν) : Prop where
  max_eq : w.counter.max = max
  count_eq : w.counter.count = w.inners.countP InnerObserver.holdsSlot
  count_le : w.counter.count ≤ max

theorem Counted.start (max : Nat) : Counted max (start max : MergeLossy ν) := by
  constructor <;> simp [MergeLossy.start, concurrentCounter]

theorem Counted.change {max : Nat} {w w' : MergeLossy ν} (h : Counted max w) (hchange : SlotChange w w') :
    Counted max w' := by
  have hmax := h.max_eq
  have hcount := h.count_eq
  have hle := h.count_le
  cases hchange with
  | same hcounter hinners =>
    exact ⟨by rw [hcounter, hmax], by rw [hcounter, hinners, hcount], by rw [hcounter]; exact hle⟩
  | accepted s hlt hcounter hinners =>
    refine ⟨by rw [hcounter, hmax], ?_, ?_⟩
    · rw [hcounter, hinners, List.countP_append]
      simp [hcount, InnerObserver.holdsSlot]
    · rw [hcounter]
      show w.counter.count + 1 ≤ max
      omega
  | ended i I stage hi hI hlive hcompleted hcounter hinners =>
    have hset := countP_set_add InnerObserver.holdsSlot hi ⟨I.parent, stage⟩
    have hold : I.holdsSlot = true := by
      cases hs : I.stage <;> simp_all [InnerObserver.holdsSlot, InnerStage.isStopped]
    have hnew : InnerObserver.holdsSlot ⟨I.parent, stage⟩ = true := by simpa [InnerObserver.holdsSlot]
    rw [hold, hnew] at hset
    refine ⟨by rw [hcounter, hmax], ?_, by rw [hcounter]; exact hle⟩
    rw [hcounter, hinners, hcount]
    omega
  | released i I hi hI hcounter hinners =>
    have hset := countP_set_add InnerObserver.holdsSlot hi ⟨I.parent, .completed⟩
    have hold : I.holdsSlot = true := by simp [InnerObserver.holdsSlot, hI]
    have hnew : InnerObserver.holdsSlot ⟨I.parent, .completed⟩ = false := by simp [InnerObserver.holdsSlot]
    rw [hold, hnew] at hset
    simp only [Bool.toNat_true, Bool.toNat_false] at hset
    refine ⟨by rw [hcounter, hmax], ?_, ?_⟩
    · rw [hcounter, hinners]
      show w.counter.count - 1 = _
      omega
    · rw [hcounter]
      show w.counter.count - 1 ≤ max
      omega

theorem counted_run {max : Nat} {es : List (MergeEvent ν)} {w : MergeLossy ν}
    (h : Lts.exec step (start max) es = some w) : Counted max w :=
  Lts.invariant (Counted max) (fun _ _ _ hstep hs => hs.change (step_slots hstep)) (Counted.start max) h

end MergeLossy

open MergeLossy

/-- In no reachable state are more inner streams in flight than counted, or more
counted than the limit, and at the limit a source is dropped. -/
theorem mergeLossy_bounded {ν : Type} (max : Nat) (es : List (MergeEvent ν)) (w : MergeLossy ν)
    (h : Lts.exec MergeLossy.step (.start max) es = some w) :
    (w.inners.countP InnerObserver.inFlight : Int) ≤ w.counter.count ∧ w.counter.count ≤ w.counter.max ∧
      0 ≤ w.counter.count ∧ w.counter.max = max ∧
      ∀ s w', w.counter.count = w.counter.max → w.step (.next s) = some w' → w' = w := by
  have hcounted := counted_run h
  have hcount := hcounted.count_eq
  have hle := hcounted.count_le
  have hmono : w.inners.countP InnerObserver.inFlight ≤ w.inners.countP InnerObserver.holdsSlot := by
    refine List.countP_mono_left fun I _ hI => ?_
    cases hs : I.stage <;> simp_all [InnerObserver.inFlight, InnerObserver.holdsSlot]
  refine ⟨by omega, by rw [hcounted.max_eq]; exact hle, by omega, hcounted.max_eq, ?_⟩
  intro s w' hfull hstep
  obtain ⟨S, hs, rfl⟩ := onStream_eq_some.mp hstep
  simp [onNext, hfull]

theorem mergeLossy_bounded_reentrant : ∃ w : MergeLossy Nat, Lts.exec MergeLossy.step (.start 1)
      [.subscribe 0, .subscribe 1, .next 0, .innerCompleted 0, .next 1, .innerCompleted 0, .innerRemoved 0] =
        some w ∧ (w.inners.countP InnerObserver.inFlight : Int) ≤ w.counter.count :=
  ⟨_, rfl, (mergeLossy_bounded 1 [.subscribe 0, .subscribe 1, .next 0, .innerCompleted 0, .next 1,
    .innerCompleted 0, .innerRemoved 0] _ rfl).1⟩

def MergeLossy.Accepts {ν : Type} (w : MergeLossy ν) (s : StreamId) : Prop :=
  ∃ w', w.step (.next s) = some w' ∧ w'.inners = w.inners ++ [⟨s, .live⟩]

/-- When all accepted inner streams have terminated, the counter is back at zero
exactly if none of them was lost; and as long as none is lost, a source is
accepted while fewer than `max` inner streams are in flight. -/
theorem slots_given_back_iff {ν : Type} (max : Nat) (es : List (MergeEvent ν)) (w : MergeLossy ν)
    (h : Lts.exec MergeLossy.step (.start max) es = some w) :
    ((∀ I ∈ w.inners, I.inFlight = false) →
      (w.counter.count = 0 ↔ ∀ I ∈ w.inners, I.lost = false)) ∧
    ((∀ I ∈ w.inners, I.lost = false) → ∀ s S, w.streams s = some S → S.isStopped = false →
      (w.Accepts s ↔ w.inners.countP InnerObserver.inFlight < max)) := by
  have hcounted := counted_run h
  have hcount := hcounted.count_eq
  have hslot : ∀ I : InnerObserver, I.holdsSlot = (I.inFlight || I.lost) := by
    intro I
    cases hs : I.stage <;> simp [InnerObserver.holdsSlot, InnerObserver.inFlight, InnerObserver.lost, hs]
  constructor
  · intro hended
    have hzero : w.counter.count = 0 ↔ ∀ I ∈ w.inners, I.holdsSlot = false := by
      rw [hcount, Int.natCast_eq_zero, List.countP_eq_zero]
      simp
    rw [hzero]
    exact forall₂_congr fun I hI => by rw [hslot, hended I hI, Bool.false_or]
  · intro hkept s S hs hrunning
    have hflight : w.inners.countP InnerObserver.inFlight = w.inners.countP InnerObserver.holdsSlot :=
      List.countP_congr fun I hI => by simp [hslot, hkept I hI]
    have hstep : w.step (.next s) = some (w.onNext s S) := by simp [step, onStream, hs]
    rw [hflight]
    constructor
    · rintro ⟨w', hw', hinners⟩
      obtain rfl : w.onNext s S = w' := Option.some.inj (hstep ▸ hw')
      by_contra hfull
      have hge : ¬ w.counter.count < w.counter.max := by
        rw [hcounted.max_eq]
        omega
      simp [onNext, hrunning, hge] at hinners
    · intro hlt
      have hfree : w.counter.count < w.counter.max := by
        rw [hcounted.max_eq]
        omega
      exact ⟨_, hstep, by simp [onNext, hrunning, hfree, count]⟩

theorem slots_given_back_iff_once : ∃ w : MergeLossy Nat, Lts.exec MergeLossy.step (.start 1)
      [.subscribe 0, .next 0, .innerCompleted 0, .innerRemoved 0] = some w ∧ w.counter.count = 0 := by
  refine ⟨_, rfl, ((slots_given_back_iff 1 [.subscribe 0, .next 0, .innerCompleted 0, .innerRemoved 0] _
    rfl).1 ?_).mpr ?_⟩ <;> decide

/-- After an inner error the slot is gone, and another stream gets none. -/
theorem slot_leaked : ∃ w : MergeLossy Nat, Lts.exec MergeLossy.step (.start 1)
      [.subscribe 0, .next 0, .innerError 0, .subscribe 1, .next 1] = some w ∧
    (∀ I ∈ w.inners, I.inFlight = false) ∧ w.counter.count = 1 ∧ w.inners.length = 1 :=
  ⟨_, rfl, by decide, by decide, by decide⟩

end OnTaskGraph
