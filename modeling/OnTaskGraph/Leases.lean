import OnTaskGraph.TaskRunner

/-! Task runners and lease expiration pollers around one task store. A lease is
granted, renewed and cleared by single calls of the store; everything between a
call and its answer is open to the other processes. -/

namespace OnTaskGraph

abbrev RunnerId := Nat
abbrev PollerId := Nat
abbrev ScanId := Nat
abbrev DocId := Nat

structure Document where
  id : DocId
  taskId : TaskId
  domain : Nat

structure Poller where
  domain : Nat
  leaseAdjust : Nat

structure Deployment where
  documents : List Document
  nodup_ids : (documents.map Document.id).Nodup
  nodup_taskIds : (documents.map Document.taskId).Nodup
  lostBeatLimit : RunnerId → Nat
  poller : PollerId → Poller

structure Lease where
  runner : RunnerId
  heartbeat : Nat
  deriving DecidableEq

/-- What the store has executed, and the starts of `task.run()`. -/
inductive Entry
  | granted (r : RunnerId) (t : TaskId) (p : PipeId)
  | started (r : RunnerId) (t : TaskId) (p : PipeId)
  | renewed (t : TaskId)
  | expired (t : TaskId)
  | snapshot (r : RunnerId) (b : BeatId)
  | scanned (s : ScanId)
  deriving DecidableEq

/-- The calls of `store.expireLease` that one `expireLeases` has made. -/
structure Scan where
  poller : PollerId
  pending : DocId → Bool

def Scan.done (S : Scan) (i : DocId) : Scan := { S with pending := Function.update S.pending i false }

structure World where
  now : Nat
  lease : TaskId → Option Lease
  runner : RunnerId → TaskRunner
  scans : ScanId → Option Scan
  log : List Entry

inductive Action
  | tick (d : Nat)
  | runner (r : RunnerId) (e : Event)
  | checkoutTask (r : RunnerId) (p : PipeId) (granted : Bool)
  | setTaskState (r : RunnerId) (p : PipeId)
  | heartbeatTasks (r : RunnerId) (b : BeatId)
  | getOwnTasks (r : RunnerId) (b : BeatId)
  | expireLost (r : RunnerId) (i : DocId)
  | findExpiredLeases (s : ScanId) (k : PollerId)
  | expireLease (s : ScanId) (i : DocId)

/-- The events of a runner that are calls of the store being executed. -/
def Event.ofStore : Event → Bool
  | .checkoutTask .. | .setTaskState .. | .heartbeatTasks .. | .getOwnTasks .. | .expireLease .. => true
  | _ => false

def TaskRunner.activation (R : TaskRunner) : Event → Option (TaskId × PipeId)
  | .reply p .resolve =>
    match R.pipes p with
    | some ⟨t, .create⟩ => some (t, p)
    | _ => none
  | _ => none

def Deployment.document (D : Deployment) (i : DocId) : Option Document :=
  D.documents.find? (·.id = i)

def Deployment.pair : Deployment where
  documents := [⟨5, 7, 0⟩, ⟨6, 8, 0⟩]
  nodup_ids := by decide
  nodup_taskIds := by decide
  lostBeatLimit := fun _ => 3
  poller := fun _ => ⟨0, 10⟩

namespace World

variable (D : Deployment)

def start : World where
  now := 0
  lease := fun _ => none
  runner := fun r => .start (D.lostBeatLimit r)
  scans := fun _ => none
  log := []

def record (w : World) (x : Entry) : World := { w with log := x :: w.log }

def setRunner (w : World) (r : RunnerId) (R : TaskRunner) : World :=
  { w with runner := Function.update w.runner r R }

def holds (w : World) (r : RunnerId) (t : TaskId) : Bool :=
  match w.lease t with
  | some L => L.runner = r
  | none => false

/-! The calls of the store: `getOwnTasks`, `checkoutTask` when it gives the lease,
`heartbeatTasksForRunner`, `expireLease`, and `findExpiredLeases` for one document. -/

def ownTasks (w : World) (r : RunnerId) : List TaskId :=
  (D.documents.map Document.taskId).filter (w.holds r)

def grant (w : World) (r : RunnerId) (t : TaskId) (p : PipeId) : World :=
  { w with lease := Function.update w.lease t (some ⟨r, w.now⟩), log := .granted r t p :: w.log }

def renew (w : World) (r : RunnerId) : World :=
  { w with
    lease := fun t => (w.lease t).map fun L => if L.runner = r then ⟨r, w.now⟩ else L
    log := (w.ownTasks D r).map .renewed ++ w.log }

def expire (w : World) (i : DocId) : World :=
  match D.document i with
  | none => w
  | some d =>
    match w.lease d.taskId with
    | none => w
    | some _ =>
      { w with lease := Function.update w.lease d.taskId none, log := .expired d.taskId :: w.log }

def expiredLease (w : World) (P : Poller) (i : DocId) : Bool :=
  match D.document i with
  | none => false
  | some d =>
    match w.lease d.taskId with
    | none => false
    | some L => d.domain = P.domain && L.heartbeat + P.leaseAdjust < w.now

def setScan (w : World) (s : ScanId) (S : Scan) : World :=
  { w with scans := Function.update w.scans s (some S) }

def stepRunner (w : World) (r : RunnerId) (e : Event) : Option World :=
  ((w.runner r).step e).map (w.setRunner r)

def step (w : World) : Action → Option World
  | .tick d => some { w with now := w.now + d }
  | .runner r e =>
    if e.ofStore then none
    else
      match (w.runner r).activation e with
      | some (t, p) => (w.stepRunner r e).map (·.record (.started r t p))
      | none => w.stepRunner r e
  | .checkoutTask r p granted =>
    match (w.runner r).pipes p with
    | none => none
    | some P =>
      if granted = false then w.stepRunner r (.checkoutTask p false)
      else if P.taskId ∈ D.documents.map Document.taskId ∧ w.lease P.taskId = none then
        (w.stepRunner r (.checkoutTask p true)).map (·.grant r P.taskId p)
      else none
  | .setTaskState r p => w.stepRunner r (.setTaskState p)
  | .heartbeatTasks r b =>
    (w.stepRunner r (.heartbeatTasks b (w.ownTasks D r).length)).map (·.renew D r)
  | .getOwnTasks r b =>
    (w.stepRunner r (.getOwnTasks b (w.ownTasks D r))).map (·.record (.snapshot r b))
  | .expireLost r i => (w.stepRunner r (.expireLease i)).map (·.expire D i)
  | .findExpiredLeases s k =>
    match w.scans s with
    | none => some ((w.setScan s ⟨k, w.expiredLease D (D.poller k)⟩).record (.scanned s))
    | some _ => none
  | .expireLease s i =>
    match w.scans s with
    | none => none
    | some S => if S.pending i then some ((w.setScan s (S.done i)).expire D i) else none

/-- The event that an action is, with its runner. -/
def event (w : World) : Action → Option (RunnerId × Event)
  | .runner r e => some (r, e)
  | .checkoutTask r p granted => some (r, .checkoutTask p granted)
  | .setTaskState r p => some (r, .setTaskState p)
  | .heartbeatTasks r b => some (r, .heartbeatTasks b (w.ownTasks D r).length)
  | .getOwnTasks r b => some (r, .getOwnTasks b (w.ownTasks D r))
  | .expireLost r i => some (r, .expireLease i)
  | .tick _ | .findExpiredLeases _ _ | .expireLease _ _ => none

inductive Change (w : World) : Action → World → Prop
  | tick {d} : Change w (.tick d) { w with now := w.now + d }
  | runner {r e R} : e.ofStore = false → (w.runner r).activation e = none →
      (w.runner r).step e = some R → Change w (.runner r e) (w.setRunner r R)
  | started {r t p R} : (w.runner r).pipes p = some ⟨t, .create⟩ →
      (w.runner r).step (.reply p .resolve) = some R →
      Change w (.runner r (.reply p .resolve)) ((w.setRunner r R).record (.started r t p))
  | refused {r p R} : (w.runner r).step (.checkoutTask p false) = some R →
      Change w (.checkoutTask r p false) (w.setRunner r R)
  | granted {r t p R} : (w.runner r).pipes p = some ⟨t, .checkoutTask⟩ →
      t ∈ D.documents.map Document.taskId → w.lease t = none →
      (w.runner r).step (.checkoutTask p true) = some R →
      Change w (.checkoutTask r p true) ((w.setRunner r R).grant r t p)
  | setTaskState {r p R} : (w.runner r).step (.setTaskState p) = some R →
      Change w (.setTaskState r p) (w.setRunner r R)
  | renewed {r b R} : (w.runner r).step (.heartbeatTasks b (w.ownTasks D r).length) = some R →
      Change w (.heartbeatTasks r b) ((w.setRunner r R).renew D r)
  | snapshot {r b R} : (w.runner r).step (.getOwnTasks b (w.ownTasks D r)) = some R →
      Change w (.getOwnTasks r b) ((w.setRunner r R).record (.snapshot r b))
  | expireLost {r i R} : (w.runner r).step (.expireLease i) = some R →
      Change w (.expireLost r i) ((w.setRunner r R).expire D i)
  | scanned {s k} : w.scans s = none → Change w (.findExpiredLeases s k)
      ((w.setScan s ⟨k, w.expiredLease D (D.poller k)⟩).record (.scanned s))
  | expireLease {s i S} : w.scans s = some S → S.pending i = true →
      Change w (.expireLease s i) ((w.setScan s (S.done i)).expire D i)

end World

theorem TaskRunner.activation_eq_some {R : TaskRunner} {e : Event} {t : TaskId} {p : PipeId} :
    R.activation e = some (t, p) ↔ e = .reply p .resolve ∧ R.pipes p = some ⟨t, .create⟩ := by
  constructor
  · intro h
    unfold activation at h
    split at h
    · split at h
      · obtain ⟨rfl, rfl⟩ := Prod.mk.inj (Option.some.inj h)
        exact ⟨rfl, ‹_›⟩
      · simp at h
    · simp at h
  · rintro ⟨rfl, hp⟩
    simp [activation, hp]

namespace World

variable {D : Deployment} {w w' : World}

theorem expire_cases (w : World) (i : DocId) :
    w.expire D i = w ∨ ∃ t L, w.lease t = some L ∧
      w.expire D i = { w with lease := Function.update w.lease t none, log := .expired t :: w.log } := by
  unfold expire
  split
  · exact Or.inl rfl
  · split
    · exact Or.inl rfl
    · exact Or.inr ⟨_, _, ‹_›, rfl⟩

@[simp] theorem expire_runner (i : DocId) : (w.expire D i).runner = w.runner := by
  rcases expire_cases (D := D) w i with h | ⟨t, L, -, h⟩ <;> rw [h]

@[simp] theorem expire_scans (i : DocId) : (w.expire D i).scans = w.scans := by
  rcases expire_cases (D := D) w i with h | ⟨t, L, -, h⟩ <;> rw [h]

theorem stepRunner_eq_some {r : RunnerId} {e : Event} :
    w.stepRunner r e = some w' ↔ ∃ R, (w.runner r).step e = some R ∧ w.setRunner r R = w' :=
  Option.map_eq_some_iff

theorem checkoutTask_pipes {R R' : TaskRunner} {p : PipeId} {granted : Bool}
    (h : R.step (.checkoutTask p granted) = some R') : ∃ t, R.pipes p = some ⟨t, .checkoutTask⟩ := by
  simp only [TaskRunner.step] at h
  split at h
  · exact ⟨_, ‹_›⟩
  · simp at h

theorem step_change {a : Action} (h : step D w a = some w') : Change D w a w' := by
  cases a with
  | tick d =>
    obtain rfl := Option.some.inj h
    exact .tick
  | runner r e =>
    simp only [step] at h
    split_ifs at h with hs
    split at h
    · rename_i t p hact
      obtain ⟨w₁, hw₁, rfl⟩ := Option.map_eq_some_iff.mp h
      obtain ⟨R, hR, rfl⟩ := stepRunner_eq_some.mp hw₁
      obtain ⟨rfl, hp⟩ := TaskRunner.activation_eq_some.mp hact
      exact .started hp hR
    · obtain ⟨R, hR, rfl⟩ := stepRunner_eq_some.mp h
      exact .runner (by simpa using hs) ‹_› hR
  | checkoutTask r p granted =>
    simp only [step] at h
    split at h
    · simp at h
    · rename_i P hP
      split_ifs at h with hg hfree
      · obtain ⟨R, hR, rfl⟩ := stepRunner_eq_some.mp h
        exact hg ▸ .refused hR
      · obtain ⟨w₁, hw₁, rfl⟩ := Option.map_eq_some_iff.mp h
        obtain ⟨R, hR, rfl⟩ := stepRunner_eq_some.mp hw₁
        obtain rfl : granted = true := by simpa using hg
        obtain ⟨t, ht⟩ := checkoutTask_pipes hR
        obtain rfl := Option.some.inj (hP.symm.trans ht)
        exact .granted hP hfree.1 hfree.2 hR
  | setTaskState r p =>
    obtain ⟨R, hR, rfl⟩ := stepRunner_eq_some.mp h
    exact .setTaskState hR
  | heartbeatTasks r b =>
    obtain ⟨w₁, hw₁, rfl⟩ := Option.map_eq_some_iff.mp h
    obtain ⟨R, hR, rfl⟩ := stepRunner_eq_some.mp hw₁
    exact .renewed hR
  | getOwnTasks r b =>
    obtain ⟨w₁, hw₁, rfl⟩ := Option.map_eq_some_iff.mp h
    obtain ⟨R, hR, rfl⟩ := stepRunner_eq_some.mp hw₁
    exact .snapshot hR
  | expireLost r i =>
    obtain ⟨w₁, hw₁, rfl⟩ := Option.map_eq_some_iff.mp h
    obtain ⟨R, hR, rfl⟩ := stepRunner_eq_some.mp hw₁
    exact .expireLost hR
  | findExpiredLeases s k =>
    simp only [step] at h
    split at h
    · obtain rfl := Option.some.inj h
      exact .scanned ‹_›
    · simp at h
  | expireLease s i =>
    simp only [step] at h
    split at h
    · simp at h
    · split_ifs at h with hp
      obtain rfl := Option.some.inj h
      exact .expireLease ‹_› hp

/-- The runner whose event an action is goes through that event, all others stay. -/
theorem Change.runner_event {a : Action} (hc : Change D w a w') (r : RunnerId) :
    ((∀ e, w.event D a ≠ some (r, e)) ∧ w'.runner r = w.runner r) ∨
      ∃ e, w.event D a = some (r, e) ∧ (w.runner r).step e = some (w'.runner r) := by
  have hset : ∀ q e R, (w.runner q).step e = some R → w.event D a = some (q, e) →
      ((∀ e, w.event D a ≠ some (r, e)) ∧ (w.setRunner q R).runner r = w.runner r) ∨
        ∃ e, w.event D a = some (r, e) ∧ (w.runner r).step e = some ((w.setRunner q R).runner r) := by
    intro q e R hR he
    by_cases hq : q = r
    · subst hq
      exact Or.inr ⟨e, he, by simpa [setRunner] using hR⟩
    · exact Or.inl ⟨by simp [he, hq], by simp [setRunner, Ne.symm hq]⟩
  cases hc with
  | tick | scanned => exact Or.inl ⟨nofun, rfl⟩
  | runner _ _ hR | started _ hR | refused hR | granted _ _ _ hR | setTaskState hR | renewed hR
  | snapshot hR => exact hset _ _ _ hR rfl
  | expireLost hR =>
    rw [expire_runner]
    exact hset _ _ _ hR rfl
  | expireLease => exact Or.inl ⟨nofun, by rw [expire_runner]; rfl⟩

theorem Change.runner_step {a : Action} (hc : Change D w a w') (r : RunnerId) :
    w'.runner r = w.runner r ∨ ∃ e, (w.runner r).step e = some (w'.runner r) := by
  rcases hc.runner_event r with ⟨-, heq⟩ | ⟨e, -, hstep⟩
  · exact Or.inl heq
  · exact Or.inr ⟨e, hstep⟩

end World

end OnTaskGraph
