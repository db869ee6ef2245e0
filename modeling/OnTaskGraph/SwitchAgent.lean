import OnTaskGraph.Delivery

/-! `taskrunner.py`, the agent of a switch: it asks for a task list, runs the script of each
task until one fails, and posts the list. With `urllib2` a post is tried three times and
then given up; with `requests` it is made while the request is created. -/

namespace OnTaskGraph.SwitchAgent

structure Task where
  downloadUrl : Option String
  stdout : Option String
  error : Option String

/-- The key `exit` with what `int` makes of it, if it does. -/
structure TaskData where
  tasks : List Task
  exit : Option (Option Int)

/-- What is posted: a task list, or only what went wrong. -/
inductive Body
  | task_data (task_data : TaskData)
  | error (error : String)

/-- The class of `switch_class`. -/
inductive Mode
  | urllib2
  | requests

/-- How the script of a task ends; it may raise `SystemExit`. -/
inductive Outcome
  | stdout (result : String)
  | error (error : String)
  | exit (code : Int)

inductive Phase
  | download_task_data
  | execute (given : TaskData) (done rest : List Task)
  /-- The loop over the tasks is left. -/
  | create (given task_data : TaskData)
  | post (body : Body) (tries : Nat)
  /-- The post has reached the server if `arrived`. -/
  | waiting (body : Body) (tries : Nat) (arrived : Bool)
  /-- `post_task_data` with `requests`, which has been given an answer for an address. -/
  | get
  | exited (code : Int)
  | crashed

inductive Note
  | download (given : TaskData)
  /-- The `k`-th report is to be posted. -/
  | report (k : Nat) (given : TaskData) (body : Body)
  | post (k : Nat) (body : Body)
  /-- The server has handled a post. -/
  | respond (k : Nat) (body : Body)
  | answered (k : Nat)
  | failed (k : Nat)
  | gaveUp (k : Nat) (crashed : Bool)

structure Agent where
  phase : Phase
  /-- The number of reports that have been answered or given up. -/
  count : Nat
  /-- Posts that nobody waits for any more and that have not reached the server. -/
  stray : List (Nat × Body)
  log : List Note

inductive Action
  /-- `none` for an exception; in an answer, `none` for what has no tasks. -/
  | download (answer : Option (Option TaskData))
  | run (outcome : Outcome)
  /-- With what `int` or `json.dumps` raises. -/
  | create (error : Option String)
  | send
  | serve
  | answer
  | urlError
  | otherError (error : String)
  | get (ok : Bool)
  | lateServe (i : Nat)

section Definitions

def tryCount : Nat := 3

namespace Agent

def start : Agent := ⟨.download_task_data, 0, [], []⟩

/-- The loop over the tasks goes on. -/
def loop (s : Agent) (given : TaskData) (done : List Task) : List Task → Agent
  | [] => { s with phase := .create given { given with tasks := done } }
  | task :: rest => { s with phase := .execute given done (task :: rest) }

def run (s : Agent) (given : TaskData) (done : List Task) (task : Task) (rest : List Task) : Outcome → Agent
  | .stdout result => s.loop given (done ++ [{ task with stdout := some result }]) rest
  | .error error =>
    { s with phase := .create given { given with tasks := done ++ { task with error := some error } :: rest } }
  | .exit code => { s with phase := .exited code }

def report (s : Agent) (given : TaskData) (body : Body) : Agent :=
  { s with phase := .post body 0, log := .report s.count given body :: s.log }

/-- The last `try` of the loop: nothing is posted where the list tells the agent to exit. -/
def create (s : Agent) (given task_data : TaskData) (error : Option String) : Option Agent :=
  match task_data.exit, error with
  | some (some code), _ => some { s with phase := .exited code }
  | some none, none => none
  | _, some error => some (s.report given (.error error))
  | none, none => some (s.report given (.task_data task_data))

/-- The exception of a post that nobody waits for any more. -/
def fail (s : Agent) (body : Body) (arrived : Bool) : Agent :=
  { s with
    stray := if arrived then s.stray else (s.count, body) :: s.stray
    log := .failed s.count :: s.log }

def giveUp (s : Agent) (phase : Phase) (crashed : Bool) : Agent :=
  { s with phase, count := s.count + 1, log := .gaveUp s.count crashed :: s.log }

def urlError (s : Agent) (body : Body) (tries : Nat) (arrived : Bool) : Agent :=
  if tries + 1 < tryCount then { s.fail body arrived with phase := .post body (tries + 1) }
  else (s.fail body arrived).giveUp .download_task_data false

/-- With `requests`, what went wrong is posted in place of a task list; nothing else is caught. -/
def otherError (mode : Mode) (s : Agent) (body : Body) (tries : Nat) (arrived : Bool) (error : String) : Agent :=
  match mode, body with
  | .requests, .task_data _ => { s.fail body arrived with phase := .post (.error error) (tries + 1) }
  | _, _ => (s.fail body arrived).giveUp .crashed true

def answered (mode : Mode) (s : Agent) : Agent :=
  { s with
    phase := match mode with
      | .urllib2 => .download_task_data
      | .requests => .get
    count := s.count + 1
    log := .answered s.count :: s.log }

def step (mode : Mode) (s : Agent) : Action → Option Agent
  | .download answer =>
    match s.phase, answer with
    | .download_task_data, none => some s
    | .download_task_data, some none => some { s with phase := .crashed }
    | .download_task_data, some (some given) =>
      some ({ s with log := .download given :: s.log }.loop given [] given.tasks)
    | _, _ => none
  | .run outcome =>
    match s.phase with
    | .execute given done (task :: rest) => some (s.run given done task rest outcome)
    | _ => none
  | .create error =>
    match s.phase with
    | .create given task_data => s.create given task_data error
    | _ => none
  | .send =>
    match s.phase with
    | .post body tries => some { s with phase := .waiting body tries false, log := .post s.count body :: s.log }
    | _ => none
  | .serve =>
    match s.phase with
    | .waiting body tries false =>
      some { s with phase := .waiting body tries true, log := .respond s.count body :: s.log }
    | _ => none
  | .answer =>
    match s.phase with
    | .waiting _ _ true => some (s.answered mode)
    | _ => none
  | .urlError =>
    match mode, s.phase with
    | .urllib2, .waiting body tries arrived => some (s.urlError body tries arrived)
    | _, _ => none
  | .otherError error =>
    match s.phase with
    | .waiting body tries arrived => some (s.otherError mode body tries arrived error)
    | _ => none
  | .get ok =>
    match s.phase with
    | .get => some { s with phase := if ok then .download_task_data else .crashed }
    | _ => none
  | .lateServe i =>
    match s.stray[i]? with
    | none => none
    | some (k, body) => some { s with stray := s.stray.eraseIdx i, log := .respond k body :: s.log }

end Agent

end Definitions

section Moves

variable {mode : Mode} {s t : Agent}

/-- What each event does, in the phases where there can be one. -/
inductive Moved (mode : Mode) (s : Agent) : Action → Agent → Prop
  | retry (hphase : s.phase = .download_task_data) : Moved mode s (.download none) s
  | noTasks (hphase : s.phase = .download_task_data) :
    Moved mode s (.download (some none)) { s with phase := .crashed }
  | download (given : TaskData) (hphase : s.phase = .download_task_data) :
    Moved mode s (.download (some (some given)))
      ({ s with log := .download given :: s.log }.loop given [] given.tasks)
  | run (given : TaskData) (done : List Task) (task : Task) (rest : List Task) (outcome : Outcome)
    (hphase : s.phase = .execute given done (task :: rest)) :
    Moved mode s (.run outcome) (s.run given done task rest outcome)
  | exit (given task_data : TaskData) (code : Int) (error : Option String)
    (hphase : s.phase = .create given task_data)
    (hexit : task_data.exit = some (some code)) : Moved mode s (.create error) { s with phase := .exited code }
  | problem (given task_data : TaskData) (error : String) (hphase : s.phase = .create given task_data)
    (hexit : ∀ code, task_data.exit ≠ some (some code)) :
    Moved mode s (.create (some error)) (s.report given (.error error))
  | report (given task_data : TaskData) (hphase : s.phase = .create given task_data)
    (hexit : task_data.exit = none) :
    Moved mode s (.create none) (s.report given (.task_data task_data))
  | send (body : Body) (tries : Nat) (hphase : s.phase = .post body tries) :
    Moved mode s .send { s with phase := .waiting body tries false, log := .post s.count body :: s.log }
  | serve (body : Body) (tries : Nat) (hphase : s.phase = .waiting body tries false) :
    Moved mode s .serve { s with phase := .waiting body tries true, log := .respond s.count body :: s.log }
  | answer (body : Body) (tries : Nat) (hphase : s.phase = .waiting body tries true) :
    Moved mode s .answer (s.answered mode)
  | again (body : Body) (tries : Nat) (arrived : Bool) (hmode : mode = .urllib2)
    (hphase : s.phase = .waiting body tries arrived) (hlt : tries + 1 < tryCount) :
    Moved mode s .urlError { s.fail body arrived with phase := .post body (tries + 1) }
  | giveUp (body : Body) (tries : Nat) (arrived : Bool) (hmode : mode = .urllib2)
    (hphase : s.phase = .waiting body tries arrived) (hle : tryCount ≤ tries + 1) :
    Moved mode s .urlError ((s.fail body arrived).giveUp .download_task_data false)
  | instead (task_data : TaskData) (tries : Nat) (arrived : Bool) (error : String) (hmode : mode = .requests)
    (hphase : s.phase = .waiting (.task_data task_data) tries arrived) :
    Moved mode s (.otherError error)
      { s.fail (.task_data task_data) arrived with phase := .post (.error error) (tries + 1) }
  | crash (body : Body) (tries : Nat) (arrived : Bool) (error : String)
    (hphase : s.phase = .waiting body tries arrived) :
    Moved mode s (.otherError error) ((s.fail body arrived).giveUp .crashed true)
  | get (ok : Bool) (hphase : s.phase = .get) :
    Moved mode s (.get ok) { s with phase := if ok then .download_task_data else .crashed }
  | lateServe (i k : Nat) (body : Body) (hi : s.stray[i]? = some (k, body)) :
    Moved mode s (.lateServe i) { s with stray := s.stray.eraseIdx i, log := .respond k body :: s.log }

theorem moved_create {given task_data : TaskData} {error : Option String}
    (hphase : s.phase = .create given task_data) (h : s.create given task_data error = some t) :
    Moved mode s (.create error) t := by
  unfold Agent.create at h
  split at h
  · obtain rfl := Option.some.inj h
    exact .exit given task_data _ _ hphase ‹_›
  · cases h
  · rename_i hexit
    obtain rfl := Option.some.inj h
    exact .problem given task_data _ hphase hexit
  · obtain rfl := Option.some.inj h
    exact .report given task_data hphase ‹_›

theorem moved_of_step {a : Action} (h : s.step mode a = some t) : Moved mode s a t := by
  cases a with
  | download answer =>
    simp only [Agent.step] at h
    split at h
    · obtain rfl := Option.some.inj h
      exact .retry ‹_›
    · obtain rfl := Option.some.inj h
      exact .noTasks ‹_›
    · obtain rfl := Option.some.inj h
      exact .download _ ‹_›
    · cases h
  | create error =>
    simp only [Agent.step] at h
    split at h
    · exact moved_create ‹_› h
    · cases h
  | urlError =>
    simp only [Agent.step] at h
    split at h
    · obtain rfl := Option.some.inj h
      unfold Agent.urlError
      split
      · exact .again _ _ _ rfl ‹_› ‹_›
      · exact .giveUp _ _ _ rfl ‹_› (Nat.le_of_not_lt ‹_›)
    · cases h
  | otherError error =>
    simp only [Agent.step] at h
    split at h
    · obtain rfl := Option.some.inj h
      unfold Agent.otherError
      split
      · exact .instead _ _ _ error rfl ‹_›
      · exact .crash _ _ _ error ‹_›
    · cases h
  | lateServe i =>
    simp only [Agent.step] at h
    split at h
    · cases h
    · obtain rfl := Option.some.inj h
      exact .lateServe i _ _ ‹_›
  | _ =>
    simp only [Agent.step] at h
    split at h
    · obtain rfl := Option.some.inj h
      constructor
      assumption
    · cases h

end Moves

section Channel

@[simp] def Note.posts : Note → Option Nat
  | .post k _ => some k
  | _ => none

@[simp] def Note.responds : Note → Option Nat
  | .respond k _ => some k
  | _ => none

@[simp] def Note.givesUp : Note → Option Nat
  | .gaveUp k _ => some k
  | _ => none

@[simp] def Phase.busy : Phase → Bool
  | .post .. | .waiting .. => true
  | _ => false

@[simp] def Phase.copy : Phase → Option Bool
  | .waiting _ _ arrived => some arrived
  | _ => none

namespace Agent

variable {mode : Mode} {s t : Agent}

/-- The reports as messages. -/
def channel (s : Agent) : Delivery.Channel where
  next := s.count
  busy := s.phase.busy
  copy := s.phase.copy
  stray := s.stray.map Prod.fst
  sent := s.log.filterMap Note.posts
  arrived := s.log.filterMap Note.responds
  abandoned := s.log.filterMap Note.givesUp

/-- Each event is a run of the channel. -/
theorem channel_moves {a : Action} (h : s.step mode a = some t) :
    ∃ ms, Lts.exec Delivery.Channel.step s.channel ms = some t.channel := by
  cases moved_of_step h with
  | retry hphase => exact ⟨[], rfl⟩
  | noTasks hphase => exact ⟨[], by simp [Lts.exec, channel, hphase]⟩
  | download given hphase =>
    refine ⟨[], ?_⟩
    cases htasks : given.tasks <;>
      simp [loop, Lts.exec, channel, hphase, List.filterMap_cons]
  | run given done task rest outcome hphase =>
    refine ⟨[], ?_⟩
    cases outcome with
    | stdout result => cases rest <;> simp [run, loop, Lts.exec, channel, hphase]
    | _ => simp [run, Lts.exec, channel, hphase]
  | exit given task_data code error hphase hexit =>
    exact ⟨[], by simp [Lts.exec, channel, hphase]⟩
  | problem given task_data error hphase hexit =>
    refine ⟨[.offer], ?_⟩
    simp [Lts.exec, Delivery.Channel.step, channel, report, hphase, List.filterMap_cons]
  | report given task_data hphase hexit =>
    refine ⟨[.offer], ?_⟩
    simp [Lts.exec, Delivery.Channel.step, channel, report, hphase, List.filterMap_cons]
  | send body tries hphase =>
    refine ⟨[.send], ?_⟩
    simp [Lts.exec, Delivery.Channel.step, channel, hphase, List.filterMap_cons]
  | serve body tries hphase =>
    refine ⟨[.arrive], ?_⟩
    simp [Lts.exec, Delivery.Channel.step, channel, hphase, List.filterMap_cons]
  | answer body tries hphase =>
    refine ⟨[.answer], ?_⟩
    cases mode <;>
      simp [Lts.exec, Delivery.Channel.step, channel, answered, hphase, List.filterMap_cons]
  | again body tries arrived hmode hphase hlt =>
    refine ⟨[.fail], ?_⟩
    cases arrived <;>
      simp [Lts.exec, Delivery.Channel.step, channel, fail, hphase, List.filterMap_cons]
  | giveUp body tries arrived hmode hphase hle =>
    refine ⟨[.fail, .abandon], ?_⟩
    cases arrived <;>
      simp [Lts.exec, Delivery.Channel.step, channel, fail, giveUp, hphase, List.filterMap_cons]
  | instead task_data tries arrived error hmode hphase =>
    refine ⟨[.fail], ?_⟩
    cases arrived <;>
      simp [Lts.exec, Delivery.Channel.step, channel, fail, hphase, List.filterMap_cons]
  | crash body tries arrived error hphase =>
    refine ⟨[.fail, .abandon], ?_⟩
    cases arrived <;>
      simp [Lts.exec, Delivery.Channel.step, channel, fail, giveUp, hphase, List.filterMap_cons]
  | get ok hphase =>
    refine ⟨[], ?_⟩
    cases ok <;> simp [Lts.exec, channel, hphase]
  | lateServe i k body hi =>
    refine ⟨[.late i], ?_⟩
    simp [Lts.exec, Delivery.Channel.step, channel, hi, List.filterMap_cons, List.eraseIdx_map]

end Agent

end Channel

section Reports

/-- What becomes of a task list: the scripts are run in order, up to the first one that fails. -/
inductive Results : List Task → List Task → Prop
  | nil : Results [] []
  | stdout {tasks out : List Task} (task : Task) (result : String) (h : Results tasks out) :
    Results (task :: tasks) ({ task with stdout := some result } :: out)
  | error {tasks : List Task} (task : Task) (error : String) :
    Results (task :: tasks) ({ task with error := some error } :: tasks)

def Note.fails : Note → Option Nat
  | .failed k => some k
  | _ => none

def posts (log : List Note) (k : Nat) : Nat := (log.filterMap Note.posts).count k

def failures (log : List Note) (k : Nat) : Nat := (log.filterMap Note.fails).count k

/-- A report has reached the server or has been given up. -/
def Settled (k : Nat) (log : List Note) : Prop :=
  (∃ body, .respond k body ∈ log) ∨ ∃ crashed, .gaveUp k crashed ∈ log

/-- The body is that of the report, or tells what went wrong with posting it. -/
def Reporting (mode : Mode) (k : Nat) (body : Body) (log : List Note) : Prop :=
  ∃ given b, .report k given b ∈ log ∧ (body = b ∨ mode = .requests ∧ ∃ error, body = .error error)

def limit : Mode → Nat
  | .urllib2 => tryCount
  | .requests => 2

/-- A list that tells the agent to exit is not reported. -/
def Faithful (given : TaskData) : Body → Prop
  | .task_data task_data => Results given.tasks task_data.tasks ∧ task_data.exit = none ∧ given.exit = none
  | .error _ => ∀ code, given.exit ≠ some (some code)

/-- What is reported of a list, by what has been raised when the request was created. -/
def Agent.body (task_data : TaskData) : Option String → Body
  | none => .task_data task_data
  | some error => .error error

/-- What a step may have posted: a new report is of the list itself unless something was
raised, and a failed post is followed by one of the same, or, with `requests`, of what it
has raised in place of the list. -/
structure Reported (mode : Mode) (s : Agent) (a : Action) (t : Agent) : Prop where
  reports : ∀ k given body, .report k given body ∈ t.log → .report k given body ∈ s.log ∨
    ∃ task_data error, s.phase = .create given task_data ∧ a = .create error ∧ body = Agent.body task_data error
  sent : ∀ k body, .post k body ∈ t.log → .post k body ∈ s.log ∨ ∃ tries, s.phase = .post body tries
  posts : ∀ body tries, t.phase = .post body tries → s.phase = .post body tries ∨
    (∃ given task_data error, s.phase = .create given task_data ∧ a = .create error ∧
      body = Agent.body task_data error) ∨
    ∃ body' tries' arrived, s.phase = .waiting body' tries' arrived ∧ (body' = body ∨
      mode = .requests ∧ (∃ task_data, body' = .task_data task_data) ∧ ∃ error, a = .otherError error ∧
        body = .error error)

/-- What a note may rely on among the earlier ones. -/
def Told (mode : Mode) : Note → List Note → Prop
  | .download _, earlier => ∀ k given body, .report k given body ∈ earlier → Settled k earlier
  | .report k given body, earlier =>
    .download given ∈ earlier ∧ (∀ j < k, Settled j earlier) ∧ (∀ g b, .report k g b ∉ earlier) ∧
      Faithful given body
  | .post k body, earlier => Reporting mode k body earlier ∧ posts earlier k < limit mode
  | .respond k body, earlier => .post k body ∈ earlier ∧ ∀ j < k, Settled j earlier
  | .answered k, earlier => ∃ body, .respond k body ∈ earlier
  | .failed k, earlier => failures earlier k < posts earlier k
  | .gaveUp k crashed, earlier => crashed = false → failures earlier k = tryCount

/-- The bodies and numbers of tries that the loop of the posts can have. -/
def Tried (body : Body) (tries : Nat) : Mode → Prop
  | .urllib2 => tries < tryCount
  | .requests =>
    match body with
    | .task_data _ => tries = 0
    | .error _ => tries ≤ 1

/-- What is known of the list that the agent works on. -/
def Phase.Working (mode : Mode) (k : Nat) (log : List Note) : Phase → Prop
  | .execute given done rest =>
    .download given ∈ log ∧ ∀ out, Results rest out → Results given.tasks (done ++ out)
  | .create given task_data =>
    .download given ∈ log ∧ Results given.tasks task_data.tasks ∧ task_data.exit = given.exit
  | .post body tries =>
    Reporting mode k body log ∧ Tried body tries mode ∧ posts log k = tries ∧ failures log k = tries
  | .waiting body tries arrived =>
    Reporting mode k body log ∧ Tried body tries mode ∧ posts log k = tries + 1 ∧ failures log k = tries ∧
      .post k body ∈ log ∧ (arrived = true → .respond k body ∈ log)
  | _ => True

structure Agent.Inv (mode : Mode) (s : Agent) : Prop where
  chronicle : History.Chronicle (Told mode) s.log
  channel : s.channel.Inv
  working : s.phase.Working mode s.count s.log
  reports : ∀ k given body, .report k given body ∈ s.log → s.channel.Known k
  stray : ∀ x ∈ s.stray, .post x.1 x.2 ∈ s.log
  later : ∀ k, ¬ s.channel.Known k → posts s.log k = 0 ∧ failures s.log k = 0

variable {mode : Mode} {s t : Agent} {log : List Note} {x : Note} {k : Nat}

theorem posts_cons (h : x.posts = none) (k : Nat) : posts (x :: log) k = posts log k := by
  rw [posts, List.filterMap_cons_none h, posts]

theorem failures_cons (h : x.fails = none) (k : Nat) : failures (x :: log) k = failures log k := by
  rw [failures, List.filterMap_cons_none h, failures]

theorem posts_post (body : Body) (j : Nat) :
    posts (.post k body :: log) j = posts log j + if k = j then 1 else 0 := by
  have hk : Note.posts (.post k body) = some k := rfl
  rw [posts, List.filterMap_cons_some hk, List.count_cons, posts]
  simp

theorem failures_failed (j : Nat) : failures (.failed k :: log) j = failures log j + if k = j then 1 else 0 := by
  have hk : Note.fails (.failed k) = some k := rfl
  rw [failures, List.filterMap_cons_some hk, List.count_cons, failures]
  simp

theorem mem_responds : k ∈ log.filterMap Note.responds ↔ ∃ body, .respond k body ∈ log := by
  rw [List.mem_filterMap]
  constructor
  · rintro ⟨x, hx, hk⟩
    cases x with
    | respond j body =>
      cases hk
      exact ⟨body, hx⟩
    | _ => cases hk
  · rintro ⟨body, hbody⟩
    exact ⟨_, hbody, rfl⟩

theorem mem_givesUp : k ∈ log.filterMap Note.givesUp ↔ ∃ crashed, .gaveUp k crashed ∈ log := by
  rw [List.mem_filterMap]
  constructor
  · rintro ⟨x, hx, hk⟩
    cases x with
    | gaveUp j crashed =>
      cases hk
      exact ⟨crashed, hx⟩
    | _ => cases hk
  · rintro ⟨crashed, hcrashed⟩
    exact ⟨_, hcrashed, rfl⟩

theorem Agent.Inv.settled (h : s.Inv mode) {j : Nat} (hj : j < s.count) : Settled j s.log :=
  (h.channel.settled j hj).imp mem_responds.mp mem_givesUp.mp

theorem Reporting.cons {body : Body} (h : Reporting mode k body log) (x : Note) :
    Reporting mode k body (x :: log) := by
  obtain ⟨given, b, hmem, hbody⟩ := h
  exact ⟨given, b, List.mem_cons_of_mem _ hmem, hbody⟩

theorem Tried.lt {body : Body} {tries : Nat} (h : Tried body tries mode) : tries < limit mode := by
  cases mode with
  | urllib2 => exact h
  | requests =>
    change tries < 2
    cases body with
    | task_data d =>
      have hzero : tries = 0 := h
      omega
    | error e => exact Nat.lt_succ_of_le h

/-- Notes of other kinds change nothing of what is known. -/
theorem Phase.Working.cons {phase : Phase} (h : phase.Working mode k log) (hposts : x.posts = none)
    (hfails : x.fails = none) : phase.Working mode k (x :: log) := by
  cases phase with
  | execute given done rest => exact ⟨List.mem_cons_of_mem _ h.1, h.2⟩
  | create given task_data => exact ⟨List.mem_cons_of_mem _ h.1, h.2⟩
  | post body tries =>
    obtain ⟨hreporting, htried, hp, hf⟩ := h
    exact ⟨hreporting.cons x, htried, (posts_cons hposts k).trans hp, (failures_cons hfails k).trans hf⟩
  | waiting body tries arrived =>
    obtain ⟨hreporting, htried, hp, hf, hpost, harrived⟩ := h
    exact ⟨hreporting.cons x, htried, (posts_cons hposts k).trans hp, (failures_cons hfails k).trans hf,
      List.mem_cons_of_mem _ hpost, fun ha => List.mem_cons_of_mem _ (harrived ha)⟩
  | _ => trivial

namespace Agent

theorem start_inv : start.Inv mode where
  chronicle := trivial
  channel := Delivery.Channel.empty_inv
  working := trivial
  reports := nofun
  stray := nofun
  later := fun _ _ => ⟨rfl, rfl⟩

theorem Inv.idle_lt (h : s.Inv mode) (hidle : s.phase.busy = false) {given : TaskData} {body : Body}
    (hk : .report k given body ∈ s.log) : k < s.count := by
  rcases h.reports k given body hk with hlt | ⟨-, hbusy⟩
  · exact hlt
  · exact absurd (hidle.symm.trans hbusy) Bool.false_ne_true

/-- The reports stay as they are. -/
theorem Inv.silent (h : s.Inv mode) (hchannel : t.channel = s.channel) (hlog : t.log = s.log)
    (hstray : t.stray = s.stray) (hworking : t.phase.Working mode t.count t.log) : t.Inv mode where
  chronicle := hlog ▸ h.chronicle
  channel := hchannel ▸ h.channel
  working := hworking
  reports := by
    rw [hlog, hchannel]
    exact h.reports
  stray := by
    rw [hlog, hstray]
    exact h.stray
  later := by
    rw [hlog, hchannel]
    exact h.later

/-- A note that is neither a report nor a post nor a failure. -/
theorem Inv.note (h : s.Inv mode) {x : Note} (htold : Told mode x s.log) (hchannel : t.channel.Inv)
    (hlog : t.log = x :: s.log) (hworking : t.phase.Working mode t.count t.log)
    (hreport : ∀ k given body, x ≠ .report k given body) (hposts : x.posts = none) (hfails : x.fails = none)
    (hknown : ∀ k, s.channel.Known k → t.channel.Known k) (hstray : ∀ x ∈ t.stray, x ∈ s.stray) : t.Inv mode where
  chronicle := by
    rw [hlog]
    exact ⟨htold, h.chronicle⟩
  channel := hchannel
  working := hworking
  reports := by
    intro k given body hk
    rw [hlog] at hk
    rcases List.mem_cons.mp hk with hk | hk
    · exact absurd hk.symm (hreport k given body)
    · exact hknown k (h.reports k given body hk)
  stray := by
    intro y hy
    rw [hlog]
    exact List.mem_cons_of_mem _ (h.stray y (hstray y hy))
  later := by
    intro k hk
    rw [hlog, posts_cons hposts, failures_cons hfails]
    exact h.later k fun hs => hk (hknown k hs)

theorem Inv.settled_of_known (h : s.Inv mode) (hk : s.channel.Known k) : ∀ j < k, Settled j s.log := fun j hj =>
  (h.channel.settled_of_known hk j hj).imp mem_responds.mp mem_givesUp.mp

theorem known_of_post (h : s.Inv mode) {body : Body} (hpost : .post k body ∈ s.log) : s.channel.Known k :=
  h.channel.known k (List.mem_filterMap.mpr ⟨_, hpost, rfl⟩)

theorem Inv.report (h : s.Inv mode) {given task_data : TaskData} {body : Body}
    (hphase : s.phase = .create given task_data) (hchannel : (s.report given body).channel.Inv)
    (hbody : Faithful given body) : (s.report given body).Inv mode := by
  have hidle : s.phase.busy = false := by rw [hphase]; rfl
  have hworking := h.working
  rw [hphase] at hworking
  have hnone : ¬ s.channel.Known s.count := by
    rintro (hlt | ⟨-, hbusy⟩)
    · exact Nat.lt_irrefl _ hlt
    · exact absurd (hidle.symm.trans hbusy) Bool.false_ne_true
  have hmore {j : Nat} (hj : s.channel.Known j) : (s.report given body).channel.Known j := by
    rcases hj with hlt | ⟨rfl, -⟩
    · exact .inl hlt
    · exact .inr ⟨rfl, rfl⟩
  refine ⟨⟨⟨hworking.1, fun j hj => h.settled hj, fun g b hk => ?_, hbody⟩, h.chronicle⟩, hchannel, ?_, ?_, ?_,
    ?_⟩
  · exact Nat.lt_irrefl _ (h.idle_lt hidle hk)
  · obtain ⟨hp, hf⟩ := h.later _ hnone
    refine ⟨⟨given, body, List.mem_cons_self, .inl rfl⟩, ?_, (posts_cons rfl _).trans hp,
      (failures_cons rfl _).trans hf⟩
    cases mode with
    | urllib2 => exact Nat.zero_lt_succ 2
    | requests => cases body <;> simp [Tried]
  · intro k g b hk
    rcases List.mem_cons.mp hk with hk | hk
    · cases hk
      exact .inr ⟨rfl, rfl⟩
    · exact hmore (h.reports k g b hk)
  · exact fun x hx => List.mem_cons_of_mem _ (h.stray x hx)
  · intro k hk
    obtain ⟨hp, hf⟩ := h.later k fun hs => hk (hmore hs)
    exact ⟨(posts_cons rfl k).trans hp, (failures_cons rfl k).trans hf⟩

theorem Inv.send (h : s.Inv mode) {body : Body} {tries : Nat} (hphase : s.phase = .post body tries)
    (hchannel : Delivery.Channel.Inv (Agent.channel
      { s with phase := .waiting body tries false, log := .post s.count body :: s.log })) :
    Inv mode { s with phase := .waiting body tries false, log := .post s.count body :: s.log } := by
  have hworking := h.working
  rw [hphase] at hworking
  obtain ⟨hreporting, htried, hp, hf⟩ := hworking
  have hbusy : s.phase.busy = true := by rw [hphase]; rfl
  refine ⟨⟨⟨hreporting, hp ▸ htried.lt⟩, h.chronicle⟩, hchannel, ?_, ?_, ?_, ?_⟩
  · refine ⟨hreporting.cons _, htried, ?_, (failures_cons rfl _).trans hf, List.mem_cons_self, nofun⟩
    rw [posts_post, hp, if_pos rfl]
  · intro k g b hk
    rcases List.mem_cons.mp hk with hk | hk
    · cases hk
    · exact (h.reports k g b hk).imp_right fun hs => ⟨hs.1, rfl⟩
  · exact fun x hx => List.mem_cons_of_mem _ (h.stray x hx)
  · intro k hk
    have hne : s.count ≠ k := fun heq => hk (.inr ⟨heq.symm, rfl⟩)
    obtain ⟨hp, hf⟩ := h.later k fun hs => hk (hs.imp_right fun hs => ⟨hs.1, rfl⟩)
    rw [posts_post, if_neg hne, failures_cons rfl]
    exact ⟨hp, hf⟩

/-- A post has failed, and another one is to be made of the same report. -/
theorem Inv.again (h : s.Inv mode) {body body' : Body} {tries : Nat} {arrived : Bool}
    (hphase : s.phase = .waiting body tries arrived)
    (hchannel :
      Delivery.Channel.Inv (Agent.channel { s.fail body arrived with phase := .post body' (tries + 1) }))
    (hbody : Reporting mode s.count body' s.log) (htried : Tried body' (tries + 1) mode) :
    Inv mode { s.fail body arrived with phase := .post body' (tries + 1) } := by
  have hworking := h.working
  rw [hphase] at hworking
  obtain ⟨hreporting, -, hp, hf, hpost, -⟩ := hworking
  refine ⟨⟨?_, h.chronicle⟩, hchannel, ?_, ?_, ?_, ?_⟩
  · change failures s.log s.count < posts s.log s.count
    omega
  · refine ⟨hbody.cons _, htried, (posts_cons rfl _).trans hp, ?_⟩
    change failures (.failed s.count :: s.log) s.count = tries + 1
    rw [failures_failed, hf, if_pos rfl]
  · intro k g b hk
    rcases List.mem_cons.mp hk with hk | hk
    · cases hk
    · exact (h.reports k g b hk).imp_right fun hs => ⟨hs.1, rfl⟩
  · intro x hx
    apply List.mem_cons_of_mem
    cases arrived with
    | true => exact h.stray x hx
    | false =>
      rcases List.mem_cons.mp hx with rfl | hx
      · exact hpost
      · exact h.stray x hx
  · intro k hk
    have hne : s.count ≠ k := fun heq => hk (.inr ⟨heq.symm, rfl⟩)
    obtain ⟨hp, hf⟩ := h.later k fun hs => hk (hs.imp_right fun hs => ⟨hs.1, rfl⟩)
    change posts (.failed s.count :: s.log) k = 0 ∧ failures (.failed s.count :: s.log) k = 0
    rw [posts_cons rfl, failures_failed, if_neg hne]
    exact ⟨hp, hf⟩

theorem Inv.giveUp (h : s.Inv mode) {body : Body} {tries : Nat} {arrived crashed : Bool} {phase : Phase}
    (hphase : s.phase = .waiting body tries arrived) (hrest : phase = .download_task_data ∨ phase = .crashed)
    (hchannel : ((s.fail body arrived).giveUp phase crashed).channel.Inv)
    (htries : crashed = false → tries + 1 = tryCount) :
    ((s.fail body arrived).giveUp phase crashed).Inv mode := by
  have hworking := h.working
  rw [hphase] at hworking
  obtain ⟨hreporting, -, hp, hf, hpost, -⟩ := hworking
  have hquiet : phase.busy = false := by rcases hrest with rfl | rfl <;> rfl
  have hmore {j : Nat} (hj : s.channel.Known j) :
      ((s.fail body arrived).giveUp phase crashed).channel.Known j := by
    rcases hj with hlt | ⟨rfl, -⟩
    · exact .inl (Nat.lt_succ_of_lt hlt)
    · exact .inl (Nat.lt_succ_self s.count)
  refine ⟨⟨?_, ?_, h.chronicle⟩, hchannel, ?_, ?_, ?_, ?_⟩
  · intro hcrashed
    change failures (.failed s.count :: s.log) s.count = tryCount
    rw [failures_failed, hf, if_pos rfl, htries hcrashed]
  · change failures s.log s.count < posts s.log s.count
    omega
  · rcases hrest with rfl | rfl <;> exact trivial
  · intro k g b hk
    rcases List.mem_cons.mp hk with hk | hk
    · cases hk
    · rcases List.mem_cons.mp hk with hk | hk
      · cases hk
      · exact hmore (h.reports k g b hk)
  · intro x hx
    apply List.mem_cons_of_mem
    apply List.mem_cons_of_mem
    cases arrived with
    | true => exact h.stray x hx
    | false =>
      rcases List.mem_cons.mp hx with rfl | hx
      · exact hpost
      · exact h.stray x hx
  · intro k hk
    have hne : s.count ≠ k := fun heq => hk (.inl (heq ▸ Nat.lt_succ_self s.count))
    obtain ⟨hp, hf⟩ := h.later k fun hs => hk (hmore hs)
    change posts (.gaveUp s.count crashed :: .failed s.count :: s.log) k = 0 ∧
      failures (.gaveUp s.count crashed :: .failed s.count :: s.log) k = 0
    rw [posts_cons rfl, posts_cons rfl, failures_cons rfl, failures_failed, if_neg hne]
    exact ⟨hp, hf⟩

theorem Inv.download (h : s.Inv mode) (given : TaskData) (hphase : s.phase = .download_task_data)
    (hchannel : ({ s with log := .download given :: s.log }.loop given [] given.tasks).channel.Inv) :
    ({ s with log := .download given :: s.log }.loop given [] given.tasks).Inv mode := by
  have hidle : s.phase.busy = false := by rw [hphase]; rfl
  have htold : Told mode (.download given) s.log := by
    intro k g b hk
    exact h.settled (h.idle_lt hidle hk)
  have hmore {j : Nat} {t : Agent} (ht : t.count = s.count) (hj : s.channel.Known j) : t.channel.Known j := by
    rcases hj with hlt | ⟨-, hbusy⟩
    · exact .inl (Nat.lt_of_lt_of_eq hlt ht.symm)
    · exact absurd (hidle.symm.trans hbusy) Bool.false_ne_true
  cases htasks : given.tasks with
  | nil =>
    rw [htasks] at hchannel
    refine h.note htold hchannel rfl ⟨List.mem_cons_self, ?_, rfl⟩ nofun rfl rfl (fun k => hmore rfl) fun x hx =>
      hx
    rw [htasks]
    exact .nil
  | cons task rest =>
    rw [htasks] at hchannel
    refine h.note htold hchannel rfl ⟨List.mem_cons_self, fun out hout => ?_⟩ nofun rfl rfl (fun k => hmore rfl)
      fun x hx => hx
    rw [htasks]
    exact hout

theorem Inv.run (h : s.Inv mode) {given : TaskData} {done : List Task} {task : Task} {rest : List Task}
    (hphase : s.phase = .execute given done (task :: rest)) (outcome : Outcome) :
    (s.run given done task rest outcome).Inv mode := by
  have hworking := h.working
  rw [hphase] at hworking
  obtain ⟨hdownload, hresults⟩ := hworking
  cases outcome with
  | stdout result =>
    have hnext {out : List Task} (hout : Results rest out) :
        Results given.tasks (done ++ [{ task with stdout := some result }] ++ out) := by
      rw [List.append_assoc]
      exact hresults _ (.stdout task result hout)
    cases rest with
    | nil =>
      refine h.silent (by simp [Agent.run, loop, Agent.channel, hphase]) rfl rfl ⟨hdownload, ?_, rfl⟩
      simpa using hnext .nil
    | cons task' rest =>
      exact h.silent (by simp [Agent.run, loop, Agent.channel, hphase]) rfl rfl ⟨hdownload, fun out => hnext⟩
  | error error =>
    refine h.silent (by simp [Agent.run, Agent.channel, hphase]) rfl rfl ⟨hdownload, ?_, rfl⟩
    exact hresults _ (.error task error)
  | exit code => exact h.silent (by simp [Agent.run, Agent.channel, hphase]) rfl rfl trivial

theorem step_inv {a : Action} (h : s.step mode a = some t) (hs : s.Inv mode) : t.Inv mode := by
  obtain ⟨ms, hms⟩ := channel_moves h
  have hchannel := Delivery.Channel.exec_inv hs.channel hms
  have hworking := hs.working
  cases moved_of_step h with
  | retry hphase => exact hs
  | noTasks hphase => exact hs.silent (by simp [channel, hphase]) rfl rfl trivial
  | download given hphase => exact hs.download given hphase hchannel
  | run given done task rest outcome hphase => exact hs.run hphase outcome
  | exit given task_data code error hphase hexit => exact hs.silent (by simp [channel, hphase]) rfl rfl trivial
  | problem given task_data error hphase hexit =>
    rw [hphase] at hworking
    exact hs.report hphase hchannel fun code hcode => hexit code (hworking.2.2.trans hcode)
  | report given task_data hphase hexit =>
    rw [hphase] at hworking
    exact hs.report hphase hchannel ⟨hworking.2.1, hexit, hworking.2.2.symm.trans hexit⟩
  | send body tries hphase => exact hs.send hphase hchannel
  | serve body tries hphase =>
    rw [hphase] at hworking
    obtain ⟨hreporting, htried, hp, hf, hpost, -⟩ := hworking
    have htold : Told mode (.respond s.count body) s.log := ⟨hpost, hs.settled_of_known (known_of_post hs hpost)⟩
    refine hs.note htold hchannel rfl ?_ nofun rfl rfl ?_ fun x hx => hx
    · exact ⟨hreporting.cons _, htried, (posts_cons rfl _).trans hp, (failures_cons rfl _).trans hf,
        List.mem_cons_of_mem _ hpost, fun _ => List.mem_cons_self⟩
    · exact fun k hk => hk.imp_right fun hk => ⟨hk.1, rfl⟩
  | answer body tries hphase =>
    rw [hphase] at hworking
    obtain ⟨-, -, -, -, -, harrived⟩ := hworking
    have htold : Told mode (.answered s.count) s.log := ⟨body, harrived rfl⟩
    refine hs.note htold hchannel rfl ?_ nofun rfl rfl ?_ fun x hx => hx
    · cases mode <;> exact trivial
    · rintro k (hlt | ⟨rfl, -⟩)
      · exact .inl (Nat.lt_succ_of_lt hlt)
      · exact .inl (Nat.lt_succ_self s.count)
  | again body tries arrived hmode hphase hlt =>
    rw [hphase] at hworking
    subst hmode
    exact hs.again hphase hchannel hworking.1 hlt
  | giveUp body tries arrived hmode hphase hle =>
    rw [hphase] at hworking
    subst hmode
    have hlt : tries < tryCount := hworking.2.1
    exact hs.giveUp hphase (.inl rfl) hchannel fun _ => Nat.le_antisymm hlt hle
  | instead task_data tries arrived error hmode hphase =>
    rw [hphase] at hworking
    subst hmode
    obtain ⟨⟨given, b, hreport, -⟩, hzero, -⟩ := hworking
    have hzero : tries = 0 := hzero
    exact hs.again hphase hchannel ⟨given, b, hreport, .inr ⟨rfl, error, rfl⟩⟩
      (Nat.le_of_eq (congrArg (· + 1) hzero))
  | crash body tries arrived error hphase => exact hs.giveUp hphase (.inr rfl) hchannel nofun
  | get ok hphase =>
    refine hs.silent ?_ rfl rfl ?_
    · cases ok <;> simp [channel, hphase]
    · cases ok <;> exact trivial
  | lateServe i k body hi =>
    have hpost := hs.stray _ (List.mem_of_getElem? hi)
    have htold : Told mode (.respond k body) s.log := ⟨hpost, hs.settled_of_known (known_of_post hs hpost)⟩
    refine hs.note htold hchannel rfl (hworking.cons rfl rfl) nofun rfl rfl ?_ ?_
    · exact fun k hk => hk
    · exact fun x hx => List.mem_of_mem_eraseIdx hx

end Agent

namespace Agent

end Agent

/-- A step that logs neither a report nor a post. -/
theorem Reported.silent {a : Action} (hreports : ∀ k given body, .report k given body ∈ t.log →
    .report k given body ∈ s.log) (hsent : ∀ k body, .post k body ∈ t.log → .post k body ∈ s.log)
    (hposts : ∀ body tries, t.phase = .post body tries → s.phase = .post body tries ∨
      ∃ tries' arrived, s.phase = .waiting body tries' arrived) : Reported mode s a t where
  reports := fun k given body hk => .inl (hreports k given body hk)
  sent := fun k body hk => .inl (hsent k body hk)
  posts := by
    intro body tries hpost
    rcases hposts body tries hpost with hsame | ⟨tries', arrived, hwaiting⟩
    · exact .inl hsame
    · exact .inr (.inr ⟨body, tries', arrived, hwaiting, .inl rfl⟩)

theorem Reported.create {given task_data : TaskData} {error : Option String}
    (hphase : s.phase = .create given task_data) :
    Reported mode s (.create error) (s.report given (Agent.body task_data error)) where
  reports := by
    intro k g b hk
    rcases List.mem_cons.mp hk with heq | hk
    · cases heq
      exact .inr ⟨task_data, error, hphase, rfl, rfl⟩
    · exact .inl hk
  sent := by
    intro k b hk
    exact .inl (by simpa [Agent.report] using hk)
  posts := by
    intro b tries hpost
    cases hpost
    exact .inr (.inl ⟨given, task_data, error, hphase, rfl, rfl⟩)

namespace Agent

end Agent

end Reports

end OnTaskGraph.SwitchAgent
