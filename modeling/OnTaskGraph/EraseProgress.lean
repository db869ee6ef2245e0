import OnTaskGraph.Doubles
import OnTaskGraph.HdparmStatus
import OnTaskGraph.Lts

/-! `Progress` of the secure erase script: the percentages that are read from the logs, and
from the outputs of `ps` and `sg_requests`, at each poll of its loop. -/

namespace OnTaskGraph.EraseProgress

open Doubles
open HdparmStatus (space)
open JsText (Text digitValue)

inductive Tool
  | hdparm
  | scrub
  | sg_format
  | sg_sanitize
  deriving DecidableEq

/-! The texts that are parsed: each pattern is followed from its beginning, and what it
repeats is never the beginning of what follows it. -/

def strip (line : Text) : Text := (line.dropWhile space).rdropWhile space

/-- `\w` -/
def wordCharacter (c : Char) : Bool := c.isAlphanum || c = '_'

/-- What is left behind the given characters. -/
def literally (w : String) (s : Text) : Option Text := if w.toList <+: s then some (s.drop w.length) else none

/-- The same for lower case, with `re.I`. -/
def ignoringCase (w : String) (s : Text) : Option Text :=
  if (s.take w.length).map Char.toLower = w.toList then some (s.drop w.length) else none

/-- `\d{1,n}`, which no digit may follow. -/
def digits (n : Nat) (s : Text) : Option (Nat × Nat × Text) :=
  let found := s.takeWhile Char.isDigit
  if 1 ≤ found.length ∧ found.length ≤ n then
    some (found.foldl (fun n c => 10 * n + digitValue c) 0, found.length, s.drop found.length)
  else none

def anyCharacter : Text → Option Text
  | [] => none
  | c :: s => if c = '\n' then none else some s

/-- What is left behind `^scrub: \w{4,6}\s*\|`. -/
def passLine (line : Text) : Option Text := do
  let s ← literally "scrub: " line
  let name := s.takeWhile wordCharacter
  if 4 ≤ name.length ∧ name.length ≤ 6 then literally "|" ((s.dropWhile wordCharacter).dropWhile space) else none

def patterna (line : Text) : Bool :=
  (passLine line).any fun s => s.takeWhile (· = '.') ≠ [] ∧ s.dropWhile (· = '.') = ['|']

def patternb (line : Text) : Bool := (passLine line).any fun s => s.all (· = '.')

def MAX_DOT_COUNT : Nat := 50

/-- The loop over the lines, with `line_count` and `dot_count`. -/
def countLine (count : Nat × Nat) (line : Text) : Nat × Nat :=
  let line := strip line
  if patterna line then (count.1 + 1, count.2)
  else if patternb line then (count.1, ((line.splitOn '|').getD 1 []).length)
  else count

/-- The dots of a log: those of the finished passes, and of the last line of an unfinished one. -/
def dots (log : Text) : Nat :=
  let count := (log.splitOn '\n').foldl countLine (0, 0)
  count.1 * MAX_DOT_COUNT + count.2

def orDefault (option : Option String) (default : String) : String :=
  match option with
  | none | some "" => default
  | some option => option

def pass_count (option : Option String) : Nat :=
  match orDefault option "nnsa" with
  | "nnsa" | "dod" => 4
  | "gutmann" => 35
  | "schneier" | "pfitzner7" => 7
  | "pfitzner33" => 33
  | "usarmy" => 3
  | "random2" => 2
  | "old" => 6
  | "fastold" => 5
  | _ => 1

def scrubParser (option : Option String) (log : Text) : ℚ :=
  double (double (100 * double (dots log)) / (pass_count option * MAX_DOT_COUNT : ℕ))

/-- The minutes for both kinds of erase, in a line of `hdparm -I`. -/
def durations (line : Text) : Option (Nat × Nat) := do
  let (security, _, s) ← digits 4 line
  let s ← ignoringCase "min for security erase unit" (s.dropWhile space)
  let s ← anyCharacter s
  let (enhanced, _, s) ← digits 4 (s.dropWhile space)
  let s ← ignoringCase "min for enhanced security erase unit" (s.dropWhile space)
  let _ ← anyCharacter s
  return (security, enhanced)

def get_hdparm_duration (option : Option String) (log : Text) : Nat :=
  (log.splitOn '\n').foldl (fun estimated_time line =>
    match durations (strip line) with
    | none => estimated_time
    | some (security, enhanced) =>
      if orDefault option "security-erase" = "security-erase" then security else enhanced) 0

def interval : Nat := 60

def increment (duration : Nat) : ℚ := double (double (100 * interval) / double (duration * 60))

/-- `Progress indication:\s+(\d{1,3}\.\d{1,3})\% done` -/
def indication (output : Text) : Option ℚ := do
  let s ← literally "Progress indication:" output
  if s.takeWhile space = [] then none
  else
    let (whole, _, s) ← digits 3 (s.dropWhile space)
    let s ← literally "." s
    let (fraction, places, s) ← digits 3 s
    let _ ← literally "% done" s
    return double (whole + fraction / 10 ^ places)

def sgRequestsParser (percent : ℚ) (progress_output : Text) : ℚ :=
  if progress_output ≠ [] then (indication progress_output).getD 0
  else if percent > 0 then percent
  else 0

structure Observation where
  logExists : Bool
  log : Text
  ps : Text
  /-- The outputs of the two attempts, if they succeed. -/
  sg_requests : Option Text × Option Text

def Observation.progress_output (o : Observation) : Text := o.sg_requests.1.getD (o.sg_requests.2.getD [])

/-- The fields that all disks share. A duration that is not known is 0. -/
structure Shared where
  percent : ℚ
  duration : Text → Nat

/-- A disk of the list, by the last part of its name, with its elements of
`percentage_list` and `erase_start_flags`: a poll has found its log. -/
structure Disk where
  name : Text
  percentage : ℚ
  started : Bool
  /-- The log that was parsed last. -/
  read : Option Text
  /-- What `sg_requests` printed last when it was parsed. -/
  printed : Option Text
  /-- Later polls have found no process of it, be it before the process runs or after. -/
  ended : Bool

def Disk.lastPrinted (d : Disk) (o : Observation) : Option Text :=
  if o.progress_output = [] then d.printed else some o.progress_output

/-- The percentage in what was printed last. -/
def Disk.indicated (d : Disk) : ℚ := (d.printed.bind indication).getD 0

/-- The duration that is kept for a drive, or else read from the log. -/
def currentDuration (option : Option String) (self : Shared) (drive : Text) (log : Text) : Nat :=
  if self.duration drive = 0 then get_hdparm_duration option log else self.duration drive

def hdparmParser (option : Option String) (self : Shared) (drive : Text) (log : Text) : Shared × ℚ :=
  let duration := currentDuration option self drive log
  let percent := double (self.percent + increment duration)
  ({ self with duration := Function.update self.duration drive duration },
    if duration = 0 then 0 else if percent > 99 then 99 else percent)

def parser_mapper (tool : Tool) (option : Option String) (self : Shared) (drive : Text) (o : Observation) :
    Shared × ℚ :=
  match tool with
  | .hdparm => hdparmParser option self drive o.log
  | .scrub => (self, scrubParser option o.log)
  | .sg_format | .sg_sanitize => (self, sgRequestsParser self.percent o.progress_output)

def pollDisk (tool : Tool) (option : Option String) (self : Shared) (d : Disk) (o : Observation) :
    Shared × Disk :=
  if d.started then
    if o.ps = [] then (self, { d with percentage := 100, ended := true })
    else
      let r := parser_mapper tool option { self with percent := d.percentage } d.name o
      (r.1, { d with percentage := r.2, read := some o.log, printed := d.lastPrinted o })
  else (self, { d with started := o.logExists })

def pollDisks (tool : Tool) (option : Option String) : Shared → List Disk → List Observation → Shared × List Disk
  | self, d :: ds, o :: os =>
    let r := pollDisk tool option self d o
    let rest := pollDisks tool option r.1 ds os
    (rest.1, r.2 :: rest.2)
  | self, _, _ => (self, [])

def total_percent (ds : List Disk) : ℚ :=
  double (ds.foldl (fun sum d => double (sum + d.percentage)) 0 / (ds.length : ℕ))

structure Progress where
  self : Shared
  disks : List Disk
  finished : Bool

/-- A round of the loop; without disks the division fails. -/
def Progress.step (tool : Tool) (option : Option String) (s : Progress) (poll : List Observation) :
    Option Progress :=
  if s.finished = false ∧ s.disks ≠ [] ∧ poll.length = s.disks.length then
    let r := pollDisks tool option s.self s.disks poll
    some { self := r.1, disks := r.2, finished := total_percent r.2 = 100 }
  else none

def Progress.start (disk_list : List Text) : Progress where
  self := { percent := 0, duration := fun _ => 0 }
  disks := disk_list.map fun name =>
    { name, percentage := 0, started := false, read := none, printed := none, ended := false }
  finished := false

section Conditions

variable (tool : Tool) (option : Option String) (d : Disk) (o : Observation)

def Alive : Prop := d.started = true ∧ o.ps ≠ []

def EndedBy : Prop := d.ended = true ∨ d.started = true ∧ o.ps = []

/-- A log has at most the dots of all passes, and not fewer than when it was last read. -/
def SteadyLog : Prop :=
  dots o.log ≤ pass_count option * MAX_DOT_COUNT ∧ ∀ log ∈ d.read, dots log ≤ dots o.log

/-- What `sg_requests` prints says a percentage that is not below the one it said last, or
none as long as it has said none but 0. -/
def SteadyOutput : Prop :=
  o.progress_output ≠ [] →
    match indication o.progress_output with
    | some percentage => d.indicated ≤ percentage ∧ percentage ≤ 100
    | none => d.indicated = 0

/-- All is erased, by what is read while the process is still alive. -/
def Full : Prop :=
  Alive d o ∧
    match tool with
    | .hdparm => False
    | .scrub => pass_count option * MAX_DOT_COUNT ≤ dots o.log
    | .sg_format | .sg_sanitize =>
      if o.progress_output = [] then d.ended = true ∨ d.indicated = 100
      else indication o.progress_output = some 100

/-- What is read steadily grows, and is complete where no process had been seen. -/
def Steady : Prop :=
  Alive d o → (d.ended = true → Full tool option d o) ∧
    match tool with
    | .hdparm => True
    | .scrub => SteadyLog option d o
    | .sg_format | .sg_sanitize => SteadyOutput d o

/-- What is read grows steadily, and when everything seems to be erased no process is alive. -/
def Regular (s : Progress) (poll : List Observation) : Prop :=
  (∀ x ∈ s.disks.zip poll, Steady tool option x.1 x.2) ∧
    ((∀ x ∈ s.disks.zip poll, EndedBy x.1 x.2 ∨ Full tool option x.1 x.2) →
      ∀ x ∈ s.disks.zip poll, EndedBy x.1 x.2)

/-- A poll leaves percentages that have not fallen, and the loop only when every process
has been seen to have ended. -/
def Safe (s t : Progress) : Prop :=
  List.Forall₂
    (fun d d' => 0 ≤ d'.percentage ∧ d'.percentage ≤ 100 ∧ d.percentage ≤ d'.percentage) s.disks t.disks ∧
    (t.finished = true → ∀ d ∈ t.disks, d.ended = true)

end Conditions

section Percentages

theorem double_hundred : double 100 = 100 := by
  have h := double_natCast (n := 100) (by norm_num)
  exact_mod_cast h

/-- What is read of an erase that is not complete is at most this. -/
def below : ℚ := 100 - 1 / 1024

theorem double_partial {n : ℕ} (hn : n ≤ 2 ^ 36) (k : ℕ) (hk : k ≤ 1024) (hn' : 0 < n) :
    double (100 * n - k / 1024) = 100 * n - k / 1024 := by
  have hle : k ≤ 102400 * n := by omega
  have h := double_mul_zpow (k := 102400 * n - k) (e := -10) (by omega) (by norm_num)
  rw [Nat.cast_sub hle] at h
  push_cast at h
  have hvalue : ((102400 : ℚ) * n - k) * 2 ^ (-10 : ℤ) = 100 * n - k / 1024 := by
    norm_num
    ring
  rwa [hvalue] at h

theorem double_below : double below = below := by
  have h := double_partial (n := 1) (by norm_num) 1 (by norm_num) (by norm_num)
  norm_num at h
  rw [below]
  norm_num
  exact h

theorem below_lt : below < 100 := by
  norm_num [below]

theorem double_le_below {x : ℚ} (hx : 0 ≤ x) (h : x ≤ below) : double x ≤ below := by
  have hmono := double_mono hx h
  rwa [double_below] at hmono

/-- A percentage that is read for a disk that had `p` before; `full` tells when it is 100. -/
structure Reading (p q : ℚ) (full : Prop) : Prop where
  rounded : double q = q
  bound : q = 100 ∨ q ≤ below
  grows : p ≤ q
  full : q = 100 → full

theorem Reading.stays {p q : ℚ} {full : Prop} (h : Reading p q full) (hp : p = 100) : q = 100 := by
  rcases h.bound with hfull | hle
  · exact hfull
  · have hgrows := h.grows.trans hle
    rw [hp] at hgrows
    exact absurd hgrows (not_le.mpr below_lt)

theorem pass_count_le (option : Option String) : 1 ≤ pass_count option ∧ pass_count option ≤ 35 := by
  unfold pass_count
  split <;> omega

theorem scrubParser_eq {option : Option String} {log : Text} (h : dots log ≤ pass_count option * MAX_DOT_COUNT) :
    scrubParser option log = double (100 * dots log / (pass_count option * MAX_DOT_COUNT : ℕ)) := by
  have hpass := (pass_count_le option).2
  have hfew : dots log ≤ 1750 := h.trans (by rw [MAX_DOT_COUNT]; omega)
  have hcount : double (dots log) = dots log := double_natCast (by omega)
  have hproduct : double (100 * (dots log : ℚ)) = 100 * dots log := by
    have hcast := double_natCast (n := 100 * dots log) (by omega)
    push_cast at hcast
    exact hcast
  rw [scrubParser, hcount, hproduct]

theorem dotCount_pos (option : Option String) : (0 : ℚ) < (pass_count option * MAX_DOT_COUNT : ℕ) := by
  have hone := (pass_count_le option).1
  rw [MAX_DOT_COUNT]
  exact_mod_cast (by omega : 0 < pass_count option * 50)

theorem scrubParser_full {option : Option String} {log : Text}
    (h : dots log = pass_count option * MAX_DOT_COUNT) :
    scrubParser option log = 100 := by
  rw [scrubParser_eq h.le, h, mul_div_assoc, div_self (dotCount_pos option).ne', mul_one, double_hundred]

theorem scrubParser_bound {option : Option String} {log : Text}
    (h : dots log ≤ pass_count option * MAX_DOT_COUNT) :
    scrubParser option log = 100 ∧ pass_count option * MAX_DOT_COUNT ≤ dots log ∨
      scrubParser option log ≤ below := by
  have hpass := (pass_count_le option).2
  rcases h.eq_or_lt with heq | hlt
  · exact .inl ⟨scrubParser_full heq, heq.ge⟩
  · right
    have hle : 100 * (dots log : ℚ) / (pass_count option * MAX_DOT_COUNT : ℕ) ≤ below := by
      have hsucc : (dots log : ℚ) + 1 ≤ (pass_count option * MAX_DOT_COUNT : ℕ) := by exact_mod_cast hlt
      have hmany : ((pass_count option * MAX_DOT_COUNT : ℕ) : ℚ) ≤ 1750 := by
        rw [MAX_DOT_COUNT]
        exact_mod_cast (by omega : pass_count option * 50 ≤ 1750)
      rw [div_le_iff₀ (dotCount_pos option), below]
      linarith
    rw [scrubParser_eq h]
    exact double_le_below (div_nonneg (by positivity) (dotCount_pos option).le) hle

theorem scrubParser_mono {option : Option String} {log log' : Text} (h : dots log ≤ dots log') :
    scrubParser option log ≤ scrubParser option log' := by
  have hcount : double (dots log) ≤ double (dots log') := double_mono (Nat.cast_nonneg _) (by exact_mod_cast h)
  have hnonneg : 0 ≤ double (dots log : ℚ) := double_nonneg (Nat.cast_nonneg _)
  have hmul := mul_le_mul_of_nonneg_left hcount (by norm_num : (0 : ℚ) ≤ 100)
  have hproduct := double_mono (by linarith) hmul
  have hproduct' : 0 ≤ double (100 * double (dots log)) := double_nonneg (by linarith)
  exact double_mono (div_nonneg hproduct' (Nat.cast_nonneg _))
    (div_le_div_of_nonneg_right hproduct (Nat.cast_nonneg _))

theorem scrubParser_rounded (option : Option String) (log : Text) :
    double (scrubParser option log) = scrubParser option log ∧ 0 ≤ scrubParser option log := by
  have hcount : 0 ≤ double (dots log : ℚ) := double_nonneg (Nat.cast_nonneg _)
  have hproduct : 0 ≤ double (100 * double (dots log)) := double_nonneg (by linarith)
  have hquot : 0 ≤ double (100 * double (dots log)) / (pass_count option * MAX_DOT_COUNT : ℕ) :=
    div_nonneg hproduct (Nat.cast_nonneg _)
  exact ⟨double_double hquot, double_nonneg hquot⟩

theorem scrub_reading {option : Option String} {d : Disk} {o : Observation} (h : SteadyLog option d o)
    (hread : d.percentage = d.read.elim 0 (scrubParser option)) :
    Reading d.percentage (scrubParser option o.log) (pass_count option * MAX_DOT_COUNT ≤ dots o.log) where
  rounded := (scrubParser_rounded option o.log).1
  bound := (scrubParser_bound h.1).imp_left And.left
  grows := by
    rw [hread]
    cases hlog : d.read with
    | none => exact (scrubParser_rounded option o.log).2
    | some log => exact scrubParser_mono (h.2 log hlog)
  full := by
    intro hfull
    rcases scrubParser_bound h.1 with ⟨_, hdots⟩ | hle
    · exact hdots
    · exact absurd (hfull ▸ hle) (not_le.mpr below_lt)

theorem increment_nonneg (duration : Nat) : 0 ≤ increment duration := by
  have hinterval : 0 ≤ double (100 * (interval : ℚ)) := double_nonneg (by positivity)
  have hduration : 0 ≤ double ((duration : ℚ) * 60) := double_nonneg (by positivity)
  exact double_nonneg (div_nonneg hinterval hduration)

theorem ninety_nine : double 99 = 99 ∧ (99 : ℚ) ≤ below := by
  have h := double_natCast (n := 99) (by norm_num)
  refine ⟨by exact_mod_cast h, ?_⟩
  norm_num [below]

theorem currentDuration_eq_zero {option : Option String} {self : Shared} {drive log : Text}
    (h : currentDuration option self drive log = 0) : self.duration drive = 0 := by
  unfold currentDuration at h
  by_contra hne
  rw [if_neg hne] at h
  exact hne h

/-- `hdparmParser` goes on from the percentage of the disk, as soon as it knows a duration. -/
theorem hdparm_reading (option : Option String) {self : Shared} {drive : Text} (log : Text)
    (hnonneg : 0 ≤ self.percent) (hle : self.percent ≤ 99) (hrounded : double self.percent = self.percent)
    (hzero : self.duration drive = 0 → self.percent = 0) :
    Reading self.percent (hdparmParser option self drive log).2 False ∧
      (hdparmParser option self drive log).2 ≤ 99 := by
  obtain ⟨hdouble, hbelow⟩ := ninety_nine
  have hreading : ∀ q : ℚ, double q = q → self.percent ≤ q → q ≤ 99 → Reading self.percent q False ∧ q ≤ 99 := by
    intro q hq hgrows hq99
    refine ⟨⟨hq, .inr (hq99.trans hbelow), hgrows, ?_⟩, hq99⟩
    intro hfull
    linarith
  unfold hdparmParser
  dsimp only
  generalize hduration : currentDuration option self drive log = duration
  by_cases hnone : duration = 0
  · -- the duration was not known either when the disk was read before
    have hunknown : self.duration drive = 0 := currentDuration_eq_zero (hduration.trans hnone)
    rw [if_pos hnone]
    apply hreading
    · exact double_zero
    · exact (hzero hunknown).le
    · norm_num
  · have hadd := increment_nonneg duration
    have hgrows := double_mono hnonneg (le_add_of_nonneg_right hadd)
    rw [hrounded] at hgrows
    rw [if_neg hnone]
    by_cases hcap : double (self.percent + increment duration) > 99
    · rw [if_pos hcap]
      exact hreading 99 hdouble hle le_rfl
    · rw [if_neg hcap]
      exact hreading _ (double_double (add_nonneg hnonneg hadd)) hgrows (not_lt.mp hcap)

theorem hdparm_duration (option : Option String) (self : Shared) (drive log : Text) :
    ((hdparmParser option self drive log).1.duration drive = 0 → (hdparmParser option self drive log).2 = 0) ∧
      ∀ n, (hdparmParser option self drive log).1.duration n = 0 → self.duration n = 0 := by
  unfold hdparmParser
  constructor
  · intro hzero
    dsimp only at hzero ⊢
    rw [Function.update_self] at hzero
    rw [if_pos hzero]
  · intro n hzero
    dsimp only at hzero
    by_cases hn : n = drive
    · rw [hn, Function.update_self] at hzero
      rw [hn]
      exact currentDuration_eq_zero hzero
    · rwa [Function.update_of_ne hn] at hzero

theorem digits_bounds {n value length : Nat} {s rest : Text} (h : digits n s = some (value, length, rest)) :
    1 ≤ length ∧ length ≤ n := by
  unfold digits at h
  dsimp only at h
  split at h
  · obtain rfl : (s.takeWhile Char.isDigit).length = length := by simp_all
    assumption
  · cases h

theorem indication_eq_some {output : Text} {percentage : ℚ} (h : indication output = some percentage) :
    ∃ m places : Nat, places ≤ 3 ∧ percentage = double (m / 10 ^ places) := by
  unfold indication at h
  obtain ⟨s, _, h⟩ := Option.bind_eq_some_iff.mp h
  split at h
  · cases h
  · obtain ⟨⟨whole, _, t⟩, _, h⟩ := Option.bind_eq_some_iff.mp h
    obtain ⟨u, _, h⟩ := Option.bind_eq_some_iff.mp h
    obtain ⟨⟨fraction, places, v⟩, hfraction, h⟩ := Option.bind_eq_some_iff.mp h
    obtain ⟨_, _, h⟩ := Option.bind_eq_some_iff.mp h
    refine ⟨whole * 10 ^ places + fraction, places, (digits_bounds hfraction).2, ?_⟩
    have hten : ((10 : ℚ) ^ places) ≠ 0 := pow_ne_zero _ (by norm_num)
    rw [← Option.some.inj h]
    push_cast
    rw [add_div, mul_div_assoc, div_self hten, mul_one]

theorem indication_bound {output : Text} {percentage : ℚ} (h : indication output = some percentage)
    (hle : percentage ≤ 100) : double percentage = percentage ∧ (percentage = 100 ∨ percentage ≤ below) := by
  obtain ⟨m, places, hplaces, rfl⟩ := indication_eq_some h
  have hten : (0 : ℚ) < 10 ^ places := pow_pos (by norm_num) places
  have hnonneg : (0 : ℚ) ≤ m / 10 ^ places := div_nonneg (Nat.cast_nonneg m) hten.le
  refine ⟨double_double hnonneg, ?_⟩
  by_cases hm : 100 * 10 ^ places ≤ m
  · left
    have hcast : (100 : ℚ) ≤ m / 10 ^ places := by
      rw [le_div_iff₀ hten]
      exact_mod_cast hm
    have hmono := double_mono (by norm_num) hcast
    rw [double_hundred] at hmono
    exact le_antisymm hle hmono
  · right
    have hthousand : ((10 : ℚ) ^ places) ≤ 1000 := by
      have hpow : 10 ^ places ≤ 10 ^ 3 := Nat.pow_le_pow_right (by omega) hplaces
      exact_mod_cast hpow
    have hsucc : (m : ℚ) + 1 ≤ 100 * 10 ^ places := by exact_mod_cast not_le.mp hm
    have hcast : (m : ℚ) / 10 ^ places ≤ below := by
      rw [div_le_iff₀ hten, below]
      linarith
    exact double_le_below hnonneg hcast

theorem sg_printed {d : Disk} (o : Observation) (hread : d.percentage = d.indicated)
    (hnonneg : 0 ≤ d.percentage) :
    sgRequestsParser d.percentage o.progress_output = ((d.lastPrinted o).bind indication).getD 0 := by
  unfold sgRequestsParser Disk.lastPrinted
  by_cases hout : o.progress_output = []
  · rw [if_neg (not_not.mpr hout), if_pos hout]
    split
    · exact hread
    · have hzero : d.percentage = 0 := by linarith
      exact hzero.symm.trans hread
  · rw [if_pos hout, if_neg hout]
    rfl

theorem sg_reading {d : Disk} {o : Observation} (h : SteadyOutput d o) (hread : d.percentage = d.indicated)
    (hnonneg : 0 ≤ d.percentage) (hrounded : double d.percentage = d.percentage)
    (hbound : d.percentage = 100 ∨ d.percentage ≤ below) :
    Reading d.percentage (sgRequestsParser d.percentage o.progress_output)
      (if o.progress_output = [] then d.indicated = 100 else indication o.progress_output = some 100) := by
  rw [sg_printed o hread hnonneg, Disk.lastPrinted]
  by_cases hout : o.progress_output = []
  · rw [if_pos hout, if_pos hout]
    change Reading d.percentage d.indicated (d.indicated = 100)
    rw [← hread]
    exact ⟨hrounded, hbound, le_rfl, id⟩
  · rw [if_neg hout, if_neg hout, Option.bind_some]
    have hsteady := h hout
    cases hprinted : indication o.progress_output with
    | none =>
      rw [hprinted] at hsteady
      refine ⟨double_zero, .inr (by norm_num [below]), (hread.trans hsteady).le, ?_⟩
      intro hfull
      exact absurd hfull (by norm_num)
    | some percentage =>
      rw [hprinted] at hsteady
      obtain ⟨hdouble, hprecise⟩ := indication_bound hprinted hsteady.2
      refine ⟨hdouble, hprecise, hread.trans_le hsteady.1, ?_⟩
      intro hfull
      rw [← hfull]
      rfl

/-- A disk that was seen to end and is read as complete stays at 100. -/
theorem sg_complete {d : Disk} {o : Observation} (hpercent : d.percentage = 100)
    (hfull : o.progress_output ≠ [] → indication o.progress_output = some 100) :
    sgRequestsParser d.percentage o.progress_output = 100 := by
  unfold sgRequestsParser
  by_cases hout : o.progress_output = []
  · rw [if_neg (not_not.mpr hout), hpercent, if_pos (by norm_num)]
  · rw [if_pos hout, hfull hout]
    rfl

end Percentages

section Polls

variable {tool : Tool} {option : Option String}

/-- What is remembered of a disk until its process has ended. -/
def Memory (tool : Tool) (option : Option String) (self : Shared) (d : Disk) : Prop :=
  match tool with
  | .hdparm => d.percentage ≤ 99 ∧ (self.duration d.name = 0 → d.percentage = 0)
  | .scrub => d.percentage = d.read.elim 0 (scrubParser option)
  | .sg_format | .sg_sanitize => d.percentage = d.indicated

structure Disk.Inv (tool : Tool) (option : Option String) (shared : Shared) (d : Disk) : Prop where
  rounded : double d.percentage = d.percentage
  nonneg : 0 ≤ d.percentage
  bound : d.percentage = 100 ∨ d.percentage ≤ below
  idle : d.started = false → d.percentage = 0
  ended : d.ended = true → d.percentage = 100
  memory : d.ended = false → Memory tool option shared d

def Kept (self self' : Shared) : Prop := ∀ n, self'.duration n = 0 → self.duration n = 0

theorem Disk.Inv.mono {self self' : Shared} {d : Disk} (h : d.Inv tool option self) (hkept : Kept self self') :
    d.Inv tool option self' where
  rounded := h.rounded
  nonneg := h.nonneg
  bound := h.bound
  idle := h.idle
  ended := h.ended
  memory := by
    intro hended
    have hmemory := h.memory hended
    cases tool with
    | hdparm => exact ⟨hmemory.1, fun hzero => hmemory.2 (hkept d.name hzero)⟩
    | scrub => exact hmemory
    | sg_format => exact hmemory
    | sg_sanitize => exact hmemory

theorem Disk.Inv.le {self : Shared} {d : Disk} (h : d.Inv tool option self) : d.percentage ≤ 100 := by
  rcases h.bound with hfull | hle
  · exact hfull.le
  · exact hle.trans below_lt.le

theorem parser_mapper_spec {self : Shared} {d : Disk} {o : Observation} (h : d.Inv tool option self)
    (halive : Alive d o) (hsteady : Steady tool option d o) :
    let r := parser_mapper tool option { self with percent := d.percentage } d.name o
    Reading d.percentage r.2 (Full tool option d o) ∧ Kept self r.1 ∧
      (d.ended = false →
        Memory tool option r.1 { d with percentage := r.2, read := some o.log, printed := d.lastPrinted o }) := by
  obtain ⟨hcomplete, hread⟩ := hsteady halive
  cases tool with
  | hdparm =>
    have hended : d.ended = false := by
      by_contra hended
      exact (hcomplete (by simpa using hended)).2
    obtain ⟨hle, hzero⟩ := h.memory hended
    let asked : Shared := { self with percent := d.percentage }
    obtain ⟨hreading, hle'⟩ :=
      hdparm_reading option o.log (show 0 ≤ asked.percent from h.nonneg) hle h.rounded hzero
    obtain ⟨hunknown, hkept⟩ := hdparm_duration option asked d.name o.log
    refine ⟨⟨hreading.rounded, hreading.bound, hreading.grows, ?_⟩, hkept, fun _ => ⟨hle', hunknown⟩⟩
    intro hfull
    exact (hreading.full hfull).elim
  | scrub =>
    refine ⟨?_, fun _ hzero => hzero, fun _ => rfl⟩
    by_cases hended : d.ended = true
    · -- it stays at 100
      have hdots := (hcomplete hended).2
      have hfull : scrubParser option o.log = 100 := scrubParser_full (le_antisymm hread.1 hdots)
      refine ⟨(scrubParser_rounded option o.log).1, .inl hfull, ?_, fun _ => ⟨halive, hdots⟩⟩
      exact (h.ended hended).trans_le hfull.ge
    · have hreading := scrub_reading hread (h.memory (by simpa using hended))
      exact ⟨hreading.rounded, hreading.bound, hreading.grows, fun hfull => ⟨halive, hreading.full hfull⟩⟩
  | sg_format | sg_sanitize =>
    refine ⟨?_, fun _ hzero => hzero, fun hended => sg_printed o (h.memory hended) h.nonneg⟩
    by_cases hended : d.ended = true
    · obtain ⟨-, houtput⟩ := hcomplete hended
      have hfull := sg_complete (h.ended hended) fun hout => (if_neg hout).mp houtput
      refine ⟨?_, .inl hfull, (h.ended hended).trans_le hfull.ge, fun _ => hcomplete hended⟩
      exact (congrArg double hfull).trans (double_hundred.trans hfull.symm)
    · have hreading := sg_reading hread (h.memory (by simpa using hended)) h.nonneg h.rounded h.bound
      refine ⟨hreading.rounded, hreading.bound, hreading.grows, fun hfull => ⟨halive, ?_⟩⟩
      have hall := hreading.full hfull
      split at hall
      · rename_i hout
        exact (if_pos hout).mpr (.inr hall)
      · rename_i hout
        exact (if_neg hout).mpr hall

structure Polled (tool : Tool) (option : Option String) (shared : Shared) (x : Disk × Observation) (d' : Disk) :
    Prop where
  inv : d'.Inv tool option shared
  grows : x.1.percentage ≤ d'.percentage
  full : d'.percentage = 100 → EndedBy x.1 x.2 ∨ Full tool option x.1 x.2
  ended : d'.ended = true ↔ EndedBy x.1 x.2

theorem ended_iff {d : Disk} {o : Observation} (h : ¬ (d.started = true ∧ o.ps = [])) :
    d.ended = true ↔ EndedBy d o :=
  (or_iff_left h).symm

theorem pollDisk_spec {self : Shared} {d : Disk} {o : Observation} (h : d.Inv tool option self)
    (hsteady : Steady tool option d o) :
    Polled tool option (pollDisk tool option self d o).1 (d, o) (pollDisk tool option self d o).2 ∧
      Kept self (pollDisk tool option self d o).1 := by
  unfold pollDisk
  by_cases hstarted : d.started = true
  · rw [if_pos hstarted]
    by_cases hps : o.ps = []
    · rw [if_pos hps]
      refine ⟨⟨⟨double_hundred, by norm_num, .inl rfl, ?_, fun _ => rfl, ?_⟩, h.le, ?_, ?_⟩, fun _ hzero => hzero⟩
      · intro hidle
        exact absurd hstarted (by simp [show d.started = false from hidle])
      · intro hended
        cases hended
      · exact fun _ => .inl (.inr ⟨hstarted, hps⟩)
      · exact iff_of_true rfl (.inr ⟨hstarted, hps⟩)
    · rw [if_neg hps]
      obtain ⟨hreading, hkept, hmemory⟩ := parser_mapper_spec h ⟨hstarted, hps⟩ hsteady
      have hnonneg := h.nonneg.trans hreading.grows
      refine ⟨⟨⟨hreading.rounded, hnonneg, hreading.bound, ?_, ?_, hmemory⟩, hreading.grows, ?_, ?_⟩, hkept⟩
      · intro hidle
        exact absurd hstarted (by simp [show d.started = false from hidle])
      · exact fun hended => hreading.stays (h.ended hended)
      · exact fun hfull => .inr (hreading.full hfull)
      · exact ended_iff fun hgone => hps hgone.2
  · rw [if_neg hstarted]
    have hidle := h.idle (by simpa using hstarted)
    refine ⟨⟨⟨h.rounded, h.nonneg, h.bound, fun _ => hidle, h.ended, h.memory⟩, le_rfl, ?_, ?_⟩,
      fun _ hzero => hzero⟩
    · intro hfull
      rw [show d.percentage = 100 from hfull] at hidle
      norm_num at hidle
    · exact ended_iff fun hgone => hstarted hgone.1

theorem pollDisks_spec (ds : List Disk) : ∀ {self : Shared} {os : List Observation}, os.length = ds.length →
    (∀ d ∈ ds, d.Inv tool option self) → (∀ x ∈ ds.zip os, Steady tool option x.1 x.2) →
    List.Forall₂ (Polled tool option (pollDisks tool option self ds os).1) (ds.zip os)
        (pollDisks tool option self ds os).2 ∧
      Kept self (pollDisks tool option self ds os).1 := by
  induction ds with
  | nil =>
    intro self os _ _ _
    exact ⟨.nil, fun _ hzero => hzero⟩
  | cons d ds ih =>
    intro self os hlength hinv hsteady
    cases os with
    | nil => simp at hlength
    | cons o os =>
      obtain ⟨hpolled, hkept⟩ := pollDisk_spec (hinv d List.mem_cons_self) (hsteady (d, o) List.mem_cons_self)
      have hinv' : ∀ e ∈ ds, e.Inv tool option (pollDisk tool option self d o).1 :=
        fun e he => (hinv e (List.mem_cons_of_mem d he)).mono hkept
      obtain ⟨hrest, hkept'⟩ :=
        ih (by simpa using hlength) hinv' fun x hx => hsteady x (List.mem_cons_of_mem _ hx)
      rw [pollDisks, List.zip_cons_cons]
      refine ⟨.cons ⟨hpolled.inv.mono hkept', hpolled.grows, hpolled.full, hpolled.ended⟩ hrest, ?_⟩
      exact fun n hzero => hkept n (hkept' n hzero)

/-- The sum of percentages of which `m / 1024` is known to be missing. -/
theorem sum_le (ds : List Disk) : ∀ {k m : ℕ} {sum : ℚ}, k + ds.length ≤ 2 ^ 36 → m ≤ 1024 → 0 ≤ sum →
    sum ≤ 100 * k - m / 1024 → (∀ d ∈ ds, 0 ≤ d.percentage ∧ d.percentage ≤ 100) →
    0 ≤ ds.foldl (fun sum d => double (sum + d.percentage)) sum ∧
      ds.foldl (fun sum d => double (sum + d.percentage)) sum ≤ 100 * (k + ds.length : ℕ) - m / 1024 := by
  induction ds with
  | nil =>
    intro k m sum _ _ hsum hle _
    exact ⟨hsum, hle⟩
  | cons d ds ih =>
    intro k m sum hlength hm hsum hle hall
    obtain ⟨hnonneg, hd⟩ := hall d List.mem_cons_self
    rw [List.length_cons] at hlength
    have hstep : double (sum + d.percentage) ≤ 100 * (k + 1 : ℕ) - m / 1024 := by
      rw [← double_partial (n := k + 1) (by omega) m hm (by omega)]
      apply double_mono (add_nonneg hsum hnonneg)
      push_cast
      linarith
    have hrest := ih (k := k + 1) (by omega) hm (double_nonneg (add_nonneg hsum hnonneg)) hstep
      fun e he => hall e (List.mem_cons_of_mem d he)
    rw [List.length_cons, show k + (ds.length + 1) = k + 1 + ds.length by omega]
    exact hrest

/-- The average of few enough percentages is 100 only if each of them is. -/
theorem total_percent_eq {ds : List Disk} (hlength : ds.length ≤ 2 ^ 36)
    (hall : ∀ d ∈ ds, 0 ≤ d.percentage ∧ (d.percentage = 100 ∨ d.percentage ≤ below))
    (htotal : total_percent ds = 100) : ∀ d ∈ ds, d.percentage = 100 := by
  intro d hd
  by_contra hne
  have hbound : ∀ e ∈ ds, 0 ≤ e.percentage ∧ e.percentage ≤ 100 := by
    intro e he
    obtain ⟨hnonneg, hfull | hle⟩ := hall e he
    · exact ⟨hnonneg, hfull.le⟩
    · exact ⟨hnonneg, hle.trans below_lt.le⟩
  have hsum : 0 ≤ ds.foldl (fun sum d => double (sum + d.percentage)) 0 ∧
      ds.foldl (fun sum d => double (sum + d.percentage)) 0 ≤ 100 * (ds.length : ℕ) - 1 / 1024 := by
    obtain ⟨before, after, rfl⟩ := List.append_of_mem hd
    obtain ⟨hnonneg, hfull | hle⟩ := hall d hd
    · exact absurd hfull hne
    · rw [List.length_append, List.length_cons] at hlength ⊢
      obtain ⟨hbefore, hbefore'⟩ := sum_le (k := 0) (m := 0) before (by omega) (by omega) (le_refl (0 : ℚ))
        (by norm_num) fun e he => hbound e (List.mem_append_left _ he)
      rw [List.foldl_append, List.foldl_cons]
      have hmissing : double (before.foldl (fun sum d => double (sum + d.percentage)) 0 + d.percentage) ≤
          100 * (before.length + 1 : ℕ) - (1 : ℕ) / 1024 := by
        rw [← double_partial (n := before.length + 1) (by omega) 1 (by omega) (by omega)]
        apply double_mono (add_nonneg hbefore hnonneg)
        rw [below] at hle
        push_cast at hbefore' ⊢
        linarith
      have hafter := sum_le (k := before.length + 1) (m := 1) after (by omega) (by omega)
        (double_nonneg (add_nonneg hbefore hnonneg)) hmissing
        fun e he => hbound e (List.mem_append_right _ (List.mem_cons_of_mem d he))
      rw [show before.length + (after.length + 1) = before.length + 1 + after.length by omega]
      exact_mod_cast hafter
  have hpos : (0 : ℚ) < (ds.length : ℕ) := by exact_mod_cast List.length_pos_of_mem hd
  have hfew : ((ds.length : ℕ) : ℚ) ≤ 2 ^ 36 := by exact_mod_cast hlength
  -- the nearest double below is far enough from 100
  have hlast : double (100 - 1 / 2 ^ 46) = 100 - 1 / 2 ^ 46 := by
    have h := double_mul_zpow (k := 100 * 2 ^ 46 - 1) (e := -46) (by norm_num) (by norm_num)
    norm_num at h ⊢
    exact h
  have haverage : ds.foldl (fun sum d => double (sum + d.percentage)) 0 / (ds.length : ℕ) ≤ 100 - 1 / 2 ^ 46 := by
    rw [div_le_iff₀ hpos]
    have hmissing : 1 / 2 ^ 46 * ((ds.length : ℕ) : ℚ) ≤ 1 / 1024 := by
      have hmul := mul_le_mul_of_nonneg_left hfew (by norm_num : (0 : ℚ) ≤ 1 / 2 ^ 46)
      norm_num at hmul ⊢
      exact hmul
    linarith [hsum.2]
  have hmono := double_mono (div_nonneg hsum.1 hpos.le) haverage
  rw [hlast] at hmono
  rw [total_percent] at htotal
  rw [htotal] at hmono
  norm_num at hmono

structure Progress.Inv (tool : Tool) (option : Option String) (count : ℕ) (s : Progress) : Prop where
  disks : ∀ d ∈ s.disks, d.Inv tool option s.self
  count : s.disks.length = count

theorem Progress.inv_start (disk_list : List Text) :
    (Progress.start disk_list).Inv tool option disk_list.length where
  disks := by
    intro d hd
    obtain ⟨name, _, rfl⟩ := List.mem_map.mp hd
    refine ⟨double_zero, le_rfl, .inr (by norm_num [below]), fun _ => rfl, nofun, ?_⟩
    intro _
    cases tool with
    | hdparm => exact ⟨by norm_num, fun _ => rfl⟩
    | scrub => rfl
    | sg_format | sg_sanitize => rfl
  count := List.length_map ..

theorem step_eq_some {s t : Progress} {poll : List Observation} (h : Progress.step tool option s poll = some t) :
    poll.length = s.disks.length ∧ s.disks ≠ [] ∧ t.self = (pollDisks tool option s.self s.disks poll).1 ∧
      t.disks = (pollDisks tool option s.self s.disks poll).2 ∧
        (t.finished = true ↔ total_percent t.disks = 100) := by
  unfold Progress.step at h
  split at h
  · rename_i hready
    obtain rfl := Option.some.inj h
    exact ⟨hready.2.2, hready.2.1, rfl, rfl, decide_eq_true_iff⟩
  · cases h

theorem forall_right {α β : Type*} {R : α → β → Prop} {P : β → Prop} {as : List α} {bs : List β}
    (h : List.Forall₂ R as bs) (himp : ∀ a b, R a b → P b) : ∀ b ∈ bs, P b := by
  have hflip : List.Forall₂ (fun b a => P b ∧ R a b) bs as :=
    List.Forall₂.flip (h.imp fun a b hab => ⟨himp a b hab, hab⟩)
  exact ((List.forall₂_and_left bs as).mp hflip).1

theorem step_polled {count : ℕ} {s t : Progress} {poll : List Observation} (hinv : s.Inv tool option count)
    (h : Progress.step tool option s poll = some t) (hregular : Regular tool option s poll) :
    List.Forall₂ (Polled tool option t.self) (s.disks.zip poll) t.disks := by
  obtain ⟨hlength, _, hself, hdisks, _⟩ := step_eq_some h
  rw [hself, hdisks]
  exact (pollDisks_spec s.disks hlength hinv.disks hregular.1).1

theorem Progress.Inv.step {count : ℕ} {s t : Progress} {poll : List Observation} (hinv : s.Inv tool option count)
    (h : Progress.step tool option s poll = some t) (hregular : Regular tool option s poll) :
    t.Inv tool option count where
  disks := by
    intro d hd
    exact forall_right (step_polled hinv h hregular) (fun _ _ hx => hx.inv) d hd
  count := by
    have hlength := (step_polled hinv h hregular).length_eq
    have hpoll := (step_eq_some h).1
    rw [List.length_zip] at hlength
    have hcount := hinv.count
    omega

theorem Progress.Inv.safe {count : ℕ} {s t : Progress} {poll : List Observation} (hinv : s.Inv tool option count)
    (hcount : count ≤ 2 ^ 36) (h : Progress.step tool option s poll = some t)
    (hregular : Regular tool option s poll) :
    Safe s t := by
  obtain ⟨hlength, _, _, _, hover⟩ := step_eq_some h
  have hpolled := step_polled hinv h hregular
  have hinv' := hinv.step h hregular
  constructor
  · have hsplit : List.Forall₂ (fun (x : Disk × Observation) d' =>
        0 ≤ d'.percentage ∧ d'.percentage ≤ 100 ∧ x.1.percentage ≤ d'.percentage) (s.disks.zip poll) t.disks :=
      hpolled.imp fun x d' hx => ⟨hx.inv.nonneg, hx.inv.le, hx.grows⟩
    have hdisks : (s.disks.zip poll).map Prod.fst = s.disks := List.map_fst_zip hlength.ge
    rw [← hdisks, List.forall₂_map_left_iff]
    exact hsplit
  · intro hleft
    have hfull : ∀ d ∈ t.disks, d.percentage = 100 := by
      apply total_percent_eq (hinv'.count ▸ hcount) ?_ (hover.mp hleft)
      exact fun d hd => ⟨(hinv'.disks d hd).nonneg, (hinv'.disks d hd).bound⟩
    -- each disk has been seen to end, or seems to be erased
    have hall : List.Forall₂ (fun d' x => d'.percentage = 100 ∧ Polled tool option t.self x d') t.disks
        (s.disks.zip poll) := (List.forall₂_and_left _ _).mpr ⟨hfull, hpolled.flip⟩
    have hended := hregular.2 (forall_right hall fun d' x hx => hx.2.full hx.1)
    have hboth : List.Forall₂ (fun x d' => EndedBy x.1 x.2 ∧ Polled tool option t.self x d') (s.disks.zip poll)
        t.disks := (List.forall₂_and_left _ _).mpr ⟨hended, hpolled⟩
    exact forall_right hboth fun x d' hx => hx.2.ended.mpr hx.1

end Polls

/-- In every run with regular polls, the percentages only grow, and the loop is
left only when every process has ended. -/
theorem progress_grows (tool : Tool) (option : Option String) (disk_list : List Text)
    (hcount : disk_list.length ≤ 2 ^ 36) (polls : List (List Observation))
    (h : Lts.Along (Progress.step tool option) (fun s poll _ => Regular tool option s poll)
      (Progress.start disk_list)
      polls) :
    Lts.Along (Progress.step tool option) (fun s _ t => Safe s t) (Progress.start disk_list) polls := by
  apply h.of_invariant (fun s => s.Inv tool option disk_list.length)
  · exact fun s poll t ht hregular hinv => hinv.step ht hregular
  · exact fun s poll t ht hregular hinv => hinv.safe hcount ht hregular
  · exact Progress.inv_start disk_list

def observe (ps log : String) : Observation where
  logExists := true
  log := log.toList
  ps := ps.toList
  sg_requests := (none, none)

def onePass : String := "scrub: 0x00    |..................................................|\n"

theorem dots_onePass : dots onePass.toList = 50 := by
  decide +kernel

/-- One of four passes is logged, then the process is gone. -/
theorem progress_grows_scrub :
    Lts.Along (Progress.step .scrub none) (fun s _ t => Safe s t) (Progress.start ["sda".toList])
      [[observe "" ""], [observe "scrub" onePass], [observe "" onePass]] := by
  apply progress_grows .scrub none ["sda".toList] (by norm_num)
  rw [Lts.along_cons]
  intro s hs
  have hdisks : s.disks = [⟨"sda".toList, 0, true, none, none, false⟩] := (step_eq_some hs).2.2.2.1
  refine ⟨⟨?_, ?_⟩, ?_⟩
  · intro x hx halive
    obtain rfl := List.mem_singleton.mp hx
    exact absurd halive.1 (by simp)
  · intro hall
    rcases hall _ List.mem_cons_self with (hended | hended) | hfull
    · cases hended
    · cases hended.1
    · cases hfull.1.1
  rw [Lts.along_cons]
  intro t ht
  have hread :
      t.disks = [⟨"sda".toList, scrubParser none onePass.toList, true, some onePass.toList, none, false⟩] := by
    rw [(step_eq_some ht).2.2.2.1, hdisks]
    rfl
  refine ⟨⟨?_, ?_⟩, ?_⟩
  · rw [hdisks]
    intro x hx _
    obtain rfl := List.mem_singleton.mp hx
    refine ⟨nofun, ?_, nofun⟩
    exact dots_onePass.trans_le (by decide)
  · rw [hdisks]
    intro hall
    rcases hall _ List.mem_cons_self with (hended | hended) | hfull
    · cases hended
    · exact absurd hended.2 (by decide)
    · exact absurd (hfull.2.trans_eq dots_onePass) (by decide)
  rw [Lts.along_cons]
  intro u hu
  rw [Regular, hread]
  refine ⟨⟨?_, ?_⟩, trivial⟩
  · intro x hx halive
    obtain rfl := List.mem_singleton.mp hx
    exact absurd rfl halive.2
  · intro _ x hx
    obtain rfl := List.mem_singleton.mp hx
    exact .inr ⟨rfl, rfl⟩

/-- Nothing is ever taken away from a log. -/
def LogsGrow (polls : List (List Observation)) : Prop :=
  polls.IsChain fun poll poll' => List.Forall₂ (fun o o' => o.log <+: o'.log) poll poll'

/-- The only pass is logged while the process is still alive. -/
theorem progress_leaves_scrub_alive :
    LogsGrow [[observe "" ""], [observe "scrub" onePass]] ∧
      ¬ Lts.Along (Progress.step .scrub (some "fillzero")) (fun s _ t => Safe s t) (Progress.start ["sda".toList])
        [[observe "" ""], [observe "scrub" onePass]] := by
  constructor
  · refine .cons_cons ?_ (.singleton _)
    exact .cons List.nil_prefix .nil
  intro h
  let watched : Disk := ⟨"sda".toList, 0, true, none, none, false⟩
  let scrubbed : Disk :=
    ⟨"sda".toList, scrubParser (some "fillzero") onePass.toList, true, some onePass.toList, none, false⟩
  have hpercent : scrubbed.percentage = 100 := scrubParser_full (dots_onePass.trans rfl)
  have hzero : total_percent [watched] = 0 := by
    simp [total_percent, watched, double_zero]
  have hhundred : total_percent [scrubbed] = 100 := by
    simp [total_percent, hpercent, double_hundred]
  have hfirst : Progress.step .scrub (some "fillzero") (Progress.start ["sda".toList]) [observe "" ""] =
      some ⟨⟨0, fun _ => 0⟩, [watched], total_percent [watched] = 100⟩ := rfl
  rw [hzero, decide_eq_false (by norm_num)] at hfirst
  have hsecond :
      Progress.step .scrub (some "fillzero") ⟨⟨0, fun _ => 0⟩, [watched], false⟩ [observe "scrub" onePass] =
      some ⟨⟨0, fun _ => 0⟩, [scrubbed], total_percent [scrubbed] = 100⟩ := rfl
  have hafter := ((Lts.along_cons_of_some hfirst).mp h).2
  have hsafe := ((Lts.along_cons_of_some hsecond).mp hafter).1
  have hended : scrubbed.ended = true := hsafe.2 (decide_eq_true hhundred) scrubbed List.mem_cons_self
  cases hended

end OnTaskGraph.EraseProgress
