import OnTaskGraph.EraseProgress
import OnTaskGraph.Script
import OnTaskGraph.SecureErase

/-! The erase job of the secure erase script: the marks at both ends of a disk, the tries of
the erase command between writing them and reading them again, and what each tool asks of
the drive before. -/

namespace OnTaskGraph.EraseJob

open EraseProgress (Tool orDefault)
open HdparmStatus (ExitStatus hdparm_option pattern_se_support pattern_se_enabled)
open JsText (Text digitValue)
open Script (fail ask)

/-- What ends a job with an exception. -/
inductive Failure
  | assertionError (message : String)
  | osError
  deriving DecidableEq

/-- What `robust_check_call` gives, and so a job. -/
structure Status where
  exit_code : Int
  message : Option String
  deriving DecidableEq

/-- What a job does outside: a command, with what it prints and exits with, if there is
such a program; `os.mknod`, which may fail; and `file_compare`, if there are both files. -/
inductive Event
  | ran (command : List String) (outcome : Option ExitStatus)
  | mknod (name : String) (made : Bool)
  | compared (f g : String) (outcome : Option Bool)

abbrev Job := Script Event Failure

def assert (b : Bool) (message : String) : Job Unit := Script.assert b (.assertionError message)

def robust_check_output (cmd : List String) : Job ExitStatus := do
  match ← ask (.ran cmd) with
  | none => fail .osError
  | some exit_status => pure exit_status

/-- The message is `exc.output` where the command fails. -/
def called (exit_status : ExitStatus) : Status :=
  if exit_status.exit_code = 0 then ⟨0, some "check_call command succeeded"⟩ else ⟨exit_status.exit_code, none⟩

def robust_check_call (cmd : List String) : Job Status := do
  let exit_status ← robust_check_output cmd
  pure (called exit_status)

def file_compare (f g : String) : Job Bool := do
  match ← ask (.compared f g) with
  | none => fail .osError
  | some same => pure same

section DiskSize

/-- The name of a disk, which as a pattern stands for itself, but for "." -/
structure Disk where
  name : String
  plain : ∀ c ∈ name.toList, c ∉ "\\^$*+?\x7b\x7d[]|()".toList
  deriving DecidableEq

/-- `disk_name.split("/")[-1]` -/
def Disk.base (disk : Disk) : String := String.ofList (SecureErase.diskName disk.name.toList)

/-- `.*` before the rest of a pattern: the longest way is tried first. -/
def greedy {β : Type} (k : Text → Option β) (s : Text) : Option β := s.tails.reverse.findSome? k

def named : Text → Text → Option Text
  | [], s => some s
  | _ :: _, [] => none
  | c :: name, x :: s => if c = '.' ∨ c = x then named name s else none

/-- ` (\d{10,16}) bytes` -/
def sizeHere : Text → Option Text
  | ' ' :: s =>
    let found := s.takeWhile Char.isDigit
    if 10 ≤ found.length ∧ found.length ≤ 16 ∧ " bytes".toList <+: s.drop found.length then some found else none
  | _ => none

/-- `pattern.match(line)`, and its group. -/
def sizeIn (disk : Disk) (line : Text) : Option Text :=
  greedy (fun s => (named disk.name.toList s).bind (greedy sizeHere)) line

def disk_size (disk : Disk) (output : Text) : Text :=
  ((output.splitOn '\n').findSome? (sizeIn disk)).getD "0".toList

def mark_data (disk : Disk) : String := disk.base ++ "_mark_data"

def front_end (disk : Disk) : String := disk.base ++ "_front_end"

def back_end (disk : Disk) : String := disk.base ++ "_back_end"

def mark_files (disk : Disk) : List String := [mark_data disk, front_end disk, back_end disk]

def makeFiles : List String → Job Unit
  | [] => pure ()
  | name :: names => do
    let _ ← ask (.mknod name)
    makeFiles names

def get_disk_size (disk : Disk) : Job Text := do
  let disk_info ← robust_check_output ["fdisk", "-l", disk.name]
  assert (disk_info.exit_code = 0) ("Can't get drive " ++ disk.name ++ " size info")
  let size := disk_size disk disk_info.message
  assert (size ≠ "0".toList) "Disk size should not be 0"
  makeFiles (mark_files disk)
  pure size

end DiskSize

section Marks

def FRONT_SKIP : Nat := 4096

def number (digits : Text) : Nat := digits.foldl (fun n c => 10 * n + digitValue c) 0

/-- `int(disk_size) / 512 - int(FRONT_SKIP)` -/
def back_skip (size : Text) : Int := (number size / 512 : Nat) - FRONT_SKIP

def commands (disk : Disk) (back_skip : Int) : List (List String) :=
  [["dd", "if=/dev/urandom", "of=" ++ mark_data disk, "count=1"],
   ["dd", "if=" ++ mark_data disk, "of=" ++ disk.name, "seek=" ++ toString FRONT_SKIP, "count=1"],
   ["dd", "if=" ++ mark_data disk, "of=" ++ disk.name, "seek=" ++ toString back_skip, "count=1"],
   ["dd", "if=" ++ disk.name, "of=" ++ front_end disk, "skip=" ++ toString FRONT_SKIP, "count=1"],
   ["dd", "if=" ++ disk.name, "of=" ++ back_end disk, "skip=" ++ toString back_skip, "count=1"]]

def runAll : List (List String) → Job Unit
  | [] => pure ()
  | command :: commands => do
    let exit_status ← robust_check_call command
    assert (exit_status.exit_code = 0) ("Command [ " ++ " ".intercalate command ++ " ] failed")
    runAll commands

/-- The marks are made, or else (`flag`) they are verified. -/
def mark_on_disk (disk : Disk) (flag : Bool) (back_skip : Int) : Job Unit := do
  if flag then
    runAll ((commands disk back_skip).drop 3)
    let front ← file_compare (mark_data disk) (front_end disk)
    assert (!front) "Disk front mark data exists after erasing"
    let back ← file_compare (mark_data disk) (back_end disk)
    assert (!back) "Disk back mark data exists after erasing"
  else
    runAll (commands disk back_skip)
    let front ← file_compare (mark_data disk) (front_end disk)
    assert front "Disk front mark data is not written correctly"
    let back ← file_compare (mark_data disk) (back_end disk)
    assert back "Disk back mark data is not written correctly"

end Marks

section Tools

def HDPARM_RETRY_EXITCODES : List Int := [5]

/-- The loop of the tries, `n` of them after this one. -/
def tries (cmd : List String) : Nat → Job Status
  | 0 => robust_check_call cmd
  | n + 1 => do
    let exit_status ← robust_check_call cmd
    if exit_status.exit_code ∈ HDPARM_RETRY_EXITCODES then tries cmd n else pure exit_status

def secure_erase_base (disk : Disk) (cmd : List String) : Job Status := do
  let size ← get_disk_size disk
  mark_on_disk disk false (back_skip size)
  let exit_status ← tries cmd 2
  if exit_status.exit_code = 0 then
    mark_on_disk disk true (back_skip size)
  pure exit_status

def SE_PASSWORD : String := "rackhd_secure_erase"

def hdparm_check_drive_status (pattern : Lookahead.Pattern Char) (disk : Disk) : Job Unit := do
  let exit_status ← robust_check_output ["hdparm", "-I", disk.name]
  match HdparmStatus.hdparm_check_drive_status pattern disk.name exit_status with
  | .ok () => pure ()
  | .error message => fail (.assertionError message)

def setPassword (disk : Disk) : List String :=
  ["hdparm", "--verbose", "--user-master", "u", "--security-set-pass", SE_PASSWORD, disk.name]

def hdparm_secure_erase (disk : Disk) (se_option : Option String) : Job Status := do
  hdparm_check_drive_status (pattern_se_support se_option) disk
  let exit_status ← robust_check_call (setPassword disk)
  assert (exit_status.exit_code = 0) ("Failed to set password for disk " ++ disk.name)
  hdparm_check_drive_status pattern_se_enabled disk
  secure_erase_base disk
    ["hdparm", "--verbose", "--user-master", "u", hdparm_option se_option, SE_PASSWORD, disk.name]

def sg_format_secure_erase (disk : Disk) (se_option : Option String) : Job Status :=
  secure_erase_base disk ["sg_format", "-v", "--format", "--cmplst=" ++ orDefault se_option "1", disk.name]

def sg_sanitize_secure_erase (disk : Disk) (se_option : Option String) : Job Status :=
  secure_erase_base disk ["sg_sanitize", "-v", "--" ++ orDefault se_option "block", disk.name]

def scrub_secure_erase (disk : Disk) (se_option : Option String) : Job Status :=
  secure_erase_base disk ["scrub", "-f", "-p", orDefault se_option "nnsa", disk.name]

def TOOL_MAPPER : Tool → Disk → Option String → Job Status
  | .scrub => scrub_secure_erase
  | .hdparm => hdparm_secure_erase
  | .sg_format => sg_format_secure_erase
  | .sg_sanitize => sg_sanitize_secure_erase

end Tools

section Runs

variable {l : List Event} {cmd : List String} {disk : Disk} {size : Text}

/-- The events of commands that all succeed. -/
def Succeed (commands : List (List String)) (l : List Event) : Prop :=
  List.Forall₂ (fun c x => ∃ printed, x = .ran c (some ⟨0, printed⟩)) commands l

theorem called_exit_code (s : ExitStatus) : (called s).exit_code = s.exit_code := by
  unfold called
  split
  · rename_i hzero
    exact hzero.symm
  · rfl

theorem check_output_ok {s : ExitStatus} :
    (robust_check_output cmd).Runs l (.ok s) ↔ l = [.ran cmd (some s)] := by
  constructor
  · intro h
    obtain ⟨l₁, l₂, outcome, rfl, hask, hrest⟩ := Script.runs_bind_ok.mp h
    obtain ⟨x, rfl, hx⟩ := Script.runs_ask.mp hask
    cases hx
    cases outcome with
    | none => cases hrest.2
    | some s' =>
      obtain ⟨rfl, hs⟩ := hrest
      cases hs
      rfl
  · rintro rfl
    exact Script.runs_bind_ok.mpr ⟨_, [], some s, rfl, Script.runs_ask.mpr ⟨_, rfl, rfl⟩, rfl, rfl⟩

theorem check_call_ok {status : Status} :
    (robust_check_call cmd).Runs l (.ok status) ↔ ∃ s, l = [.ran cmd (some s)] ∧ status = called s := by
  constructor
  · intro h
    obtain ⟨l₁, l₂, s, rfl, hrun, rfl, hs⟩ := Script.runs_bind_ok.mp h
    obtain rfl := check_output_ok.mp hrun
    cases hs
    exact ⟨s, rfl, rfl⟩
  · rintro ⟨s, rfl, rfl⟩
    exact Script.runs_bind_ok.mpr ⟨_, [], s, rfl, check_output_ok.mpr rfl, rfl, rfl⟩

theorem file_compare_ok {f g : String} {same : Bool} :
    (file_compare f g).Runs l (.ok same) ↔ l = [.compared f g (some same)] := by
  constructor
  · intro h
    obtain ⟨l₁, l₂, outcome, rfl, hask, hrest⟩ := Script.runs_bind_ok.mp h
    obtain ⟨x, rfl, hx⟩ := Script.runs_ask.mp hask
    cases hx
    cases outcome with
    | none => cases hrest.2
    | some b =>
      obtain ⟨rfl, hb⟩ := hrest
      cases hb
      rfl
  · rintro rfl
    exact Script.runs_bind_ok.mpr ⟨_, [], some same, rfl, Script.runs_ask.mpr ⟨_, rfl, rfl⟩, rfl, rfl⟩

theorem assert_ok {b : Bool} {message : String} : (assert b message).Runs l (.ok ()) ↔ l = [] ∧ b = true := by
  rw [assert, Script.runs_assert]
  cases b <;> simp

theorem runAll_ok {commands : List (List String)} : (runAll commands).Runs l (.ok ()) ↔ Succeed commands l := by
  induction commands generalizing l with
  | nil =>
    rw [Succeed, List.forall₂_nil_left_iff]
    exact ⟨fun h => h.1, fun h => ⟨h, rfl⟩⟩
  | cons c commands ih =>
    constructor
    · intro h
      obtain ⟨l₁, l₂, status, rfl, hcall, hrest⟩ := Script.runs_bind_ok.mp h
      obtain ⟨l₃, l₄, _, rfl, hassert, hrest⟩ := Script.runs_bind_ok.mp hrest
      obtain ⟨⟨code, printed⟩, rfl, rfl⟩ := check_call_ok.mp hcall
      obtain ⟨rfl, hzero⟩ := assert_ok.mp hassert
      rw [called_exit_code] at hzero
      obtain rfl := of_decide_eq_true hzero
      exact .cons ⟨printed, rfl⟩ (ih.mp hrest)
    · intro h
      obtain ⟨x, l', ⟨printed, rfl⟩, hrest, rfl⟩ := List.forall₂_cons_left_iff.mp h
      refine Script.runs_bind_ok.mpr ⟨[_], l', _, rfl, check_call_ok.mpr ⟨_, rfl, rfl⟩, ?_⟩
      exact Script.runs_bind_ok.mpr ⟨[], l', (), rfl, assert_ok.mpr ⟨rfl, by simp [called]⟩, ih.mpr hrest⟩

/-- The marks are compared with what was read, and both of them are the same, or none is. -/
def comparisons (disk : Disk) (same : Bool) : List Event :=
  [.compared (mark_data disk) (front_end disk) (some same),
    .compared (mark_data disk) (back_end disk) (some same)]

/-- The commands that are run to make the marks, or to verify them. -/
def markCommands (disk : Disk) (flag : Bool) (back : Int) : List (List String) :=
  if flag then (commands disk back).drop 3 else commands disk back

theorem mark_on_disk_ok {flag : Bool} {back : Int} : (mark_on_disk disk flag back).Runs l (.ok ()) ↔
    ∃ done, Succeed (markCommands disk flag back) done ∧ l = done ++ comparisons disk !flag := by
  constructor
  · intro h
    cases flag with
    | false =>
      obtain ⟨done, l₁, _, rfl, hall, h⟩ := Script.runs_bind_ok.mp h
      obtain ⟨l₂, l₃, front, rfl, hfront, h⟩ := Script.runs_bind_ok.mp h
      obtain ⟨l₄, l₅, _, rfl, hsame, h⟩ := Script.runs_bind_ok.mp h
      obtain ⟨l₆, l₇, back, rfl, hback, hlast⟩ := Script.runs_bind_ok.mp h
      obtain rfl := file_compare_ok.mp hfront
      obtain ⟨rfl, rfl⟩ := assert_ok.mp hsame
      obtain rfl := file_compare_ok.mp hback
      obtain ⟨rfl, rfl⟩ := assert_ok.mp hlast
      exact ⟨done, runAll_ok.mp hall, rfl⟩
    | true =>
      obtain ⟨done, l₁, _, rfl, hall, h⟩ := Script.runs_bind_ok.mp h
      obtain ⟨l₂, l₃, front, rfl, hfront, h⟩ := Script.runs_bind_ok.mp h
      obtain ⟨l₄, l₅, _, rfl, hdiffers, h⟩ := Script.runs_bind_ok.mp h
      obtain ⟨l₆, l₇, back, rfl, hback, hlast⟩ := Script.runs_bind_ok.mp h
      obtain rfl := file_compare_ok.mp hfront
      obtain ⟨rfl, hnot⟩ := assert_ok.mp hdiffers
      obtain rfl : front = false := by simpa using hnot
      obtain rfl := file_compare_ok.mp hback
      obtain ⟨rfl, hnot'⟩ := assert_ok.mp hlast
      obtain rfl : back = false := by simpa using hnot'
      exact ⟨done, runAll_ok.mp hall, rfl⟩
  · rintro ⟨done, hdone, rfl⟩
    have hcompared (f g : String) (same : Bool) :
        (file_compare f g).Runs [.compared f g (some same)] (.ok same) :=
      file_compare_ok.mpr rfl
    cases flag <;>
    · refine Script.runs_bind_ok.mpr ⟨done, _, (), rfl, runAll_ok.mpr hdone, ?_⟩
      refine Script.runs_bind_ok.mpr ⟨[_], _, _, rfl, hcompared _ _ _, ?_⟩
      refine Script.runs_bind_ok.mpr ⟨[], _, (), rfl, assert_ok.mpr ⟨rfl, rfl⟩, ?_⟩
      exact Script.runs_bind_ok.mpr ⟨[_], [], _, rfl, hcompared _ _ _, assert_ok.mpr ⟨rfl, rfl⟩⟩

/-- Tries that all ended with the exit code for trying again. -/
def Again (cmd : List String) (failed : List Event) : Prop :=
  ∀ x ∈ failed, ∃ printed, x = .ran cmd (some ⟨5, printed⟩)

theorem again_cons {printed : Text} {failed : List Event} (h : Again cmd failed) :
    Again cmd (.ran cmd (some ⟨5, printed⟩) :: failed) := by
  intro x hx
  rcases List.mem_cons.mp hx with rfl | hx
  · exact ⟨printed, rfl⟩
  · exact h x hx

/-- The last try counts; it asks for another one only when there is none left. -/
theorem tries_ok {n : Nat} {status : Status} : (tries cmd n).Runs l (.ok status) ↔
    ∃ failed s, Again cmd failed ∧ failed.length ≤ n ∧ (s.exit_code = 5 → failed.length = n) ∧
      l = failed ++ [.ran cmd (some s)] ∧ status = called s := by
  induction n generalizing l with
  | zero =>
    rw [tries, check_call_ok]
    constructor
    · rintro ⟨s, rfl, rfl⟩
      exact ⟨[], s, by simp [Again], Nat.le_refl 0, fun _ => rfl, rfl, rfl⟩
    · rintro ⟨failed, s, -, hlength, -, rfl, rfl⟩
      obtain rfl := List.eq_nil_of_length_eq_zero (Nat.le_zero.mp hlength)
      exact ⟨s, rfl, rfl⟩
  | succ n ih =>
    rw [tries, Script.runs_bind_ok]
    constructor
    · rintro ⟨l₁, l₂, status', rfl, hcall, hrest⟩
      obtain ⟨⟨code, printed⟩, rfl, rfl⟩ := check_call_ok.mp hcall
      rw [called_exit_code] at hrest
      by_cases hagain : code ∈ HDPARM_RETRY_EXITCODES
      · rw [if_pos hagain] at hrest
        obtain ⟨failed, s, hfailed, hlength, hlast, rfl, rfl⟩ := ih.mp hrest
        obtain rfl := List.mem_singleton.mp hagain
        refine ⟨_ :: failed, s, again_cons hfailed, Nat.succ_le_succ hlength, fun hs => ?_, rfl, rfl⟩
        rw [List.length_cons, hlast hs]
      · rw [if_neg hagain] at hrest
        obtain ⟨rfl, hs⟩ := hrest
        cases hs
        refine ⟨[], _, by simp [Again], Nat.zero_le _, fun hs => ?_, rfl, rfl⟩
        exact absurd (List.mem_singleton.mpr hs) hagain
    · rintro ⟨failed, s, hfailed, hlength, hlast, rfl, rfl⟩
      cases failed with
      | nil =>
        refine ⟨[_], [], _, rfl, check_call_ok.mpr ⟨s, rfl, rfl⟩, ?_⟩
        have hcode : s.exit_code ∉ HDPARM_RETRY_EXITCODES := by
          intro hs
          exact Nat.succ_ne_zero n (hlast (List.mem_singleton.mp hs)).symm
        rw [called_exit_code, if_neg hcode]
        exact ⟨rfl, rfl⟩
      | cons x failed =>
        obtain ⟨printed, rfl⟩ := hfailed x List.mem_cons_self
        refine ⟨[_], _, _, rfl, check_call_ok.mpr ⟨_, rfl, rfl⟩, ?_⟩
        have hfive : (5 : Int) ∈ HDPARM_RETRY_EXITCODES := List.mem_singleton_self 5
        rw [called_exit_code]
        simp only [if_pos hfive]
        refine ih.mpr
          ⟨failed, s, fun x hx => hfailed x (List.mem_cons_of_mem _ hx), Nat.le_of_succ_le_succ hlength,
          fun hs => Nat.succ.inj (hlast hs), rfl, rfl⟩

variable {before : List Event} {x : Event}

theorem check_output_reaches (h : (robust_check_output cmd).Reaches before x) :
    before = [] ∧ ∃ outcome, x = .ran cmd outcome := by
  rcases h.of_bind with h | ⟨l₁, outcome, l₂, rfl, -, h⟩
  · exact Script.reaches_ask h
  · cases outcome <;> exact absurd h Script.not_reaches_ret

theorem check_call_reaches (h : (robust_check_call cmd).Reaches before x) :
    before = [] ∧ ∃ outcome, x = .ran cmd outcome := by
  rcases h.of_bind with h | ⟨l₁, s, l₂, rfl, -, h⟩
  · exact check_output_reaches h
  · exact absurd h Script.not_reaches_ret

theorem tries_reaches {n : Nat} (h : (tries cmd n).Reaches before x) :
    (∃ outcome, x = .ran cmd outcome) ∧ Again cmd before ∧ before.length ≤ n := by
  induction n generalizing before with
  | zero =>
    obtain ⟨rfl, hx⟩ := check_call_reaches h
    exact ⟨hx, by simp [Again], Nat.le_refl 0⟩
  | succ n ih =>
    rcases h.of_bind with hfirst | ⟨l₁, s, l₂, rfl, hrun, hnext⟩
    · obtain ⟨rfl, hx⟩ := check_call_reaches hfirst
      exact ⟨hx, by simp [Again], Nat.zero_le _⟩
    · obtain ⟨⟨code, printed⟩, rfl, rfl⟩ := check_call_ok.mp hrun
      rw [called_exit_code] at hnext
      by_cases hagain : code ∈ HDPARM_RETRY_EXITCODES
      · rw [if_pos hagain] at hnext
        obtain ⟨hx, hbefore, hlength⟩ := ih hnext
        obtain rfl := List.mem_singleton.mp hagain
        exact ⟨hx, again_cons hbefore, Nat.succ_le_succ hlength⟩
      · rw [if_neg hagain] at hnext
        exact absurd hnext Script.not_reaches_ret

/-- A command is one of these. -/
def Among (commands : List (List String)) (x : Event) : Prop := ∀ c outcome, x = .ran c outcome → c ∈ commands

theorem check_output_only : (robust_check_output cmd).Only (Among [cmd]) := by
  intro before x h c outcome hx
  obtain ⟨-, outcome', rfl⟩ := check_output_reaches h
  cases hx
  exact List.mem_singleton_self cmd

theorem check_call_only : (robust_check_call cmd).Only (Among [cmd]) := by
  intro before x h c outcome hx
  obtain ⟨-, outcome', rfl⟩ := check_call_reaches h
  cases hx
  exact List.mem_singleton_self cmd

theorem Among.mono {commands commands' : List (List String)} (h : ∀ c ∈ commands, c ∈ commands') {x : Event}
    (hx : Among commands x) : Among commands' x :=
  fun c outcome heq => h c (hx c outcome heq)

theorem file_compare_only {f g : String} {commands : List (List String)} :
    (file_compare f g).Only (Among commands) := by
  refine (Script.only_ask ?_).bind fun outcome => ?_
  · intro y c outcome h
    cases h
  · cases outcome <;> exact Script.only_ret _

theorem runAll_only (commands : List (List String)) : (runAll commands).Only (Among commands) := by
  induction commands with
  | nil => exact Script.only_ret _
  | cons c commands ih =>
    refine (check_call_only.mono fun x => Among.mono ?_).bind fun status => (Script.only_assert _ _).bind fun _ =>
      ?_
    · simp
    · exact ih.mono fun x => Among.mono (by simp +contextual)

theorem makeFiles_only (names : List String) {commands : List (List String)} :
    (makeFiles names).Only (Among commands) := by
  induction names with
  | nil => exact Script.only_ret _
  | cons name names ih =>
    refine (Script.only_ask ?_).bind fun _ => ih
    intro y c outcome h
    cases h

theorem get_disk_size_only : (get_disk_size disk).Only (Among [["fdisk", "-l", disk.name]]) :=
  check_output_only.bind fun _ => (Script.only_assert _ _).bind fun _ => (Script.only_assert _ _).bind fun _ =>
    (makeFiles_only _).bind fun _ => Script.only_ret _

theorem mark_on_disk_only {flag : Bool} {back : Int} :
    (mark_on_disk disk flag back).Only (Among (commands disk back)) := by
  cases flag with
  | false =>
    exact (runAll_only _).bind fun _ => file_compare_only.bind fun _ => (Script.only_assert _ _).bind fun _ =>
      file_compare_only.bind fun _ => Script.only_assert _ _
  | true =>
    refine ((runAll_only _).mono fun x => Among.mono ?_).bind fun _ => file_compare_only.bind fun _ =>
      (Script.only_assert _ _).bind fun _ => file_compare_only.bind fun _ => Script.only_assert _ _
    exact fun c hc => List.mem_of_mem_drop hc

/-- The marks are written at the places for `size`, and read back as they are. -/
def Marked (disk : Disk) (size : Text) (l : List Event) : Prop :=
  ∃ printed made done, size = disk_size disk printed ∧ size ≠ "0".toList ∧
    List.Forall₂ (fun name x => ∃ b, x = .mknod name b) (mark_files disk) made ∧
    Succeed (commands disk (back_skip size)) done ∧
    l = .ran ["fdisk", "-l", disk.name] (some ⟨0, printed⟩) :: made ++ done ++ comparisons disk true

theorem makeFiles_ok {names : List String} : (makeFiles names).Runs l (.ok ()) ↔
    List.Forall₂ (fun name x => ∃ b, x = Event.mknod name b) names l := by
  induction names generalizing l with
  | nil =>
    rw [List.forall₂_nil_left_iff]
    exact ⟨fun h => h.1, fun h => ⟨h, rfl⟩⟩
  | cons name names ih =>
    constructor
    · intro h
      obtain ⟨l₁, l₂, b, rfl, hask, hrest⟩ := Script.runs_bind_ok.mp h
      obtain ⟨b, rfl, -⟩ := Script.runs_ask.mp hask
      exact .cons ⟨b, rfl⟩ (ih.mp hrest)
    · intro h
      obtain ⟨x, l', ⟨b, rfl⟩, hrest, rfl⟩ := List.forall₂_cons_left_iff.mp h
      exact Script.runs_bind_ok.mpr ⟨[_], l', b, rfl, Script.runs_ask.mpr ⟨b, rfl, rfl⟩, ih.mpr hrest⟩

theorem get_disk_size_ok : (get_disk_size disk).Runs l (.ok size) ↔
    ∃ printed made, size = disk_size disk printed ∧ size ≠ "0".toList ∧
      List.Forall₂ (fun name x => ∃ b, x = Event.mknod name b) (mark_files disk) made ∧
      l = .ran ["fdisk", "-l", disk.name] (some ⟨0, printed⟩) :: made := by
  constructor
  · intro h
    obtain ⟨l₁, l₂, ⟨code, printed⟩, rfl, hinfo, h⟩ := Script.runs_bind_ok.mp h
    obtain ⟨l₃, l₄, _, rfl, hcode, h⟩ := Script.runs_bind_ok.mp h
    obtain ⟨l₅, l₆, _, rfl, hsize, h⟩ := Script.runs_bind_ok.mp h
    obtain ⟨made, l₇, _, rfl, hmade, hresult⟩ := Script.runs_bind_ok.mp h
    obtain rfl := check_output_ok.mp hinfo
    obtain ⟨rfl, hzero⟩ := assert_ok.mp hcode
    obtain ⟨rfl, hne⟩ := assert_ok.mp hsize
    obtain ⟨rfl, hlast⟩ := hresult
    cases hlast
    obtain rfl : code = 0 := of_decide_eq_true hzero
    exact ⟨printed, made, rfl, of_decide_eq_true hne, makeFiles_ok.mp hmade, by simp⟩
  · rintro ⟨printed, made, rfl, hne, hmade, rfl⟩
    refine Script.runs_bind_ok.mpr ⟨[_], made, ⟨0, printed⟩, rfl, check_output_ok.mpr rfl, ?_⟩
    refine Script.runs_bind_ok.mpr ⟨[], made, (), rfl, assert_ok.mpr ⟨rfl, rfl⟩, ?_⟩
    refine Script.runs_bind_ok.mpr ⟨[], made, (), rfl, assert_ok.mpr ⟨rfl, decide_eq_true hne⟩, ?_⟩
    exact Script.runs_bind_ok.mpr ⟨made, [], (), by simp, makeFiles_ok.mpr hmade, rfl, rfl⟩

/-- A job that gives a status has marked the disk and tried to erase it; where the status is
zero, it has read other data at the places of the marks afterwards. -/
theorem secure_erase_base_ok {status : Status} : (secure_erase_base disk cmd).Runs l (.ok status) ↔
    ∃ size marked failed s rest, Marked disk size marked ∧ Again cmd failed ∧ failed.length ≤ 2 ∧
      (s.exit_code = 5 → failed.length = 2) ∧ l = marked ++ (failed ++ .ran cmd (some s) :: rest) ∧
      status = called s ∧
      if s.exit_code = 0 then
        ∃ done, Succeed (markCommands disk true (back_skip size)) done ∧ rest = done ++ comparisons disk false
      else rest = [] := by
  constructor
  · intro h
    obtain ⟨l₁, l₂, size, rfl, hsize, h⟩ := Script.runs_bind_ok.mp h
    obtain ⟨l₃, l₄, _, rfl, hmark, h⟩ := Script.runs_bind_ok.mp h
    obtain ⟨l₅, rest, status', rfl, htries, hrest⟩ := Script.runs_bind_ok.mp h
    obtain ⟨printed, made, heq, hne, hmade, rfl⟩ := get_disk_size_ok.mp hsize
    obtain ⟨done, hdone, rfl⟩ := mark_on_disk_ok.mp hmark
    obtain ⟨failed, s, hfailed, hlength, hlast, rfl, rfl⟩ := tries_ok.mp htries
    have hmarked : Marked disk size _ := ⟨printed, made, done, heq, hne, hmade, hdone, rfl⟩
    rw [called_exit_code] at hrest
    refine ⟨size, _, failed, s, rest, hmarked, hfailed, hlength, hlast, by simp, ?_⟩
    by_cases hzero : s.exit_code = 0
    · rw [if_pos hzero] at hrest
      obtain ⟨l₆, l₇, _, rfl, hverify, rfl, hs⟩ := Script.runs_bind_ok.mp hrest
      cases hs
      obtain ⟨done', hdone', rfl⟩ := mark_on_disk_ok.mp hverify
      rw [if_pos hzero]
      exact ⟨rfl, done', hdone', by simp⟩
    · rw [if_neg hzero] at hrest
      obtain ⟨rfl, hs⟩ := hrest
      cases hs
      rw [if_neg hzero]
      exact ⟨rfl, rfl⟩
  · rintro ⟨size, marked, failed, s, rest, hmarked, hfailed, hlength, hlast, rfl, rfl, hrest⟩
    obtain ⟨printed, made, done, heq, hne, hmade, hdone, rfl⟩ := hmarked
    refine Script.runs_bind_ok.mpr
      ⟨_, done ++ comparisons disk true ++ (failed ++ .ran cmd (some s) :: rest), size,
      by simp, get_disk_size_ok.mpr ⟨printed, made, heq, hne, hmade, rfl⟩, ?_⟩
    refine Script.runs_bind_ok.mpr ⟨_, _, (), rfl, mark_on_disk_ok.mpr ⟨done, hdone, rfl⟩, ?_⟩
    refine Script.runs_bind_ok.mpr ⟨failed ++ [_], rest, _, by simp,
      tries_ok.mpr ⟨failed, s, hfailed, hlength, hlast, rfl, rfl⟩, ?_⟩
    rw [called_exit_code]
    by_cases hzero : s.exit_code = 0
    · rw [if_pos hzero] at hrest ⊢
      obtain ⟨done', hdone', rfl⟩ := hrest
      exact Script.runs_bind_ok.mpr ⟨_, [], (), by simp, mark_on_disk_ok.mpr ⟨done', hdone', rfl⟩, rfl, rfl⟩
    · rw [if_neg hzero] at hrest ⊢
      exact ⟨hrest, rfl⟩

/-- What is run for the marks, or else the erase command: this only behind the marks, and
again only behind tries that ended with the exit code for it. -/
theorem secure_erase_base_reaches {c : List String} {outcome : Option ExitStatus}
    (h : (secure_erase_base disk cmd).Reaches before (.ran c outcome)) :
    c = ["fdisk", "-l", disk.name] ∨ (∃ back, c ∈ commands disk back) ∨
      c = cmd ∧ ∃ size marked failed, before = marked ++ failed ∧ Marked disk size marked ∧ Again cmd failed ∧
        failed.length ≤ 2 := by
  rcases h.of_bind with hx | ⟨l₁, size, l₂, rfl, hsize, hnext⟩
  · exact Or.inl (List.mem_singleton.mp (get_disk_size_only _ _ hx _ _ rfl))
  rcases hnext.of_bind with hx | ⟨l₃, _, l₄, rfl, hmark, hnext⟩
  · exact Or.inr (Or.inl ⟨_, mark_on_disk_only _ _ hx _ _ rfl⟩)
  rcases hnext.of_bind with hx | ⟨l₅, s, l₆, rfl, -, hlast⟩
  · obtain ⟨printed, made, heq, hne, hmade, rfl⟩ := get_disk_size_ok.mp hsize
    obtain ⟨done, hdone, rfl⟩ := mark_on_disk_ok.mp hmark
    obtain ⟨⟨_, hran⟩, hfailed, hlength⟩ := tries_reaches hx
    cases hran
    exact Or.inr (Or.inr ⟨rfl, size, _, l₄, by simp, ⟨printed, made, done, heq, hne, hmade, hdone, rfl⟩, hfailed,
      hlength⟩)
  · split at hlast
    · rcases hlast.of_bind with hx | ⟨l₇, _, l₈, rfl, -, hend⟩
      · exact Or.inr (Or.inl ⟨_, mark_on_disk_only _ _ hx _ _ rfl⟩)
      · exact absurd hend Script.not_reaches_ret
    · exact absurd hlast Script.not_reaches_ret

end Runs

section Sizes

theorem greedy_eq_some {β : Type} {k : Text → Option β} {s : Text} {b : β} (h : greedy k s = some b) :
    ∃ t, t <:+ s ∧ k t = some b := by
  obtain ⟨t, ht, hb⟩ := List.exists_of_findSome?_eq_some h
  exact ⟨t, (List.mem_tails t s).mp (List.mem_reverse.mp ht), hb⟩

/-- What is read as a size. -/
def Digits (d : Text) : Prop := 10 ≤ d.length ∧ ∀ c ∈ d, c.isDigit = true

theorem sizeHere_digits {s d : Text} (h : sizeHere s = some d) : Digits d := by
  unfold sizeHere at h
  split at h
  · dsimp only at h
    split at h
    · rename_i hlength
      obtain rfl := Option.some.inj h
      exact ⟨hlength.1, fun c hc => List.mem_takeWhile_imp hc⟩
    · cases h
  · cases h

theorem disk_size_digits {disk : Disk} {output : Text} (h : disk_size disk output ≠ "0".toList) :
    Digits (disk_size disk output) := by
  unfold disk_size at h ⊢
  cases hfound : (output.splitOn '\n').findSome? (sizeIn disk) with
  | none => exact absurd (by rw [hfound]; rfl) h
  | some d =>
    obtain ⟨line, -, hline⟩ := List.exists_of_findSome?_eq_some hfound
    obtain ⟨s, -, hs⟩ := greedy_eq_some hline
    obtain ⟨rest, -, hrest⟩ := Option.bind_eq_some_iff.mp hs
    obtain ⟨t, -, ht⟩ := greedy_eq_some hrest
    exact sizeHere_digits ht

theorem le_foldl_digits (d : Text) (n : Nat) :
    n * 10 ^ d.length ≤ d.foldl (fun n c => 10 * n + digitValue c) n := by
  induction d generalizing n with
  | nil => simp
  | cons c d ih =>
    calc n * 10 ^ (d.length + 1) = 10 * n * 10 ^ d.length := by ring
      _ ≤ (10 * n + digitValue c) * 10 ^ d.length := Nat.mul_le_mul_right _ (Nat.le_add_right _ _)
      _ ≤ _ := ih _

theorem digitValue_pos {c : Char} (h : c.isDigit = true) (hne : c ≠ '0') : 1 ≤ digitValue c := by
  have hle : '0'.toNat ≤ c.toNat := by
    simp only [Char.isDigit, Bool.and_eq_true, decide_eq_true_eq] at h
    exact h.1
  have hcode : c.toNat ≠ '0'.toNat := fun heq => hne (Char.toNat_inj.mp heq)
  rw [digitValue, if_pos h]
  change 48 ≤ c.toNat at hle
  change c.toNat ≠ 48 at hcode
  omega

/-- A size without a leading zero has room for both marks, one behind the other. -/
theorem marks_inside {d : Text} (h : Digits d) (hzero : d.head? ≠ some '0') :
    (FRONT_SKIP : Int) < back_skip d ∧ back_skip d + FRONT_SKIP = (number d / 512 : Nat) := by
  obtain ⟨hlength, hdigits⟩ := h
  cases d with
  | nil => simp at hlength
  | cons c d =>
    have hc : 1 ≤ digitValue c := digitValue_pos (hdigits c List.mem_cons_self) (by simpa using hzero)
    have hpow : 10 ^ 9 ≤ 10 ^ d.length := Nat.pow_le_pow_right (by omega) (by simpa using hlength)
    have hnumber : 10 ^ 9 ≤ number (c :: d) := by
      calc 10 ^ 9 ≤ 1 * 10 ^ d.length := by omega
        _ ≤ digitValue c * 10 ^ d.length := Nat.mul_le_mul_right _ hc
        _ ≤ (10 * 0 + digitValue c) * 10 ^ d.length := by rw [Nat.mul_zero, Nat.zero_add]
        _ ≤ _ := le_foldl_digits d _
    unfold back_skip FRONT_SKIP
    omega

end Sizes

section Guarded

def eraseCommand (tool : Tool) (disk : Disk) (option : Option String) : List String :=
  match tool with
  | .hdparm => ["hdparm", "--verbose", "--user-master", "u", hdparm_option option, SE_PASSWORD, disk.name]
  | .scrub => ["scrub", "-f", "-p", orDefault option "nnsa", disk.name]
  | .sg_format => ["sg_format", "-v", "--format", "--cmplst=" ++ orDefault option "1", disk.name]
  | .sg_sanitize => ["sg_sanitize", "-v", "--" ++ orDefault option "block", disk.name]

/-- What a tool asks of the drive before: `hdparm` checks it, sets the password and checks it again. -/
def Prepared (tool : Tool) (disk : Disk) (option : Option String) (l : List Event) : Prop :=
  match tool with
  | .hdparm => ∃ s printed s',
      HdparmStatus.hdparm_check_drive_status (pattern_se_support option) disk.name s = .ok () ∧
      HdparmStatus.hdparm_check_drive_status pattern_se_enabled disk.name s' = .ok () ∧
      l = [.ran ["hdparm", "-I", disk.name] (some s), .ran (setPassword disk) (some ⟨0, printed⟩),
        .ran ["hdparm", "-I", disk.name] (some s')]
  | _ => l = []

/-- The commands that are run beside the erase command. -/
def Aside (disk : Disk) (c : List String) : Prop :=
  c ∈ [["fdisk", "-l", disk.name], ["hdparm", "-I", disk.name], setPassword disk] ∨ ∃ back, c ∈ commands disk back

theorem check_drive_ok {pattern : Lookahead.Pattern Char} {disk : Disk} {l : List Event} :
    (hdparm_check_drive_status pattern disk).Runs l (.ok ()) ↔
      ∃ s, HdparmStatus.hdparm_check_drive_status pattern disk.name s = .ok () ∧
        l = [.ran ["hdparm", "-I", disk.name] (some s)] := by
  constructor
  · intro h
    obtain ⟨l₁, l₂, s, rfl, hrun, hrest⟩ := Script.runs_bind_ok.mp h
    obtain rfl := check_output_ok.mp hrun
    cases hcheck : HdparmStatus.hdparm_check_drive_status pattern disk.name s with
    | error message =>
      simp only [hcheck] at hrest
      cases hrest.2
    | ok u =>
      simp only [hcheck] at hrest
      obtain ⟨rfl, -⟩ := hrest
      exact ⟨s, hcheck, rfl⟩
  · rintro ⟨s, hcheck, rfl⟩
    refine Script.runs_bind_ok.mpr ⟨[_], [], s, rfl, check_output_ok.mpr rfl, ?_⟩
    simp only [hcheck]
    exact ⟨rfl, rfl⟩

theorem check_drive_only {pattern : Lookahead.Pattern Char} {disk : Disk} :
    (hdparm_check_drive_status pattern disk).Only (Among [["hdparm", "-I", disk.name]]) := by
  refine check_output_only.bind fun s => ?_
  cases HdparmStatus.hdparm_check_drive_status pattern disk.name s <;> exact Script.only_ret _

/-- What a tool does before `secure_erase_base`. -/
def prepare (tool : Tool) (disk : Disk) (option : Option String) : Job Unit :=
  match tool with
  | .hdparm => do
    hdparm_check_drive_status (pattern_se_support option) disk
    let exit_status ← robust_check_call (setPassword disk)
    assert (exit_status.exit_code = 0) ("Failed to set password for disk " ++ disk.name)
    hdparm_check_drive_status pattern_se_enabled disk
  | _ => pure ()

theorem tool_eq (tool : Tool) (disk : Disk) (option : Option String) : TOOL_MAPPER tool disk option =
    prepare tool disk option >>= fun _ => secure_erase_base disk (eraseCommand tool disk option) := by
  cases tool with
  | hdparm => simp only [prepare, Script.bind_assoc]; rfl
  | _ => rfl

theorem prepare_ok {tool : Tool} {disk : Disk} {option : Option String} {l : List Event} :
    (prepare tool disk option).Runs l (.ok ()) ↔ Prepared tool disk option l := by
  cases tool with
  | hdparm =>
    constructor
    · intro h
      obtain ⟨l₁, l₂, _, rfl, hsupport, h⟩ := Script.runs_bind_ok.mp h
      obtain ⟨l₃, l₄, status, rfl, hset, h⟩ := Script.runs_bind_ok.mp h
      obtain ⟨l₅, l₆, _, rfl, hassert, henabled⟩ := Script.runs_bind_ok.mp h
      obtain ⟨s, hs, rfl⟩ := check_drive_ok.mp hsupport
      obtain ⟨⟨code, printed⟩, rfl, rfl⟩ := check_call_ok.mp hset
      obtain ⟨rfl, hzero⟩ := assert_ok.mp hassert
      obtain ⟨s', hs', rfl⟩ := check_drive_ok.mp henabled
      rw [called_exit_code] at hzero
      obtain rfl : code = 0 := of_decide_eq_true hzero
      exact ⟨s, printed, s', hs, hs', rfl⟩
    · rintro ⟨s, printed, s', hs, hs', rfl⟩
      refine Script.runs_bind_ok.mpr ⟨[_], _, (), rfl, check_drive_ok.mpr ⟨s, hs, rfl⟩, ?_⟩
      refine Script.runs_bind_ok.mpr ⟨[_], _, _, rfl, check_call_ok.mpr ⟨⟨0, printed⟩, rfl, rfl⟩, ?_⟩
      refine Script.runs_bind_ok.mpr ⟨[], _, (), rfl, assert_ok.mpr ⟨rfl, by simp [called]⟩, ?_⟩
      exact check_drive_ok.mpr ⟨s', hs', rfl⟩
  | _ => exact ⟨fun h => h.1, fun h => ⟨h, rfl⟩⟩

theorem prepare_only {tool : Tool} {disk : Disk} {option : Option String} :
    (prepare tool disk option).Only (Among [["hdparm", "-I", disk.name], setPassword disk]) := by
  have hcheck (pattern : Lookahead.Pattern Char) :
      (hdparm_check_drive_status pattern disk).Only (Among [["hdparm", "-I", disk.name], setPassword disk]) :=
    check_drive_only.mono fun x => Among.mono (by simp)
  cases tool with
  | hdparm =>
    refine (hcheck _).bind fun _ => (check_call_only.mono fun x => Among.mono ?_).bind fun _ =>
      (Script.only_assert _ _).bind fun _ => hcheck _
    simp
  | _ => exact Script.only_ret _

/-- How a job has run that gives a status. -/
def Completed (tool : Tool) (disk : Disk) (option : Option String) (s : ExitStatus) (l : List Event) : Prop :=
  ∃ size prepared marked failed rest, Prepared tool disk option prepared ∧ Marked disk size marked ∧
    Again (eraseCommand tool disk option) failed ∧ failed.length ≤ 2 ∧ (s.exit_code = 5 → failed.length = 2) ∧
    l = prepared ++ marked ++ (failed ++ .ran (eraseCommand tool disk option) (some s) :: rest) ∧
    if s.exit_code = 0 then
      ∃ done, Succeed (markCommands disk true (back_skip size)) done ∧ rest = done ++ comparisons disk false
    else rest = []

theorem tool_ok {tool : Tool} {disk : Disk} {option : Option String} {l : List Event} {status : Status} :
    (TOOL_MAPPER tool disk option).Runs l (.ok status) ↔
      ∃ s, Completed tool disk option s l ∧ status = called s := by
  rw [tool_eq, Script.runs_bind_ok]
  constructor
  · rintro ⟨prepared, l', _, rfl, hprepare, hbase⟩
    obtain ⟨size, marked, failed, s, rest, hmarked, hfailed, hlength, hlast, rfl, rfl, hrest⟩ :=
      secure_erase_base_ok.mp hbase
    exact ⟨s, ⟨size, prepared, marked, failed, rest, prepare_ok.mp hprepare, hmarked, hfailed, hlength, hlast,
      by simp, hrest⟩, rfl⟩
  · rintro ⟨s, ⟨size, prepared, marked, failed, rest, hprepared, hmarked, hfailed, hlength, hlast, rfl, hrest⟩,
      rfl⟩
    exact ⟨prepared, _, (), by simp, prepare_ok.mpr hprepared, secure_erase_base_ok.mpr
      ⟨size, marked, failed, s, rest, hmarked, hfailed, hlength, hlast, rfl, rfl, hrest⟩⟩

def sda : Disk where
  name := "/dev/sda"
  plain := by simp

def sdaSize : Text := "400088457216".toList

/-- What is done to the disk before the first try. -/
def marking : List Event :=
  .ran ["fdisk", "-l", "/dev/sda"] (some ⟨0, "Disk /dev/sda: 400.1 GB, 400088457216 bytes".toList⟩) ::
    (mark_files sda).map (.mknod · true) ++ (commands sda (back_skip sdaSize)).map (.ran · (some ⟨0, []⟩)) ++
    comparisons sda true

theorem succeed_map (commands : List (List String)) :
    Succeed commands (commands.map (.ran · (some ⟨0, []⟩))) := by
  induction commands with
  | nil => exact .nil
  | cons c commands ih => exact .cons ⟨[], rfl⟩ ih

theorem marking_marked : Marked sda sdaSize marking := by
  refine ⟨_, _, _, by decide +kernel, by decide, ?_, succeed_map _, rfl⟩
  exact .cons ⟨true, rfl⟩ (.cons ⟨true, rfl⟩ (.cons ⟨true, rfl⟩ .nil))

/-- The erase command is run behind the checks of its tool and behind marks that were read
back as they are, which lie at both ends of the disk; and it is tried at most three times,
again only where the exit code asks for it. -/
theorem erase_guarded (tool : Tool) (disk : Disk) (option : Option String) (before : List Event) (c : List String)
    (outcome : Option ExitStatus) (h : (TOOL_MAPPER tool disk option).Reaches before (.ran c outcome)) :
    Aside disk c ∨
      c = eraseCommand tool disk option ∧ ∃ size prepared marked failed, before = prepared ++ (marked ++ failed) ∧
        Prepared tool disk option prepared ∧ Marked disk size marked ∧ Again c failed ∧ failed.length ≤ 2 ∧
        (size.head? ≠ some '0' →
          (FRONT_SKIP : Int) < back_skip size ∧ back_skip size + FRONT_SKIP = (number size / 512 : Nat)) := by
  rw [tool_eq] at h
  rcases h.of_bind with hx | ⟨prepared, _, l, rfl, hprepare, hnext⟩
  · have hc := prepare_only _ _ hx c outcome rfl
    exact Or.inl (Or.inl (List.mem_cons_of_mem _ hc))
  rcases secure_erase_base_reaches hnext
    with rfl | hmarks | ⟨rfl, size, marked, failed, rfl, hmarked, hfailed, hlength⟩
  · exact Or.inl (Or.inl List.mem_cons_self)
  · exact Or.inl (Or.inr hmarks)
  · refine Or.inr ⟨rfl, size, prepared, marked, failed, rfl, prepare_ok.mp hprepare, hmarked, hfailed, hlength,
      ?_⟩
    obtain ⟨printed, _, _, rfl, hne, -⟩ := hmarked
    exact marks_inside (disk_size_digits hne)

/-- What `hdparm -I` prints before its password is set, and after. -/
def unset : ExitStatus := ⟨0, HdparmStatus.driveOutput "\tnot\tenabled\n".toList []⟩

def enabled : ExitStatus := ⟨0, HdparmStatus.driveOutput "\t\tenabled\n".toList []⟩

def preparing : List Event :=
  [.ran ["hdparm", "-I", sda.name] (some unset), .ran (setPassword sda) (some ⟨0, []⟩),
    .ran ["hdparm", "-I", sda.name] (some enabled)]

theorem preparing_prepared : Prepared .hdparm sda none preparing := by
  refine ⟨unset, [], enabled, HdparmStatus.check_ok_of_any _ ?_, HdparmStatus.check_ok_of_any _ ?_, rfl⟩ <;>
    decide +kernel

/-- The first try asks for another one. -/
theorem erase_guarded_hdparm : ∃ c size prepared marked failed,
    preparing ++ marking ++ [.ran c (some ⟨5, []⟩)] = prepared ++ (marked ++ failed) ∧
      c = eraseCommand .hdparm sda none ∧
      Prepared .hdparm sda none prepared ∧ Marked sda size marked ∧ Again c failed ∧ failed.length ≤ 2 := by
  let c := eraseCommand .hdparm sda none
  let failed : List Event := [.ran c (some ⟨5, []⟩)]
  have hagain : Again c failed := again_cons (fun x hx => absurd hx List.not_mem_nil)
  have hrun : (TOOL_MAPPER .hdparm sda none).Runs (preparing ++ marking ++ (failed ++ [.ran c (some ⟨1, []⟩)]))
      (.ok (called ⟨1, []⟩)) :=
    tool_ok.mpr ⟨_, ⟨sdaSize, preparing, marking, failed, [], preparing_prepared, marking_marked, hagain,
      by simp [failed], by simp, rfl, by simp⟩, rfl⟩
  rcases erase_guarded .hdparm sda none (preparing ++ marking ++ failed) c (some ⟨1, []⟩)
    ⟨[], _, by simpa using hrun⟩
    with h | ⟨hc, size, prepared, marked, failed', heq, hprepared, hmarked, hagain', hlength, -⟩
  · rcases h with h | ⟨back, h⟩ <;> simp [c, eraseCommand, setPassword, commands, hdparm_option] at h
  · exact ⟨c, size, prepared, marked, failed', heq, hc, hprepared, hmarked, hagain', hlength⟩

end Guarded

end OnTaskGraph.EraseJob
