import OnTaskGraph.EraseJob

/-! The secure erase script as a whole: the disks that its arguments stand for, the jobs that
run beside each other, and what it exits with. What becomes of the data is followed through
the events of all jobs, whatever their order. -/

namespace OnTaskGraph.EraseRun

open EraseJob
open EraseProgress (Tool)
open HdparmStatus (ExitStatus)
open JsText (Text)
open Script (Through own)

section Disks

structure DiskArgument extends SecureErase.DiskArgument where
  diskName : Text
  virtualDisk : Option Text

def RAID_VENDOR_LIST (vendor : Text) : Option Text :=
  if vendor = "lsi".toList then some "/opt/MegaRAID/storcli/storcli64".toList
  else if vendor = "dell".toList then some "/opt/MegaRAID/perccli/perccli64".toList
  else none

/-- What is met outside: the paths that exist and, for each argument by its place, whether the
RAID tool succeeds in switching to JBOD, deleting the virtual disk and setting a slot, and
what each `ls` prints. -/
structure Outside where
  pathExists : Text → Bool
  jbodOn : Nat → Bool
  delete : Nat → Bool
  jbod : Nat → Text → Bool
  ls : Nat → Nat → Nat → Option Text

/-- Whether there is the tool of the vendor, where it is needed for the first time. -/
def validate (v : Text) (outside : Outside) (needed : Bool) : Except SecureErase.Failure Unit :=
  if needed then
    match RAID_VENDOR_LIST (if v = [] then "lsi".toList else v) with
    | none => .error (.assertionError "RAID controller vendor info is invalid".toList)
    | some raid_tool =>
      if outside.pathExists raid_tool then .ok ()
      else .error (.assertionError ("Overlay doesn't include tool path: ".toList ++ raid_tool))
  else .ok ()

/-- The disks of one argument: its own, or those of its virtual disk. -/
def disksOf (outside : Outside) (i : Nat) (disk_argument : DiskArgument) :
    Except SecureErase.Failure (List Text) :=
  if disk_argument.virtualDisk.getD [] = [] then .ok [disk_argument.diskName]
  else if outside.jbodOn i && outside.delete i then
    SecureErase.create_jbod (outside.jbod i) (outside.ls i) disk_argument.toDiskArgument
  else .error .calledProcessError

/-- The loop over the arguments, from the `i`-th one on. -/
def convertFrom (v : Text) (outside : Outside) :
    Nat → Bool → List DiskArgument → Except SecureErase.Failure (List Text)
  | _, _, [] => .ok []
  | i, validated, disk_argument :: rest => do
    let raid := decide (disk_argument.virtualDisk.getD [] ≠ [])
    validate v outside (raid && !validated)
    let disks ← disksOf outside i disk_argument
    let others ← convertFrom v outside (i + 1) (validated || raid) rest
    pure (disks ++ others)

def convert_raid_to_jbod (v : Text) (outside : Outside) (disk_argument_list : List DiskArgument) :
    Except SecureErase.Failure (List Text) :=
  if disk_argument_list = [] then .error (.assertionError "no disk arguments includes".toList)
  else convertFrom v outside 0 false disk_argument_list

end Disks

section Exits

structure ProcessResult where
  exitcode : Int
  message : Option String

/-- Any other exception than a failed assertion is raised again. -/
def get_process_exit_status (async_result : Except Failure Status) : Except Failure ProcessResult :=
  match async_result with
  | .error (.assertionError message) => .ok ⟨-1, some message⟩
  | .error e => .error e
  | .ok status =>
    .ok ⟨status.exit_code,
      if status.exit_code = 0 then some "Secure erase completed successfully" else status.message⟩

/-- How the script ends. -/
inductive Exit
  | success
  | exception (e : Failure)
  | failure (msg : String)
  deriving DecidableEq

def collect (results : Disk → Except Failure Status) : List Disk → Except Failure (List (Disk × ProcessResult))
  | [] => .ok []
  | disk :: disks => do
    let erase_result ← get_process_exit_status (results disk)
    let rest ← collect results disks
    pure ((disk, erase_result) :: rest)

def toolName : Tool → String
  | .hdparm => "hdparm"
  | .scrub => "scrub"
  | .sg_format => "sg_format"
  | .sg_sanitize => "sg_sanitize"

def main (tool : Tool) (disk_list : List Disk) (results : Disk → Except Failure Status) : Exit :=
  match collect results disk_list with
  | .error e => .exception e
  | .ok erase_result_list =>
    match erase_result_list.find? (·.2.exitcode ≠ 0) with
    | none => .success
    | some (disk, erase_result) =>
      .failure ("Drive " ++ disk.name ++ " failed to run secure erase with tool " ++ toolName tool ++
        ", error info are: \n " ++ erase_result.message.getD "None")

theorem get_process_exit_status_zero {r : Except Failure Status} :
    (∃ p, get_process_exit_status r = .ok p ∧ p.exitcode = 0) ↔
      ∃ status, r = .ok status ∧ status.exit_code = 0 := by
  rcases r with (message | _) | status <;> simp [get_process_exit_status]

theorem main_cons_success {tool : Tool} {disk : Disk} {disks : List Disk}
    {results : Disk → Except Failure Status} :
    main tool (disk :: disks) results = .success ↔
      (∃ p, get_process_exit_status (results disk) = .ok p ∧ p.exitcode = 0) ∧
        main tool disks results = .success := by
  unfold main
  rw [collect]
  cases hresult : get_process_exit_status (results disk) with
  | error e => simp [bind, Except.bind]
  | ok p =>
    cases hrest : collect results disks with
    | error e => simp [bind, Except.bind]
    | ok rs =>
      by_cases hzero : p.exitcode = 0
      · simp [bind, Except.bind, pure, Except.pure, hzero]
      · simp [bind, Except.bind, pure, Except.pure, hzero]

/-- The script succeeds if and only if every job has given the exit code zero. -/
theorem main_success {tool : Tool} {disk_list : List Disk} {results : Disk → Except Failure Status} :
    main tool disk_list results = .success ↔
      ∀ disk ∈ disk_list, ∃ status, results disk = .ok status ∧ status.exit_code = 0 := by
  induction disk_list with
  | nil => simp [main, collect]
  | cons disk disks ih => rw [main_cons_success, get_process_exit_status_zero, ih, List.forall_mem_cons]

end Exits

section Data

/-- What can be seen of a disk's job: the sectors of the disk, and what is in a file and what
is known of it, its type, size and times, which `file_compare` may be content with. -/
structure View where
  sector : Int → Text
  file : String → Text
  stat : String → Text

/-- What an event of a disk's job can do: `dd` reads a sector into a file; two files that
compare as the same are so in what is in them or in what is known of them, and others
differ in what is in them; and the tools leave the mark files alone. -/
structure Allowed (disk : Disk) (v : View) (x : Event) (w : View) : Prop where
  read : ∀ n f printed,
    x = .ran ["dd", "if=" ++ disk.name, "of=" ++ f, "skip=" ++ toString n, "count=1"] (some ⟨0, printed⟩) →
      w.sector = v.sector ∧ w.file f = v.sector n ∧ ∀ g ∈ mark_files disk, g ≠ f → w.file g = v.file g
  compared : ∀ f g same, x = .compared f g (some same) →
    w = v ∧ if same then v.file f = v.file g ∨ v.stat f = v.stat g else v.file f ≠ v.file g
  erase : ∀ tool option outcome, x = .ran (eraseCommand tool disk option) outcome →
    ∀ f ∈ mark_files disk, w.file f = v.file f

/-- The jobs leave what belongs to disks of other names. -/
def Step (s : Disk → View) (x : Disk × Event) (t : Disk → View) : Prop :=
  Allowed x.1 (s x.1) x.2 (t x.1) ∧ ∀ disk, disk.base ≠ x.1.base → t disk = s disk

variable {disk : Disk} {u v w : View} {back : Int} {l : List Event}

theorem mark_ne_front : mark_data disk ≠ front_end disk := by
  simp [mark_data, front_end]

theorem mark_ne_back : mark_data disk ≠ back_end disk := by
  simp [mark_data, back_end]

theorem front_ne_back : front_end disk ≠ back_end disk := by
  simp [front_end, back_end]

theorem mem_mark_files : mark_data disk ∈ mark_files disk ∧ front_end disk ∈ mark_files disk := by
  simp [mark_files]

/-- What is read from the places of the marks. -/
theorem reads_through (h : Through (Allowed disk) v l w) (hl : Succeed (markCommands disk true back) l) :
    w.sector = v.sector ∧ w.file (mark_data disk) = v.file (mark_data disk) ∧
      w.file (front_end disk) = v.sector FRONT_SKIP ∧ w.file (back_end disk) = v.sector back := by
  obtain ⟨x, l, ⟨printed, rfl⟩, hrest, rfl⟩ := List.forall₂_cons_left_iff.mp hl
  obtain ⟨y, l, ⟨printed', rfl⟩, hnil, rfl⟩ := List.forall₂_cons_left_iff.mp hrest
  obtain rfl := List.forall₂_nil_left_iff.mp hnil
  obtain ⟨u, hfront, w, hback, rfl⟩ := h
  obtain ⟨hsector, hread, hother⟩ := hfront.read FRONT_SKIP (front_end disk) printed rfl
  obtain ⟨hsector', hread', hother'⟩ := hback.read back (back_end disk) printed' rfl
  refine ⟨hsector'.trans hsector, ?_, ?_, ?_⟩
  · rw [hother' _ mem_mark_files.1 mark_ne_back, hother _ mem_mark_files.1 mark_ne_front]
  · rw [hother' _ mem_mark_files.2 front_ne_back, hread]
  · rw [hread', hsector]

theorem comparisons_through {same : Bool} (h : Through (Allowed disk) v (comparisons disk same) w) :
    w = v ∧ (∀ f ∈ [front_end disk, back_end disk],
      if same then v.file (mark_data disk) = v.file f ∨ v.stat (mark_data disk) = v.stat f
      else v.file (mark_data disk) ≠ v.file f) := by
  obtain ⟨u, hfront, w, hback, rfl⟩ := h
  obtain ⟨rfl, hfirst⟩ := hfront.compared _ _ _ rfl
  obtain ⟨rfl, hsecond⟩ := hback.compared _ _ _ rfl
  refine ⟨rfl, fun f hf => ?_⟩
  rcases List.mem_pair.mp hf with rfl | rfl
  · exact hfirst
  · exact hsecond

/-- Nothing is known of the files that would let them pass as the same without being read. -/
def Fresh (disk : Disk) (v : View) : Prop :=
  ∀ f ∈ [front_end disk, back_end disk], v.stat (mark_data disk) ≠ v.stat f

theorem marked_through {size : Text} (h : Through (Allowed disk) v l w) (hl : Marked disk size l)
    (hfresh : Fresh disk w) :
    w.file (mark_data disk) = w.sector FRONT_SKIP ∧ w.file (mark_data disk) = w.sector (back_skip size) := by
  obtain ⟨printed, made, done, -, -, -, hdone, rfl⟩ := hl
  rw [← List.take_append_drop 3 done, ← List.append_assoc, List.append_assoc _ (done.drop 3)] at h
  obtain ⟨a, -, h⟩ := Script.through_append.mp h
  obtain ⟨b, hreads, hcompared⟩ := Script.through_append.mp h
  obtain ⟨hsector, -, hfront, hback⟩ := reads_through hreads (List.forall₂_drop 3 hdone)
  obtain ⟨rfl, hsame⟩ := comparisons_through hcompared
  have hfile : ∀ f ∈ [front_end disk, back_end disk], w.file (mark_data disk) = w.file f := by
    intro f hf
    exact (hsame f hf).resolve_right (hfresh f hf)
  rw [hsector, ← hfront, ← hback]
  exact ⟨hfile _ (by simp), hfile _ (by simp)⟩

theorem verified_through {done : List Event} (h : Through (Allowed disk) v (done ++ comparisons disk false) w)
    (hdone : Succeed (markCommands disk true back) done) :
    v.file (mark_data disk) ≠ v.sector FRONT_SKIP ∧ v.file (mark_data disk) ≠ v.sector back := by
  obtain ⟨a, hreads, hcompared⟩ := Script.through_append.mp h
  obtain ⟨-, hmark, hfront, hback⟩ := reads_through hreads hdone
  obtain ⟨rfl, hdiffers⟩ := comparisons_through hcompared
  rw [← hmark, ← hfront, ← hback]
  exact ⟨hdiffers _ (by simp), hdiffers _ (by simp)⟩

/-- The events of the tries. -/
def Tries (tool : Tool) (disk : Disk) (option : Option String) (l : List Event) : Prop :=
  ∀ x ∈ l, ∃ outcome, x = .ran (eraseCommand tool disk option) outcome

theorem tries_through {tool : Tool} {option : Option String} (h : Through (Allowed disk) v l w)
    (hl : Tries tool disk option l) : w.file (mark_data disk) = v.file (mark_data disk) := by
  refine h.keeps (fun u => u.file (mark_data disk) = v.file (mark_data disk)) ?_ hl rfl
  rintro a x b ⟨outcome, rfl⟩ hx ha
  rw [hx.erase tool option outcome rfl _ mem_mark_files.1, ha]

/-- Between two states of a run, the data of the disk has changed at the places of both marks,
for the size that was read before, and its job has only run the erase command. -/
def Overwritten (tool : Tool) (option : Option String) (s : Disk → View) (log : List (Disk × Event))
    (t : Disk → View) (disk : Disk) : Prop :=
  ∃ before erase after a b printed, log = before ++ (erase ++ after) ∧ Through Step s before a ∧
    Through Step a erase b ∧ Through Step b after t ∧ Tries tool disk option (own disk erase) ∧
    .ran ["fdisk", "-l", disk.name] (some ⟨0, printed⟩) ∈ own disk before ∧
    (Fresh disk (a disk) → (a disk).sector FRONT_SKIP ≠ (b disk).sector FRONT_SKIP ∧
      (a disk).sector (back_skip (disk_size disk printed)) ≠ (b disk).sector (back_skip (disk_size disk printed)))

variable {tool : Tool} {option : Option String} {s t : Disk → View} {log : List (Disk × Event)}
  {disks : List Disk}

theorem step_project (hbase : ∀ d ∈ disks, ∀ d' ∈ disks, d.base = d'.base → d = d')
    (hlog : ∀ x ∈ log, x.1 ∈ disks)
    (hdisk : disk ∈ disks) (h : Through Step s log t) :
    Through (Allowed disk) (s disk) (own disk log) (t disk) := by
  have hown (s : Disk → View) (x : Event) (t : Disk → View) (hx : Step s (disk, x) t) :
      Allowed disk (s disk) x (t disk) := hx.1
  refine Script.Through.project disk (fun s => s disk) hown (fun s d x t hx hd hstep => ?_) h
  exact hstep.2 disk fun hsame => hd (hbase d (hlog _ hx) disk hdisk hsame.symm)

/-- A job that gives the exit code zero has overwritten its disk. -/
theorem overwritten_of_completed {e : ExitStatus} (hbase : ∀ d ∈ disks, ∀ d' ∈ disks, d.base = d'.base → d = d')
    (hlog : ∀ x ∈ log, x.1 ∈ disks) (hdisk : disk ∈ disks) (h : Through Step s log t)
    (hjob : Completed tool disk option e (own disk log)) (hzero : e.exit_code = 0) :
    Overwritten tool option s log t disk := by
  obtain ⟨size, prepared, marked, failed, rest, -, hmarked, hfailed, -, -, hown, hrest⟩ := hjob
  rw [if_pos hzero] at hrest
  obtain ⟨done, hdone, rfl⟩ := hrest
  obtain ⟨before, others, rfl, hbefore, hothers⟩ := Script.own_eq_append hown
  rw [← List.singleton_append, ← List.append_assoc] at hothers
  obtain ⟨erase, after, rfl, herase, hafter⟩ := Script.own_eq_append hothers
  obtain ⟨a, hsa, h⟩ := Script.through_append.mp h
  obtain ⟨b, hab, hbt⟩ := Script.through_append.mp h
  have htries : Tries tool disk option (own disk erase) := by
    intro x hx
    rw [herase] at hx
    rcases List.mem_append.mp hx with hx | hx
    · obtain ⟨printed, rfl⟩ := hfailed x hx
      exact ⟨_, rfl⟩
    · exact ⟨_, List.mem_singleton.mp hx⟩
  obtain ⟨printed, hsize, hfdisk⟩ : ∃ printed, size = disk_size disk printed ∧
      .ran ["fdisk", "-l", disk.name] (some ⟨0, printed⟩) ∈ own disk before := by
    obtain ⟨printed, made, done', rfl, -, -, -, rfl⟩ := hmarked
    exact ⟨printed, rfl, by simp [hbefore]⟩
  rw [hsize] at hmarked hdone
  refine ⟨before, erase, after, a, b, printed, rfl, hsa, hab, hbt, htries, hfdisk, fun hfresh => ?_⟩
  have hpre := step_project hbase (fun x hx => hlog x (by simp [hx])) hdisk hsa
  have hmid := step_project hbase (fun x hx => hlog x (by simp [hx])) hdisk hab
  have hpost := step_project hbase (fun x hx => hlog x (by simp [hx])) hdisk hbt
  rw [hbefore] at hpre
  obtain ⟨c, -, hpre⟩ := Script.through_append.mp hpre
  obtain ⟨hfront, hback⟩ := marked_through hpre hmarked hfresh
  rw [hafter] at hpost
  obtain ⟨hfront', hback'⟩ := verified_through hpost hdone
  rw [tries_through hmid htries] at hfront' hback'
  exact ⟨hfront ▸ hfront', hback ▸ hback'⟩

end Data

section Sound

theorem bind_eq_ok {ε α β : Type} {x : Except ε α} {f : α → Except ε β} {b : β} :
    x >>= f = .ok b ↔ ∃ a, x = .ok a ∧ f a = .ok b := by
  cases x <;> simp [bind, Except.bind]

theorem convertFrom_ok {v : Text} {outside : Outside} {i : Nat} {validated : Bool} {args : List DiskArgument}
    {names : List Text} (h : convertFrom v outside i validated args = .ok names) :
    ∀ k arg, args[k]? = some arg →
      ∃ disks, disksOf outside (i + k) arg = .ok disks ∧ ∀ name ∈ disks, name ∈ names := by
  induction args generalizing i validated names with
  | nil => simp
  | cons arg args ih =>
    obtain ⟨_, -, h⟩ := bind_eq_ok.mp h
    obtain ⟨disks, hdisks, h⟩ := bind_eq_ok.mp h
    obtain ⟨others, hothers, h⟩ := bind_eq_ok.mp h
    cases h
    intro k arg' hk
    cases k with
    | zero =>
      obtain rfl : arg = arg' := by simpa using hk
      exact ⟨disks, hdisks, fun name hname => List.mem_append_left _ hname⟩
    | succ k =>
      obtain ⟨given, hgiven, hmem⟩ := ih hothers k arg' (by simpa using hk)
      rw [Nat.add_assoc, Nat.add_comm 1] at hgiven
      exact ⟨given, hgiven, fun name hname => List.mem_append_right _ (hmem name hname)⟩

theorem convert_ok {v : Text} {outside : Outside} {args : List DiskArgument} {names : List Text}
    (h : convert_raid_to_jbod v outside args = .ok names) (k : Nat) (arg : DiskArgument)
    (hk : args[k]? = some arg) :
    ∃ disks, disksOf outside k arg = .ok disks ∧ ∀ name ∈ disks, name ∈ names := by
  unfold convert_raid_to_jbod at h
  split at h
  · cases h
  · have hdisks := convertFrom_ok h k arg hk
    rwa [Nat.zero_add] at hdisks

/-- Where the script succeeds, each disk that an argument stands for has been overwritten at
both marks, whatever the order was in which the jobs of all disks went on. -/
theorem secure_erase_sound (tool : Tool) (option : Option String) (v : Text) (outside : Outside)
    (args : List DiskArgument) (names : List Text) (disk_list : List Disk)
    (results : Disk → Except Failure Status)
    (log : List (Disk × Event)) (s t : Disk → View) (hnames : convert_raid_to_jbod v outside args = .ok names)
    (hset : ∀ name ∈ names, ∃ disk ∈ disk_list, disk.name.toList = name)
    (hbase : ∀ d ∈ disk_list, ∀ d' ∈ disk_list, d.base = d'.base → d = d')
    (hlog : ∀ x ∈ log, x.1 ∈ disk_list) (hthrough : Through Step s log t)
    (hjobs : ∀ disk ∈ disk_list, (TOOL_MAPPER tool disk option).Runs (own disk log) (results disk))
    (hmain : main tool disk_list results = .success) (k : Nat) (arg : DiskArgument) (hk : args[k]? = some arg) :
    ∃ disks, disksOf outside k arg = .ok disks ∧ ∀ name ∈ disks, ∃ disk ∈ disk_list, disk.name.toList = name ∧
      Overwritten tool option s log t disk := by
  obtain ⟨disks, hdisks, hmem⟩ := convert_ok hnames k arg hk
  refine ⟨disks, hdisks, fun name hname => ?_⟩
  obtain ⟨disk, hdisk, rfl⟩ := hset name (hmem name hname)
  obtain ⟨status, hstatus, hzero⟩ := main_success.mp hmain disk hdisk
  have hruns := hjobs disk hdisk
  rw [hstatus] at hruns
  obtain ⟨e, hcompleted, rfl⟩ := tool_ok.mp hruns
  rw [called_exit_code] at hzero
  exact ⟨disk, hdisk, rfl, overwritten_of_completed hbase hlog hdisk hthrough hcompleted hzero⟩

/-- Every sector is `d`, and every file `c`. -/
def uniform (d c : Text) : View where
  sector := fun _ => d
  file := fun _ => c
  stat := String.toList

/-- Every sector is read into the file. -/
def readInto (f : String) (v : View) : View := { v with file := Function.update v.file f (v.sector 0) }

/-- The state in which the job of `sda` sees `v`. -/
def seen (v : View) (disk : Disk) : View := if disk = sda then v else uniform [] []

theorem step_seen {v w : View} {x : Event} (h : Allowed sda v x w) : Step (seen v) (sda, x) (seen w) := by
  refine ⟨by simpa [seen] using h, fun disk hdisk => ?_⟩
  have hne : disk ≠ sda := by
    rintro rfl
    exact hdisk rfl
  simp [seen, hne]

theorem through_seen {v w : View} {l : List Event} (h : Through (Allowed sda) v l w) :
    Through Step (seen v) (l.map (sda, ·)) (seen w) := by
  induction l generalizing v with
  | nil => exact congrArg seen h
  | cons x l ih =>
    obtain ⟨u, hu, hrest⟩ := h
    exact ⟨seen u, step_seen hu, ih hrest⟩

theorem allowed_uniform {c : Text} {x : Event} (hx : ∀ f g, x ≠ .compared f g (some false)) :
    Allowed sda (uniform c c) x (uniform c c) := by
  refine ⟨fun _ _ _ _ => ⟨rfl, rfl, fun _ _ _ => rfl⟩, ?_, fun _ _ _ _ _ _ => rfl⟩
  rintro f g (_ | _) rfl
  · exact absurd rfl (hx f g)
  · exact ⟨rfl, Or.inl rfl⟩

theorem allowed_read {v : View} (f : String) (n : Int) (hv : ∀ m, v.sector m = v.sector 0) :
    Allowed sda v (.ran ["dd", "if=" ++ sda.name, "of=" ++ f, "skip=" ++ toString n, "count=1"] (some ⟨0, []⟩))
      (readInto f v) := by
  refine ⟨fun m g printed h => ?_, fun f g same h => ?_, fun tool option outcome h => ?_⟩
  · obtain rfl : f = g := by
      simp only [Event.ran.injEq, List.cons.injEq] at h
      simpa using h.1.2.2.1
    exact ⟨rfl, by simp [readInto, hv m], fun g _ hg => by simp [readInto, hg]⟩
  · cases h
  · cases tool <;> simp [eraseCommand] at h

theorem allowed_differs {v : View} {g : String} (h : v.file (mark_data sda) ≠ v.file g) :
    Allowed sda v (.compared (mark_data sda) g (some false)) v := by
  refine ⟨fun _ _ _ hx => ?_, fun f g' same hx => ?_, fun _ _ _ hx => ?_⟩
  · cases hx
  · cases hx
    exact ⟨rfl, h⟩
  · cases hx

/-- The sectors are zeroed by the erase command. -/
theorem allowed_scrub (outcome : Option ExitStatus) :
    Allowed sda (uniform ['x'] ['x']) (.ran (eraseCommand .scrub sda none) outcome) (uniform [] ['x']) := by
  refine ⟨fun _ _ _ h => ?_, fun _ _ _ h => ?_, fun _ _ _ _ _ _ => rfl⟩
  · simp [eraseCommand] at h
  · cases h

def verifying : List Event :=
  (markCommands sda true (back_skip sdaSize)).map (.ran · (some ⟨0, []⟩)) ++ comparisons sda false

def erasing : List Event := marking ++ .ran (eraseCommand .scrub sda none) (some ⟨0, []⟩) :: verifying

theorem erasing_completed : Completed .scrub sda none ⟨0, []⟩ erasing :=
  ⟨sdaSize, [], marking, [], verifying, rfl, marking_marked, by simp [Again], by simp, by simp, rfl,
    by rw [if_pos rfl]; exact ⟨_, succeed_map _, rfl⟩⟩

theorem erasing_through : Through (Allowed sda) (uniform ['x'] ['x']) erasing
    (readInto (back_end sda) (readInto (front_end sda) (uniform [] ['x']))) := by
  refine Script.through_append.mpr ⟨uniform ['x'] ['x'], Script.through_stay fun x hx => allowed_uniform ?_, ?_⟩
  · rintro f g rfl
    simp [marking, mark_files, commands, comparisons] at hx
  · refine ⟨_, allowed_scrub _, _, allowed_read (front_end sda) FRONT_SKIP fun _ => rfl, _,
      allowed_read (back_end sda) (back_skip sdaSize) fun _ => rfl, ?_⟩
    refine ⟨_, allowed_differs ?_, _, allowed_differs ?_, rfl⟩
    · simp [readInto, uniform, mark_data, front_end, back_end]
    · simp [readInto, uniform, mark_data, front_end, back_end]

/-- One disk without a virtual disk. -/
def sdaArgument : DiskArgument := ⟨⟨[], [], []⟩, "/dev/sda".toList, none⟩

def noRaid : Outside := ⟨fun _ => false, fun _ => false, fun _ => false, fun _ _ => false, fun _ _ _ => none⟩

theorem own_map (l : List Event) : own sda (l.map (sda, ·)) = l := by
  induction l with
  | nil => rfl
  | cons x l ih =>
    rw [own] at ih
    simp [own, ih]

theorem secure_erase_sound_scrub :
    ∃ t, Overwritten .scrub none (seen (uniform ['x'] ['x'])) (erasing.map (sda, ·)) t sda := by
  have hjobs : ∀ disk ∈ [sda], (TOOL_MAPPER .scrub disk none).Runs (own disk (erasing.map (sda, ·)))
      (.ok (called ⟨0, []⟩)) := by
    intro disk hdisk
    obtain rfl := List.mem_singleton.mp hdisk
    rw [own_map]
    exact tool_ok.mpr ⟨_, erasing_completed, rfl⟩
  obtain ⟨disks, hdisks, hall⟩ := secure_erase_sound .scrub none [] noRaid [sdaArgument] ["/dev/sda".toList] [sda]
    (fun _ => .ok (called ⟨0, []⟩)) (erasing.map (sda, ·)) (seen (uniform ['x'] ['x'])) _ rfl
    (by simp [sda]) (by simp) (by simp) (through_seen erasing_through) hjobs (by decide) 0 sdaArgument rfl
  obtain rfl : ["/dev/sda".toList] = disks := Except.ok.inj hdisks
  obtain ⟨disk, hdisk, -, hoverwritten⟩ := hall _ (List.mem_singleton_self _)
  obtain rfl := List.mem_singleton.mp hdisk
  exact ⟨_, hoverwritten⟩

end Sound

end OnTaskGraph.EraseRun
