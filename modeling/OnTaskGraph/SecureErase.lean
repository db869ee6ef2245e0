import OnTaskGraph.Search

/-! `create_jbod` of the secure erase script: which disk it takes for each device
of a virtual disk. Texts are lists of characters. -/

namespace OnTaskGraph

namespace SecureErase

open Search

abbrev Text := List Char

def str (n : Nat) : Text := Nat.toDigits 10 n

structure DiskArgument where
  slotIds : List Text
  deviceIds : List Nat
  scsiId : Text

inductive Failure
  | calledProcessError
  | unboundLocalError
  | assertionError (message : Text)
  deriving DecidableEq

def scsi_id_bits (disk_arg : DiskArgument) : List Text := (disk_arg.scsiId.splitOn ':').dropLast ++ [[]]

/-- `re.compile(":".join(scsi_info))` -/
def compile : List (RegularExpression Char) → RegularExpression Char
  | [] => 1
  | info :: scsi_info => scsi_info.foldl (fun r info => r * .char ':' * info) info

def scsi_info (disk_arg : DiskArgument) (device_id : Nat) : List (RegularExpression Char) :=
  ((scsi_id_bits disk_arg).map literal).set 2 (literal (str device_id))

/-- The pattern to exclude the virtual disk. -/
def anti_patten (disk_arg : DiskArgument) (device_id : Nat) : RegularExpression Char :=
  compile (scsi_info disk_arg device_id)

/-- `[0-9]{1,2}` -/
def channel : RegularExpression Char := onceOrTwice (oneOf "0123456789".toList)

def patten (disk_arg : DiskArgument) (device_id : Nat) : RegularExpression Char :=
  compile ((scsi_info disk_arg device_id).set 1 channel)

/-- The three tests of a line. -/
def passes (disk_arg : DiskArgument) (device_id : Nat) (line : Text) : Bool :=
  search (patten disk_arg device_id) line && !search (anti_patten disk_arg device_id) line &&
    !search (literal "part".toList) line

def diskName (line : Text) : Text := (line.splitOn '/').getLastD []

/-- The loop over the lines. -/
def find (disk_arg : DiskArgument) (device_id : Nat) (lines : List Text) : Text :=
  match lines.find? (passes disk_arg device_id) with
  | some line => diskName line
  | none => []

/-- The ten rounds, by the outputs of `ls`; the variable `disk_name` keeps its
value where `ls` fails. -/
def retry (disk_arg : DiskArgument) (device_id : Nat) : Option Text → List (Option Text) → Option Text
  | disk_name, [] => disk_name
  | disk_name, none :: outputs => retry disk_arg device_id disk_name outputs
  | _, some output :: outputs =>
    let disk_name := find disk_arg device_id (output.splitOn '\n')
    if disk_name = [] then retry disk_arg device_id (some []) outputs else some disk_name

def notFound (device_id : Nat) : Text := "Disk OS name is not found for deviceId ".toList ++ str device_id

/-- The loop over the devices, from the `k`-th one on. -/
def devices (ls : Nat → Nat → Option Text) (disk_arg : DiskArgument) :
    Nat → Option Text → List Nat → Except Failure (List Text)
  | _, _, [] => .ok []
  | k, disk_name, device_id :: rest =>
    match retry disk_arg device_id disk_name ((List.range 10).map (ls k)) with
    | none => .error .unboundLocalError
    | some [] => .error (.assertionError (notFound device_id))
    | some disk_name =>
      (devices ls disk_arg (k + 1) (some disk_name) rest).map fun disks => ("/dev/".toList ++ disk_name) :: disks

/-- `jbod` tells whether the RAID tool succeeds for a slot, `ls k i` is what the
`i`-th `ls` for the `k`-th device prints. -/
def create_jbod (jbod : Text → Bool) (ls : Nat → Nat → Option Text) (disk_arg : DiskArgument) :
    Except Failure (List Text) :=
  if disk_arg.slotIds.all jbod then devices ls disk_arg 0 none disk_arg.deviceIds
  else .error .calledProcessError

/-! What the listing says of a disk. -/

def Numeral (s : Text) : Prop := s ≠ [] ∧ ∀ a ∈ s, a.isDigit = true

structure ScsiId where
  host : Text
  channel : Text
  target : Text
  lun : Text
  numerals : ∀ s ∈ [host, channel, target, lun], Numeral s

def ScsiId.text (a : ScsiId) : Text := a.host ++ ':' :: (a.channel ++ ':' :: (a.target ++ ':' :: a.lun))

/-- A line for the link `name` to the device node `disk`. -/
def Link (line name disk : Text) : Prop :=
  ∃ about dir, line = about ++ ' ' :: (name ++ " -> ".toList ++ dir) ++ '/' :: disk ∧ ' ' ∉ name ∧ '/' ∉ disk

/-- A line for a link to `disk` whose name ends, after its last `-scsi-`, with the
address `a`; so it is none of a partition. -/
def Addressed (line disk : Text) (a : ScsiId) : Prop :=
  ∃ about, Link line (about ++ "-scsi-".toList ++ a.text) disk

/-- The disk `device_id` of the controller of `id`, but not on the channel of `id`. -/
def Right (id : ScsiId) (device_id : Nat) (line disk : Text) (a : ScsiId) : Prop :=
  Addressed line disk a ∧ a.host = id.host ∧ a.channel ≠ id.channel ∧ a.target = str device_id

/-- The listing that ends the rounds for the `k`-th device. -/
def listing (ls : Nat → Nat → Option Text) (disk_arg : DiskArgument) (k device_id : Nat) : Option (List Text) :=
  ((List.range 10).map (ls k)).findSome? fun output =>
    (output.map (·.splitOn '\n')).filter fun lines => find disk_arg device_id lines ≠ []

/-- Every disk is, by its listing, the one that is meant. -/
def RightDisks (id : ScsiId) (ls : Nat → Nat → Option Text) (disk_arg : DiskArgument) (disks : List Text) :
    Prop :=
  disks.length = disk_arg.deviceIds.length ∧
    ∀ k device_id, disk_arg.deviceIds[k]? = some device_id →
      ∃ lines, listing ls disk_arg k device_id = some lines ∧
      ∃ disk, disks[k]? = some ("/dev/".toList ++ disk) ∧ ∃ line ∈ lines, ∃ a, Right id device_id line disk a

/-- The pattern matches the line right after the last `-scsi-` of a link's name. -/
def AtAddress (disk_arg : DiskArgument) (device_id : Nat) (line : Text) : Prop :=
  ∃ disk a, Addressed line disk a ∧ ∃ t ∈ (patten disk_arg device_id).matches', t <+: a.text

/-- For each device there is a listing, and the first line that passes the tests
passes them by the address of its link. -/
def Anchored (ls : Nat → Nat → Option Text) (disk_arg : DiskArgument) : Prop :=
  ∀ (k : Nat) (device_id : Nat), disk_arg.deviceIds[k]? = some device_id →
    ∃ lines, listing ls disk_arg k device_id = some lines ∧
      ∃ line, lines.find? (passes disk_arg device_id) = some line ∧ AtAddress disk_arg device_id line

/-- No two lines name one disk, and a channel is, as the code's comment has it, a number
of 0-15. -/
def Usual (ls : Nat → Nat → Option Text) (disk_arg : DiskArgument) : Prop :=
  ∀ k < disk_arg.deviceIds.length, ∀ i < 10, ∀ output, ls k i = some output → ∀ line ∈ output.splitOn '\n',
    (∀ line' ∈ output.splitOn '\n', diskName line' = diskName line → line' = line) ∧
      ∀ disk a, Addressed line disk a → a.channel.length ≤ 2

section Patterns

theorem Numeral.notMem {s : Text} (h : Numeral s) {a : Char} (ha : a.isDigit = false) : a ∉ s :=
  fun hmem => by simp [h.2 a hmem] at ha

theorem str_numeral (n : Nat) : Numeral (str n) :=
  ⟨Nat.toDigits_ne_nil, fun _ ha => Nat.isDigit_of_mem_toDigits (by decide) (by decide) ha⟩

namespace ScsiId

variable (a : ScsiId)

theorem host_numeral : Numeral a.host := a.numerals _ (by simp)

theorem channel_numeral : Numeral a.channel := a.numerals _ (by simp)

theorem target_numeral : Numeral a.target := a.numerals _ (by simp)

theorem lun_numeral : Numeral a.lun := a.numerals _ (by simp)

theorem splitOn_text : a.text.splitOn ':' = [a.host, a.channel, a.target, a.lun] := by
  have hcolon : ∀ s, Numeral s → ':' ∉ s := fun s hs => hs.notMem (by decide)
  simp only [text, List.splitOn_append_cons_self, List.splitOn_eq_singleton (hcolon _ a.host_numeral),
    List.splitOn_eq_singleton (hcolon _ a.channel_numeral), List.splitOn_eq_singleton (hcolon _ a.target_numeral),
    List.splitOn_eq_singleton (hcolon _ a.lun_numeral)]
  rfl

end ScsiId

theorem append_colon_inj {s s' t t' : Text} (hs : ':' ∉ s) (hs' : ':' ∉ s')
    (h : s ++ ':' :: t = s' ++ ':' :: t') : s = s' ∧ t = t' := by
  induction s generalizing s' with
  | nil =>
    cases s' with
    | nil => exact ⟨rfl, (List.cons.inj h).2⟩
    | cons b s' => exact absurd ((List.cons.inj h).1 ▸ List.mem_cons_self) hs'
  | cons b s ih =>
    cases s' with
    | nil => exact absurd ((List.cons.inj h).1 ▸ List.mem_cons_self) hs
    | cons b' s' =>
      obtain ⟨rfl, htail⟩ := List.cons.inj h
      obtain ⟨rfl, rfl⟩ := ih (fun hmem => hs (List.mem_cons_of_mem _ hmem))
        (fun hmem => hs' (List.mem_cons_of_mem _ hmem)) htail
      exact ⟨rfl, rfl⟩

theorem mem_compile {r₁ r₂ r₃ : RegularExpression Char} {t : Text} :
    t ∈ (compile [r₁, r₂, r₃, literal []]).matches' ↔ ∃ u ∈ r₁.matches', ∃ v ∈ r₂.matches', ∃ x ∈ r₃.matches',
      t = u ++ ':' :: (v ++ ':' :: (x ++ [':'])) := by
  have hcolon : ∀ s, s ∈ (RegularExpression.char ':').matches' ↔ s = [':'] := fun s => Iff.rfl
  simp only [compile, List.foldl_cons, List.foldl_nil, mem_mul, hcolon, mem_literal]
  constructor
  · rintro ⟨-, ⟨-, ⟨-, ⟨-, ⟨-, ⟨u, hu, -, rfl, rfl⟩, v, hv, rfl⟩, -, rfl, rfl⟩, x, hx, rfl⟩, -, rfl, rfl⟩, -, rfl,
      rfl⟩
    exact ⟨u, hu, v, hv, x, hx, by simp⟩
  · rintro ⟨u, hu, v, hv, x, hx, rfl⟩
    exact ⟨_, ⟨_, ⟨_, ⟨_, ⟨_, ⟨u, hu, _, rfl, rfl⟩, v, hv, rfl⟩, _, rfl, rfl⟩, x, hx, rfl⟩, _, rfl, rfl⟩, _, rfl,
      by simp⟩

variable {id : ScsiId} {slotIds : List Text} {deviceIds : List Nat} {device_id : Nat} {t : Text}

theorem scsi_info_text : scsi_info ⟨slotIds, deviceIds, id.text⟩ device_id =
    [literal id.host, literal id.channel, literal (str device_id), literal []] := by
  simp [scsi_info, scsi_id_bits, id.splitOn_text]

theorem mem_anti_patten : t ∈ (anti_patten ⟨slotIds, deviceIds, id.text⟩ device_id).matches' ↔
    t = id.host ++ ':' :: (id.channel ++ ':' :: (str device_id ++ [':'])) := by
  simp [anti_patten, scsi_info_text, mem_compile, mem_literal]

theorem mem_digits {a : Char} : a ∈ "0123456789".toList ↔ a.isDigit = true := by
  constructor
  · intro h
    have hall : "0123456789".toList.all Char.isDigit = true := by decide
    exact List.all_eq_true.mp hall a h
  · intro h
    have hbounds : 48 ≤ a.toNat ∧ a.toNat ≤ 57 := by
      simpa [Char.isDigit, UInt32.le_iff_toNat_le] using h
    obtain ⟨k, hk⟩ := Nat.exists_eq_add_of_le hbounds.1
    have hall : ∀ k < 10, Char.ofNat (48 + k) ∈ "0123456789".toList := by decide
    have hmem := hall k (by omega)
    rwa [← hk, Char.ofNat_toNat] at hmem

theorem mem_channel {c : Text} : c ∈ channel.matches' ↔ Numeral c ∧ c.length ≤ 2 := by
  rw [channel, mem_onceOrTwice]
  simp only [mem_oneOf, mem_digits]
  constructor
  · rintro (⟨a, ha, rfl⟩ | ⟨-, ⟨a, ha, rfl⟩, -, ⟨b, hb, rfl⟩, rfl⟩)
    · simp [Numeral, ha]
    · simp [Numeral, ha, hb]
  · rintro ⟨⟨hne, hdigits⟩, hlength⟩
    match c with
    | [] => exact absurd rfl hne
    | [a] => exact Or.inl ⟨a, hdigits a (by simp), rfl⟩
    | [a, b] => exact Or.inr ⟨[a], ⟨a, hdigits a (by simp), rfl⟩, [b], ⟨b, hdigits b (by simp), rfl⟩, rfl⟩
    | a :: b :: c :: rest =>
      simp only [List.length_cons] at hlength
      omega

theorem mem_patten : t ∈ (patten ⟨slotIds, deviceIds, id.text⟩ device_id).matches' ↔
    ∃ c, Numeral c ∧ c.length ≤ 2 ∧ t = id.host ++ ':' :: (c ++ ':' :: (str device_id ++ [':'])) := by
  simp [patten, scsi_info_text, mem_compile, mem_literal, mem_channel, and_assoc]

end Patterns

section Lines

variable {id a : ScsiId} {slotIds : List Text} {deviceIds : List Nat} {device_id : Nat} {line name disk : Text}

theorem Link.diskName (h : Link line name disk) : diskName line = disk := by
  obtain ⟨about, dir, rfl, _, hdisk⟩ := h
  rw [SecureErase.diskName, List.splitOn_append_cons_self, List.splitOn_eq_singleton hdisk]
  simp

theorem Addressed.diskName (h : Addressed line disk a) : diskName line = disk := by
  obtain ⟨about, hlink⟩ := h
  exact hlink.diskName

theorem Addressed.within (h : Addressed line disk a) : "-scsi-".toList ++ a.text <:+: line := by
  obtain ⟨about, before, dir, rfl, _⟩ := h
  exact ⟨before ++ ' ' :: about, " -> ".toList ++ dir ++ '/' :: disk, by simp⟩

/-- A match at the address of a link reads the host, the channel and the target. -/
theorem right_of_match (haddressed : Addressed line disk a)
    (hmatch : ∃ t ∈ (patten ⟨slotIds, deviceIds, id.text⟩ device_id).matches', t <+: a.text)
    (hpasses : passes ⟨slotIds, deviceIds, id.text⟩ device_id line = true) : Right id device_id line disk a := by
  obtain ⟨t, ht, rest, hrest⟩ := hmatch
  obtain ⟨c, hc, _, rfl⟩ := mem_patten.mp ht
  have hcolon : ∀ {s}, Numeral s → ':' ∉ s := fun hs => hs.notMem (by decide)
  simp only [List.append_assoc, List.cons_append, List.nil_append, ScsiId.text] at hrest
  obtain ⟨hhost, hrest⟩ := append_colon_inj (hcolon id.host_numeral) (hcolon a.host_numeral) hrest
  obtain ⟨hchannel, hrest⟩ := append_colon_inj (hcolon hc) (hcolon a.channel_numeral) hrest
  obtain ⟨htarget, _⟩ := append_colon_inj (hcolon (str_numeral device_id)) (hcolon a.target_numeral) hrest
  refine ⟨haddressed, hhost.symm, fun hsame => ?_, htarget.symm⟩
  -- on the channel of the virtual disk the anti-pattern matches as well
  have hanti : search (anti_patten ⟨slotIds, deviceIds, id.text⟩ device_id) line = true := by
    refine search_iff.mpr ⟨_, mem_anti_patten.mpr rfl, ?_⟩
    have hstarts : id.host ++ ':' :: (id.channel ++ ':' :: (str device_id ++ [':'])) <+: a.text :=
      ⟨a.lun, by simp [ScsiId.text, hhost, htarget, hsame]⟩
    exact (hstarts.isInfix.trans (List.infix_append_right ..)).trans haddressed.within
  simp [passes, hanti] at hpasses

theorem AtAddress.right (h : AtAddress ⟨slotIds, deviceIds, id.text⟩ device_id line)
    (hpasses : passes ⟨slotIds, deviceIds, id.text⟩ device_id line = true) :
    ∃ a, Right id device_id line (SecureErase.diskName line) a := by
  obtain ⟨disk, a, haddressed, hmatch⟩ := h
  have hright := right_of_match haddressed hmatch hpasses
  rw [← haddressed.diskName] at hright
  exact ⟨a, hright⟩

/-- The pattern matches a right link at its address, if its channel is a number of
at most two digits. -/
theorem Right.atAddress (h : Right id device_id line disk a) (hshort : a.channel.length ≤ 2) :
    AtAddress ⟨slotIds, deviceIds, id.text⟩ device_id line := by
  obtain ⟨haddressed, hhost, _, htarget⟩ := h
  refine ⟨disk, a, haddressed, _, mem_patten.mpr ⟨a.channel, a.channel_numeral, hshort, rfl⟩, a.lun, ?_⟩
  simp [ScsiId.text, hhost, htarget]

end Lines

section Loops

variable {ls : Nat → Nat → Option Text} {disk_arg : DiskArgument} {device_id : Nat} {lines : List Text}

theorem find_eq_diskName (h : find disk_arg device_id lines ≠ []) :
    ∃ line, lines.find? (passes disk_arg device_id) = some line ∧
      find disk_arg device_id lines = diskName line := by
  unfold find at h ⊢
  split at h
  · rename_i line hline
    exact ⟨line, hline, by simp⟩
  · exact absurd rfl h

theorem retry_listing {outputs : List (Option Text)} (disk_name : Option Text)
    (h : outputs.findSome? (fun output =>
      (output.map (·.splitOn '\n')).filter fun lines => find disk_arg device_id lines ≠ []) = some lines) :
    retry disk_arg device_id disk_name outputs = some (find disk_arg device_id lines) ∧
      find disk_arg device_id lines ≠ [] := by
  induction outputs generalizing disk_name with
  | nil => simp at h
  | cons output outputs ih =>
    cases output with
    | none => exact ih disk_name (by simpa using h)
    | some output =>
      by_cases hfound : find disk_arg device_id (output.splitOn '\n') = []
      · rw [retry, if_pos hfound]
        exact ih (some []) (by simpa [hfound] using h)
      · have hstop : output.splitOn '\n' = lines ∧ ¬ find disk_arg device_id lines = [] := by
          simpa [hfound] using h
        obtain rfl := hstop.1
        rw [retry, if_neg hfound]
        exact ⟨rfl, hfound⟩

theorem retry_isSome (disk_arg : DiskArgument) (device_id : Nat) {outputs : List (Option Text)}
    (disk_name : Option Text) (h : disk_name.isSome ∨ ∃ output ∈ outputs, output.isSome) :
    (retry disk_arg device_id disk_name outputs).isSome = true := by
  induction outputs generalizing disk_name with
  | nil => simpa [retry] using h
  | cons output outputs ih =>
    cases output with
    | none => exact ih disk_name (by simpa using h)
    | some output =>
      rw [retry]
      split_ifs
      · exact ih (some []) (Or.inl rfl)
      · rfl

theorem retry_eq_none {outputs : List (Option Text)} {disk_name : Option Text}
    (h : ∀ output ∈ outputs, output = none) : retry disk_arg device_id disk_name outputs = disk_name := by
  induction outputs with
  | nil => rfl
  | cons output outputs ih =>
    obtain rfl := h output List.mem_cons_self
    exact ih fun output' houtput' => h output' (List.mem_cons_of_mem _ houtput')

theorem listing_mem {k : Nat} (h : listing ls disk_arg k device_id = some lines) :
    ∃ i < 10, ∃ output, ls k i = some output ∧ lines = output.splitOn '\n' := by
  obtain ⟨output, houtput, hlines⟩ := List.exists_of_findSome?_eq_some h
  obtain ⟨i, hi, rfl⟩ := List.mem_map.mp houtput
  obtain ⟨output, hread, rfl⟩ := Option.map_eq_some_iff.mp (Option.filter_eq_some_iff.mp hlines).1
  exact ⟨i, List.mem_range.mp hi, output, hread, rfl⟩

theorem devices_ok {k : Nat} {disk_name : Option Text} {device_ids : List Nat} {disks : List Text}
    (h : devices ls disk_arg k disk_name device_ids = .ok disks) : disks.length = device_ids.length ∧
      ∀ (j device_id : Nat), device_ids[j]? = some device_id → ∀ lines,
        listing ls disk_arg (k + j) device_id = some lines →
        disks[j]? = some ("/dev/".toList ++ find disk_arg device_id lines) := by
  induction device_ids generalizing k disk_name disks with
  | nil =>
    obtain rfl : [] = disks := Except.ok.inj h
    exact ⟨rfl, by simp⟩
  | cons device_id device_ids ih =>
    rw [devices] at h
    split at h
    · simp at h
    · simp at h
    · rename_i name hname hretry
      cases hrest : devices ls disk_arg (k + 1) (some name) device_ids with
      | error e => simp [hrest, Except.map] at h
      | ok rest =>
        obtain rfl : ("/dev/".toList ++ name) :: rest = disks := by simpa [hrest, Except.map] using h
        obtain ⟨hlength, hdisks⟩ := ih hrest
        refine ⟨congrArg (· + 1) hlength, fun j d hj lines hlines => ?_⟩
        cases j with
        | zero =>
          obtain rfl : device_id = d := Option.some.inj hj
          have hfound := (retry_listing disk_name hlines).1
          rw [Nat.add_zero, hretry] at hfound
          rw [← Option.some.inj hfound]
          rfl
        | succ j => exact hdisks j d hj lines (by rwa [Nat.add_right_comm, Nat.add_assoc])

/-- The variable is unbound only where no `ls` before has answered. -/
theorem devices_error {k : Nat} {disk_name : Option Text} {device_ids : List Nat} {e : Failure}
    (h : devices ls disk_arg k disk_name device_ids = .error e) :
    (e = .unboundLocalError ∧ disk_name = none ∧ ∀ i < 10, ls k i = none) ∨
      ((disk_name.isSome ∨ ∃ i < 10, (ls k i).isSome) ∧
        ∃ device_id ∈ device_ids, e = .assertionError (notFound device_id)) := by
  induction device_ids generalizing k disk_name with
  | nil => simp [devices] at h
  | cons device_id device_ids ih =>
    have hbound : (retry disk_arg device_id disk_name ((List.range 10).map (ls k))).isSome = true →
        disk_name.isSome ∨ ∃ i < 10, (ls k i).isSome := by
      intro hsome
      by_contra hnone
      rw [not_or] at hnone
      have hunread : ∀ output ∈ (List.range 10).map (ls k), output = none := by
        rintro output houtput
        obtain ⟨i, hi, rfl⟩ := List.mem_map.mp houtput
        exact Option.not_isSome_iff_eq_none.mp fun hi' => hnone.2 ⟨i, List.mem_range.mp hi, hi'⟩
      rw [retry_eq_none hunread] at hsome
      exact hnone.1 hsome
    rw [devices] at h
    split at h
    · rename_i hunbound
      refine Or.inl ⟨(Except.error.inj h).symm, ?_, fun i hi => ?_⟩
      · by_contra hne
        have hsome : (retry disk_arg device_id disk_name ((List.range 10).map (ls k))).isSome = true :=
          retry_isSome disk_arg device_id disk_name (Or.inl (Option.isSome_iff_ne_none.mpr hne))
        simp [hunbound] at hsome
      · by_contra hne
        have hsome := retry_isSome disk_arg device_id disk_name (Or.inr
          ⟨ls k i, List.mem_map_of_mem (List.mem_range.mpr hi), Option.isSome_iff_ne_none.mpr hne⟩)
        simp [hunbound] at hsome
    · rename_i hempty
      exact Or.inr ⟨hbound (by simp [hempty]), device_id, List.mem_cons_self, (Except.error.inj h).symm⟩
    · rename_i name hname hstop
      refine Or.inr ⟨hbound (by simp [hstop]), ?_⟩
      cases hrest : devices ls disk_arg (k + 1) (some name) device_ids with
      | ok rest => simp [hrest, Except.map] at h
      | error e' =>
        obtain rfl : e' = e := by simpa [hrest, Except.map] using h
        rcases ih hrest with ⟨-, hunbound, -⟩ | ⟨-, d, hd, heq⟩
        · simp at hunbound
        · exact ⟨d, List.mem_cons_of_mem _ hd, heq⟩

end Loops

section Returned

variable {id : ScsiId} {jbod : Text → Bool} {ls : Nat → Nat → Option Text} {slotIds : List Text}
  {deviceIds : List Nat} {disks : List Text}

/-- The disk that is returned for a device is the one of the first line that passes. -/
theorem create_jbod_disk {disk_arg : DiskArgument} (h : create_jbod jbod ls disk_arg = .ok disks) {k : Nat}
    {device_id : Nat} (hk : disk_arg.deviceIds[k]? = some device_id) {lines : List Text}
    (hlines : listing ls disk_arg k device_id = some lines) :
    ∃ line, lines.find? (passes disk_arg device_id) = some line ∧
      disks[k]? = some ("/dev/".toList ++ diskName line) := by
  rw [create_jbod] at h
  split_ifs at h
  obtain ⟨line, hline, hname⟩ := find_eq_diskName (retry_listing none hlines).2
  refine ⟨line, hline, ?_⟩
  rw [← hname]
  exact (devices_ok h).2 k device_id hk lines (by rwa [Nat.zero_add])

theorem Anchored.rightDisks (h : Anchored ls ⟨slotIds, deviceIds, id.text⟩)
    (hreturn : create_jbod jbod ls ⟨slotIds, deviceIds, id.text⟩ = .ok disks) :
    RightDisks id ls ⟨slotIds, deviceIds, id.text⟩ disks := by
  constructor
  · rw [create_jbod] at hreturn
    split_ifs at hreturn
    exact (devices_ok hreturn).1
  · intro k device_id hk
    obtain ⟨lines, hlines, line, hline, hat⟩ := h k device_id hk
    obtain ⟨line₀, hline₀, hdisk⟩ := create_jbod_disk hreturn hk hlines
    obtain rfl : line₀ = line := Option.some.inj (hline₀.symm.trans hline)
    obtain ⟨a, hright⟩ := hat.right (List.find?_some hline₀)
    exact ⟨lines, hlines, diskName line₀, hdisk, line₀, List.mem_of_find?_eq_some hline₀, a, hright⟩

theorem RightDisks.anchored (h : RightDisks id ls ⟨slotIds, deviceIds, id.text⟩ disks)
    (hreturn : create_jbod jbod ls ⟨slotIds, deviceIds, id.text⟩ = .ok disks)
    (husual : Usual ls ⟨slotIds, deviceIds, id.text⟩) : Anchored ls ⟨slotIds, deviceIds, id.text⟩ := by
  intro k device_id hk
  obtain ⟨lines, hlines, disk, hdisk, line', hline', a, hright⟩ := h.2 k device_id hk
  obtain ⟨line, hline, htaken⟩ := create_jbod_disk hreturn hk hlines
  obtain rfl : disk = diskName line := List.append_cancel_left (Option.some.inj (hdisk.symm.trans htaken))
  obtain ⟨i, hi, output, hread, rfl⟩ := listing_mem hlines
  have hlt : k < deviceIds.length := (List.getElem?_eq_some_iff.mp hk).1
  have honly := husual k hlt i hi output hread line (List.mem_of_find?_eq_some hline)
  -- the right link is on the line that was taken
  obtain rfl : line' = line := honly.1 line' hline' hright.1.diskName
  exact ⟨_, hlines, line', hline, hright.atAddress (honly.2 _ a hright.1)⟩

end Returned

/-- Where `create_jbod` returns, its disks are right if it took each of them by its
address, and on usual listings only then. Where it does not return although the RAID
tool has succeeded, an assertion has failed, unless no `ls` for the first device has
answered. -/
theorem create_jbod_right_iff (id : ScsiId) (jbod : Text → Bool) (ls : Nat → Nat → Option Text)
    (slotIds : List Text) (deviceIds : List Nat) :
    (∀ disks, create_jbod jbod ls ⟨slotIds, deviceIds, id.text⟩ = .ok disks →
      (Anchored ls ⟨slotIds, deviceIds, id.text⟩ → RightDisks id ls ⟨slotIds, deviceIds, id.text⟩ disks) ∧
      (Usual ls ⟨slotIds, deviceIds, id.text⟩ →
        (RightDisks id ls ⟨slotIds, deviceIds, id.text⟩ disks ↔ Anchored ls ⟨slotIds, deviceIds, id.text⟩))) ∧
    ∀ e, create_jbod jbod ls ⟨slotIds, deviceIds, id.text⟩ = .error e → (∀ slot ∈ slotIds, jbod slot = true) →
      (e = .unboundLocalError ∧ ∀ i < 10, ls 0 i = none) ∨
      ((∃ i < 10, (ls 0 i).isSome) ∧ ∃ device_id ∈ deviceIds, e = .assertionError (notFound device_id)) := by
  constructor
  · intro disks hreturn
    have hright (hanchored : Anchored ls ⟨slotIds, deviceIds, id.text⟩) :
        RightDisks id ls ⟨slotIds, deviceIds, id.text⟩ disks :=
      hanchored.rightDisks hreturn
    exact ⟨hright, fun husual => ⟨fun h => h.anchored hreturn husual, hright⟩⟩
  · intro e herror hslots
    rw [create_jbod, if_pos (List.all_eq_true.mpr hslots)] at herror
    rcases devices_error herror with ⟨he, -, hunread⟩ | ⟨hread, hassert⟩
    · exact Or.inl ⟨he, hunread⟩
    · exact Or.inr ⟨hread.resolve_left (by simp), hassert⟩

/-- The virtual disk on channel 2 of the controller 0. -/
def virtualDisk : ScsiId := ⟨"0".toList, "2".toList, "0".toList, "0".toList, by simp [Numeral]⟩

def physicalDisk (device_id : Nat) : ScsiId :=
  ⟨"0".toList, "0".toList, str device_id, "0".toList, by
    simpa [Numeral, (str_numeral device_id).1] using (str_numeral device_id).2⟩

def linkLine (name disk : Text) : Text :=
  "lrwxrwxrwx 1 root root 9".toList ++ " May 19 03:06".toList ++
    ' ' :: (name ++ " -> ".toList ++ "../..".toList) ++ '/' :: disk

/-- Two disks of the controller, a partition, another virtual disk, and a disk of the
controller 1. -/
def controllerLines : List Text :=
  ["total 0".toList, linkLine "pci-0000:06:00.0-scsi-0:0:1:0-part1".toList "sdb1".toList,
    linkLine "pci-0000:07:00.0-scsi-1:0:1:0".toList "sdd".toList,
    linkLine "pci-0000:06:00.0-scsi-0:2:1:0".toList "sda".toList,
    linkLine "pci-0000:06:00.0-scsi-0:0:2:0".toList "sdc".toList,
    linkLine "pci-0000:06:00.0-scsi-0:0:1:0".toList "sdb".toList]

/-- The first of the ten calls fails. -/
def controllerListing (_ i : Nat) : Option Text :=
  if i = 0 then none else some (['\n'].intercalate controllerLines)

theorem atAddress_physicalDisk {slotIds : List Text} {deviceIds : List Nat} (device_id : Nat) (disk : Text)
    (hdisk : '/' ∉ disk) : AtAddress ⟨slotIds, deviceIds, virtualDisk.text⟩ device_id
      (linkLine ("pci-0000:06:00.0".toList ++ "-scsi-".toList ++ (physicalDisk device_id).text) disk) := by
  have hblank : ' ' ∉ str device_id := (str_numeral device_id).notMem (by decide)
  have hname : ' ' ∉ "pci-0000:06:00.0".toList ++ "-scsi-".toList ++ (physicalDisk device_id).text := by
    simp [physicalDisk, ScsiId.text, hblank]
  have hmatch : "0".toList ++ ':' :: ("0".toList ++ ':' :: (str device_id ++ [':'])) ∈
      (patten ⟨slotIds, deviceIds, virtualDisk.text⟩ device_id).matches' :=
    mem_patten.mpr ⟨"0".toList, by simp [Numeral], by decide, rfl⟩
  exact ⟨disk, physicalDisk device_id, ⟨_, _, _, rfl, hname, hdisk⟩, _, hmatch, "0".toList,
    by simp [physicalDisk, ScsiId.text]⟩

theorem create_jbod_right_iff_own :
    create_jbod (fun _ => true) controllerListing ⟨["/c0/e252/s1".toList, "/c0/e252/s2".toList], [1, 2],
      virtualDisk.text⟩ = .ok ["/dev/sdb".toList, "/dev/sdc".toList] ∧
    RightDisks virtualDisk controllerListing ⟨["/c0/e252/s1".toList, "/c0/e252/s2".toList], [1, 2],
      virtualDisk.text⟩ ["/dev/sdb".toList, "/dev/sdc".toList] := by
  have hreturn : create_jbod (fun _ => true) controllerListing ⟨["/c0/e252/s1".toList, "/c0/e252/s2".toList],
      [1, 2], virtualDisk.text⟩ = .ok ["/dev/sdb".toList, "/dev/sdc".toList] := by decide +kernel
  refine ⟨hreturn, ((create_jbod_right_iff virtualDisk (fun _ => true) controllerListing _ [1, 2]).1 _ hreturn).1
    fun k device_id hk => ?_⟩
  match k with
  | 0 =>
    obtain rfl : 1 = device_id := Option.some.inj hk
    exact ⟨controllerLines, by decide +kernel, _, by decide +kernel,
      atAddress_physicalDisk 1 "sdb".toList (by decide)⟩
  | 1 =>
    obtain rfl : 2 = device_id := Option.some.inj hk
    exact ⟨controllerLines, by decide +kernel, _, by decide +kernel,
      atAddress_physicalDisk 2 "sdc".toList (by decide)⟩
  | k + 2 => simp at hk

/-- A disk of the controller 10. -/
def otherListing : Text := linkLine ("pci-0000:06:00.0".toList ++ "-scsi-10:0:1:0".toList) "sdb".toList

/-- The pattern for the controller 0 matches within the address of a disk of the
controller 10. -/
theorem create_jbod_other_host :
    create_jbod (fun _ => true) (fun _ _ => some otherListing) ⟨[], [1], virtualDisk.text⟩ =
      .ok ["/dev/sdb".toList] ∧
      ¬ RightDisks virtualDisk (fun _ _ => some otherListing)
        ⟨[], [1], virtualDisk.text⟩ ["/dev/sdb".toList] := by
  refine ⟨by decide +kernel, fun ⟨_, hright⟩ => ?_⟩
  obtain ⟨lines, hlines, disk, _, line, hline, a, haddressed, hhost, _⟩ := hright 0 1 rfl
  have hlisting :
      listing (fun _ _ => some otherListing) ⟨[], [1], virtualDisk.text⟩ 0 1 = some [otherListing] := by
    decide +kernel
  obtain rfl : [otherListing] = lines := Option.some.inj (hlisting.symm.trans hlines)
  obtain rfl := List.mem_singleton.mp hline
  have hzero : "-scsi-0:".toList <:+: otherListing := by
    have hstarts : "-scsi-0:".toList <+: "-scsi-".toList ++ a.text :=
      ⟨a.channel ++ ':' :: (a.target ++ ':' :: a.lun), by simp [ScsiId.text, hhost, virtualDisk]⟩
    exact hstarts.isInfix.trans haddressed.within
  have hsearch : search (literal "-scsi-0:".toList) otherListing = false := by decide +kernel
  exact Bool.false_ne_true (hsearch.symm.trans (search_literal.mpr hzero))

end SecureErase

end OnTaskGraph
