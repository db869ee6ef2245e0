import OnTaskGraph.DriveMap

/-! The addresses and virtual disks that drives are joined with by the names of their
devices. -/

namespace OnTaskGraph

open JsText

namespace DriveIds

/-- The address in brackets that a line of `lsscsi` begins with; what it ends with is the
path of its device and blanks. -/
def address (line : Text) : Text := (line.drop 1).takeWhile (· ≠ ']')

def trailing (line : Text) : Text := line.rtakeWhile blank

/-- What `lsscsi` prints: an address in brackets, and at the end a device of `/dev`, or a
dash where there is none. -/
def ScsiListing (list : Text) : Prop :=
  ∀ line ∈ list.splitOn '\n', line ≠ [] → line.head? = some '[' ∧ ']' ∈ line ∧ address line ≠ [] ∧
    (lastWord line = ['-'] ∨ "/dev/".toList <+: lastWord line ∧ '/' ∉ (lastWord line).drop 5)

instance (list : Text) : Decidable (ScsiListing list) :=
  inferInstanceAs (Decidable (∀ line ∈ _, _ → _))

def scsiLines (scsiData devName : Text) : List Text :=
  (scsiData.splitOn '\n').filter (lastWord · = "/dev/".toList ++ devName)

def finalAddress (name : Text) : Text := after name (lastIndexOf ['-'] name)

/-- An address of four parts whose channel is not 0. -/
def hasChannel (scsiId : Text) : Bool :=
  match scsiId.splitOn ':' with
  | [_, channel, _, _] => channel ≠ ['0']
  | _ => false

def isPartition (name : Text) : Bool :=
  name.getLast?.any Char.isDigit && "-part".toList <:+ name.rdropWhile Char.isDigit

/-- The links to a device that give it a virtual disk. -/
def channelLinks (vdData devName : Text) : List (Text × Text) :=
  (links vdData).filter fun x =>
    basename x.2 = devName ∧ "pci".toList <+: x.1 ∧ isPartition x.1 = false ∧ hasChannel (finalAddress x.1) = true

/-- The links to a device that the script looks at. -/
def pciLinks (vdData devName : Text) : List (Text × Text) :=
  (links vdData).filter fun x =>
    basename x.2 = devName ∧ "pci".toList <+: x.1 ∧ ¬ "part".toList <:+: x.1 ++ "->".toList ++ x.2

def Drive.usb (d : Drive) : Bool := d.linuxWwid.any ("/dev/disk/by-id/usb".toList <+: ·)

/-- The drive has the address of its device, and the virtual disk of a link to it. -/
structure Joined (vdData scsiData : Text) (d : Drive) : Prop where
  scsiId : ∀ line, scsiLines scsiData d.devName = [line] → d.scsiId = address line
  noScsiId : scsiLines scsiData d.devName = [] → d.scsiId = []
  virtualDisk : d.usb = false → channelLinks vdData d.devName ≠ [] → ∃ x ∈ channelLinks vdData d.devName,
    ∃ host channel target lun, (finalAddress x.1).splitOn ':' = [host, channel, target, lun] ∧
      d.virtualDisk = "/c".toList ++ host ++ "/v".toList ++ target
  noVirtualDisk : d.usb = true ∨ channelLinks vdData d.devName = [] → d.virtualDisk = []

/-- At most one blank follows the device of the line, and the last link to it that the
script looks at is one that gives a virtual disk, if there is any. -/
structure Readable (vdData scsiData : Text) (d : Drive) : Prop where
  trailing : ∀ line, scsiLines scsiData d.devName = [line] → trailing line = [] ∨ trailing line = [' ']
  channel : d.usb = false → channelLinks vdData d.devName ≠ [] →
    ∃ x ∈ (pciLinks vdData d.devName).getLast?, hasChannel (finalAddress x.1) = true

/-- What is known of the name of a drive's device. -/
structure DiskName (devName : Text) : Prop where
  no_blank : ∀ c ∈ devName, blank c = false
  ends : ∃ s c, devName = s ++ [c] ∧ c.isAlpha = true

variable {hdparm : Text → Option Text} {toUpperCase : Text → Text} {wwidData vdData scsiData : Text}
  {line name target devName : Text} {bus : Bus} {d : Drive}

theorem foldl_overwrite {α β : Type*} (f : α → Option β) (xs : List α) (init : β) :
    xs.foldl (fun acc x => (f x).getD acc) init = (xs.filterMap f).getLast?.getD init := by
  induction xs generalizing init with
  | nil => rfl
  | cons x xs ih =>
    rw [List.foldl_cons, ih]
    cases hx : f x with
    | none => simp [hx]
    | some y => cases hlast : (xs.filterMap f).getLast? <;> simp [hx, List.getLast?_cons, hlast]

theorem endsLikeDisk_ends (h : endsLikeDisk line = true) : ∃ s c, line = s ++ [c] ∧ c.isAlpha = true := by
  unfold endsLikeDisk at h
  cases hline : line.reverse with
  | nil => simp [hline, diskBackwards] at h
  | cons c s =>
    refine ⟨s.reverse, c, by rw [← List.reverse_reverse line, hline, List.reverse_cons], ?_⟩
    rw [hline] at h
    cases s with
    | nil => simp [diskBackwards] at h
    | cons x s =>
      simp only [diskBackwards, Bool.and_eq_true] at h
      exact h.1

theorem diskName_basename (hblank : ∀ c ∈ target, blank c = false) (hpath : '/' ∈ target)
    (hdisk : endsLikeDisk (name ++ "->".toList ++ target) = true) : DiskName (basename target) := by
  obtain ⟨s, c, heq, hc⟩ := endsLikeDisk_ends hdisk
  obtain ⟨t, d, rfl⟩ := (List.eq_nil_or_concat' target).resolve_left (List.ne_nil_of_mem hpath)
  obtain rfl : d = c := by
    have hlast := congrArg List.getLast? heq
    rw [← List.append_assoc, List.getLast?_concat, List.getLast?_concat] at hlast
    exact Option.some.inj hlast
  have hslash : '/' ∉ [d] := by
    intro hd
    rw [← List.mem_singleton.mp hd] at hc
    exact absurd hc (by decide)
  have hbase : basename (t ++ [d]) = after t (lastIndexOf ['/'] t) ++ [d] := after_append_of_not_mem hslash
  refine ⟨fun e he => hblank e ?_, _, d, hbase, hc⟩
  rw [hbase] at he
  rcases List.mem_append.mp he with he | he
  · refine List.mem_append_left _ ?_
    cases hi : lastIndexOf ['/'] t with
    | none => simpa [hi, after] using he
    | some i =>
      rw [hi] at he
      exact List.mem_of_mem_drop he
  · exact List.mem_append_right _ he

/-! What a line of `lsscsi` is read as. -/

theorem blank_of_mem_trailing : ∀ c ∈ trailing line, blank c = true := fun _ => List.mem_rtakeWhile_imp

theorem not_blank_of_mem_lastWord : ∀ c ∈ lastWord line, blank c = false := by
  intro c hc
  simpa using List.mem_rtakeWhile_imp hc

theorem slash_not_mem_trailing : '/' ∉ trailing line := fun h => absurd (blank_of_mem_trailing _ h) (by decide)

/-- A text that ends with a dash and blanks is not the name of a disk. -/
theorem DiskName.ne_dash (h : DiskName devName) {s t : Text} (ht : ∀ c ∈ t, blank c = true) :
    s ++ '-' :: t ≠ devName := by
  rintro rfl
  obtain ⟨u, c, heq, hc⟩ := h.ends
  cases t with
  | nil =>
    obtain rfl : '-' = c := by simpa using congrArg List.getLast? heq
    exact absurd hc (by decide)
  | cons b t =>
    have hb := ht b List.mem_cons_self
    rw [h.no_blank b (by simp)] at hb
    exact absurd hb (by simp)

/-- The device that is read from a line is the one that it ends with, if at most one
blank follows. -/
theorem device_eq_iff (h : DiskName devName) (hline : lastWord line = ['-'] ∨
    "/dev/".toList <+: lastWord line ∧ '/' ∉ (lastWord line).drop 5) :
    (after line (lastIndexOf ['/'] line)).erase ' ' = devName ↔
      lastWord line = "/dev/".toList ++ devName ∧ (trailing line = [] ∨ trailing line = [' ']) := by
  have hdev : "/dev/".toList = ['/', 'd', 'e', 'v', '/'] := by decide
  have hblank : ∀ c ∈ lastWord line, blank c = false := not_blank_of_mem_lastWord
  have htrailing : ∀ c ∈ trailing line, blank c = true := blank_of_mem_trailing
  have hnoslash : '/' ∉ trailing line := slash_not_mem_trailing
  obtain ⟨s, hs⟩ := lastWord_append line
  change line = s ++ lastWord line ++ trailing line at hs
  generalize lastWord line = w at *
  generalize trailing line = t at *
  subst hs
  rcases hline with rfl | ⟨⟨n, rfl⟩, hslash⟩
  · have hnot : '/' ∉ ['-'] ++ t := by simp [hnoslash]
    rw [List.append_assoc, after_append_of_not_mem hnot, List.singleton_append]
    constructor
    · intro heq
      rw [List.erase_append] at heq
      split_ifs at heq
      · exact absurd heq (h.ne_dash htrailing)
      · rw [List.erase_cons_tail (by decide)] at heq
        exact absurd heq (h.ne_dash fun c hc => htrailing c (List.mem_of_mem_erase hc))
    · rintro ⟨hpath, _⟩
      rw [hdev] at hpath
      simp at hpath
  · have hn : '/' ∉ n := by
      rw [hdev] at hslash
      simpa using hslash
    have hnot : '/' ∉ n ++ t := by simp [hn, hnoslash]
    have hspace : ' ' ∉ n := fun hmem =>
      absurd (hblank ' ' (List.mem_append_right _ hmem)) (by decide)
    have hafter : after (s ++ ("/dev/".toList ++ n) ++ t) (lastIndexOf ['/'] (s ++ ("/dev/".toList ++ n) ++ t)) =
        n ++ t := by
      have hsplit : s ++ ("/dev/".toList ++ n) ++ t = s ++ "/dev/".toList ++ (n ++ t) := by simp
      rw [hsplit, after_append_of_not_mem hnot, after_append (by decide)]
      have hend : after "/dev/".toList (lastIndexOf ['/'] "/dev/".toList) = [] := by decide
      rw [hend, List.nil_append]
    rw [hafter, List.erase_append_right _ hspace, List.append_cancel_left_eq, ← List.erase_eq_nil_iff]
    constructor
    · rintro rfl
      have hnil : t.erase ' ' = [] := by
        refine List.eq_nil_iff_forall_not_mem.mpr fun c hc => ?_
        have hc' := h.no_blank c (List.mem_append_right _ hc)
        rw [htrailing c (List.mem_of_mem_erase hc)] at hc'
        exact absurd hc' (by simp)
      simp [hnil]
    · rintro ⟨rfl, hnil⟩
      simp [hnil]

theorem filterMap_if {α β : Type*} (p : α → Bool) (g : α → β) (xs : List α) :
    xs.filterMap (fun x => if p x then some (g x) else none) = (xs.filter p).map g := by
  induction xs with
  | nil => rfl
  | cons x xs ih => cases hp : p x <;> simp [hp, ih]

/-- The address of a drive is that of the last line whose device is read. -/
theorem scsiIdOf_eq (hscsi : ScsiListing scsiData) (h : DiskName devName) :
    scsiIdOf (parseScsiInfo scsiData) devName = (((scsiLines scsiData devName).filter fun line =>
      trailing line = [] ∨ trailing line = [' ']).getLast?.map address).getD [] := by
  have hfold : scsiIdOf (parseScsiInfo scsiData) devName = (parseScsiInfo scsiData).foldl (fun scsiId elem =>
      (elem.bind fun e => if e.1 = devName then some e.2 else none).getD scsiId) [] := by
    unfold scsiIdOf
    congr 1
    funext scsiId elem
    cases elem with
    | none => rfl
    | some e => by_cases he : e.1 = devName <;> simp [he]
  rw [hfold, foldl_overwrite, scsiLines, List.filter_filter, ← List.getLast?_map, ← filterMap_if, parseScsiInfo,
    List.filterMap_map]
  congr 2
  refine List.filterMap_congr fun line hline => ?_
  by_cases hempty : line = []
  · subst hempty
    have hnone : lastWord [] = [] := rfl
    simp [hnone]
  · obtain ⟨hopen, hclose, _, hlast⟩ := hscsi line hline hempty
    have haddress : (before line (indexOf [']'] line)).drop 1 = address line := by
      rw [before_indexOf hclose]
      cases line with
      | nil => exact absurd rfl hempty
      | cons c s =>
        obtain rfl : c = '[' := by simpa using hopen
        simp [address]
    have hdevice := device_eq_iff h hlast
    simp only [Function.comp, hempty, ne_eq, not_false_eq_true, if_true, Option.bind_some, haddress, hdevice,
      Bool.and_eq_true, decide_eq_true_eq]
    exact if_congr and_comm rfl rfl

/-- The virtual disk of a drive is that of the last link that the script looks at. -/
theorem vdOf_eq (hvd : Listing vdData) (h : DiskName devName) : vdOf (parseVdInfo vdData) devName =
    ((pciLinks vdData devName).getLast?.map fun x => vdStr (finalAddress x.1)).getD [] := by
  have hfold : vdOf (parseVdInfo vdData) devName = (parseVdInfo vdData).foldl (fun vd elem =>
      (if elem.device = devName then some elem.vdStr else none).getD vd) [] := by
    unfold vdOf
    congr 1
    funext vd elem
    by_cases he : elem.device = devName <;> simp [he]
  rw [hfold, foldl_overwrite, pciLinks, links, ← List.getLast?_map, ← filterMap_if, List.filterMap_filterMap,
    parseVdInfo, List.map_map, List.filterMap_map, List.filterMap_filter, List.filterMap_map]
  congr 2
  refine List.filterMap_congr fun line hline => ?_
  rcases hvd.cases hline with ⟨name, target, hlink, hpath, hone⟩ | ⟨hlink, name, hcolumns⟩
  · obtain ⟨hcolumns, _⟩ := columns_of_linkOf hlink
    have hpci : indexOf "pci".toList (name ++ "->".toList ++ target) = some 0 ↔ "pci".toList <+: name := by
      rw [indexOf_eq_zero (by decide)]
      refine ⟨fun hpre => prefix_of_prefix_arrow hpre (by decide), fun hpre => ?_⟩
      rw [List.append_assoc]
      exact hpre.trans (List.prefix_append _ _)
    have hne : name ++ "->".toList ++ target ≠ [] := by
      intro hnil
      simp [List.append_eq_nil_iff] at hnil
    simp only [Function.comp, hcolumns, deviceAndLink_eq hpath hone, hlink, Option.bind_some, hne, hpci, ne_eq,
      not_false_eq_true, true_and, decide_eq_true_eq, finalAddress]
    by_cases htaken : ¬ "part".toList <:+: name ++ "->".toList ++ target ∧ "pci".toList <+: name
    · simp only [htaken, not_false_eq_true, and_self, and_true, if_true]
    · have hnot : ¬ (basename target = devName ∧ "pci".toList <+: name ∧
          ¬ "part".toList <:+: name ++ "->".toList ++ target) := fun hall => htaken ⟨hall.2.2, hall.2.1⟩
      rw [if_neg htaken, if_neg hnot]
  · have hne : (deviceAndLink (columns line)).1 ≠ devName := by
      have harrow : '/' ∉ "->".toList := by decide
      rw [hcolumns, deviceAndLink, after_append_of_not_mem harrow]
      intro heq
      obtain ⟨s, c, hs, hc⟩ := h.ends
      have hlast := congrArg List.getLast? (heq.trans hs)
      obtain rfl : '>' = c := by simpa using hlast
      exact absurd hc (by decide)
    simp [Function.comp, hlink, hne]

theorem scsiId_iff (hscsi : ScsiListing scsiData) (h : DiskName devName) :
    (∀ line, scsiLines scsiData devName = [line] → scsiIdOf (parseScsiInfo scsiData) devName = address line) ↔
      ∀ line, scsiLines scsiData devName = [line] → trailing line = [] ∨ trailing line = [' '] := by
  refine forall_congr' fun line => imp_congr_right fun hlines => ?_
  rw [scsiIdOf_eq hscsi h, hlines]
  by_cases hone : trailing line = [] ∨ trailing line = [' ']
  · simp [hone]
  · have hmem : line ∈ scsiLines scsiData devName := by simp [hlines]
    obtain ⟨hline, hpath⟩ := List.mem_filter.mp hmem
    have hne : line ≠ [] := by
      rintro rfl
      have hnone : lastWord [] = [] := rfl
      simp [hnone] at hpath
    have haddress := (hscsi line hline hne).2.2.1
    simp [hone, haddress.symm]

theorem hasChannel_cases (scsiId : Text) :
    (hasChannel scsiId = true ∧ ∃ host channel target lun, scsiId.splitOn ':' = [host, channel, target, lun] ∧
      vdStr scsiId = "/c".toList ++ host ++ "/v".toList ++ target) ∨
        hasChannel scsiId = false ∧ vdStr scsiId = [] := by
  unfold hasChannel vdStr
  match scsiId.splitOn ':' with
  | [host, channel, target, lun] =>
    by_cases hchannel : channel = ['0']
    · exact Or.inr ⟨by simp [hchannel], by simp [hchannel]⟩
    · exact Or.inl ⟨by simp [hchannel], host, channel, target, lun, rfl, if_pos hchannel⟩
  | [] | [_] | [_, _] | [_, _, _] | _ :: _ :: _ :: _ :: _ :: _ => exact Or.inr ⟨rfl, rfl⟩

theorem mem_channelLinks {x : Text × Text} (hx : x ∈ pciLinks vdData devName)
    (hchannel : hasChannel (finalAddress x.1) = true) : x ∈ channelLinks vdData devName := by
  obtain ⟨hlink, hpci⟩ := List.mem_filter.mp hx
  simp only [decide_eq_true_eq] at hpci
  obtain ⟨hbase, hpci, hpart⟩ := hpci
  have hnot : isPartition x.1 = false := by
    by_contra hpartition
    simp only [isPartition, Bool.not_eq_false, Bool.and_eq_true, decide_eq_true_eq] at hpartition
    have hdash : "part".toList <:+: "-part".toList := by decide
    refine hpart (hdash.trans (hpartition.2.isInfix.trans ?_))
    rw [List.append_assoc]
    exact (List.rdropWhile_prefix _ _).isInfix.trans (List.prefix_append _ _).isInfix
  exact List.mem_filter.mpr ⟨hlink, decide_eq_true ⟨hbase, hpci, hnot, hchannel⟩⟩

theorem virtualDisk_iff (hvd : Listing vdData) (h : DiskName devName) :
    (∃ x ∈ channelLinks vdData devName, ∃ host channel target lun,
      (finalAddress x.1).splitOn ':' = [host, channel, target, lun] ∧
        vdOf (parseVdInfo vdData) devName = "/c".toList ++ host ++ "/v".toList ++ target) ↔
      ∃ x ∈ (pciLinks vdData devName).getLast?, hasChannel (finalAddress x.1) = true := by
  rw [vdOf_eq hvd h]
  cases hlast : (pciLinks vdData devName).getLast? with
  | none => simp
  | some x =>
    have hx := List.mem_of_getLast? hlast
    rcases hasChannel_cases (finalAddress x.1) with
      ⟨hchannel, host, channel, target, lun, hsplit, hvdStr⟩ | ⟨hnot, hvdStr⟩
    · refine iff_of_true ?_ ⟨x, rfl, hchannel⟩
      exact ⟨x, mem_channelLinks hx hchannel, host, channel, target, lun, hsplit, by simpa using hvdStr⟩
    · simp [hnot, hvdStr]

theorem vdOf_eq_nil (hvd : Listing vdData) (h : DiskName devName) (hnone : channelLinks vdData devName = []) :
    vdOf (parseVdInfo vdData) devName = [] := by
  rw [vdOf_eq hvd h]
  cases hlast : (pciLinks vdData devName).getLast? with
  | none => rfl
  | some x =>
    rcases hasChannel_cases (finalAddress x.1) with ⟨hchannel, _⟩ | ⟨_, hvdStr⟩
    · have hx := mem_channelLinks (List.mem_of_getLast? hlast) hchannel
      simp [hnone] at hx
    · simpa using hvdStr

theorem usb_iff {link : Text} (hlinux : d.linuxWwid = some ("/dev/disk/by-id/".toList ++ link))
    (hstarts : bus.name <+: link) : d.usb = true ↔ bus = .usb := by
  have hpath : "/dev/disk/by-id/usb".toList = "/dev/disk/by-id/".toList ++ Bus.usb.name := by decide
  simp only [Drive.usb, hlinux, Option.any_some, hpath, List.prefix_append_right_inj, decide_eq_true_eq]
  constructor
  · intro husb
    rcases List.prefix_or_prefix_of_prefix hstarts husb with hpre | hpre
    · cases bus <;> first | rfl | exact absurd hpre (by decide)
    · cases bus <;> first | rfl | exact absurd hpre (by decide)
  · rintro rfl
    exact hstarts

theorem joined_iff (hvd : Listing vdData) (hscsi : ScsiListing scsiData) (h : DiskName d.devName)
    (hscsiId : d.scsiId = scsiIdOf (parseScsiInfo scsiData) d.devName)
    (hdisk : d.virtualDisk = if d.usb then [] else vdOf (parseVdInfo vdData) d.devName) :
    Joined vdData scsiData d ↔ Readable vdData scsiData d := by
  have hid := scsiId_iff hscsi h
  rw [← hscsiId] at hid
  constructor
  · intro hjoined
    refine ⟨hid.mp hjoined.scsiId, fun husb hsome => ?_⟩
    have hlast := hjoined.virtualDisk husb hsome
    rw [hdisk, husb] at hlast
    exact (virtualDisk_iff hvd h).mp hlast
  · intro hreadable
    refine ⟨hid.mpr hreadable.trailing, fun hnone => ?_, fun husb hsome => ?_, fun hno => ?_⟩
    · rw [hscsiId, scsiIdOf_eq hscsi h, hnone]
      rfl
    · rw [hdisk, husb]
      exact (virtualDisk_iff hvd h).mpr (hreadable.channel husb hsome)
    · rw [hdisk]
      cases husb : d.usb with
      | true => rfl
      | false => exact vdOf_eq_nil hvd h (hno.resolve_left (by simp [husb]))

end DriveIds

open DriveIds

/-- A drive has the address and the virtual disk of its device just if the line of
`lsscsi` and the last of the links can be read so. -/
theorem drive_join_iff (hdparm : Text → Option Text) (toUpperCase : Text → Text) (wwidData vdData scsiData : Text)
    (driveIds : List Drive) (hwwid : Listing wwidData) (hvd : Listing vdData) (hscsi : ScsiListing scsiData)
    (hbuilt : buildDriveMap hdparm toUpperCase wwidData vdData scsiData = some (driveIds.map some)) :
    ∀ d ∈ driveIds, Joined vdData scsiData d ↔ Readable vdData scsiData d := by
  simp only [buildDriveMap, Option.bind_eq_bind, Option.bind_eq_some_iff, Option.pure_def,
    Option.some.injEq] at hbuilt
  obtain ⟨wwids, hparsed, drives, hdrives, heq⟩ := hbuilt
  obtain ⟨drives', hdrives', _, hget⟩ := driveMap_eq_some hparsed vdData scsiData
  obtain rfl := Option.some.inj (hdrives.symm.trans hdrives')
  obtain rfl : drives = driveIds := by
    split_ifs at heq
    · cases driveIds <;> simp at heq
    · exact List.map_injective_iff.mpr (fun _ _ => Option.some.inj) heq
  intro d hd
  obtain ⟨k, hk⟩ := List.mem_iff_getElem?.mp hd
  obtain ⟨y, e, hy, hfst, hid, heq⟩ := hget k d hk
  obtain ⟨line, hline, hbus, hpair⟩ := mem_taken (List.mem_of_getElem? hy)
  obtain ⟨_, hdisk, _⟩ := busOf_eq_some hbus
  obtain ⟨link, target, hlink, rfl, hstarts, hpath, hone⟩ := links_of_busOf hwwid.linksTaken hline hbus
  have hy2 : y.2 = (basename target, link) := hpair.trans (deviceAndLink_eq hpath hone)
  obtain ⟨raw, _, hraw⟩ := List.mem_filterMap.mp hlink
  have hdevName : d.devName = basename target := by simp [heq, hfst, hy2]
  have hlinux : d.linuxWwid = some ("/dev/disk/by-id/".toList ++ link) := by rw [heq, hy2]
  have husb := usb_iff hlinux hstarts
  refine joined_iff hvd hscsi ?_ (by simp [heq]) ?_
  · rw [hdevName]
    exact diskName_basename (columns_of_linkOf hraw).2 hpath hdisk
  · have hvirtual : d.virtualDisk = if e.2 = "mpx.".toList then [] else vdOf (parseVdInfo vdData) d.devName := by
      simp [heq]
    simp only [hvirtual, esxiId_eq_mpx hid, husb]

def raidById : Text := "lrwxrwxrwx 1 root root 9 Dec 24 11:05 scsi-3600163600196 -> ../../sdc".toList

def raidByPath : Text := "lrwxrwxrwx 1 root root 9 Dec 24 11:05 pci-0000:03:00.0-scsi-7:2:0:0 -> ../../sdc".toList

theorem drive_join_iff_raid : ∃ d, buildDriveMap (fun _ => none) id raidById raidByPath
    "[7:2:0:0]  disk  LSI  MRROMB  4.26  /dev/sdc ".toList = some [some d] ∧
    (Joined raidByPath "[7:2:0:0]  disk  LSI  MRROMB  4.26  /dev/sdc ".toList d ↔
      Readable raidByPath "[7:2:0:0]  disk  LSI  MRROMB  4.26  /dev/sdc ".toList d) := by
  obtain ⟨d, hd⟩ : ∃ d, buildDriveMap (fun _ => none) id raidById raidByPath
      "[7:2:0:0]  disk  LSI  MRROMB  4.26  /dev/sdc ".toList = some [some d] := ⟨_, rfl⟩
  exact ⟨d, hd, drive_join_iff (fun _ => none) id raidById raidByPath
    "[7:2:0:0]  disk  LSI  MRROMB  4.26  /dev/sdc ".toList [d] (by decide) (by decide) (by decide) hd d
      (List.mem_singleton.mpr rfl)⟩

/-- Two blanks follow the device, and the drive is left without its address. -/
theorem drive_join_blanks : ∃ d, buildDriveMap (fun _ => none) id raidById raidByPath
    "[7:2:0:0]  disk  LSI  MRROMB  4.26  /dev/sdc  ".toList = some [some d] ∧
    ¬ Joined raidByPath "[7:2:0:0]  disk  LSI  MRROMB  4.26  /dev/sdc  ".toList d := by
  refine ⟨_, rfl, fun h => ?_⟩
  have hscsiId := h.scsiId "[7:2:0:0]  disk  LSI  MRROMB  4.26  /dev/sdc  ".toList (by decide)
  exact absurd hscsiId (by decide)

end OnTaskGraph
