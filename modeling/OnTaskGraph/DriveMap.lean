import OnTaskGraph.DriveIds

/-! The two lists of `parseDriveWwid` are joined by position. Both go through the lines
that are put into one of the three lists, in the order of these. -/

namespace OnTaskGraph

open JsText

namespace DriveIds

/-- The link of a line: its ninth and eleventh column, with an arrow between them. -/
def linkOf (line : Text) : Option (Text × Text) :=
  match (splitBlanks line)[8]?, (splitBlanks line)[9]?, (splitBlanks line)[10]? with
  | some name, some arrow, some target => if arrow = "->".toList then some (name, target) else none
  | _, _, _ => none

def links (list : Text) : List (Text × Text) := (list.splitOn '\n').filterMap linkOf

/-- What `ls -l` prints of a directory of links to devices: lines with an eleventh column
are those of links, which are paths out of the directory. -/
def Listing (list : Text) : Prop :=
  ∀ line ∈ list.splitOn '\n', ∀ target ∈ (splitBlanks line)[10]?,
    (splitBlanks line)[9]? = some "->".toList ∧ '/' ∈ target ∧ ¬ "->".toList <:+: target

instance (list : Text) : Decidable (Listing list) := inferInstanceAs (Decidable (∀ line ∈ _, ∀ target ∈ _, _))

/-- Each line that is put into one of the three lists is that of a link: an arrow and a
path follow the column that is taken for its name. -/
def LinksTaken (list : Text) : Prop :=
  ∀ line ∈ list.splitOn '\n', (busOf (columns line)).isSome → (splitBlanks line)[9]? = some "->".toList ∧
    ∃ target ∈ (splitBlanks line)[10]?, '/' ∈ target ∧ ¬ "->".toList <:+: target

instance (list : Text) : Decidable (LinksTaken list) :=
  inferInstanceAs (Decidable (∀ line ∈ _, _ → _ ∧ ∃ target ∈ _, _))

def basename (target : Text) : Text := after target (lastIndexOf ['/'] target)

/-- The lines that are put into the three lists, as these are put together. -/
def taken (idList : Text) : List (Bus × (Text × Text)) :=
  [Bus.ata, Bus.scsi, Bus.usb].flatMap fun bus => (linesOf bus idList).map (bus, ·)

/-- The name of a drive for ESXi comes from its link, and for usb from its address. -/
structure Named (hdparm : Text → Option Text) (toUpperCase : Text → Text) (bus : Bus) (link : Text)
    (d : Drive) : Prop where
  starts : bus.name <+: link
  linuxWwid : d.linuxWwid = some ("/dev/disk/by-id/".toList ++ link)
  esxiWwid : ∃ id, esxiId hdparm toUpperCase bus (d.devName, link) = some id ∧
    d.esxiWwid = if bus = .usb then (if d.scsiId ≠ [] then mpxWwid d.scsiId else []) else id

variable {hdparm : Text → Option Text} {toUpperCase : Text → Text} {wwidData vdData scsiData : Text}
  {wwids : DriveWwids} {bus : Bus} {line name target x id : Text}

theorem forall₂_of_mapM {α β : Type*} {f : α → Option β} {xs : List α} {ys : List β} (h : xs.mapM f = some ys) :
    List.Forall₂ (fun x y => f x = some y) xs ys := by
  induction xs generalizing ys with
  | nil =>
    obtain rfl : [] = ys := by simpa using h
    exact .nil
  | cons x xs ih =>
    simp only [List.mapM_cons, Option.pure_def, Option.bind_eq_bind, Option.bind_eq_some_iff,
      Option.some.injEq] at h
    obtain ⟨y, hy, zs, hzs, rfl⟩ := h
    exact .cons hy (ih hzs)

theorem esxiLines_forall₂ {es : List (Text × Text)} (h : esxiLines hdparm toUpperCase bus wwidData = some es) :
    List.Forall₂ (fun (x : Bus × (Text × Text)) e => e.1 = x.2.1 ∧ esxiId hdparm toUpperCase x.1 x.2 = some e.2)
      ((linesOf bus wwidData).map (bus, ·)) es := by
  rw [List.forall₂_map_left_iff]
  refine (forall₂_of_mapM h).imp fun x e he => ?_
  obtain ⟨id, hid, rfl⟩ := Option.map_eq_some_iff.mp he
  exact ⟨rfl, hid⟩

theorem parseDriveWwid_taken (h : parseDriveWwid hdparm toUpperCase wwidData = some wwids) :
    List.Forall₂ (fun (x : Bus × (Text × Text)) e => e.1 = x.2.1 ∧ esxiId hdparm toUpperCase x.1 x.2 = some e.2)
      (taken wwidData) wwids.esxiDriveIds ∧
    wwids.linuxDriveIds = (taken wwidData).map fun x => (x.2.1, "/dev/disk/by-id/".toList ++ x.2.2) := by
  simp only [parseDriveWwid, Option.bind_eq_bind, Option.bind_eq_some_iff, Option.pure_def,
    Option.some.injEq] at h
  obtain ⟨sata, hsata, scsi, hscsi, usb, husb, rfl⟩ := h
  constructor
  · have hall := List.rel_append (esxiLines_forall₂ hsata)
      (List.rel_append (esxiLines_forall₂ hscsi) (esxiLines_forall₂ husb))
    simpa [taken] using hall
  · simp [taken, Function.comp_def]

theorem parseDriveWwid_map_fst (h : parseDriveWwid hdparm toUpperCase wwidData = some wwids) :
    wwids.esxiDriveIds.map Prod.fst = (taken wwidData).map fun x => x.2.1 := by
  have hfst : List.Forall₂ (fun d x => d = x) ((taken wwidData).map fun x => x.2.1)
      (wwids.esxiDriveIds.map Prod.fst) := by
    rw [List.forall₂_map_left_iff, List.forall₂_map_right_iff]
    exact (parseDriveWwid_taken h).1.imp fun _ _ hx => hx.1.symm
  exact (List.forall₂_eq_eq_eq ▸ hfst : _ = _).symm

/-- The loop gives each drive from the `k`th on its place and the link at that place. -/
theorem identify_eq_some {driveIds : List Drive} {linuxWwids : List (Text × Text)} {k : Nat}
    (h : k + linuxWwids.length ≤ driveIds.length) : ∃ result, identify driveIds k linuxWwids = some result ∧
      result.length = driveIds.length ∧ (∀ i < k, result[i]? = driveIds[i]?) ∧
      ∀ i d l, driveIds[k + i]? = some d → linuxWwids[i]? = some l →
        result[k + i]? = some { d with identifier := some (k + i), linuxWwid := some l.2 } := by
  induction linuxWwids generalizing driveIds k with
  | nil => exact ⟨driveIds, rfl, rfl, fun _ _ => rfl, by simp⟩
  | cons l linuxWwids ih =>
    have hk : k < driveIds.length := by
      simp only [List.length_cons] at h
      omega
    let driveIds' := driveIds.set k { driveIds[k] with identifier := some k, linuxWwid := some l.2 }
    have hnext : k + 1 + linuxWwids.length ≤ driveIds'.length := by
      simp only [List.length_cons, driveIds', List.length_set] at h ⊢
      omega
    obtain ⟨result, hresult, hlength, hbefore, hfrom⟩ := ih hnext
    refine ⟨result, ?_, by simpa [driveIds'] using hlength, fun i hi => ?_, fun i d l' hd hl' => ?_⟩
    · rw [identify, dif_pos hk]
      exact hresult
    · rw [hbefore i (by omega), List.getElem?_set_ne (by omega)]
    · cases i with
      | zero =>
        obtain rfl : l = l' := by simpa using hl'
        obtain ⟨_, rfl⟩ := List.getElem?_eq_some_iff.mp hd
        rw [hbefore _ (by omega)]
        simp [driveIds', hk]
      | succ i =>
        have hget : driveIds'[k + 1 + i]? = some d := by
          rw [List.getElem?_set_ne (by omega), ← hd]
          congr 1
          omega
        have hlater := hfrom i d l' hget (by simpa using hl')
        rw [show k + (i + 1) = k + 1 + i by omega]
        exact hlater

/-! What is read from a line of a listing. -/

theorem endsLikeDisk_arrow : endsLikeDisk (name ++ "->".toList) = false := by
  cases hs : name.reverse with
  | nil => simp [endsLikeDisk, hs, diskBackwards]
  | cons c s => simp [endsLikeDisk, hs, diskBackwards]

theorem Bus.name_ne_nil (bus : Bus) : bus.name ≠ [] := by
  cases bus <;> decide

theorem Bus.dash_not_mem (bus : Bus) : '-' ∉ bus.name := by
  cases bus <;> decide

theorem busOf_eq_some (h : busOf line = some bus) :
    ¬ "part".toList <:+: line ∧ endsLikeDisk line = true ∧ bus.name <+: line := by
  unfold busOf at h
  split_ifs at h with hline hscsi hata husb
  · obtain rfl := Option.some.inj h
    exact ⟨hline.2.1, hline.2.2, (indexOf_eq_zero (Bus.name_ne_nil .scsi)).mp hscsi⟩
  · obtain rfl := Option.some.inj h
    exact ⟨hline.2.1, hline.2.2, (indexOf_eq_zero (Bus.name_ne_nil .ata)).mp hata⟩
  · obtain rfl := Option.some.inj h
    exact ⟨hline.2.1, hline.2.2, (indexOf_eq_zero (Bus.name_ne_nil .usb)).mp husb⟩

theorem prefix_of_prefix_arrow (h : x <+: name ++ "->".toList ++ target) (hx : '-' ∉ x) : x <+: name := by
  rw [List.append_assoc] at h
  rcases List.prefix_or_prefix_of_prefix h (List.prefix_append name _) with hpre | ⟨s, rfl⟩
  · exact hpre
  · cases s with
    | nil => simp
    | cons c s =>
      have harrow : "->".toList = ['-', '>'] := by decide
      obtain ⟨t, ht⟩ := (List.prefix_append_right_inj name).mp h
      rw [harrow] at ht
      obtain rfl : c = '-' := (List.cons.inj ht).1
      simp at hx

theorem deviceAndLink_eq (hpath : '/' ∈ target) (harrow : ¬ "->".toList <:+: target) :
    deviceAndLink (name ++ "->".toList ++ target) = (basename target, name) := by
  have hnone : lastIndexOf "->".toList target = none := lastIndexOf_eq_none harrow
  have hzero : lastIndexOf "->".toList ("->".toList ++ target) = some 0 := by
    simp only [String.reduceToList] at hnone ⊢
    simp [lastIndexOf, hnone]
  refine Prod.ext (after_append hpath) ?_
  rw [List.append_assoc, deviceAndLink, lastIndexOf_append hzero]
  simp [before]

theorem columns_of_linkOf (h : linkOf line = some (name, target)) :
    columns line = name ++ "->".toList ++ target ∧ ∀ c ∈ target, blank c = false := by
  unfold linkOf at h
  split at h
  · rename_i hname _ htarget
    split_ifs at h with harrow
    obtain ⟨rfl, rfl⟩ := Prod.mk.inj (Option.some.inj h)
    exact ⟨by simp [columns, List.getD_eq_getElem?_getD, hname, htarget],
      not_blank_of_mem_splitBlanks (List.mem_of_getElem? htarget)⟩
  · simp at h

/-- A line of a listing is that of a link out of the directory, or ends with the arrow
that the columns are joined by. -/
theorem Listing.cases (hlisting : Listing wwidData) (hline : line ∈ wwidData.splitOn '\n') :
    (∃ name target, linkOf line = some (name, target) ∧ '/' ∈ target ∧ ¬ "->".toList <:+: target) ∨
      linkOf line = none ∧ ∃ name, columns line = name ++ "->".toList := by
  cases htarget : (splitBlanks line)[10]? with
  | none =>
    refine Or.inr ⟨?_, (splitBlanks line).getD 8 [], by simp [columns, List.getD_eq_getElem?_getD, htarget]⟩
    simp only [linkOf, htarget]
    split <;> simp_all
  | some target =>
    obtain ⟨harrow, hpath, hone⟩ := hlisting line hline target htarget
    have hlength : 10 < (splitBlanks line).length := (List.getElem?_eq_some_iff.mp htarget).1
    have hname : (splitBlanks line)[8]? = some (splitBlanks line)[8] := List.getElem?_eq_getElem (by omega)
    refine Or.inl ⟨(splitBlanks line)[8], target, ?_, hpath, hone⟩
    simp only [linkOf, hname, harrow, htarget, if_true]

theorem Listing.linksTaken (hlisting : Listing wwidData) : LinksTaken wwidData := by
  intro line hline hbus
  obtain ⟨bus, hbus⟩ := Option.isSome_iff_exists.mp hbus
  rcases hlisting.cases hline with ⟨name, target, hlink, hpath, hone⟩ | ⟨_, name, hcolumns⟩
  · unfold linkOf at hlink
    split at hlink
    · rename_i harrow htarget
      split_ifs at hlink with heq
      obtain ⟨rfl, rfl⟩ := Prod.mk.inj (Option.some.inj hlink)
      exact ⟨harrow.trans (congrArg some heq), _, htarget, hpath, hone⟩
    · simp at hlink
  · have hdisk := (busOf_eq_some hbus).2.1
    rw [hcolumns, endsLikeDisk_arrow] at hdisk
    exact absurd hdisk (by simp)

/-- A line that is taken is that of a link to its device. -/
theorem links_of_busOf (hlinks : LinksTaken wwidData) (hline : line ∈ (wwidData.splitOn '\n').map columns)
    (hbus : busOf line = some bus) : ∃ link target, (link, target) ∈ links wwidData ∧
      line = link ++ "->".toList ++ target ∧ bus.name <+: link ∧ '/' ∈ target ∧ ¬ "->".toList <:+: target := by
  obtain ⟨raw, hraw, rfl⟩ := List.mem_map.mp hline
  obtain ⟨harrow, target, htarget, hpath, hone⟩ := hlinks raw hraw (by simp [hbus])
  have hlength : 10 < (splitBlanks raw).length := (List.getElem?_eq_some_iff.mp htarget).1
  have hname : (splitBlanks raw)[8]? = some (splitBlanks raw)[8] := List.getElem?_eq_getElem (by omega)
  have hlink : linkOf raw = some ((splitBlanks raw)[8], target) := by
    simp only [linkOf, hname, harrow, Option.mem_def.mp htarget, if_true]
  obtain ⟨hcolumns, _⟩ := columns_of_linkOf hlink
  have hstarts := (busOf_eq_some hbus).2.2
  rw [hcolumns] at hstarts ⊢
  exact ⟨_, target, List.mem_filterMap.mpr ⟨raw, hraw, hlink⟩, rfl,
    prefix_of_prefix_arrow hstarts bus.dash_not_mem, hpath, hone⟩

theorem mem_taken {y : Bus × (Text × Text)} (h : y ∈ taken wwidData) :
    ∃ line ∈ (wwidData.splitOn '\n').map columns, busOf line = some y.1 ∧ y.2 = deviceAndLink line := by
  obtain ⟨bus, _, hy⟩ := List.mem_flatMap.mp h
  obtain ⟨pair, hpair, rfl⟩ := List.mem_map.mp hy
  obtain ⟨line, hline, rfl⟩ := List.mem_map.mp hpair
  obtain ⟨hline, hbus⟩ := List.mem_filter.mp hline
  exact ⟨line, hline, by simpa using hbus, rfl⟩

theorem replaceDashes_cons {c : Char} (hc : c ≠ '-') (s : Text) :
    replaceDashes (c :: s) = c :: replaceDashes s := by
  obtain ⟨head, rest, hs⟩ := List.exists_cons_of_ne_nil (List.splitOn_ne_nil '-' s)
  simp [replaceDashes, List.splitOn_cons_eq_if_modifyHead, hc, hs]

theorem esxiId_eq_mpx {esxiLine : Text × Text} (h : esxiId hdparm toUpperCase bus esxiLine = some id) :
    id = "mpx.".toList ↔ bus = .usb := by
  have hmpx : "mpx.".toList = ['m', 'p', 'x', '.'] := by decide
  cases bus with
  | usb => exact ⟨fun _ => rfl, fun _ => (Option.some.inj h).symm⟩
  | ata =>
    have hhead : "t10.".toList = ['t', '1', '0', '.'] := by decide
    obtain ⟨output, _, rfl⟩ := Option.map_eq_some_iff.mp h
    rw [hmpx, hhead]
    simp only [List.cons_append]
    rw [replaceDashes_cons (by decide)]
    simp
  | scsi =>
    have hhead : "naa.".toList = ['n', 'a', 'a', '.'] := by decide
    obtain ⟨split, _, rfl⟩ := Option.map_eq_some_iff.mp h
    rw [hmpx, hhead]
    simp

section

variable (vdList : List VdInfo) (scsiList : List (Option (Text × Text))) (e : Text × Text)

@[simp] theorem driveOf_devName : (driveOf vdList scsiList e).devName = e.1 := by
  unfold driveOf
  split <;> rfl

@[simp] theorem driveOf_scsiId : (driveOf vdList scsiList e).scsiId = scsiIdOf scsiList e.1 := by
  unfold driveOf
  split <;> rfl

@[simp] theorem driveOf_virtualDisk : (driveOf vdList scsiList e).virtualDisk =
    if e.2 = "mpx.".toList then [] else vdOf vdList e.1 := by
  unfold driveOf
  split <;> rfl

@[simp] theorem driveOf_esxiWwid : (driveOf vdList scsiList e).esxiWwid =
    if e.2 = "mpx.".toList then
      if scsiIdOf scsiList e.1 ≠ [] then mpxWwid (scsiIdOf scsiList e.1) else []
    else e.2 := by
  unfold driveOf
  split <;> rfl

end

theorem driveMap_eq_some (h : parseDriveWwid hdparm toUpperCase wwidData = some wwids) (vdData scsiData : Text) :
    ∃ driveIds, driveMap wwids vdData scsiData = some driveIds ∧ driveIds.length = wwids.esxiDriveIds.length ∧
      ∀ (k : Nat) d, driveIds[k]? = some d → ∃ y e, (taken wwidData)[k]? = some y ∧ e.1 = y.2.1 ∧
        esxiId hdparm toUpperCase y.1 y.2 = some e.2 ∧
        d = { driveOf (parseVdInfo vdData) (parseScsiInfo scsiData) e with
          identifier := some k, linuxWwid := some ("/dev/disk/by-id/".toList ++ y.2.2) } := by
  obtain ⟨hesxi, hlinux⟩ := parseDriveWwid_taken h
  have hlinks : 0 + wwids.linuxDriveIds.length ≤
      (wwids.esxiDriveIds.map (driveOf (parseVdInfo vdData) (parseScsiInfo scsiData))).length := by
    simp [hlinux, hesxi.length_eq]
  obtain ⟨driveIds, hdrives, hlength, _, hget⟩ := identify_eq_some hlinks
  refine ⟨driveIds, hdrives, by simpa using hlength, fun k d hd => ?_⟩
  have hk : k < (taken wwidData).length := by
    have hlt := (List.getElem?_eq_some_iff.mp hd).1
    rw [hlength, List.length_map, ← hesxi.length_eq] at hlt
    exact hlt
  have hk' : k < wwids.esxiDriveIds.length := hesxi.length_eq ▸ hk
  obtain ⟨hfst, hid⟩ := hesxi.get hk hk'
  refine ⟨(taken wwidData)[k], wwids.esxiDriveIds[k], List.getElem?_eq_getElem hk, hfst, hid, ?_⟩
  have hlink : k < wwids.linuxDriveIds.length := by simpa [hlinux] using hk
  have hdrive := hget k (driveOf (parseVdInfo vdData) (parseScsiInfo scsiData) wwids.esxiDriveIds[k])
    wwids.linuxDriveIds[k] (by simp [hk']) (by simp)
  rw [Nat.zero_add] at hdrive
  rw [← Option.some.inj (hdrive.symm.trans hd)]
  simp [hlinux]

end DriveIds

open DriveIds

/-- The lists name the same devices, and each drive has its place. Where lines of links are
taken only, it has a link that leads to its device, and the name that this link gives it. -/
theorem drive_map_pairs (hdparm : Text → Option Text) (toUpperCase : Text → Text)
    (wwidData vdData scsiData : Text)
    (wwids : DriveWwids) (hparsed : parseDriveWwid hdparm toUpperCase wwidData = some wwids) :
    wwids.esxiDriveIds.map Prod.fst = wwids.linuxDriveIds.map Prod.fst ∧
    ∃ driveIds : List Drive, driveIds.length = wwids.esxiDriveIds.length ∧
      buildDriveMap hdparm toUpperCase wwidData vdData scsiData =
        some (if driveIds.length = 0 then [none] else driveIds.map some) ∧
      ∀ (k : Nat) d, driveIds[k]? = some d → d.identifier = some k ∧ (LinksTaken wwidData →
        ∃ bus link target, (link, target) ∈ links wwidData ∧ basename target = d.devName ∧
          d.scsiId = scsiIdOf (parseScsiInfo scsiData) d.devName ∧ Named hdparm toUpperCase bus link d) := by
  obtain ⟨driveIds, hdrives, hlength, hget⟩ := driveMap_eq_some hparsed vdData scsiData
  refine ⟨?_, driveIds, hlength, by simp [buildDriveMap, hparsed, hdrives], fun k d hd => ?_⟩
  · rw [parseDriveWwid_map_fst hparsed, (parseDriveWwid_taken hparsed).2]
    simp
  · obtain ⟨y, e, hy, hfst, hid, rfl⟩ := hget k d hd
    refine ⟨rfl, fun hlinks => ?_⟩
    obtain ⟨line, hline, hbus, hpair⟩ := mem_taken (List.mem_of_getElem? hy)
    obtain ⟨link, target, hlink, rfl, hstarts, hpath, hone⟩ := links_of_busOf hlinks hline hbus
    have hy2 : y.2 = (basename target, link) := hpair.trans (deviceAndLink_eq hpath hone)
    rw [hy2] at hfst hid
    have hmpx := esxiId_eq_mpx hid
    refine ⟨y.1, link, target, hlink, by simp [hfst], by simp, hstarts, by simp [hy2], e.2, ?_, ?_⟩
    · simpa [hfst] using hid
    · simp only [driveOf_esxiWwid, driveOf_scsiId, hmpx]

def byIdLine (name target : Text) : Text :=
  "lrwxrwxrwx 1 root root 9 ".toList ++ "May 15 08:45 ".toList ++ name ++ " -> ".toList ++ target

/-- Disks of all three buses, of which the lists have the ATA disk first. -/
def mixedListing : Text :=
  ['\n'].intercalate ["total 0".toList, byIdLine "usb-SMART_eUSB-0:0".toList "../../sdd".toList,
    byIdLine "scsi-35000c500725f45d7".toList "../../sda".toList,
    byIdLine "scsi-35000c500725f45d7-part1".toList "../../sda1".toList,
    byIdLine "ata-SATADOM-SV_3SE".toList "../../sdb".toList]

def mixedAddresses : Text := "[6:0:1:0] disk SATADOM /dev/sdb\n[8:0:0:0] disk eUSB /dev/sdd".toList

theorem drive_map_pairs_mixed : ∃ driveIds : List Drive,
    buildDriveMap (fun _ => some []) id mixedListing [] mixedAddresses = some (driveIds.map some) ∧
    driveIds.map (·.devName) = ["sdb".toList, "sda".toList, "sdd".toList] ∧
    ∀ (k : Nat) d, driveIds[k]? = some d → d.identifier = some k ∧
      ∃ bus link target, (link, target) ∈ links mixedListing ∧ basename target = d.devName ∧
        d.scsiId = scsiIdOf (parseScsiInfo mixedAddresses) d.devName ∧
          Named (fun _ => some []) id bus link d := by
  obtain ⟨wwids, hparsed⟩ := Option.isSome_iff_exists.mp
    (show (parseDriveWwid (fun _ => some []) id mixedListing).isSome = true by decide +kernel)
  obtain ⟨-, driveIds, -, hdrives, hget⟩ :=
    drive_map_pairs (fun _ => some []) id mixedListing [] mixedAddresses wwids hparsed
  have hnames : (buildDriveMap (fun _ => some []) id mixedListing [] mixedAddresses).map
      (·.map (·.map (·.devName))) = some [some "sdb".toList, some "sda".toList, some "sdd".toList] := by
    decide +kernel
  have hnone : driveIds.length ≠ 0 := by
    intro hzero
    rw [hdrives, if_pos hzero] at hnames
    simp at hnames
  rw [if_neg hnone] at hdrives
  refine ⟨driveIds, hdrives, ?_, fun k d hd => (hget k d hd).imp_right fun h => h (by decide +kernel)⟩
  have hsome : (driveIds.map (·.devName)).map some = ["sdb".toList, "sda".toList, "sdd".toList].map some := by
    simpa [hdrives, Function.comp_def] using hnames
  exact List.map_injective_iff.mpr (fun _ _ => Option.some.inj) hsome

/-- The map has a drive that no link of the listing leads to by its name. -/
def Misnamed (wwidData : Text) : Prop :=
  ∃ d, buildDriveMap (fun _ => some []) id wwidData [] [] = some [some d] ∧
    ∀ x ∈ links wwidData, ¬ (basename x.2 = d.devName ∧ d.linuxWwid = some ("/dev/disk/by-id/".toList ++ x.1))

/-- A link whose name has a blank, one within the directory, and one with an arrow in its
target. -/
theorem drive_map_misnamed :
    Misnamed (byIdLine "ata-A B sda".toList "../../sdb".toList) ∧
    Misnamed (byIdLine "ata-A".toList "sda".toList) ∧
    Misnamed (byIdLine "ata-A".toList "../../x->/sda".toList) := by
  refine ⟨⟨_, rfl, ?_⟩, ⟨_, rfl, ?_⟩, ⟨_, rfl, ?_⟩⟩ <;> decide +kernel

end OnTaskGraph
