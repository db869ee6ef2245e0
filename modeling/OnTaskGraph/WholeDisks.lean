import OnTaskGraph.DriveMap

/-! How often a disk is among the drives, for links of any name. Names with blanks are
read by their words. -/

namespace OnTaskGraph

open JsText

namespace DriveIds

/-- A line of `ls -l` for a link to a device; the name of a file has no slash, and a
listing shows it on one line. -/
structure Symlink where
  columns : Text
  name : Text
  device : Text
  columns_words : (words columns).length = 8
  columns_start : columns.head?.any blank = false
  one_line : '\n' ∉ columns ∧ '\n' ∉ name
  name_file : '/' ∉ name
  device_word : device ≠ [] ∧ ∀ c ∈ device, blank c = false ∧ c ≠ '/'

inductive LsLine
  | link (l : Symlink)
  /-- A line without an eleventh column. -/
  | other (line : Text) (short : (splitBlanks line).length ≤ 10) (one_line : '\n' ∉ line)

def Symlink.target (l : Symlink) : Text := "../../".toList ++ l.device

def LsLine.text : LsLine → Text
  | .link l => l.columns ++ ' ' :: (l.name ++ " -> ".toList ++ l.target)
  | .other line _ _ => line

def LsLine.link? : LsLine → Option Symlink
  | .link l => some l
  | .other _ _ _ => none

def listing (ls : List LsLine) : Text := ['\n'].intercalate (ls.map LsLine.text)

/-- `sdX`, `sdXY`, `hdX` or `hdXY` -/
def wholeDisk : Text → Bool
  | s :: d :: x :: y => (s = 's' || s = 'h') && d = 'd' && x.isAlpha && y.all Char.isAlpha && y.length ≤ 1
  | _ => false

def Symlink.qualifies (l : Symlink) : Prop := ∃ bus : Bus, bus.name <+: l.name

/-- The list that the line of a link is put into, if its name is read as one word. -/
def Symlink.bus (l : Symlink) : Option Bus :=
  match words l.name with
  | [w] => busOf (w ++ "->".toList ++ l.target)
  | _ => none

/-- What is read of a name of three words or more is the line of a link to the third. -/
def Symlink.misread (l : Symlink) : Option Text :=
  match words l.name with
  | w₁ :: _ :: w₃ :: _ =>
    if (busOf (w₁ ++ "->".toList ++ w₃)).isSome then some (w₁ ++ "->".toList ++ w₃) else none
  | _ => none

/-- Each whole disk to which a link leads is among the drives once, and nothing else is. -/
def Listed (hdparm : Text → Text) (toUpperCase : Text → Text) (ls : List LsLine) : Prop :=
  ∃ wwids, parseDriveWwid (some ∘ hdparm) toUpperCase (listing ls) = some wwids ∧
    ∀ d, (wholeDisk d = true ∧ (∃ l ∈ ls.filterMap LsLine.link?, l.qualifies ∧ l.device = d) →
        (wwids.esxiDriveIds.map Prod.fst).count d = 1) ∧
      (¬ (wholeDisk d = true ∧ ∃ l ∈ ls.filterMap LsLine.link?, l.qualifies ∧ l.device = d) →
        (wwids.esxiDriveIds.map Prod.fst).count d = 0)

/-- The links that are taken lead to whole disks, to each of them one, and the names of
those for scsi can be split. -/
structure Distinct (ls : List LsLine) : Prop where
  whole : ∀ l ∈ ls.filterMap LsLine.link?, l.bus.isSome = true →
    wholeDisk l.device = true ∧ ∃ l' ∈ ls.filterMap LsLine.link?, l'.qualifies ∧ l'.device = l.device
  once : ∀ d, wholeDisk d = true → (∃ l ∈ ls.filterMap LsLine.link?, l.qualifies ∧ l.device = d) →
    (ls.filterMap LsLine.link?).countP (fun l => l.bus.isSome && l.device = d) = 1
  named : ∀ l ∈ ls.filterMap LsLine.link?, l.bus = some .scsi → ∃ c ∈ l.name, c = '-' ∨ c = '_'
  unread : ∀ l ∈ ls.filterMap LsLine.link?, l.misread = none

variable {hdparm : Text → Text} {toUpperCase : Text → Text} {idList d line w : Text} {l : Symlink}
  {ls : List LsLine} {bus : Bus}

/-! How many drives have a device. -/

def takenFor (d line : Text) : Bool := (busOf line).isSome && (deviceAndLink line).1 = d

theorem count_linesOf (lines : List Text) (bus : Bus) (d : Text) :
    (((lines.filter (busOf · = some bus)).map deviceAndLink).map Prod.fst).count d =
      lines.countP fun line => busOf line = some bus && (deviceAndLink line).1 = d := by
  rw [List.map_map, List.count_eq_countP, List.countP_map, List.countP_filter]
  refine List.countP_congr fun line _ => ?_
  simp [and_comm]

theorem count_taken (idList d : Text) : ((taken idList).map fun x => x.2.1).count d =
    ((idList.splitOn '\n').map columns).countP (takenFor d) := by
  have hmap : (taken idList).map (fun x => x.2.1) = [Bus.ata, Bus.scsi, Bus.usb].flatMap fun bus =>
      (linesOf bus idList).map Prod.fst := by
    simp [taken, Function.comp_def]
  rw [hmap]
  simp only [List.flatMap_cons, List.flatMap_nil, List.append_nil, List.count_append, linesOf, count_linesOf]
  induction (idList.splitOn '\n').map columns with
  | nil => rfl
  | cons line lines ih =>
    simp only [List.countP_cons]
    cases hbus : busOf line with
    | none =>
      simp only [takenFor] at ih ⊢
      simpa [hbus] using ih
    | some bus =>
      have htaken : takenFor d line = decide ((deviceAndLink line).1 = d) := by simp [takenFor, hbus]
      rw [htaken]
      by_cases hd : (deviceAndLink line).1 = d
      · cases bus <;> simp [hd] <;> omega
      · simpa [hd] using ih

/-! What is read of a line. -/

theorem Symlink.device_blank (l : Symlink) : ∀ c ∈ l.target, blank c = false := by
  have hpath : ∀ c ∈ "../../".toList, blank c = false := by simp [blank]
  intro c hc
  rcases List.mem_append.mp hc with hc | hc
  · exact hpath c hc
  · exact (l.device_word.2 c hc).1

theorem splitBlanks_link (l : Symlink) :
    splitBlanks (LsLine.link l).text = words l.columns ++ (words l.name ++ ["->".toList, l.target]) := by
  have hblank : blank ' ' = true := by decide
  have hcolumns : l.columns ≠ [] := by
    intro hnil
    have hwords := l.columns_words
    rw [hnil] at hwords
    exact absurd hwords (by decide)
  have htarget : l.target ≠ [] := List.append_ne_nil_of_left_ne_nil (by decide) _
  have harrow : " -> ".toList ++ l.target = ' ' :: ("->".toList ++ ' ' :: l.target) := by
    have h : " -> ".toList = ' ' :: ("->".toList ++ [' ']) := by decide
    rw [h]
    simp
  have htext :
      (LsLine.link l).text = l.columns ++ ' ' :: (l.name ++ ' ' :: ("->".toList ++ ' ' :: l.target)) := by
    rw [LsLine.text, List.append_assoc, harrow]
  have hhead : (LsLine.link l).text.head?.any blank = false := by
    rw [LsLine.text, List.head?_append_of_ne_nil _ hcolumns]
    exact l.columns_start
  have hlast : (LsLine.link l).text.getLast?.any blank = false := by
    rw [LsLine.text, ← List.cons_append, ← List.append_assoc]
    exact last_append_blank htarget l.device_blank
  have hne : (LsLine.link l).text ≠ [] := fun hnil => hcolumns (List.append_eq_nil_iff.mp hnil).1
  rw [splitBlanks_eq_words hne hhead hlast, htext, words_append_blank hblank, words_append_blank hblank,
    words_append_blank hblank, words_eq_singleton htarget l.device_blank,
    words_eq_singleton (s := "->".toList) (by decide) (by simp [blank])]
  rfl

theorem columns_link (l : Symlink) : columns (LsLine.link l).text =
    (words l.name ++ ["->".toList, l.target]).getD 0 [] ++ "->".toList ++
      (words l.name ++ ["->".toList, l.target]).getD 2 [] := by
  have hget : ∀ i, (words l.columns ++ (words l.name ++ ["->".toList, l.target])).getD (8 + i) [] =
      (words l.name ++ ["->".toList, l.target]).getD i [] := by
    intro i
    rw [List.getD_eq_getElem?_getD, List.getElem?_append_right (by rw [l.columns_words]; omega), l.columns_words,
      Nat.add_sub_cancel_left, List.getD_eq_getElem?_getD]
  rw [columns, splitBlanks_link]
  exact congrArg₂ (fun a b => a ++ "->".toList ++ b) (hget 0) (hget 2)

theorem busOf_arrow (s : Text) : busOf (s ++ "->".toList) = none := by
  by_contra h
  obtain ⟨bus, hbus⟩ := Option.ne_none_iff_exists'.mp h
  have hdisk := (busOf_eq_some hbus).2.1
  rw [endsLikeDisk_arrow] at hdisk
  exact absurd hdisk (by simp)

theorem deviceAndLink_link (w : Text) (l : Symlink) :
    (deviceAndLink (w ++ "->".toList ++ l.target)).1 = l.device := by
  have hdevice : '/' ∉ l.device := fun h => (l.device_word.2 '/' h).2 rfl
  have hpath : after "../../".toList (lastIndexOf ['/'] "../../".toList) = [] := by decide
  have htarget : l.target = "../../".toList ++ l.device := rfl
  rw [htarget, ← List.append_assoc]
  refine (after_append_of_not_mem hdevice).trans ?_
  rw [after_append (by decide), hpath, List.nil_append]

theorem takenFor_link (d : Text) (l : Symlink) : takenFor d (columns (LsLine.link l).text) =
    (l.bus.isSome && l.device = d || l.misread = some d) := by
  have hnone : ∀ s, takenFor d (s ++ "->".toList) = false := fun s => by rw [takenFor, busOf_arrow]; rfl
  rw [columns_link]
  match hwords : words l.name with
  | [] => simpa [Symlink.bus, Symlink.misread, hwords] using hnone "->".toList
  | [w] =>
    rw [takenFor, List.singleton_append, List.getD_cons_zero, List.getD_cons_succ, List.getD_cons_succ,
      List.getD_cons_zero, deviceAndLink_link]
    simp [Symlink.bus, Symlink.misread, hwords]
  | [w, _] => simpa [Symlink.bus, Symlink.misread, hwords] using hnone (w ++ "->".toList)
  | w₁ :: w₂ :: w₃ :: ws =>
    have hslash : '/' ∉ w₁ ++ "->".toList ++ w₃ := by
      have hname : ∀ w ∈ words l.name, '/' ∉ w := fun w hw hmem => l.name_file (of_mem_words hw '/' hmem).1
      have h₁ := hname w₁ (by simp [hwords])
      have h₃ := hname w₃ (by simp [hwords])
      simp [h₁, h₃]
    have hdevice : (deviceAndLink (w₁ ++ "->".toList ++ w₃)).1 = w₁ ++ "->".toList ++ w₃ := by
      have hindex : lastIndexOf ['/'] (w₁ ++ "->".toList ++ w₃) = none :=
        lastIndexOf_eq_none fun h => hslash ((List.singleton_infix_iff _ _).mp h)
      rw [deviceAndLink, hindex]
      rfl
    simp only [List.cons_append, List.getD_cons_zero, List.getD_cons_succ]
    rw [takenFor, hdevice]
    simp only [Symlink.bus, Symlink.misread, hwords]
    by_cases hbus : (busOf (w₁ ++ "->".toList ++ w₃)).isSome = true
    · simp only [hbus, if_true, Option.some.injEq, Option.isSome_none, Bool.true_and, Bool.false_and,
        Bool.false_or]
    · simp only [hbus, Bool.false_eq_true, if_false, reduceCtorEq, decide_false, Option.isSome_none,
        Bool.false_and, Bool.or_self]

theorem Symlink.misread_of_bus (h : l.bus.isSome = true) : l.misread = none := by
  unfold Symlink.bus at h
  split at h
  · rename_i w hw
    simp [Symlink.misread, hw]
  · simp at h

theorem takenFor_other (short : (splitBlanks line).length ≤ 10) (d : Text) :
    takenFor d (columns line) = false := by
  have hcolumns : columns line = (splitBlanks line).getD 8 [] ++ "->".toList := by
    simp [columns, List.getD_eq_getElem?_getD, List.getElem?_eq_none short]
  rw [hcolumns, takenFor, busOf_arrow]
  rfl

theorem one_line_text (x : LsLine) : '\n' ∉ x.text := by
  cases x with
  | other line short one_line => exact one_line
  | link l =>
    have harrow : '\n' ∉ " -> ".toList := by decide
    have htarget : '\n' ∉ l.target := fun h => absurd (l.device_blank _ h) (by decide)
    intro h
    rcases List.mem_append.mp h with h | h
    · exact l.one_line.1 h
    · rcases List.mem_cons.mp h with h | h
      · exact absurd h (by decide)
      · rcases List.mem_append.mp h with h | h
        · rcases List.mem_append.mp h with h | h
          · exact l.one_line.2 h
          · exact harrow h
        · exact htarget h

theorem splitOn_listing (hls : ls ≠ []) : (listing ls).splitOn '\n' = ls.map LsLine.text := by
  refine List.splitOn_intercalate _ (fun text htext => ?_) (by simpa using hls)
  obtain ⟨x, _, rfl⟩ := List.mem_map.mp htext
  exact one_line_text x

theorem count_listing (ls : List LsLine) (d : Text) : ((taken (listing ls)).map fun x => x.2.1).count d =
    (ls.filterMap LsLine.link?).countP (fun l => l.bus.isSome && l.device = d) +
      (ls.filterMap LsLine.link?).countP fun l => l.misread = some d := by
  rw [count_taken]
  by_cases hnil : ls = []
  · subst hnil
    have hempty : takenFor d (columns []) = false := takenFor_other (by decide) d
    simp [listing, hempty]
  · rw [splitOn_listing hnil, List.map_map, List.countP_map]
    clear hnil
    induction ls with
    | nil => rfl
    | cons x ls ih =>
      cases x with
      | other line short one_line =>
        have hother : takenFor d (columns (LsLine.other line short one_line).text) = false :=
          takenFor_other short d
        simp only [List.countP_cons, Function.comp, hother, ih]
        rfl
      | link l =>
        simp only [List.countP_cons, List.filterMap_cons, LsLine.link?, Function.comp, takenFor_link, ih]
        cases hbus : l.bus with
        | none =>
          simp
          omega
        | some bus =>
          have hread : l.misread = none := Symlink.misread_of_bus (by rw [hbus]; rfl)
          simp [hread]
          omega

/-! When the names of the links can be split. -/

theorem mapM_isSome {α β : Type*} {f : α → Option β} {xs : List α} :
    (xs.mapM f).isSome = true ↔ ∀ x ∈ xs, (f x).isSome = true := by
  induction xs with
  | nil => simp
  | cons x xs ih =>
    cases hx : f x with
    | none => simp [List.mapM_cons, hx]
    | some y =>
      rw [List.forall_mem_cons, ← ih]
      cases hxs : xs.mapM f <;> simp [List.mapM_cons, hx, hxs]

theorem parseDriveWwid_isSome : (parseDriveWwid (some ∘ hdparm) toUpperCase idList).isSome = true ↔
    ∀ esxiLine ∈ linesOf .scsi idList, (esxiScsi esxiLine).isSome = true := by
  have hlines : ∀ bus, (esxiLines (some ∘ hdparm) toUpperCase bus idList).isSome = true ↔
      ∀ esxiLine ∈ linesOf bus idList, (esxiId (some ∘ hdparm) toUpperCase bus esxiLine).isSome = true := by
    intro bus
    rw [esxiLines, mapM_isSome]
    simp
  obtain ⟨sata, hsata⟩ := Option.isSome_iff_exists.mp ((hlines .ata).mpr fun _ _ => rfl)
  obtain ⟨usb, husb⟩ := Option.isSome_iff_exists.mp ((hlines .usb).mpr fun _ _ => rfl)
  have hscsi : (parseDriveWwid (some ∘ hdparm) toUpperCase idList).isSome =
      (esxiLines (some ∘ hdparm) toUpperCase .scsi idList).isSome := by
    cases h : esxiLines (some ∘ hdparm) toUpperCase .scsi idList <;> simp [parseDriveWwid, hsata, husb, h]
  rw [hscsi, hlines .scsi]
  rfl

theorem esxiScsi_isSome (esxiLine : Text × Text) :
    (esxiScsi esxiLine).isSome = true ↔ ∃ c ∈ esxiLine.2, c = '-' ∨ c = '_' := by
  rw [esxiScsi, Option.isSome_map]
  constructor
  · intro h
    by_contra hnone
    rw [List.splitOnP_eq_singleton fun c hc => by
      have hc' : ¬ (c = '-' ∨ c = '_') := fun h => hnone ⟨c, hc, h⟩
      simpa using hc'] at h
    simp at h
  · rintro ⟨c, hc, hsep⟩
    obtain ⟨s, t, hs⟩ := List.append_of_mem hc
    obtain ⟨u, us, hus⟩ := List.exists_cons_of_ne_nil (List.splitOnP_ne_nil (fun c => c = '-' || c = '_') s)
    obtain ⟨v, vs, hvs⟩ := List.exists_cons_of_ne_nil (List.splitOnP_ne_nil (fun c => c = '-' || c = '_') t)
    rw [hs, List.splitOnP_append_cons s t (by simpa using hsep), hus, hvs]
    cases us <;> rfl

theorem mem_lines (hl : l ∈ ls.filterMap LsLine.link?) :
    columns (LsLine.link l).text ∈ ((listing ls).splitOn '\n').map columns := by
  obtain ⟨x, hx, hlink⟩ := List.mem_filterMap.mp hl
  cases x with
  | other => simp [LsLine.link?] at hlink
  | link l' =>
    obtain rfl := Option.some.inj hlink
    rw [splitOn_listing (List.ne_nil_of_mem hx), List.map_map]
    exact List.mem_map.mpr ⟨_, hx, rfl⟩

theorem exists_link (hline : line ∈ ((listing ls).splitOn '\n').map columns) (hbus : busOf line = some bus) :
    ∃ l ∈ ls.filterMap LsLine.link?, line = columns (LsLine.link l).text := by
  have htaken : takenFor (deviceAndLink line).1 line = true := by simp [takenFor, hbus]
  obtain ⟨raw, hraw, rfl⟩ := List.mem_map.mp hline
  by_cases hnil : ls = []
  · subst hnil
    obtain rfl : raw = [] := by simpa [listing] using hraw
    rw [takenFor_other (by decide)] at htaken
    exact absurd htaken (by simp)
  · rw [splitOn_listing hnil] at hraw
    obtain ⟨x, hx, rfl⟩ := List.mem_map.mp hraw
    cases x with
    | other text short one_line =>
      have hother := takenFor_other short (deviceAndLink (columns text)).1
      exact absurd (hother.symm.trans htaken) (by simp)
    | link l => exact ⟨l, List.mem_filterMap.mpr ⟨_, hx, rfl⟩, rfl⟩

theorem columns_of_bus (h : l.bus = some bus) :
    ∃ w, words l.name = [w] ∧ columns (LsLine.link l).text = w ++ "->".toList ++ l.target ∧
      busOf (w ++ "->".toList ++ l.target) = some bus := by
  unfold Symlink.bus at h
  split at h
  · rename_i w hw
    exact ⟨w, hw, by rw [columns_link, hw]; rfl, h⟩
  · simp at h

theorem arrow_mem_of_misread (h : l.misread = some d) : '>' ∈ d := by
  unfold Symlink.misread at h
  split at h
  · split_ifs at h
    obtain rfl := Option.some.inj h
    exact List.mem_append_left _ (List.mem_append_right _ (by decide))
  · simp at h

theorem bus_of_columns (hread : l.misread = none) (h : busOf (columns (LsLine.link l).text) = some bus) :
    ∃ w, words l.name = [w] ∧ columns (LsLine.link l).text = w ++ "->".toList ++ l.target ∧ l.bus = some bus := by
  rw [columns_link] at h ⊢
  match hwords : words l.name with
  | [] =>
    rw [hwords] at h
    exact absurd ((busOf_arrow "->".toList).symm.trans h) (by simp)
  | [w] =>
    rw [hwords] at h
    exact ⟨w, rfl, rfl, by rw [Symlink.bus, hwords]; exact h⟩
  | [w, _] =>
    rw [hwords] at h
    exact absurd ((busOf_arrow (w ++ "->".toList)).symm.trans h) (by simp)
  | w₁ :: w₂ :: w₃ :: ws =>
    rw [hwords] at h
    have hsome : (busOf (w₁ ++ "->".toList ++ w₃)).isSome = true := Option.isSome_iff_exists.mpr ⟨bus, h⟩
    unfold Symlink.misread at hread
    rw [hwords] at hread
    simp only [hsome, if_true, reduceCtorEq] at hread

theorem countP_misread (h : ∀ l ∈ ls.filterMap LsLine.link?, l.misread = none) :
    (ls.filterMap LsLine.link?).countP (fun l => l.misread = some d) = 0 :=
  List.countP_eq_zero.mpr fun l hl => by simp [h l hl]

theorem wholeDisk_isAlpha (h : wholeDisk d = true) : ∀ c ∈ d, c.isAlpha = true := by
  unfold wholeDisk at h
  split at h
  · rename_i s d x y
    simp only [Bool.and_eq_true, Bool.or_eq_true, decide_eq_true_eq, List.all_eq_true] at h
    obtain ⟨⟨⟨⟨hs, hd⟩, hx⟩, hy⟩, _⟩ := h
    intro c hc
    rcases List.mem_cons.mp hc with rfl | hc
    · rcases hs with rfl | rfl <;> decide
    · rcases List.mem_cons.mp hc with rfl | hc
      · subst hd
        decide
      · rcases List.mem_cons.mp hc with rfl | hc
        · exact hx
        · exact hy c hc
  · simp at h

/-- The name that is read of a link to a whole disk is the word that the link is named by. -/
theorem deviceAndLink_whole (hwhole : wholeDisk l.device = true) (w : Text) :
    deviceAndLink (w ++ "->".toList ++ l.target) = (l.device, w) := by
  have harrow : ¬ "->".toList <:+: l.target := by
    intro h
    have hmem : '>' ∈ l.target := h.subset (by decide)
    rcases List.mem_append.mp hmem with hpath | hdevice
    · exact absurd hpath (by decide)
    · exact absurd (wholeDisk_isAlpha hwhole _ hdevice) (by decide)
  have hpath : '/' ∈ l.target := List.mem_append_left _ (by decide)
  have hboth : deviceAndLink (w ++ "->".toList ++ l.target) = _ := deviceAndLink_eq hpath harrow
  rw [hboth, ← deviceAndLink_link w l, hboth]

theorem Distinct.parses (h : Distinct ls) (hdparm toUpperCase : Text → Text) :
    (parseDriveWwid (some ∘ hdparm) toUpperCase (listing ls)).isSome = true := by
  refine parseDriveWwid_isSome.mpr fun esxiLine hesxi => ?_
  obtain ⟨line, hline, rfl⟩ := List.mem_map.mp hesxi
  obtain ⟨hline, hbus⟩ := List.mem_filter.mp hline
  have hbus : busOf line = some .scsi := by simpa using hbus
  obtain ⟨l, hl, rfl⟩ := exists_link hline hbus
  obtain ⟨w, hw, hcolumns, hscsi⟩ := bus_of_columns (h.unread l hl) hbus
  obtain ⟨c, hc, hsep⟩ := h.named l hl hscsi
  rw [hcolumns, deviceAndLink_whole (h.whole l hl (by rw [hscsi]; rfl)).1 w, esxiScsi_isSome]
  have hblank : blank c = false := by rcases hsep with rfl | rfl <;> decide
  obtain ⟨v, hv, hcv⟩ := exists_mem_words hc hblank
  rw [hw, List.mem_singleton] at hv
  exact ⟨c, hv ▸ hcv, hsep⟩

/-- A link for scsi to a whole disk has a name that can be split, if the parser returns. -/
theorem named_of_parsed (hparsed : (parseDriveWwid (some ∘ hdparm) toUpperCase (listing ls)).isSome = true)
    (hl : l ∈ ls.filterMap LsLine.link?) (hwhole : wholeDisk l.device = true) (hscsi : l.bus = some .scsi) :
    ∃ c ∈ l.name, c = '-' ∨ c = '_' := by
  obtain ⟨w, hw, hcolumns, hbus⟩ := columns_of_bus hscsi
  have hpair := deviceAndLink_whole hwhole w
  have hline : (l.device, w) ∈ linesOf .scsi (listing ls) :=
    List.mem_map.mpr ⟨_, List.mem_filter.mpr ⟨hcolumns ▸ mem_lines hl, by simpa using hbus⟩, hpair⟩
  obtain ⟨c, hc, hsep⟩ := (esxiScsi_isSome _).mp (parseDriveWwid_isSome.mp hparsed _ hline)
  exact ⟨c, (of_mem_words (by rw [hw]; exact List.mem_singleton.mpr rfl) c hc).1, hsep⟩

end DriveIds

open DriveIds

/-- Each whole disk that has a link is among the drives once and nothing else is, just if
the links that are taken lead to whole disks, one to each. -/
theorem whole_disks_iff (hdparm toUpperCase : Text → Text) (ls : List LsLine) :
    Listed hdparm toUpperCase ls ↔ Distinct ls := by
  constructor
  · rintro ⟨wwids, hparsed, hlisted⟩
    rw [parseDriveWwid_map_fst hparsed] at hlisted
    simp only [count_listing] at hlisted
    have hcounted : ∀ d, 0 < (ls.filterMap LsLine.link?).countP (fun l => l.bus.isSome && l.device = d) +
        (ls.filterMap LsLine.link?).countP (fun l => l.misread = some d) →
        wholeDisk d = true ∧ ∃ l ∈ ls.filterMap LsLine.link?, l.qualifies ∧ l.device = d := by
      intro d hpos
      by_contra hnot
      have hzero := (hlisted d).2 hnot
      omega
    have hwhole : ∀ l ∈ ls.filterMap LsLine.link?, l.bus.isSome = true → wholeDisk l.device = true ∧
        ∃ l' ∈ ls.filterMap LsLine.link?, l'.qualifies ∧ l'.device = l.device := by
      intro l hl hbus
      refine hcounted l.device (Nat.add_pos_left ?_ _)
      exact List.countP_pos_iff.mpr ⟨l, hl, by simp [hbus]⟩
    have hunread : ∀ l ∈ ls.filterMap LsLine.link?, l.misread = none := by
      intro l hl
      by_contra hsome
      obtain ⟨d, hd⟩ := Option.ne_none_iff_exists'.mp hsome
      have hdisk := (hcounted d (Nat.add_pos_right _ (List.countP_pos_iff.mpr ⟨l, hl, by simp [hd]⟩))).1
      exact absurd (wholeDisk_isAlpha hdisk '>' (arrow_mem_of_misread hd)) (by decide)
    refine ⟨hwhole, fun d hdisk hlink => ?_, fun l hl hscsi => ?_, hunread⟩
    · have hone := (hlisted d).1 ⟨hdisk, hlink⟩
      rwa [countP_misread hunread, Nat.add_zero] at hone
    · exact named_of_parsed (by rw [hparsed]; rfl) hl (hwhole l hl (by rw [hscsi]; rfl)).1 hscsi
  · intro h
    obtain ⟨wwids, hwwids⟩ := Option.isSome_iff_exists.mp (h.parses hdparm toUpperCase)
    refine ⟨wwids, hwwids, fun d => ?_⟩
    rw [parseDriveWwid_map_fst hwwids, count_listing, countP_misread h.unread, Nat.add_zero]
    refine ⟨fun hd => h.once d hd.1 hd.2, fun hnot => List.countP_eq_zero.mpr fun l hl htaken => hnot ?_⟩
    simp only [Bool.and_eq_true, decide_eq_true_eq] at htaken
    obtain ⟨hbus, rfl⟩ := htaken
    exact h.whole l hl hbus

/-- The model of the disk has `part` in its name. -/
def spartan : Symlink where
  columns := "lrwxrwxrwx 1 root root 9 Dec 22 10:03".toList
  name := "ata-Spartan_SSD_1".toList
  device := "sda".toList
  columns_words := by decide
  columns_start := by decide
  one_line := by decide
  name_file := by decide
  device_word := by simp [blank]

theorem whole_disks_spartan : ¬ Listed id id [.link spartan] := by
  intro h
  obtain ⟨wwids, hparsed, hlisted⟩ := h
  have hone :=
    (hlisted "sda".toList).1 ⟨by decide, spartan, List.mem_singleton.mpr rfl, ⟨.ata, by decide⟩, by decide⟩
  rw [parseDriveWwid_map_fst hparsed] at hone
  exact absurd hone (by decide)

end OnTaskGraph
