import Mathlib.Data.List.Count
import OnTaskGraph.DriveIds

/-! Dumps of an identify block, with any blanks between the groups and any other lines,
and the pieces that they are split into. -/

namespace OnTaskGraph

open JsText

namespace DriveIds

/-- A word of the identify block, as it is dumped. -/
structure Group where
  digits : Text
  four : digits.length = 4
  hex : ∀ c ∈ digits, digitValue c < 16

def Group.word (g : Group) : Nat := g.digits.foldl (fun n c => 16 * n + digitValue c) 0

inductive DumpLine
  /-- Eight groups, with what separates them. -/
  | groups (separators : List Text) (seven : separators.length = 7)
      (blanks : ∀ s ∈ separators, s ≠ [] ∧ ∀ c ∈ s, blank c = true ∧ c ≠ '\n')
  | other (line : Text) (rejected : hexLineMatch line = false) (one_line : '\n' ∉ line)

def DumpLine.separators? : DumpLine → Option (List Text)
  | .groups separators _ _ => some separators
  | .other _ _ _ => none

/-- A dump of at least 48 words, eight to a line. -/
structure Layout where
  lines : List DumpLine
  enough : 6 ≤ (lines.filterMap DumpLine.separators?).length

def Layout.words (layout : Layout) : Nat := 8 * (layout.lines.filterMap DumpLine.separators?).length

def row : List Text → List Group → Text
  | _, [] => []
  | [], g :: _ => g.digits
  | s :: separators, g :: block => g.digits ++ (s ++ row separators block)

def dumpLines : List DumpLine → List Group → List Text
  | [], _ => []
  | .groups separators _ _ :: lines, block => row separators (block.take 8) :: dumpLines lines (block.drop 8)
  | .other line _ _ :: lines, block => line :: dumpLines lines block

def dump (layout : Layout) (block : List Group) : Text := ['\n'].intercalate (dumpLines layout.lines block)

/-- What is between a word and the next one; the lines are joined by a space. -/
def gapsOf (lines : List DumpLine) : List Text := [[' ']].intercalate (lines.filterMap DumpLine.separators?)

/-- Before the word `j` of the name are `j` spaces in all, and spaces are next to it on
both sides. -/
def Layout.Aligned (layout : Layout) : Prop :=
  ∀ j, 10 ≤ j ∧ j < 20 ∨ 27 ≤ j ∧ j < 47 →
    ((gapsOf layout.lines).take j).flatten.count ' ' = j ∧
      ((gapsOf layout.lines).take j).flatten.getLast? = some ' ' ∧
      ((gapsOf layout.lines).drop j).flatten.head? = some ' '

variable {separators gaps : List Text} {lines : List DumpLine} {block : List Group} {s : Text}

/-! The lines that are kept of a dump. -/

theorem not_blank_of_digitValue {c : Char} (hc : digitValue c < 16) : blank c = false := by
  by_contra hb
  simp only [Bool.not_eq_false, blank, Bool.or_eq_true, Bool.and_eq_true, decide_eq_true_eq, List.mem_cons,
    List.not_mem_nil, or_false] at hb
  simp only [digitValue, Char.isDigit, Bool.and_eq_true, decide_eq_true_eq, Char.le_def, UInt32.le_iff_toNat_le,
    ge_iff_le] at hc
  have hnat : c.toNat = c.val.toNat := rfl
  have h0 : '0'.val.toNat = 48 := rfl
  have h9 : '9'.val.toNat = 57 := rfl
  have ha : 'a'.val.toNat = 97 := rfl
  have hf : 'f'.val.toNat = 102 := rfl
  have hA : 'A'.val.toNat = 65 := rfl
  have hF : 'F'.val.toNat = 70 := rfl
  split_ifs at hc <;> omega

theorem Group.not_blank (g : Group) : ∀ c ∈ g.digits, blank c = false :=
  fun c hc => not_blank_of_digitValue (g.hex c hc)

theorem Group.digits_ne_nil (g : Group) : g.digits ≠ [] := by
  intro h
  have hfour := g.four
  rw [h] at hfour
  exact absurd hfour (by decide)

theorem words_blanks_append {t : Text} (hs : ∀ c ∈ s, blank c = true) : words (s ++ t) = words t := by
  induction s with
  | nil => rfl
  | cons c s ih =>
    rw [List.cons_append, words_cons_blank (hs c List.mem_cons_self)]
    exact ih fun d hd => hs d (List.mem_cons_of_mem c hd)

theorem words_row (hlength : block.length = separators.length + 1)
    (hblank : ∀ s ∈ separators, s ≠ [] ∧ ∀ c ∈ s, blank c = true) :
    words (row separators block) = block.map Group.digits := by
  induction separators generalizing block with
  | nil =>
    match block, hlength with
    | [g], _ => exact words_eq_singleton g.digits_ne_nil g.not_blank
  | cons s separators ih =>
    match block, hlength with
    | g :: block, hlength =>
      obtain ⟨hs, hblanks⟩ := hblank s List.mem_cons_self
      obtain ⟨c, s, rfl⟩ := List.exists_cons_of_ne_nil hs
      have hrest := ih (Nat.succ.inj hlength) fun t ht => hblank t (List.mem_cons_of_mem _ ht)
      rw [row, List.cons_append, words_append_blank (hblanks c List.mem_cons_self),
        words_eq_singleton g.digits_ne_nil g.not_blank,
        words_blanks_append fun d hd => hblanks d (List.mem_cons_of_mem c hd), hrest]
      rfl

theorem row_ne_nil (hlength : block.length = separators.length + 1) : row separators block ≠ [] := by
  match separators, block, hlength with
  | [], g :: _, _ => exact g.digits_ne_nil
  | _ :: _, g :: _, _ => exact fun h => g.digits_ne_nil (List.append_eq_nil_iff.mp h).1

theorem head_row (hlength : block.length = separators.length + 1) :
    (row separators block).head?.any blank = false := by
  match separators, block, hlength with
  | [], g :: _, _ =>
    have h := head_append_blank (t := []) g.digits_ne_nil g.not_blank
    rwa [List.append_nil] at h
  | _ :: _, g :: _, _ => exact head_append_blank g.digits_ne_nil g.not_blank

theorem last_row (hlength : block.length = separators.length + 1) :
    (row separators block).getLast?.any blank = false := by
  induction separators generalizing block with
  | nil =>
    match block, hlength with
    | [g], _ => exact last_append_blank (s := []) g.digits_ne_nil g.not_blank
  | cons s separators ih =>
    match block, hlength with
    | g :: block, hlength =>
      have hrest : block.length = separators.length + 1 := Nat.succ.inj hlength
      rw [row, ← List.append_assoc, List.getLast?_append_of_ne_nil _ (row_ne_nil hrest)]
      exact ih hrest

theorem hexLineMatch_row (hlength : block.length = separators.length + 1) (seven : separators.length = 7)
    (hblank : ∀ s ∈ separators, s ≠ [] ∧ ∀ c ∈ s, blank c = true) :
    hexLineMatch (row separators block) = true := by
  rw [hexLineMatch, splitBlanks_eq_words (row_ne_nil hlength) (head_row hlength) (last_row hlength),
    words_row hlength hblank]
  have height : block.length = 8 := by omega
  simp only [List.length_map, height, decide_true, Bool.true_and, List.all_map, List.all_eq_true, Function.comp,
    Bool.and_eq_true, decide_eq_true_eq]
  exact fun g _ => ⟨g.four, g.hex⟩

theorem one_line_row (h : ∀ s ∈ separators, '\n' ∉ s) : '\n' ∉ row separators block := by
  have hdigits : ∀ g : Group, '\n' ∉ g.digits := fun g hg => absurd (g.not_blank _ hg) (by decide)
  induction separators generalizing block with
  | nil =>
    cases block with
    | nil => exact List.not_mem_nil
    | cons g block => exact hdigits g
  | cons s separators ih =>
    cases block with
    | nil => exact List.not_mem_nil
    | cons g block =>
      have hs := h s List.mem_cons_self
      have hrest : '\n' ∉ row separators block := ih fun t ht => h t (List.mem_cons_of_mem s ht)
      simp [row, hdigits g, hs, hrest]

theorem one_line_dumpLines (line : Text) (hline : line ∈ dumpLines lines block) : '\n' ∉ line := by
  induction lines generalizing block with
  | nil => simp [dumpLines] at hline
  | cons x lines ih =>
    cases x with
    | other other rejected one_line =>
      rcases List.mem_cons.mp hline with rfl | hline
      · exact one_line
      · exact ih hline
    | groups separators seven blanks =>
      rcases List.mem_cons.mp hline with rfl | hline
      · exact one_line_row fun s hs hmem => ((blanks s hs).2 _ hmem).2 rfl
      · exact ih hline

theorem row_append {t : Text} {block' : List Group} {gaps' : List Text}
    (hlength : block.length = gaps.length + 1) :
    row (gaps ++ t :: gaps') (block ++ block') = row gaps block ++ (t ++ row gaps' block') := by
  induction gaps generalizing block with
  | nil =>
    match block, hlength with
    | [g], _ => rfl
  | cons s gaps ih =>
    match block, hlength with
    | g :: block, hlength =>
      have hrest := ih (Nat.succ.inj hlength)
      simp only [List.cons_append, row, hrest, List.append_assoc]

theorem groups_line {n : Nat} (seven : separators.length = 7)
    (blanks : ∀ s ∈ separators, s ≠ [] ∧ ∀ c ∈ s, blank c = true ∧ c ≠ '\n')
    (hblock : block.length = 8 * (n + 1)) :
    (block.take 8).length = separators.length + 1 ∧ (block.drop 8).length = 8 * n ∧
      hexLineMatch (row separators (block.take 8)) = true := by
  have htake : (block.take 8).length = separators.length + 1 := by
    rw [List.length_take]
    omega
  refine ⟨htake, ?_, hexLineMatch_row htake seven fun s hs => ?_⟩
  · rw [List.length_drop]
    omega
  · exact ⟨(blanks s hs).1, fun c hc => ((blanks s hs).2 c hc).1⟩

theorem length_filter_dumpLines (hlength : block.length = 8 * (lines.filterMap DumpLine.separators?).length) :
    ((dumpLines lines block).filter hexLineMatch).length = (lines.filterMap DumpLine.separators?).length := by
  induction lines generalizing block with
  | nil => rfl
  | cons x lines ih =>
    cases x with
    | other line rejected one_line =>
      rw [dumpLines, List.filter_cons_of_neg (by simp [rejected])]
      exact ih hlength
    | groups separators seven blanks =>
      obtain ⟨-, hdrop, hmatch⟩ := groups_line seven blanks hlength
      rw [dumpLines, List.filter_cons_of_pos hmatch, List.length_cons, ih hdrop]
      rfl

/-- The lines that are kept, joined by a space, are a row of all groups. -/
theorem join_dumpLines (hlength : block.length = 8 * (lines.filterMap DumpLine.separators?).length) :
    [' '].intercalate ((dumpLines lines block).filter hexLineMatch) = row (gapsOf lines) block := by
  induction lines generalizing block with
  | nil =>
    obtain rfl : block = [] := List.length_eq_zero_iff.mp hlength
    rfl
  | cons x lines ih =>
    cases x with
    | other line rejected one_line =>
      rw [dumpLines, List.filter_cons_of_neg (by simp [rejected])]
      exact ih hlength
    | groups separators seven blanks =>
      have hblock : block.length = 8 * ((lines.filterMap DumpLine.separators?).length + 1) := hlength
      obtain ⟨htake, hdrop, hmatch⟩ := groups_line seven blanks hblock
      have hgaps : gapsOf (.groups separators seven blanks :: lines) =
          [[' ']].intercalate (separators :: lines.filterMap DumpLine.separators?) := rfl
      rw [dumpLines, List.filter_cons_of_pos hmatch, hgaps]
      by_cases hnil : lines.filterMap DumpLine.separators? = []
      · have hkept : (dumpLines lines (block.drop 8)).filter hexLineMatch = [] := by
          rw [← List.length_eq_zero_iff, length_filter_dumpLines hdrop, hnil]
          rfl
        have hall : block.take 8 = block := List.take_of_length_le (by rw [hblock, hnil]; rfl)
        rw [hkept, hnil, hall]
        simp
      · have hkept : (dumpLines lines (block.drop 8)).filter hexLineMatch ≠ [] := by
          rw [← List.length_pos_iff, length_filter_dumpLines hdrop, List.length_pos_iff]
          exact hnil
        have happend : row (separators ++ [' '] :: gapsOf lines) (block.take 8 ++ block.drop 8) = _ :=
          row_append htake
        rw [List.take_append_drop] at happend
        rw [List.intercalate_cons_of_ne_nil hkept, List.intercalate_cons_of_ne_nil hnil, ih hdrop,
          List.append_assoc, ← happend]
        simp [gapsOf]

theorem length_gapsOf (hne : lines.filterMap DumpLine.separators? ≠ []) :
    (gapsOf lines).length + 1 = 8 * (lines.filterMap DumpLine.separators?).length := by
  have hseven : ∀ separators ∈ lines.filterMap DumpLine.separators?, separators.length = 7 := by
    intro separators hmem
    obtain ⟨x, _, hx⟩ := List.mem_filterMap.mp hmem
    cases x with
    | other => simp [DumpLine.separators?] at hx
    | groups separators' seven =>
      obtain rfl := Option.some.inj hx
      exact seven
  rw [gapsOf]
  generalize lines.filterMap DumpLine.separators? = rows at hne hseven ⊢
  induction rows with
  | nil => exact absurd rfl hne
  | cons separators rows ih =>
    have hfirst := hseven separators List.mem_cons_self
    by_cases hnil : rows = []
    · subst hnil
      simp [hfirst]
    · have hrest := ih hnil fun s hs => hseven s (List.mem_cons_of_mem _ hs)
      rw [List.intercalate_cons_of_ne_nil hnil]
      simp only [List.length_append, List.length_cons, List.length_nil] at hrest ⊢
      omega

theorem gapsOf_blank (hs : s ∈ gapsOf lines) : s ≠ [] ∧ ∀ c ∈ s, blank c = true := by
  induction lines with
  | nil => simp [gapsOf] at hs
  | cons x lines ih =>
    cases x with
    | other line rejected one_line => exact ih hs
    | groups separators seven blanks =>
      have hfirst : s ∈ separators → s ≠ [] ∧ ∀ c ∈ s, blank c = true := fun hs =>
        ⟨(blanks s hs).1, fun c hc => ((blanks s hs).2 c hc).1⟩
      have hgaps : gapsOf (.groups separators seven blanks :: lines) =
          [[' ']].intercalate (separators :: lines.filterMap DumpLine.separators?) := rfl
      rw [hgaps] at hs
      by_cases hnil : lines.filterMap DumpLine.separators? = []
      · rw [hnil, List.intercalate_singleton] at hs
        exact hfirst hs
      · rw [List.intercalate_cons_of_ne_nil hnil] at hs
        rcases List.mem_append.mp hs with hs | hs
        · rcases List.mem_append.mp hs with hs | hs
          · exact hfirst hs
          · obtain rfl := List.mem_singleton.mp hs
            exact ⟨List.cons_ne_nil _ _, fun c hc => by rw [List.mem_singleton.mp hc]; decide⟩
        · exact ih hs

theorem rawHexStr_dump {layout : Layout} (hlength : block.length = layout.words) :
    rawHexStr (dump layout block) = (row (gapsOf layout.lines) block).splitOn ' ' := by
  have hlines : dumpLines layout.lines block ≠ [] := by
    intro hnil
    have hcount := length_filter_dumpLines hlength
    have henough := layout.enough
    rw [hnil] at hcount
    rw [← hcount] at henough
    exact absurd henough (by decide)
  rw [rawHexStr, dump, List.splitOn_intercalate _ one_line_dumpLines hlines, join_dumpLines hlength]

/-! The dump of no block in particular: a word is given by its number. -/

inductive Piece
  | word (j : Nat)
  | char (c : Char)
  deriving DecidableEq

def render (block : List Group) : Piece → Text
  | .word j => (block[j]?.map Group.digits).getD []
  | .char c => [c]

/-- What follows the word before `k`. -/
def following (k : Nat) : List Text → List Piece
  | [] => []
  | s :: gaps => s.map .char ++ .word k :: following (k + 1) gaps

/-- What comes before the word after these gaps. -/
def preceding (k : Nat) : List Text → List Piece
  | [] => []
  | s :: gaps => .word k :: (s.map .char ++ preceding (k + 1) gaps)

def slots (gaps : List Text) : List (List Piece) := (Piece.word 0 :: following 1 gaps).splitOn (.char ' ')

theorem row_eq_flatMap (k : Nat) (hlength : block.length = k + gaps.length + 1) :
    row gaps (block.drop k) = (Piece.word k :: following (k + 1) gaps).flatMap (render block) := by
  have hk : k < block.length := by omega
  have hfirst : render block (.word k) = block[k].digits := by simp [render, hk]
  induction gaps generalizing k with
  | nil =>
    rw [List.drop_eq_getElem_cons hk]
    simp [row, following, hfirst]
  | cons s gaps ih =>
    have hk' : k + 1 < block.length := by
      rw [hlength, List.length_cons]
      omega
    have hrest := ih (k + 1) (by rw [hlength, List.length_cons]; omega) hk' (by simp [render, hk'])
    have hs : (s.map Piece.char).flatMap (render block) = s := by
      simp [List.flatMap_map, render]
    rw [List.drop_eq_getElem_cons hk, row, hrest, following, ← hfirst]
    simp only [List.flatMap_cons, List.flatMap_append, hs]

theorem flatMap_splitOn (layout : List Piece) :
    (layout.flatMap (render block)).splitOn ' ' =
      (layout.splitOn (.char ' ')).map (List.flatMap (render block)) := by
  induction layout with
  | nil => rfl
  | cons x layout ih =>
    rw [List.flatMap_cons, List.splitOn_cons_eq_if_modifyHead]
    by_cases hx : x = .char ' '
    · subst hx
      have hcons : (render block (.char ' ') ++ layout.flatMap (render block)).splitOn ' ' =
          [] :: (layout.flatMap (render block)).splitOn ' ' :=
        List.splitOn_append_cons_self [] _
      rw [hcons, ih]
      rfl
    · have hblank : ' ' ∉ render block x := by
        cases x with
        | word j =>
          intro hmem
          cases hj : block[j]? with
          | none => simp [render, hj] at hmem
          | some g =>
            simp only [render, hj, Option.map_some, Option.getD_some] at hmem
            exact absurd (g.not_blank _ hmem) (by decide)
        | char c =>
          intro hmem
          exact hx (congrArg Piece.char (List.mem_singleton.mp hmem).symm)
      have hne : (x == .char ' ') = false := beq_eq_false_iff_ne.mpr hx
      rw [splitOn_append _ hblank, ih, hne]
      cases layout.splitOn (.char ' ') <;> rfl

/-! Which words are in a slot. -/

def slotOf (gaps : List Text) (j : Nat) : List Piece :=
  (preceding 0 (gaps.take j)).rtakeWhile (· ≠ .char ' ') ++
    .word j :: (following (j + 1) (gaps.drop j)).takeWhile (· ≠ .char ' ')

theorem layout_eq (k : Nat) {j : Nat} (hj : j ≤ gaps.length) : Piece.word k :: following (k + 1) gaps =
    preceding k (gaps.take j) ++ .word (k + j) :: following (k + j + 1) (gaps.drop j) := by
  induction j generalizing k gaps with
  | zero => rfl
  | succ j ih =>
    match gaps, hj with
    | s :: gaps, hj =>
      have hrest := ih (k + 1) (Nat.le_of_succ_le_succ hj)
      rw [following, hrest]
      simp [preceding, Nat.add_assoc, Nat.add_comm 1 j]

theorem word_mem_preceding {i k : Nat} (h : .word i ∈ preceding k gaps) : k ≤ i ∧ i < k + gaps.length := by
  induction gaps generalizing k with
  | nil => simp [preceding] at h
  | cons s gaps ih =>
    rw [List.length_cons]
    rcases List.mem_cons.mp h with heq | h
    · obtain rfl := Piece.word.inj heq
      omega
    · have hrest := ih ((List.mem_append.mp h).resolve_left (by simp))
      omega

theorem word_mem_following {i k : Nat} (h : .word i ∈ following k gaps) : k ≤ i ∧ i < k + gaps.length := by
  induction gaps generalizing k with
  | nil => simp [following] at h
  | cons s gaps ih =>
    rw [List.length_cons]
    rcases List.mem_cons.mp ((List.mem_append.mp h).resolve_left (by simp)) with heq | h
    · obtain rfl := Piece.word.inj heq
      omega
    · have hrest := ih h
      omega

theorem count_preceding (k : Nat) : (preceding k gaps).count (.char ' ') = gaps.flatten.count ' ' := by
  induction gaps generalizing k with
  | nil => rfl
  | cons s gaps ih =>
    have hs : (s.map Piece.char).count (.char ' ') = s.count ' ' :=
      List.count_map_of_injective s Piece.char (fun _ _ h => Piece.char.inj h) ' '
    rw [preceding, List.count_cons_of_ne (by simp), List.count_append, hs, ih, List.flatten_cons,
      List.count_append]

theorem slots_eq {j : Nat} (hj : j ≤ gaps.length) : ∃ front back, slots gaps = front ++ slotOf gaps j :: back ∧
    front.length = (gaps.take j).flatten.count ' ' ∧ ∀ slot ∈ front ++ back, .word j ∉ slot := by
  obtain ⟨front, back, hsplit, hlength, hfront, hback⟩ := exists_splitOn_around (preceding 0 (gaps.take j))
    (following (j + 1) (gaps.drop j)) (show Piece.word j ≠ .char ' ' by simp)
  refine ⟨front, back, ?_, by rw [hlength, count_preceding], fun slot hslot hword => ?_⟩
  · rw [slots, layout_eq 0 hj, Nat.zero_add, hsplit]
    rfl
  · rcases List.mem_append.mp hslot with hslot | hslot
    · have hbound := (word_mem_preceding (hfront slot hslot _ hword)).2
      rw [List.length_take] at hbound
      omega
    · have hbound := (word_mem_following (hback slot hslot _ hword)).1
      omega

theorem getElem?_slots {j : Nat} (hj : j ≤ gaps.length) :
    (slots gaps)[(gaps.take j).flatten.count ' ']? = some (slotOf gaps j) := by
  obtain ⟨front, back, hslots, hlength, -⟩ := slots_eq hj
  rw [hslots, ← hlength, List.getElem?_append_right (Nat.le_refl _), Nat.sub_self]
  rfl

theorem eq_slotOf {j k : Nat} {slot : List Piece} (hslot : (slots gaps)[k]? = some slot)
    (hword : .word j ∈ slot) :
    k = (gaps.take j).flatten.count ' ' ∧ slot = slotOf gaps j := by
  have hlayout := of_mem_splitOn (List.mem_of_getElem? hslot) _ hword
  have hj : j ≤ gaps.length := by
    rcases List.mem_cons.mp hlayout with heq | h
    · obtain rfl := Piece.word.inj heq
      exact Nat.zero_le _
    · have hbound := word_mem_following h
      omega
  obtain ⟨front, back, hslots, hlength, hother⟩ := slots_eq hj
  rw [hslots] at hslot
  rcases Nat.lt_trichotomy k front.length with hk | hk | hk
  · rw [List.getElem?_append_left hk] at hslot
    exact absurd hword (hother slot (List.mem_append_left _ (List.mem_of_getElem? hslot)))
  · rw [hk, List.getElem?_append_right (Nat.le_refl _), Nat.sub_self] at hslot
    exact ⟨hk.trans hlength, (Option.some.inj hslot).symm⟩
  · obtain ⟨i, rfl⟩ : ∃ i, k = front.length + (i + 1) := ⟨k - front.length - 1, by omega⟩
    rw [List.getElem?_append_right (Nat.le_add_right _ _), Nat.add_sub_cancel_left,
      List.getElem?_cons_succ] at hslot
    exact absurd hword (hother slot (List.mem_append_right _ (List.mem_of_getElem? hslot)))

/-! What is next to a word. -/

theorem last_preceding (hne : ∀ s ∈ gaps, s ≠ []) (k : Nat) :
    (preceding k gaps).getLast? = gaps.flatten.getLast?.map .char := by
  induction gaps generalizing k with
  | nil => rfl
  | cons s gaps ih =>
    obtain ⟨t, c, rfl⟩ := (List.eq_nil_or_concat' s).resolve_left (hne s List.mem_cons_self)
    have hrest := ih (fun u hu => hne u (List.mem_cons_of_mem _ hu)) (k + 1)
    rw [preceding, List.flatten_cons, List.getLast?_cons, List.getLast?_append, List.getLast?_append, hrest]
    cases gaps.flatten.getLast? <;> simp

theorem head_following (hne : ∀ s ∈ gaps, s ≠ []) (k : Nat) :
    (following k gaps).head? = gaps.flatten.head?.map .char := by
  cases gaps with
  | nil => rfl
  | cons s gaps =>
    obtain ⟨c, t, rfl⟩ := List.exists_cons_of_ne_nil (hne s List.mem_cons_self)
    rfl

theorem slotOf_eq_singleton {j : Nat} (hne : ∀ s ∈ gaps, s ≠ [])
    (hlast : (gaps.take j).flatten.getLast? ∈ [none, some ' '])
    (hhead : (gaps.drop j).flatten.head? ∈ [none, some ' ']) : slotOf gaps j = [.word j] := by
  have hbefore : (preceding 0 (gaps.take j)).getLast? ∈ [none, some (Piece.char ' ')] := by
    rw [last_preceding fun s hs => hne s (List.mem_of_mem_take hs)]
    exact List.mem_map_of_mem hlast
  have hafter : (following (j + 1) (gaps.drop j)).head? ∈ [none, some (Piece.char ' ')] := by
    rw [head_following fun s hs => hne s (List.mem_of_mem_drop hs)]
    exact List.mem_map_of_mem hhead
  rw [slotOf, rtakeWhile_ne_eq_nil hbefore, takeWhile_ne_eq_nil hafter]
  rfl

/-- Spaces are next to the word of a slot without blanks. -/
theorem of_char_not_mem {j : Nat} (hne : ∀ s ∈ gaps, s ≠ []) (h : ∀ c, .char c ∉ slotOf gaps j) :
    (gaps.take j).flatten.getLast? ∈ [none, some ' '] ∧ (gaps.drop j).flatten.head? ∈ [none, some ' '] := by
  constructor
  · cases hc : (gaps.take j).flatten.getLast? with
    | none => exact List.mem_cons_self
    | some c =>
      have hlast : (preceding 0 (gaps.take j)).getLast? = some (.char c) := by
        rw [last_preceding fun s hs => hne s (List.mem_of_mem_take hs), hc]
        rfl
      by_contra hspace
      have hne : Piece.char c ≠ .char ' ' := fun heq => hspace (by simp [Piece.char.inj heq])
      exact h c (List.mem_append_left _ (last_mem_rtakeWhile_ne hlast hne))
  · cases hc : (gaps.drop j).flatten.head? with
    | none => exact List.mem_cons_self
    | some c =>
      have hhead : (following (j + 1) (gaps.drop j)).head? = some (.char c) := by
        rw [head_following fun s hs => hne s (List.mem_of_mem_drop hs), hc]
        rfl
      by_contra hspace
      have hne : Piece.char c ≠ .char ' ' := fun heq => hspace (by simp [Piece.char.inj heq])
      exact h c (List.mem_append_right _ (List.mem_cons_of_mem _ (head_mem_takeWhile_ne hhead hne)))

/-! What the slots of the name hold. -/

theorem eq_map_singleton {α : Type*} {L : List (List α)} (h : ∀ l ∈ L, l.length ≤ 1) :
    L.flatten.length ≤ L.length ∧ (L.length ≤ L.flatten.length → L = L.flatten.map fun x => [x]) := by
  induction L with
  | nil => exact ⟨Nat.le_refl _, fun _ => rfl⟩
  | cons l L ih =>
    obtain ⟨hle, heq⟩ := ih fun l' hl' => h l' (List.mem_cons_of_mem l hl')
    have hl := h l List.mem_cons_self
    simp only [List.flatten_cons, List.length_append, List.length_cons]
    refine ⟨by omega, fun hlength => ?_⟩
    obtain ⟨x, rfl⟩ := List.length_eq_one_iff.mp (show l.length = 1 by omega)
    exact congrArg ([x] :: ·) (heq (by simp only [List.length_singleton] at hlength; omega))

theorem slots_range {a n : Nat} : (∀ j, a ≤ j → j < a + n → (slots gaps)[j]? = some [.word j]) ↔
    ((slots gaps).drop a).take n = (List.range' a n).map fun j => [.word j] := by
  constructor
  · intro h
    refine List.ext_getElem? fun i => ?_
    rw [List.getElem?_take, List.getElem?_drop, List.getElem?_map]
    by_cases hi : i < n
    · rw [if_pos hi, h (a + i) (by omega) (by omega)]
      simp [hi]
    · simp [hi]
  · intro h j haj hjn
    have hj := congrArg (·[j - a]?) h
    simp only [List.getElem?_take, List.getElem?_drop, List.getElem?_map] at hj
    rw [if_pos (by omega), show a + (j - a) = j by omega] at hj
    rw [hj, List.getElem?_range' (by omega)]
    simp only [Option.map_some]
    congr 3
    omega

def namePieces (gaps : List Text) : List Piece :=
  (((slots gaps).drop 27).take 20).flatten ++ (((slots gaps).drop 10).take 10).flatten

def nameWords : List Piece := (List.range' 27 20).map .word ++ (List.range' 10 10).map .word

theorem length_slot {slot : List Piece} (hne : ∀ s ∈ gaps, s ≠ []) (hslot : slot ∈ slots gaps)
    (h : ∀ c, .char c ∉ slot) : slot.length ≤ 1 := by
  cases slot with
  | nil => exact Nat.zero_le 1
  | cons x slot =>
    obtain ⟨k, hk⟩ := List.mem_iff_getElem?.mp hslot
    cases x with
    | char c => exact absurd List.mem_cons_self (h c)
    | word j =>
      obtain ⟨-, hslot⟩ := eq_slotOf hk List.mem_cons_self
      rw [hslot] at h ⊢
      obtain ⟨hlast, hhead⟩ := of_char_not_mem hne h
      rw [slotOf_eq_singleton hne hlast hhead]
      exact Nat.le_refl 1

theorem length_slots {a n : Nat} (hne : ∀ s ∈ gaps, s ≠ [])
    (h : ∀ c, .char c ∉ (((slots gaps).drop a).take n).flatten) :
    ∀ slot ∈ ((slots gaps).drop a).take n, slot.length ≤ 1 := by
  intro slot hslot
  refine length_slot hne (List.mem_of_mem_drop (List.mem_of_mem_take hslot)) fun c hc => ?_
  exact h c (List.mem_flatten.mpr ⟨slot, hslot, hc⟩)

theorem namePieces_eq_iff (hne : ∀ s ∈ gaps, s ≠ []) : namePieces gaps = nameWords ↔
    ∀ j, 10 ≤ j ∧ j < 20 ∨ 27 ≤ j ∧ j < 47 → (slots gaps)[j]? = some [.word j] := by
  constructor
  · intro h
    have hchar : ∀ c, .char c ∉ namePieces gaps := by
      intro c
      rw [h]
      simp [nameWords]
    have hmodel := length_slots hne fun c hc => hchar c (List.mem_append_left _ hc)
    have hserial := length_slots hne fun c hc => hchar c (List.mem_append_right _ hc)
    obtain ⟨hmodelLength, hmodelEq⟩ := eq_map_singleton hmodel
    obtain ⟨hserialLength, hserialEq⟩ := eq_map_singleton hserial
    have hmodelTake := List.length_take_le 20 ((slots gaps).drop 27)
    have hserialTake := List.length_take_le 10 ((slots gaps).drop 10)
    have htotal := congrArg List.length h
    simp only [namePieces, nameWords, List.length_append, List.length_map, List.length_range'] at htotal
    obtain ⟨hmodelWords, hserialWords⟩ := List.append_inj h (by
      rw [List.length_map, List.length_range']
      omega)
    have hfirst := hmodelEq (by omega)
    have hsecond := hserialEq (by omega)
    rw [hmodelWords, List.map_map] at hfirst
    rw [hserialWords, List.map_map] at hsecond
    intro j hj
    rcases hj with hj | hj
    · exact slots_range.mpr hsecond j hj.1 hj.2
    · exact slots_range.mpr hfirst j hj.1 hj.2
  · intro h
    have hmodel := slots_range.mp fun j (h₁ : 27 ≤ j) (h₂ : j < 27 + 20) => h j (.inr ⟨h₁, h₂⟩)
    have hserial := slots_range.mp fun j (h₁ : 10 ≤ j) (h₂ : j < 10 + 10) => h j (.inl ⟨h₁, h₂⟩)
    have hflatten : ∀ L : List Nat, (L.map fun j => [Piece.word j]).flatten = L.map .word := by
      intro L
      induction L with
      | nil => rfl
      | cons j L ih => exact congrArg (.word j :: ·) ih
    rw [namePieces, hmodel, hserial, hflatten, hflatten, nameWords]

theorem getElem?_slots_iff {j : Nat} (hne : ∀ s ∈ gaps, s ≠ []) (hpos : 0 < j) (hj : j < gaps.length) :
    (slots gaps)[j]? = some [.word j] ↔ (gaps.take j).flatten.count ' ' = j ∧
      (gaps.take j).flatten.getLast? = some ' ' ∧ (gaps.drop j).flatten.head? = some ' ' := by
  constructor
  · intro h
    obtain ⟨hcount, hslot⟩ := eq_slotOf h List.mem_cons_self
    obtain ⟨hlast, hhead⟩ := of_char_not_mem (j := j) hne (by simp [← hslot])
    have hbefore : (gaps.take j).flatten.getLast? ≠ none := by
      intro hnone
      have hempty := List.flatten_eq_nil_iff.mp (List.getLast?_eq_none_iff.mp hnone)
      have hmem : gaps[0] ∈ gaps.take j := List.mem_take_iff_getElem.mpr ⟨0, by omega, rfl⟩
      exact hne _ (List.mem_of_mem_take hmem) (hempty _ hmem)
    have hafter : (gaps.drop j).flatten.head? ≠ none := by
      intro hnone
      have hempty := List.flatten_eq_nil_iff.mp (List.head?_eq_none_iff.mp hnone)
      have hmem : gaps[j] ∈ gaps.drop j := by
        rw [List.drop_eq_getElem_cons hj]
        exact List.mem_cons_self
      exact hne _ (List.mem_of_mem_drop hmem) (hempty _ hmem)
    simp only [List.mem_cons, List.not_mem_nil, or_false] at hlast hhead
    exact ⟨hcount.symm, hlast.resolve_left hbefore, hhead.resolve_left hafter⟩
  · rintro ⟨hcount, hlast, hhead⟩
    have h := getElem?_slots (Nat.le_of_lt hj)
    rwa [hcount, slotOf_eq_singleton hne (by simp [hlast]) (by simp [hhead])] at h

end DriveIds

end OnTaskGraph
