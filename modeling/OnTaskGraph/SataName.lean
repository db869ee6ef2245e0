import OnTaskGraph.SataDump

/-! The name of a SATA drive, which is read from a dump of its identify block by the
numbers of the pieces. -/

namespace OnTaskGraph

open JsText

namespace DriveIds

/-- The bytes of the words 27 to 46 and then those of the words 10 to 19. -/
def nameOf (block : List Group) : Text :=
  ((block.drop 27).take 20 ++ (block.drop 10).take 10).flatMap fun g =>
    nameChar (g.word / 256) ++ nameChar (g.word % 256)

variable {block : List Group}

/-! What is decoded of a dump. -/

theorem charCode_hex {a b : Char} (ha : digitValue a < 16) (hb : digitValue b < 16) :
    charCode [a, b] = 16 * digitValue a + digitValue b := by
  have hblank : ¬ blank b = true := by simp [not_blank_of_digitValue hb]
  have hdrop : [a, b].rdropWhile blank = [a, b] := List.rdropWhile_concat_neg blank [a] b hblank
  simp [charCode, hdrop, ha, hb]

theorem nameStr_group (g : Group) (t : Text) :
    nameStr (g.digits ++ t) = nameChar (g.word / 256) ++ nameChar (g.word % 256) ++ nameStr t := by
  match hdigits : g.digits, g.four with
  | [a, b, c, d], _ =>
    have hhex : ∀ x ∈ [a, b, c, d], digitValue x < 16 := hdigits ▸ g.hex
    have ha := hhex a (by simp)
    have hb := hhex b (by simp)
    have hc := hhex c (by simp)
    have hd := hhex d (by simp)
    have hhigh : g.word / 256 = charCode [a, b] := by
      rw [charCode_hex ha hb, Group.word, hdigits]
      simp only [List.foldl]
      omega
    have hlow : g.word % 256 = charCode [c, d] := by
      rw [charCode_hex hc hd, Group.word, hdigits]
      simp only [List.foldl]
      omega
    rw [hhigh, hlow, List.append_assoc]
    rfl

theorem nameStr_groups (groups : List Group) : nameStr (groups.flatMap Group.digits) =
    groups.flatMap fun g => nameChar (g.word / 256) ++ nameChar (g.word % 256) := by
  induction groups with
  | nil => rfl
  | cons g groups ih => rw [List.flatMap_cons, nameStr_group, ih, List.flatMap_cons]

theorem render_range (a n : Nat) : ((List.range' a n).map Piece.word).flatMap (render block) =
    ((block.drop a).take n).flatMap Group.digits := by
  induction n generalizing a with
  | zero => simp
  | succ n ih =>
    rw [List.range'_succ, List.map_cons, List.flatMap_cons, ih]
    by_cases ha : a < block.length
    · rw [List.drop_eq_getElem_cons ha, List.take_succ_cons, List.flatMap_cons]
      simp [render, ha]
    · have hdrop : block.drop a = [] := List.drop_of_length_le (by omega)
      have hnext : block.drop (a + 1) = [] := List.drop_of_length_le (by omega)
      simp [render, ha, hdrop, hnext]

theorem nameStr_nameWords (block : List Group) : nameStr (nameWords.flatMap (render block)) = nameOf block := by
  rw [nameWords, List.flatMap_append, render_range, render_range, ← List.flatMap_append, nameStr_groups]
  rfl

theorem flatten_map_flatMap (L : List (List Piece)) :
    (L.map (List.flatMap (render block))).flatten = L.flatten.flatMap (render block) := by
  induction L with
  | nil => rfl
  | cons l L ih => rw [List.map_cons, List.flatten_cons, List.flatten_cons, List.flatMap_append, ih]

theorem length_gaps (layout : Layout) : (gapsOf layout.lines).length + 1 = layout.words := by
  have hne : layout.lines.filterMap DumpLine.separators? ≠ [] := by
    intro hnil
    have henough := layout.enough
    rw [hnil] at henough
    exact absurd henough (by decide)
  exact length_gapsOf hne

theorem getSataNameStr_dump {layout : Layout} (hlength : block.length = layout.words) :
    getSataNameStr (dump layout block) = nameStr ((namePieces (gapsOf layout.lines)).flatMap (render block)) := by
  have hraw :
      rawHexStr (dump layout block) = (slots (gapsOf layout.lines)).map (List.flatMap (render block)) := by
    have hgaps : block.length = 0 + (gapsOf layout.lines).length + 1 := by
      rw [hlength, ← length_gaps, Nat.zero_add]
    rw [rawHexStr_dump hlength, slots, ← flatMap_splitOn, ← row_eq_flatMap 0 hgaps]
    rfl
  rw [getSataNameStr, hraw, namePieces]
  simp only [← List.map_drop, ← List.map_take, flatten_map_flatMap, List.flatMap_append]

/-! Two words whose bytes tell where they are read from. -/

def ones : Group := ⟨List.replicate 4 '1', rfl, fun c hc => by rw [List.eq_of_mem_replicate hc]; decide⟩

def twos : Group := ⟨List.replicate 4 '2', rfl, fun c hc => by rw [List.eq_of_mem_replicate hc]; decide⟩

def undo (c : Char) : Text := if c = Char.ofNat 0x11 then ['1', '1'] else ['2', '2']

theorem nameChar_blank {a : Char} (ha : blank a = true) (s : Text) (hs : s.length ≤ 1) :
    nameChar (charCode (a :: s)) = ['0', '0'] := by
  have hvalue : ¬ digitValue a < 16 := fun h => by simp [not_blank_of_digitValue h] at ha
  have hzero : charCode (a :: s) = 0 := by
    match s, hs with
    | [], _ => simp [charCode, List.rdropWhile_singleton, ha]
    | [b], _ =>
      by_cases hb : blank b = true
      · have hdrop : [a, b].rdropWhile blank = [a].rdropWhile blank := List.rdropWhile_concat_pos blank [a] b hb
        simp [charCode, hdrop, List.rdropWhile_singleton, ha]
      · have hdrop : [a, b].rdropWhile blank = [a, b] := List.rdropWhile_concat_neg blank [a] b hb
        simp [charCode, hdrop, hvalue]
  rw [hzero]
  rfl

theorem charCode_digit_blank {a b : Char} (hb : blank b = true) : charCode [a, b] = charCode [a] := by
  have hdrop : [a, b].rdropWhile blank = [a].rdropWhile blank := List.rdropWhile_concat_pos blank [a] b hb
  rw [charCode, charCode, hdrop]

theorem eq_undo {t : Text} (h : ∀ c ∈ t, c = '1' ∨ c = '2' ∨ blank c = true)
    (hname : ∀ c ∈ nameStr t, c = Char.ofNat 0x11 ∨ c = Char.ofNat 0x22) : t = (nameStr t).flatMap undo := by
  have hzero : ¬ ('0' = Char.ofNat 0x11 ∨ '0' = Char.ofNat 0x22) := by decide
  have hbad : ∀ {digits : Text} {b : Char}, nameChar (charCode digits) = [b] →
      ¬ (b = Char.ofNat 0x11 ∨ b = Char.ofNat 0x22) →
      ¬ ∀ c ∈ nameChar (charCode digits), c = Char.ofNat 0x11 ∨ c = Char.ofNat 0x22 := fun hname hb hall =>
    hb (hall _ (hname ▸ List.mem_singleton.mpr rfl))
  have hdigit : ∀ a, a = '1' ∨ a = '2' →
      ¬ ∀ c ∈ nameChar (charCode [a]), c = Char.ofNat 0x11 ∨ c = Char.ofNat 0x22 := by
    intro a ha
    rcases ha with rfl | rfl
    · exact hbad (show _ = [Char.ofNat 1] by decide) (by decide)
    · exact hbad (show _ = [Char.ofNat 2] by decide) (by decide)
  induction t using nameStr.induct with
  | case1 a b t ih =>
    rw [nameStr] at hname ⊢
    have hfirst : ∀ c ∈ nameChar (charCode [a, b]), c = Char.ofNat 0x11 ∨ c = Char.ofNat 0x22 :=
      fun c hc => hname c (List.mem_append_left _ hc)
    have hrest := ih (fun c hc => h c (List.mem_cons_of_mem a (List.mem_cons_of_mem b hc)))
      fun c hc => hname c (List.mem_append_right _ hc)
    have hpair : (nameChar (charCode [a, b])).flatMap undo = [a, b] := by
      rcases h a List.mem_cons_self with ha | ha | ha
      · rcases h b (List.mem_cons_of_mem a List.mem_cons_self) with rfl | rfl | hb
        · subst ha
          decide
        · subst ha
          exact absurd hfirst (hbad (show _ = [Char.ofNat 0x12] by decide) (by decide))
        · rw [charCode_digit_blank hb] at hfirst
          exact absurd hfirst (hdigit a (.inl ha))
      · rcases h b (List.mem_cons_of_mem a List.mem_cons_self) with rfl | rfl | hb
        · subst ha
          exact absurd hfirst (hbad (show _ = [Char.ofNat 0x21] by decide) (by decide))
        · subst ha
          decide
        · rw [charCode_digit_blank hb] at hfirst
          exact absurd hfirst (hdigit a (.inr ha))
      · rw [nameChar_blank ha [b] (Nat.le_refl 1)] at hfirst
        exact absurd (hfirst '0' List.mem_cons_self) hzero
    rw [List.flatMap_append, hpair, ← hrest]
    rfl
  | case2 a =>
    rw [nameStr] at hname
    rcases h a List.mem_cons_self with ha | ha | ha
    · exact absurd hname (hdigit a (.inl ha))
    · exact absurd hname (hdigit a (.inr ha))
    · rw [nameChar_blank ha [] (Nat.zero_le 1)] at hname
      exact absurd (hname '0' List.mem_cons_self) hzero
  | case3 => rfl

/-- A block of ones and twos. -/
def Plain (n : Nat) (block : List Group) : Prop := block.length = n ∧ ∀ g ∈ block, g = ones ∨ g = twos

theorem Plain.render_word {n j : Nat} (h : Plain n block) (hj : j < n) :
    render block (.word j) = List.replicate 4 '1' ∨ render block (.word j) = List.replicate 4 '2' := by
  have hlt : j < block.length := h.1 ▸ hj
  have hword : render block (.word j) = block[j].digits := by simp [render, hlt]
  rw [hword]
  rcases h.2 block[j] (List.getElem_mem hlt) with hg | hg
  · exact .inl (by rw [hg]; rfl)
  · exact .inr (by rw [hg]; rfl)

theorem plain_set (n i : Nat) : Plain n ((List.replicate n ones).set i twos) := by
  refine ⟨by simp, fun g hg => ?_⟩
  rcases List.mem_or_eq_of_mem_set hg with hg | rfl
  · exact .inl (List.eq_of_mem_replicate hg)
  · exact .inr rfl

theorem Plain.mem_nameOf {n : Nat} {c : Char} (h : Plain n block) (hc : c ∈ nameOf block) :
    c = Char.ofNat 0x11 ∨ c = Char.ofNat 0x22 := by
  have hones : nameChar (ones.word / 256) ++ nameChar (ones.word % 256) = List.replicate 2 (Char.ofNat 0x11) := by
    decide
  have htwos : nameChar (twos.word / 256) ++ nameChar (twos.word % 256) = List.replicate 2 (Char.ofNat 0x22) := by
    decide
  obtain ⟨g, hg, hc⟩ := List.mem_flatMap.mp hc
  have hmem : g ∈ block :=
    (List.mem_append.mp hg).elim (fun hg => List.mem_of_mem_drop (List.mem_of_mem_take hg))
      fun hg => List.mem_of_mem_drop (List.mem_of_mem_take hg)
  rcases h.2 g hmem with rfl | rfl
  · exact .inl (List.eq_of_mem_replicate (hones ▸ hc))
  · exact .inr (List.eq_of_mem_replicate (htwos ▸ hc))

/-- A piece of a dump of `n` words. -/
def Piece.Within (n : Nat) : Piece → Prop
  | .word j => j < n
  | .char c => blank c = true

theorem Plain.mem_render {n : Nat} {c : Char} {x : Piece} (h : Plain n block) (hx : x.Within n)
    (hc : c ∈ render block x) : c = '1' ∨ c = '2' ∨ blank c = true := by
  cases x with
  | char d =>
    obtain rfl := List.mem_singleton.mp hc
    exact .inr (.inr hx)
  | word j =>
    rcases h.render_word hx with hword | hword
    · exact .inl (List.eq_of_mem_replicate (hword ▸ hc))
    · exact .inr (.inl (List.eq_of_mem_replicate (hword ▸ hc)))

/-- What is read of a block can be told from the name that it gives. -/
theorem Plain.text_eq {n : Nat} {T : List Piece} (h : Plain n block) (hT : ∀ x ∈ T, x.Within n)
    (hname : nameStr (T.flatMap (render block)) = nameOf block) :
    T.flatMap (render block) = (nameOf block).flatMap undo := by
  have hchars : ∀ c ∈ T.flatMap (render block), c = '1' ∨ c = '2' ∨ blank c = true := by
    intro c hc
    obtain ⟨x, hx, hc⟩ := List.mem_flatMap.mp hc
    exact h.mem_render (hT x hx) hc
  have hread := eq_undo hchars (hname ▸ fun c hc => h.mem_nameOf hc)
  rwa [hname] at hread

theorem Plain.length_render {n j : Nat} (h : Plain n block) (hj : j < n) :
    (render block (.word j)).length = 4 := by
  rcases h.render_word hj with hword | hword <;> rw [hword] <;> rfl

theorem Plain.render_ne_nil {n j : Nat} (h : Plain n block) (hj : j < n) : render block (.word j) ≠ [] :=
  List.ne_nil_of_length_eq_add_one (h.length_render hj)

/-- The block with one word of twos tells it from every other word. -/
theorem eq_of_render_word {n i j : Nat} (hi : i < n) (hj : j < n)
    (h : ∀ block, Plain n block → render block (.word i) = render block (.word j)) : i = j := by
  by_contra hne
  have hsame := h _ (plain_set n j)
  simp [render, hi, hj, Ne.symm hne] at hsame
  exact absurd hsame (by decide)

/-- Blocks of ones and twos tell the words of a name apart. -/
theorem eq_of_render {n : Nat} {T : List Piece} {words : List Nat} (hT : ∀ x ∈ T, x.Within n)
    (hwords : ∀ j ∈ words, j < n)
    (h : ∀ block, Plain n block → T.flatMap (render block) = (words.map .word).flatMap (render block)) :
    T = words.map .word := by
  have hplain := plain_set n 0
  induction T generalizing words with
  | nil =>
    cases words with
    | nil => rfl
    | cons j words =>
      have hnil := (List.append_eq_nil_iff.mp (h _ hplain).symm).1
      exact absurd hnil (hplain.render_ne_nil (hwords j List.mem_cons_self))
  | cons x T ih =>
    have hx := hT x List.mem_cons_self
    cases words with
    | nil =>
      have hnil := (List.append_eq_nil_iff.mp (h _ hplain)).1
      cases x with
      | char c => exact absurd hnil (List.cons_ne_nil c [])
      | word i => exact absurd hnil (hplain.render_ne_nil hx)
    | cons j words =>
      have hj := hwords j List.mem_cons_self
      cases x with
      | char c =>
        -- a word begins with a digit
        have hhead := h _ hplain
        have hb : blank c = true := hx
        rw [List.map_cons, List.flatMap_cons, List.flatMap_cons] at hhead
        rcases hplain.render_word hj with hword | hword
        · rw [hword] at hhead
          obtain rfl : c = '1' := (List.cons.inj hhead).1
          exact absurd hb (by decide)
        · rw [hword] at hhead
          obtain rfl : c = '2' := (List.cons.inj hhead).1
          exact absurd hb (by decide)
      | word i =>
        have hsplit : ∀ block, Plain n block → render block (.word i) = render block (.word j) ∧
            T.flatMap (render block) = (words.map .word).flatMap (render block) := fun block hplain =>
          List.append_inj (h block hplain) ((hplain.length_render hx).trans (hplain.length_render hj).symm)
        rw [eq_of_render_word hx hj fun block hplain => (hsplit block hplain).1,
          ih (fun y hy => hT y (List.mem_cons_of_mem _ hy)) (fun k hk => hwords k (List.mem_cons_of_mem j hk))
            fun block hplain => (hsplit block hplain).2]
        rfl

theorem namePieces_within (layout : Layout) (x : Piece) (hx : x ∈ namePieces (gapsOf layout.lines)) :
    x.Within layout.words := by
  have hslot : x ∈ Piece.word 0 :: following 1 (gapsOf layout.lines) := by
    have hflatten : ∀ {a n}, x ∈ (((slots (gapsOf layout.lines)).drop a).take n).flatten →
        x ∈ Piece.word 0 :: following 1 (gapsOf layout.lines) := by
      intro a n h
      obtain ⟨slot, hslot, hx⟩ := List.mem_flatten.mp h
      exact of_mem_splitOn (List.mem_of_mem_drop (List.mem_of_mem_take hslot)) _ hx
    exact (List.mem_append.mp hx).elim hflatten hflatten
  have hwords := length_gaps layout
  cases x with
  | word j =>
    rcases List.mem_cons.mp hslot with heq | h
    · obtain rfl := Piece.word.inj heq
      exact Nat.lt_of_lt_of_eq (Nat.succ_pos _) hwords
    · have hbound := (word_mem_following h).2
      exact Nat.lt_of_lt_of_eq (by omega) hwords
  | char c =>
    have hchar : ∀ (gaps : List Text) (k : Nat), .char c ∈ following k gaps → ∃ s ∈ gaps, c ∈ s := by
      intro gaps
      induction gaps with
      | nil => simp [following]
      | cons s gaps ih =>
        intro k h
        rcases List.mem_append.mp h with h | h
        · exact ⟨s, List.mem_cons_self, by simpa using h⟩
        · obtain ⟨t, ht, hc⟩ := ih (k + 1) ((List.mem_cons.mp h).resolve_left (by simp))
          exact ⟨t, List.mem_cons_of_mem s ht, hc⟩
    obtain ⟨s, hs, hc⟩ := hchar _ _ ((List.mem_cons.mp hslot).resolve_left (by simp))
    exact (gapsOf_blank hs).2 c hc

theorem aligned_iff (layout : Layout) : layout.Aligned ↔ namePieces (gapsOf layout.lines) = nameWords := by
  have hwords := length_gaps layout
  have henough : 48 ≤ layout.words := Nat.mul_le_mul_left 8 layout.enough
  have hne : ∀ s ∈ gapsOf layout.lines, s ≠ [] := fun s hs => (gapsOf_blank hs).1
  rw [namePieces_eq_iff hne]
  refine forall_congr' fun j => forall_congr' fun hj => (getElem?_slots_iff hne ?_ ?_).symm
  · omega
  · omega

end DriveIds

open DriveIds

/-- The name of every block that is dumped in a layout is decoded from the right words,
just if single spaces are where the slices need them. -/
theorem sata_name_iff (layout : Layout) :
    (∀ block : List Group, block.length = layout.words → getSataNameStr (dump layout block) = nameOf block) ↔
      layout.Aligned := by
  have henough : 48 ≤ layout.words := Nat.mul_le_mul_left 8 layout.enough
  rw [aligned_iff]
  constructor
  · intro h
    have hnameWords : nameWords = (List.range' 27 20 ++ List.range' 10 10).map .word := List.map_append.symm
    have hwithin : ∀ j ∈ List.range' 27 20 ++ List.range' 10 10, j < layout.words := by
      intro j hj
      simp only [List.mem_append, List.mem_range'_1] at hj
      omega
    rw [hnameWords]
    refine eq_of_render (namePieces_within layout) hwithin fun block hplain => ?_
    have hname := h block hplain.1
    rw [getSataNameStr_dump hplain.1] at hname
    have hright := nameStr_nameWords block
    rw [hnameWords] at hright
    have hwords : ∀ x ∈ (List.range' 27 20 ++ List.range' 10 10).map Piece.word, x.Within layout.words := by
      intro x hx
      obtain ⟨j, hj, rfl⟩ := List.mem_map.mp hx
      exact hwithin j hj
    exact (hplain.text_eq (namePieces_within layout) hname).trans (hplain.text_eq hwords hright).symm
  · intro h block hlength
    rw [getSataNameStr_dump hlength, h, nameStr_nameWords]

theorem spaces_blank (n : Nat) : List.replicate (n + 1) ' ' ≠ [] ∧
    ∀ c ∈ List.replicate (n + 1) ' ', blank c = true ∧ c ≠ '\n' := by
  refine ⟨List.cons_ne_nil _ _, fun c hc => ?_⟩
  rw [List.eq_of_mem_replicate hc]
  decide

def evenLine : DumpLine :=
  .groups (List.replicate 7 [' ']) rfl fun _ hs => List.eq_of_mem_replicate hs ▸ spaces_blank 0

/-- Two blanks are after the first group of the line. -/
def wideLine : DumpLine :=
  .groups ([' ', ' '] :: List.replicate 6 [' ']) rfl <| List.forall_mem_cons.mpr
    ⟨spaces_blank 1, fun _ hs => List.eq_of_mem_replicate hs ▸ spaces_blank 0⟩

def wideLayout : Layout where
  lines := .other "dev/sda:".toList (by decide) (by decide) :: wideLine :: List.replicate 5 evenLine
  enough := by decide

theorem sata_name_wide : ¬ ∀ block : List Group, block.length = wideLayout.words →
    getSataNameStr (dump wideLayout block) = nameOf block := by
  intro h
  have hname := h ((List.replicate 48 ones).set 26 twos) (by decide)
  exact absurd hname (by decide +kernel)

end OnTaskGraph
