import Mathlib.Data.List.Forall2
import OnTaskGraph.AristaCatalog
import OnTaskGraph.JsonTree

/-! The script that turns the output of `show snmp` of the Arista command line into a JSON
text. A line without a colon opens an array, which is taken to have three lines. -/

namespace OnTaskGraph.AristaCatalog

open JsText (Text)
open JsonTree (Tree encode encodeMember encodeMembers)

/-- `s.lstrip()` -/
def lstrip (s : Text) : Text := s.dropWhile (· ∈ [' ', '\t', '\n', '\r', '\x0b', '\x0c'])

/-- `line[(firstSpace+1):] + line[:firstSpace]`, where `firstSpace` is -1 without a blank. -/
def swap (line : Text) : Text :=
  match line.idxOf? ' ' with
  | some firstSpace => line.drop (firstSpace + 1) ++ line.take firstSpace
  | none => line ++ line.dropLast

/-- A line with its quotes, and whether it opens an array. -/
def showText (number : Bool) (line : Text) : Text × Bool :=
  let line := if number then replace ':' ['"', ':'] (swap (':' :: line)) else replace ':' ['"', ':', '"'] line
  if ':' ∈ line then (if number then '"' :: line else '"' :: line ++ ['"'], false)
  else ('"' :: line ++ ['"', ':', '{'], true)

def showLine (numLines i nestedArray : Nat) (line : Text) : Text :=
  if i = 0 then '{' :: line ++ [',']
  else if i = numLines then line ++ ['}']
  else
    let line := if nestedArray = 3 ∧ i ≠ 3 then line ++ ['}'] else line
    if ['{'] <:+ line then line else line ++ [',']

/-- The loop over the lines; one of blanks has no `line[0]`, and fails. -/
def showLoop (numLines : Nat) : (i nestedArray : Nat) → List Text → Option Text
  | _, _, [] => some []
  | i, nestedArray, line :: lines =>
    match lstrip line with
    | [] => none
    | c :: line =>
      let (text, array) := showText c.isDigit (c :: line)
      let nestedArray := if array then 0 else nestedArray
      (showLoop numLines (i + 1) (nestedArray + 1) lines).map
        (showLine numLines i nestedArray (replace ' ' [] text) ++ ·)

def parse_snmp_show (snmpString : Text) : Option Text :=
  let s := ['\n'].intercalate ((splitlines snmpString).filter (· ≠ []))
  showLoop (s.count '\n') 0 0 (splitlines s)

/-- A line `key: value`. -/
structure Field where
  key : Text
  value : Text
  key_head : ∃ c s, key = c :: s ∧ c ≠ ' ' ∧ c.isDigit = false
  key_colon : ':' ∉ key
  plain : ∀ c ∈ key ++ value, JsonText.plain c = true

/-- A line that begins with its number. -/
structure Counter where
  number : Text
  label : Text
  digits : JsonText.Digits number
  plain : ∀ c ∈ label, JsonText.plain c = true

structure Heading where
  name : Text
  name_head : ∃ c s, name = c :: s ∧ c ≠ ' ' ∧ c.isDigit = false
  name_colon : ':' ∉ name
  plain : ∀ c ∈ name, JsonText.plain c = true

inductive Line
  | field (f : Field)
  | counter (c : Counter)

structure Block where
  heading : Heading
  lines : List Line
  lines_ne_nil : lines ≠ []

/-- What `show snmp` shows. -/
inductive Item
  | line (l : Line)
  | block (b : Block)

inductive Row
  | line (l : Line)
  | heading (h : Heading)

def Line.text : Line → Text
  | .field f => f.key ++ ':' :: f.value
  | .counter c => c.number ++ ' ' :: c.label

def Line.member : Line → JsonText.Member
  | .field f => (unspaced f.key, .string (unspaced f.value))
  | .counter c => (unspaced c.label, .number c.number)

/-- Nothing in the line has a colon that does not belong there. -/
def Line.Single : Line → Prop
  | .field f => ':' ∉ f.value
  | .counter c => ':' ∉ c.label

def Row.text : Row → Text
  | .line l => l.text
  | .heading h => h.name

def Item.rows : Item → List Row
  | .line l => [.line l]
  | .block b => .heading b.heading :: b.lines.map .line

def leaf (m : JsonText.Member) : Text × Tree := (m.1, .value m.2)

def Item.member : Item → Text × Tree
  | .line l => leaf l.member
  | .block b => (unspaced b.heading.name, .object (b.lines.map fun l => leaf l.member))

/-- What the script takes it to be: an array has three lines. -/
def Item.Whole : Item → Prop
  | .line l => l.Single
  | .block b => (∀ l ∈ b.lines, l.Single) ∧ b.lines.length = 3

/-- A number does not begin with a 0 that could be left out. -/
def Line.Numbered : Line → Prop
  | .field _ => True
  | .counter c => c.number = ['0'] ∨ c.number.head? ≠ some '0'

def Item.Numbered : Item → Prop
  | .line l => l.Numbered
  | .block b => ∀ l ∈ b.lines, l.Numbered

/-- The lines of an output, with any indentation and apart from empty ones. -/
def ShowsRows (output : Text) (rows : List Row) : Prop :=
  List.Forall₂ (fun line row => ∃ n, line = List.replicate n ' ' ++ row.text)
    ((splitlines output).filter (· ≠ [])) rows

section Rows

/-- What the loop makes of a line, apart from its position. -/
def Line.raw : Line → Text
  | .field f => quoted (unspaced f.key) (unspaced f.value)
  | .counter c => '"' :: replace ':' ['"', ':'] (unspaced c.label) ++ '"' :: ':' :: c.number

def Heading.raw (h : Heading) : Text := '"' :: unspaced h.name ++ ['"', ':', '{']

def Row.raw : Row → Text
  | .line l => l.raw
  | .heading h => h.raw

def Row.array : Row → Bool
  | .line _ => false
  | .heading _ => true

/-- The loop over the rows. -/
def out (n : Nat) : (i k : Nat) → List Row → Text
  | _, _, [] => []
  | i, k, row :: rows =>
    let k := if row.array then 0 else k
    showLine n i k row.raw ++ out n (i + 1) (k + 1) rows

theorem unspaced_replace {w : Text} (hw : ' ' ∉ w) (s : Text) :
    unspaced (replace ':' w s) = replace ':' w (unspaced s) := by
  have hkept : unspaced w = w := List.filter_eq_self.mpr fun c hc => by simpa using ne_of_mem_of_not_mem hc hw
  induction s with
  | nil => rfl
  | cons c s ih =>
    have happend : ∀ u v, unspaced (u ++ v) = unspaced u ++ unspaced v := fun u v => List.filter_append u v
    rw [replace_cons, happend, ih]
    by_cases hcolon : c = ':'
    · subst hcolon
      rw [if_pos rfl, hkept, unspaced, unspaced, List.filter_cons_of_pos (by decide), replace_cons, if_pos rfl]
    · rw [if_neg hcolon]
      by_cases hspace : c = ' '
      · subst hspace
        simp [unspaced]
      · simp [unspaced, hspace, replace_cons, hcolon]

theorem unspaced_append (s t : Text) : unspaced (s ++ t) = unspaced s ++ unspaced t := List.filter_append s t

theorem unspaced_nil : unspaced [] = [] := rfl

theorem unspaced_cons (c : Char) (s : Text) :
    unspaced (c :: s) = if c = ' ' then unspaced s else c :: unspaced s := by
  by_cases hc : c = ' ' <;> simp [unspaced, hc]

theorem unspaced_self {s : Text} (h : ∀ c ∈ s, c ≠ ' ') : unspaced s = s :=
  List.filter_eq_self.mpr fun c hc => by simpa using h c hc

theorem lstrip_replicate {c : Char} (hc : c ∉ [' ', '\t', '\n', '\r', '\x0b', '\x0c']) (n : Nat) (s : Text) :
    lstrip (List.replicate n ' ' ++ c :: s) = c :: s := by
  induction n with
  | zero => exact List.dropWhile_cons_of_neg (by simpa using hc)
  | succ n ih =>
    rw [List.replicate_succ, List.cons_append, lstrip, List.dropWhile_cons_of_pos (by decide)]
    exact ih

theorem notMem_blanks {c : Char} (hplain : JsonText.plain c = true) (hspace : c ≠ ' ') :
    c ∉ [' ', '\t', '\n', '\r', '\x0b', '\x0c'] := by
  intro hc
  simp only [List.mem_cons, List.not_mem_nil, or_false, hspace, false_or] at hc
  rcases hc with rfl | rfl | rfl | rfl | rfl <;> exact absurd hplain (by decide)

theorem digit_ne {c d : Char} (hc : c.isDigit = true) (hd : d.isDigit = false) : c ≠ d := by
  rintro rfl
  rw [hc] at hd
  cases hd

theorem Counter.swap_text (c : Counter) :
    swap (':' :: (c.number ++ ' ' :: c.label)) = c.label ++ ':' :: c.number := by
  have hblank : ' ' ∉ ':' :: c.number := by
    intro hmem
    rcases List.mem_cons.mp hmem with heq | hmem
    · exact absurd heq (by decide)
    · exact digit_ne (c.digits.2 _ hmem) (by decide) rfl
  have hfirst : (':' :: (c.number ++ ' ' :: c.label)).idxOf? ' ' = some (c.number.length + 1) := by
    have hnone : (':' :: c.number).findIdx? (· == ' ') = none := by
      refine List.findIdx?_eq_none_iff.mpr fun d hd => ?_
      simpa using ne_of_mem_of_not_mem hd hblank
    rw [show ':' :: (c.number ++ ' ' :: c.label) = (':' :: c.number) ++ ' ' :: c.label from rfl, List.idxOf?,
      List.findIdx?_append, hnone, List.findIdx?_cons]
    simp
  rw [swap, hfirst]
  simp

theorem Row.shown : ∀ row : Row, ∃ c s t, row.text = c :: s ∧ c ∉ [' ', '\t', '\n', '\r', '\x0b', '\x0c'] ∧
    showText c.isDigit (c :: s) = (t, row.array) ∧ unspaced t = row.raw
  | .line (.field f) => by
    obtain ⟨c, s, hkey, hspace, hdigit⟩ := f.key_head
    refine ⟨c, s ++ ':' :: f.value,
      '"' :: f.key ++ '"' :: ':' :: '"' :: replace ':' ['"', ':', '"'] f.value ++ ['"'], ?_, ?_, ?_, ?_⟩
    · simp [text, Line.text, hkey]
    · exact notMem_blanks (f.plain c (by simp [hkey])) hspace
    · have hquoted : replace ':' ['"', ':', '"'] (c :: (s ++ ':' :: f.value)) =
          f.key ++ '"' :: ':' :: '"' :: replace ':' ['"', ':', '"'] f.value := by
        rw [← List.cons_append, ← hkey, replace_append, replace_of_notMem f.key_colon, replace_cons, if_pos rfl]
        simp
      simp [showText, hdigit, hquoted, array]
    · have hvalue := unspaced_replace (w := ['"', ':', '"']) (by decide) f.value
      simp [raw, Line.raw, quoted, hvalue, unspaced_append, unspaced_cons, unspaced_nil]
  | .line (.counter c) => by
    obtain ⟨d, s, hnumber⟩ := List.exists_cons_of_ne_nil c.digits.1
    have hdigit : d.isDigit = true := c.digits.2 d (by simp [hnumber])
    refine ⟨d, s ++ ' ' :: c.label, '"' :: replace ':' ['"', ':'] c.label ++ '"' :: ':' :: c.number, ?_, ?_, ?_,
      ?_⟩
    · simp [text, Line.text, hnumber]
    · intro hmem
      simp only [List.mem_cons, List.not_mem_nil, or_false] at hmem
      rcases hmem with rfl | rfl | rfl | rfl | rfl | rfl <;> exact absurd hdigit (by decide)
    · have hcolon : ':' ∉ c.number := fun hmem => digit_ne (c.digits.2 _ hmem) (by decide) rfl
      have hquoted : replace ':' ['"', ':'] (swap (':' :: d :: (s ++ ' ' :: c.label))) =
          replace ':' ['"', ':'] c.label ++ '"' :: ':' :: c.number := by
        rw [← List.cons_append, ← hnumber, c.swap_text, replace_append, replace_cons, if_pos rfl,
          replace_of_notMem hcolon]
        rfl
      simp [showText, hdigit, hquoted, array]
    · have hlabel := unspaced_replace (w := ['"', ':']) (by decide) c.label
      have hdigits := unspaced_self fun d hd => digit_ne (c.digits.2 d hd) (by decide : ' '.isDigit = false)
      simp [raw, Line.raw, hlabel, hdigits, unspaced_append, unspaced_cons]
  | .heading h => by
    obtain ⟨c, s, hname, hspace, hdigit⟩ := h.name_head
    refine ⟨c, s, '"' :: h.name ++ ['"', ':', '{'], hname, ?_, ?_, ?_⟩
    · exact notMem_blanks (h.plain c (by simp [hname])) hspace
    · have hcolon := h.name_colon
      rw [← hname]
      simp [showText, hdigit, replace_of_notMem hcolon, hcolon, array]
    · simp [raw, Heading.raw, unspaced_append, unspaced_cons, unspaced_nil]

theorem showLoop_rows {n : Nat} {lines : List Text} {rows : List Row}
    (h : List.Forall₂ (fun line row => ∃ n, line = List.replicate n ' ' ++ row.text) lines rows) :
    ∀ i k, showLoop n i k lines = some (out n i k rows) := by
  induction h with
  | nil => exact fun _ _ => rfl
  | @cons line row lines rows hline _ ih =>
    intro i k
    obtain ⟨m, rfl⟩ := hline
    obtain ⟨c, s, t, htext, hblank, hshow, hraw⟩ := row.shown
    rw [htext, showLoop, lstrip_replicate hblank]
    simp only [hshow, ih, replace_space, hraw, Option.map_some, out]

end Rows

section Pieces

theorem Line.raw_spec : ∀ l : Line, l.Single ∧ l.raw = JsonText.encodeMember l.member ∨
    ¬ l.Single ∧ Apart l.raw (JsonText.encodeMember l.member)
  | .field f => by
    by_cases hvalue : ':' ∈ f.value
    · exact .inr ⟨fun h => h hvalue, quoted_apart (mem_unspaced.mpr ⟨hvalue, by decide⟩)⟩
    · exact .inl ⟨hvalue, quoted_single (notMem_unspaced hvalue)⟩
  | .counter c => by
    by_cases hlabel : ':' ∈ c.label
    · refine .inr ⟨fun h => h hlabel, ?_⟩
      have hcolon : ':' ∈ unspaced c.label := mem_unspaced.mpr ⟨hlabel, by decide⟩
      obtain ⟨p, q, hsplit, hp⟩ := List.eq_append_cons_of_mem hcolon
      refine ⟨'"' :: p, '"', ':', ':' :: replace ':' ['"', ':'] q ++ '"' :: ':' :: c.number,
        q ++ '"' :: ':' :: c.number, ?_, ?_, by decide⟩
      · simp [raw, hsplit, replace_append, replace_cons, replace_of_notMem hp]
      · simp [member, number_eq, hsplit]
    · refine .inl ⟨hlabel, ?_⟩
      rw [raw, replace_of_notMem (notMem_unspaced hlabel)]
      rfl

/-- A line with what follows it is as it should be if each part is. -/
theorem Line.raw_append_eq_iff (l : Line) {c d : Char} {u v : Text} :
    l.raw ++ c :: u = JsonText.encodeMember l.member ++ d :: v ↔ l.Single ∧ c = d ∧ u = v := by
  rcases l.raw_spec with ⟨hsingle, heq⟩ | ⟨hmany, hapart⟩
  · rw [heq, List.append_cancel_left_eq, List.cons.injEq]
    exact (and_iff_right hsingle).symm
  · refine iff_of_false ?_ fun h => hmany h.1
    exact (hapart.append [] (c :: u) (d :: v)).ne

theorem Line.raw_suffix (l : Line) : ¬ ['{'] <:+ l.raw := by
  rw [List.singleton_suffix_iff_getLast?_eq_some]
  intro h
  cases l with
  | field f =>
    rw [raw, quoted, List.getLast?_concat] at h
    exact absurd (Option.some.inj h) (by decide)
  | counter c =>
    have hend : c.number.getLast? = some '{' := by
      rw [← h, raw, List.append_cons, List.append_cons, List.getLast?_append_of_ne_nil _ c.digits.1]
    exact digit_ne (c.digits.2 _ (List.mem_of_getLast? hend)) (by decide) rfl

theorem encodeMember_leaf (m : JsonText.Member) : encodeMember (leaf m) = JsonText.encodeMember m := rfl

theorem encodeMembers_append (m : Text × Tree) (ms : List (Text × Tree)) (u : Text) :
    encodeMembers (m :: ms) ++ u = encodeMember m ++ if ms = [] then u else ',' :: (encodeMembers ms ++ u) := by
  cases ms with
  | nil => simp [encodeMembers]
  | cons m' ms => simp [encodeMembers]

variable {n i k : Nat}

theorem out_last (l : Line) (hi : i ≠ 0) : out i i k [.line l] = l.raw ++ ['}'] := by
  simp [out, showLine, hi, Row.raw]

theorem out_line (l : Line) (rows : List Row) (hi : i ≠ 0) (hn : i ≠ n) (hk : k = 3 → i = 3) :
    out n i k (.line l :: rows) = l.raw ++ ',' :: out n (i + 1) (k + 1) rows := by
  have hopen : ¬ (k = 3 ∧ i ≠ 3) := fun h => h.2 (hk h.1)
  simp [out, showLine, hi, hn, hopen, Row.raw, Row.array, l.raw_suffix]

theorem out_third (l : Line) (rows : List Row) (hn : i ≠ n) (hi : 3 < i) :
    out n i 3 (.line l :: rows) = l.raw ++ '}' :: ',' :: out n (i + 1) 4 rows := by
  have hfirst : i ≠ 0 := by omega
  have hthird : i ≠ 3 := by omega
  simp [out, showLine, hfirst, hn, hthird, Row.raw, Row.array]

theorem out_heading (h : Heading) (rows : List Row) (hi : i ≠ 0) (hn : i ≠ n) :
    out n i k (.heading h :: rows) = h.raw ++ out n (i + 1) 1 rows := by
  have hsuffix : ['{'] <:+ h.raw := ⟨'"' :: unspaced h.name ++ ['"', ':'], by simp [Heading.raw]⟩
  simp [out, showLine, hi, hn, Row.raw, Row.array, hsuffix]

/-- The lines of an array, with `k - 1` of them gone: three are needed, and a line after them. -/
theorem out_block (ls : List Line) (hne : ls ≠ []) (rows : List Row) (exp : Text) : ∀ {i k : Nat}, 1 ≤ k → k < i →
    n = i + ls.length + rows.length - 1 →
    (out n i k (ls.map .line ++ rows) =
        encodeMembers (ls.map fun l => leaf l.member) ++ '}' :: (if rows = [] then ['}'] else ',' :: exp) ↔
      (∀ l ∈ ls, l.Single) ∧ k + ls.length = 4 ∧ rows ≠ [] ∧ out n (i + ls.length) 4 rows = exp) := by
  induction ls with
  | nil => exact absurd rfl hne
  | cons l ls ih =>
    intro i k hk hi hn
    have hfirst : i ≠ 0 := by omega
    rw [List.map_cons, List.map_cons, encodeMembers_append, encodeMember_leaf, List.cons_append,
      List.forall_mem_cons]
    cases ls with
    | nil =>
      rw [List.map_nil, List.map_nil, if_pos rfl, List.nil_append]
      cases rows with
      | nil =>
        obtain rfl : n = i := by simpa using hn
        rw [out_last l hfirst, if_pos rfl, l.raw_append_eq_iff]
        simp
      | cons row rows =>
        have hlast : i ≠ n := by
          simp only [List.length_cons, List.length_nil] at hn
          omega
        rw [if_neg (List.cons_ne_nil row rows)]
        by_cases hthird : k = 3
        · subst hthird
          rw [out_third l (row :: rows) hlast hi, l.raw_append_eq_iff]
          simp
        · rw [out_line l (row :: rows) hfirst hlast fun h => absurd h hthird, l.raw_append_eq_iff]
          refine iff_of_false (fun h => absurd h.2.1 (by decide)) fun h => hthird ?_
          simpa using h.2.1
    | cons l' ls =>
      have hlast : i ≠ n := by
        simp only [List.length_cons] at hn
        omega
      rw [if_neg (by simp)]
      by_cases hthird : k = 3
      · subst hthird
        rw [out_third l _ hlast hi, l.raw_append_eq_iff]
        refine iff_of_false (fun h => absurd h.2.1 (by decide)) fun h => ?_
        have hlength := h.2.1
        simp only [List.length_cons] at hlength
        omega
      · have hnext : n = i + 1 + (l' :: ls).length + rows.length - 1 := by
          rw [hn, List.length_cons (a := l)]
          omega
        rw [out_line l _ hfirst hlast fun h => absurd h hthird, l.raw_append_eq_iff,
          ih (List.cons_ne_nil l' ls) (Nat.le_add_left 1 k) (Nat.succ_lt_succ hi) hnext, eq_self, true_and,
          and_assoc, List.length_cons (a := l), Nat.add_assoc k 1, Nat.add_assoc i 1, Nat.add_comm 1]

theorem Item.rows_ne_nil : ∀ item : Item, item.rows ≠ []
  | .line _ | .block _ => List.cons_ne_nil _ _

theorem rows_eq_nil {items : List Item} : items.flatMap Item.rows = [] ↔ items = [] := by
  rw [List.flatMap_eq_nil_iff]
  constructor
  · intro h
    exact List.eq_nil_iff_forall_not_mem.mpr fun item hitem => item.rows_ne_nil (h item hitem)
  · rintro rfl
    exact nofun

theorem encodeMember_block (b : Block) : encodeMember (Item.block b).member =
    b.heading.raw ++ encodeMembers (b.lines.map fun l => leaf l.member) ++ ['}'] := by
  simp [Item.member, encodeMember, encode, Heading.raw]

/-- The members after the first line of the output. -/
theorem out_items (items : List Item) (hne : items ≠ []) : ∀ {i k : Nat}, 1 ≤ i → (4 ≤ k ∨ k = i) →
    n = i + (items.flatMap Item.rows).length - 1 →
    (out n i k (items.flatMap Item.rows) = encodeMembers (items.map Item.member) ++ ['}'] ↔
      (∀ item ∈ items, item.Whole) ∧ ∃ l, items.getLast? = some (.line l)) := by
  induction items with
  | nil => exact absurd rfl hne
  | cons item items ih =>
    intro i k hi hk hn
    have hfirst : i ≠ 0 := by omega
    rw [List.flatMap_cons, List.length_append] at hn
    rw [List.flatMap_cons, List.map_cons, encodeMembers_append, List.forall_mem_cons]
    cases item with
    | line l =>
      rw [Item.member, encodeMember_leaf, Item.rows, List.singleton_append]
      by_cases hlast : items = []
      · subst hlast
        obtain rfl : n = i := by simpa [Item.rows] using hn
        rw [List.flatMap_nil, out_last l hfirst, List.map_nil, if_pos rfl, l.raw_append_eq_iff]
        simp [Item.Whole]
      · have hpos := List.length_pos_of_ne_nil (mt rows_eq_nil.mp hlast)
        have hopen : k = 3 → i = 3 := by omega
        have hin : i ≠ n := by
          simp only [Item.rows, List.length_singleton] at hn
          omega
        have hnext : n = i + 1 + (items.flatMap Item.rows).length - 1 := by
          simp only [Item.rows, List.length_singleton] at hn
          omega
        obtain ⟨item', items', rfl⟩ := List.exists_cons_of_ne_nil hlast
        rw [out_line l _ hfirst hin hopen, if_neg (by simp), l.raw_append_eq_iff,
          ih hlast (Nat.le_add_left 1 i) (by omega) hnext, eq_self, true_and, List.getLast?_cons_cons, Item.Whole,
          and_assoc]
    | block b =>
      have hlines := List.length_pos_of_ne_nil b.lines_ne_nil
      have hlength : n = i + 1 + b.lines.length + (items.flatMap Item.rows).length - 1 := by
        simp only [Item.rows, List.length_cons, List.length_map] at hn
        omega
      have hin : i ≠ n := by omega
      have hstart : (1 : Nat) < i + 1 := by omega
      have hexp : (if items.map Item.member = [] then ['}'] else
            ',' :: (encodeMembers (items.map Item.member) ++ ['}'])) =
          if items.flatMap Item.rows = [] then ['}']
          else ',' :: (encodeMembers (items.map Item.member) ++ ['}']) := by
        simp only [List.map_eq_nil_iff, rows_eq_nil]
      rw [Item.rows, List.cons_append, out_heading b.heading _ hfirst hin, encodeMember_block, hexp,
        List.append_assoc, List.append_assoc, List.append_cancel_left_eq, List.singleton_append,
        out_block b.lines b.lines_ne_nil _ _ (Nat.le_refl 1) hstart hlength, Item.Whole, Ne, rows_eq_nil,
        and_assoc, and_assoc]
      refine and_congr_right fun _ => ?_
      by_cases hlast : items = []
      · subst hlast
        simp
      · obtain ⟨item', items', rfl⟩ := List.exists_cons_of_ne_nil hlast
        rw [List.getLast?_cons_cons]
        refine and_congr (by omega) ((and_iff_right hlast).trans ?_)
        exact ih hlast (by omega) (.inl (Nat.le_refl 4)) hlength

theorem out_first_line (l : Line) (rows : List Row) :
    out n 0 0 (.line l :: rows) = '{' :: (l.raw ++ ',' :: out n 1 1 rows) := by
  simp [out, showLine, Row.raw, Row.array]

theorem out_first_heading (h : Heading) (rows : List Row) :
    out n 0 0 (.heading h :: rows) = '{' :: (h.raw ++ ',' :: out n 1 1 rows) := by
  simp [out, showLine, Row.raw, Row.array]

/-- No object begins with a comma. -/
theorem encodeMembers_quote {ls : List Line} (hne : ls ≠ []) :
    ∃ s, encodeMembers (ls.map fun l => leaf l.member) = '"' :: s := by
  obtain ⟨l, ls, rfl⟩ := List.exists_cons_of_ne_nil hne
  have h := encodeMembers_append (leaf l.member) (ls.map fun l => leaf l.member) []
  rw [List.append_nil] at h
  rw [List.map_cons, h]
  exact ⟨_, rfl⟩

theorem out_eq_iff {items : List Item} (hne : items ≠ []) :
    out ((items.flatMap Item.rows).length - 1) 0 0 (items.flatMap Item.rows) =
        encode (.object (items.map Item.member)) ↔
      2 ≤ items.length ∧ (∃ l, items.head? = some (.line l)) ∧ (∃ l, items.getLast? = some (.line l)) ∧
        ∀ item ∈ items, item.Whole := by
  obtain ⟨item, items, rfl⟩ := List.exists_cons_of_ne_nil hne
  rw [encode, List.map_cons, List.cons_append, encodeMembers_append, List.flatMap_cons, List.forall_mem_cons,
    List.head?_cons]
  cases item with
  | line l =>
    rw [Item.rows, List.singleton_append, out_first_line, List.cons.injEq, Item.member, encodeMember_leaf]
    by_cases hlast : items = []
    · subst hlast
      rw [List.map_nil, if_pos rfl, l.raw_append_eq_iff]
      simp
    · obtain ⟨item', items', rfl⟩ := List.exists_cons_of_ne_nil hlast
      rw [if_neg (by simp), l.raw_append_eq_iff, out_items _ hlast (Nat.le_refl 1) (.inr rfl) (by simp),
        List.getLast?_cons_cons]
      simp [Item.Whole]
      tauto
  | block b =>
    refine iff_of_false ?_ fun h => by simp at h
    rw [Item.rows, List.cons_append, out_first_heading, encodeMember_block, List.cons.injEq, List.append_assoc,
      List.append_assoc, List.append_cancel_left_eq]
    obtain ⟨s, hs⟩ := encodeMembers_quote b.lines_ne_nil
    rw [hs]
    intro h
    exact absurd (List.cons.inj h.2).1 (by decide)

end Pieces

section Texts

theorem plain_ne {c d : Char} (hc : JsonText.plain c = true) (hd : JsonText.plain d = false) : c ≠ d := by
  rintro rfl
  rw [hc] at hd
  cases hd

theorem oneLine_plain {s : Text} (h : ∀ c ∈ s, JsonText.plain c = true) : OneLine s :=
  fun c hc => ⟨plain_ne (h c hc) (by decide), plain_ne (h c hc) (by decide)⟩

theorem bare_unspaced {s : Text} (h : ∀ c ∈ s, JsonText.plain c = true) : JsonText.Bare (unspaced s) := by
  intro c hc
  obtain ⟨hmem, hspace⟩ := mem_unspaced.mp hc
  have htab : c ≠ '\t' := plain_ne (h c hmem) (by decide)
  have hline := oneLine_plain h c hmem
  refine ⟨?_, plain_ne (h c hmem) (by decide)⟩
  simp [JsonText.whitespace, hspace, htab, hline]

theorem Counter.plain_number (c : Counter) : ∀ d ∈ c.number, d ≠ ' ' ∧ JsonText.plain d = true := by
  intro d hd
  have hdigit := c.digits.2 d hd
  have hfirst : d ≠ '"' := digit_ne hdigit (by decide)
  have hsecond : d ≠ '\\' := digit_ne hdigit (by decide)
  have hzero : 0x20 ≤ d.toNat := by
    simp only [Char.isDigit, Bool.and_eq_true, decide_eq_true_eq] at hdigit
    exact Nat.le_trans (by decide) (UInt32.le_iff_toNat_le.mp hdigit.1)
  exact ⟨digit_ne hdigit (by decide), by simp [JsonText.plain, hfirst, hsecond, hzero]⟩

theorem Row.bare_raw : ∀ row : Row, JsonText.Bare row.raw
  | .line (.field f) => by
    have hkey := bare_unspaced fun c hc => f.plain c (List.mem_append_left _ hc)
    have hvalue := bare_unspaced fun c hc => f.plain c (List.mem_append_right _ hc)
    have hquoted : JsonText.Bare (replace ':' ['"', ':', '"'] (unspaced f.value)) := by
      refine bare_replace ?_ hvalue
      simp [JsonText.bare_cons, JsonText.bare_nil, JsonText.whitespace]
    simp [raw, Line.raw, quoted, JsonText.bare_append, JsonText.bare_cons, JsonText.bare_nil, JsonText.whitespace,
      hkey, hquoted]
  | .line (.counter c) => by
    have hnumber := bare_unspaced fun d hd => (c.plain_number d hd).2
    rw [unspaced_self fun d hd => (c.plain_number d hd).1] at hnumber
    have hquoted : JsonText.Bare (replace ':' ['"', ':'] (unspaced c.label)) := by
      refine bare_replace ?_ (bare_unspaced c.plain)
      simp [JsonText.bare_cons, JsonText.bare_nil, JsonText.whitespace]
    simp [raw, Line.raw, JsonText.bare_append, JsonText.bare_cons, JsonText.whitespace, hnumber, hquoted]
  | .heading h => by
    have hname := bare_unspaced h.plain
    simp [raw, Heading.raw, JsonText.bare_append, JsonText.bare_cons, JsonText.bare_nil, JsonText.whitespace,
      hname]

theorem bare_showLine {line : Text} (h : JsonText.Bare line) (n i k : Nat) :
    JsonText.Bare (showLine n i k line) := by
  unfold showLine
  dsimp only
  split_ifs <;> simp [JsonText.bare_append, JsonText.bare_cons, JsonText.bare_nil, JsonText.whitespace, h]

theorem bare_out {n : Nat} (rows : List Row) : ∀ i k, JsonText.Bare (out n i k rows) := by
  induction rows with
  | nil => exact fun _ _ => JsonText.bare_nil
  | cons row rows ih => exact fun i k => JsonText.bare_append.mpr ⟨bare_showLine row.bare_raw _ _ _, ih _ _⟩

theorem Row.plain : ∀ row : Row, ∀ c ∈ row.text, JsonText.plain c = true
  | .line (.field f) => by
    intro c hc
    rcases List.mem_append.mp hc with hkey | hvalue
    · exact f.plain c (List.mem_append_left _ hkey)
    · rcases List.mem_cons.mp hvalue with rfl | hvalue
      · decide
      · exact f.plain c (List.mem_append_right _ hvalue)
  | .line (.counter c) => by
    intro d hd
    rcases List.mem_append.mp hd with hnumber | hlabel
    · exact (c.plain_number d hnumber).2
    · rcases List.mem_cons.mp hlabel with rfl | hlabel
      · decide
      · exact c.plain d hlabel
  | .heading h => h.plain

theorem oneLine_shown {lines : List Text} {rows : List Row}
    (h : List.Forall₂ (fun line row => ∃ n, line = List.replicate n ' ' ++ row.text) lines rows) :
    ∀ line ∈ lines, OneLine line := by
  induction h with
  | nil => exact nofun
  | @cons line row lines rows hline _ ih =>
    obtain ⟨n, rfl⟩ := hline
    refine List.forall_mem_cons.mpr ⟨oneLine_plain fun c hc => ?_, ih⟩
    rcases List.mem_append.mp hc with hblank | htext
    · rw [List.eq_of_mem_replicate hblank]
      decide
    · exact row.plain c htext

theorem parse_snmp_show_eq {output : Text} {rows : List Row} (h : ShowsRows output rows) :
    parse_snmp_show output = some (out (rows.length - 1) 0 0 rows) := by
  have hlines : ∀ line ∈ (splitlines output).filter (· ≠ []), OneLine line ∧ line ≠ [] :=
    fun line hline => ⟨oneLine_shown h line hline, by simpa using (List.mem_filter.mp hline).2⟩
  rw [parse_snmp_show, splitlines_intercalate hlines, count_intercalate fun line hline => (hlines line hline).1,
    List.Forall₂.length_eq h, showLoop_rows h]

theorem Line.writable : ∀ l : Line, JsonText.Writable l.member ↔ l.Numbered
  | .field f => by
    have hplain : ∀ s : Text, (∀ c ∈ s, c ∈ f.key ++ f.value) → ∀ c ∈ unspaced s, JsonText.plain c = true :=
      fun s hs c hc => f.plain c (hs c (mem_unspaced.mp hc).1)
    refine iff_of_true ⟨?_, ?_⟩ trivial
    · exact hplain f.key fun c => List.mem_append_left _
    · exact hplain f.value fun c => List.mem_append_right _
  | .counter c => by
    rw [member, JsonText.Writable, JsonText.Value.Writable, JsonText.numeral_iff c.digits]
    exact and_iff_right fun d hd => c.plain d (mem_unspaced.mp hd).1

theorem Item.writable : ∀ item : Item, JsonTree.WritableMember item.member ↔ item.Numbered
  | .line l => l.writable
  | .block b => by
    have hname : ∀ c ∈ unspaced b.heading.name, JsonText.plain c = true :=
      fun c hc => b.heading.plain c (mem_unspaced.mp hc).1
    rw [member, JsonTree.WritableMember, and_iff_right hname, Tree.Writable, JsonTree.writableMembers_iff,
      List.forall_mem_map]
    exact forall₂_congr fun l _ => l.writable

end Texts

/-- The JSON text that comes out is the object of the items if and only if there are two of
them, the first and the last are lines, every array has three lines, no text has a colon,
and no number a 0 in front. -/
theorem parse_snmp_show_iff (output : Text) (items : List Item) (hne : items ≠ [])
    (h : ShowsRows output (items.flatMap Item.rows)) :
    (∃ text, parse_snmp_show output = some text ∧ JsonTree.Parses text (.object (items.map Item.member))) ↔
      2 ≤ items.length ∧ (∃ l, items.head? = some (.line l)) ∧ (∃ l, items.getLast? = some (.line l)) ∧
        (∀ item ∈ items, item.Whole) ∧ ∀ item ∈ items, item.Numbered := by
  have hwritable : (Tree.object (items.map Item.member)).Writable ↔ ∀ item ∈ items, item.Numbered := by
    rw [Tree.Writable, JsonTree.writableMembers_iff, List.forall_mem_map]
    exact forall₂_congr fun item _ => item.writable
  simp only [parse_snmp_show_eq h, Option.some.injEq, exists_eq_left']
  rw [JsonTree.parses_iff_of_bare (bare_out _ 0 0), out_eq_iff hne, hwritable]
  simp only [and_assoc]

def contact : Field where
  key := "Contact".toList
  value := " ops".toList
  key_head := ⟨'C', "ontact".toList, by decide +kernel, by decide, by decide⟩
  key_colon := by decide
  plain := List.all_eq_true.mp (by decide +kernel)

def users : Line :=
  .counter ⟨['0'], "Users".toList, ⟨by decide, List.all_eq_true.mp (by decide)⟩,
    List.all_eq_true.mp (by decide +kernel)⟩

def packets : Line :=
  .counter ⟨['1', '2'], "packets".toList, ⟨by decide, List.all_eq_true.mp (by decide)⟩,
    List.all_eq_true.mp (by decide +kernel)⟩

def accessControl : Block where
  heading :=
    { name := "Access Control".toList
      name_head := ⟨'A', "ccess Control".toList, by decide +kernel, by decide, by decide⟩
      name_colon := by decide
      plain := List.all_eq_true.mp (by decide +kernel) }
  lines := List.replicate 3 users
  lines_ne_nil := List.cons_ne_nil _ _

def accessItems : List Item := [.line (.field contact), .block accessControl, .line packets]

def accessOutput : Text :=
  "Contact: ops\nAccess Control\n  0 Users\n  0 Users\n  0 Users\n\n12 packets\n".toList

/-- An array between two lines, and indented. -/
theorem parse_snmp_show_iff_access : ∃ text, parse_snmp_show accessOutput = some text ∧
    JsonTree.Parses text (.object (accessItems.map Item.member)) := by
  have hlines : (splitlines accessOutput).filter (· ≠ []) = ["Contact: ops".toList, "Access Control".toList,
      "  0 Users".toList, "  0 Users".toList, "  0 Users".toList, "12 packets".toList] := by decide +kernel
  have hshows : ShowsRows accessOutput (accessItems.flatMap Item.rows) := by
    rw [ShowsRows, hlines]
    have husers : ∃ n, "  0 Users".toList = List.replicate n ' ' ++ (Row.line users).text :=
      ⟨2, by decide +kernel⟩
    exact .cons ⟨0, by decide +kernel⟩ (.cons ⟨0, by decide +kernel⟩
      (.cons husers (.cons husers (.cons husers (.cons ⟨0, by decide +kernel⟩ .nil)))))
  refine (parse_snmp_show_iff accessOutput accessItems (by simp [accessItems]) hshows).mpr
    ⟨by decide, ⟨_, rfl⟩, ⟨_, rfl⟩, ?_, ?_⟩
  · have hcolon : ':' ∉ contact.value ∧ ':' ∉ "Users".toList ∧ ':' ∉ "packets".toList := by decide
    have hblock : ∀ l ∈ accessControl.lines, l.Single := by
      intro l hl
      rw [List.eq_of_mem_replicate (n := 3) hl]
      exact hcolon.2.1
    exact List.forall_mem_cons.mpr ⟨hcolon.1, List.forall_mem_cons.mpr ⟨⟨hblock, rfl⟩,
      List.forall_mem_singleton.mpr hcolon.2.2⟩⟩
  · have hblock : ∀ l ∈ accessControl.lines, l.Numbered := by
      intro l hl
      rw [List.eq_of_mem_replicate (n := 3) hl]
      exact .inl rfl
    exact List.forall_mem_cons.mpr ⟨trivial, List.forall_mem_cons.mpr ⟨hblock,
      List.forall_mem_singleton.mpr (.inr (by decide))⟩⟩

end OnTaskGraph.AristaCatalog
