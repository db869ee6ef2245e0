import Mathlib.Algebra.Group.Nat.Defs
import Mathlib.Data.List.DropRight
import Mathlib.Data.List.Infix
import Mathlib.Data.List.Lex
import Mathlib.Data.List.TakeWhile
import Mathlib.Data.Rat.Defs

/-! Strings and numbers of JavaScript: texts are lists of characters, and a finite
number is given by the shortest decimal that it is printed with. -/

namespace JsText

abbrev Text := List Char

/-- The code units that strings are compared by. -/
def codeUnits (s : Text) : List Nat :=
  s.flatMap fun c =>
    if c.toNat < 0x10000 then [c.toNat]
    else [0xD800 + (c.toNat - 0x10000) / 0x400, 0xDC00 + (c.toNat - 0x10000) % 0x400]

def lineTerminator (c : Char) : Bool := c.toNat ∈ [0x0A, 0x0D, 0x2028, 0x2029]

/-- `\s` -/
def blank (c : Char) : Bool :=
  c.toNat ∈ [0x09, 0x0A, 0x0B, 0x0C, 0x0D, 0x20, 0xA0, 0x1680, 0x2028, 0x2029, 0x202F, 0x205F, 0x3000, 0xFEFF] ||
    0x2000 ≤ c.toNat && c.toNat ≤ 0x200A

def trim (s : Text) : Text := (s.dropWhile blank).rdropWhile blank

def words (s : Text) : List Text := (s.splitOnP blank).filter (· ≠ [])

/-- `s.split(/\s+/)`: an empty piece stands before blanks that `s` begins with, and after
those that it ends with. -/
def splitBlanks (s : Text) : List Text :=
  if s = [] then [[]]
  else
    let outer := fun c : Option Char => if c.any blank then [[]] else []
    outer s.head? ++ words s ++ outer s.getLast?

/-- Of a text that is not empty; `none` is -1. -/
def indexOf (x : Text) : Text → Option Nat
  | [] => none
  | c :: s => if x <+: c :: s then some 0 else (indexOf x s).map (· + 1)

def lastIndexOf (x : Text) : Text → Option Nat
  | [] => none
  | c :: s =>
    match lastIndexOf x s with
    | some i => some (i + 1)
    | none => if x <+: c :: s then some 0 else none

/-- `s.slice(0, i)`, which leaves out the last character for -1. -/
def before (s : Text) : Option Nat → Text
  | some i => s.take i
  | none => s.dropLast

/-- `s.slice(i + 1)` -/
def after (s : Text) : Option Nat → Text
  | some i => s.drop (i + 1)
  | none => s

/-- `(if negative then -1 else 1) * digits * 10 ^ exponent`; `digits` does not end in a
zero unless it is zero. -/
structure Decimal where
  negative : Bool
  digits : Nat
  exponent : Int

namespace Decimal

def value (x : Decimal) : Rat :=
  let magnitude : Rat := if 0 ≤ x.exponent then x.digits * 10 ^ x.exponent.toNat
    else x.digits / 10 ^ (-x.exponent).toNat
  if x.negative then -magnitude else magnitude

def zeros (n : Nat) : Text := List.replicate n '0'

/-- The text of the magnitude, whose decimal point is after the first `n` of `digits`. -/
def layout (digits : Text) (n : Int) : Text :=
  if digits.length ≤ n ∧ n ≤ 21 then digits ++ zeros (n.toNat - digits.length)
  else if 0 < n ∧ n ≤ 21 then digits.take n.toNat ++ '.' :: digits.drop n.toNat
  else if -6 < n ∧ n ≤ 0 then "0.".toList ++ zeros (-n).toNat ++ digits
  else
    let point := if digits.length = 1 then [] else ['.']
    let sign := if 0 < n then '+' else '-'
    digits.take 1 ++ point ++ digits.drop 1 ++ 'e' :: sign :: Nat.toDigits 10 (n - 1).natAbs

def toString (x : Decimal) : Text :=
  if x.digits = 0 then ['0']
  else
    let digits := Nat.toDigits 10 x.digits
    let magnitude := layout digits (digits.length + x.exponent)
    if x.negative then '-' :: magnitude else magnitude

end Decimal

/-! What the words of a text are, and what is around an index. -/

section

variable {s t x : Text} {c : Char}

theorem words_append_blank (hc : blank c = true) : words (s ++ c :: t) = words s ++ words t := by
  unfold words
  rw [List.splitOnP_append_cons s t hc, List.filter_append]

theorem words_cons_blank (hc : blank c = true) : words (c :: t) = words t := words_append_blank (s := []) hc

theorem words_eq_singleton (hs : s ≠ []) (h : ∀ c ∈ s, blank c = false) : words s = [s] := by
  rw [words, List.splitOnP_eq_singleton h]
  simp [hs]

theorem splitBlanks_eq_words (hs : s ≠ []) (hhead : s.head?.any blank = false)
    (hlast : s.getLast?.any blank = false) :
    splitBlanks s = words s := by
  simp [splitBlanks, hs, hhead, hlast]

theorem head_append_blank (hs : s ≠ []) (h : ∀ c ∈ s, blank c = false) : (s ++ t).head?.any blank = false := by
  obtain ⟨c, s, rfl⟩ := List.exists_cons_of_ne_nil hs
  exact h c List.mem_cons_self

theorem last_append_blank (ht : t ≠ []) (h : ∀ c ∈ t, blank c = false) : (s ++ t).getLast?.any blank = false := by
  rw [List.getLast?_append_of_ne_nil s ht]
  obtain ⟨t, c, rfl⟩ := (List.eq_nil_or_concat' t).resolve_left ht
  rw [List.getLast?_concat]
  exact h c (List.mem_append_right t (List.mem_singleton.mpr rfl))

theorem of_mem_splitOnP {α : Type*} {p : α → Bool} {s w : List α} (hw : w ∈ s.splitOnP p) :
    ∀ c ∈ w, c ∈ s ∧ p c = false := by
  induction s generalizing w with
  | nil => simp_all
  | cons c s ih =>
    have htail : ∀ {u}, u ∈ s.splitOnP p → ∀ d ∈ u, d ∈ c :: s ∧ p d = false := fun hu d hd =>
      ⟨List.mem_cons_of_mem c (ih hu d hd).1, (ih hu d hd).2⟩
    rw [List.splitOnP_cons_eq_if_modifyHead] at hw
    obtain ⟨u, us, hus⟩ := List.exists_cons_of_ne_nil (List.splitOnP_ne_nil p s)
    split_ifs at hw with hc
    · rcases List.mem_cons.mp hw with rfl | hw
      · simp
      · exact htail hw
    · rw [hus, List.modifyHead_cons] at hw
      rcases List.mem_cons.mp hw with rfl | hw
      · intro d hd
        rcases List.mem_cons.mp hd with rfl | hd
        · exact ⟨List.mem_cons_self, by simpa using hc⟩
        · exact htail (hus ▸ List.mem_cons_self) d hd
      · exact htail (hus ▸ List.mem_cons_of_mem u hw)

theorem exists_mem_splitOnP {α : Type*} {p : α → Bool} {s : List α} {c : α} (hc : c ∈ s) (hp : p c = false) :
    ∃ w ∈ s.splitOnP p, c ∈ w := by
  induction s with
  | nil => simp at hc
  | cons d s ih =>
    rw [List.splitOnP_cons_eq_if_modifyHead]
    obtain ⟨u, us, hus⟩ := List.exists_cons_of_ne_nil (List.splitOnP_ne_nil p s)
    rw [hus] at ih ⊢
    split_ifs with hd
    · have hs : c ∈ s := (List.mem_cons.mp hc).resolve_left fun heq => by simp [← heq, hp] at hd
      obtain ⟨w, hw, hcw⟩ := ih hs
      exact ⟨w, List.mem_cons_of_mem _ hw, hcw⟩
    · rw [List.modifyHead_cons]
      rcases List.mem_cons.mp hc with rfl | hs
      · exact ⟨c :: u, List.mem_cons_self, List.mem_cons_self⟩
      · obtain ⟨w, hw, hcw⟩ := ih hs
        rcases List.mem_cons.mp hw with rfl | hw
        · exact ⟨d :: w, List.mem_cons_self, List.mem_cons_of_mem d hcw⟩
        · exact ⟨w, List.mem_cons_of_mem _ hw, hcw⟩

theorem exists_mem_words (hc : c ∈ s) (hb : blank c = false) : ∃ w ∈ words s, c ∈ w := by
  obtain ⟨w, hw, hcw⟩ := exists_mem_splitOnP hc hb
  exact ⟨w, List.mem_filter.mpr ⟨hw, by simpa using List.ne_nil_of_mem hcw⟩, hcw⟩

theorem of_mem_words {w : Text} (hw : w ∈ words s) : ∀ c ∈ w, c ∈ s ∧ blank c = false :=
  of_mem_splitOnP (List.mem_filter.mp hw).1

theorem not_blank_of_mem_splitBlanks {w : Text} (hw : w ∈ splitBlanks s) : ∀ c ∈ w, blank c = false := by
  have houter : ∀ o : Option Char, w ∈ (if o.any blank then [[]] else [] : List Text) → w = [] := by
    intro o ho
    split_ifs at ho
    · exact List.mem_singleton.mp ho
    · simp at ho
  have hempty : w = [] → ∀ c ∈ w, blank c = false := by
    rintro rfl c hc
    simp at hc
  unfold splitBlanks at hw
  split_ifs at hw
  · exact hempty (List.mem_singleton.mp hw)
  · rcases List.mem_append.mp hw with hw | hw
    · rcases List.mem_append.mp hw with hw | hw
      · exact hempty (houter _ hw)
      · exact fun c hc => (of_mem_words hw c hc).2
    · exact hempty (houter _ hw)

theorem indexOf_eq_zero (hx : x ≠ []) : indexOf x s = some 0 ↔ x <+: s := by
  cases s with
  | nil => simp [indexOf, hx]
  | cons c s => by_cases h : x <+: c :: s <;> simp [indexOf, h]

theorem lastIndexOf_append {i : Nat} (h : lastIndexOf x t = some i) :
    lastIndexOf x (s ++ t) = some (s.length + i) := by
  induction s with
  | nil => simpa using h
  | cons c s ih =>
    simp only [List.cons_append, lastIndexOf, ih, List.length_cons]
    congr 1
    omega

theorem lastIndexOf_isSome (hx : x <:+: s) (hne : x ≠ []) : (lastIndexOf x s).isSome = true := by
  obtain ⟨s, t, rfl⟩ := hx
  obtain ⟨c, x, rfl⟩ := List.exists_cons_of_ne_nil hne
  have hfound : (lastIndexOf (c :: x) (c :: x ++ t)).isSome = true := by
    simp only [List.cons_append, lastIndexOf]
    split
    · rfl
    · simp
  obtain ⟨i, hi⟩ := Option.isSome_iff_exists.mp hfound
  rw [List.append_assoc, lastIndexOf_append hi]
  rfl

theorem lastIndexOf_eq_none (h : ¬ x <:+: s) : lastIndexOf x s = none := by
  induction s with
  | nil => rfl
  | cons c s ih =>
    have hrest : ¬ x <:+: s := fun hx => h (hx.trans (List.suffix_cons c s).isInfix)
    have hhere : ¬ x <+: c :: s := fun hx => h hx.isInfix
    simp [lastIndexOf, ih hrest, hhere]

/-- What follows the last `c` does not depend on what is before another `c`. -/
theorem after_append (hc : c ∈ t) : after (s ++ t) (lastIndexOf [c] (s ++ t)) = after t (lastIndexOf [c] t) := by
  obtain ⟨i, hi⟩ := Option.isSome_iff_exists.mp (lastIndexOf_isSome ((List.singleton_infix_iff c t).mpr hc)
    (List.cons_ne_nil c []))
  rw [lastIndexOf_append hi, hi, after, after, Nat.add_assoc, ← List.drop_drop, List.drop_left]

theorem lastIndexOf_lt {i : Nat} (h : lastIndexOf x s = some i) : i < s.length := by
  induction s generalizing i with
  | nil => simp [lastIndexOf] at h
  | cons c s ih =>
    simp only [lastIndexOf] at h
    split at h
    · rename_i j hj
      obtain rfl := Option.some.inj h
      exact Nat.succ_lt_succ (ih hj)
    · split_ifs at h
      obtain rfl := Option.some.inj h
      exact Nat.zero_lt_succ _

theorem after_append_of_not_mem (hc : c ∉ t) :
    after (s ++ t) (lastIndexOf [c] (s ++ t)) = after s (lastIndexOf [c] s) ++ t := by
  have hindex : lastIndexOf [c] (s ++ t) = lastIndexOf [c] s := by
    induction s with
    | nil => exact lastIndexOf_eq_none fun h => hc ((List.singleton_infix_iff c t).mp h)
    | cons d s ih => simp [lastIndexOf, ih]
  rw [hindex]
  cases hi : lastIndexOf [c] s with
  | none => rfl
  | some i => exact List.drop_append_of_le_length (lastIndexOf_lt hi)

theorem indexOf_of_mem (hc : c ∈ s) : indexOf [c] s = some (s.takeWhile (· ≠ c)).length := by
  induction s with
  | nil => simp at hc
  | cons d s ih =>
    by_cases hd : c = d
    · simp [indexOf, hd]
    · have hs : c ∈ s := (List.mem_cons.mp hc).resolve_left hd
      simp [indexOf, hd, Ne.symm hd, ih hs]

theorem before_indexOf (hc : c ∈ s) : before s (indexOf [c] s) = s.takeWhile (· ≠ c) := by
  rw [indexOf_of_mem hc]
  exact (List.prefix_iff_eq_take.mp (List.takeWhile_prefix _)).symm

/-- The last word of a text. -/
def lastWord (s : Text) : Text := (s.rdropWhile blank).rtakeWhile (!blank ·)

theorem lastWord_append (s : Text) : ∃ h, s = h ++ lastWord s ++ s.rtakeWhile blank :=
  ⟨(s.rdropWhile blank).rdropWhile (!blank ·), by
    rw [lastWord, List.rdropWhile_append_rtakeWhile, List.rdropWhile_append_rtakeWhile]⟩

end

/-! The pieces of a split. -/

section

variable {α : Type*} [DecidableEq α] {a x : α}

theorem length_splitOn (s : List α) : (s.splitOn a).length = s.count a + 1 := by
  induction s with
  | nil => rfl
  | cons c s ih =>
    rw [List.splitOn_cons_eq_if_modifyHead]
    by_cases hc : c = a
    · subst hc
      simp [ih]
    · simp [hc, ih]

theorem of_mem_splitOn {s w : List α} (hw : w ∈ s.splitOn a) : ∀ c ∈ w, c ∈ s := by
  rw [List.splitOn_eq_splitOnP] at hw
  exact fun c hc => (of_mem_splitOnP hw c hc).1

theorem splitOn_append {s : List α} (t : List α) (hs : a ∉ s) :
    (s ++ t).splitOn a = (t.splitOn a).modifyHead (s ++ ·) := by
  induction s with
  | nil => cases h : t.splitOn a <;> simp [h]
  | cons c s ih =>
    have hc : (c == a) = false := beq_eq_false_iff_ne.mpr fun h => hs (h ▸ List.mem_cons_self)
    rw [List.cons_append, List.splitOn_cons_eq_if_modifyHead, hc, ih fun h => hs (List.mem_cons_of_mem c h)]
    cases t.splitOn a <;> rfl

theorem takeWhile_ne (s : List α) :
    s.takeWhile (· ≠ a) = s ∨ ∃ rest, s = s.takeWhile (· ≠ a) ++ a :: rest := by
  induction s with
  | nil => exact .inl rfl
  | cons c s ih =>
    by_cases hc : c = a
    · exact .inr ⟨s, by simp [hc]⟩
    · have htake : (c :: s).takeWhile (· ≠ a) = c :: s.takeWhile (· ≠ a) := by simp [hc]
      rw [htake]
      rcases ih with hall | ⟨rest, hrest⟩
      · exact .inl (congrArg (c :: ·) hall)
      · exact .inr ⟨rest, congrArg (c :: ·) hrest⟩

theorem rtakeWhile_ne (s : List α) :
    s.rtakeWhile (· ≠ a) = s ∨ ∃ front, s = front ++ a :: s.rtakeWhile (· ≠ a) := by
  rcases takeWhile_ne (a := a) s.reverse with hall | ⟨rest, hrest⟩
  · exact .inl (by rw [List.rtakeWhile, hall, List.reverse_reverse])
  · refine .inr ⟨rest.reverse, ?_⟩
    have h := congrArg List.reverse hrest
    rw [List.reverse_reverse, List.reverse_append, List.reverse_cons, List.append_assoc] at h
    exact h

theorem not_mem_takeWhile (s : List α) : a ∉ s.takeWhile (· ≠ a) :=
  fun h => by simpa using List.mem_takeWhile_imp h

theorem not_mem_rtakeWhile (s : List α) : a ∉ s.rtakeWhile (· ≠ a) :=
  fun h => not_mem_takeWhile s.reverse (List.mem_reverse.mp h)

theorem takeWhile_ne_eq_nil {s : List α} (h : s.head? ∈ [none, some a]) : s.takeWhile (· ≠ a) = [] := by
  cases s with
  | nil => rfl
  | cons c s =>
    obtain rfl : c = a := by simpa using h
    exact List.takeWhile_cons_of_neg (by simp)

theorem head_mem_takeWhile_ne {s : List α} {c : α} (h : s.head? = some c) (hc : c ≠ a) :
    c ∈ s.takeWhile (· ≠ a) := by
  obtain ⟨s, rfl⟩ := List.head?_eq_some_iff.mp h
  rw [List.takeWhile_cons_of_pos (by simpa using hc)]
  exact List.mem_cons_self

theorem rtakeWhile_ne_eq_nil {s : List α} (h : s.getLast? ∈ [none, some a]) : s.rtakeWhile (· ≠ a) = [] := by
  rw [List.getLast?_eq_head?_reverse] at h
  rw [List.rtakeWhile, takeWhile_ne_eq_nil h, List.reverse_nil]

theorem last_mem_rtakeWhile_ne {s : List α} {c : α} (h : s.getLast? = some c) (hc : c ≠ a) :
    c ∈ s.rtakeWhile (· ≠ a) := by
  rw [List.getLast?_eq_head?_reverse] at h
  exact List.mem_reverse.mpr (head_mem_takeWhile_ne h hc)

theorem exists_splitOn_eq_cons {s : List α} (t : List α) (hs : a ∉ s) : ∃ back,
    (s ++ t).splitOn a = (s ++ t.takeWhile (· ≠ a)) :: back ∧ ∀ w ∈ back, ∀ c ∈ w, c ∈ t := by
  have hhead : a ∉ s ++ t.takeWhile (· ≠ a) := fun h =>
    (List.mem_append.mp h).elim hs (not_mem_takeWhile t)
  rcases takeWhile_ne (a := a) t with hall | ⟨rest, hrest⟩
  · rw [hall] at hhead ⊢
    exact ⟨[], List.splitOn_eq_singleton hhead, by simp⟩
  · refine ⟨rest.splitOn a, ?_, fun w hw c hc => ?_⟩
    · conv_lhs => rw [hrest, ← List.append_assoc]
      exact List.splitOn_append_cons_self_of_not_mem hhead rest
    · rw [hrest]
      exact List.mem_append_right _ (List.mem_cons_of_mem a (of_mem_splitOn hw c hc))

/-- The piece that an element is in. -/
theorem exists_splitOn_around (s t : List α) (hx : x ≠ a) : ∃ front back,
    (s ++ x :: t).splitOn a = front ++ (s.rtakeWhile (· ≠ a) ++ x :: t.takeWhile (· ≠ a)) :: back ∧
      front.length = s.count a ∧ (∀ w ∈ front, ∀ c ∈ w, c ∈ s) ∧ ∀ w ∈ back, ∀ c ∈ w, c ∈ t := by
  have hword : a ∉ s.rtakeWhile (· ≠ a) ++ [x] := by
    simpa [hx.symm] using not_mem_rtakeWhile s
  obtain ⟨back, hback, hmem⟩ := exists_splitOn_eq_cons t hword
  rw [List.append_assoc, List.singleton_append, List.append_assoc, List.singleton_append] at hback
  rcases rtakeWhile_ne (a := a) s with hall | ⟨front, hfront⟩
  · have hcount : s.count a = 0 := List.count_eq_zero.mpr (hall ▸ not_mem_rtakeWhile s)
    refine ⟨[], back, ?_, hcount.symm, by simp, hmem⟩
    rw [hall] at hback ⊢
    exact hback
  · have hcount : s.count a = front.count a + 1 := by
      conv_lhs => rw [hfront]
      rw [List.count_append, List.count_cons_self, List.count_eq_zero.mpr (not_mem_rtakeWhile s)]
    refine ⟨front.splitOn a, back, ?_, ?_, fun w hw c hc => ?_, hmem⟩
    · conv_lhs => rw [hfront, List.append_assoc, List.cons_append]
      rw [List.splitOn_append_cons_self, hback]
    · rw [length_splitOn, hcount]
    · rw [hfront]
      exact List.mem_append_left _ (of_mem_splitOn hw c hc)

end

/-! `parseInt` with no radix. -/

inductive ParsedInt
  | nan
  | number (n : Int)
  deriving DecidableEq

namespace ParsedInt

protected def less : ParsedInt → ParsedInt → Bool
  | number m, number n => m < n
  | _, _ => false

instance : LT ParsedInt := ⟨fun x y => x.less y = true⟩

instance (x y : ParsedInt) : Decidable (x < y) := inferInstanceAs (Decidable (x.less y = true))

theorem number_lt_number {m n : Int} : number m < number n ↔ m < n := by
  show decide (m < n) = true ↔ m < n
  exact decide_eq_true_iff

theorem not_nan_lt (x : ParsedInt) : ¬ nan < x := by
  cases x <;> exact Bool.false_ne_true

theorem not_lt_nan (x : ParsedInt) : ¬ x < nan := by
  cases x <;> exact Bool.false_ne_true

theorem lt_asymm {x y : ParsedInt} (h : x < y) : ¬ y < x := by
  cases x with
  | nan => exact absurd h (not_nan_lt y)
  | number m =>
    cases y with
    | nan => exact absurd h (not_lt_nan _)
    | number n =>
      rw [number_lt_number] at h ⊢
      omega

end ParsedInt

def digitValue (c : Char) : Nat :=
  if c.isDigit then c.toNat - 48
  else if 'a' ≤ c ∧ c ≤ 'f' then c.toNat - 87
  else if 'A' ≤ c ∧ c ≤ 'F' then c.toNat - 55
  else 36

/-- The number nearest to an integer; where it is infinite, `2 ^ 1024` stands for it. -/
def nearest (n : Nat) : Nat :=
  if n < 2 ^ 53 then n
  else
    let unit := 2 ^ (n.log2 - 52)
    let q := n / unit
    let r := n % unit
    let up := unit < 2 * r ∨ 2 * r = unit ∧ q % 2 = 1
    min (if up then (q + 1) * unit else q * unit) (2 ^ 1024)

def parseInt (s : Text) : ParsedInt :=
  let s := s.dropWhile blank
  let negative := s.head? = some '-'
  let s := if s.head? = some '-' ∨ s.head? = some '+' then s.tail else s
  let (radix, s) : Nat × Text := match s with
    | '0' :: 'x' :: s | '0' :: 'X' :: s => (16, s)
    | s => (10, s)
  match s.takeWhile (digitValue · < radix) with
  | [] => .nan
  | digits =>
    let magnitude := nearest (digits.foldl (fun n c => radix * n + digitValue c) 0)
    .number (if negative then -magnitude else magnitude)

end JsText
