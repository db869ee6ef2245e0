import Mathlib.Data.List.Infix
import Mathlib.Data.Nat.Notation

/-! JSON texts of objects whose values are strings and numbers. -/

namespace JsonText

/-- A number is kept as it is written. -/
inductive Value
  | string (s : List Char)
  | number (w : List Char)
  deriving DecidableEq

def whitespace (c : Char) : Bool := c = ' ' || c = '\t' || c = '\n' || c = '\r'

def Space (s : List Char) : Prop := ∀ c ∈ s, whitespace c = true

/-- A character that stands for itself in a string. -/
def plain (c : Char) : Bool := c ≠ '"' && c ≠ '\\' && 0x20 ≤ c.toNat

/-- The characters that may follow a backslash, and what is meant by them. -/
def escapes : List (Char × Char) :=
  [('"', '"'), ('\\', '\\'), ('/', '/'), ('b', '\x08'), ('f', '\x0c'), ('n', '\n'), ('r', '\r'), ('t', '\t')]

def hexDigit (c : Char) : Option Nat :=
  if c.isDigit then some (c.toNat - '0'.toNat)
  else if 'a' ≤ c ∧ c ≤ 'f' then some (c.toNat - 'a'.toNat + 10)
  else if 'A' ≤ c ∧ c ≤ 'F' then some (c.toNat - 'A'.toNat + 10)
  else none

inductive Chars : List Char → List Char → Prop
  | nil : Chars [] []
  | char {c : Char} {s t : List Char} : plain c = true → Chars s t → Chars (c :: s) (c :: t)
  | escape {c d : Char} {s t : List Char} : (c, d) ∈ escapes → Chars s t → Chars ('\\' :: c :: s) (d :: t)
  | code {u s t : List Char} {ds : List Nat} : u.length = 4 → u.mapM hexDigit = some ds →
    (ds.foldl (fun n d => 16 * n + d) 0).isValidChar → Chars s t →
    Chars ('\\' :: 'u' :: u ++ s) (Char.ofNat (ds.foldl (fun n d => 16 * n + d) 0) :: t)
  | pair {u v s t : List Char} {ds es : List Nat} {high low : Nat} : u.length = 4 → v.length = 4 →
    u.mapM hexDigit = some ds → v.mapM hexDigit = some es → ds.foldl (fun n d => 16 * n + d) 0 = 0xD800 + high →
    es.foldl (fun n d => 16 * n + d) 0 = 0xDC00 + low → high < 0x400 → low < 0x400 → Chars s t →
    Chars ('\\' :: 'u' :: u ++ '\\' :: 'u' :: v ++ s) (Char.ofNat (0x10000 + 0x400 * high + low) :: t)

def Digits (w : List Char) : Prop := w ≠ [] ∧ ∀ c ∈ w, c.isDigit = true

def Numeral (w : List Char) : Prop :=
  ∃ sign int frac exp, w = sign ++ int ++ frac ++ exp ∧ (sign = [] ∨ sign = ['-']) ∧
    (int = ['0'] ∨ Digits int ∧ int.head? ≠ some '0') ∧ (frac = [] ∨ ∃ ds, Digits ds ∧ frac = '.' :: ds) ∧
    (exp = [] ∨ ∃ e s ds, Digits ds ∧ (e = 'e' ∨ e = 'E') ∧ (s = [] ∨ s = ['+'] ∨ s = ['-']) ∧ exp = e :: s ++ ds)

inductive Writes : List Char → Value → Prop
  | string {s t : List Char} : Chars s t → Writes ('"' :: s ++ ['"']) (.string t)
  | number {w : List Char} : Numeral w → Writes w (.number w)

abbrev Member := List Char × Value

inductive ParsesMember : List Char → Member → Prop
  | intro {a b c d s w key : List Char} {value : Value} : Space a → Space b → Space c → Space d → Chars s key →
    Writes w value → ParsesMember (a ++ '"' :: s ++ '"' :: b ++ ':' :: c ++ w ++ d) (key, value)

inductive ParsesMembers : List Char → List Member → Prop
  | one {s : List Char} {m : Member} : ParsesMember s m → ParsesMembers s [m]
  | cons {s t : List Char} {m : Member} {ms : List Member} : ParsesMember s m → ParsesMembers t ms →
    ParsesMembers (s ++ ',' :: t) (m :: ms)

inductive Parses : List Char → List Member → Prop
  | empty {a b c : List Char} : Space a → Space b → Space c → Parses (a ++ '{' :: b ++ '}' :: c) []
  | members {a b s : List Char} {ms : List Member} : Space a → Space b → ParsesMembers s ms →
    Parses (a ++ '{' :: s ++ '}' :: b) ms

def encodeValue : Value → List Char
  | .string s => '"' :: s ++ ['"']
  | .number w => w

def encodeMember (m : Member) : List Char := '"' :: m.1 ++ '"' :: ':' :: encodeValue m.2

def encode (ms : List Member) : List Char := '{' :: [','].intercalate (ms.map encodeMember) ++ ['}']

/-- A value that can be written without escapes. -/
def Value.Writable : Value → Prop
  | .string s => ∀ c ∈ s, plain c = true
  | .number w => Numeral w

def Writable (m : Member) : Prop := (∀ c ∈ m.1, plain c = true) ∧ m.2.Writable

/-- A text with nothing between its tokens, and without escapes. -/
def Bare (s : List Char) : Prop := ∀ c ∈ s, whitespace c = false ∧ c ≠ '\\'

theorem chars_plain {s : List Char} (h : ∀ c ∈ s, plain c = true) : Chars s s := by
  induction s with
  | nil => exact .nil
  | cons c s ih => exact .char (h c List.mem_cons_self) (ih fun d hd => h d (List.mem_cons_of_mem c hd))

theorem bare_nil : Bare [] := nofun

theorem bare_append {s t : List Char} : Bare (s ++ t) ↔ Bare s ∧ Bare t := List.forall_mem_append

theorem bare_cons {c : Char} {s : List Char} : Bare (c :: s) ↔ (whitespace c = false ∧ c ≠ '\\') ∧ Bare s :=
  List.forall_mem_cons

theorem Chars.eq_of_bare {s t : List Char} (h : Chars s t) (hs : Bare s) : s = t ∧ ∀ c ∈ t, plain c = true := by
  induction h with
  | nil => exact ⟨rfl, nofun⟩
  | char hc _ ih =>
    obtain ⟨rfl, hplain⟩ := ih (bare_cons.mp hs).2
    exact ⟨rfl, List.forall_mem_cons.mpr ⟨hc, hplain⟩⟩
  | escape | code | pair => exact absurd rfl (hs '\\' (by simp)).2

theorem Space.eq_nil {s : List Char} (h : Space s) (hs : Bare s) : s = [] := by
  cases s with
  | nil => rfl
  | cons c s =>
    have htrue := h c List.mem_cons_self
    rw [(bare_cons.mp hs).1.1] at htrue
    cases htrue

theorem Writes.eq_of_bare {w : List Char} {v : Value} (h : Writes w v) (hw : Bare w) :
    w = encodeValue v ∧ v.Writable := by
  cases h with
  | string hchars =>
    obtain ⟨rfl, hplain⟩ := hchars.eq_of_bare (bare_append.mp (bare_cons.mp hw).2).1
    exact ⟨rfl, hplain⟩
  | number hnumeral => exact ⟨rfl, hnumeral⟩

theorem ParsesMember.eq_of_bare {s : List Char} {m : Member} (h : ParsesMember s m) (hs : Bare s) :
    s = encodeMember m ∧ Writable m := by
  obtain ⟨ha, hb, hc, hd, hkey, hvalue⟩ := h
  simp only [bare_append, bare_cons] at hs
  obtain ⟨⟨⟨⟨⟨hbarea, _, hbarekey⟩, _, hbareb⟩, _, hbarec⟩, hbarevalue⟩, hbared⟩ := hs
  obtain rfl := ha.eq_nil hbarea
  obtain rfl := hb.eq_nil hbareb
  obtain rfl := hc.eq_nil hbarec
  obtain rfl := hd.eq_nil hbared
  obtain ⟨rfl, hplain⟩ := hkey.eq_of_bare hbarekey
  obtain ⟨rfl, hwritable⟩ := hvalue.eq_of_bare hbarevalue
  refine ⟨?_, hplain, hwritable⟩
  simp [encodeMember]

theorem ParsesMembers.eq_of_bare {s : List Char} {ms : List Member} (h : ParsesMembers s ms) (hs : Bare s) :
    s = [','].intercalate (ms.map encodeMember) ∧ ∀ m ∈ ms, Writable m := by
  induction h with
  | one h =>
    obtain ⟨rfl, hwritable⟩ := h.eq_of_bare hs
    exact ⟨by simp, by simpa using hwritable⟩
  | @cons s t m ms h hrest ih =>
    obtain ⟨hbare, _, hbare'⟩ := (bare_append.trans (and_congr_right' bare_cons)).mp hs
    obtain ⟨rfl, hwritable⟩ := h.eq_of_bare hbare
    obtain ⟨heq, hall⟩ := ih hbare'
    refine ⟨?_, List.forall_mem_cons.mpr ⟨hwritable, hall⟩⟩
    have hne : ms.map encodeMember ≠ [] := by
      cases hrest <;> simp
    rw [List.map_cons, List.intercalate_cons_of_ne_nil hne, heq]
    simp

theorem parsesMember_encode {m : Member} (h : Writable m) : ParsesMember (encodeMember m) m := by
  obtain ⟨key, value⟩ := m
  have hvalue : Writes (encodeValue value) value := by
    cases value with
    | string s => exact .string (chars_plain h.2)
    | number w => exact .number h.2
  have hempty : Space [] := nofun
  have hparses := ParsesMember.intro hempty hempty hempty hempty (chars_plain h.1) hvalue
  simpa [encodeMember] using hparses

theorem parsesMembers_encode {ms : List Member} (hne : ms ≠ []) (h : ∀ m ∈ ms, Writable m) :
    ParsesMembers ([','].intercalate (ms.map encodeMember)) ms := by
  induction ms with
  | nil => exact absurd rfl hne
  | cons m ms ih =>
    have hm := parsesMember_encode (h m List.mem_cons_self)
    cases ms with
    | nil => simpa using ParsesMembers.one hm
    | cons m' ms =>
      have hrest := ih (List.cons_ne_nil _ _) fun n hn => h n (List.mem_cons_of_mem m hn)
      have hcons := ParsesMembers.cons hm hrest
      rw [List.map_cons, List.intercalate_cons_of_ne_nil (by simp)]
      simpa using hcons

/-- An object has only one text without space and escapes. -/
theorem parses_iff_of_bare {s : List Char} (hs : Bare s) {ms : List Member} (hne : ms ≠ []) :
    Parses s ms ↔ s = encode ms ∧ ∀ m ∈ ms, Writable m := by
  constructor
  · intro h
    cases h with
    | empty => exact absurd rfl hne
    | members ha hb hmembers =>
      simp only [bare_append, bare_cons] at hs
      obtain ⟨⟨hbarea, _, hbare⟩, _, hbareb⟩ := hs
      obtain rfl := ha.eq_nil hbarea
      obtain rfl := hb.eq_nil hbareb
      obtain ⟨rfl, hwritable⟩ := hmembers.eq_of_bare hbare
      exact ⟨by simp [encode], hwritable⟩
  · rintro ⟨rfl, hwritable⟩
    have hempty : Space [] := nofun
    simpa [encode] using Parses.members hempty hempty (parsesMembers_encode hne hwritable)

/-- What has only digits is a number if it does not begin with a 0 that could be left out. -/
theorem numeral_iff {w : List Char} (h : Digits w) : Numeral w ↔ w = ['0'] ∨ w.head? ≠ some '0' := by
  constructor
  · rintro ⟨sign, int, frac, exp, rfl, hsign, hint, hfrac, hexp⟩
    have hdigit : ∀ c ∈ sign ++ int ++ frac ++ exp, c.isDigit = true := h.2
    obtain rfl : sign = [] := by
      apply hsign.resolve_right
      rintro rfl
      exact absurd (hdigit '-' (by simp)) (by decide)
    obtain rfl : frac = [] := by
      apply hfrac.resolve_right
      rintro ⟨ds, _, rfl⟩
      exact absurd (hdigit '.' (by simp)) (by decide)
    obtain rfl : exp = [] := by
      apply hexp.resolve_right
      rintro ⟨e, s, ds, _, he, _, rfl⟩
      have hletter := hdigit e (by simp)
      rcases he with rfl | rfl <;> exact absurd hletter (by decide)
    simpa using hint.imp_right And.right
  · intro hzero
    refine ⟨[], w, [], [], by simp, .inl rfl, ?_, .inl rfl, .inl rfl⟩
    exact hzero.imp_right fun hhead => ⟨h, hhead⟩

end JsonText
