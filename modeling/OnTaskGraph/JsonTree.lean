import OnTaskGraph.JsonText

/-! JSON texts of objects in objects. -/

namespace JsonTree

open JsonText (Space Chars Bare bare_append bare_cons chars_plain plain)

inductive Tree
  | value (v : JsonText.Value)
  | object (members : List (List Char × Tree))

mutual

inductive Writes : List Char → Tree → Prop
  | value {w : List Char} {v : JsonText.Value} : JsonText.Writes w v → Writes w (.value v)
  | empty {a : List Char} : Space a → Writes ('{' :: a ++ ['}']) (.object [])
  | object {s : List Char} {ms : List (List Char × Tree)} : WritesMembers s ms →
    Writes ('{' :: s ++ ['}']) (.object ms)

inductive WritesMembers : List Char → List (List Char × Tree) → Prop
  | one {a b c d s w key : List Char} {t : Tree} : Space a → Space b → Space c → Space d → Chars s key →
    Writes w t → WritesMembers (a ++ '"' :: s ++ '"' :: b ++ ':' :: c ++ w ++ d) [(key, t)]
  | cons {a b c d s w key u : List Char} {t : Tree} {ms : List (List Char × Tree)} : Space a → Space b → Space c →
    Space d → Chars s key → Writes w t → WritesMembers u ms →
    WritesMembers (a ++ '"' :: s ++ '"' :: b ++ ':' :: c ++ w ++ d ++ ',' :: u) ((key, t) :: ms)

end

def Parses (s : List Char) (t : Tree) : Prop := ∃ a w b, s = a ++ w ++ b ∧ Space a ∧ Space b ∧ Writes w t

mutual

def encode : Tree → List Char
  | .value v => JsonText.encodeValue v
  | .object ms => '{' :: encodeMembers ms ++ ['}']

def encodeMembers : List (List Char × Tree) → List Char
  | [] => []
  | [m] => encodeMember m
  | m :: m' :: ms => encodeMember m ++ ',' :: encodeMembers (m' :: ms)

def encodeMember : List Char × Tree → List Char
  | (key, t) => '"' :: key ++ '"' :: ':' :: encode t

end

mutual

/-- A tree that can be written without escapes. -/
def Tree.Writable : Tree → Prop
  | .value v => v.Writable
  | .object ms => WritableMembers ms

def WritableMembers : List (List Char × Tree) → Prop
  | [] => True
  | m :: ms => WritableMember m ∧ WritableMembers ms

def WritableMember : List Char × Tree → Prop
  | (key, t) => (∀ c ∈ key, plain c = true) ∧ t.Writable

end

theorem member_of_bare {a b c d s w key : List Char} (ha : Space a) (hb : Space b) (hc : Space c) (hd : Space d)
    (hkey : Chars s key) (h : Bare (a ++ '"' :: s ++ '"' :: b ++ ':' :: c ++ w ++ d)) :
    a ++ '"' :: s ++ '"' :: b ++ ':' :: c ++ w ++ d = '"' :: key ++ '"' :: ':' :: w ∧
      (∀ c ∈ key, plain c = true) ∧ Bare w := by
  simp only [bare_append, bare_cons] at h
  obtain ⟨⟨⟨⟨⟨hbarea, _, hbarekey⟩, _, hbareb⟩, _, hbarec⟩, hbarevalue⟩, hbared⟩ := h
  obtain rfl := ha.eq_nil hbarea
  obtain rfl := hb.eq_nil hbareb
  obtain rfl := hc.eq_nil hbarec
  obtain rfl := hd.eq_nil hbared
  obtain ⟨rfl, hplain⟩ := hkey.eq_of_bare hbarekey
  exact ⟨by simp, hplain, hbarevalue⟩

theorem WritesMembers.ne_nil {s : List Char} {ms : List (List Char × Tree)} (h : WritesMembers s ms) :
    ms ≠ [] := by
  cases h with
  | one | cons => exact List.cons_ne_nil _ _

mutual

theorem Writes.eq_of_bare {w : List Char} {t : Tree} : Writes w t → Bare w → w = encode t ∧ t.Writable
  | .value h, hw => h.eq_of_bare hw
  | .empty ha, hw => by
    obtain rfl := ha.eq_nil (bare_append.mp (bare_cons.mp hw).2).1
    exact ⟨rfl, trivial⟩
  | .object h, hw => by
    obtain ⟨rfl, hwritable⟩ := h.eq_of_bare (bare_append.mp (bare_cons.mp hw).2).1
    exact ⟨rfl, hwritable⟩

theorem WritesMembers.eq_of_bare {s : List Char} {ms : List (List Char × Tree)} :
    WritesMembers s ms → Bare s → s = encodeMembers ms ∧ WritableMembers ms
  | .one ha hb hc hd hkey h, hs => by
    obtain ⟨heq, hplain, hbare⟩ := member_of_bare ha hb hc hd hkey hs
    obtain ⟨rfl, hwritable⟩ := h.eq_of_bare hbare
    exact ⟨heq, ⟨hplain, hwritable⟩, trivial⟩
  | .cons ha hb hc hd hkey h hrest, hs => by
    obtain ⟨hfirst, hlast⟩ := bare_append.mp hs
    obtain ⟨heq, hplain, hbare⟩ := member_of_bare ha hb hc hd hkey hfirst
    obtain ⟨rfl, hwritable⟩ := h.eq_of_bare hbare
    obtain ⟨rfl, hall⟩ := hrest.eq_of_bare (bare_cons.mp hlast).2
    obtain ⟨m', ms', rfl⟩ := List.exists_cons_of_ne_nil hrest.ne_nil
    rw [heq]
    exact ⟨rfl, ⟨hplain, hwritable⟩, hall⟩

end

theorem writableMembers_iff {ms : List (List Char × Tree)} : WritableMembers ms ↔ ∀ m ∈ ms, WritableMember m := by
  induction ms with
  | nil => exact iff_of_true trivial nofun
  | cons m ms ih => rw [WritableMembers, ih, List.forall_mem_cons]

theorem encodeMember_eq : ∀ m : List Char × Tree, encodeMember m = '"' :: m.1 ++ '"' :: ':' :: encode m.2
  | (_, _) => rfl

theorem writable_key : ∀ {m : List Char × Tree}, WritableMember m → ∀ c ∈ m.1, plain c = true
  | (_, _), h => h.1

mutual

theorem writes_encode : ∀ t : Tree, t.Writable → Writes (encode t) t
  | .value (.string _), h => .value (.string (chars_plain h))
  | .value (.number _), h => .value (.number h)
  | .object [], _ => .empty (a := []) nofun
  | .object (m :: ms), h => .object (writesMembers_encode (m :: ms) (List.cons_ne_nil m ms) h)

theorem writesMembers_encode : ∀ ms : List (List Char × Tree), ms ≠ [] → WritableMembers ms →
    WritesMembers (encodeMembers ms) ms
  | [], hne, _ => absurd rfl hne
  | [m], _, h => by
    have hempty : Space [] := nofun
    have hwrites := WritesMembers.one hempty hempty hempty hempty (chars_plain (writable_key h.1))
      (writesMember_encode m h.1)
    simpa [encodeMembers, encodeMember_eq] using hwrites
  | m :: m' :: ms, _, h => by
    have hempty : Space [] := nofun
    have hrest := writesMembers_encode (m' :: ms) (List.cons_ne_nil m' ms) h.2
    have hwrites := WritesMembers.cons hempty hempty hempty hempty (chars_plain (writable_key h.1))
      (writesMember_encode m h.1) hrest
    simpa [encodeMembers, encodeMember_eq] using hwrites

theorem writesMember_encode : ∀ m : List Char × Tree, WritableMember m → Writes (encode m.2) m.2
  | (_, t), h => writes_encode t h.2

end

/-- A tree has only one text without space and escapes. -/
theorem parses_iff_of_bare {s : List Char} (hs : Bare s) {t : Tree} : Parses s t ↔ s = encode t ∧ t.Writable := by
  constructor
  · rintro ⟨a, w, b, rfl, ha, hb, hwrites⟩
    obtain ⟨hfirst, hbareb⟩ := bare_append.mp hs
    obtain ⟨hbarea, hbarew⟩ := bare_append.mp hfirst
    obtain rfl := ha.eq_nil hbarea
    obtain rfl := hb.eq_nil hbareb
    obtain ⟨rfl, hwritable⟩ := hwrites.eq_of_bare hbarew
    exact ⟨by simp, hwritable⟩
  · rintro ⟨rfl, hwritable⟩
    exact ⟨[], _, [], by simp, nofun, nofun, writes_encode t hwritable⟩

end JsonTree
