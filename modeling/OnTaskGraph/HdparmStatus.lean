import Mathlib.Data.List.DropRight
import OnTaskGraph.JsText
import OnTaskGraph.Lookahead

/-! `hdparm_check_drive_status` of the secure erase script, with the patterns that
`hdparm_secure_erase` gives it. -/

namespace OnTaskGraph.HdparmStatus

open JsText (Text)
open Lookahead Lookahead.Pattern

/-- `\s` -/
def space (c : Char) : Bool := c.toNat ∈ [0x09, 0x0A, 0x0B, 0x0C, 0x0D, 0x20]

/-- `[\s\S]*` -/
def anything : Pattern Char := .star fun _ => true

/-- `[\s]*` -/
def spaces : Pattern Char := .star space

def word (w : String) : Pattern Char := literal w.toList

def notItems : List Text :=
  ["not".toList, "locked".toList, "not".toList, "frozen".toList, "not".toList, "expired".toList]

/-- The option of the command: `--security-erase` by default. -/
def hdparm_option (se_option : Option String) : String :=
  match se_option with
  | none | some "" => "--security-erase"
  | some option => "--" ++ option

def pattern_se_support (se_option : Option String) : Pattern Char :=
  if hdparm_option se_option = "--security-erase" then
    sequence [anything, .notAhead (word "not"), spaces, word "supported", spaces, anything, word "enabled",
      spaced space notItems, anything]
  else
    sequence [anything, .notAhead (word "not"), spaces, word "supported", spaces, anything, word "enabled",
      spaced space notItems, anything, word "supported: enhanced erase", anything]

def pattern_se_enabled : Pattern Char :=
  sequence [anything, .notAhead (word "not"), spaces, word "supported", spaces, .notAhead (word "not"), spaces,
    word "enabled", spaced space notItems, anything]

/-- What `robust_check_output` gives. -/
structure ExitStatus where
  exit_code : Int
  message : Text

/-- `output[secure_index:-1]`, if `secure_index` is not -1. -/
def output_secure_items (output : Text) : Option Text :=
  (JsText.indexOf "Security".toList output).map fun secure_index => output.dropLast.drop secure_index

/-- An assertion that fails gives its message. -/
def hdparm_check_drive_status (pattern : Pattern Char) (disk_name : String) (exit_status : ExitStatus) :
    Except String Unit :=
  if exit_status.exit_code ≠ 0 then .error ("Can't get drive " ++ disk_name ++ " SE or ESE status")
  else
    match output_secure_items exit_status.message with
    | none =>
      .error ("Can't find security info, probably disk " ++ disk_name ++ " doesn't support SE and ESE")
    | some items => if pattern.matchStart items then .ok () else .error "Disk is not enabled for secure erase"

section Items

/-- The last word before an item is "not". -/
def Negated (before : Text) : Prop := "not".toList <:+ before.rdropWhile space

instance (before : Text) : Decidable (Negated before) := inferInstanceAs (Decidable (_ <:+ _))

/-- `item` stands somewhere in the section, behind a text with `P` and before one with `Q`. -/
def Occurs (item : Text) (P Q : Text → Prop) (s : Text) : Prop := ∃ a b, s = a ++ (item ++ b) ∧ P a ∧ Q b

theorem occurs_iff {item s : Text} {P Q : Text → Prop} : Occurs item P Q s ↔
    ∃ i ∈ List.range (s.length + 1), item <+: s.drop i ∧ P (s.take i) ∧ Q (s.drop (i + item.length)) := by
  constructor
  · rintro ⟨a, b, rfl, ha, hb⟩
    have hlt : a.length < (a ++ (item ++ b)).length + 1 := by
      rw [List.length_append]
      omega
    refine ⟨a.length, List.mem_range.mpr hlt, ?_, ?_, ?_⟩
    · rw [List.drop_left]
      exact List.prefix_append item b
    · rwa [List.take_left]
    · rw [← List.drop_drop, List.drop_left, List.drop_left]
      exact hb
  · rintro ⟨i, _, ⟨b, hb⟩, hP, hQ⟩
    refine ⟨s.take i, b, ?_, hP, ?_⟩
    · rw [hb, List.take_append_drop]
    · rw [← List.drop_drop, ← hb, List.drop_left] at hQ
      exact hQ

instance {item s : Text} {P Q : Text → Prop} [DecidablePred P] [DecidablePred Q] :
    Decidable (Occurs item P Q s) :=
  decidable_of_iff _ occurs_iff.symm

/-- A blank or nothing, before or behind a word. -/
def Apart (c : Option Char) : Prop := ∀ x ∈ c, space x = true

instance (c : Option Char) : Decidable (Apart c) :=
  decidable_of_iff (c.all space = true) (by cases c <;> simp [Apart])

/-- A "supported" of its own, without a "not" before it. -/
def Supported (s : Text) : Prop :=
  Occurs "supported".toList (fun before => ¬ Negated before ∧ Apart before.getLast?) (Apart ·.head?) s

def SupportedEnhanced (s : Text) : Prop :=
  Occurs "supported: enhanced erase".toList (fun before => ¬ Negated before ∧ Apart before.getLast?)
    (fun _ => True) s

instance (s : Text) : Decidable (Supported s) := inferInstanceAs (Decidable (Occurs _ _ _ s))

instance (s : Text) : Decidable (SupportedEnhanced s) := inferInstanceAs (Decidable (Occurs _ _ _ s))

def Enabled (s : Text) : Prop := Occurs "enabled".toList (¬ Negated ·) (fun _ => True) s

def NotItem (item : Text) (s : Text) : Prop := Occurs item Negated (fun _ => True) s

/-- The drive can be erased in the way that is asked for. -/
def Erases (se_option : Option String) (s : Text) : Prop :=
  Supported s ∧ (hdparm_option se_option ≠ "--security-erase" → SupportedEnhanced s)

instance (se_option : Option String) (s : Text) : Decidable (Erases se_option s) :=
  inferInstanceAs (Decidable (_ ∧ (_ → _)))

structure Unlocked (s : Text) : Prop where
  not_locked : NotItem "locked".toList s
  not_frozen : NotItem "frozen".toList s
  not_expired : NotItem "expired".toList s

/-- The section has the items of a drive that is not locked, each at any place and
"supported" with or without a "not". -/
structure Mentions (se_option : Option String) (s : Text) : Prop where
  supported : "supported".toList <:+: s
  enabled : "enabled".toList <:+: s
  unlocked : Unlocked s
  enhanced : hdparm_option se_option ≠ "--security-erase" → "supported: enhanced erase".toList <:+: s

structure MentionsEnabled (s : Text) : Prop where
  supported : "supported".toList <:+: s
  enabled : Enabled s
  unlocked : Unlocked s

/-- "supported", later "enabled", and behind it not locked, not frozen and not expired. -/
def Listed (between after : Text → Prop) (s : Text) : Prop :=
  ∃ a b c d, s = a ++ ("supported".toList ++ (b ++ ("enabled".toList ++ (c ++ d)))) ∧
    between b ∧ Spaced space notItems c ∧ after d

theorem negated_append {l w : Text} (hw : ∀ c ∈ w, space c) : Negated (l ++ w) ↔ Negated l := by
  rw [Negated, Negated, List.rdropWhile, List.reverse_append, List.dropWhile_append_of_pos (by simpa using hw)]
  rfl

theorem negated_word {l w : Text} {c : Char} (hc : space c = false) (hlen : 2 ≤ w.length) :
    Negated (l ++ (w ++ [c])) ↔ "not".toList <:+ w ++ [c] := by
  have hdrop : (l ++ (w ++ [c])).rdropWhile space = l ++ (w ++ [c]) := by
    rw [← List.append_assoc]
    exact List.rdropWhile_concat_neg space (l ++ w) c (by simp [hc])
  rw [Negated, hdrop]
  constructor
  · intro h
    refine List.suffix_of_suffix_length_le h (List.suffix_append l (w ++ [c])) ?_
    simpa using hlen
  · intro h
    exact h.trans (List.suffix_append l (w ++ [c]))

theorem notItem_of_between (item : Text) {x y z : Text} (hy : ∀ c ∈ y, space c) :
    NotItem item (x ++ ("not".toList ++ (y ++ (item ++ z)))) := by
  refine ⟨x ++ "not".toList ++ y, z, by simp, ?_, trivial⟩
  rw [negated_append hy]
  exact (negated_word (w := "no".toList) (c := 't') rfl (by decide)).mpr (List.suffix_refl _)

variable {between after : Text → Prop} {s : Text}

theorem Listed.notItem (h : Listed between after s) (ws : List Text) {item : Text} {ws' : List Text}
    (hitems : notItems = ws ++ "not".toList :: item :: ws') : NotItem item s := by
  obtain ⟨a, b, c, d, rfl, _, hc, _⟩ := h
  rw [hitems] at hc
  obtain ⟨x, y, z, rfl, hy⟩ := hc.between
  have hitem := notItem_of_between item (x := a ++ "supported".toList ++ b ++ "enabled".toList ++ x)
    (z := z ++ d) hy
  simpa using hitem

theorem Listed.unlocked (h : Listed between after s) : Unlocked s where
  not_locked := h.notItem [] rfl
  not_frozen := h.notItem ["not".toList, "locked".toList] rfl
  not_expired := h.notItem ["not".toList, "locked".toList, "not".toList, "frozen".toList] rfl

theorem Listed.supported_infix (h : Listed between after s) : "supported".toList <:+: s := by
  obtain ⟨a, b, c, d, rfl, _⟩ := h
  exact ⟨a, _, List.append_assoc ..⟩

theorem Listed.enabled_infix (h : Listed between after s) : "enabled".toList <:+: s := by
  obtain ⟨a, b, c, d, rfl, _⟩ := h
  exact ⟨a ++ "supported".toList ++ b, c ++ d, by simp⟩

/-- Behind "supported" and blanks, "enabled" has no "not" before it. -/
theorem Listed.enabled (h : Listed (fun b => ∀ c ∈ b, space c) after s) : Enabled s := by
  obtain ⟨a, b, c, d, rfl, hb, _, _⟩ := h
  refine ⟨a ++ "supported".toList ++ b, c ++ d, by simp, ?_, trivial⟩
  intro hnegated
  have hword :=
    (negated_word (w := "supporte".toList) (c := 'd') rfl (by decide)).mp ((negated_append hb).mp hnegated)
  exact absurd hword (by decide)

/-- As the support pattern lists the items, and as the enabled pattern does. -/
def ListsSupport (se_option : Option String) (s : Text) : Prop :=
  Listed (fun _ => True)
    (fun d => hdparm_option se_option ≠ "--security-erase" → "supported: enhanced erase".toList <:+: d) s

def ListsEnabled (s : Text) : Prop := Listed (fun b => ∀ c ∈ b, space c) (fun _ => True) s

theorem ListsSupport.mentions {se_option : Option String} (h : ListsSupport se_option s) :
    Mentions se_option s := by
  refine ⟨h.supported_infix, h.enabled_infix, h.unlocked, fun henhanced => ?_⟩
  obtain ⟨a, b, c, d, rfl, _, _, hd⟩ := h
  have htail : d <:+ a ++ ("supported".toList ++ (b ++ ("enabled".toList ++ (c ++ d)))) :=
    ⟨a ++ "supported".toList ++ b ++ "enabled".toList ++ c, by simp⟩
  exact (hd henhanced).trans htail.isInfix

theorem ListsEnabled.mentionsEnabled (h : ListsEnabled s) : MentionsEnabled s :=
  ⟨h.supported_infix, h.enabled, h.unlocked⟩

end Items

section Patterns

variable {s : Text}

theorem not_ahead (w v : Text) (hw : w ≠ []) (hc : w.head hw ≠ 'n') :
    (notAhead (word "not")).Takes [] (w ++ v) := by
  refine ⟨rfl, ?_⟩
  rintro ⟨x, y, hsplit, hx⟩
  obtain rfl := takes_literal.mp hx
  obtain ⟨c, w, rfl⟩ := List.exists_cons_of_ne_nil hw
  exact hc (List.cons.inj hsplit).1

theorem takes_anything (u v : Text) : anything.Takes u v := fun _ _ => rfl

theorem takes_no_spaces (v : Text) : spaces.Takes [] v := fun _ hc => absurd hc List.not_mem_nil

/-- The lookahead never excludes a "supported": the blanks before it can be taken by the
wildcard in front, and then it is the word itself that is not "not". -/
theorem takes_supported {rs : List (Pattern Char)} {u v : Text} :
    (sequence (anything :: .notAhead (word "not") :: spaces :: word "supported" :: spaces :: rs)).Takes u v ↔
      ∃ a b t, u = a ++ ("supported".toList ++ (b ++ t)) ∧ (∀ c ∈ b, space c) ∧ (sequence rs).Takes t v := by
  constructor
  · rintro ⟨a, _, rfl, _, _, _, rfl, ⟨rfl, _⟩, a', _, rfl, _, w, _, rfl, hw, b, t, rfl, hb, ht⟩
    obtain rfl := takes_literal.mp hw
    exact ⟨a ++ a', b, t, by simp, hb, ht⟩
  · rintro ⟨a, b, t, rfl, hb, ht⟩
    have hahead := not_ahead "supported".toList (b ++ t ++ v) (by decide) (by decide)
    rw [← List.append_assoc] at hahead
    exact ⟨a, _, rfl, takes_anything _ _, [], _, rfl, hahead, [], _, rfl, takes_no_spaces _, _, _, rfl,
      takes_literal.mpr rfl, b, t, rfl, hb, ht⟩

theorem takes_enabled {rs : List (Pattern Char)} {u v : Text} :
    (sequence (word "enabled" :: spaced space notItems :: anything :: rs)).Takes u v ↔
      ∃ c d t, u = "enabled".toList ++ (c ++ (d ++ t)) ∧ Spaced space notItems c ∧ (sequence rs).Takes t v := by
  constructor
  · rintro ⟨w, _, rfl, hw, c, _, rfl, hc, d, t, rfl, _, ht⟩
    obtain rfl := takes_literal.mp hw
    exact ⟨c, d, t, rfl, takes_spaced.mp hc, ht⟩
  · rintro ⟨c, d, t, rfl, hc, ht⟩
    exact ⟨_, _, rfl, takes_literal.mpr rfl, c, _, rfl, takes_spaced.mpr hc, d, t, rfl, takes_anything _ _, ht⟩

theorem support_match_iff {se_option : Option String} :
    (pattern_se_support se_option).matchStart s ↔ ListsSupport se_option s := by
  rw [matchStart_iff, pattern_se_support]
  constructor
  · rintro ⟨u, v, rfl, h⟩
    by_cases hoption : hdparm_option se_option = "--security-erase"
    · rw [if_pos hoption] at h
      obtain ⟨a, b, _, rfl, _, b', _, rfl, _, ht⟩ := takes_supported.mp h
      obtain ⟨c, d, t, rfl, hc, _⟩ := takes_enabled.mp ht
      refine ⟨a, b ++ b', c, d ++ t ++ v, by simp, trivial, hc, ?_⟩
      intro hne
      exact absurd hoption hne
    · rw [if_neg hoption] at h
      obtain ⟨a, b, _, rfl, _, b', _, rfl, _, ht⟩ := takes_supported.mp h
      obtain ⟨c, d, _, rfl, hc, w, t, rfl, hw, _⟩ := takes_enabled.mp ht
      obtain rfl := takes_literal.mp hw
      refine ⟨a, b ++ b', c, d ++ ("supported: enhanced erase".toList ++ (t ++ v)), by simp, trivial, hc, ?_⟩
      intro _
      exact ⟨d, t ++ v, by simp⟩
  · rintro ⟨a, b, c, d, rfl, _, hc, hd⟩
    by_cases hoption : hdparm_option se_option = "--security-erase"
    · rw [if_pos hoption]
      refine ⟨_, [], (List.append_nil _).symm, takes_supported.mpr ?_⟩
      refine ⟨a, [], _, rfl, by simp, b, _, rfl, takes_anything _ _, ?_⟩
      exact takes_enabled.mpr ⟨c, d, [], by rw [List.append_nil], hc, rfl⟩
    · rw [if_neg hoption]
      obtain ⟨d, d', rfl⟩ := hd hoption
      refine ⟨_, [], (List.append_nil _).symm, takes_supported.mpr ?_⟩
      refine ⟨a, [], _, rfl, by simp, b, _, rfl, takes_anything _ _, ?_⟩
      refine takes_enabled.mpr ⟨c, d, "supported: enhanced erase".toList ++ d', by simp, hc, _, d', rfl, ?_, ?_⟩
      · exact takes_literal.mpr rfl
      · exact ⟨d', [], (List.append_nil _).symm, takes_anything _ _, rfl⟩

theorem enabled_match_iff : pattern_se_enabled.matchStart s ↔ ListsEnabled s := by
  rw [matchStart_iff, pattern_se_enabled]
  constructor
  · rintro ⟨u, v, rfl, h⟩
    obtain ⟨a, b, _, rfl, hb, _, _, rfl, ⟨rfl, _⟩, b', _, rfl, hb', ht⟩ := takes_supported.mp h
    obtain ⟨c, d, t, rfl, hc, _⟩ := takes_enabled.mp ht
    refine ⟨a, b ++ b', c, d ++ t ++ v, by simp, ?_, hc, trivial⟩
    intro x hx
    exact (List.mem_append.mp hx).elim (hb x) (hb' x)
  · rintro ⟨a, b, c, d, rfl, hb, hc, _⟩
    have hrest :
        (sequence [word "enabled", spaced space notItems, anything]).Takes ("enabled".toList ++ (c ++ d)) [] :=
      takes_enabled.mpr ⟨c, d, [], by rw [List.append_nil], hc, rfl⟩
    have hahead := not_ahead "enabled".toList (c ++ d) (by decide) (by decide)
    rw [← List.append_nil ("enabled".toList ++ (c ++ d))] at hahead
    refine ⟨_, [], (List.append_nil _).symm, takes_supported.mpr ⟨a, b, _, rfl, hb, ?_⟩⟩
    exact ⟨[], _, (List.nil_append _).symm, hahead, [], _, (List.nil_append _).symm, takes_no_spaces _, hrest⟩

theorem check_eq_ok_iff {pattern : Pattern Char} {disk_name : String} {exit_status : ExitStatus} :
    hdparm_check_drive_status pattern disk_name exit_status = .ok () ↔
      exit_status.exit_code = 0 ∧ ∃ s, output_secure_items exit_status.message = some s ∧
        pattern.matchStart s := by
  unfold hdparm_check_drive_status
  split
  · rename_i hcode
    simp [hcode]
  · rename_i hcode
    have hzero : exit_status.exit_code = 0 := by simpa using hcode
    cases hitems : output_secure_items exit_status.message with
    | none => simp
    | some s =>
      cases hmatch : pattern.matchStart s <;> simp [hzero, hmatch]

/-- The check with the support pattern passes only for what its comment asks for. -/
def SupportSound (se_option : Option String) (disk_name : String) (exit_status : ExitStatus) : Prop :=
  hdparm_check_drive_status (pattern_se_support se_option) disk_name exit_status = .ok () →
    ∃ s, output_secure_items exit_status.message = some s ∧ Erases se_option s ∧ Unlocked s

def EnabledSound (se_option : Option String) (disk_name : String) (exit_status : ExitStatus) : Prop :=
  hdparm_check_drive_status pattern_se_enabled disk_name exit_status = .ok () →
    ∃ s, output_secure_items exit_status.message = some s ∧ Erases se_option s ∧ Unlocked s ∧ Enabled s

/-- A pattern that matches what lists all items is sound if the drive can be erased or an item
is missing; and only then, if what has all items is listed. -/
theorem sound_iff {pattern : Pattern Char} {listed mentioned : Prop} (erases rest : Text → Prop)
    (disk_name : String) {exit_status : ExitStatus} (hcode : exit_status.exit_code = 0)
    (hs : output_secure_items exit_status.message = some s) (hmatch : pattern.matchStart s ↔ listed)
    (hmentioned : listed → mentioned) (hrest : listed → rest s) :
    (erases s ∨ ¬ mentioned → hdparm_check_drive_status pattern disk_name exit_status = .ok () →
      ∃ s', output_secure_items exit_status.message = some s' ∧ erases s' ∧ rest s') ∧
    ((mentioned → listed) → ((hdparm_check_drive_status pattern disk_name exit_status = .ok () →
      ∃ s', output_secure_items exit_status.message = some s' ∧ erases s' ∧ rest s') ↔
        erases s ∨ ¬ mentioned)) := by
  have hsound : erases s ∨ ¬ mentioned → hdparm_check_drive_status pattern disk_name exit_status = .ok () →
      ∃ s', output_secure_items exit_status.message = some s' ∧ erases s' ∧ rest s' := by
    intro hcond hpasses
    obtain ⟨_, s', hs', hmatches⟩ := check_eq_ok_iff.mp hpasses
    obtain rfl := Option.some.inj (hs.symm.trans hs')
    have hlisted := hmatch.mp hmatches
    exact ⟨s, hs, hcond.resolve_right (not_not_intro (hmentioned hlisted)), hrest hlisted⟩
  refine ⟨hsound, fun horder => ⟨fun h => or_iff_not_imp_right.mpr fun hall => ?_, hsound⟩⟩
  have hlisted := horder (not_not.mp hall)
  obtain ⟨s', hs', herases, _⟩ := h (check_eq_ok_iff.mpr ⟨hcode, s, hs, hmatch.mpr hlisted⟩)
  obtain rfl := Option.some.inj (hs.symm.trans hs')
  exact herases

/-- What passes is as the comments of the patterns ask for if the drive can be erased as
its section says, or the section lacks an item; and only then, if the items stand in
the order in which hdparm prints them. Without a section nothing passes. -/
theorem hdparm_check_sound_iff (se_option : Option String) (disk_name : String) (exit_status : ExitStatus) :
    (∀ s, exit_status.exit_code = 0 → output_secure_items exit_status.message = some s →
      ((Erases se_option s ∨ ¬ Mentions se_option s → SupportSound se_option disk_name exit_status) ∧
        ((Mentions se_option s → ListsSupport se_option s) → (SupportSound se_option disk_name exit_status ↔
          Erases se_option s ∨ ¬ Mentions se_option s))) ∧
      (Erases se_option s ∨ ¬ MentionsEnabled s → EnabledSound se_option disk_name exit_status) ∧
        ((MentionsEnabled s → ListsEnabled s) → (EnabledSound se_option disk_name exit_status ↔
          Erases se_option s ∨ ¬ MentionsEnabled s))) ∧
    (exit_status.exit_code ≠ 0 ∨ output_secure_items exit_status.message = none →
      SupportSound se_option disk_name exit_status ∧ EnabledSound se_option disk_name exit_status) := by
  constructor
  · intro s hcode hs
    refine ⟨?_, ?_⟩
    · exact sound_iff (Erases se_option) Unlocked disk_name hcode hs support_match_iff
        ListsSupport.mentions Listed.unlocked
    · exact sound_iff (Erases se_option) (fun s => Unlocked s ∧ Enabled s) disk_name hcode hs
        enabled_match_iff ListsEnabled.mentionsEnabled fun h => ⟨h.unlocked, h.enabled⟩
  · intro hnone
    have hfails : ∀ pattern, hdparm_check_drive_status pattern disk_name exit_status ≠ .ok () := by
      intro pattern hpasses
      obtain ⟨hcode, s, hs, _⟩ := check_eq_ok_iff.mp hpasses
      rcases hnone with hne | hnone
      · exact hne hcode
      · simp [hs] at hnone
    exact ⟨fun hpasses => absurd hpasses (hfails _), fun hpasses => absurd hpasses (hfails _)⟩

/-- What is printed for a drive with the given items "enabled" and "supported: enhanced erase". -/
def driveOutput (enabled enhanced : Text) : Text :=
  "Security: \n".toList ++ "\t\tsupported\n".toList ++ enabled ++ "\tnot\tlocked\n".toList ++
    "\tnot\tfrozen\n".toList ++ "\tnot\texpired: ".toList ++ "security count\n".toList ++ enhanced

theorem check_ok_of_any {pattern : Pattern Char} {output : Text} (disk_name : String)
    (h : (output_secure_items output).any pattern.matchStart = true) :
    hdparm_check_drive_status pattern disk_name ⟨0, output⟩ = .ok () := by
  obtain ⟨s, hs, hpasses⟩ := (Option.any_eq_true _ _).mp h
  exact check_eq_ok_iff.mpr ⟨rfl, s, hs, hpasses⟩

/-- A drive with enhanced erase, after its password has been set. -/
theorem hdparm_check_sound_iff_enhanced : ∃ s,
    output_secure_items (driveOutput "\t\tenabled\n".toList "\t\tsupported: enhanced erase\n".toList) = some s ∧
      Erases (some "security-erase-enhanced") s ∧ Unlocked s ∧ Enabled s := by
  have hsound := hdparm_check_sound_iff (some "security-erase-enhanced") "sda"
    ⟨0, driveOutput "\t\tenabled\n".toList "\t\tsupported: enhanced erase\n".toList⟩
  have hall : (output_secure_items (driveOutput "\t\tenabled\n".toList
      "\t\tsupported: enhanced erase\n".toList)).any
      (fun s => Erases (some "security-erase-enhanced") s) = true := by decide +kernel
  obtain ⟨s, hs, herases⟩ := (Option.any_eq_true _ _).mp hall
  refine (hsound.1 s rfl hs).2.1 (.inl (of_decide_eq_true herases)) (check_ok_of_any "sda" ?_)
  decide +kernel

/-- A drive without enhanced erase passes when that is asked for. -/
theorem hdparm_check_passes_basic :
    hdparm_check_drive_status (pattern_se_support (some "security-erase-enhanced")) "sda"
      ⟨0, driveOutput "\tnot\tenabled\n".toList "\tnot\tsupported: enhanced erase\n".toList⟩ = .ok () ∧
    ¬ SupportSound (some "security-erase-enhanced") "sda"
      ⟨0, driveOutput "\tnot\tenabled\n".toList "\tnot\tsupported: enhanced erase\n".toList⟩ := by
  have hpasses : hdparm_check_drive_status (pattern_se_support (some "security-erase-enhanced")) "sda"
      ⟨0, driveOutput "\tnot\tenabled\n".toList "\tnot\tsupported: enhanced erase\n".toList⟩ = .ok () := by
    apply check_ok_of_any
    decide +kernel
  have hnone : (output_secure_items (driveOutput "\tnot\tenabled\n".toList
      "\tnot\tsupported: enhanced erase\n".toList)).all (¬ SupportedEnhanced ·) = true := by decide +kernel
  refine ⟨hpasses, fun hsound => ?_⟩
  obtain ⟨s, hs, herases, _⟩ := hsound hpasses
  have henhanced := herases.2 (by decide)
  rw [hs] at hnone
  simp [henhanced] at hnone

end Patterns

end OnTaskGraph.HdparmStatus
