import OnTaskGraph.JsText
import OnTaskGraph.JsonText

/-! The scripts that turn outputs of the Arista command line into JSON texts: the lines of
`show version`, `show snmp community`, `show snmp group` and `show snmp host`. -/

namespace OnTaskGraph.AristaCatalog

open JsText (Text)

/-- `s.splitlines()` -/
def splitlines : Text → List Text
  | [] => []
  | '\r' :: '\n' :: s => [] :: splitlines s
  | c :: s =>
    if c = '\n' ∨ c = '\r' then [] :: splitlines s
    else
      match splitlines s with
      | [] => [[c]]
      | line :: lines => (c :: line) :: lines

/-- `s.replace(c, w)` -/
def replace (c : Char) (w : Text) (s : Text) : Text := s.flatMap fun d => if d = c then w else [d]

/-- The beginning of all three: blank lines and spaces are removed. -/
def removeBlanks (s : Text) : Text := replace ' ' [] (['\n'].intercalate ((splitlines s).filter (· ≠ [])))

/-- The loop over the lines; `i` is the number of a line. -/
def parse (formatLine : (numLines i : Nat) → Text → Text) (s : Text) : Text :=
  let s := removeBlanks s
  (splitlines s).zipIdx.flatMap fun x => formatLine (s.count '\n') x.2 x.1

/-- A line of the version with its quotes. -/
def versionText (line : Text) : Text :=
  let line := replace ':' ['"', ':'] ('"' :: line)
  let emptyValue := ':' ∉ line
  let line := if emptyValue then '"' :: "Hardwaremodel".toList ++ ['"', ':'] ++ line ++ ['"'] else line
  if [':'] <:+ line then replace ':' [':', '"', '"'] line
  else if emptyValue then line
  else replace ':' [':', '"'] line ++ ['"']

def versionLine (numLines i : Nat) (line : Text) : Text :=
  let line := versionText line
  let line := if i ≠ numLines then line ++ [','] else line
  if i = 0 then '{' :: line else if i = numLines then line ++ ['}'] else line

def parse_version (versionString : Text) : Text := parse versionLine versionString

def snmpLine (numLines i : Nat) (line : Text) : Text :=
  replace ':' ['"', ':', '"'] <|
    if i = 0 then ['{', '"'] ++ line ++ ['"', ',']
    else if i = numLines then '"' :: line ++ ['"', '}']
    else '"' :: line ++ ['"', ',']

def parse_snmp (snmpString : Text) : Text := parse snmpLine snmpString

/-- `s.replace('  ', '\n')` -/
def replaceSpaces : Text → Text
  | ' ' :: ' ' :: s => '\n' :: replaceSpaces s
  | c :: s => c :: replaceSpaces s
  | [] => []

def isdigit (s : Text) : Bool := s ≠ [] && s.all Char.isDigit

def snmpHostLine (value : Text) (numLines i : Nat) (line : Text) : Text :=
  let line :=
    if i = 0 then ['{', '"'] ++ line ++ ['"', ',']
    else if i = numLines then '"' :: line ++ ['"', '}']
    else if isdigit value then '"' :: line ++ [',']
    else '"' :: line ++ ['"', ',']
  if isdigit value then replace ':' ['"', ':'] line else replace ':' ['"', ':', '"'] line

/-- A line without a colon has no value, and fails. -/
def parse_snmp_host (snmpString : Text) : Option Text :=
  let s := removeBlanks (replaceSpaces snmpString)
  let lines := (splitlines s).zipIdx.mapM fun x =>
    (x.1.splitOn ':')[1]?.map fun value => snmpHostLine value (s.count '\n') x.2 x.1
  lines.map List.flatten

/-- Keys and values, without quotes, backslashes, control characters and double blanks. -/
structure Legal (s : Text) : Prop where
  plain : ∀ c ∈ s, JsonText.plain c = true
  single : ¬ [' ', ' '] <:+: s

structure Entry where
  key : Text
  value : Text
  key_ne_nil : key ≠ []
  key_colon : ':' ∉ key
  legal_key : Legal key
  legal_value : Legal value

def Entry.line (e : Entry) : Text := e.key ++ ':' :: e.value

/-- What `show version` prints as a line, with a key or without. -/
inductive VersionLine
  | entry (e : Entry)
  | model (line : Text) (colon : ':' ∉ line) (visible : ∃ c ∈ line, c ≠ ' ') (legal : Legal line)

def VersionLine.line : VersionLine → Text
  | .entry e => e.line
  | .model line .. => line

/-- The lines of an output, apart from empty ones. A line of blanks only is not left out: no
line that the commands print is one, and what the formatters make of it is not stated. -/
def Shows (output : Text) (lines : List Text) : Prop := (splitlines output).filter (· ≠ []) = lines

instance (output : Text) (lines : List Text) : Decidable (Shows output lines) :=
  inferInstanceAs (Decidable (_ = lines))

def unspaced (s : Text) : Text := s.filter (· ≠ ' ')

def Entry.member (e : Entry) : JsonText.Member := (unspaced e.key, .string (unspaced e.value))

def VersionLine.member : VersionLine → JsonText.Member
  | .entry e => e.member
  | .model line .. => ("Hardwaremodel".toList, .string (unspaced line))

def Entry.hostMember (e : Entry) : JsonText.Member :=
  (unspaced e.key, if isdigit (unspaced e.value) then .number (unspaced e.value) else .string (unspaced e.value))

section Lines

theorem replace_nil (c : Char) (w : Text) : replace c w [] = [] := rfl

theorem replace_append (c : Char) (w s t : Text) : replace c w (s ++ t) = replace c w s ++ replace c w t :=
  List.flatMap_append

theorem replace_cons (c d : Char) (w s : Text) :
    replace c w (d :: s) = (if d = c then w else [d]) ++ replace c w s :=
  List.flatMap_cons

theorem replace_of_notMem {c : Char} {w s : Text} (h : c ∉ s) : replace c w s = s := by
  induction s with
  | nil => rfl
  | cons d s ih =>
    rw [List.mem_cons, not_or] at h
    rw [replace_cons, if_neg (Ne.symm h.1), ih h.2, List.singleton_append]

theorem of_mem_replace {c d : Char} {w s : Text} (h : d ∈ replace c w s) : d ∈ w ∨ d ∈ s := by
  obtain ⟨e, he, hd⟩ := List.mem_flatMap.mp h
  split at hd
  · exact .inl hd
  · exact .inr (List.mem_singleton.mp hd ▸ he)

theorem replace_space (s : Text) : replace ' ' [] s = unspaced s := by
  induction s with
  | nil => rfl
  | cons c s ih =>
    rw [replace_cons, ih, unspaced, unspaced, List.filter_cons]
    by_cases hc : c = ' ' <;> simp [hc]

def OneLine (s : Text) : Prop := ∀ c ∈ s, c ≠ '\n' ∧ c ≠ '\r'

theorem splitlines_cons_of_ne {c : Char} (h : c ≠ '\n' ∧ c ≠ '\r') (s : Text) :
    splitlines (c :: s) = (c :: (splitlines s).headD []) :: (splitlines s).tail := by
  rw [splitlines, if_neg (not_or.mpr h)]
  · cases splitlines s <;> rfl
  · intro s' hc
    exact absurd hc h.2

theorem splitlines_newline (s : Text) : splitlines ('\n' :: s) = [] :: splitlines s := by
  rw [splitlines, if_pos (.inl rfl)]
  intro s' hc
  exact absurd hc (by decide)

theorem splitlines_append {line : Text} (h : OneLine line) (s : Text) :
    splitlines (line ++ '\n' :: s) = line :: splitlines s := by
  induction line with
  | nil => exact splitlines_newline s
  | cons c line ih =>
    obtain ⟨hc, hline⟩ := List.forall_mem_cons.mp h
    rw [List.cons_append, splitlines_cons_of_ne hc, ih hline]
    rfl

theorem splitlines_line {line : Text} (h : OneLine line) (hne : line ≠ []) : splitlines line = [line] := by
  induction line with
  | nil => exact absurd rfl hne
  | cons c line ih =>
    obtain ⟨hc, hline⟩ := List.forall_mem_cons.mp h
    rw [splitlines_cons_of_ne hc]
    cases line with
    | nil => rfl
    | cons d line => rw [ih hline (List.cons_ne_nil d line)]; rfl

theorem splitlines_intercalate {lines : List Text} (h : ∀ line ∈ lines, OneLine line ∧ line ≠ []) :
    splitlines (['\n'].intercalate lines) = lines := by
  induction lines with
  | nil => rfl
  | cons line lines ih =>
    obtain ⟨⟨hline, hne⟩, hlines⟩ := List.forall_mem_cons.mp h
    cases lines with
    | nil => rw [List.intercalate_singleton, splitlines_line hline hne]
    | cons line' lines =>
      rw [List.intercalate_cons_cons, List.append_assoc, List.singleton_append, splitlines_append hline,
        ih hlines]

theorem count_intercalate {lines : List Text} (h : ∀ line ∈ lines, OneLine line) :
    (['\n'].intercalate lines).count '\n' = lines.length - 1 := by
  induction lines with
  | nil => rfl
  | cons line lines ih =>
    obtain ⟨hline, hlines⟩ := List.forall_mem_cons.mp h
    have hzero : line.count '\n' = 0 := List.count_eq_zero.mpr fun hmem => (hline _ hmem).1 rfl
    cases lines with
    | nil => rw [List.intercalate_singleton, hzero]; rfl
    | cons line' lines =>
      rw [List.intercalate_cons_cons, List.count_append, List.count_append, hzero, ih hlines]
      simp [Nat.add_comm]

theorem unspaced_intercalate (lines : List Text) :
    unspaced (['\n'].intercalate lines) = ['\n'].intercalate (lines.map unspaced) := by
  induction lines with
  | nil => rfl
  | cons line lines ih =>
    cases lines with
    | nil => rw [List.intercalate_singleton, List.map_singleton, List.intercalate_singleton]
    | cons line' lines =>
      rw [List.map_cons, List.map_cons, List.intercalate_cons_cons, List.intercalate_cons_cons, ← List.map_cons,
        ← ih]
      simp [unspaced, List.filter_append]

def Visible (line : Text) : Prop := OneLine line ∧ unspaced line ≠ []

theorem OneLine.unspaced {line : Text} (h : OneLine line) : OneLine (unspaced line) :=
  fun c hc => h c (List.mem_of_mem_filter hc)

theorem removeBlanks_spec {output : Text} {lines : List Text} (h : Shows output lines)
    (hlines : ∀ line ∈ lines, Visible line) :
    splitlines (removeBlanks output) = lines.map unspaced ∧
      (removeBlanks output).count '\n' = lines.length - 1 := by
  have heq : removeBlanks output = ['\n'].intercalate (lines.map unspaced) := by
    rw [removeBlanks, show (splitlines output).filter (· ≠ []) = lines from h, replace_space,
      unspaced_intercalate]
  have hall : ∀ line ∈ lines.map unspaced, OneLine line ∧ line ≠ [] := by
    intro line hline
    obtain ⟨shown, hshown, rfl⟩ := List.mem_map.mp hline
    exact ⟨(hlines shown hshown).1.unspaced, (hlines shown hshown).2⟩
  rw [heq, splitlines_intercalate hall, count_intercalate fun line hline => (hall line hline).1, List.length_map]
  exact ⟨rfl, rfl⟩

theorem splitlines_return {s : Text} (h : s.head? ≠ some '\n') : splitlines ('\r' :: s) = [] :: splitlines s := by
  rw [splitlines, if_pos (.inr rfl)]
  intro s' _ hs
  exact h (by rw [hs]; rfl)

theorem single_tail {c : Char} {s : Text} (h : ∀ line ∈ splitlines (c :: s), ¬ [' ', ' '] <:+: line) :
    ∀ line ∈ splitlines s, ¬ [' ', ' '] <:+: line := by
  by_cases hnewline : c = '\n'
  · rw [hnewline, splitlines_newline] at h
    exact (List.forall_mem_cons.mp h).2
  by_cases hreturn : c = '\r'
  · subst hreturn
    by_cases hs : s.head? = some '\n'
    · obtain ⟨s', rfl⟩ := List.head?_eq_some_iff.mp hs
      rw [splitlines_newline]
      exact h
    · rw [splitlines_return hs] at h
      exact (List.forall_mem_cons.mp h).2
  · rw [splitlines_cons_of_ne ⟨hnewline, hreturn⟩] at h
    obtain ⟨hhead, htail⟩ := List.forall_mem_cons.mp h
    cases hlines : splitlines s with
    | nil => exact nofun
    | cons line lines =>
      rw [hlines] at hhead htail
      refine List.forall_mem_cons.mpr ⟨?_, htail⟩
      intro hpart
      exact hhead (hpart.trans (List.suffix_cons c line).isInfix)

theorem replaceSpaces_eq {s : Text} (h : ∀ line ∈ splitlines s, ¬ [' ', ' '] <:+: line) :
    replaceSpaces s = s := by
  induction s using replaceSpaces.induct with
  | case1 s =>
    rw [splitlines_cons_of_ne (by decide), splitlines_cons_of_ne (by decide)] at h
    exact absurd (List.prefix_append [' ', ' '] _).isInfix (h _ List.mem_cons_self)
  | case2 c s hne ih => rw [replaceSpaces, ih (single_tail h)]; exact hne
  | case3 => rfl

end Lines

section Items

/-- Two texts that differ where both have a character. -/
def Apart (s t : Text) : Prop := ∃ p c d u v, s = p ++ c :: u ∧ t = p ++ d :: v ∧ c ≠ d

theorem Apart.append {s t : Text} (h : Apart s t) (p u v : Text) : Apart (p ++ s ++ u) (p ++ t ++ v) := by
  obtain ⟨q, c, d, u', v', rfl, rfl, hne⟩ := h
  exact ⟨p ++ q, c, d, u' ++ u, v' ++ v, by simp, by simp, hne⟩

theorem Apart.ne {s t : Text} (h : Apart s t) : s ≠ t := by
  obtain ⟨p, c, d, u, v, rfl, rfl, hne⟩ := h
  intro heq
  exact hne (List.cons.inj (List.append_cancel_left heq)).1

/-- Where pieces are equal or apart, so are the texts that are made of them. -/
theorem flatMap_eq_iff {α : Type*} {f g : α → Text} {Good : α → Prop} {l : List α}
    (h : ∀ x ∈ l, Good x ∧ f x = g x ∨ ¬ Good x ∧ Apart (f x) (g x)) :
    l.flatMap f = l.flatMap g ↔ ∀ x ∈ l, Good x := by
  induction l with
  | nil => exact iff_of_true rfl nofun
  | cons x l ih =>
    obtain ⟨hx, hl⟩ := List.forall_mem_cons.mp h
    rw [List.flatMap_cons, List.flatMap_cons, List.forall_mem_cons, ← ih hl]
    rcases hx with ⟨hgood, heq⟩ | ⟨hbad, hapart⟩
    · rw [heq, List.append_cancel_left_eq]
      exact (and_iff_right hgood).symm
    · refine iff_of_false ?_ fun hboth => hbad hboth.1
      exact (hapart.append [] (l.flatMap f) (l.flatMap g)).ne

def opening (i : Nat) : Text := if i = 0 then ['{'] else []

def closing (n i : Nat) : Text := if i = n then ['}'] else [',']

def item (n i : Nat) (m : JsonText.Member) : Text := opening i ++ JsonText.encodeMember m ++ closing n i

/-- With more than one line, the first is not the last. -/
theorem position_cases {n : Nat} (hn : 0 < n) (i : Nat) :
    (i = 0 ∧ i ≠ n ∧ opening i = ['{'] ∧ closing n i = [',']) ∨
      (i ≠ 0 ∧ i = n ∧ opening i = [] ∧ closing n i = ['}']) ∨
      (i ≠ 0 ∧ i ≠ n ∧ opening i = [] ∧ closing n i = [',']) := by
  unfold opening closing
  by_cases hfirst : i = 0
  · have hlast : i ≠ n := by omega
    rw [if_pos hfirst, if_neg hlast]
    exact .inl ⟨hfirst, hlast, rfl, rfl⟩
  · rw [if_neg hfirst]
    by_cases hlast : i = n
    · rw [if_pos hlast]
      exact .inr (.inl ⟨hfirst, hlast, rfl, rfl⟩)
    · rw [if_neg hlast]
      exact .inr (.inr ⟨hfirst, hlast, rfl, rfl⟩)

theorem flatMap_item {ms : List JsonText.Member} (hne : ms ≠ []) : ∀ k, (ms.zipIdx k).flatMap
    (fun x => item (k + ms.length - 1) x.2 x.1) =
      opening k ++ [','].intercalate (ms.map JsonText.encodeMember) ++ ['}'] := by
  induction ms with
  | nil => exact absurd rfl hne
  | cons m ms ih =>
    intro k
    rw [List.zipIdx_cons, List.flatMap_cons]
    cases ms with
    | nil => simp [item, closing]
    | cons m' ms =>
      have hrest := ih (List.cons_ne_nil m' ms) (k + 1)
      have hopening : opening (k + 1) = [] := if_neg (Nat.succ_ne_zero k)
      have hclosing : closing (k + (m :: m' :: ms).length - 1) k = [','] := by
        apply if_neg
        simp only [List.length_cons]
        omega
      have hlength : k + (m :: m' :: ms).length - 1 = k + 1 + (m' :: ms).length - 1 := by
        simp only [List.length_cons]
        omega
      rw [hlength] at hclosing ⊢
      rw [hrest, item, hclosing, hopening, List.map_cons (l := m' :: ms),
        List.intercalate_cons_of_ne_nil (by simp)]
      simp

theorem encode_eq {ms : List JsonText.Member} (hne : ms ≠ []) :
    JsonText.encode ms = ms.zipIdx.flatMap fun x => item (ms.length - 1) x.2 x.1 := by
  have h := flatMap_item hne 0
  rw [Nat.zero_add] at h
  rw [h]
  rfl

/-- The texts that are made line by line: the object of the members of the lines is
parsed if there are two of them, and each is made into its piece of the object. -/
theorem parses_lines_iff {α : Type*} {lines : List α} {format : Nat → Nat → α → Text}
    {member : α → JsonText.Member}
    (Good : Nat → Nat → α → Prop) (hne : lines ≠ []) (hbare : ∀ n i, ∀ a ∈ lines, JsonText.Bare (format n i a))
    (hsingle : ∀ a ∈ lines, ∃ s c, format 0 0 a = s ++ [c] ∧ c ≠ '}')
    (hgood : ∀ n i, 0 < n → ∀ a ∈ lines,
      Good n i a ∧ format n i a = item n i (member a) ∨
        ¬ Good n i a ∧ Apart (format n i a) (item n i (member a))) :
    JsonText.Parses (lines.zipIdx.flatMap fun x => format (lines.length - 1) x.2 x.1) (lines.map member) ↔
      2 ≤ lines.length ∧ (∀ x ∈ lines.zipIdx, Good (lines.length - 1) x.2 x.1) ∧
        ∀ a ∈ lines, JsonText.Writable (member a) := by
  have hmap : lines.map member ≠ [] := by simpa using hne
  have hall : JsonText.Bare (lines.zipIdx.flatMap fun x => format (lines.length - 1) x.2 x.1) := by
    intro c hc
    obtain ⟨x, hx, hc⟩ := List.mem_flatMap.mp hc
    exact hbare _ _ x.1 (List.fst_mem_of_mem_zipIdx hx) c hc
  rw [JsonText.parses_iff_of_bare hall hmap, List.forall_mem_map]
  by_cases hlength : 2 ≤ lines.length
  · rw [and_iff_right hlength, encode_eq hmap, List.length_map, List.zipIdx_map, List.flatMap_map]
    refine and_congr_left' (flatMap_eq_iff ?_)
    intro x hx
    exact hgood _ _ (by omega) x.1 (List.fst_mem_of_mem_zipIdx hx)
  · -- a single line is not closed
    obtain ⟨a, rfl⟩ : ∃ a, lines = [a] := by
      apply List.length_eq_one_iff.mp
      have hpos := List.length_pos_of_ne_nil hne
      omega
    refine iff_of_false ?_ fun h => hlength h.1
    rintro ⟨heq, _⟩
    obtain ⟨s, c, hs, hc⟩ := hsingle a List.mem_cons_self
    have hlast : s ++ [c] = '{' :: JsonText.encodeMember (member a) ++ ['}'] := by
      rw [← hs]
      simpa [JsonText.encode] using heq
    have hchar := congrArg List.getLast? hlast
    rw [List.getLast?_concat, List.getLast?_concat] at hchar
    exact hc (Option.some.inj hchar)

end Items

section Formats

variable {k v : Text}

theorem string_eq : JsonText.encodeMember (k, .string v) = '"' :: k ++ '"' :: ':' :: '"' :: v ++ ['"'] := by
  simp [JsonText.encodeMember, JsonText.encodeValue]

theorem number_eq : JsonText.encodeMember (k, .number v) = '"' :: k ++ '"' :: ':' :: v := rfl

/-- A quote inside the string is not its character. -/
theorem apart_inside (p q u : Text) :
    Apart ('"' :: k ++ '"' :: ':' :: '"' :: p ++ '"' :: u)
      (JsonText.encodeMember (k, .string (p ++ ':' :: q))) := by
  refine ⟨'"' :: k ++ '"' :: ':' :: '"' :: p, '"', ':', u, q ++ ['"'], rfl, ?_, by decide⟩
  rw [string_eq]
  simp

theorem versionText_eq (hk : ':' ∉ k) : versionText (k ++ ':' :: v) =
    if [':'] <:+ '"' :: k ++ '"' :: ':' :: replace ':' ['"', ':'] v then
      '"' :: k ++ '"' :: ':' :: '"' :: '"' :: replace ':' [':', '"', '"'] (replace ':' ['"', ':'] v)
    else '"' :: k ++ '"' :: ':' :: '"' :: replace ':' [':', '"'] (replace ':' ['"', ':'] v) ++ ['"'] := by
  have hquoted : replace ':' ['"', ':'] ('"' :: (k ++ ':' :: v)) =
      '"' :: k ++ '"' :: ':' :: replace ':' ['"', ':'] v := by
    simp [replace_cons, replace_append, replace_of_notMem hk]
  have hcolon : ¬ ':' ∉ '"' :: k ++ '"' :: ':' :: replace ':' ['"', ':'] v := by simp
  rw [versionText]
  simp only [hquoted, if_neg hcolon]
  congr 1 <;> simp [replace_cons, replace_append, replace_of_notMem hk]

theorem versionText_single (hk : ':' ∉ k) (hv : ':' ∉ v) :
    versionText (k ++ ':' :: v) = JsonText.encodeMember (k, .string v) := by
  rw [versionText_eq hk, replace_of_notMem hv, replace_of_notMem hv, replace_of_notMem hv, string_eq]
  by_cases hempty : v = []
  · subst hempty
    rw [if_pos ⟨'"' :: k ++ ['"'], by simp⟩]
    simp
  · apply if_neg
    rw [List.singleton_suffix_iff_getLast?_eq_some]
    intro hlast
    rw [show '"' :: k ++ '"' :: ':' :: v = ('"' :: k ++ ['"', ':']) ++ v by simp,
      List.getLast?_append_of_ne_nil _ hempty] at hlast
    exact hv (List.mem_of_getLast? hlast)

theorem versionText_apart (hk : ':' ∉ k) (hv : ':' ∈ v) (hquote : '"' ∉ v) :
    Apart (versionText (k ++ ':' :: v)) (JsonText.encodeMember (k, .string v)) := by
  rw [versionText_eq hk]
  split
  · rw [string_eq]
    cases v with
    | nil => exact absurd hv List.not_mem_nil
    | cons d v =>
      have hne : '"' ≠ d := fun h => hquote (List.mem_cons.mpr (.inl h))
      exact ⟨'"' :: k ++ ['"', ':', '"'], '"', d, _, v ++ ['"'], by simp; rfl, by simp, hne⟩
  · obtain ⟨p, q, rfl, hp⟩ := List.eq_append_cons_of_mem hv
    have htwice : replace ':' [':', '"'] (replace ':' ['"', ':'] (p ++ ':' :: q)) =
        p ++ '"' :: ':' :: '"' :: replace ':' [':', '"'] (replace ':' ['"', ':'] q) := by
      simp [replace_cons, replace_append, replace_of_notMem hp]
    rw [htwice]
    simpa using apart_inside (k := k) p q
      (':' :: '"' :: replace ':' [':', '"'] (replace ':' ['"', ':'] q) ++ ['"'])

theorem versionText_model {line : Text} (h : ':' ∉ line) :
    versionText line = JsonText.encodeMember ("Hardwaremodel".toList, .string line) := by
  have hquoted : replace ':' ['"', ':'] ('"' :: line) = '"' :: line := by
    simp [replace_cons, replace_of_notMem h]
  have hcolon : ':' ∉ '"' :: line := by simpa using h
  rw [versionText, string_eq]
  simp only [hquoted, if_pos hcolon]
  rw [if_neg]
  · simp
  · rw [List.singleton_suffix_iff_getLast?_eq_some, List.getLast?_concat]
    decide

theorem versionLine_eq {n i : Nat} (hn : 0 < n) (line : Text) :
    versionLine n i line = opening i ++ versionText line ++ closing n i := by
  unfold versionLine
  rcases position_cases hn i with ⟨hfirst, _, hopen, hclose⟩ | ⟨_, hlast, hopen, hclose⟩ |
    ⟨hfirst, hlast, hopen, hclose⟩
  · rw [hopen, hclose]
    simp [hfirst, hn.ne]
  · rw [hopen, hclose]
    simp [hlast, hn.ne']
  · rw [hopen, hclose]
    simp [hfirst, hlast]

def quoted (k v : Text) : Text := '"' :: k ++ '"' :: ':' :: '"' :: replace ':' ['"', ':', '"'] v ++ ['"']

theorem snmpLine_eq {n i : Nat} (hn : 0 < n) (hk : ':' ∉ k) :
    snmpLine n i (k ++ ':' :: v) = opening i ++ quoted k v ++ closing n i := by
  unfold snmpLine quoted
  rcases position_cases hn i with ⟨hfirst, _, hopen, hclose⟩ | ⟨_, hlast, hopen, hclose⟩ |
    ⟨hfirst, hlast, hopen, hclose⟩
  · rw [hopen, hclose]
    simp [hfirst, replace_append, replace_cons, replace_nil, replace_of_notMem hk]
  · rw [hopen, hclose]
    simp [hlast, hn.ne', replace_append, replace_cons, replace_nil, replace_of_notMem hk]
  · rw [hopen, hclose]
    simp [hfirst, hlast, replace_append, replace_cons, replace_nil, replace_of_notMem hk]

theorem quoted_single (hv : ':' ∉ v) : quoted k v = JsonText.encodeMember (k, .string v) := by
  rw [quoted, replace_of_notMem hv, string_eq]

theorem quoted_apart (hv : ':' ∈ v) : Apart (quoted k v) (JsonText.encodeMember (k, .string v)) := by
  obtain ⟨p, q, rfl, hp⟩ := List.eq_append_cons_of_mem hv
  have hvalue : replace ':' ['"', ':', '"'] (p ++ ':' :: q) =
      p ++ '"' :: ':' :: '"' :: replace ':' ['"', ':', '"'] q := by
    simp [replace_append, replace_cons, replace_of_notMem hp]
  rw [quoted, hvalue]
  simpa using apart_inside (k := k) p q (':' :: '"' :: replace ':' ['"', ':', '"'] q ++ ['"'])

/-- The value that is looked at ends with the second colon. -/
theorem splitOn_value (hk : ':' ∉ k) : ((k ++ ':' :: v).splitOn ':')[1]? = some (v.takeWhile (· ≠ ':')) := by
  rw [List.splitOn_append_cons_self, List.splitOn_eq_singleton hk]
  by_cases hv : ':' ∈ v
  · obtain ⟨p, q, rfl, hp⟩ := List.eq_append_cons_of_mem hv
    rw [List.splitOn_append_cons_self, List.splitOn_eq_singleton hp]
    have htake : (p ++ ':' :: q).takeWhile (· ≠ ':') = p := by
      rw [List.takeWhile_append_of_pos fun c hc => decide_eq_true (ne_of_mem_of_not_mem hc hp)]
      simp
    rw [htake]
    rfl
  · rw [List.splitOn_eq_singleton hv, List.takeWhile_eq_self_iff.mpr fun c hc =>
      decide_eq_true (ne_of_mem_of_not_mem hc hv)]
    rfl

theorem snmpHostLine_string {value : Text} {n i : Nat} (hn : 0 < n) (hk : ':' ∉ k)
    (hvalue : isdigit value = false) :
    snmpHostLine value n i (k ++ ':' :: v) = opening i ++ quoted k v ++ closing n i := by
  rw [← snmpLine_eq hn hk, snmpHostLine, snmpLine]
  simp only [hvalue, Bool.false_eq_true, if_false]

theorem snmpHostLine_number {value : Text} {n i : Nat} (hn : 0 < n) (hk : ':' ∉ k)
    (hvalue : isdigit value = true) :
    snmpHostLine value n i (k ++ ':' :: v) =
      opening i ++ ('"' :: k ++ '"' :: ':' :: replace ':' ['"', ':'] v ++ if i = 0 ∨ i = n then ['"'] else []) ++
        closing n i := by
  unfold snmpHostLine
  simp only [hvalue, if_true]
  rcases position_cases hn i with ⟨hfirst, _, hopen, hclose⟩ | ⟨_, hlast, hopen, hclose⟩ |
    ⟨hfirst, hlast, hopen, hclose⟩
  · rw [hopen, hclose]
    simp [hfirst, hn.ne, replace_append, replace_cons, replace_nil, replace_of_notMem hk]
  · rw [hopen, hclose]
    simp [hlast, hn.ne', replace_append, replace_cons, replace_nil, replace_of_notMem hk]
  · rw [hopen, hclose]
    simp [hfirst, hlast, replace_append, replace_cons, replace_nil, replace_of_notMem hk]

theorem isdigit_of_colon (hv : ':' ∈ v) : isdigit v = false := by
  apply Bool.eq_false_iff.mpr
  intro hdigits
  have hcolon := List.all_eq_true.mp (Bool.and_eq_true_iff.mp hdigits).2 ':' hv
  exact absurd hcolon (by decide)

theorem snmpHostLine_apart {n i : Nat} (hn : 0 < n) (hk : ':' ∉ k) (hquote : '"' ∉ v) (hv : ':' ∈ v) :
    Apart (snmpHostLine (v.takeWhile (· ≠ ':')) n i (k ++ ':' :: v)) (item n i (k, .string v)) := by
  rw [item]
  by_cases hvalue : isdigit (v.takeWhile (· ≠ ':')) = true
  · -- a digit stands in place of the quote
    rw [snmpHostLine_number hn hk hvalue]
    apply Apart.append
    rw [string_eq]
    cases v with
    | nil => exact absurd hv List.not_mem_nil
    | cons d v =>
      have hd : d ≠ ':' := by
        rintro rfl
        simp [isdigit] at hvalue
      have hne : d ≠ '"' := fun h => hquote (List.mem_cons.mpr (.inl h.symm))
      exact ⟨'"' :: k ++ ['"', ':'], d, '"', _, d :: v ++ ['"'], by simp [replace_cons, hd]; rfl, by simp, hne⟩
  · rw [snmpHostLine_string hn hk (by simpa using hvalue)]
    exact (quoted_apart hv).append _ _ _

/-- A number is followed by a quote in the first and in the last line. -/
theorem snmpHostLine_end {n i : Nat} (hn : 0 < n) (hk : ':' ∉ k) (hv : ':' ∉ v) (hdigits : isdigit v = true)
    (hend : i = 0 ∨ i = n) : Apart (snmpHostLine v n i (k ++ ':' :: v)) (item n i (k, .number v)) := by
  rw [snmpHostLine_number hn hk hdigits, if_pos hend, replace_of_notMem hv, item, number_eq]
  have hclosing : ∃ d, closing n i = [d] ∧ '"' ≠ d := by
    unfold closing
    split
    · exact ⟨'}', rfl, by decide⟩
    · exact ⟨',', rfl, by decide⟩
  obtain ⟨d, hd, hne⟩ := hclosing
  exact ⟨opening i ++ ('"' :: k ++ '"' :: ':' :: v), '"', d, [d], [], by simp [hd], by simp [hd], hne⟩

/-- A number is one for the object if it has no colon and stands neither first nor last. -/
theorem snmpHostLine_spec {n i : Nat} (hn : 0 < n) (hk : ':' ∉ k) (hquote : '"' ∉ v) :
    (':' ∉ v ∧ (isdigit v = true → i ≠ 0 ∧ i ≠ n)) ∧
        snmpHostLine (v.takeWhile (· ≠ ':')) n i (k ++ ':' :: v) =
          item n i (k, if isdigit v then .number v else .string v) ∨
      ¬ (':' ∉ v ∧ (isdigit v = true → i ≠ 0 ∧ i ≠ n)) ∧
        Apart (snmpHostLine (v.takeWhile (· ≠ ':')) n i (k ++ ':' :: v))
          (item n i (k, if isdigit v then .number v else .string v)) := by
  by_cases hv : ':' ∈ v
  · right
    refine ⟨fun h => h.1 hv, ?_⟩
    rw [isdigit_of_colon hv, if_neg Bool.false_ne_true]
    exact snmpHostLine_apart hn hk hquote hv
  · have hvalue : v.takeWhile (· ≠ ':') = v :=
      List.takeWhile_eq_self_iff.mpr fun c hc => decide_eq_true (ne_of_mem_of_not_mem hc hv)
    rw [hvalue]
    by_cases hdigits : isdigit v = true
    · rw [if_pos hdigits]
      by_cases hend : i = 0 ∨ i = n
      · right
        refine ⟨fun h => not_or.mpr (h.2 hdigits) hend, ?_⟩
        exact snmpHostLine_end hn hk hv hdigits hend
      · left
        refine ⟨⟨hv, fun _ => not_or.mp hend⟩, ?_⟩
        rw [snmpHostLine_number hn hk hdigits, if_neg hend, replace_of_notMem hv, List.append_nil]
        rfl
    · left
      refine ⟨⟨hv, fun h => absurd h hdigits⟩, ?_⟩
      rw [snmpHostLine_string hn hk (by simpa using hdigits), if_neg hdigits, quoted_single hv]
      rfl

theorem versionText_last (line : Text) : ∃ s, versionText line = s ++ ['"'] := by
  have hsuffix : ∀ text : Text, [':'] <:+ text → ∃ s, replace ':' [':', '"', '"'] text = s ++ ['"'] := by
    rintro _ ⟨s, rfl⟩
    exact ⟨replace ':' [':', '"', '"'] s ++ [':', '"'], by simp [replace_append, replace_cons, replace_nil]⟩
  unfold versionText
  dsimp only
  split_ifs with _ hcolon hcolon
  · exact hsuffix _ hcolon
  · exact ⟨_, rfl⟩
  · exact hsuffix _ hcolon
  · exact ⟨_, rfl⟩

theorem versionLine_only (line : Text) : ∃ s c, versionLine 0 0 line = s ++ [c] ∧ c ≠ '}' := by
  obtain ⟨s, hs⟩ := versionText_last line
  exact ⟨'{' :: s, '"', by simp [versionLine, hs], by decide⟩

theorem snmpLine_only (line : Text) : ∃ s c, snmpLine 0 0 line = s ++ [c] ∧ c ≠ '}' := by
  refine ⟨replace ':' ['"', ':', '"'] (['{', '"'] ++ line ++ ['"']), ',', ?_, by decide⟩
  simp [snmpLine, replace_append, replace_cons, replace_nil]

theorem snmpHostLine_only (value line : Text) : ∃ s c, snmpHostLine value 0 0 line = s ++ [c] ∧ c ≠ '}' := by
  by_cases hvalue : isdigit value = true
  · refine ⟨replace ':' ['"', ':'] (['{', '"'] ++ line ++ ['"']), ',', ?_, by decide⟩
    simp [snmpHostLine, hvalue, replace_append, replace_cons, replace_nil]
  · refine ⟨replace ':' ['"', ':', '"'] (['{', '"'] ++ line ++ ['"']), ',', ?_, by decide⟩
    simp [snmpHostLine, hvalue, replace_append, replace_cons, replace_nil]

theorem bare_replace {c : Char} {w s : Text} (hw : JsonText.Bare w) (hs : JsonText.Bare s) :
    JsonText.Bare (replace c w s) :=
  fun d hd => (of_mem_replace hd).elim (hw d) (hs d)

theorem bare_snmpLine {line : Text} (h : JsonText.Bare line) (n i : Nat) : JsonText.Bare (snmpLine n i line) := by
  unfold snmpLine
  apply bare_replace
  · simp [JsonText.bare_cons, JsonText.bare_nil, JsonText.whitespace]
  · split_ifs <;> simp [JsonText.bare_append, JsonText.bare_cons, JsonText.bare_nil, JsonText.whitespace, h]

theorem bare_snmpHostLine {line : Text} (h : JsonText.Bare line) (value : Text) (n i : Nat) :
    JsonText.Bare (snmpHostLine value n i line) := by
  unfold snmpHostLine
  dsimp only
  split_ifs <;> apply bare_replace <;>
    simp [JsonText.bare_append, JsonText.bare_cons, JsonText.bare_nil, JsonText.whitespace, h]

theorem bare_model : JsonText.Bare "Hardwaremodel".toList := by
  have h : ("Hardwaremodel".toList.all fun c => JsonText.whitespace c = false && c ≠ '\\') = true := by
    decide +kernel
  intro c hc
  simpa using List.all_eq_true.mp h c hc

theorem bare_versionLine {line : Text} (h : JsonText.Bare line) (n i : Nat) :
    JsonText.Bare (versionLine n i line) := by
  have hquoted : JsonText.Bare (replace ':' ['"', ':'] ('"' :: line)) := by
    apply bare_replace <;> simp [JsonText.bare_cons, JsonText.bare_nil, JsonText.whitespace, h]
  have hmodel : JsonText.Bare
      ('"' :: "Hardwaremodel".toList ++ ['"', ':'] ++ replace ':' ['"', ':'] ('"' :: line) ++ ['"']) := by
    refine JsonText.bare_append.mpr ⟨JsonText.bare_append.mpr ⟨JsonText.bare_append.mpr ⟨?_, ?_⟩, hquoted⟩, ?_⟩
    · exact JsonText.bare_cons.mpr ⟨by decide, bare_model⟩
    · simp [JsonText.bare_cons, JsonText.bare_nil, JsonText.whitespace]
    · simp [JsonText.bare_cons, JsonText.bare_nil, JsonText.whitespace]
  have hmarks : JsonText.Bare [':', '"', '"'] ∧ JsonText.Bare [':', '"'] ∧ JsonText.Bare ['"'] := by
    simp [JsonText.bare_cons, JsonText.bare_nil, JsonText.whitespace]
  have htext : JsonText.Bare (versionText line) := by
    unfold versionText
    dsimp only
    split_ifs
    · exact bare_replace hmarks.1 hquoted
    · exact JsonText.bare_append.mpr ⟨bare_replace hmarks.2.1 hquoted, hmarks.2.2⟩
    · exact bare_replace hmarks.1 hmodel
    · exact hmodel
  unfold versionLine
  dsimp only
  split_ifs <;> simp [JsonText.bare_append, JsonText.bare_cons, JsonText.bare_nil, JsonText.whitespace, htext]

end Formats

section Outputs

theorem mem_unspaced {c : Char} {s : Text} : c ∈ unspaced s ↔ c ∈ s ∧ c ≠ ' ' := by
  simp [unspaced]

theorem notMem_unspaced {c : Char} {s : Text} (h : c ∉ s) : c ∉ unspaced s := fun hc => h (mem_unspaced.mp hc).1

theorem Legal.oneLine {s : Text} (h : Legal s) : OneLine s := by
  intro c hc
  have hplain := h.plain c hc
  constructor <;> rintro rfl <;> exact absurd hplain (by decide)

theorem Legal.bare {s : Text} (h : Legal s) : JsonText.Bare (unspaced s) := by
  intro c hc
  obtain ⟨hmem, hspace⟩ := mem_unspaced.mp hc
  have hplain := h.plain c hmem
  have hline := h.oneLine c hmem
  have htab : c ≠ '\t' := by
    rintro rfl
    exact absurd hplain (by decide)
  have hslash : c ≠ '\\' := by
    rintro rfl
    exact absurd hplain (by decide)
  refine ⟨?_, hslash⟩
  simp [JsonText.whitespace, hspace, htab, hline]

theorem Legal.plain_unspaced {s : Text} (h : Legal s) : ∀ c ∈ unspaced s, JsonText.plain c = true :=
  fun c hc => h.plain c (mem_unspaced.mp hc).1

theorem Legal.quote {s : Text} (h : Legal s) : '"' ∉ s := by
  intro hc
  exact absurd (h.plain _ hc) (by decide)

theorem Entry.unspaced_line (e : Entry) : unspaced e.line = unspaced e.key ++ ':' :: unspaced e.value := by
  simp [Entry.line, unspaced]

theorem Entry.visible (e : Entry) : Visible e.line := by
  constructor
  · intro c hc
    rcases List.mem_append.mp hc with hc | hc
    · exact e.legal_key.oneLine c hc
    · rcases List.mem_cons.mp hc with rfl | hc
      · decide
      · exact e.legal_value.oneLine c hc
  · rw [e.unspaced_line]
    simp

theorem Entry.bare (e : Entry) : JsonText.Bare (unspaced e.line) := by
  rw [e.unspaced_line]
  exact JsonText.bare_append.mpr ⟨e.legal_key.bare, JsonText.bare_cons.mpr ⟨by decide, e.legal_value.bare⟩⟩

theorem Entry.writable (e : Entry) : JsonText.Writable e.member :=
  ⟨e.legal_key.plain_unspaced, e.legal_value.plain_unspaced⟩

theorem VersionLine.visible : ∀ l : VersionLine, Visible l.line
  | .entry e => e.visible
  | .model line _ visible legal => by
    refine ⟨legal.oneLine, ?_⟩
    obtain ⟨c, hc, hspace⟩ := visible
    exact List.ne_nil_of_mem (mem_unspaced.mpr ⟨hc, hspace⟩)

theorem VersionLine.bare : ∀ l : VersionLine, JsonText.Bare (unspaced l.line)
  | .entry e => e.bare
  | .model _ _ _ legal => legal.bare

theorem VersionLine.writable : ∀ l : VersionLine, JsonText.Writable l.member
  | .entry e => e.writable
  | .model _ _ _ legal => by
    refine ⟨?_, legal.plain_unspaced⟩
    have h : ("Hardwaremodel".toList.all JsonText.plain) = true := by decide +kernel
    exact List.all_eq_true.mp h

variable {α : Type*} {output : Text} {lines : List α} {line : α → Text}

theorem shown_lines (h : Shows output (lines.map line)) (hvisible : ∀ a, Visible (line a)) :
    (splitlines (removeBlanks output)).zipIdx = lines.zipIdx.map (fun x => (unspaced (line x.1), x.2)) ∧
      (removeBlanks output).count '\n' = lines.length - 1 := by
  obtain ⟨hlines, hcount⟩ := removeBlanks_spec h (List.forall_mem_map.mpr fun a _ => hvisible a)
  refine ⟨?_, by rw [hcount, List.length_map]⟩
  rw [hlines, List.map_map, List.zipIdx_map]
  rfl

theorem parse_eq (formatLine : Nat → Nat → Text → Text) (h : Shows output (lines.map line))
    (hvisible : ∀ a, Visible (line a)) :
    parse formatLine output =
      lines.zipIdx.flatMap fun x => formatLine (lines.length - 1) x.2 (unspaced (line x.1)) := by
  obtain ⟨hlines, hcount⟩ := shown_lines h hvisible
  rw [parse]
  simp only [hlines, hcount, List.flatMap_map]

theorem forall_zipIdx {P : α → Prop} : (∀ x ∈ lines.zipIdx, P x.1) ↔ ∀ a ∈ lines, P a := by
  rw [← List.forall_mem_map (f := Prod.fst), List.zipIdx_map_fst]

theorem versionLine_spec (l : VersionLine) {n i : Nat} (hn : 0 < n) :
    (∀ e, l = .entry e → ':' ∉ e.value) ∧ versionLine n i (unspaced l.line) = item n i l.member ∨
      ¬ (∀ e, l = .entry e → ':' ∉ e.value) ∧ Apart (versionLine n i (unspaced l.line)) (item n i l.member) := by
  rw [versionLine_eq hn, item]
  cases l with
  | entry e =>
    have hkey := notMem_unspaced e.key_colon
    rw [show (VersionLine.entry e).line = e.line from rfl, e.unspaced_line]
    by_cases hvalue : ':' ∈ e.value
    · right
      refine ⟨fun h => h e rfl hvalue, ?_⟩
      have hapart :=
        versionText_apart hkey (mem_unspaced.mpr ⟨hvalue, by decide⟩) (notMem_unspaced e.legal_value.quote)
      exact hapart.append _ _ _
    · left
      refine ⟨?_, by rw [versionText_single hkey (notMem_unspaced hvalue)]; rfl⟩
      rintro _ ⟨⟩
      exact hvalue
  | model line colon =>
    left
    refine ⟨nofun, ?_⟩
    rw [VersionLine.line, versionText_model (notMem_unspaced colon)]
    rfl

theorem parse_version_iff {lines : List VersionLine} (hne : lines ≠ [])
    (h : Shows output (lines.map VersionLine.line)) :
    JsonText.Parses (parse_version output) (lines.map VersionLine.member) ↔
      2 ≤ lines.length ∧ ∀ e, .entry e ∈ lines → ':' ∉ e.value := by
  rw [parse_version, parse_eq versionLine h VersionLine.visible,
    parses_lines_iff (fun _ _ l => ∀ e, l = VersionLine.entry e → ':' ∉ e.value) hne
      (fun n i l _ => bare_versionLine l.bare n i) (fun l _ => versionLine_only _)
      fun n i hn l _ => versionLine_spec l hn]
  have hwritable : ∀ l ∈ lines, JsonText.Writable l.member := fun l _ => l.writable
  rw [forall_zipIdx (P := fun l => ∀ e, l = VersionLine.entry e → ':' ∉ e.value), and_iff_left hwritable]
  refine and_congr_right' ⟨fun hall e he => hall _ he e rfl, ?_⟩
  rintro hall _ hl e rfl
  exact hall e hl

theorem snmpLine_spec (e : Entry) {n i : Nat} (hn : 0 < n) :
    ':' ∉ e.value ∧ snmpLine n i (unspaced e.line) = item n i e.member ∨
      ¬ ':' ∉ e.value ∧ Apart (snmpLine n i (unspaced e.line)) (item n i e.member) := by
  rw [e.unspaced_line, snmpLine_eq hn (notMem_unspaced e.key_colon), item]
  by_cases hvalue : ':' ∈ e.value
  · right
    refine ⟨fun h => h hvalue, ?_⟩
    exact (quoted_apart (mem_unspaced.mpr ⟨hvalue, by decide⟩)).append _ _ _
  · left
    refine ⟨hvalue, ?_⟩
    rw [quoted_single (notMem_unspaced hvalue)]
    rfl

theorem parse_snmp_iff {entries : List Entry} (hne : entries ≠ []) (h : Shows output (entries.map Entry.line)) :
    JsonText.Parses (parse_snmp output) (entries.map Entry.member) ↔
      2 ≤ entries.length ∧ ∀ e ∈ entries, ':' ∉ e.value := by
  rw [parse_snmp, parse_eq snmpLine h Entry.visible,
    parses_lines_iff (fun _ _ e => ':' ∉ e.value) hne (fun n i e _ => bare_snmpLine e.bare n i)
      (fun e _ => snmpLine_only _) fun n i hn e _ => snmpLine_spec e hn]
  have hwritable : ∀ e ∈ entries, JsonText.Writable e.member := fun e _ => e.writable
  rw [forall_zipIdx (P := fun e : Entry => ':' ∉ e.value), and_iff_left hwritable]

theorem single_append {s t : Text} {c : Char} (hs : ¬ [' ', ' '] <:+: s) (ht : ¬ [' ', ' '] <:+: t)
    (hc : c ≠ ' ') :
    ¬ [' ', ' '] <:+: s ++ c :: t := by
  induction s with
  | nil =>
    rw [List.nil_append, List.infix_cons_iff]
    rintro (hfront | hpart)
    · exact hc (List.cons_prefix_cons.mp hfront).1.symm
    · exact ht hpart
  | cons d s ih =>
    rw [List.cons_append, List.infix_cons_iff]
    rintro (hfront | hpart)
    · obtain ⟨rfl, hnext⟩ := List.cons_prefix_cons.mp hfront
      cases s with
      | nil => exact hc (List.cons_prefix_cons.mp hnext).1.symm
      | cons d s =>
        obtain ⟨rfl, _⟩ := List.cons_prefix_cons.mp hnext
        exact hs (List.prefix_append [' ', ' '] s).isInfix
    · exact ih (fun h => hs (h.trans (List.suffix_cons d s).isInfix)) hpart

theorem Entry.single (e : Entry) : ¬ [' ', ' '] <:+: e.line :=
  single_append e.legal_key.single e.legal_value.single (by decide)

theorem replaceSpaces_shown {entries : List Entry} (h : Shows output (entries.map Entry.line)) :
    replaceSpaces output = output := by
  apply replaceSpaces_eq
  intro line hline
  by_cases hempty : line = []
  · rw [hempty]
    decide
  · have hshown : line ∈ entries.map Entry.line := by
      rw [← show (splitlines output).filter (· ≠ []) = entries.map Entry.line from h]
      exact List.mem_filter.mpr ⟨hline, by simpa using hempty⟩
    obtain ⟨e, _, rfl⟩ := List.mem_map.mp hshown
    exact e.single

theorem mapM_some {β : Type*} {f : α → Option β} {g : α → β} (h : ∀ a ∈ lines, f a = some (g a)) :
    lines.mapM f = some (lines.map g) := by
  induction lines with
  | nil => rfl
  | cons a lines ih =>
    obtain ⟨ha, hlines⟩ := List.forall_mem_cons.mp h
    rw [List.mapM_cons, ha, ih hlines]
    rfl

def Entry.hostText (e : Entry) (n i : Nat) : Text :=
  snmpHostLine ((unspaced e.value).takeWhile (· ≠ ':')) n i (unspaced e.line)

theorem parse_snmp_host_eq {entries : List Entry} (h : Shows output (entries.map Entry.line)) :
    parse_snmp_host output =
      some (entries.zipIdx.flatMap fun x => x.1.hostText (entries.length - 1) x.2) := by
  obtain ⟨hlines, hcount⟩ := shown_lines h Entry.visible
  rw [parse_snmp_host, replaceSpaces_shown h]
  simp only [hlines, hcount]
  rw [List.mapM_map, mapM_some (g := fun x => x.1.hostText (entries.length - 1) x.2)]
  · rw [Option.map_some, List.flatMap_def]
  · intro x _
    dsimp only [Function.comp_apply]
    rw [Entry.hostText, x.1.unspaced_line, splitOn_value (notMem_unspaced x.1.key_colon), Option.map_some]

theorem hostText_spec (e : Entry) {n i : Nat} (hn : 0 < n) :
    (':' ∉ e.value ∧ (isdigit (unspaced e.value) = true → i ≠ 0 ∧ i ≠ n)) ∧
      e.hostText n i = item n i e.hostMember ∨
      ¬ (':' ∉ e.value ∧ (isdigit (unspaced e.value) = true → i ≠ 0 ∧ i ≠ n)) ∧
        Apart (e.hostText n i) (item n i e.hostMember) := by
  have hcolon : ':' ∉ unspaced e.value ↔ ':' ∉ e.value := by simp [mem_unspaced]
  rw [Entry.hostText, e.unspaced_line, ← hcolon]
  exact snmpHostLine_spec hn (notMem_unspaced e.key_colon) (notMem_unspaced e.legal_value.quote)

theorem Entry.writable_host (e : Entry) : JsonText.Writable e.hostMember ↔
    (isdigit (unspaced e.value) = true → unspaced e.value = ['0'] ∨ (unspaced e.value).head? ≠ some '0') := by
  rw [Entry.hostMember, JsonText.Writable, and_iff_right e.legal_key.plain_unspaced]
  by_cases hdigits : isdigit (unspaced e.value) = true
  · have hnumber : JsonText.Digits (unspaced e.value) := by
      obtain ⟨hne, hall⟩ := Bool.and_eq_true_iff.mp hdigits
      exact ⟨by simpa using hne, List.all_eq_true.mp hall⟩
    rw [if_pos hdigits, JsonText.Value.Writable, JsonText.numeral_iff hnumber]
    exact (imp_iff_right hdigits).symm
  · rw [if_neg hdigits]
    exact iff_of_true e.legal_value.plain_unspaced fun h => absurd h hdigits

theorem parse_snmp_host_iff {entries : List Entry} (hne : entries ≠ [])
    (h : Shows output (entries.map Entry.line)) :
    (∃ text, parse_snmp_host output = some text ∧ JsonText.Parses text (entries.map Entry.hostMember)) ↔
      2 ≤ entries.length ∧ (∀ e ∈ entries, ':' ∉ e.value) ∧
        ∀ i e, entries[i]? = some e → isdigit (unspaced e.value) = true →
          0 < i ∧ i + 1 < entries.length ∧ (unspaced e.value = ['0'] ∨ (unspaced e.value).head? ≠ some '0') := by
  rw [parse_snmp_host_eq h]
  simp only [Option.some.injEq, exists_eq_left']
  have hbare : ∀ n i, ∀ e ∈ entries, JsonText.Bare (e.hostText n i) :=
    fun n i e _ => bare_snmpHostLine e.bare _ n i
  have honly : ∀ e ∈ entries, ∃ s c, e.hostText 0 0 = s ++ [c] ∧ c ≠ '}' := fun e _ => snmpHostLine_only _ _
  rw [parses_lines_iff (fun n i e => ':' ∉ e.value ∧ (isdigit (unspaced e.value) = true → i ≠ 0 ∧ i ≠ n))
    hne hbare honly fun n i hn e _ => hostText_spec e hn]
  refine and_congr_right fun hlength => ⟨?_, ?_⟩
  · rintro ⟨hgood, hwritable⟩
    refine ⟨forall_zipIdx.mp fun x hx => (hgood x hx).1, ?_⟩
    intro i e he hdigits
    obtain ⟨hfirst, hlast⟩ := (hgood (e, i) (List.mk_mem_zipIdx_iff_getElem?.mpr he)).2 hdigits
    have hlt := (List.getElem?_eq_some_iff.mp he).1
    refine ⟨by omega, ?_, e.writable_host.mp (hwritable e (List.mem_of_getElem? he)) hdigits⟩
    change i ≠ entries.length - 1 at hlast
    omega
  · rintro ⟨hcolon, hnumber⟩
    constructor
    · intro x hx
      refine ⟨forall_zipIdx.mpr hcolon x hx, ?_⟩
      intro hdigits
      obtain ⟨hfirst, hlast, _⟩ := hnumber x.2 x.1 (List.mk_mem_zipIdx_iff_getElem?.mp hx) hdigits
      omega
    · intro e he
      obtain ⟨i, hi⟩ := List.getElem?_of_mem he
      exact e.writable_host.mpr fun hdigits => (hnumber i e hi hdigits).2.2

end Outputs

/-- Each of the three gives a text of the object of its lines if and only if there are two
lines and no value has a colon, and for hosts, where digits only stand neither first nor
last, and without a 0 in front. -/
theorem arista_json_iff (output : Text) :
    (∀ lines : List VersionLine, lines ≠ [] → Shows output (lines.map VersionLine.line) →
      (JsonText.Parses (parse_version output) (lines.map VersionLine.member) ↔
        2 ≤ lines.length ∧ ∀ e, .entry e ∈ lines → ':' ∉ e.value)) ∧
    ∀ entries : List Entry, entries ≠ [] → Shows output (entries.map Entry.line) →
      (JsonText.Parses (parse_snmp output) (entries.map Entry.member) ↔
        2 ≤ entries.length ∧ ∀ e ∈ entries, ':' ∉ e.value) ∧
      ((∃ text, parse_snmp_host output = some text ∧ JsonText.Parses text (entries.map Entry.hostMember)) ↔
        2 ≤ entries.length ∧ (∀ e ∈ entries, ':' ∉ e.value) ∧
          ∀ i e, entries[i]? = some e → isdigit (unspaced e.value) = true →
            0 < i ∧ i + 1 < entries.length ∧
              (unspaced e.value = ['0'] ∨ (unspaced e.value).head? ≠ some '0')) := by
  refine ⟨fun lines hne h => parse_version_iff hne h, fun entries hne h => ⟨?_, ?_⟩⟩
  · exact parse_snmp_iff hne h
  · exact parse_snmp_host_iff hne h

theorem Legal.of_check {s : Text} (h : (s.all JsonText.plain && !decide ([' ', ' '] <:+: s)) = true) :
    Legal s := by
  obtain ⟨hplain, hsingle⟩ := Bool.and_eq_true_iff.mp h
  exact ⟨List.all_eq_true.mp hplain, by simpa using hsingle⟩

def host : Entry where
  key := "host".toList
  value := " mgmt".toList
  key_ne_nil := by decide
  key_colon := by decide
  legal_key := .of_check (by decide +kernel)
  legal_value := .of_check (by decide +kernel)

def port : Entry where
  key := "udp-port".toList
  value := " 162".toList
  key_ne_nil := by decide
  key_colon := by decide
  legal_key := .of_check (by decide +kernel)
  legal_value := .of_check (by decide +kernel)

/-- The number stands between the other lines. -/
theorem arista_json_iff_port :
    JsonText.Parses (parse_version "host: mgmt\nudp-port: 162\n".toList) [host.member, port.member] ∧
      ∃ text, parse_snmp_host "host: mgmt\nudp-port: 162\nhost: mgmt\n".toList = some text ∧
        JsonText.Parses text [host.hostMember, port.hostMember, host.hostMember] := by
  constructor
  · apply ((arista_json_iff _).1 [.entry host, .entry port] (by simp) (by decide +kernel)).mpr
    refine ⟨by decide, ?_⟩
    intro e he
    simp only [List.mem_cons, VersionLine.entry.injEq, List.not_mem_nil, or_false] at he
    rcases he with rfl | rfl <;> decide
  · apply ((arista_json_iff _).2 [host, port, host] (by simp) (by decide +kernel)).2.mpr
    refine ⟨by decide, by decide, ?_⟩
    intro i e he hdigits
    have hword : ¬ isdigit (unspaced host.value) = true := by decide +kernel
    match i, he with
    | 0, rfl => exact absurd hdigits hword
    | 1, rfl => exact ⟨by decide, by decide, .inr (by decide +kernel)⟩
    | 2, rfl => exact absurd hdigits hword

theorem arista_json_single : Shows "host: mgmt\n".toList [host.line] ∧
    ¬ JsonText.Parses (parse_version "host: mgmt\n".toList) [host.member] ∧
      ¬ JsonText.Parses (parse_snmp "host: mgmt\n".toList) [host.member] ∧
        ¬ ∃ text, parse_snmp_host "host: mgmt\n".toList = some text ∧ JsonText.Parses text [host.hostMember] := by
  have hshows : Shows "host: mgmt\n".toList [host.line] := by decide +kernel
  refine ⟨hshows, ?_, ?_, ?_⟩
  · intro h
    have hne : [VersionLine.entry host] ≠ [] := by simp
    exact absurd ((parse_version_iff hne hshows).mp h).1 (by decide)
  · intro h
    have hne : [host] ≠ [] := by simp
    exact absurd ((parse_snmp_iff hne hshows).mp h).1 (by decide)
  · intro h
    have hne : [host] ≠ [] := by simp
    exact absurd ((parse_snmp_host_iff hne hshows).mp h).1 (by decide)

end OnTaskGraph.AristaCatalog
