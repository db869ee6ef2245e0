import Mathlib.Algebra.Order.Ring.Unbundled.Rat
import OnTaskGraph.JsText
import OnTaskGraph.Sorting

/-! `swaggerController` with a sort parameter: the comparison that it sorts the
elements of a result by, and when the response is sorted. -/

namespace OnTaskGraph

namespace SortedResponse

open JsText Sorting

/-- The value of a property; any other than a string or a finite number is given by
its conversion to a string. -/
inductive Value
  | string (s : Text)
  | number (x : Decimal)
  | other (text : Text)

abbrev Object := Text → Option Value

structure Element where
  fields : Object
  /-- What `toJSON()` returns, where the element has the method. -/
  toJSON : Option Object

inductive Failure
  | typeError

structure SortParams where
  sortBy : Text
  dsc : Bool
  deriving DecidableEq

/-- `query.raw.match(/([-+]{0,1})(.+)/)`; no match ends in an error. -/
def sortQuery (raw : Text) : Option SortParams :=
  match (raw.dropWhile lineTerminator).takeWhile (!lineTerminator ·) with
  | [] => none
  | c :: rest =>
    if (c = '-' ∨ c = '+') ∧ rest ≠ [] then some ⟨trim rest, c = '-'⟩ else some ⟨trim (c :: rest), false⟩

def sortByAny {κ : Type} [LT κ] [DecidableLT κ] (field : Text) (reverse : Bool)
    (primer : Option Value → Except Failure κ) (a b : Object) : Except Failure Int := do
  let a ← primer (a field)
  let b ← primer (b field)
  pure ((if reverse then -1 else 1) * ((if b < a then 1 else 0) - if a < b then 1 else 0))

/-- `a.toUpperCase()`, compared by code units. -/
def upper (toUpperCase : Text → Text) : Option Value → Except Failure (List Nat)
  | some (.string s) => .ok (codeUnits (toUpperCase s))
  | _ => .error .typeError

def text : Option Value → Text
  | none => "undefined".toList
  | some (.string s) | some (.other s) => s
  | some (.number x) => x.toString

def parse (value : Option Value) : Except Failure ParsedInt := .ok (parseInt (text value))

def Element.json (x : Element) : Object := x.toJSON.getD x.fields

/-- Whether `typeof` of the field is `'string'` in the last element, as `toSort.type` tells. -/
def lastIsString (field : Text) (result : List Element) : Bool :=
  match result.getLast?.bind fun element => element.fields field with
  | some (.string _) => true
  | _ => false

/-- `sort` is the method of arrays, `result` the array that the callback has returned. -/
def swaggerController (sort : (Object → Object → Except Failure Int) → List Object → Except Failure (List Object))
    (toUpperCase : Text → Text) (raw : Option Text) (result : List Element) : Except Failure (List Object) :=
  let body := result.map Element.json
  match raw.filter (· ≠ []) with
  | none => .ok body
  | some raw =>
    match sortQuery raw with
    | none => .error .typeError
    | some toSort =>
      if lastIsString toSort.sortBy result then sort (sortByAny toSort.sortBy toSort.dsc (upper toUpperCase)) body
      else sort (sortByAny toSort.sortBy toSort.dsc parse) body

/-! What a sorted response is. -/

/-- A sign, or none, and the name of a field, which may have blanks around it. -/
structure SortParameter where
  sign : Option Char
  before : Text
  field : Text
  after : Text
  signed : ∀ c ∈ sign, c = '-' ∨ c = '+'
  unsigned : sign = none → ∀ c ∈ (before ++ field).head?, c ≠ '-' ∧ c ≠ '+'
  nonempty : field ≠ []
  oneLine : ∀ c ∈ before ++ field ++ after, lineTerminator c = false
  blanks : ∀ c ∈ before ++ after, blank c = true
  head : ∀ c ∈ field.head?, blank c = false
  last : ∀ c ∈ field.getLast?, blank c = false

namespace SortParameter

def raw (p : SortParameter) : Text := p.sign.toList ++ (p.before ++ p.field ++ p.after)

def descending (p : SortParameter) : Bool := p.sign = some '-'

end SortParameter

/-- Strings are compared case-insensitively, numbers by their values. -/
def Value.less (toUpperCase : Text → Text) : Value → Value → Prop
  | .string s, .string t => codeUnits (toUpperCase s) < codeUnits (toUpperCase t)
  | .number x, .number y => x.value < y.value
  | _, _ => False

def Precedes (toUpperCase : Text → Text) (descending : Bool) (v w : Value) : Prop :=
  if descending then w.less toUpperCase v else v.less toUpperCase w

/-- The response has the elements of `body`, and those that have the field are in order. -/
def Sorted (toUpperCase : Text → Text) (descending : Bool) (field : Text) (body : List Object)
    (response : Except Failure (List Object)) : Prop :=
  ∃ ys, response = .ok ys ∧ ys.Perm body ∧
    ys.Pairwise fun x y => ∀ v ∈ x field, ∀ w ∈ y field, ¬ Precedes toUpperCase descending w v

/-- What the elements must be for a sorted response. -/
def Sortable (toUpperCase : Text → Text) (field : Text) (result : List Element) : Prop :=
  let body := result.map Element.json
  result.length ≤ 1 ∨
    if lastIsString field result then ∀ x ∈ body, ∃ s, x field = some (.string s)
    else (∀ x ∈ body, ∀ y ∈ body, ∀ v ∈ x field, ∀ w ∈ y field, ¬ v.less toUpperCase w) ∨
      (∀ x ∈ body, ∃ n, parseInt (text (x field)) = .number n) ∧
        ∀ x ∈ body, ∀ y ∈ body, ∀ v ∈ x field, ∀ w ∈ y field, v.less toUpperCase w →
          parseInt (text v) < parseInt (text w)

section Query

theorem trim_blanks {before field after : Text} (hne : field ≠ [])
    (hblanks : ∀ c ∈ before ++ after, blank c = true)
    (hhead : ∀ c ∈ field.head?, blank c = false) (hlast : ∀ c ∈ field.getLast?, blank c = false) :
    trim (before ++ field ++ after) = field := by
  have hbefore : ∀ c ∈ before, blank c = true := fun c hc => hblanks c (List.mem_append_left _ hc)
  have hafter : ∀ c ∈ after, blank c = true := fun c hc => hblanks c (List.mem_append_right _ hc)
  obtain ⟨c, rest, rfl⟩ := List.exists_cons_of_ne_nil hne
  have hdrop : (before ++ (c :: rest) ++ after).dropWhile blank = c :: rest ++ after := by
    rw [List.append_assoc, List.dropWhile_append_of_pos hbefore, List.cons_append,
      List.dropWhile_cons_of_neg (by simpa using hhead c rfl)]
  have hlast' : blank ((c :: rest).getLast hne) = false := hlast _ (List.getLast?_eq_some_getLast hne)
  rw [trim, hdrop, List.rdropWhile, List.reverse_append, List.dropWhile_append_of_pos (by simpa using hafter)]
  obtain ⟨d, init, hrev⟩ := List.exists_cons_of_ne_nil (List.reverse_ne_nil_iff.mpr hne)
  have hd : blank d = false := by
    have hget : (c :: rest).getLast hne = d := by
      rw [← List.head_reverse (by simp)]
      simp [hrev]
    exact hget ▸ hlast'
  rw [hrev, List.dropWhile_cons_of_neg (by simpa using hd), ← hrev, List.reverse_reverse]

theorem takeWhile_line {s : Text} (h : ∀ c ∈ s, lineTerminator c = false) :
    (s.dropWhile lineTerminator).takeWhile (!lineTerminator ·) = s := by
  cases s with
  | nil => rfl
  | cons c s =>
    rw [List.dropWhile_cons_of_neg (by simpa using h c List.mem_cons_self)]
    exact List.takeWhile_eq_self_iff.mpr (by simpa using h)

theorem SortParameter.sortQuery_raw (p : SortParameter) : sortQuery p.raw = some ⟨p.field, p.descending⟩ := by
  have htrim := trim_blanks p.nonempty p.blanks p.head p.last
  have hsign : ∀ c ∈ p.sign.toList, lineTerminator c = false := by
    intro c hc
    rcases p.signed c (by simpa using hc) with rfl | rfl <;> rfl
  have hline : (p.raw.dropWhile lineTerminator).takeWhile (!lineTerminator ·) = p.raw := by
    refine takeWhile_line fun c hc => ?_
    rcases List.mem_append.mp hc with hc | hc
    · exact hsign c hc
    · exact p.oneLine c hc
  have hne : p.before ++ p.field ++ p.after ≠ [] := by simp [p.nonempty]
  obtain ⟨c, rest, hname⟩ := List.exists_cons_of_ne_nil hne
  rw [hname] at htrim
  rw [sortQuery, hline, SortParameter.raw, SortParameter.descending, hname]
  cases hs : p.sign with
  | some sign =>
    have h := p.signed sign hs
    simp [h, htrim]
  | none =>
    have hc : c ≠ '-' ∧ c ≠ '+' := by
      refine p.unsigned hs c ?_
      have hhead : (p.before ++ p.field ++ p.after).head? = _ :=
        List.head?_append_of_ne_nil _ (by simp [p.nonempty])
      rw [← hhead, hname]
      rfl
    simp [hc, htrim]

end Query

section Comparison

variable {κ : Type} [LT κ] [DecidableLT κ] {field : Text} {reverse : Bool}
  {primer : Option Value → Except Failure κ} {toUpperCase : Text → Text} {body : List Object}

theorem sortByAny_eq_ok {a b : Object} {n : Int} (h : sortByAny field reverse primer a b = .ok n) :
    (∃ k, primer (a field) = .ok k) ∧ ∃ k, primer (b field) = .ok k := by
  unfold sortByAny at h
  cases ha : primer (a field) with
  | error e => simp [ha, bind, Except.bind] at h
  | ok ka =>
    cases hb : primer (b field) with
    | error e => simp [ha, hb, bind, Except.bind] at h
    | ok kb => exact ⟨⟨ka, rfl⟩, ⟨kb, rfl⟩⟩

theorem sortByAny_sign (reverse : Bool) {a b : Object} {ka kb : κ} (ha : primer (a field) = .ok ka)
    (hb : primer (b field) = .ok kb) (hasymm : ka < kb → ¬ kb < ka) :
    ∃ n, sortByAny field reverse primer a b = .ok n ∧
      (0 < n ↔ if reverse then ka < kb else kb < ka) ∧ (n < 0 ↔ if reverse then kb < ka else ka < kb) := by
  have heq : sortByAny field reverse primer a b =
      .ok ((if reverse then -1 else 1) * ((if kb < ka then 1 else 0) - if ka < kb then 1 else 0)) := by
    simp only [sortByAny, ha, hb, bind, Except.bind, pure, Except.pure]
  refine ⟨_, heq, ?_⟩
  by_cases hab : ka < kb
  · have hba := hasymm hab
    cases reverse <;> simp [hab, hba]
  · by_cases hba : kb < ka
    · cases reverse <;> simp [hab, hba]
    · cases reverse <;> simp [hab, hba]

theorem sortByAny_consistent {ν : Type} [LinearOrder ν] (key : Object → κ) (rank : κ → ν)
    (hkey : ∀ x ∈ body, primer (x field) = .ok (key x))
    (hrank : ∀ x ∈ body, ∀ y ∈ body, key x < key y ↔ rank (key x) < rank (key y)) :
    Consistent (sortByAny field reverse primer) body := by
  have hsign : ∀ x ∈ body, ∀ y ∈ body, ∃ n, sortByAny field reverse primer x y = .ok n ∧
      (0 < n ↔ if reverse then rank (key x) < rank (key y) else rank (key y) < rank (key x)) ∧
      (n < 0 ↔ if reverse then rank (key y) < rank (key x) else rank (key x) < rank (key y)) := by
    intro x hx y hy
    obtain ⟨n, hn, hpos, hneg⟩ := sortByAny_sign reverse (hkey x hx) (hkey y hy) (by
      rw [hrank x hx y hy, hrank y hy x hx]
      exact lt_asymm)
    rw [hrank x hx y hy, hrank y hy x hx] at hpos hneg
    exact ⟨n, hn, hpos, hneg⟩
  cases reverse with
  | false => exact consistent_of_key (fun x => rank (key x)) (by simpa using hsign)
  | true => exact consistent_of_key (fun x => OrderDual.toDual (rank (key x))) (by simpa using hsign)

theorem sorted_of_agree {ν : Type} [LinearOrder ν] (key : Object → κ) (rank : κ → ν)
    {sort : (Object → Object → Except Failure Int) → List Object → Except Failure (List Object)}
    (hsort : Conforms sort) (hkey : ∀ x ∈ body, primer (x field) = .ok (key x))
    (hrank : ∀ x ∈ body, ∀ y ∈ body, key x < key y ↔ rank (key x) < rank (key y))
    (hagree : ∀ x ∈ body, ∀ y ∈ body, ∀ v ∈ x field, ∀ w ∈ y field, v.less toUpperCase w → key x < key y) :
    Sorted toUpperCase reverse field body (sort (sortByAny field reverse primer) body) := by
  have hc : Consistent (sortByAny field reverse primer) body := sortByAny_consistent key rank hkey hrank
  obtain ⟨ys, hys⟩ := hsort.returns hc.returns
  have hperm := hsort.perm hys
  refine ⟨ys, hys, hperm, (hsort.inOrder hc hys).imp_of_mem fun {x y} hx hy hxy v hv w hw hprec => ?_⟩
  have hx := hperm.mem_iff.mp hx
  have hy := hperm.mem_iff.mp hy
  obtain ⟨n, hn, hle⟩ := hxy
  obtain ⟨n', hn', hpos, _⟩ := sortByAny_sign reverse (hkey x hx) (hkey y hy) (by
    rw [hrank x hx y hy, hrank y hy x hx]
    exact lt_asymm)
  obtain rfl : n = n' := Except.ok.inj (hn.symm.trans hn')
  have hafter : 0 < n := by
    rw [hpos]
    cases reverse with
    | false => exact hagree y hy x hx w hw v hv hprec
    | true => exact hagree x hx y hy v hv w hw hprec
  omega

end Comparison

theorem Value.less_irrefl (toUpperCase : Text → Text) (v : Value) : ¬ v.less toUpperCase v := by
  cases v with
  | string s => exact lt_irrefl (codeUnits (toUpperCase s))
  | number x => exact lt_irrefl x.value
  | other t => exact id

section Main

variable {toUpperCase : Text → Text} {field : Text} {descending : Bool} {body : List Object}

theorem sorted_short {response : Except Failure (List Object)} (hshort : body.length ≤ 1)
    (h : response = .ok body) : Sorted toUpperCase descending field body response := by
  refine ⟨body, h, .refl _, ?_⟩
  match body, hshort with
  | [], _ => exact .nil
  | [x], _ => exact List.pairwise_singleton _ x

/-- If all implementations sort, two elements in the order of their values are compared so. -/
theorem parsed_of_sorted
    (h : ∀ sort, Conforms sort →
      Sorted toUpperCase descending field body (sort (sortByAny field descending parse) body))
    {x y : Object} (hx : x ∈ body) (hy : y ∈ body) {v w : Value} (hv : v ∈ x field) (hw : w ∈ y field)
    (hless : v.less toUpperCase w) : Consistent (sortByAny field descending parse) body ∧
      parseInt (text (x field)) < parseInt (text (y field)) := by
  by_contra hnot
  have hne : x ≠ y := by
    rintro rfl
    obtain rfl : v = w := Option.some.inj (hv.symm.trans hw)
    exact Value.less_irrefl _ _ hless
  have hreturns : Returns (sortByAny field descending parse) body := fun a _ b _ => ⟨_, rfl⟩
  -- the pair that is in the wrong order, for either direction
  let p := if descending then (x, y) else (y, x)
  have hsub : [p.1, p.2].Subperm body := by
    cases descending with
    | false => exact List.subperm_of_subset (by simp [p, hne.symm]) (by simp [p, hx, hy])
    | true => exact List.subperm_of_subset (by simp [p, hne]) (by simp [p, hx, hy])
  have hlevel : Consistent (sortByAny field descending parse) body →
      ∀ n, sortByAny field descending parse p.1 p.2 = .ok n → n ≤ 0 := by
    intro hc n hn
    have hkey : ¬ parseInt (text (x field)) < parseInt (text (y field)) := fun hlt => hnot ⟨hc, hlt⟩
    have hparse : ∀ o : Object, parse (o field) = .ok (parseInt (text (o field))) := fun _ => rfl
    obtain ⟨n', hn', hpos, _⟩ := sortByAny_sign descending (hparse p.1) (hparse p.2) ParsedInt.lt_asymm
    obtain rfl : n = n' := Except.ok.inj (hn.symm.trans hn')
    by_contra h0
    have hlt := hpos.mp (by omega)
    cases descending with
    | false => exact hkey hlt
    | true => exact hkey hlt
  obtain ⟨sort, hsort, ys, hys, hpair⟩ := exists_conforming hreturns hsub hlevel
  obtain ⟨ys', hys', _, hsorted⟩ := h sort hsort
  obtain rfl : ys = ys' := Except.ok.inj (hys.symm.trans hys')
  have hwrong := List.pairwise_pair.mp (hsorted.sublist hpair)
  cases descending with
  | false => exact hwrong w hw v hv hless
  | true => exact hwrong v hv w hw hless

theorem swaggerController_raw
    (sort : (Object → Object → Except Failure Int) → List Object → Except Failure (List Object))
    (toUpperCase : Text → Text) (p : SortParameter) (result : List Element) :
    swaggerController sort toUpperCase (some p.raw) result =
      if lastIsString p.field result then
        sort (sortByAny p.field p.descending (upper toUpperCase)) (result.map Element.json)
      else sort (sortByAny p.field p.descending parse) (result.map Element.json) := by
  have hne : p.raw ≠ [] := by simp [SortParameter.raw, p.nonempty]
  have hraw : (some p.raw).filter (· ≠ []) = some p.raw := Option.filter_some_pos (by simpa using hne)
  simp only [swaggerController, hraw, p.sortQuery_raw]

theorem upper_eq_ok {value : Option Value} {k : List Nat} (h : upper toUpperCase value = .ok k) :
    ∃ s, value = some (.string s) := by
  unfold upper at h
  split at h
  · exact ⟨_, rfl⟩
  · simp at h

/-- A sort that returns has called the primer for every element of two or more. -/
theorem strings_of_sorted
    {sort : (Object → Object → Except Failure Int) → List Object → Except Failure (List Object)}
    {ys : List Object} (hsort : Conforms sort) (hlong : 2 ≤ body.length)
    (h : sort (sortByAny field descending (upper toUpperCase)) body = .ok ys) :
    ∀ x ∈ body, ∃ s, x field = some (.string s) := by
  intro x hx
  obtain ⟨y, hy, n, hxy | hyx⟩ := hsort.compares hlong h x hx
  · obtain ⟨k, hk⟩ := (sortByAny_eq_ok hxy).1
    exact upper_eq_ok hk
  · obtain ⟨k, hk⟩ := (sortByAny_eq_ok hyx).2
    exact upper_eq_ok hk

theorem sorted_of_level
    {sort : (Object → Object → Except Failure Int) → List Object → Except Failure (List Object)}
    (hsort : Conforms sort)
    (h : ∀ x ∈ body, ∀ y ∈ body, ∀ v ∈ x field, ∀ w ∈ y field, ¬ v.less toUpperCase w) :
    Sorted toUpperCase descending field body (sort (sortByAny field descending parse) body) := by
  have hreturns : Returns (sortByAny field descending parse) body := fun a _ b _ => ⟨_, rfl⟩
  obtain ⟨ys, hys⟩ := hsort.returns hreturns
  have hperm := hsort.perm hys
  refine ⟨ys, hys, hperm, List.pairwise_of_forall_mem_list fun x hx y hy v hv w hw hprec => ?_⟩
  have hx := hperm.mem_iff.mp hx
  have hy := hperm.mem_iff.mp hy
  cases descending with
  | false => exact h y hy x hx w hw v hv hprec
  | true => exact h x hx y hy v hv w hw hprec

theorem sorted_of_strings
    {sort : (Object → Object → Except Failure Int) → List Object → Except Failure (List Object)}
    (hsort : Conforms sort) (hstrings : ∀ x ∈ body, ∃ s, x field = some (.string s)) :
    Sorted toUpperCase descending field body (sort (sortByAny field descending (upper toUpperCase)) body) := by
  let key := fun x : Object => match x field with
    | some (.string s) => codeUnits (toUpperCase s)
    | _ => []
  refine sorted_of_agree key id hsort (fun x hx => ?_) (fun x _ y _ => Iff.rfl) ?_
  · obtain ⟨s, hs⟩ := hstrings x hx
    simp [key, upper, hs]
  · intro x hx y hy v hv w hw hless
    obtain ⟨s, hs⟩ := hstrings x hx
    obtain ⟨t, ht⟩ := hstrings y hy
    obtain rfl : Value.string s = v := Option.some.inj (hs.symm.trans hv)
    obtain rfl : Value.string t = w := Option.some.inj (ht.symm.trans hw)
    simp only [key, hs, ht]
    exact hless

theorem sorted_of_numbers
    {sort : (Object → Object → Except Failure Int) → List Object → Except Failure (List Object)}
    (hsort : Conforms sort) (hnumbers : ∀ x ∈ body, ∃ n, parseInt (text (x field)) = .number n)
    (hagree : ∀ x ∈ body, ∀ y ∈ body, ∀ v ∈ x field, ∀ w ∈ y field, v.less toUpperCase w →
      parseInt (text v) < parseInt (text w)) :
    Sorted toUpperCase descending field body (sort (sortByAny field descending parse) body) := by
  let rank := fun x : ParsedInt => match x with
    | .number n => n
    | .nan => 0
  refine sorted_of_agree (fun x => parseInt (text (x field))) rank hsort (fun x _ => rfl) ?_ ?_
  · intro x hx y hy
    obtain ⟨m, hm⟩ := hnumbers x hx
    obtain ⟨n, hn⟩ := hnumbers y hy
    simp only [hm, hn, rank]
    exact ParsedInt.number_lt_number
  · intro x hx y hy v hv w hw hless
    have hlt := hagree x hx y hy v hv w hw hless
    rwa [← hv, ← hw] at hlt

/-- What `parseInt` does not read is level with everything, which a consistent comparison
of different elements excludes. -/
theorem number_of_consistent {x y z : Object} (hc : Consistent (sortByAny field descending parse) body)
    (hx : x ∈ body) (hy : y ∈ body) (hz : z ∈ body)
    (hlt : parseInt (text (x field)) < parseInt (text (y field))) :
    ∃ n, parseInt (text (z field)) = .number n := by
  cases hparse : parseInt (text (z field)) with
  | number n => exact ⟨n, rfl⟩
  | nan =>
    have hnan : ∀ u, sortByAny field descending parse z u = .ok 0 := by
      intro u
      simp [sortByAny, parse, hparse, ParsedInt.not_nan_lt, ParsedInt.not_lt_nan, bind, Except.bind,
        pure, Except.pure]
    have hxy := hc.level hx hy hz (hnan x) (hnan y)
    have hkey : ∀ o : Object, parse (o field) = .ok (parseInt (text (o field))) := fun _ => rfl
    obtain ⟨n, hn, hpos, hneg⟩ := sortByAny_sign descending (hkey x) (hkey y) ParsedInt.lt_asymm
    obtain rfl : 0 = n := Except.ok.inj (hxy.symm.trans hn)
    cases descending with
    | false => simp [hlt] at hneg
    | true => simp [hlt] at hpos

/-- Every implementation of `sort` gives a sorted response just if the last element
tells the type of all the others, and `parseInt` their order. -/
theorem sorted_response_iff (toUpperCase : Text → Text) (p : SortParameter) (result : List Element) :
    (∀ sort, Conforms sort → Sorted toUpperCase p.descending p.field (result.map Element.json)
      (swaggerController sort toUpperCase (some p.raw) result)) ↔ Sortable toUpperCase p.field result := by
  have hlength : (result.map Element.json).length = result.length := List.length_map Element.json
  simp only [swaggerController_raw]
  unfold Sortable
  by_cases hstring : lastIsString p.field result = true
  · simp only [if_pos hstring]
    constructor
    · intro h
      by_cases hshort : result.length ≤ 1
      · exact Or.inl hshort
      · obtain ⟨ys, hys, _⟩ := h _ (arranging_conforms [])
        exact Or.inr (strings_of_sorted (arranging_conforms []) (by omega) hys)
    · rintro (hshort | hstrings) sort hsort
      · exact sorted_short (by omega) (hsort.short (by omega))
      · exact sorted_of_strings hsort hstrings
  · simp only [if_neg hstring]
    constructor
    · intro h
      by_cases hlevel : ∀ x ∈ result.map Element.json, ∀ y ∈ result.map Element.json, ∀ v ∈ x p.field,
          ∀ w ∈ y p.field, ¬ v.less toUpperCase w
      · exact Or.inr (Or.inl hlevel)
      · push Not at hlevel
        obtain ⟨x, hx, y, hy, v, hv, w, hw, hless⟩ := hlevel
        refine Or.inr (Or.inr ⟨fun z hz => ?_, fun x hx y hy v hv w hw hless => ?_⟩)
        · obtain ⟨hc, hlt⟩ := parsed_of_sorted h hx hy hv hw hless
          exact number_of_consistent hc hx hy hz hlt
        · have hlt := (parsed_of_sorted h hx hy hv hw hless).2
          rwa [hv, hw] at hlt
    · rintro (hshort | hlevel | ⟨hnumbers, hagree⟩) sort hsort
      · exact sorted_short (by omega) (hsort.short (by omega))
      · exact sorted_of_level hsort hlevel
      · exact sorted_of_numbers hsort hnumbers hagree

def byName : SortParameter where
  sign := some '+'
  before := []
  field := "name".toList
  after := []
  signed := by simp
  unsigned := by simp
  nonempty := by decide
  oneLine := by simp [lineTerminator]
  blanks := by simp
  head := by simp [blank]
  last := by simp [blank]

/-- An element without the field makes `toUpperCase` throw. -/
theorem sorted_response_lacking :
    let toUpperCase : Text → Text := List.map Char.toUpper
    let named : Object := fun field => if field = "name".toList then some (.string "node".toList) else none
    let result : List Element := [⟨fun _ => none, none⟩, ⟨named, none⟩]
    (∃ sort, Conforms (ε := Failure) (α := Object) sort) ∧ ∀ sort, Conforms sort →
      ¬ Sorted toUpperCase byName.descending byName.field (result.map Element.json)
        (swaggerController sort toUpperCase (some byName.raw) result) := by
  intro toUpperCase named result
  refine ⟨⟨_, arranging_conforms []⟩, fun sort hsort ⟨ys, hys, _⟩ => ?_⟩
  have hlast : lastIsString byName.field result = true := rfl
  rw [swaggerController_raw, if_pos hlast] at hys
  obtain ⟨s, hs⟩ :=
    strings_of_sorted hsort (by simp [result]) hys (fun _ => none) (by simp [result, Element.json])
  simp at hs

end Main

end SortedResponse

end OnTaskGraph
