import Mathlib.Data.Int.ConditionallyCompleteOrder
import Mathlib.Data.List.TakeWhile
import Mathlib.Tactic.Linarith
import OnTaskGraph.Tiling

/-! The pagination links of a list request. A request and its links speak of
positions in the collection; a link that is followed is a new request. -/

namespace OnTaskGraph

structure Request where
  url : String
  skip : Option Int
  top : Option Int
  deriving DecidableEq

structure Link where
  uriBase : String
  skip : Int
  top : Int
  deriving DecidableEq

/-- `last` is none for the link with `$skip=NaN` that `$top=0` gives. -/
structure Links where
  first : Link
  last : Option Link
  prev : Option Link
  next : Option Link
  deriving DecidableEq

def Request.uriBase (req : Request) : String := String.ofList (req.url.toList.takeWhile (· != '?'))

def Link.format (l : Link) : String :=
  l.uriBase ++ "?$skip=" ++ toString l.skip ++ "&$top=" ++ toString l.top

def Link.request (l : Link) : Request := ⟨l.format, some l.skip, some l.top⟩

/-- `Math.ceil(count / top)`. -/
def ceilDiv (count top : Int) : Int := -((-count).fdiv top)

def lastSkip (count skip top : Int) : Option Int :=
  if skip + top = count then some skip
  -- (Infinity - 1) * 0 is NaN
  else if top = 0 then none
  else some ((ceilDiv count top - 1) * top)

/-- The links once `skip` and `top` have their defaults. -/
def linksOf (uriBase : String) (count skip top : Int) : Links where
  first := ⟨uriBase, 0, if skip ≠ 0 ∧ skip < top then skip else top⟩
  last := (lastSkip count skip top).map fun s => ⟨uriBase, s, top⟩
  prev :=
    if skip = 0 then none
    else if skip < top then some ⟨uriBase, 0, skip⟩
    else some ⟨uriBase, skip - top, top⟩
  next :=
    if (lastSkip count skip top).any (skip < ·) then some ⟨uriBase, skip + top, top⟩ else none

def Request.start (req : Request) : Int := req.skip.getD 0

def Request.size (req : Request) (count : Int) : Int := req.top.getD (count - req.start)

def addLinksHeader (req : Request) (count : Int) : Option Links :=
  if (req.skip = none ∧ req.top = none) ∨ req.top.any (count ≤ ·) then none
  else some (linksOf req.uriBase count req.start (req.size count))

/-! The windows that a client sees which follows the links. -/

theorem addLinksHeader_of_lt (url : String) (skip : Int) {count top : Int} (h : top < count) :
    addLinksHeader ⟨url, some skip, some top⟩ count =
      some (linksOf (Request.uriBase ⟨url, some skip, some top⟩) count skip top) := by
  simp [addLinksHeader, Request.start, Request.size, h]

theorem addLinksHeader_of_le {url : String} {count skip top : Int} (h : count ≤ top) :
    addLinksHeader ⟨url, some skip, some top⟩ count = none := by
  simp [addLinksHeader, h]

theorem ceilDiv_bounds (count : Int) {top : Int} (htop : 0 < top) :
    (ceilDiv count top - 1) * top < count ∧ count ≤ ceilDiv count top * top := by
  have hdiv : (-count).fdiv top = -count / top := Int.fdiv_eq_ediv_of_nonneg _ htop.le
  have hle : -count / top * top ≤ -count := Int.ediv_mul_le _ htop.ne'
  have hlt : -count < (-count / top + 1) * top := Int.lt_ediv_add_one_mul_self _ htop
  rw [ceilDiv, hdiv]
  constructor
  · linarith
  · linarith

section Links

variable {uriBase : String} {count skip top : Int}

theorem next_of_lt (htop : 0 < top) (h : skip + top < count) :
    (linksOf uriBase count skip top).next = some ⟨uriBase, skip + top, top⟩ := by
  have hceil := (ceilDiv_bounds count htop).2
  have hlast : skip < (ceilDiv count top - 1) * top := by linarith
  simp [linksOf, lastSkip, h.ne, htop.ne', hlast]

theorem next_of_eq (h : skip + top = count) : (linksOf uriBase count skip top).next = none := by
  simp [linksOf, lastSkip, h]

theorem next_of_aligned (htop : 0 < top) (haligned : top ∣ skip) (h : count ≤ skip + top) :
    (linksOf uriBase count skip top).next = none := by
  obtain ⟨k, rfl⟩ := haligned
  have hceil := (ceilDiv_bounds count htop).1
  have hk : ceilDiv count top - 1 < k + 1 := by
    by_contra hle
    have hmul : (k + 1) * top ≤ (ceilDiv count top - 1) * top :=
      Int.mul_le_mul_of_nonneg_right (not_lt.mp hle) htop.le
    linarith
  have hlast : (ceilDiv count top - 1) * top ≤ top * k := by
    rw [mul_comm top k]
    exact Int.mul_le_mul_of_nonneg_right (by omega) htop.le
  by_cases heq : top * k + top = count
  · exact next_of_eq heq
  · simp [linksOf, lastSkip, heq, htop.ne', hlast]

theorem prev_of_lt (hpos : 0 < skip) (h : skip < top) :
    (linksOf uriBase count skip top).prev = some ⟨uriBase, 0, skip⟩ := by
  simp [linksOf, hpos.ne', h]

theorem prev_of_le (hpos : 0 < skip) (h : top ≤ skip) :
    (linksOf uriBase count skip top).prev = some ⟨uriBase, skip - top, top⟩ := by
  simp [linksOf, hpos.ne', not_lt.mpr h]

theorem last_covers (uriBase : String) (htop : 0 < top) (hlt : skip < count) :
    ∃ l, (linksOf uriBase count skip top).last = some l ∧ l.skip < count ∧ count ≤ l.skip + l.top := by
  by_cases heq : skip + top = count
  · exact ⟨⟨uriBase, skip, top⟩, by simp [linksOf, lastSkip, heq], hlt, heq.ge⟩
  · have hceil := ceilDiv_bounds count htop
    refine ⟨⟨uriBase, (ceilDiv count top - 1) * top, top⟩, ?_, hceil.1, ?_⟩
    · simp [linksOf, lastSkip, heq, htop.ne']
    · show count ≤ (ceilDiv count top - 1) * top + top
      linarith

end Links

theorem next_isSome_iff {uriBase : String} {count skip top : Int} (htop : 0 < top) :
    (linksOf uriBase count skip top).next.isSome ↔ skip + top < count ∨
      count < skip + top ∧ skip < (ceilDiv count top - 1) * top := by
  rcases lt_trichotomy (skip + top) count with hlt | heq | hgt
  · simp [next_of_lt htop hlt, hlt]
  · simp [next_of_eq heq, heq]
  · by_cases hbefore : skip < (ceilDiv count top - 1) * top
    · simp [linksOf, lastSkip, hgt.ne', htop.ne', hbefore, hgt]
    · simp [linksOf, lastSkip, hgt.ne', htop.ne', hbefore, hgt.le]

theorem links_present (url : String) (count skip top : Int) (hskip : 0 ≤ skip) (hlt : skip < count)
    (htop : 1 ≤ top) : let req : Request := ⟨url, some skip, some top⟩
    match addLinksHeader req count with
    | none => count ≤ top
    | some links => top < count ∧
      (skip + top < count → links.next = some ⟨req.uriBase, skip + top, top⟩) ∧
      (links.next.isSome → skip + top < count ∨
        count < skip + top ∧ skip < (ceilDiv count top - 1) * top) ∧
      (top ∣ skip → (links.next.isSome ↔ skip + top < count)) ∧
      (links.prev.isSome ↔ 0 < skip) ∧ (∀ l ∈ links.prev, 0 ≤ l.skip ∧ l.skip + l.top = skip) ∧
      ∃ l ∈ links.last, l.skip ≤ count - 1 ∧ count - 1 < l.skip + l.top := by
  intro req
  by_cases hguard : top < count
  · simp only [req, addLinksHeader_of_lt _ _ hguard]
    have hpos : 0 < top := by omega
    obtain ⟨l, hlast, hl⟩ := last_covers req.uriBase hpos hlt
    refine ⟨hguard, next_of_lt hpos, (next_isSome_iff hpos).mp,
      fun haligned => ⟨fun hnext => ?_, fun hmore => ?_⟩, ?_, ?_, ⟨l, hlast, by omega, by omega⟩⟩
    · by_contra hover
      simp [next_of_aligned hpos haligned (not_lt.mp hover)] at hnext
    · simp [next_of_lt hpos hmore]
    · by_cases hz : skip = 0
      · simp [linksOf, hz]
      · have hp : 0 < skip := by omega
        by_cases hshort : skip < top
        · simp [prev_of_lt hp hshort, hp]
        · simp [prev_of_le hp (not_lt.mp hshort), hp]
    · intro l hl
      by_cases hz : skip = 0
      · simp [linksOf, hz] at hl
      · have hp : 0 < skip := by omega
        by_cases hshort : skip < top
        · rw [prev_of_lt hp hshort, Option.mem_some_iff] at hl
          subst hl
          exact ⟨le_rfl, zero_add skip⟩
        · rw [prev_of_le hp (not_lt.mp hshort), Option.mem_some_iff] at hl
          subst hl
          exact ⟨show 0 ≤ skip - top by omega, sub_add_cancel skip top⟩
  · simp only [req, addLinksHeader_of_le (not_lt.mp hguard)]
    omega

/-- A page in the middle that is not aligned, and an ordinary last page. -/
theorem links_present_middle :
    (∃ links, addLinksHeader ⟨"/api/2.0/workflows", some 8, some 9⟩ 37 = some links ∧
      links.next = some ⟨"/api/2.0/workflows", 17, 9⟩ ∧ ∃ l ∈ links.last, l.skip ≤ 36 ∧ 36 < l.skip + l.top) ∧
    ∃ links, addLinksHeader ⟨"/api/2.0/workflows", some 30, some 10⟩ 37 = some links ∧ ¬ links.next.isSome ∧
      links.prev.isSome := by
  have hmiddle := links_present "/api/2.0/workflows" 37 8 9 (by decide) (by decide) (by decide)
  have hfinal := links_present "/api/2.0/workflows" 37 30 10 (by decide) (by decide) (by decide)
  refine ⟨⟨_, rfl, hmiddle.2.1 (by decide), hmiddle.2.2.2.2.2.2⟩, _, rfl, fun hnext => ?_, ?_⟩
  · exact absurd ((hfinal.2.2.2.1 (by decide)).mp hnext) (by decide)
  · exact hfinal.2.2.2.2.1.mpr (by decide)

/-- A next link to an empty page, and no prev link where there are earlier items. -/
theorem links_overrun :
    (∃ l, (addLinksHeader ⟨"/api/2.0/workflows", some 30, some 9⟩ 37).bind Links.next = some l ∧
      l.skip = 39 ∧ ¬ 30 + 9 < 37) ∧
    (addLinksHeader ⟨"/api/2.0/workflows", some 5, some 10⟩ 10).bind Links.prev = none :=
  ⟨⟨_, rfl, rfl, by decide⟩, rfl⟩

/-! Which numbers come into a link. -/

def Link.Valid (l : Link) : Prop := 0 ≤ l.skip ∧ 1 ≤ l.top

def Links.Valid (links : Links) : Prop :=
  links.first.Valid ∧ (∃ l ∈ links.last, l.Valid) ∧ (∀ l ∈ links.prev, l.Valid) ∧ ∀ l ∈ links.next, l.Valid

theorem Link.valid_of_le {uriBase : String} {skip top : Int} (hskip : 0 ≤ skip) (htop : 0 < top) :
    Link.Valid ⟨uriBase, skip, top⟩ :=
  ⟨hskip, htop⟩

section Links

variable {uriBase : String} {count skip top : Int}

/-- The rounded quotient of what is left of `count` is at least one. -/
theorem last_valid (hskip : 0 ≤ skip) (htop : 0 < top) (h : skip + top = count ∨ top < count) :
    ∃ l ∈ (linksOf uriBase count skip top).last, l.Valid := by
  by_cases heq : skip + top = count
  · exact ⟨⟨uriBase, skip, top⟩, by simp [linksOf, lastSkip, heq], Link.valid_of_le hskip htop⟩
  · have hlt : top < count := h.resolve_left heq
    have hceil := (ceilDiv_bounds count htop).2
    have hone : 0 ≤ ceilDiv count top - 1 := by
      by_contra hneg
      have hle : ceilDiv count top * top ≤ 0 := Int.mul_nonpos_of_nonpos_of_nonneg (by omega) htop.le
      omega
    exact ⟨⟨uriBase, (ceilDiv count top - 1) * top, top⟩, by simp [linksOf, lastSkip, heq, htop.ne'],
      Link.valid_of_le (Int.mul_nonneg hone htop.le) htop⟩

theorem prev_valid (hskip : 0 ≤ skip) (htop : 0 < top) :
    ∀ l ∈ (linksOf uriBase count skip top).prev, l.Valid := by
  intro l hl
  by_cases hzero : skip = 0
  · simp [linksOf, hzero] at hl
  · have hpos : 0 < skip := by omega
    by_cases hshort : skip < top
    · rw [prev_of_lt hpos hshort, Option.mem_some_iff] at hl
      exact hl ▸ Link.valid_of_le le_rfl hpos
    · rw [prev_of_le hpos (not_lt.mp hshort), Option.mem_some_iff] at hl
      exact hl ▸ Link.valid_of_le (by omega) htop

theorem linksOf_valid (hskip : 0 ≤ skip) (htop : 0 < top) (h : skip + top = count ∨ top < count) :
    (linksOf uriBase count skip top).Valid := by
  refine ⟨⟨le_rfl, ?_⟩, last_valid hskip htop h, prev_valid hskip htop, fun l hl => ?_⟩
  · show 1 ≤ if skip ≠ 0 ∧ skip < top then skip else top
    split_ifs <;> omega
  · obtain ⟨_, rfl⟩ : _ ∧ ⟨uriBase, skip + top, top⟩ = l := by simpa [linksOf] using hl
    exact Link.valid_of_le (by omega) htop

/-- The first link alone shows a number that is out of range. -/
theorem bounds_of_first_valid (h : (linksOf uriBase count skip top).first.Valid) : 0 ≤ skip ∧ 1 ≤ top := by
  have htop : 1 ≤ if skip ≠ 0 ∧ skip < top then skip else top := h.2
  split_ifs at htop <;> omega

end Links

/-- All numbers in the links are good just if the request has no links or its page
starts in no negative place and is not empty. -/
theorem links_valid_iff (req : Request) (count : Nat) :
    (∀ links, addLinksHeader req count = some links → links.Valid) ↔
      (req.skip = none ∧ req.top = none) ∨ (∃ top ∈ req.top, (count : Int) ≤ top) ∨
        0 ≤ req.start ∧ 1 ≤ req.size count := by
  have hguard : (∃ top ∈ req.top, (count : Int) ≤ top) ↔ req.top.any ((count : Int) ≤ ·) = true := by
    cases req.top <;> simp
  rw [← or_assoc, hguard]
  by_cases hnone : (req.skip = none ∧ req.top = none) ∨ req.top.any ((count : Int) ≤ ·) = true
  · simp [addLinksHeader, hnone]
  · have hlinks : addLinksHeader req count = some (linksOf req.uriBase count req.start (req.size count)) :=
      if_neg hnone
    rw [or_iff_right hnone]
    constructor
    · intro hvalid
      exact bounds_of_first_valid (hvalid _ hlinks).1
    · rintro ⟨hskip, htop⟩ links h
      obtain rfl := Option.some.inj (hlinks.symm.trans h)
      refine linksOf_valid hskip htop ?_
      cases ht : req.top with
      | none => exact Or.inl (by simp [Request.size, ht])
      | some top =>
        have hlt : top < count := by simpa [ht] using hnone
        exact Or.inr (by simpa [Request.size, ht] using hlt)

/-- An empty page divides by zero, and a page past the end has a negative size. -/
theorem links_invalid :
    (∃ links, addLinksHeader ⟨"/api/2.0/workflows", none, some 0⟩ (37 : Nat) = some links ∧
      links.last = none ∧ ¬ links.Valid) ∧
    ∃ links, addLinksHeader ⟨"/api/2.0/workflows", some 40, none⟩ (37 : Nat) = some links ∧
      links.first.top = -3 ∧ ¬ links.Valid := by
  refine ⟨⟨_, rfl, rfl, fun h => ?_⟩, ⟨_, rfl, rfl, fun h => ?_⟩⟩
  · exact absurd h.1.2 (by decide)
  · exact absurd h.1.2 (by decide)

end OnTaskGraph
