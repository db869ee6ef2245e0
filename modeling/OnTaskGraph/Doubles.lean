import Mathlib.Algebra.Order.Field.Basic
import Mathlib.Data.Int.Log
import Mathlib.Data.Rat.Floor
import Mathlib.Tactic.Linarith
import Mathlib.Tactic.Ring

/-! Rounding to double precision of numbers that are not negative and do not overflow:
it is monotone, and keeps what has at most 53 bits. -/

namespace Doubles

/-- The nearest integer, the even one of two. -/
def roundEven (q : ℚ) : ℤ :=
  if q - ⌊q⌋ < 1 / 2 ∨ q - ⌊q⌋ = 1 / 2 ∧ ⌊q⌋ % 2 = 0 then ⌊q⌋ else ⌊q⌋ + 1

/-- The last bit of a number stands for two to the power of this. -/
def exponent (x : ℚ) : ℤ := max (Int.log 2 x - 52) (-1074)

/-- The double nearest to a number. -/
def double (x : ℚ) : ℚ := roundEven (x / 2 ^ exponent x) * 2 ^ exponent x

theorem roundEven_intCast (n : ℤ) : roundEven n = n := by
  simp [roundEven]

theorem floor_le_roundEven (q : ℚ) : ⌊q⌋ ≤ roundEven q := by
  unfold roundEven
  split <;> omega

theorem roundEven_le_floor_add_one (q : ℚ) : roundEven q ≤ ⌊q⌋ + 1 := by
  unfold roundEven
  split <;> omega

theorem roundEven_mono {q r : ℚ} (h : q ≤ r) : roundEven q ≤ roundEven r := by
  have hfloor : ⌊q⌋ ≤ ⌊r⌋ := Int.floor_mono h
  rcases hfloor.lt_or_eq with hlt | heq
  · have hq := roundEven_le_floor_add_one q
    have hr := floor_le_roundEven r
    omega
  · -- with the same integer part, what rounds `r` down rounds `q` down
    unfold roundEven
    rw [← heq]
    by_cases hr : r - ⌊q⌋ < 1 / 2 ∨ r - ⌊q⌋ = 1 / 2 ∧ ⌊q⌋ % 2 = 0
    · have hq : q - ⌊q⌋ < 1 / 2 ∨ q - ⌊q⌋ = 1 / 2 ∧ ⌊q⌋ % 2 = 0 := by
        rcases hr with hr | ⟨hr, heven⟩
        · left
          linarith
        · rcases (by linarith : q - ⌊q⌋ ≤ 1 / 2).lt_or_eq with hq | hq
          · exact .inl hq
          · exact .inr ⟨hq, heven⟩
      rw [if_pos hq, if_pos hr]
    · rw [if_neg hr]
      split <;> omega

theorem exponent_ge (x : ℚ) : -1074 ≤ exponent x := le_max_right _ _

theorem lt_zpow_iff {x : ℚ} (hx : 0 < x) {n : ℤ} : x < 2 ^ n ↔ Int.log 2 x < n := by
  have h := Int.lt_zpow_iff_log_lt (b := 2) (x := n) (by omega) hx
  rw [Nat.cast_ofNat] at h
  exact h

theorem zpow_pos' (e : ℤ) : (0 : ℚ) < 2 ^ e := zpow_pos (by norm_num) e

theorem lt_zpow_exponent {x : ℚ} (hx : 0 < x) : x < 2 ^ (exponent x + 53) := by
  rw [lt_zpow_iff hx, exponent]
  omega

theorem double_mul_zpow {k : ℕ} {e : ℤ} (hk : k < 2 ^ 53) (he : -1074 ≤ e) :
    double (k * 2 ^ e) = k * 2 ^ e := by
  rcases Nat.eq_zero_or_pos k with rfl | hpos
  · simp [double, roundEven]
  · have hx : (0 : ℚ) < k * 2 ^ e := mul_pos (by exact_mod_cast hpos) (zpow_pos' e)
    have hle : exponent (k * 2 ^ e) ≤ e := by
      have hlt : (k : ℚ) * 2 ^ e < 2 ^ (53 + e) := by
        have hcast : (k : ℚ) < 2 ^ (53 : ℤ) := by exact_mod_cast hk
        rw [zpow_add₀ (by norm_num)]
        exact mul_lt_mul_of_pos_right hcast (zpow_pos' e)
      have hlog := (lt_zpow_iff hx).mp hlt
      rw [exponent]
      omega
    obtain ⟨n, hn⟩ := Int.eq_ofNat_of_zero_le (sub_nonneg.mpr hle)
    have hquot : (k : ℚ) * 2 ^ e / 2 ^ exponent (k * 2 ^ e) = ((k * 2 ^ n : ℤ) : ℚ) := by
      rw [mul_div_assoc, ← zpow_sub₀ (by norm_num), hn]
      push_cast
      rw [zpow_natCast]
    rw [double, hquot, roundEven_intCast, ← hquot, div_mul_cancel₀ _ (zpow_pos' _).ne']

theorem double_natCast {n : ℕ} (hn : n < 2 ^ 53) : double n = n := by
  have h := double_mul_zpow (e := 0) hn (by omega)
  simpa using h

theorem exponent_mono {x y : ℚ} (hx : 0 < x) (h : x ≤ y) : exponent x ≤ exponent y := by
  have hlog : Int.log 2 x ≤ Int.log 2 y := Int.log_mono_right hx h
  unfold exponent
  omega

theorem zpow_div {n e : ℤ} (h : e ≤ n) : ∃ k : ℤ, (2 : ℚ) ^ n / 2 ^ e = k := by
  obtain ⟨m, hm⟩ := Int.eq_ofNat_of_zero_le (sub_nonneg.mpr h)
  refine ⟨2 ^ m, ?_⟩
  rw [← zpow_sub₀ (by norm_num), hm, zpow_natCast]
  norm_cast

theorem double_le_zpow {x : ℚ} {n : ℤ} (h : x ≤ 2 ^ n) (hn : exponent x ≤ n) : double x ≤ 2 ^ n := by
  obtain ⟨k, hk⟩ := zpow_div hn
  have hround := roundEven_mono (div_le_div_of_nonneg_right h (zpow_pos' (exponent x)).le)
  rw [hk, roundEven_intCast] at hround
  have hcast : (roundEven (x / 2 ^ exponent x) : ℚ) ≤ 2 ^ n / 2 ^ exponent x := by
    rw [hk]
    exact_mod_cast hround
  exact (le_div_iff₀ (zpow_pos' _)).mp hcast

theorem zpow_le_double {y : ℚ} {n : ℤ} (h : 2 ^ n ≤ y) (hn : exponent y ≤ n) : 2 ^ n ≤ double y := by
  obtain ⟨k, hk⟩ := zpow_div hn
  have hround := roundEven_mono (div_le_div_of_nonneg_right h (zpow_pos' (exponent y)).le)
  rw [hk, roundEven_intCast] at hround
  have hcast : 2 ^ n / 2 ^ exponent y ≤ (roundEven (y / 2 ^ exponent y) : ℚ) := by
    rw [hk]
    exact_mod_cast hround
  exact (div_le_iff₀ (zpow_pos' _)).mp hcast

theorem double_zero : double 0 = 0 := by
  simp [double, roundEven]

theorem double_nonneg {x : ℚ} (hx : 0 ≤ x) : 0 ≤ double x := by
  have hround := roundEven_mono (div_nonneg hx (zpow_pos' (exponent x)).le)
  have hzero : roundEven 0 = 0 := by simp [roundEven]
  rw [hzero] at hround
  exact mul_nonneg (by exact_mod_cast hround) (zpow_pos' _).le

theorem double_mono {x y : ℚ} (hx : 0 ≤ x) (h : x ≤ y) : double x ≤ double y := by
  rcases hx.eq_or_lt with rfl | hx
  · rw [double_zero]
    exact double_nonneg h
  · have hy := hx.trans_le h
    rcases (exponent_mono hx h).eq_or_lt with heq | hlt
    · rw [double, double, heq]
      have hround := roundEven_mono (div_le_div_of_nonneg_right h (zpow_pos' (exponent y)).le)
      exact mul_le_mul_of_nonneg_right (by exact_mod_cast hround) (zpow_pos' _).le
    · -- the power of two that `y` begins with is between them
      have hlog : Int.log 2 x < Int.log 2 y ∧ exponent x ≤ Int.log 2 y ∧ exponent y ≤ Int.log 2 y := by
        unfold exponent at hlt ⊢
        omega
      have hbelow : x ≤ 2 ^ Int.log 2 y := ((lt_zpow_iff hx).mpr hlog.1).le
      have habove : (2 : ℚ) ^ Int.log 2 y ≤ y := by exact_mod_cast Int.zpow_log_le_self (b := 2) (by omega) hy
      exact (double_le_zpow hbelow hlog.2.1).trans (zpow_le_double habove hlog.2.2)

theorem double_mul_zpow_le {k : ℕ} {e : ℤ} (hk : k ≤ 2 ^ 53) (he : -1074 ≤ e) :
    double (k * 2 ^ e) = k * 2 ^ e := by
  rcases hk.lt_or_eq with hlt | rfl
  · exact double_mul_zpow hlt he
  · have hshift : ((2 ^ 53 : ℕ) : ℚ) * 2 ^ e = ((2 ^ 52 : ℕ) : ℚ) * 2 ^ (e + 1) := by
      rw [zpow_add₀ (by norm_num)]
      push_cast
      ring
    rw [hshift]
    exact double_mul_zpow (by norm_num) (by omega)

theorem double_double {x : ℚ} (hx : 0 ≤ x) : double (double x) = double x := by
  rcases hx.eq_or_lt with rfl | hx
  · rw [double_zero, double_zero]
  · have hnonneg : 0 ≤ roundEven (x / 2 ^ exponent x) := by
      have hround := roundEven_mono (div_nonneg hx.le (zpow_pos' (exponent x)).le)
      rwa [← Int.cast_zero, roundEven_intCast] at hround
    have hle : roundEven (x / 2 ^ exponent x) ≤ 2 ^ 53 := by
      have hquot : x / 2 ^ exponent x ≤ ((2 ^ 53 : ℤ) : ℚ) := by
        rw [div_le_iff₀ (zpow_pos' _)]
        have hlt := lt_zpow_exponent hx
        rw [add_comm, zpow_add₀ (by norm_num)] at hlt
        exact_mod_cast hlt.le
      have hround := roundEven_mono hquot
      rwa [roundEven_intCast] at hround
    obtain ⟨n, hn⟩ := Int.eq_ofNat_of_zero_le hnonneg
    rw [hn] at hle
    have hdouble : double x = n * 2 ^ exponent x := by rw [double, hn, Int.cast_natCast]
    rw [hdouble]
    exact double_mul_zpow_le (by exact_mod_cast hle) (exponent_ge x)

end Doubles
