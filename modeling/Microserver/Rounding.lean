import Mathlib.Algebra.Order.Floor.Ring
import Mathlib.Data.Int.Log
import Mathlib.Data.Rat.Floor
import Mathlib.Tactic.Linarith
import Mathlib.Tactic.Ring

/-!
Rounding to binary floating point: to the nearest number with a significand of
`f + 1` bits, ties to even, whatever its exponent. Rounding is monotone and
leaves representable numbers alone; what rounds to one or more is known exactly.
-/
namespace Microserver.Rounding

/-- The nearest integer, the even one of two. -/
def roundEven (x : ℚ) : ℤ :=
  if x - ⌊x⌋ < 1 / 2 then ⌊x⌋ else if 1 / 2 < x - ⌊x⌋ then ⌊x⌋ + 1 else if ⌊x⌋ % 2 = 0 then ⌊x⌋ else ⌊x⌋ + 1

/-- The distance of the numbers with `f` bits after the leading one around `x`. -/
def ulp (f : ℕ) (x : ℚ) : ℚ := 2 ^ (Int.log 2 |x| - f)

/-- The nearest number with `f` bits after the leading one. -/
def nearest (f : ℕ) (x : ℚ) : ℚ := roundEven (x / ulp f x) * ulp f x

example : nearest 52 (5 / 60) = 6004799503160661 / 2 ^ 56 := by decide +kernel

/-! ### Integers -/

theorem floor_le_roundEven (x : ℚ) : ⌊x⌋ ≤ roundEven x := by
  unfold roundEven
  split_ifs <;> omega

theorem roundEven_le_succ (x : ℚ) : roundEven x ≤ ⌊x⌋ + 1 := by
  unfold roundEven
  split_ifs <;> omega

@[simp] theorem roundEven_intCast (n : ℤ) : roundEven n = n := by simp [roundEven]

theorem roundEven_mono {x y : ℚ} (less : x ≤ y) : roundEven x ≤ roundEven y := by
  rcases (Int.floor_mono less).lt_or_eq with apart | same
  · exact (roundEven_le_succ x).trans ((Int.add_one_le_iff.mpr apart).trans (floor_le_roundEven y))
  · unfold roundEven
    rw [same]
    have fraction : x - ⌊y⌋ ≤ y - ⌊y⌋ := sub_le_sub_right less _
    split_ifs <;> first | omega | (exfalso; linarith)

/-- What is closer to `n` than to its successor is rounded to `n` at most. -/
theorem roundEven_le {x : ℚ} {n : ℤ} (closer : x < n + 1 / 2) : roundEven x ≤ n := by
  have low := Int.floor_le x
  rcases lt_trichotomy ⌊x⌋ n with below | same | above
  · exact (roundEven_le_succ x).trans (Int.add_one_le_iff.mpr below)
  · have near : x - ⌊x⌋ < 1 / 2 := by
      rw [same]
      linarith
    rw [roundEven, if_pos near, same]
  · have next : ((n + 1 : ℤ) : ℚ) ≤ ⌊x⌋ := by exact_mod_cast Int.add_one_le_iff.mpr above
    push_cast at next
    exfalso
    linarith

/-- A half above an odd integer is rounded up. -/
theorem roundEven_half {n : ℤ} (odd : n % 2 = 1) : roundEven (n + 1 / 2) = n + 1 := by
  have floor : ⌊(n : ℚ) + 1 / 2⌋ = n := by
    rw [Int.floor_eq_iff]
    constructor <;> linarith
  have tie : (n : ℚ) + 1 / 2 - ⌊(n : ℚ) + 1 / 2⌋ = 1 / 2 := by
    rw [floor]
    ring
  have kept : ¬ ⌊(n : ℚ) + 1 / 2⌋ % 2 = 0 := by
    rw [floor]
    omega
  rw [roundEven, tie, if_neg (lt_irrefl _), if_neg (lt_irrefl _), if_neg kept, floor]

/-! ### Binary numbers -/

section Nearest
variable {f : ℕ} {x y : ℚ}

theorem ulp_pos (f : ℕ) (x : ℚ) : 0 < ulp f x := zpow_pos (by decide) _

theorem pow_mul_ulp (f : ℕ) (x : ℚ) (n : ℕ) : 2 ^ (f + n) * ulp f x = 2 ^ (Int.log 2 |x| + n) := by
  rw [ulp, ← zpow_natCast, ← zpow_add₀ (by decide)]
  congr 1
  push_cast
  ring

theorem log_le_self (positive : 0 < x) : 2 ^ Int.log 2 |x| ≤ x := by
  have bound := Int.zpow_log_le_self (b := 2) (r := |x|) (by decide) (abs_pos.mpr positive.ne')
  rwa [abs_of_pos positive] at bound ⊢

theorem lt_succ_log (nonneg : 0 ≤ x) : x < 2 ^ (Int.log 2 |x| + 1) := by
  have bound := Int.lt_zpow_succ_log_self (b := 2) (by decide) |x|
  rwa [abs_of_nonneg nonneg] at bound ⊢

/-- The significand has `f + 1` bits. -/
theorem significand_bounds (positive : 0 < x) : ((2 ^ f : ℤ) : ℚ) ≤ x / ulp f x ∧ x / ulp f x < ((2 ^ (f + 1) : ℤ) : ℚ) := by
  have low := pow_mul_ulp f x 0
  have high := pow_mul_ulp f x 1
  simp only [add_zero, Nat.cast_zero, Nat.cast_one] at low high
  rw [le_div_iff₀ (ulp_pos f x), div_lt_iff₀ (ulp_pos f x)]
  push_cast
  rw [low, high]
  exact ⟨log_le_self positive, lt_succ_log positive.le⟩

theorem nearest_zero : nearest f 0 = 0 := by
  have integer := roundEven_intCast 0
  rw [Int.cast_zero] at integer
  rw [nearest, zero_div, integer, Int.cast_zero, zero_mul]

theorem nearest_nonneg (nonneg : 0 ≤ x) : 0 ≤ nearest f x := by
  have integer := roundEven_intCast 0
  rw [Int.cast_zero] at integer
  have rounded : 0 ≤ roundEven (x / ulp f x) := integer ▸ roundEven_mono (div_nonneg nonneg (ulp_pos f x).le)
  exact mul_nonneg (by exact_mod_cast rounded) (ulp_pos f x).le

/-- Rounding stays between the neighbouring powers of two. -/
theorem nearest_bounds (positive : 0 < x) : 2 ^ Int.log 2 |x| ≤ nearest f x ∧ nearest f x ≤ 2 ^ (Int.log 2 |x| + 1) := by
  obtain ⟨low, high⟩ := significand_bounds (f := f) positive
  have bottom : (2 ^ f : ℤ) ≤ roundEven (x / ulp f x) := (roundEven_intCast _).symm.trans_le (roundEven_mono low)
  have top : roundEven (x / ulp f x) ≤ (2 ^ (f + 1) : ℤ) := (roundEven_mono high.le).trans_eq (roundEven_intCast _)
  have scale := pow_mul_ulp f x 0
  have scale' := pow_mul_ulp f x 1
  simp only [add_zero, Nat.cast_zero, Nat.cast_one] at scale scale'
  rw [nearest, ← scale, ← scale']
  have bottom' : (2 ^ f : ℚ) ≤ roundEven (x / ulp f x) := by exact_mod_cast bottom
  have top' : (roundEven (x / ulp f x) : ℚ) ≤ 2 ^ (f + 1) := by exact_mod_cast top
  exact ⟨mul_le_mul_of_nonneg_right bottom' (ulp_pos f x).le, mul_le_mul_of_nonneg_right top' (ulp_pos f x).le⟩

theorem nearest_mono (nonneg : 0 ≤ x) (less : x ≤ y) : nearest f x ≤ nearest f y := by
  rcases nonneg.eq_or_lt with rfl | positive
  · rw [nearest_zero]
    exact nearest_nonneg less
  · have exponents : Int.log 2 |x| ≤ Int.log 2 |y| :=
      Int.log_mono_right (abs_pos.mpr positive.ne') (abs_le_abs_of_nonneg nonneg less)
    rcases exponents.lt_or_eq with apart | same
    · have between : (2 : ℚ) ^ (Int.log 2 |x| + 1) ≤ 2 ^ Int.log 2 |y| := zpow_le_zpow_right₀ (by decide) apart
      exact (nearest_bounds positive).2.trans (between.trans (nearest_bounds (positive.trans_le less)).1)
    · have unit : ulp f x = ulp f y := by rw [ulp, ulp, same]
      rw [nearest, nearest, unit]
      have rounded := roundEven_mono ((div_le_div_iff_of_pos_right (ulp_pos f y)).mpr less)
      exact mul_le_mul_of_nonneg_right (by exact_mod_cast rounded) (ulp_pos f y).le

/-- A multiple of a power of two that is no smaller than the unit is left alone. -/
theorem nearest_of_multiple {m k : ℤ} (multiple : x = m * 2 ^ k) (coarse : Int.log 2 |x| - f ≤ k) : nearest f x = x := by
  obtain ⟨n, exponent⟩ := Int.eq_ofNat_of_zero_le (sub_nonneg.mpr coarse)
  have integer : x / ulp f x = ((m * 2 ^ n : ℤ) : ℚ) := by
    have split : (2 : ℚ) ^ k = 2 ^ n * ulp f x := by
      rw [ulp, ← zpow_natCast, ← zpow_add₀ (by decide), ← exponent]
      congr 1
      ring
    rw [div_eq_iff (ulp_pos f x).ne', Int.cast_mul, Int.cast_pow, Int.cast_ofNat, mul_assoc, ← split]
    exact multiple
  rw [nearest, integer, roundEven_intCast, ← integer]
  exact div_mul_cancel₀ x (ulp_pos f x).ne'

theorem nearest_nearest (nonneg : 0 ≤ x) : nearest f (nearest f x) = nearest f x := by
  rcases nonneg.eq_or_lt with rfl | positive
  · rw [nearest_zero, nearest_zero]
  · obtain ⟨low, high⟩ := nearest_bounds (f := f) positive
    have positive' : 0 < nearest f x := (zpow_pos (by decide) _).trans_le low
    rcases high.lt_or_eq with inside | edge
    · refine nearest_of_multiple (m := roundEven (x / ulp f x)) (k := Int.log 2 |x| - f) rfl ?_
      have exponent : Int.log 2 |nearest f x| < Int.log 2 |x| + 1 := by
        rw [← Int.lt_zpow_iff_log_lt (by decide) (abs_pos.mpr positive'.ne'), abs_of_pos positive']
        exact_mod_cast inside
      omega
    · refine nearest_of_multiple (m := 1) (k := Int.log 2 |x| + 1) (by rw [edge, Int.cast_one, one_mul]) ?_
      have exponent : Int.log 2 |nearest f x| = Int.log 2 |x| + 1 := by
        rw [edge, abs_of_pos (zpow_pos (by decide) _)]
        exact_mod_cast Int.log_zpow (R := ℚ) (b := 2) (by decide) (Int.log 2 |x| + 1)
      omega

/-- Taking one from a number that is not too large is exact. -/
theorem nearest_sub_one (representable : nearest f x = x) (atLeast : 1 ≤ x) (small : x ≤ 2 ^ f) : nearest f (x - 1) = x - 1 := by
  have positive : 0 < x := zero_lt_one.trans_le atLeast
  rcases atLeast.eq_or_lt with rfl | more
  · rw [sub_self, nearest_zero]
  · have exponent : Int.log 2 |x| ≤ f := by
      have bound : (2 : ℚ) ^ Int.log 2 |x| ≤ 2 ^ (f : ℤ) := (log_le_self positive).trans (by simpa using small)
      exact (zpow_le_zpow_iff_right₀ (by decide)).mp bound
    obtain ⟨n, unit⟩ := Int.eq_ofNat_of_zero_le (sub_nonneg.mpr exponent)
    have one : (1 : ℚ) = 2 ^ n * ulp f x := by
      rw [ulp, ← zpow_natCast, ← zpow_add₀ (by decide), show (n : ℤ) + (Int.log 2 |x| - f) = 0 by omega, zpow_zero]
    refine nearest_of_multiple (m := roundEven (x / ulp f x) - 2 ^ n) (k := Int.log 2 |x| - f) ?_ ?_
    · rw [Int.cast_sub, sub_mul, Int.cast_pow, Int.cast_ofNat]
      exact congrArg₂ (· - ·) representable.symm one
    · have smaller : Int.log 2 |x - 1| ≤ Int.log 2 |x| := by
        refine Int.log_mono_right (abs_pos.mpr (sub_pos.mpr more).ne') ?_
        exact abs_le_abs_of_nonneg (sub_pos.mpr more).le (sub_le_self _ zero_le_one)
      omega

/-- Half a unit below one, numbers begin to round to one. -/
theorem one_le_nearest (nonneg : 0 ≤ x) : 1 ≤ nearest f x ↔ 1 - 1 / 2 ^ (f + 2) ≤ x := by
  have exponent {z : ℚ} (low : 1 / 2 ≤ z) (high : z < 1) : ulp f z = 1 / 2 ^ (f + 1) := by
    have positive : 0 < |z| := abs_pos.mpr (by linarith)
    have size : |z| = z := abs_of_nonneg (by linarith)
    have log : Int.log 2 |z| = -1 := by
      refine le_antisymm (Int.lt_add_one_iff.mp ?_) ?_
      · rw [← Int.lt_zpow_iff_log_lt (by decide) positive, size]
        simpa using high
      · rw [← Int.zpow_le_iff_le_log (by decide) positive, size]
        simpa [zpow_neg] using low
    rw [ulp, log, one_div, ← zpow_natCast, ← zpow_neg]
    congr 1
    push_cast
    ring
  have half : (1 : ℚ) / 2 ^ (f + 2) = 1 / 2 ^ (f + 1) / 2 := by
    rw [pow_succ 2 (f + 1)]
    field_simp
  have unit : (0 : ℚ) < 1 / 2 ^ (f + 1) := by positivity
  have tiny : (1 : ℚ) / 2 ^ (f + 1) ≤ 1 / 2 := by
    rw [pow_succ]
    have grows : (1 : ℚ) ≤ 2 ^ f := one_le_pow₀ (by decide)
    rw [div_le_div_iff₀ (by positivity) (by decide)]
    linarith
  have whole : (2 : ℚ) ^ (f + 1) * (1 / 2 ^ (f + 1)) = 1 := mul_one_div_cancel (by positivity)
  constructor
  · intro reaches
    by_contra short
    rw [not_le] at short
    by_cases low : 1 / 2 ≤ x
    · have same := exponent low (by linarith)
      have rounded : roundEven (x / ulp f x) ≤ 2 ^ (f + 1) - 1 := by
        refine roundEven_le ?_
        rw [div_lt_iff₀ (ulp_pos f x), same]
        push_cast
        rw [half] at short
        linarith
      have bound : (roundEven (x / ulp f x) : ℚ) ≤ 2 ^ (f + 1) - 1 := by exact_mod_cast rounded
      have product := mul_le_mul_of_nonneg_right bound (ulp_pos f x).le
      rw [nearest] at reaches
      rw [same] at product reaches
      linarith
    · have below := nearest_mono (f := f) nonneg (not_le.mp low).le
      have representable : nearest f (1 / 2) = 1 / 2 := by
        refine nearest_of_multiple (m := 1) (k := -1) (by norm_num) ?_
        have log : Int.log 2 |(1 / 2 : ℚ)| = -1 := by decide +kernel
        omega
      rw [representable] at below
      linarith
  · intro close
    have least : 1 ≤ nearest f (1 - 1 / 2 ^ (f + 2)) := by
      have same := exponent (z := 1 - 1 / 2 ^ (f + 2)) (by rw [half]; linarith) (by rw [half]; linarith)
      have tie : (1 - 1 / 2 ^ (f + 2)) / ulp f (1 - 1 / 2 ^ (f + 2)) = ((2 ^ (f + 1) - 1 : ℤ) : ℚ) + 1 / 2 := by
        rw [div_eq_iff (ulp_pos _ _).ne', same, half]
        push_cast
        linarith
      have odd : (2 ^ (f + 1) - 1 : ℤ) % 2 = 1 := by
        rw [pow_succ]
        omega
      have up := roundEven_half odd
      rw [nearest, tie, up, same]
      push_cast
      linarith
    have edge : (0 : ℚ) ≤ 1 - 1 / 2 ^ (f + 2) := by
      rw [half]
      linarith
    exact least.trans (nearest_mono edge close)

end Nearest
end Microserver.Rounding
