/-
  Mccp.Lib.Rounding
  ─────────────────
  **ROUNDING WITH A DIVISION THAT CUTS TOWARD ZERO.**

  Adding half a unit and dividing rounds to the nearest unit, as long as the
  division cuts downward.  One that cuts toward zero, as C's does, only rounds
  so from minus half a unit on; below, it goes to the next unit above the
  nearest one.

      roundTrunc          — half a unit added, and divided toward zero
      tdiv_add_tdiv       — two divisions with an addition between are one
      roundTrunc_near_iff — when the result is at most half a unit away
      roundTrunc_mul      — what becomes of a whole number of units

  Nothing here knows of any particular program.
-/
import Mathlib.Algebra.Order.Group.Abs
import Mathlib.Algebra.Order.Group.Int
import Mathlib.Tactic.Ring

namespace Rounding

/-- `n`, rounded to a number of units of `2 * h`, by a division toward zero. -/
def roundTrunc (h n : Int) : Int := (n + h).tdiv (2 * h)

/-- **Two divisions toward zero, with an addition between, are one** where what is
added is less than the second divisor. -/
theorem tdiv_add_tdiv {a b c : Int} (ha : 0 < a) (hc : 0 ≤ c) (hcb : c < b) (n : Int) :
    (n.tdiv a + c).tdiv b = (n + c * a).tdiv (a * b) := by
  have hca : 0 ≤ c * a := Int.mul_nonneg hc (by omega)
  rcases Int.le_total 0 n with hn | hn
  · have hq : 0 ≤ n / a := Int.ediv_nonneg hn (by omega)
    rw [Int.tdiv_eq_ediv_of_nonneg hn, Int.tdiv_eq_ediv_of_nonneg (by omega),
      Int.tdiv_eq_ediv_of_nonneg (by omega), ← Int.add_mul_ediv_right _ _ (by omega),
      Int.ediv_ediv_of_nonneg (by omega)]
  · obtain ⟨m, rfl⟩ : ∃ m, n = -m := ⟨-n, by omega⟩
    have hm : 0 ≤ m := by omega
    rw [Int.neg_tdiv, Int.tdiv_eq_ediv_of_nonneg hm]
    rcases Int.le_total m (c * a) with hle | hle
    · -- both dividends are below their divisors
      have hq : 0 ≤ m / a := Int.ediv_nonneg hm (by omega)
      have hqc : m / a ≤ c := Int.ediv_le_of_le_mul ha hle
      have hlt : c * a < a * b := by
        rw [Int.mul_comm a b]
        exact Int.mul_lt_mul_of_pos_right hcb ha
      rw [Int.tdiv_eq_zero_of_lt (by omega) (by omega),
        Int.tdiv_eq_zero_of_lt (by omega) (by omega)]
    · -- both are negative
      have hsub : m / a - c = (m - c * a) / a := by
        have hneg : m - c * a = m + -c * a := by
          rw [Int.neg_mul]
          rfl
        rw [hneg, Int.add_mul_ediv_right _ _ (by omega)]
        omega
      have hpos : 0 ≤ (m - c * a) / a := Int.ediv_nonneg (by omega) (by omega)
      rw [show -(m / a) + c = -(m / a - c) by omega, show -m + c * a = -(m - c * a) by omega,
        hsub, Int.neg_tdiv, Int.neg_tdiv, Int.tdiv_eq_ediv_of_nonneg hpos,
        Int.tdiv_eq_ediv_of_nonneg (by omega), Int.ediv_ediv_of_nonneg (by omega)]

variable {h : Int}

/-- **The result is at most half a unit away** exactly from minus half a unit on,
and halfway between two units. -/
theorem roundTrunc_near_iff (hh : 0 < h) (n : Int) :
    |2 * h * roundTrunc h n - n| ≤ h ↔ -h ≤ n ∨ 2 * h ∣ n + h := by
  have hdiv := Int.mul_tdiv_add_tmod (n + h) (2 * h)
  have hval : 2 * h * roundTrunc h n - n = h - (n + h).tmod (2 * h) := by
    unfold roundTrunc
    omega
  rw [hval, abs_le]
  rcases Int.le_total 0 (n + h) with hn | hn
  · have hr0 := Int.tmod_nonneg (2 * h) hn
    have hr := Int.tmod_lt_of_pos (n + h) (show 0 < 2 * h by omega)
    exact iff_of_true ⟨by omega, by omega⟩ (.inl (by omega))
  · -- the remainder is negative: only none at all is near enough
    have hneg := Int.tmod_nonneg (2 * h) (show 0 ≤ -(n + h) by omega)
    have hr : (n + h).tmod (2 * h) ≤ 0 := by
      rw [Int.neg_tmod] at hneg
      omega
    rw [Int.dvd_iff_tmod_eq_zero]
    constructor
    · intro hnear
      exact .inr (by omega)
    · rintro (hle | hzero)
      · have hn0 : n + h = 0 := by omega
        rw [hn0, Int.zero_tmod]
        omega
      · omega

/-- A whole number of units is kept from zero on, and becomes one more below. -/
theorem roundTrunc_mul (hh : 0 < h) (q : Int) :
    roundTrunc h (2 * h * q) = if 0 ≤ q then q else q + 1 := by
  unfold roundTrunc
  split
  next hq =>
    have hnn : 0 ≤ 2 * h * q := Int.mul_nonneg (by omega) hq
    rw [Int.tdiv_eq_ediv_of_nonneg (by omega), Int.add_comm, Int.mul_comm (2 * h),
      Int.add_mul_ediv_right _ _ (by omega), Int.ediv_eq_zero_of_lt (by omega) (by omega)]
    omega
  next hq =>
    have hle : 0 ≤ 2 * h * (-q - 1) := Int.mul_nonneg (by omega) (by omega)
    rw [show 2 * h * q + h = -(h + (-q - 1) * (2 * h)) by ring, Int.neg_tdiv,
      Int.tdiv_eq_ediv_of_nonneg (by rw [Int.mul_comm]; omega),
      Int.add_mul_ediv_right _ _ (by omega), Int.ediv_eq_zero_of_lt (by omega) (by omega)]
    omega

end Rounding
