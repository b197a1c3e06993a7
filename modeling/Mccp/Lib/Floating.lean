/-
  Mccp.Lib.Floating
  ─────────────────
  **SUMS AND PRODUCTS THAT ARE ROUNDED AT EVERY STEP.**

  The standard model of floating-point arithmetic, for numbers that are not
  negative: the result of an operation is the exact one, times a factor that is
  off one by at most `u`, as long as it does not leave the range of the format.
  What is computed in several steps is off by as many of these factors.

      Rounds        — a rounding with such an error, and its range
      Near          — off by so many roundings
      Rounds.near   — one rounding more
      Rounds.foldl  — a sum over a list, rounded after each addition
      nearest       — the rounding to the nearest number of so many digits

  Nothing here knows of any particular program.
-/
import Mathlib.Algebra.Order.BigOperators.Group.List
import Mathlib.Algebra.Order.Ring.Pow
import Mathlib.Algebra.Order.Round
import Mathlib.Data.Int.Log
import Mathlib.Data.Rat.Floor
import Mathlib.Tactic.FieldSimp
import Mathlib.Tactic.Linarith
import Mathlib.Tactic.Positivity
import Mathlib.Tactic.Ring

namespace Floating

/-! ## §1. Roundings. -/

/-- **A rounding**: it keeps zero, and between `lo` and `hi` its relative error is
at most `u`. -/
structure Rounds (fl : ℚ → ℚ) (u lo hi : ℚ) : Prop where
  nonneg : 0 ≤ u
  le_one : u ≤ 1
  pos : 0 < lo
  zero : fl 0 = 0
  lower : ∀ x, lo ≤ x → x ≤ hi → (1 - u) * x ≤ fl x
  upper : ∀ x, lo ≤ x → x ≤ hi → fl x ≤ (1 + u) * x

/-- `y` is `x`, off by `k` roundings. -/
structure Near (u : ℚ) (k : Nat) (x y : ℚ) : Prop where
  lower : (1 - u) ^ k * x ≤ y
  upper : y ≤ (1 + u) ^ k * x

/-- Zero, or in the range with a factor of two to spare. -/
def Inside (lo hi x : ℚ) : Prop := x = 0 ∨ (2 * lo ≤ x ∧ 2 * x ≤ hi)

variable {fl : ℚ → ℚ} {u lo hi x y x' y' : ℚ} {k l : Nat}

theorem Near.refl (u x : ℚ) : Near u 0 x x := ⟨by simp, by simp⟩

theorem Near.mono (h0 : 0 ≤ u) (h1 : u ≤ 1) (hx : 0 ≤ x) (hkl : k ≤ l) (h : Near u k x y) :
    Near u l x y where
  lower := by
    have hpow : (1 - u) ^ l ≤ (1 - u) ^ k :=
      pow_le_pow_of_le_one (by linarith) (by linarith) hkl
    exact (mul_le_mul_of_nonneg_right hpow hx).trans h.lower
  upper := by
    have hpow : (1 + u) ^ k ≤ (1 + u) ^ l := pow_le_pow_right₀ (by linarith) hkl
    exact h.upper.trans (mul_le_mul_of_nonneg_right hpow hx)

theorem Near.add (h : Near u k x y) (h' : Near u k x' y') : Near u k (x + x') (y + y') where
  lower := by
    rw [mul_add]
    exact add_le_add h.lower h'.lower
  upper := by
    rw [mul_add]
    exact add_le_add h.upper h'.upper

theorem Near.half (h : Near u k x y) : Near u k (x / 2) (y / 2) where
  lower := by
    have hlower := h.lower
    linarith
  upper := by
    have hupper := h.upper
    linarith

/-- What is near to something not negative is not negative. -/
theorem Near.nonneg (h1 : u ≤ 1) (hx : 0 ≤ x) (h : Near u k x y) : 0 ≤ y :=
  (mul_nonneg (pow_nonneg (by linarith) k) hx).trans h.lower

theorem Near.mul (h0 : 0 ≤ u) (h1 : u ≤ 1) (hx : 0 ≤ x) (hx' : 0 ≤ x') (h : Near u k x y)
    (h' : Near u l x' y') : Near u (k + l) (x * x') (y * y') where
  lower := by
    calc (1 - u) ^ (k + l) * (x * x') = ((1 - u) ^ k * x) * ((1 - u) ^ l * x') := by ring
      _ ≤ y * y' := mul_le_mul h.lower h'.lower
          (mul_nonneg (pow_nonneg (by linarith) l) hx') (h.nonneg h1 hx)
  upper := by
    calc y * y' ≤ ((1 + u) ^ k * x) * ((1 + u) ^ l * x') :=
          mul_le_mul h.upper h'.upper (h'.nonneg h1 hx')
            (mul_nonneg (pow_nonneg (by linarith) k) hx)
      _ = (1 + u) ^ (k + l) * (x * x') := by ring

/-- **A few roundings are off by a factor of two at most.** -/
theorem Near.bounds (h0 : 0 ≤ u) (h1 : u ≤ 1) (hk : k * u ≤ 1 / 2) (hx : 0 ≤ x)
    (h : Near u k x y) : x ≤ 2 * y ∧ y ≤ 2 * x := by
  have hlow : 1 / 2 ≤ (1 - u) ^ k := by
    have hbernoulli := one_add_mul_le_pow (show -2 ≤ -u by linarith) k
    rw [← sub_eq_add_neg] at hbernoulli
    linarith
  have hhigh : (1 + u) ^ k ≤ 2 := by
    -- the two factors are at most one together
    have hone : (1 - u) ^ k * (1 + u) ^ k ≤ 1 := by
      rw [← mul_pow]
      exact pow_le_one₀ (by nlinarith) (by nlinarith)
    have hpos : 0 ≤ (1 + u) ^ k := pow_nonneg (by linarith) k
    nlinarith
  have hlower := h.lower
  have hupper := h.upper
  constructor
  · nlinarith
  · nlinarith

/-- **One rounding more.** -/
theorem Rounds.near (hr : Rounds fl u lo hi) (hk : k * u ≤ 1 / 2) (hx : Inside lo hi x)
    (h : Near u k x y) : Near u (k + 1) x (fl y) := by
  rcases hx with rfl | ⟨hlo, hhi⟩
  · have hy : y = 0 := by
      have hlower := h.lower
      have hupper := h.upper
      rw [mul_zero] at hlower hupper
      exact le_antisymm hupper hlower
    rw [hy, hr.zero]
    exact ⟨by simp, by simp⟩
  · have hpos := hr.pos
    have hx : 0 ≤ x := by linarith
    obtain ⟨hxy, hyx⟩ := h.bounds hr.nonneg hr.le_one hk hx
    have hylo : lo ≤ y := by linarith
    have hyhi : y ≤ hi := by linarith
    have hnonneg := hr.nonneg
    have hone := hr.le_one
    constructor
    · calc (1 - u) ^ (k + 1) * x = (1 - u) * ((1 - u) ^ k * x) := by ring
        _ ≤ (1 - u) * y := mul_le_mul_of_nonneg_left h.lower (by linarith)
        _ ≤ fl y := hr.lower y hylo hyhi
    · calc fl y ≤ (1 + u) * y := hr.upper y hylo hyhi
        _ ≤ (1 + u) * ((1 + u) ^ k * x) := mul_le_mul_of_nonneg_left h.upper (by linarith)
        _ = (1 + u) ^ (k + 1) * x := by ring

/-! ## §2. Sums. -/

/-- Numbers in the range add up to one above its lower end. -/
theorem Rounds.add_low (hr : Rounds fl u lo hi) (hx : x = 0 ∨ 2 * lo ≤ x)
    (hy : y = 0 ∨ 2 * lo ≤ y) : x + y = 0 ∨ 2 * lo ≤ x + y := by
  have hpos := hr.pos
  rcases hx with rfl | hx
  · simpa using hy
  · rcases hy with rfl | hy
    · exact .inr (by linarith)
    · exact .inr (by linarith)

theorem Rounds.low_nonneg (hr : Rounds fl u lo hi) (hx : x = 0 ∨ 2 * lo ≤ x) : 0 ≤ x := by
  have hpos := hr.pos
  rcases hx with rfl | hx
  · exact le_rfl
  · linarith

variable {α : Type*} {f g : α → ℚ}

/-- **A sum that is rounded after each addition** is off by one rounding for each
term more than the terms. -/
theorem Rounds.foldl (hr : Rounds fl u lo hi) {js : List α}
    (hnear : ∀ j ∈ js, Near u l (f j) (g j)) (hlow : ∀ j ∈ js, f j = 0 ∨ 2 * lo ≤ f j)
    (hlk : l ≤ k) (hx : x = 0 ∨ 2 * lo ≤ x) (h : Near u k x y)
    (hhi : 2 * (x + (js.map f).sum) ≤ hi) (hk : (k + js.length : Nat) * u ≤ 1 / 2) :
    Near u (k + js.length) (x + (js.map f).sum) (js.foldl (fun a j => fl (a + g j)) y) := by
  induction js generalizing x y k with
  | nil => simpa using h
  | cons j js ih =>
    have hj := hlow j List.mem_cons_self
    have hterm : Near u k (f j) (g j) :=
      (hnear j List.mem_cons_self).mono hr.nonneg hr.le_one (hr.low_nonneg hj) hlk
    rw [List.map_cons, List.sum_cons] at hhi ⊢
    rw [List.length_cons] at hk ⊢
    -- the later terms are not negative, so the sum is still in range
    have hrest : 0 ≤ (js.map f).sum := by
      refine List.sum_nonneg fun q hq => ?_
      obtain ⟨i, hi, rfl⟩ := List.mem_map.mp hq
      exact hr.low_nonneg (hlow i (List.mem_cons_of_mem j hi))
    have hxj := hr.add_low hx hj
    have hinside : Inside lo hi (x + f j) := hxj.imp_right fun hle => ⟨hle, by linarith⟩
    have hstep : Near u (k + 1) (x + f j) (fl (y + g j)) := by
      refine hr.near (le_trans ?_ hk) hinside (h.add hterm)
      exact mul_le_mul_of_nonneg_right (by exact_mod_cast by omega) hr.nonneg
    have hgo := ih (fun i hi => hnear i (List.mem_cons_of_mem j hi))
      (fun i hi => hlow i (List.mem_cons_of_mem j hi)) (by omega) hxj hstep (by linarith)
      (by rwa [show k + 1 + js.length = k + (js.length + 1) by omega])
    rw [List.foldl_cons, show k + (js.length + 1) = k + 1 + js.length by omega, ← add_assoc x]
    exact hgo

/-! ## §3. The nearest number. -/

/-- `x`, rounded to the nearest number of `p` binary digits; in the middle, to
the upper one. -/
def nearest (p : Nat) (x : ℚ) : ℚ :=
  round (x / 2 ^ (Int.log 2 x + 1 - p)) * 2 ^ (Int.log 2 x + 1 - p)

theorem nearest_error (p : Nat) (hx : 0 < x) : |x - nearest p x| ≤ 1 / 2 ^ p * x := by
  have hunit : (0 : ℚ) < 2 ^ (Int.log 2 x + 1 - p) := zpow_pos (by norm_num) _
  have hround := abs_sub_round (x / 2 ^ (Int.log 2 x + 1 - p))
  have herror : |x - nearest p x| ≤ 1 / 2 * 2 ^ (Int.log 2 x + 1 - p) := by
    have hx' : x = x / 2 ^ (Int.log 2 x + 1 - p) * 2 ^ (Int.log 2 x + 1 - p) := by
      field_simp
    unfold nearest
    rw [show x - round (x / 2 ^ (Int.log 2 x + 1 - p)) * 2 ^ (Int.log 2 x + 1 - p) =
      (x / 2 ^ (Int.log 2 x + 1 - p) - round (x / 2 ^ (Int.log 2 x + 1 - p))) *
        2 ^ (Int.log 2 x + 1 - p) by rw [sub_mul, ← hx'], abs_mul, abs_of_pos hunit]
    exact mul_le_mul_of_nonneg_right hround hunit.le
  have hlog : (2 : ℚ) ^ Int.log 2 x ≤ x := by
    exact_mod_cast Int.zpow_log_le_self (b := 2) (by decide) hx
  calc |x - nearest p x| ≤ 1 / 2 * 2 ^ (Int.log 2 x + 1 - p) := herror
    _ = 1 / 2 ^ p * 2 ^ Int.log 2 x := by
        rw [zpow_sub₀ (by norm_num), zpow_add₀ (by norm_num), zpow_one, zpow_natCast]
        field_simp
    _ ≤ 1 / 2 ^ p * x := mul_le_mul_of_nonneg_left hlog (by positivity)

/-- It is a rounding, with no end to its range. -/
theorem nearest_rounds (p : Nat) (hlo : 0 < lo) : Rounds (nearest p) (1 / 2 ^ p) lo hi where
  nonneg := by positivity
  le_one := by
    rw [div_le_one (by positivity)]
    exact one_le_pow₀ (by norm_num)
  pos := hlo
  zero := by simp [nearest]
  lower x hx _ := by
    have herror := (abs_le.mp (nearest_error p (hlo.trans_le hx))).2
    linarith
  upper x hx _ := by
    have herror := (abs_le.mp (nearest_error p (hlo.trans_le hx))).1
    linarith

end Floating
