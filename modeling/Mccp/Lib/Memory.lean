/-
  Mccp.Lib.Memory
  ───────────────
  **MACHINE WORDS AND ALLOCATED BLOCKS.**

  `int64` and `size64` are the conversions of C to a signed and an unsigned
  64-bit type: reduction modulo 2^64, read as two's complement or as a
  natural number.

  A `Block` is what an allocator hands out: a size, and that many bytes.
  `write`, `read` and `fill` are the memory accesses of memcpy and memset;
  they answer `none` where the access leaves the block, which no caller may
  rely on.  The two laws that array code needs are `read_write_same` and
  `read_write_disjoint`.

  `slot es N k` is where the `k`-th element of an endless sequence lives in a
  circular array of `N` elements of `es` bytes; elements at different places
  (`slot_disjoint_of_mod_ne`), so fewer than `N` consecutive ones
  (`slot_disjoint`), never overlap.
-/
import Mathlib.Data.List.Basic
import Mathlib.Data.List.GetD
import Mathlib.Data.Int.ModEq
import Mathlib.Tactic.Ring

namespace Memory

/-! ## §1. 64-bit words. -/

/-- Conversion to a signed 64-bit integer (two's complement). -/
def int64 (x : Int) : Int := (x + 2 ^ 63) % 2 ^ 64 - 2 ^ 63

/-- Conversion to an unsigned 64-bit integer. -/
def size64 (x : Int) : Nat := (x % 2 ^ 64).toNat

theorem int64_of_range {x : Int} (h : -2 ^ 63 ≤ x) (h' : x < 2 ^ 63) : int64 x = x := by
  unfold int64
  omega

theorem size64_of_range {x : Nat} (h : x < 2 ^ 64) : size64 (x : Int) = x := by
  unfold size64
  omega

theorem size64_natCast (x : Nat) : size64 (x : Int) = x % 2 ^ 64 := by
  unfold size64
  omega

theorem int64_modEq (x : Int) : int64 x ≡ x [ZMOD 2 ^ 64] := by
  show int64 x % 2 ^ 64 = x % 2 ^ 64
  unfold int64
  omega

theorem size64_modEq (x : Int) : (size64 x : Int) ≡ x [ZMOD 2 ^ 64] := by
  show (size64 x : Int) % 2 ^ 64 = x % 2 ^ 64
  unfold size64
  omega

theorem size64_congr {x y : Int} (h : x ≡ y [ZMOD 2 ^ 64]) : size64 x = size64 y :=
  congrArg Int.toNat h

/-- The remainder of a division by a converted divisor.  The largest divisor,
2^63, becomes negative, and C's remainder does not look at its sign. -/
theorem tmod_int64 {x n : Int} (hx : 0 ≤ x) (hn : 0 < n) (hn' : n ≤ 2 ^ 63) :
    x.tmod (int64 n) = x % n := by
  by_cases h : n < 2 ^ 63
  · rw [int64_of_range (by omega) h]
    exact Int.tmod_eq_emod_of_nonneg hx
  · have hn63 : n = 2 ^ 63 := by omega
    have hneg : int64 n = -n := by
      unfold int64
      omega
    rw [hneg, Int.tmod_neg]
    exact Int.tmod_eq_emod_of_nonneg hx

/-! ## §2. Blocks. -/

/-- An allocated block: `size` bytes, numbered from 0. -/
structure Block where
  size : Nat
  bytes : Nat → UInt8

/-- Copy `v` into the block at offset `off`. -/
def Block.write (b : Block) (off : Nat) (v : List UInt8) : Option Block :=
  if off + v.length ≤ b.size then
    some { b with
      bytes := fun i => if off ≤ i ∧ i < off + v.length then v.getD (i - off) 0 else b.bytes i }
  else none

/-- Copy `len` bytes out of the block from offset `off`. -/
def Block.read (b : Block) (off len : Nat) : Option (List UInt8) :=
  if off + len ≤ b.size then some ((List.range len).map (fun i => b.bytes (off + i))) else none

/-- Set `len` bytes of the block from offset `off` to `x`. -/
def Block.fill (b : Block) (off len : Nat) (x : UInt8) : Option Block :=
  if off + len ≤ b.size then
    some { b with bytes := fun i => if off ≤ i ∧ i < off + len then x else b.bytes i }
  else none

/-! ## §3. The laws of reading and writing. -/

variable {b b' : Block} {off off' len : Nat} {v : List UInt8} {x : UInt8}

theorem Block.write_isSome (h : off + v.length ≤ b.size) : ∃ b', b.write off v = some b' := by
  unfold Block.write
  rw [if_pos h]
  exact ⟨_, rfl⟩

theorem Block.write_none (h : b.size < off + v.length) : b.write off v = none := by
  unfold Block.write
  rw [if_neg (by omega)]

theorem Block.write_size (h : b.write off v = some b') : b'.size = b.size := by
  unfold Block.write at h
  split at h
  next =>
    injection h with h
    subst h
    rfl
  next => exact absurd h (by simp)

theorem Block.fill_isSome (h : off + len ≤ b.size) : ∃ b', b.fill off len x = some b' := by
  unfold Block.fill
  rw [if_pos h]
  exact ⟨_, rfl⟩

theorem Block.fill_size (h : b.fill off len x = some b') : b'.size = b.size := by
  unfold Block.fill at h
  split at h
  next =>
    injection h with h
    subst h
    rfl
  next => exact absurd h (by simp)

/-- What was written is what is read back. -/
theorem Block.read_write_same (h : b.write off v = some b') : b'.read off v.length = some v := by
  have hsize := Block.write_size h
  unfold Block.write at h
  split at h
  next hb =>
    injection h with h
    subst h
    unfold Block.read
    rw [if_pos hb]
    refine congrArg some (List.ext_getElem (by simp) ?_)
    intro i h₁ h₂
    simp [h₂]
  next => exact absurd h (by simp)

/-- A write leaves every disjoint range as it was. -/
theorem Block.read_write_disjoint (h : b.write off v = some b')
    (hd : off + v.length ≤ off' ∨ off' + len ≤ off) : b'.read off' len = b.read off' len := by
  unfold Block.write at h
  split at h
  next hb =>
    injection h with h
    subst h
    unfold Block.read
    refine if_congr Iff.rfl (congrArg some ?_) rfl
    apply List.map_congr_left
    intro i hi
    have hi' : i < len := List.mem_range.mp hi
    exact if_neg (by omega)
  next => exact absurd h (by simp)

/-! ## §4. Circular arrays of slots. -/

/-- The offset of element `k` in a circular array of `N` slots of `es` bytes. -/
def slot (es N k : Nat) : Nat := k % N * es

theorem slot_bound {es N k : Nat} (hN : 0 < N) : slot es N k + es ≤ es * N := by
  unfold slot
  have hk : k % N + 1 ≤ N := Nat.mod_lt k hN
  calc k % N * es + es = es * (k % N + 1) := by ring
    _ ≤ es * N := Nat.mul_le_mul_left es hk

/-- Within one turn of the array, different elements have different slots. -/
theorem mod_ne_of_lt_turn {N i j : Nat} (hij : i < j) (hj : j < i + N) : i % N ≠ j % N := by
  intro h
  have hdvd : N ∣ j - i := (Nat.modEq_iff_dvd' (Nat.le_of_lt hij)).mp h
  have := Nat.le_of_dvd (by omega) hdvd
  omega

/-- Slots of elements at different places of the array do not overlap. -/
theorem slot_disjoint_of_mod_ne {es N i j : Nat} (hne : i % N ≠ j % N) :
    slot es N i + es ≤ slot es N j ∨ slot es N j + es ≤ slot es N i := by
  unfold slot
  rcases Nat.lt_or_gt_of_ne hne with h | h
  · left
    calc i % N * es + es = (i % N + 1) * es := by ring
      _ ≤ j % N * es := Nat.mul_le_mul_right es h
  · right
    calc j % N * es + es = (j % N + 1) * es := by ring
      _ ≤ i % N * es := Nat.mul_le_mul_right es h

/-- Slots of different elements within one turn do not overlap. -/
theorem slot_disjoint {es N i j : Nat} (hij : i < j) (hj : j < i + N) :
    slot es N i + es ≤ slot es N j ∨ slot es N j + es ≤ slot es N i :=
  slot_disjoint_of_mod_ne (mod_ne_of_lt_turn hij hj)

end Memory
