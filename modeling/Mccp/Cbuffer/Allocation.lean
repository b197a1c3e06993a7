/-
  Mccp.Cbuffer.Allocation
  ───────────────────────
  **EVERY SLOT INSIDE THE BLOCK.**

  mccp_cbuffer_create_with_size() computes the size of its block from
  `elemsize` and `maxelems`, and s_data_addr() the place of a slot from an
  index, each with its own 64-bit product.  The two agree as long as the size
  does not wrap; where it does, malloc() hands out a block that is too short
  and creation still returns OK.

      slotsSafe_of_fits      — no wrap: the slots are inside and apart
      create_slotsSafe_iff   — the slots are safe exactly when nothing wraps
-/
import Mccp.Cbuffer.Behaviour

namespace Mccp.Cbuffer

open Memory

/-! ## §1. What the slots of a buffer should be. -/

/-- The indices that s_data_addr() takes: an `int64_t` from 0 on. -/
def IsIndex (idx : Int) : Prop := 0 ≤ idx ∧ idx < 2 ^ 63

/-- **The slots are safe**: the bytes of every index lie in the block, and two
indices that differ modulo `maxelems + 1` share none. -/
structure SlotsSafe (cb : Record) : Prop where
  inside : ∀ idx, IsIndex idx →
    ∃ addr, sDataAddr cb idx = some addr ∧ addr + cb.elementSize ≤ cb.block.size
  apart : ∀ i j, IsIndex i → IsIndex j →
    i % (cb.nMaxElements + 1) ≠ j % (cb.nMaxElements + 1) →
    ∀ a b, sDataAddr cb i = some a → sDataAddr cb j = some b →
      a + cb.elementSize ≤ b ∨ b + cb.elementSize ≤ a

/-- Creation stays inside its block, and so do the slots of what it hands out. -/
structure CreatesSafe (env : CreateEnv) (elemsize : UInt64) (maxelems : Int64) (proc : Bool) :
    Prop where
  stays : createWithSize env elemsize maxelems proc ≠ .error .outOfBlock
  slots : ∀ cb, createWithSize env elemsize maxelems proc = .ok (.ok, some cb) → SlotsSafe cb

/-! ## §2. Where nothing wraps. -/

section
variable {es cap : Nat} {delProc : Bool} {cb : Record} {items : List Value}

/-- **No wrap: the slots are inside and apart.** -/
theorem slotsSafe_of_fits (hz : Sizes es cap) (h : Stores es cap delProc cb items) :
    SlotsSafe cb where
  inside idx hidx := by
    refine ⟨_, h.sDataAddr hz hidx.1, ?_⟩
    rw [h.elementSize]
    exact h.slot_le idx.toNat
  apart i j hi hj hne a b ha hb := by
    rw [h.sDataAddr hz hi.1, Option.some.injEq] at ha
    rw [h.sDataAddr hz hj.1, Option.some.injEq] at hb
    have hslots : i.toNat % (cap + 1) ≠ j.toNat % (cap + 1) := by
      intro heq
      apply hne
      rw [h.nMaxElements, ← Int.toNat_of_nonneg hi.1, ← Int.toNat_of_nonneg hj.1]
      exact_mod_cast heq
    have hdisj : slot es (cap + 1) i.toNat + es ≤ slot es (cap + 1) j.toNat ∨
        slot es (cap + 1) j.toNat + es ≤ slot es (cap + 1) i.toNat :=
      slot_disjoint_of_mod_ne hslots
    rw [h.elementSize]
    omega

/-! ## §3. Where the size wraps. -/

/-- **A wrap: some slot ends behind the block.** -/
theorem Filled.not_slotsSafe {size : Nat} (h : Filled es cap size 0 cb) (hes : es < 2 ^ 64)
    (hcap : cap < 2 ^ 63) (hcap0 : 0 < cap)
    (hsize : size = (sizeofRecord + es * (cap + 1)) % 2 ^ 64) (hdata : offsetofData ≤ size)
    (hwrap : 2 ^ 64 ≤ sizeofRecord + es * (cap + 1)) : ¬ SlotsSafe cb := by
  intro hsafe
  obtain ⟨j, hj, hfit, hover⟩ := exists_slot_past hes hcap0 hsize hdata hwrap
  obtain ⟨addr, haddr, hin⟩ := hsafe.inside j ⟨Int.natCast_nonneg j, by omega⟩
  rw [h.sDataAddr_lt hcap hj hfit (by omega), Option.some.injEq] at haddr
  rw [h.elementSize, h.blockSize, ← haddr] at hin
  have hmul : (j + 1) * es = j * es + es := Nat.succ_mul j es
  omega

end

/-! ## §4. The buffers that creation hands out. -/

/-- **Every slot of a created buffer lies inside its block, apart from the
others, exactly when the size of the block does not wrap.** -/
theorem create_slotsSafe_iff (env : CreateEnv) (elemsize : UInt64) (maxelems : Int64)
    (proc : Bool) (hes : 0 < elemsize.toNat) (hmx : 0 < maxelems.toInt)
    (hmem : (env.malloc (allocSize elemsize maxelems)).isSome) (hlocks : env.locks = .ok) :
    CreatesSafe env elemsize maxelems proc ↔
      sizeofRecord + elemsize.toNat * (maxelems.toInt.toNat + 1) < 2 ^ 64 := by
  have hcap : maxelems.toInt.toNat < 2 ^ 63 := by
    have := maxelems.toInt_lt
    omega
  -- what is handed out is the one record that creation makes
  have honly : ∀ {cb cb' : Record},
      createWithSize env elemsize maxelems proc = .ok (.ok, some cb) →
      createWithSize env elemsize maxelems proc = .ok (.ok, some cb') → cb = cb' := by
    intro cb cb' hcb hcb'
    rw [hcb, Except.ok.injEq, Prod.mk.injEq, Option.some.injEq] at hcb'
    exact hcb'.2
  rcases create_outcomes env elemsize maxelems proc hes hmx hmem hlocks with
    ⟨hfits, cb, hcreate, -, hz, hholds⟩ | ⟨hwrap, hstop | ⟨cb, hcreate, hdata, hfilled⟩⟩
  · refine iff_of_true ⟨by rw [hcreate]; simp, ?_⟩ hfits
    intro cb' hcb'
    rw [← honly hcreate hcb']
    exact slotsSafe_of_fits hz hholds.toStores
  · -- not even the record's own fields fit
    exact iff_of_false (fun hsafe => hsafe.stays hstop) (by omega)
  · refine iff_of_false ?_ (by omega)
    intro hsafe
    exact hfilled.not_slotsSafe elemsize.toNat_lt hcap (by omega)
      (allocSize_eq elemsize maxelems hmx) hdata hwrap (hsafe.slots cb hcreate)

/-- Four slots of eight bytes, and the empty one, are safe. -/
theorem create_slotsSafe_small : CreatesSafe roomy 8 4 true :=
  (create_slotsSafe_iff roomy 8 4 true (by decide) (by decide) rfl rfl).mpr (by decide)

/-- 2^60 slots of sixteen bytes wrap to none: creation returns OK with a block
of 104 bytes, and the very first slot ends at byte 116. -/
theorem create_slot_past_block :
    ∃ cb, createWithSize roomy 16 (2 ^ 60 - 1) false = .ok (.ok, some cb) ∧
      cb.block.size = 104 ∧ cb.elementSize = 16 ∧ sDataAddr cb 0 = some 100 ∧
      ¬ SlotsSafe cb := by
  obtain ⟨hcreate, hfilled⟩ := create_wrapped
  refine ⟨wrapped, hcreate, rfl, rfl, ?_, ?_⟩
  · exact hfilled.sDataAddr_lt (by decide) (by decide) (by decide) (by decide)
  · exact hfilled.not_slotsSafe (by decide) (by decide) (by decide) (by decide) (by decide)
      (by decide)

end Mccp.Cbuffer
