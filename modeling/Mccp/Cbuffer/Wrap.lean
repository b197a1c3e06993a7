/-
  Mccp.Cbuffer.Wrap
  ─────────────────
  **WHEN THE WRITE INDEX WRAPS: THE CASE OF s_adjust_indices.**

  After 2^63 puts `m_w_idx` becomes negative, and the next call sets it to the
  number of slots and reduces `m_r_idx` modulo that number.  The new read index
  still names the slot of the oldest value, but the new write index always
  names slot 0, which is the slot after the newest value only where the number
  of slots divides 2^63.

      Wrapped                — the record right after the index has wrapped
      SameQueue              — what the record should be good for afterwards
      adjust_same_queue_iff  — exactly when it is
      Stores.put_wraps       — the put that wraps the index leads here
      SameQueue.stores       — and where it works, the record is as before
-/
import Mccp.Cbuffer.Refinement
import Mathlib.Data.Nat.Prime.Basic

namespace Mccp.Cbuffer

open Memory Monitor Transition

/-! ## §1. Before and after the adjustment. -/

/-- The record holds the values, and its write index has just wrapped from
2^63: value `i` is in the slot of the index `2^63 - n + i`. -/
structure Wrapped (cap : Nat) (cb : Record) (items : List Value) : Prop where
  nMaxAllocdElements : cb.nMaxAllocdElements = int64 (cap + 1)
  cap_lt : cap < 2 ^ 63
  length_le : items.length ≤ cap
  wIdx_eq : cb.wIdx = int64 (2 ^ 63)
  rIdx_eq : cb.rIdx = int64 (2 ^ 63 - items.length)
  nElements_eq : cb.nElements = items.length
  slots : ∀ i (h : i < items.length),
    cb.block.read (offsetofData + size64
      (slot cb.elementSize (cap + 1) (2 ^ 63 - items.length + i) : Nat)) cb.elementSize
        = some items[i]

/-- **The record is good for the same sequence of values**: the indices from
`m_r_idx` on name the slots of the values, `m_w_idx` names the slot right after
the newest one and none of those still held, and the indices count. -/
structure SameQueue (cb : Record) (items : List Value) : Prop where
  gets : ∀ i (h : i < items.length), ∃ addr, sDataAddr cb (cb.rIdx + i) = some addr ∧
    cb.block.read addr cb.elementSize = some items[i]
  put : ∃ addr, sDataAddr cb cb.wIdx = some addr ∧
    sDataAddr cb (cb.rIdx + items.length) = some addr
  free : ∀ i, i < items.length →
    cb.wIdx.tmod cb.nMaxAllocdElements ≠ (cb.rIdx + i).tmod cb.nMaxAllocdElements
  count : cb.wIdx - cb.rIdx = cb.nElements

variable {es cap : Nat} {delProc : Bool} {cb : Record} {items : List Value}

/-- The adjustment of a wrapped record. -/
theorem Wrapped.adjust (h : Wrapped cap cb items) :
    sAdjustIndices cb = { cb with
      wIdx := int64 (cap + 1)
      rIdx := (int64 (2 ^ 63 - items.length)).tmod (int64 (cap + 1)) } := by
  have hneg : ¬ 0 ≤ cb.wIdx := by
    rw [h.wIdx_eq]
    decide
  rw [sAdjustIndices, if_neg hneg, h.nMaxAllocdElements, h.rIdx_eq]

/-- An empty record never counts again: the read index has wrapped, too, and
its remainder is not positive. -/
theorem Wrapped.not_same_of_empty (h : Wrapped cap cb []) :
    ¬ SameQueue (sAdjustIndices cb) [] := by
  intro hsame
  have hcount := hsame.count
  have hlt := h.cap_lt
  have hn := h.nElements_eq
  rw [h.adjust] at hcount
  simp only [List.length_nil, Nat.cast_zero, sub_zero] at hcount hn
  have hwrap : int64 (2 ^ 63) = -2 ^ 63 := by decide
  have hrest : 0 ≤ (2 : Int) ^ 63 % (cap + 1) := Int.emod_nonneg _ (by omega)
  rw [hwrap, Int.neg_tmod, tmod_int64 (by omega) (by omega) (by omega), hn] at hcount
  by_cases hsmall : cap + 1 < 2 ^ 63
  · rw [int64_of_range (by omega) (by omega)] at hcount
    omega
  · have hcap : (cap : Int) + 1 = 2 ^ 63 := by omega
    rw [hcap, hwrap] at hcount
    exact absurd hcount (by decide)

/-- With values held, the new read index is the remainder of the old one. -/
theorem Wrapped.rIdx_adjust (h : Wrapped cap cb items) (hne : items ≠ []) :
    (sAdjustIndices cb).rIdx = (2 ^ 63 - items.length) % (cap + 1) := by
  have hpos := List.length_pos_of_ne_nil hne
  have hle := h.length_le
  have hlt := h.cap_lt
  rw [h.adjust]
  show (int64 (2 ^ 63 - items.length)).tmod (int64 (cap + 1)) = _
  rw [int64_of_range (by omega) (by omega), tmod_int64 (by omega) (by omega) (by omega)]

/-- The indices count again only where the slots divide 2^63. -/
theorem Wrapped.dvd_of_count (h : Wrapped cap cb items) (hne : items ≠ [])
    (hcount : (sAdjustIndices cb).wIdx - (sAdjustIndices cb).rIdx = (sAdjustIndices cb).nElements) :
    cap + 1 < 2 ^ 63 ∧ cap + 1 ∣ 2 ^ 63 := by
  have hlt := h.cap_lt
  have hrest : 0 ≤ ((2 : Int) ^ 63 - items.length) % (cap + 1) := Int.emod_nonneg _ (by omega)
  rw [h.rIdx_adjust hne, h.adjust] at hcount
  change int64 (cap + 1) - (2 ^ 63 - (items.length : Int)) % (cap + 1) = cb.nElements at hcount
  rw [h.nElements_eq] at hcount
  by_cases hsmall : cap + 1 < 2 ^ 63
  · refine ⟨hsmall, ?_⟩
    rw [int64_of_range (by omega) (by omega)] at hcount
    -- 2^63 - n leaves cap + 1 - n
    have hdiv := Int.mul_ediv_add_emod (2 ^ 63 - (items.length : Int)) (cap + 1)
    generalize (2 ^ 63 - (items.length : Int)) / (cap + 1) = q at hdiv
    have hint : ((cap + 1 : Nat) : Int) ∣ ((2 ^ 63 : Nat) : Int) := by
      refine ⟨q + 1, ?_⟩
      push_cast
      rw [mul_add, mul_one]
      omega
    exact Int.natCast_dvd_natCast.mp hint
  · have hcap : (cap : Int) + 1 = 2 ^ 63 := by omega
    have hwrap : int64 (2 ^ 63) = -2 ^ 63 := by decide
    rw [hcap, hwrap] at hcount
    omega

/-- Where the slots divide 2^63, the new read index is short of them by the
values held. -/
theorem Wrapped.rIdx_of_dvd (h : Wrapped cap cb items) (hne : items ≠ [])
    (hdvd : cap + 1 ∣ 2 ^ 63) :
    (sAdjustIndices cb).rIdx = ((cap + 1 - items.length : Nat) : Int) := by
  have hpos := List.length_pos_of_ne_nil hne
  have hle := h.length_le
  have hmod : (2 ^ 63 - (items.length : Int)) ≡ (cap + 1 - items.length : Int) [ZMOD cap + 1] := by
    have hzero : (2 : Int) ^ 63 ≡ cap + 1 [ZMOD cap + 1] := by
      obtain ⟨m, hm⟩ := hdvd
      have hm' : (2 : Int) ^ 63 = (cap + 1) * m := by exact_mod_cast hm
      rw [hm']
      exact (Int.modEq_zero_iff_dvd.mpr ⟨m, rfl⟩).trans
        (Int.modEq_zero_iff_dvd.mpr (dvd_refl _)).symm
    exact hzero.sub_right _
  rw [h.rIdx_adjust hne, hmod.eq, Int.emod_eq_of_lt (by omega) (by omega)]
  omega

/-- The slot of value `i` is that of the new index. -/
theorem slot_rIdx (hle : items.length ≤ cap) (hcap : cap < 2 ^ 63) (hdvd : cap + 1 ∣ 2 ^ 63)
    (i : Nat) :
    slot es (cap + 1) (2 ^ 63 - items.length + i)
      = slot es (cap + 1) (cap + 1 - items.length + i) := by
  unfold slot
  have hmod : cap + 1 - items.length ≡ 2 ^ 63 - items.length [MOD cap + 1] := by
    rw [Nat.modEq_iff_dvd' (by omega)]
    have hdiff : 2 ^ 63 - items.length - (cap + 1 - items.length) = 2 ^ 63 - (cap + 1) := by omega
    rw [hdiff]
    exact Nat.dvd_sub hdvd (dvd_refl _)
  rw [(hmod.add_right i).symm]

/-- **Where the slots divide 2^63, the adjusted record is good for its queue.** -/
theorem Wrapped.same_of_dvd (h : Wrapped cap cb items) (hne : items ≠ [])
    (hsmall : cap + 1 < 2 ^ 63) (hdvd : cap + 1 ∣ 2 ^ 63) :
    SameQueue (sAdjustIndices cb) items := by
  have hpos := List.length_pos_of_ne_nil hne
  have hle := h.length_le
  have hr := h.rIdx_of_dvd hne hdvd
  have hN : (sAdjustIndices cb).nMaxAllocdElements = int64 (cap + 1) := by
    rw [h.adjust]
    exact h.nMaxAllocdElements
  have hw : (sAdjustIndices cb).wIdx = cap + 1 := by
    rw [h.adjust]
    exact int64_of_range (by omega) (by omega)
  have hblock : (sAdjustIndices cb).block = cb.block := by rw [h.adjust]
  have hes : (sAdjustIndices cb).elementSize = cb.elementSize := by rw [h.adjust]
  refine ⟨?_, ?_, ?_, ?_⟩
  · intro i hi
    refine ⟨_, sDataAddr_eq h.cap_lt hN (by omega), ?_⟩
    have hidx : ((sAdjustIndices cb).rIdx + i).toNat = cap + 1 - items.length + i := by omega
    rw [hidx, hblock, hes, ← slot_rIdx hle h.cap_lt hdvd]
    exact h.slots i hi
  · refine ⟨_, sDataAddr_eq h.cap_lt hN (by omega), ?_⟩
    rw [show (sAdjustIndices cb).rIdx + items.length = (sAdjustIndices cb).wIdx by omega]
    exact sDataAddr_eq h.cap_lt hN (by omega)
  · intro i hi
    rw [hN, tmod_int64 (by omega) (by omega) (by omega),
      tmod_int64 (by omega) (by omega) (by omega), hw, Int.emod_self,
      Int.emod_eq_of_lt (by omega) (by omega)]
    omega
  · have hn : (sAdjustIndices cb).nElements = cb.nElements := by rw [h.adjust]
    rw [hn, h.nElements_eq]
    omega

/-- **The adjustment keeps the queue exactly when values are held and the
number of slots is a power of two below 2^63.** -/
theorem adjust_same_queue_iff (h : Wrapped cap cb items) :
    SameQueue (sAdjustIndices cb) items ↔ items ≠ [] ∧ ∃ k ≤ 62, cap + 1 = 2 ^ k := by
  constructor
  · intro hsame
    have hne : items ≠ [] := by
      intro heq
      subst heq
      exact h.not_same_of_empty hsame
    obtain ⟨hsmall, hdvd⟩ := h.dvd_of_count hne hsame.count
    obtain ⟨k, hk, hcap⟩ := (Nat.dvd_prime_pow Nat.prime_two).mp hdvd
    refine ⟨hne, k, ?_, hcap⟩
    by_contra hbig
    have hk63 : k = 63 := by omega
    rw [hcap, hk63] at hsmall
    exact absurd hsmall (Nat.lt_irrefl _)
  · intro hboth
    obtain ⟨hne, k, hk, hcap⟩ := hboth
    have hdvd : cap + 1 ∣ 2 ^ 63 := hcap ▸ pow_dvd_pow 2 (by omega)
    have hsmall : cap + 1 < 2 ^ 63 := hcap ▸ Nat.pow_lt_pow_right (by omega) (by omega)
    exact h.same_of_dvd hne hsmall hdvd

/-- Four slots: the value in the last one stays the oldest, and slot 0 is next. -/
theorem adjust_same_queue_four_slots :
    ∃ cb : Record, Wrapped 3 cb [[7]] ∧ SameQueue (sAdjustIndices cb) [[7]] := by
  let cb : Record := {
    rIdx := 2 ^ 63 - 1
    wIdx := -2 ^ 63
    nElements := 1
    isOperational := true
    delProc := false
    elementSize := 1
    nMaxElements := 3
    nMaxAllocdElements := 4
    qmuxer := none
    type := .unknown
    block := { size := 108, bytes := fun i => if i = 103 then 7 else 0 } }
  have hcb : Wrapped 3 cb [[7]] := by
    refine ⟨by decide, by decide, by decide, by decide, by decide, rfl, ?_⟩
    intro i hi
    have hi0 : i = 0 := by simpa using hi
    subst hi0
    rfl
  exact ⟨cb, hcb, (adjust_same_queue_iff hcb).mpr ⟨by simp, 2, by decide, rfl⟩⟩

/-- Three slots, one value in the last slot before the wrap: the next put goes
to slot 0, the second get reads slot 2. -/
theorem wrapped_three_slots :
    ∃ cb : Record, Wrapped 2 cb [[7]] ∧ ¬ SameQueue (sAdjustIndices cb) [[7]] ∧
      (exec (next code) (State.init Unit cb)
        [.call () (.put (some [9]) (-1)), .call () (.get (some 1) (-1)),
          .call () (.get (some 1) (-1))]).map Prod.fst = some
        [.seg () (.enter (.put (some [9]) (-1))) (.returned { result := .ok }),
          .seg () (.enter (.get (some 1) (-1))) (.returned { result := .ok, val := some [7] }),
          .seg () (.enter (.get (some 1) (-1)))
            (.returned { result := .ok, val := some [0] })] := by
  let cb : Record := {
    rIdx := 2 ^ 63 - 1
    wIdx := -2 ^ 63
    nElements := 1
    isOperational := true
    delProc := false
    elementSize := 1
    nMaxElements := 2
    nMaxAllocdElements := 3
    qmuxer := none
    type := .unknown
    block := { size := 107, bytes := fun i => if i = 101 then 7 else 0 } }
  have hcb : Wrapped 2 cb [[7]] := by
    refine ⟨by decide, by decide, by decide, by decide, by decide, rfl, ?_⟩
    intro i hi
    have hi0 : i = 0 := by simpa using hi
    subst hi0
    rfl
  refine ⟨cb, hcb, ?_, by decide +kernel⟩
  intro hsame
  exact absurd hsame.count (by decide)

/-! ## §3. The put that wraps. -/

/-- A record good for a queue, with a read index in range, stores it. -/
theorem SameQueue.stores (hz : Sizes es cap) (hsame : SameQueue cb items) (h0 : 0 ≤ cb.rIdx)
    (hes : cb.elementSize = es) (hdel : cb.delProc = delProc) (hmax : cb.nMaxElements = cap)
    (hN : cb.nMaxAllocdElements = int64 (cap + 1))
    (hsize : cb.block.size = sizeofRecord + es * (cap + 1)) (hn : cb.nElements = items.length) :
    Stores es cap delProc cb items where
  elementSize := hes
  delProc_eq := hdel
  nMaxElements := hmax
  nMaxAllocdElements := hN
  blockSize := hsize
  rIdx_nonneg := h0
  wIdx_eq := by
    have := hsame.count
    omega
  nElements_eq := hn
  slots := by
    intro i hi
    obtain ⟨addr, haddr, hread⟩ := hsame.gets i hi
    have hfits := hz.fits
    have hbound : slot es (cap + 1) (cb.rIdx.toNat + i) + es ≤ es * (cap + 1) :=
      slot_bound (Nat.succ_pos cap)
    rw [sDataAddr_eq hz.cap_lt hN (by omega), hes,
      show (cb.rIdx + i).toNat = cb.rIdx.toNat + i by omega,
      size64_of_range (by unfold sizeofRecord at hfits; omega), Option.some.injEq] at haddr
    rw [haddr, ← hes]
    exact hread

/-- **The put at the last index leaves a wrapped record**, and where the number
of slots is a power of two below 2^63, the next call finds a record that stores
the list as any other. -/
theorem Stores.put_wraps (hz : Sizes es cap) (h : Stores es cap delProc cb items)
    (hopen : cb.isOperational = true) (hlast : cb.wIdx = 2 ^ 63 - 1)
    (hroom : items.length < cap) {v : Value} (hv : v.length = es) (nsec : Int) :
    ∃ cb' r, putRecheck cb v nsec = .ret cb' r [.get] ∧ r.result = .ok ∧
      Wrapped cap cb' (items ++ [v]) ∧
      ((∃ k ≤ 62, cap + 1 = 2 ^ k) →
        Stores es cap delProc (sAdjustIndices cb') (items ++ [v])) := by
  have hlen : (items ++ [v]).length = items.length + 1 := by simp
  have hcap := hz.cap_lt
  have hfits := hz.fits
  have hr := h.rIdx_nonneg
  have hwr := h.wIdx_eq
  have hle := h.slot_le cb.wIdx.toNat
  obtain ⟨block, hwrite⟩ : ∃ block,
      cb.block.write (offsetofData + slot es (cap + 1) cb.wIdx.toNat) v = some block :=
    Block.write_isSome (by omega)
  have hpush := h.push hv hroom hwrite
  let cb' : Record := { cb with
    block := block
    wIdx := int64 (cb.wIdx + 1)
    nElements := int64 (cb.nElements + 1) }
  have hn : cb'.nElements = (items ++ [v]).length := by
    show int64 (cb.nElements + 1) = _
    rw [h.nElements_eq, int64_of_range (by omega) (by omega), hlen]
    rfl
  have hwrapped : Wrapped cap cb' (items ++ [v]) := by
    refine ⟨h.nMaxAllocdElements, hcap, by omega, ?_, ?_, hn, ?_⟩
    · show int64 (cb.wIdx + 1) = _
      rw [hlast]
      rfl
    · show cb.rIdx = _
      rw [int64_of_range (by omega) (by omega), hlen]
      push_cast
      omega
    · -- the values lie where the indices before 2 ^ 63 had put them
      intro i hi
      have hidx : 2 ^ 63 - (items ++ [v]).length + i = cb.rIdx.toNat + i := by omega
      have hbound : slot es (cap + 1) (cb.rIdx.toNat + i) + es ≤ es * (cap + 1) :=
        slot_bound (Nat.succ_pos cap)
      show block.read (offsetofData + size64 (slot cb.elementSize (cap + 1) _ : Nat))
        cb.elementSize = _
      rw [hidx, h.elementSize, size64_of_range (by unfold sizeofRecord at hfits; omega)]
      exact hpush.slots i hi
  refine ⟨cb', { result := .ok, notified := notifyIf cb' needWaitReadable }, ?_, rfl, hwrapped, ?_⟩
  · have hlt : cb.nElements < cb.nMaxElements := by
      rw [h.nElements_eq, h.nMaxElements]
      omega
    unfold putRecheck
    rw [if_pos hopen, sAdjustIndices_eq h.wIdx_nonneg]
    simp only [if_pos hlt, h.sDataAddr hz h.wIdx_nonneg, hwrite]
    rfl
  · -- the number of slots divides 2 ^ 63, so the reduced indices name the same slots
    intro hex
    obtain ⟨k, hk, hpow⟩ := hex
    have hne : items ++ [v] ≠ [] := by simp
    have hdvd : cap + 1 ∣ 2 ^ 63 := hpow ▸ pow_dvd_pow 2 (by omega)
    have hsmall : cap + 1 < 2 ^ 63 := hpow ▸ Nat.pow_lt_pow_right (by omega) (by omega)
    have hsame := hwrapped.same_of_dvd hne hsmall hdvd
    have hrIdx := hwrapped.rIdx_of_dvd hne hdvd
    have hadjust := hwrapped.adjust
    refine hsame.stores hz (by omega) ?_ ?_ ?_ ?_ ?_ ?_
    · rw [hadjust]
      exact h.elementSize
    · rw [hadjust]
      exact h.delProc_eq
    · rw [hadjust]
      exact h.nMaxElements
    · rw [hadjust]
      exact h.nMaxAllocdElements
    · rw [hadjust]
      exact hpush.blockSize
    · rw [hadjust]
      exact hn

end Mccp.Cbuffer
