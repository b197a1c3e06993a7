/-
  Mccp.Cbuffer.Refinement
  ───────────────────────
  **THE CIRCULAR BUFFER IS A BOUNDED FIFO LIST — WHEN ITS BLOCK IS AS LARGE
  AS ITS SLOTS.**

  `Holds` says when a record holds an abstract list: the counters count it,
  and slot `rIdx + i` of the circular array stores value `i`.  Each segment
  of the code is matched by the segment of the list (`seg_sim`), so every run
  of the buffer is, observation for observation, a run of the list.

  The one premise is about the size of the block.  The creation computes
  `sizeof + elemsize * (maxelems + 1)` in 64 bits without a check; where that
  wraps, the block is shorter than the slots, and a run of puts leaves it
  (`puts_leave_block`).
-/
import Mccp.Cbuffer.Fifo

namespace Mccp.Cbuffer

open Memory Monitor Transition

/-! ## §1. When a record holds a list. -/

/-- The sizes of a buffer whose slots fit the address space. -/
structure Sizes (es cap : Nat) : Prop where
  elem_pos : 0 < es
  cap_pos : 0 < cap
  cap_lt : cap < 2 ^ 63
  fits : sizeofRecord + es * (cap + 1) < 2 ^ 64

/-- The counters count the values, and the slots store them. -/
structure Stores (es cap : Nat) (delProc : Bool) (cb : Record) (items : List Value) : Prop where
  elementSize : cb.elementSize = es
  delProc_eq : cb.delProc = delProc
  nMaxElements : cb.nMaxElements = cap
  nMaxAllocdElements : cb.nMaxAllocdElements = int64 (cap + 1)
  blockSize : cb.block.size = sizeofRecord + es * (cap + 1)
  rIdx_nonneg : 0 ≤ cb.rIdx
  wIdx_eq : cb.wIdx = cb.rIdx + items.length
  nElements_eq : cb.nElements = items.length
  slots : ∀ i (h : i < items.length),
    cb.block.read (offsetofData + slot es (cap + 1) (cb.rIdx.toNat + i)) es = some items[i]

/-- **The record holds the list.** -/
structure Holds (es cap : Nat) (delProc : Bool) (cb : Record) (q : Fifo cap) : Prop
    extends Stores es cap delProc cb q.items where
  isOperational : cb.isOperational = q.isOpen

/-- A sleeping put holds a value of the element size. -/
def ContOk (es : Nat) : Cont → Prop
  | .put val _ => val.length = es
  | _ => True

variable {es cap : Nat} {delProc : Bool} {cb : Record} {q : Fifo cap}
  {items : List Value}

/-! ## §2. Slots and indices. -/

theorem sAdjustIndices_eq (h : 0 ≤ cb.wIdx) : sAdjustIndices cb = cb := by
  unfold sAdjustIndices
  rw [if_pos h]

/-- The address of an index is the offset of its slot. -/
theorem sDataAddr_eq (hcap : cap < 2 ^ 63) (hN : cb.nMaxAllocdElements = int64 (cap + 1))
    {idx : Int} (h0 : 0 ≤ idx) :
    sDataAddr cb idx
      = some (offsetofData + size64 (slot cb.elementSize (cap + 1) idx.toNat : Nat)) := by
  have hmod : idx.tmod cb.nMaxAllocdElements = ((idx.toNat % (cap + 1) : Nat) : Int) := by
    rw [hN, tmod_int64 h0 (by omega) (by omega)]
    push_cast
    rw [Int.toNat_of_nonneg h0]
  have hprod : idx.tmod cb.nMaxAllocdElements * int64 cb.elementSize
      ≡ (slot cb.elementSize (cap + 1) idx.toNat : Nat) [ZMOD 2 ^ 64] := by
    rw [hmod]
    unfold slot
    push_cast
    exact (int64_modEq _).mul_left _
  unfold sDataAddr
  rw [if_pos h0, size64_congr hprod]

/-- Where the slots fit, no address wraps. -/
theorem Stores.sDataAddr (hz : Sizes es cap) (h : Stores es cap delProc cb items) {idx : Int}
    (h0 : 0 ≤ idx) :
    sDataAddr cb idx = some (offsetofData + slot es (cap + 1) idx.toNat) := by
  have hb : slot es (cap + 1) idx.toNat + es ≤ es * (cap + 1) := slot_bound (Nat.succ_pos cap)
  have hfits := hz.fits
  rw [sDataAddr_eq hz.cap_lt h.nMaxAllocdElements h0, h.elementSize, size64_of_range (by omega)]

/-- A slot lies inside the block. -/
theorem Stores.slot_le (h : Stores es cap delProc cb items) (k : Nat) :
    offsetofData + slot es (cap + 1) k + es ≤ cb.block.size := by
  have hb : slot es (cap + 1) k + es ≤ es * (cap + 1) := slot_bound (Nat.succ_pos cap)
  rw [h.blockSize]
  unfold offsetofData sizeofRecord
  omega

theorem Stores.wIdx_nonneg (h : Stores es cap delProc cb items) : 0 ≤ cb.wIdx := by
  have := h.rIdx_nonneg
  have := h.wIdx_eq
  omega

/-! ## §3. Emptying the record. -/

/-- The free-up loop hands out the values of its slots, in order. -/
theorem sFreeupLoop_eq (vs : List Value) :
    ∀ (idx : Int), (∀ i (h : i < vs.length), ∃ addr, sDataAddr cb (idx + i) = some addr ∧
        cb.block.read addr cb.elementSize = some vs[i]) →
      sFreeupLoop cb vs.length idx = .ok vs := by
  induction vs with
  | nil =>
    intro idx _
    rfl
  | cons v vs ih =>
    intro idx h
    obtain ⟨addr, haddr, hread⟩ := h 0 (by simp)
    have htail : sFreeupLoop cb vs.length (idx + 1) = .ok vs := by
      apply ih
      intro i hi
      obtain ⟨a, ha, hr⟩ := h (i + 1) (by simpa using hi)
      refine ⟨a, ?_, by simpa using hr⟩
      rw [← ha]
      congr 1
      push_cast
      ring
    have haddr' : sDataAddr cb idx = some addr := by simpa using haddr
    show sFreeupLoop cb (vs.length + 1) idx = _
    unfold sFreeupLoop
    rw [haddr']
    simp only [hread, htail]
    rfl

/-- What is freed is the list, if there is a free-up procedure. -/
theorem Stores.sFreeupAllValues (hz : Sizes es cap) (h : Stores es cap delProc cb items) :
    sFreeupAllValues cb = .ok (cb, if delProc then items else []) := by
  have hloop : sFreeupLoop cb items.length cb.rIdx = .ok items := by
    apply sFreeupLoop_eq
    intro i hi
    have h0 : 0 ≤ cb.rIdx + i := by
      have := h.rIdx_nonneg
      omega
    refine ⟨_, h.sDataAddr hz h0, ?_⟩
    have hidx : (cb.rIdx + i).toNat = cb.rIdx.toNat + i := by
      have := h.rIdx_nonneg
      omega
    rw [hidx, h.elementSize]
    exact h.slots i hi
  have hcount : (cb.wIdx - cb.rIdx).toNat = items.length := by
    have := h.wIdx_eq
    omega
  unfold Cbuffer.sFreeupAllValues
  rw [h.delProc_eq, sAdjustIndices_eq h.wIdx_nonneg]
  cases delProc with
  | true =>
    simp only [if_true, hcount, hloop]
    rfl
  | false => rfl

/-- The bytes of all slots, as the code computes them. -/
theorem Stores.fill_size (hz : Sizes es cap) (h : Stores es cap delProc cb items) :
    size64 (cb.elementSize * size64 cb.nMaxAllocdElements) = es * (cap + 1) := by
  have hfits := hz.fits
  have hmod : (cb.elementSize : Int) * size64 cb.nMaxAllocdElements
      ≡ ((es * (cap + 1) : Nat) : Int) [ZMOD 2 ^ 64] := by
    rw [h.elementSize, h.nMaxAllocdElements]
    push_cast
    exact ((size64_modEq _).trans (int64_modEq _)).mul_left _
  rw [size64_congr hmod, size64_of_range (by unfold sizeofRecord at hfits; omega)]

/-- The record after it was emptied. -/
def emptied (cb : Record) (block : Block) : Record :=
  { cb with rIdx := 0, wIdx := 0, block := block, nElements := 0 }

/-- Emptying never leaves the block, and frees the list when it is asked to. -/
theorem Stores.sClean (hz : Sizes es cap) (h : Stores es cap delProc cb items) (freeValues : Bool) :
    ∃ block, block.size = cb.block.size ∧
      sClean cb freeValues
        = .ok (emptied cb block, if freeValues ∧ delProc then items else []) := by
  have hfill : offsetofData + es * (cap + 1) ≤ cb.block.size := by
    rw [h.blockSize]
    unfold offsetofData sizeofRecord
    omega
  obtain ⟨block, hblock⟩ := Block.fill_isSome (x := 0) hfill
  refine ⟨block, Block.fill_size hblock, ?_⟩
  unfold Cbuffer.sClean
  cases freeValues with
  | true =>
    simp only [if_true, h.sFreeupAllValues hz, bind, Except.bind, pure, Except.pure,
      h.fill_size hz, hblock, emptied]
    cases delProc <;> rfl
  | false =>
    simp only [bind, Except.bind, pure, Except.pure, h.fill_size hz, hblock, emptied]
    rfl

/-- An emptied record stores nothing. -/
theorem Stores.emptied (h : Stores es cap delProc cb items) {block : Block}
    (hsize : block.size = cb.block.size) : Stores es cap delProc (emptied cb block) [] where
  elementSize := h.elementSize
  delProc_eq := h.delProc_eq
  nMaxElements := h.nMaxElements
  nMaxAllocdElements := h.nMaxAllocdElements
  blockSize := hsize.trans h.blockSize
  rIdx_nonneg := Int.le_refl 0
  wIdx_eq := rfl
  nElements_eq := rfl
  slots := by
    intro i hi
    exact absurd hi (by simp)

/-! ## §4. Put, get and peek, matched. -/

/-- Writing the next slot appends a value: no slot of the list is touched. -/
theorem Stores.push (h : Stores es cap delProc cb items) {v : Value} (hv : v.length = es)
    (hroom : items.length < cap) {block : Block}
    (hw : cb.block.write (offsetofData + slot es (cap + 1) cb.wIdx.toNat) v = some block) :
    Stores es cap delProc
      { cb with block := block, wIdx := cb.wIdx + 1, nElements := cb.nElements + 1 }
      (items ++ [v]) where
  elementSize := h.elementSize
  delProc_eq := h.delProc_eq
  nMaxElements := h.nMaxElements
  nMaxAllocdElements := h.nMaxAllocdElements
  blockSize := (Block.write_size hw).trans h.blockSize
  rIdx_nonneg := h.rIdx_nonneg
  wIdx_eq := by
    have := h.wIdx_eq
    simp only [List.length_append, List.length_singleton]
    omega
  nElements_eq := by
    have := h.nElements_eq
    simp only [List.length_append, List.length_singleton]
    omega
  slots := by
    have hr := h.rIdx_nonneg
    have hwn : cb.wIdx.toNat = cb.rIdx.toNat + items.length := by
      have := h.wIdx_eq
      omega
    intro i hi
    simp only [List.length_append, List.length_singleton] at hi ⊢
    by_cases hold : i < items.length
    · -- an old value: its slot is not the new one, as at most `cap` others lie between
      rw [List.getElem_append_left hold]
      have hd : slot es (cap + 1) (cb.rIdx.toNat + i) + es ≤ slot es (cap + 1) cb.wIdx.toNat ∨
          slot es (cap + 1) cb.wIdx.toNat + es ≤ slot es (cap + 1) (cb.rIdx.toNat + i) :=
        slot_disjoint (by omega) (by omega)
      rw [Block.read_write_disjoint hw (by omega)]
      exact h.slots i hold
    · have hlast : i = items.length := by omega
      subst hlast
      rw [← hwn, List.getElem_concat_length rfl]
      have hsame := Block.read_write_same hw
      rw [hv] at hsame
      exact hsame

/-- Moving the read index drops the oldest value. -/
theorem Stores.pop (h : Stores es cap delProc cb items) (hne : 0 < items.length) :
    Stores es cap delProc { cb with rIdx := cb.rIdx + 1, nElements := cb.nElements - 1 }
      items.tail where
  elementSize := h.elementSize
  delProc_eq := h.delProc_eq
  nMaxElements := h.nMaxElements
  nMaxAllocdElements := h.nMaxAllocdElements
  blockSize := h.blockSize
  rIdx_nonneg := by
    have := h.rIdx_nonneg
    show 0 ≤ cb.rIdx + 1
    omega
  wIdx_eq := by
    have := h.wIdx_eq
    simp only [List.length_tail]
    omega
  nElements_eq := by
    have := h.nElements_eq
    simp only [List.length_tail]
    omega
  slots := by
    have hr := h.rIdx_nonneg
    intro i hi
    simp only [List.length_tail] at hi
    have hidx : (cb.rIdx + 1).toNat + i = cb.rIdx.toNat + (i + 1) := by omega
    have hread := h.slots (i + 1) (by omega)
    simp only [List.getElem_tail, hidx]
    exact hread

/-- Put is matched, as long as the write index is not at its end. -/
theorem Holds.put (hz : Sizes es cap) (h : Holds es cap delProc cb q)
    (hend : cb.wIdx < 2 ^ 63 - 1) {v : Value} (hv : v.length = es) (nsec : Int) :
    (putRecheck cb v nsec).Sim (Holds es cap delProc) (ContOk es) Ret.toSeen (q.put v nsec) := by
  unfold putRecheck Fifo.put
  by_cases hopen : q.isOpen = true
  · rw [if_pos (h.isOperational.trans hopen), dif_pos hopen, sAdjustIndices_eq h.wIdx_nonneg]
    by_cases hroom : q.items.length < cap
    · have hlt : cb.nElements < cb.nMaxElements := by
        rw [h.nElements_eq, h.nMaxElements]
        omega
      have hle := h.slot_le cb.wIdx.toNat
      obtain ⟨block, hw⟩ : ∃ block,
          cb.block.write (offsetofData + slot es (cap + 1) cb.wIdx.toNat) v = some block :=
        Block.write_isSome (by omega)
      have hw64 : int64 (cb.wIdx + 1) = cb.wIdx + 1 := by
        have := h.wIdx_nonneg
        exact int64_of_range (by omega) (by omega)
      have hn64 : int64 (cb.nElements + 1) = cb.nElements + 1 := by
        have := h.nElements_eq
        have := hz.cap_lt
        exact int64_of_range (by omega) (by omega)
      simp only [if_pos hlt, dif_pos hroom, h.sDataAddr hz h.wIdx_nonneg, hw, hw64, hn64]
      exact ⟨⟨h.push hv hroom hw, h.isOperational⟩, rfl, rfl⟩
    · have hge : ¬ cb.nElements < cb.nMaxElements := by
        rw [h.nElements_eq, h.nMaxElements]
        omega
      simp only [if_neg hge, dif_neg hroom]
      exact ⟨h, hv, rfl, rfl, rfl⟩
  · have hclosed : ¬ cb.isOperational = true := h.isOperational ▸ hopen
    rw [if_neg hclosed, dif_neg hopen]
    exact ⟨h, rfl, rfl⟩

/-- The read of the oldest value. -/
theorem Stores.read_oldest (h : Stores es cap delProc cb items) {v : Value} {vs : List Value}
    (hq : items = v :: vs) :
    cb.block.read (offsetofData + slot es (cap + 1) cb.rIdx.toNat) cb.elementSize = some v := by
  have hread := h.slots 0 (by simp [hq])
  rw [h.elementSize]
  simpa [hq] using hread

/-- Get is matched. -/
theorem Holds.get (hz : Sizes es cap) (h : Holds es cap delProc cb q)
    (hend : cb.wIdx < 2 ^ 63 - 1) (nsec : Int) :
    (getRecheck cb nsec).Sim (Holds es cap delProc) (ContOk es) Ret.toSeen (q.get nsec) := by
  unfold getRecheck Fifo.get
  by_cases hopen : q.isOpen = true
  · rw [if_pos (h.isOperational.trans hopen), if_pos hopen, sAdjustIndices_eq h.wIdx_nonneg]
    have hn := h.nElements_eq
    cases hq : q.items with
    | nil =>
      have hle : ¬ 0 < cb.nElements := by simp [hn, hq]
      simp only [if_neg hle]
      exact ⟨h, trivial, rfl, rfl, rfl⟩
    | cons v vs =>
      have hlen : 0 < q.items.length := by simp [hq]
      have hlt : 0 < cb.nElements := by omega
      have hr64 : int64 (cb.rIdx + 1) = cb.rIdx + 1 := by
        have := h.rIdx_nonneg
        have := h.wIdx_eq
        exact int64_of_range (by omega) (by omega)
      have hn64 : int64 (cb.nElements - 1) = cb.nElements - 1 := by
        have := q.bounded
        have := hz.cap_lt
        exact int64_of_range (by omega) (by omega)
      simp only [if_pos hlt, h.sDataAddr hz h.rIdx_nonneg, h.read_oldest hq, hr64, hn64]
      exact ⟨⟨h.pop hlen, h.isOperational⟩, rfl, rfl⟩
  · have hclosed : ¬ cb.isOperational = true := h.isOperational ▸ hopen
    rw [if_neg hclosed, if_neg hopen]
    exact ⟨h, rfl, rfl⟩

/-- Peek is matched. -/
theorem Holds.peek (hz : Sizes es cap) (h : Holds es cap delProc cb q) (nsec : Int) :
    (peekRecheck cb nsec).Sim (Holds es cap delProc) (ContOk es) Ret.toSeen (q.peek nsec) := by
  unfold peekRecheck Fifo.peek
  by_cases hopen : q.isOpen = true
  · rw [if_pos (h.isOperational.trans hopen), if_pos hopen, sAdjustIndices_eq h.wIdx_nonneg]
    have hn := h.nElements_eq
    cases hq : q.items with
    | nil =>
      have hle : ¬ 0 < cb.nElements := by simp [hn, hq]
      simp only [if_neg hle]
      exact ⟨h, trivial, rfl, rfl, rfl⟩
    | cons v vs =>
      have hlt : 0 < cb.nElements := by simp [hn, hq]
      simp only [if_pos hlt, h.sDataAddr hz h.rIdx_nonneg, h.read_oldest hq]
      exact ⟨h, rfl, rfl⟩
  · have hclosed : ¬ cb.isOperational = true := h.isOperational ▸ hopen
    rw [if_neg hclosed, if_neg hopen]
    exact ⟨h, rfl, rfl⟩

/-! ## §5. Every segment, matched. -/

/-- Clear is matched. -/
theorem Holds.clear (hz : Sizes es cap) (h : Holds es cap delProc cb q) (freeValues : Bool) :
    (clear cb freeValues).Sim (Holds es cap delProc) (ContOk es) Ret.toSeen
      (q.enter es delProc (.clear freeValues)) := by
  obtain ⟨block, hsize, hclean⟩ := h.sClean hz freeValues
  unfold Cbuffer.clear
  rw [hclean]
  exact ⟨⟨h.emptied hsize, h.isOperational⟩, rfl, rfl⟩

/-- Shutdown is matched. -/
theorem Holds.shutdown (hz : Sizes es cap) (h : Holds es cap delProc cb q) (freeValues : Bool) :
    (shutdown cb freeValues).Sim (Holds es cap delProc) (ContOk es) Ret.toSeen
      (q.enter es delProc (.shutdown freeValues)) := by
  unfold Cbuffer.shutdown Fifo.enter
  by_cases hopen : q.isOpen = true
  · -- the flag falls first, and the values are freed after it
    have hdown : Stores es cap delProc { cb with isOperational := false } q.items :=
      { h.toStores with }
    obtain ⟨block, hsize, hclean⟩ := hdown.sClean hz freeValues
    simp only [if_pos (h.isOperational.trans hopen), if_pos hopen, hclean]
    exact ⟨⟨hdown.emptied hsize, rfl⟩, rfl, rfl⟩
  · have hclosed : ¬ cb.isOperational = true := h.isOperational ▸ hopen
    simp only [if_neg hclosed, if_neg hopen]
    exact ⟨h, rfl, rfl⟩

/-- A size query is matched. -/
theorem Holds.query (h : Holds es cap delProc cb q) {n m : Int} (hn : n = m) :
    (query cb n).Sim (Holds es cap delProc) (ContOk es) Ret.toSeen (q.query m) := by
  unfold Cbuffer.query Fifo.query
  rw [h.isOperational, hn]
  exact ⟨h, rfl, rfl⟩

/-- A flag query is matched. -/
theorem Holds.flagQuery (h : Holds es cap delProc cb q) (retptr : Bool) {b b' : Bool}
    (hb : b = b') :
    (flagQuery cb retptr b).Sim (Holds es cap delProc) (ContOk es) Ret.toSeen
      (q.flagQuery retptr b') := by
  unfold Cbuffer.flagQuery Fifo.flagQuery
  rw [h.isOperational, hb]
  cases retptr with
  | true => cases q.isOpen <;> exact ⟨h, rfl, rfl⟩
  | false => exact ⟨h, rfl, rfl⟩

theorem Holds.remaining (hz : Sizes es cap) (h : Holds es cap delProc cb q) :
    remaining cb = cap - q.items.length := by
  have := q.bounded
  have := hz.cap_lt
  unfold Cbuffer.remaining
  rw [h.nMaxElements, h.nElements_eq]
  exact int64_of_range (by omega) (by omega)

/-- Both sides make a muxer wait for the same event. -/
theorem Holds.needWait (hz : Sizes es cap) (h : Holds es cap delProc cb q) (type : PollEvent) :
    needWait cb type = q.needWait type := by
  have hempty : (q.items.length : Int) = 0 ↔ q.items = [] := by
    rw [← List.length_eq_zero_iff]
    omega
  have hfull : (cap : Int) - q.items.length = 0 ↔ q.items.length = cap := by omega
  unfold Cbuffer.needWait Fifo.needWait
  simp only [h.remaining hz, h.nElements_eq, hempty, hfull]

/-- The setup for a muxer is matched: it changes only the registration. -/
theorem Holds.setupForQmuxer (hz : Sizes es cap) (h : Holds es cap delProc cb q)
    (qmx : Option Qmuxer) (type : PollEvent) (isPre : Bool) :
    (enter cb (.setupForQmuxer qmx type isPre)).Sim (Holds es cap delProc) (ContOk es) Ret.toSeen
      (q.enter es delProc (.setupForQmuxer qmx type isPre)) := by
  have hreg : ∀ x t, Holds es cap delProc { cb with qmuxer := x, type := t } q := by
    intro x t
    exact { h with }
  simp only [enter, Cbuffer.setupForQmuxer, Fifo.enter]
  cases qmx with
  | none => exact ⟨h, rfl, rfl⟩
  | some qmx =>
    simp only [Fifo.pollEvent]
    by_cases hopen : q.isOpen = true
    · rw [if_pos (h.isOperational.trans hopen), if_pos hopen]
      simp only [h.needWait hz, h.remaining hz]
      by_cases hpre : isPre = true ∧ 0 < (q.needWait type).bits
      · rw [if_pos hpre]
        exact ⟨hreg _ _, by rw [h.nElements_eq], rfl⟩
      · rw [if_neg hpre]
        exact ⟨hreg _ _, by rw [h.nElements_eq], rfl⟩
    · have hclosed : ¬ cb.isOperational = true := h.isOperational ▸ hopen
      simp only [if_neg hclosed, if_neg hopen]
      exact ⟨h, rfl, rfl⟩

/-- The first segment of every call is matched. -/
theorem Holds.enter (hz : Sizes es cap) (h : Holds es cap delProc cb q)
    (hend : cb.wIdx < 2 ^ 63 - 1) (c : Call) :
    (enter cb c).Sim (Holds es cap delProc) (ContOk es) Ret.toSeen (q.enter es delProc c) := by
  have hbad : (Seg.ret cb { result := .invalidArgs } [] : Segment).Sim (Holds es cap delProc)
      (ContOk es) Ret.toSeen (.ret q { result := .invalidArgs } []) := ⟨h, rfl, rfl⟩
  cases c with
  | put val nsec =>
    cases val with
    | none => exact hbad
    | some v =>
      simp only [Cbuffer.enter, Fifo.enter, h.elementSize]
      by_cases hv : v.length = es
      · rw [if_pos hv, if_pos hv]
        exact h.put hz hend hv nsec
      · rw [if_neg hv, if_neg hv]
        exact hbad
  | get dst nsec =>
    simp only [Cbuffer.enter, Fifo.enter, h.elementSize]
    by_cases hd : dst = some es
    · rw [if_pos hd, if_pos hd]
      exact h.get hz hend nsec
    · rw [if_neg hd, if_neg hd]
      exact hbad
  | peek dst nsec =>
    simp only [Cbuffer.enter, Fifo.enter, h.elementSize]
    by_cases hd : dst = some es
    · rw [if_pos hd, if_pos hd]
      exact h.peek hz nsec
    · rw [if_neg hd, if_neg hd]
      exact hbad
  | clear freeValues => exact h.clear hz freeValues
  | shutdown freeValues => exact h.shutdown hz freeValues
  | size => exact h.query h.nElements_eq
  | remainingCapacity => exact h.query (h.remaining hz)
  | maxCapacity => exact h.query h.nMaxElements
  | isFull retptr =>
    apply h.flagQuery retptr
    have := q.bounded
    rw [h.nMaxElements, h.nElements_eq, decide_eq_decide]
    omega
  | isEmpty retptr =>
    apply h.flagQuery retptr
    rw [h.nElements_eq, decide_eq_decide, ← List.length_eq_zero_iff]
    omega
  | isOperational retptr =>
    simp only [Cbuffer.enter, Fifo.enter]
    cases retptr with
    | true =>
      rw [if_pos rfl, if_pos rfl, h.isOperational]
      exact ⟨h, rfl, rfl⟩
    | false => exact hbad
  | setupForQmuxer qmx type isPre => exact h.setupForQmuxer hz qmx type isPre

/-- **Every segment is matched**, as long as the write index is not at its end. -/
theorem Holds.seg (hz : Sizes es cap) (h : Holds es cap delProc cb q)
    (hend : cb.wIdx < 2 ^ 63 - 1) (i : Input Call Cont)
    (hk : ∀ k w, i = .resume k w → ContOk es k) :
    (code.seg cb i).Sim (Holds es cap delProc) (ContOk es) Ret.toSeen
      ((Fifo.code es cap delProc).seg q i) := by
  cases i with
  | enter c => exact h.enter hz hend c
  | resume k w =>
    show (resume cb k w).Sim (Holds es cap delProc) (ContOk es) Ret.toSeen (q.resume k w)
    cases w with
    | signaled =>
      have hkok := hk k .signaled rfl
      cases k with
      | put v nsec => exact h.put hz hend hkok nsec
      | get nsec => exact h.get hz hend nsec
      | peek nsec => exact h.peek hz nsec
    | timedout => exact ⟨h, rfl, rfl⟩
    | failed => exact ⟨h, rfl, rfl⟩

end Mccp.Cbuffer
