/-
  Mccp.Cbuffer.Fate
  ─────────────────
  **WHAT BECOMES OF EACH VALUE THAT WAS PUT.**

  A value that a put has queued leaves the buffer once: a get returns it, or a
  clear, a shutdown or the destruction discards it with all others, and hands
  them to the free-up procedure if it is told to.  This holds whatever the size
  of the block is; a put that would leave a block that is too short stops the
  process, and no value was queued by it.

      Backed           — the counters and slots of a buffer of any size
      Queues           — what a segment does to the values queued
      Disposes, Fates  — which values an observation disposes of
      values_have_one_fate — over runs of any number of threads
-/
import Mathlib.Data.List.Forall2
import Mccp.Cbuffer.Behaviour

namespace Mccp.Cbuffer

open Memory Monitor Transition

/-! ## §1. A buffer whose block may be too short. -/

/-- The counters count the values, and the slots store them; `reach` tells why
no address of a slot in use wraps. -/
structure Queued (es cap : Nat) (cb : Record) (items : List Value) : Prop where
  elementSize : cb.elementSize = es
  delProc : cb.delProc = true
  nMaxElements : cb.nMaxElements = cap
  nMaxAllocdElements : cb.nMaxAllocdElements = int64 (cap + 1)
  rIdx_nonneg : 0 ≤ cb.rIdx
  wIdx_eq : cb.wIdx = cb.rIdx + items.length
  nElements_eq : cb.nElements = items.length
  bounded : items.length ≤ cap
  slots : ∀ i (h : i < items.length),
    cb.block.read (offsetofData + slot es (cap + 1) (cb.rIdx.toNat + i)) es = some items[i]
  data_le : offsetofData ≤ cb.block.size
  size_lt : cb.block.size < 2 ^ 64
  reach : es * (cap + 1) < 2 ^ 64 ∨
    (offsetofData + cb.wIdx.toNat * es ≤ cb.block.size ∧ cb.wIdx.toNat ≤ cap)

/-- And a buffer that was shut down holds nothing. -/
structure Backed (es cap : Nat) (cb : Record) (items : List Value) : Prop
    extends Queued es cap cb items where
  closed_empty : cb.isOperational = false → items = []

variable {es cap : Nat} {cb : Record} {items : List Value}

theorem Queued.wIdx_nonneg (h : Queued es cap cb items) : 0 ≤ cb.wIdx := by
  have := h.rIdx_nonneg
  have := h.wIdx_eq
  omega

/-- What is read lies inside the block. -/
theorem read_le {b : Block} {off len : Nat} {v : Value} (h : b.read off len = some v) :
    off + len ≤ b.size := by
  unfold Block.read at h
  split at h
  next hle => exact hle
  next => exact absurd h (by simp)

/-- The address of a value that is queued. -/
theorem Queued.addr_queued (hcap : cap < 2 ^ 63) (h : Queued es cap cb items) {i : Nat}
    (hi : i < items.length) :
    sDataAddr cb (cb.rIdx + i) =
      some (offsetofData + slot es (cap + 1) (cb.rIdx.toNat + i)) := by
  have hr := h.rIdx_nonneg
  have hle := read_le (h.slots i hi)
  have hsize := h.size_lt
  have hidx : (cb.rIdx + i).toNat = cb.rIdx.toNat + i := by omega
  rw [sDataAddr_eq hcap h.nMaxAllocdElements (by omega), hidx, h.elementSize,
    size64_of_range (by omega)]

/-- Where there are values there is an oldest one. -/
theorem Queued.exists_oldest (h : Queued es cap cb items) (hlt : 0 < cb.nElements) :
    ∃ v rest, items = v :: rest := by
  have hn := h.nElements_eq
  cases items with
  | nil => exact absurd hlt (by rw [hn]; simp)
  | cons v rest => exact ⟨v, rest, rfl⟩

/-- The oldest value is read where the read index points. -/
theorem Queued.read_oldest {v : Value} (hcap : cap < 2 ^ 63) (h : Queued es cap cb (v :: items)) :
    ∃ addr, sDataAddr cb cb.rIdx = some addr ∧
      cb.block.read addr cb.elementSize = some v := by
  have haddr := h.addr_queued hcap (i := 0) (by simp)
  have hread := h.slots 0 (by simp)
  rw [Int.natCast_zero, Int.add_zero] at haddr
  refine ⟨_, haddr, ?_⟩
  rw [h.elementSize]
  exact hread

/-- The address of the slot that is written next. -/
theorem Queued.addr_next (hcap : cap < 2 ^ 63) (h : Queued es cap cb items) :
    sDataAddr cb cb.wIdx = some (offsetofData + slot es (cap + 1) cb.wIdx.toNat) := by
  have hbound : slot es (cap + 1) cb.wIdx.toNat + es ≤ es * (cap + 1) :=
    slot_bound (Nat.succ_pos cap)
  have hlt : slot es (cap + 1) cb.wIdx.toNat < 2 ^ 64 := by
    -- no slot is past 2^64, or the write index has not gone round yet
    rcases h.reach with hfits | ⟨hle, hw⟩
    · by_cases hes : es = 0
      · subst hes
        simp [slot]
      · omega
    · have hsize := h.size_lt
      have hslot : slot es (cap + 1) cb.wIdx.toNat = cb.wIdx.toNat * es := by
        unfold slot
        rw [Nat.mod_eq_of_lt (by omega)]
      omega
  rw [sDataAddr_eq hcap h.nMaxAllocdElements h.wIdx_nonneg, h.elementSize, size64_of_range hlt]

/-- Writing the next slot queues a value. -/
theorem Backed.push (h : Backed es cap cb items) {v : Value} (hv : v.length = es)
    (hroom : items.length < cap) (hopen : cb.isOperational = true) {block : Block}
    (hw : cb.block.write (offsetofData + slot es (cap + 1) cb.wIdx.toNat) v = some block) :
    Backed es cap { cb with block := block, wIdx := cb.wIdx + 1, nElements := cb.nElements + 1 }
      (items ++ [v]) := by
  have hr := h.rIdx_nonneg
  have hwn : cb.wIdx.toNat = cb.rIdx.toNat + items.length := by
    have := h.wIdx_eq
    omega
  have hlen : (items ++ [v]).length = items.length + 1 := by
    rw [List.length_append, List.length_singleton]
  have hsize := Block.write_size hw
  have hread := Block.read_write_same hw
  rw [hv] at hread
  refine ⟨⟨h.elementSize, h.delProc, h.nMaxElements, h.nMaxAllocdElements, hr, ?_, ?_, ?_, ?_, ?_,
    ?_, ?_⟩, ?_⟩
  · have := h.wIdx_eq
    show cb.wIdx + 1 = cb.rIdx + _
    rw [hlen]
    omega
  · have := h.nElements_eq
    show cb.nElements + 1 = _
    rw [hlen]
    omega
  · omega
  · intro i hi
    show block.read (offsetofData + slot es (cap + 1) (cb.rIdx.toNat + i)) es = _
    by_cases hold : i < items.length
    · -- at most `cap` other slots lie between an old value and the new one
      rw [List.getElem_append_left hold]
      have hd : slot es (cap + 1) (cb.rIdx.toNat + i) + es ≤ slot es (cap + 1) cb.wIdx.toNat ∨
          slot es (cap + 1) cb.wIdx.toNat + es ≤ slot es (cap + 1) (cb.rIdx.toNat + i) :=
        slot_disjoint (by omega) (by omega)
      rw [Block.read_write_disjoint hw (by omega)]
      exact h.slots i hold
    · have hlast : i = items.length := by omega
      subst hlast
      rw [← hwn, List.getElem_concat_length rfl]
      exact hread
  · show offsetofData ≤ block.size
    rw [hsize]
    exact h.data_le
  · show block.size < 2 ^ 64
    rw [hsize]
    exact h.size_lt
  · show _ ∨ (offsetofData + (cb.wIdx + 1).toNat * es ≤ block.size ∧ (cb.wIdx + 1).toNat ≤ cap)
    by_cases hfits : es * (cap + 1) < 2 ^ 64
    · exact .inl hfits
    · right
      -- the slot was inside the block, so the next index is not past the last one
      obtain ⟨hle, hwc⟩ := h.reach.resolve_left hfits
      have hslot : slot es (cap + 1) cb.wIdx.toNat = cb.wIdx.toNat * es := by
        unfold slot
        rw [Nat.mod_eq_of_lt (by omega)]
      have hin := read_le hread
      rw [hsize, hslot] at hin
      have hnext : (cb.wIdx + 1).toNat = cb.wIdx.toNat + 1 := by
        have := h.wIdx_nonneg
        omega
      have hmul : (cb.wIdx.toNat + 1) * es = cb.wIdx.toNat * es + es := by ring
      have hbelow : (cb.wIdx.toNat + 1) * es < (cap + 1) * es := by
        have := h.size_lt
        rw [Nat.mul_comm es] at hfits
        omega
      have hlt := Nat.lt_of_mul_lt_mul_right hbelow
      rw [hnext, hmul, hsize]
      exact ⟨by omega, by omega⟩
  · intro hclosed
    exact absurd (hopen.symm.trans hclosed) (by decide)

/-- Moving the read index lets the oldest value go. -/
theorem Backed.pop {v : Value} (h : Backed es cap cb (v :: items)) :
    Backed es cap { cb with rIdx := cb.rIdx + 1, nElements := cb.nElements - 1 } items := by
  have hr := h.rIdx_nonneg
  have hw := h.wIdx_eq
  have hn := h.nElements_eq
  have hb := h.bounded
  rw [List.length_cons] at hw hn hb
  refine ⟨⟨h.elementSize, h.delProc, h.nMaxElements, h.nMaxAllocdElements, ?_, ?_, ?_, by omega, ?_,
    h.data_le, h.size_lt, h.reach⟩, ?_⟩
  · show 0 ≤ cb.rIdx + 1
    omega
  · show cb.wIdx = cb.rIdx + 1 + items.length
    omega
  · show cb.nElements - 1 = items.length
    omega
  · intro i hi
    have hread := h.slots (i + 1) (by rw [List.length_cons]; omega)
    have hidx : (cb.rIdx + 1).toNat + i = cb.rIdx.toNat + (i + 1) := by omega
    rw [List.getElem_cons_succ, ← hidx] at hread
    exact hread
  · intro hclosed
    exact absurd (h.closed_empty hclosed) (by simp)

/-- What is not stored in the slots or counted may change. -/
theorem Backed.frame (h : Backed es cap cb items) (qmuxer : Option Qmuxer) (type : PollEvent) :
    Backed es cap { cb with qmuxer := qmuxer, type := type } items :=
  ⟨⟨h.elementSize, h.delProc, h.nMaxElements, h.nMaxAllocdElements, h.rIdx_nonneg, h.wIdx_eq,
    h.nElements_eq, h.bounded, h.slots, h.data_le, h.size_lt, h.reach⟩, h.closed_empty⟩

/-- The values handed to the free-up procedure are those queued, in FIFO order. -/
theorem Queued.sFreeupAllValues (hcap : cap < 2 ^ 63) (h : Queued es cap cb items) :
    sFreeupAllValues cb = .ok (cb, items) := by
  have hloop : sFreeupLoop cb items.length cb.rIdx = .ok items := by
    apply sFreeupLoop_eq
    intro i hi
    refine ⟨_, h.addr_queued hcap hi, ?_⟩
    rw [h.elementSize]
    exact h.slots i hi
  have hcount : (cb.wIdx - cb.rIdx).toNat = items.length := by
    have := h.wIdx_eq
    omega
  unfold Cbuffer.sFreeupAllValues
  rw [h.delProc, sAdjustIndices_eq h.wIdx_nonneg]
  simp only [if_true, hcount, hloop]
  rfl

/-- **What a clean-up does**: it stops the process, or it empties the buffer and
hands all values to the free-up procedure if it is told to. -/
theorem Queued.sClean (hcap : cap < 2 ^ 63) (h : Queued es cap cb items) (freeValues : Bool) :
    (∃ st, sClean cb freeValues = .error st) ∨
    ∃ block, sClean cb freeValues = .ok (emptied cb block, if freeValues then items else []) ∧
      Backed es cap (emptied cb block) [] := by
  cases hfill : cb.block.fill offsetofData
      (size64 (cb.elementSize * size64 cb.nMaxAllocdElements)) 0 with
  | none =>
    refine .inl ⟨.outOfBlock, ?_⟩
    unfold Cbuffer.sClean
    cases freeValues with
    | true => simp only [if_true, h.sFreeupAllValues hcap, bind, Except.bind, hfill]
    | false => simp only [if_neg Bool.false_ne_true, bind, Except.bind, hfill]
  | some block =>
    have hclean : Cbuffer.sClean cb freeValues =
        .ok (emptied cb block, if freeValues then items else []) := by
      unfold Cbuffer.sClean
      cases freeValues with
      | true =>
        simp only [if_true, h.sFreeupAllValues hcap, bind, Except.bind, pure, Except.pure, hfill]
        rfl
      | false =>
        simp only [if_neg Bool.false_ne_true, bind, Except.bind, pure, Except.pure, hfill]
        rfl
    have hsize := Block.fill_size hfill
    refine .inr ⟨block, hclean, ⟨h.elementSize, h.delProc, h.nMaxElements, h.nMaxAllocdElements,
      Int.le_refl 0, rfl, rfl, Nat.zero_le cap, fun i hi => absurd hi (by simp), ?_, ?_, ?_⟩,
      fun _ => rfl⟩
    · show offsetofData ≤ block.size
      rw [hsize]
      exact h.data_le
    · show block.size < 2 ^ 64
      rw [hsize]
      exact h.size_lt
    · refine .inr ⟨?_, Nat.zero_le cap⟩
      show offsetofData + 0 * es ≤ block.size
      rw [Nat.zero_mul, hsize]
      exact h.data_le

/-! ## §2. What a segment does to the values queued. -/

/-- The value that a put stores if it returns OK. -/
def putValue : Input Call Cont → Option Value
  | .enter (.put val _) => val
  | .resume (.put val _) _ => some val
  | _ => none

/-- A get, from its first segment on. -/
def isGet : Input Call Cont → Bool
  | .enter (.get _ _) => true
  | .resume (.get _) _ => true
  | _ => false

/-- A call that discards all values, with its `free_values`. -/
def discards : Input Call Cont → Option Bool
  | .enter (.clear freeValues) => some freeValues
  | .enter (.shutdown freeValues) => some freeValues
  | _ => none

/-- The segment is no put and no get, or it fails; and it discards nothing. -/
structure Idle (i : Input Call Cont) (r : Ret) : Prop where
  freed : r.freed = []
  put : putValue i ≠ none → r.result ≠ .ok
  get : isGet i = true → r.result ≠ .ok
  discards : discards i = none

/-- **What a segment does to the values queued.** -/
inductive Queues (es cap : Nat) (cb : Record) (items : List Value) (i : Input Call Cont) :
    Segment → Prop
  | halt (st : Stop) : Queues es cap cb items i (.halt st)
  | sleep {cb' : Record} (k : Cont) (c : Cond) (ns : List Cond) (hb : Backed es cap cb' items)
      (hw : cb'.wIdx = cb.wIdx) (hk : ContOk es k) : Queues es cap cb items i (.wait cb' k c ns)
  | keep {cb' : Record} (r : Ret) (ns : List Cond) (hb : Backed es cap cb' items)
      (hw : cb'.wIdx = cb.wIdx) (hr : Idle i r) : Queues es cap cb items i (.ret cb' r ns)
  | put {cb' : Record} {v : Value} (r : Ret) (ns : List Cond) (hv : putValue i = some v)
      (hret : r.result = .ok) (hfreed : r.freed = []) (hb : Backed es cap cb' (items ++ [v]))
      (hw : cb'.wIdx = cb.wIdx + 1) : Queues es cap cb items i (.ret cb' r ns)
  | get {cb' : Record} {v : Value} {rest : List Value} (r : Ret) (ns : List Cond)
      (hi : isGet i = true) (hitems : items = v :: rest) (hret : r.result = .ok)
      (hval : r.val = some v) (hfreed : r.freed = []) (hb : Backed es cap cb' rest)
      (hw : cb'.wIdx = cb.wIdx) : Queues es cap cb items i (.ret cb' r ns)
  | discard {cb' : Record} {freeValues : Bool} (r : Ret) (ns : List Cond)
      (hi : discards i = some freeValues) (hfreed : r.freed = if freeValues then items else [])
      (hb : Backed es cap cb' []) (hw : cb'.wIdx ≤ cb.wIdx) :
      Queues es cap cb items i (.ret cb' r ns)

variable {i : Input Call Cont}

theorem putRecheck_queues (hcap : cap < 2 ^ 63) (h : Backed es cap cb items)
    (hend : cb.wIdx < 2 ^ 63 - 1) {v : Value} (hv : v.length = es) (nsec : Int)
    (hi : putValue i = some v) (hget : isGet i = false) (hdisc : discards i = none) :
    Queues es cap cb items i (putRecheck cb v nsec) := by
  unfold putRecheck
  rw [sAdjustIndices_eq h.wIdx_nonneg]
  split
  next hopen =>
    dsimp only
    split
    next hlt =>
      rw [h.addr_next hcap]
      dsimp only
      cases hw : cb.block.write (offsetofData + slot es (cap + 1) cb.wIdx.toNat) v with
      -- the block is too short: the process stops, and nothing is queued
      | none => exact .halt _
      | some block =>
        have hn := h.nElements_eq
        have hroom : items.length < cap := by
          rw [hn, h.nMaxElements] at hlt
          omega
        have hw64 : int64 (cb.wIdx + 1) = cb.wIdx + 1 := by
          have := h.wIdx_nonneg
          exact int64_of_range (by omega) (by omega)
        have hn64 : int64 (cb.nElements + 1) = cb.nElements + 1 :=
          int64_of_range (by omega) (by omega)
        dsimp only
        rw [hw64, hn64]
        exact .put _ _ hi rfl rfl (h.push hv hroom hopen hw) rfl
    next => exact .sleep _ _ _ h rfl hv
  next =>
    exact .keep _ _ h rfl
      ⟨rfl, fun _ => by decide, fun hg => absurd (hget.symm.trans hg) (by decide), hdisc⟩

theorem getRecheck_queues (hcap : cap < 2 ^ 63) (h : Backed es cap cb items)
    (hend : cb.wIdx < 2 ^ 63 - 1) (nsec : Int) (hi : isGet i = true) (hput : putValue i = none)
    (hdisc : discards i = none) : Queues es cap cb items i (getRecheck cb nsec) := by
  unfold getRecheck
  rw [sAdjustIndices_eq h.wIdx_nonneg]
  split
  next hopen =>
    dsimp only
    split
    next hlt =>
      have hn := h.nElements_eq
      obtain ⟨v, rest, rfl⟩ := h.exists_oldest hlt
      obtain ⟨addr, haddr, hread⟩ := h.read_oldest hcap
      have hr64 : int64 (cb.rIdx + 1) = cb.rIdx + 1 := by
        have := h.rIdx_nonneg
        have := h.wIdx_eq
        exact int64_of_range (by omega) (by omega)
      have hn64 : int64 (cb.nElements - 1) = cb.nElements - 1 := by
        have := h.bounded
        exact int64_of_range (by omega) (by omega)
      rw [haddr]
      dsimp only
      rw [hread]
      dsimp only
      rw [hr64, hn64]
      exact .get _ _ hi rfl rfl rfl rfl h.pop rfl
    next => exact .sleep _ _ _ h rfl trivial
  next =>
    exact .keep _ _ h rfl ⟨rfl, fun hp => absurd hput hp, fun _ => by decide, hdisc⟩

theorem peekRecheck_queues (hcap : cap < 2 ^ 63) (h : Backed es cap cb items) (nsec : Int)
    (hget : isGet i = false) (hput : putValue i = none) (hdisc : discards i = none) :
    Queues es cap cb items i (peekRecheck cb nsec) := by
  have hidle : ∀ r : Ret, r.freed = [] → Idle i r := fun r hr =>
    ⟨hr, fun hp => absurd hput hp, fun hg => absurd (hget.symm.trans hg) (by decide), hdisc⟩
  unfold peekRecheck
  rw [sAdjustIndices_eq h.wIdx_nonneg]
  split
  next =>
    dsimp only
    split
    next hlt =>
      obtain ⟨v, rest, rfl⟩ := h.exists_oldest hlt
      obtain ⟨addr, haddr, hread⟩ := h.read_oldest hcap
      rw [haddr]
      dsimp only
      rw [hread]
      exact .keep _ _ h rfl (hidle _ rfl)
    next => exact .sleep _ _ _ h rfl trivial
  next => exact .keep _ _ h rfl (hidle _ rfl)

/-- Clear and shutdown discard all values, also where there are none left. -/
theorem clear_queues (hcap : cap < 2 ^ 63) (h : Backed es cap cb items) (freeValues : Bool) :
    Queues es cap cb items (.enter (.clear freeValues)) (clear cb freeValues) := by
  unfold clear
  rcases h.sClean hcap freeValues with ⟨st, hst⟩ | ⟨block, hclean, hb⟩
  · rw [hst]
    exact .halt st
  · rw [hclean]
    exact .discard _ _ rfl rfl hb h.wIdx_nonneg

theorem shutdown_queues (hcap : cap < 2 ^ 63) (h : Backed es cap cb items) (freeValues : Bool) :
    Queues es cap cb items (.enter (.shutdown freeValues)) (shutdown cb freeValues) := by
  unfold shutdown
  split
  next =>
    -- the flag goes down before the values do
    have hdown : Queued es cap { cb with isOperational := false } items := { h.toQueued with }
    rcases hdown.sClean hcap freeValues with ⟨st, hst⟩ | ⟨block, hclean, hb⟩
    · rw [hst]
      exact .halt st
    · rw [hclean]
      exact .discard _ _ rfl rfl hb h.wIdx_nonneg
  next hclosed =>
    -- shut down before, so nothing is left to discard
    have hnil := h.closed_empty (by simpa using hclosed)
    subst hnil
    refine .discard _ _ rfl ?_ h (Int.le_refl _)
    cases freeValues <;> rfl

/-- **What every segment does to the values queued.** -/
theorem Backed.seg (hcap : cap < 2 ^ 63) (h : Backed es cap cb items)
    (hend : cb.wIdx < 2 ^ 63 - 1) (i : Input Call Cont)
    (hk : ∀ k w, i = .resume k w → ContOk es k) : Queues es cap cb items i (code.seg cb i) := by
  have hquiet : ∀ (i : Input Call Cont) (r : Ret), putValue i = none → isGet i = false →
      discards i = none → r.freed = [] → Queues es cap cb items i (.ret cb r []) :=
    fun i r hput hget hdisc hr => .keep _ _ h rfl
      ⟨hr, fun hp => absurd hput hp, fun hg => absurd (hget.symm.trans hg) (by decide), hdisc⟩
  have hbad : ∀ i : Input Call Cont, discards i = none →
      Queues es cap cb items i (.ret cb { result := .invalidArgs } []) :=
    fun i hdisc => .keep _ _ h rfl ⟨rfl, fun _ => by decide, fun _ => by decide, hdisc⟩
  cases i with
  | enter c =>
    show Queues es cap cb items (.enter c) (enter cb c)
    cases c with
    | put val nsec =>
      cases val with
      | none => exact hbad _ rfl
      | some v =>
        simp only [enter]
        split
        next hv => exact putRecheck_queues hcap h hend (hv.trans h.elementSize) nsec rfl rfl rfl
        next => exact hbad _ rfl
    | get dst nsec =>
      simp only [enter]
      split
      next => exact getRecheck_queues hcap h hend nsec rfl rfl rfl
      next => exact hbad _ rfl
    | peek dst nsec =>
      simp only [enter]
      split
      next => exact peekRecheck_queues hcap h nsec rfl rfl rfl
      next => exact hbad _ rfl
    | clear freeValues => exact clear_queues hcap h freeValues
    | shutdown freeValues => exact shutdown_queues hcap h freeValues
    | size => exact hquiet _ _ rfl rfl rfl rfl
    | remainingCapacity => exact hquiet _ _ rfl rfl rfl rfl
    | maxCapacity => exact hquiet _ _ rfl rfl rfl rfl
    | isFull retptr =>
      simp only [enter, flagQuery]
      split
      · split
        · exact hquiet _ _ rfl rfl rfl rfl
        · exact hquiet _ _ rfl rfl rfl rfl
      · exact hquiet _ _ rfl rfl rfl rfl
    | isEmpty retptr =>
      simp only [enter, flagQuery]
      split
      · split
        · exact hquiet _ _ rfl rfl rfl rfl
        · exact hquiet _ _ rfl rfl rfl rfl
      · exact hquiet _ _ rfl rfl rfl rfl
    | isOperational retptr =>
      simp only [enter]
      split
      · exact hquiet _ _ rfl rfl rfl rfl
      · exact hquiet _ _ rfl rfl rfl rfl
    | setupForQmuxer qmx type isPre =>
      simp only [enter, setupForQmuxer]
      split
      · split
        · split
          · exact .keep _ _ (h.frame _ _) rfl ⟨rfl, fun hp => absurd rfl hp,
              fun hg => absurd hg (by simp [isGet]), rfl⟩
          · exact .keep _ _ (h.frame _ _) rfl ⟨rfl, fun hp => absurd rfl hp,
              fun hg => absurd hg (by simp [isGet]), rfl⟩
        · exact hquiet _ _ rfl rfl rfl rfl
      · exact hquiet _ _ rfl rfl rfl rfl
  | resume k w =>
    show Queues es cap cb items (.resume k w) (resume cb k w)
    have hfail : ∀ w', waitError w' ≠ .ok →
        Queues es cap cb items (.resume k w) (.ret cb { result := waitError w' } []) :=
      fun w' hw' => .keep _ _ h rfl ⟨rfl, fun _ => hw', fun _ => hw', by cases k <;> rfl⟩
    cases w with
    | signaled =>
      have hkok := hk k .signaled rfl
      cases k with
      | put v nsec => exact putRecheck_queues hcap h hend hkok nsec rfl rfl rfl
      | get nsec => exact getRecheck_queues hcap h hend nsec rfl rfl rfl
      | peek nsec => exact peekRecheck_queues hcap h nsec rfl rfl rfl
    | timedout => exact hfail .timedout (by decide)
    | failed => exact hfail .failed (by decide)

/-! ## §3. Runs. -/

variable {τ : Type}

/-- The value that an observation has put, if it is a put that returned OK. -/
def okPut : Obs τ → List Value
  | .seg _ i (.returned r) => if r.result = .ok then (putValue i).toList else []
  | _ => []

/-- The value that a get has returned. -/
def gotten : Obs τ → List Value
  | .seg _ i (.returned r) => if isGet i ∧ r.result = .ok then r.val.toList else []
  | _ => []

/-- The values handed to the free-up procedure, in order. -/
def freedBy : Obs τ → List Value
  | .seg _ _ (.returned r) => r.freed
  | _ => []

/-- The observation is a clear or a shutdown, with its `free_values`. -/
def discarding : Obs τ → Option Bool
  | .seg _ i (.returned _) => discards i
  | _ => none

/-- **The observation disposes of these values**: a get returns one and frees
none, and what is discarded is freed, in this order, or not at all. -/
def Disposes (l : Obs τ) (vs : List Value) : Prop :=
  match discarding l with
  | some freeValues => gotten l = [] ∧ freedBy l = if freeValues then vs else []
  | none => gotten l = vs ∧ freedBy l = []

/-- **The fates of the values put**: taken in the order of the puts, the first
values are those that the observations have disposed of, one batch each and in
their order, and the others are left. -/
structure Fates (ls : List (Obs τ)) (batches : List (List Value)) (left : List Value) : Prop where
  disposed : List.Forall₂ Disposes ls batches
  all : batches.flatten ++ left = ls.flatMap okPut

/-- `mccp_cbuffer_destroy`: the values handed to the free-up procedure; then the
buffer is gone. -/
def destroy (cb : Record) (freeValues : Bool) : Except Stop (List Value) :=
  if cb.isOperational then (sClean { cb with isOperational := false } freeValues).map Prod.snd
  else .ok []

theorem Backed.destroy (hcap : cap < 2 ^ 63) (h : Backed es cap cb items) {freeValues : Bool}
    {freed : List Value} (hd : destroy cb freeValues = .ok freed) :
    freed = if freeValues then items else [] := by
  unfold Cbuffer.destroy at hd
  split at hd
  next =>
    have hdown : Queued es cap { cb with isOperational := false } items := { h.toQueued with }
    rcases hdown.sClean hcap freeValues with ⟨st, hst⟩ | ⟨block, hclean, -⟩
    · rw [hst] at hd
      exact absurd hd (by simp [Except.map])
    · rw [hclean] at hd
      exact (Except.ok.inj hd).symm
  next hclosed =>
    have hnil := h.closed_empty (by simpa using hclosed)
    rw [← Except.ok.inj hd, hnil]
    cases freeValues <;> rfl

/-- A segment is at most one of a put, a get, and a call that discards. -/
theorem putValue_some {v : Value} (h : putValue i = some v) :
    isGet i = false ∧ discards i = none := by
  cases i with
  | enter c => cases c <;> simp_all [putValue, isGet, discards]
  | resume k w => cases k <;> simp_all [putValue, isGet, discards]

theorem isGet_true (h : isGet i = true) : putValue i = none ∧ discards i = none := by
  cases i with
  | enter c => cases c <;> simp_all [putValue, isGet, discards]
  | resume k w => cases k <;> simp_all [putValue, isGet, discards]

theorem discards_some {freeValues : Bool} (h : discards i = some freeValues) :
    putValue i = none ∧ isGet i = false := by
  cases i with
  | enter c => cases c <;> simp_all [putValue, isGet, discards]
  | resume k w => exact absurd h (by simp [discards])

/-- A return that puts nothing. -/
theorem okPut_nil {r : Ret} (t : τ) (h : putValue i ≠ none → r.result ≠ .ok) :
    okPut (.seg t i (.returned r) : Obs τ) = [] := by
  show (if r.result = .ok then (putValue i).toList else []) = []
  cases hp : putValue i with
  | none => simp
  | some v => rw [if_neg (h (by rw [hp]; simp))]

/-- What a return disposes of. -/
theorem disposes_returned {r : Ret} {vs : List Value} (t : τ)
    (h : match discards i with
      | some freeValues => isGet i = false ∧ r.freed = if freeValues then vs else []
      | none => (if isGet i ∧ r.result = .ok then r.val.toList else []) = vs ∧ r.freed = []) :
    Disposes (.seg t i (.returned r) : Obs τ) vs := by
  show match discards i with | some _ => _ | none => _
  cases hd : discards i with
  | none =>
    rw [hd] at h
    exact h
  | some freeValues =>
    rw [hd] at h
    exact ⟨if_neg fun hg => absurd (h.1.symm.trans hg.1) (by decide), h.2⟩

/-- What a segment does, as it is observed. -/
theorem Queues.disposes {sg : Segment} (h : Queues es cap cb items i sg) (t : τ)
    (hb : Backed es cap cb items) :
    ∃ vs items', Disposes (.seg t i sg.outcome : Obs τ) vs ∧
      vs ++ items' = items ++ okPut (.seg t i sg.outcome : Obs τ) ∧
      Backed es cap (sg.stateOr cb) items' ∧
      (sg.stateOr cb).wIdx ≤ cb.wIdx + (okPut (.seg t i sg.outcome : Obs τ)).length ∧
      (discarding (.seg t i sg.outcome : Obs τ) ≠ none → items' = []) ∧
      sg.Keeps (fun _ => True) (ContOk es) (fun _ _ => True) cb := by
  have hle : ∀ {w : Int} {n : Nat}, w ≤ cb.wIdx → w ≤ cb.wIdx + n := by
    intro w n hw
    omega
  cases h with
  | halt st =>
    exact ⟨[], items, ⟨rfl, rfl⟩, (List.append_nil items).symm, hb, hle (Int.le_refl _),
      fun hd => absurd rfl hd, trivial⟩
  | sleep k c ns hb' hw hk =>
    exact ⟨[], items, ⟨rfl, rfl⟩, (List.append_nil items).symm, hb', hle (Int.le_of_eq hw),
      fun hd => absurd rfl hd, trivial, hk, trivial, fun _ _ _ => trivial⟩
  | keep r ns hb' hw hr =>
    refine ⟨[], items, disposes_returned t ?_, ?_, hb', hle (Int.le_of_eq hw),
      fun hd => absurd hr.discards hd, trivial, fun _ _ _ => trivial⟩
    · rw [hr.discards]
      exact ⟨if_neg fun hg => hr.get hg.1 hg.2, hr.freed⟩
    · rw [Seg.outcome, okPut_nil t hr.put, List.append_nil]
      rfl
  | @put cb' v r ns hv hret hfreed hb' hw =>
    obtain ⟨hget, hdisc⟩ := putValue_some hv
    have hput : okPut (.seg t i (.returned r) : Obs τ) = [v] := by
      show (if r.result = .ok then (putValue i).toList else []) = [v]
      rw [if_pos hret, hv]
      rfl
    refine ⟨[], items ++ [v], disposes_returned t ?_, ?_, hb', ?_, fun hd => absurd hdisc hd,
      trivial, fun _ _ _ => trivial⟩
    · rw [hdisc]
      exact ⟨if_neg fun hg => absurd (hget.symm.trans hg.1) (by decide), hfreed⟩
    · rw [Seg.outcome, hput]
      rfl
    · rw [Seg.outcome, hput]
      exact Int.le_of_eq hw
  | @get cb' v rest r ns hi hitems hret hval hfreed hb' hw =>
    obtain ⟨hput, hdisc⟩ := isGet_true hi
    refine ⟨[v], rest, disposes_returned t ?_, ?_, hb', hle (Int.le_of_eq hw),
      fun hd => absurd hdisc hd, trivial, fun _ _ _ => trivial⟩
    · rw [hdisc]
      exact ⟨by rw [if_pos ⟨hi, hret⟩, hval]; rfl, hfreed⟩
    · rw [Seg.outcome, okPut_nil t fun hp => absurd hput hp, hitems, List.append_nil]
      rfl
  | @discard cb' freeValues r ns hi hfreed hb' hw =>
    obtain ⟨hput, hget⟩ := discards_some hi
    refine ⟨items, [], disposes_returned t ?_, ?_, hb', hle hw, fun _ => rfl, trivial,
      fun _ _ _ => trivial⟩
    · rw [hi]
      exact ⟨hget, hfreed⟩
    · rw [Seg.outcome, okPut_nil t fun hp => absurd hput hp]

variable [DecidableEq τ]

/-- What a run carries along: the values put have had their fates, but for those
that are queued, and so they have after every part of the run. -/
structure Carried (es cap : Nat) (ls : List (Obs τ)) (batches : List (List Value))
    (items : List Value) (s : State τ Record Cont Cond) : Prop where
  backed : Backed es cap s.shared items
  wIdx_le : s.shared.wIdx ≤ (ls.flatMap okPut).length
  cont : WaitInv (fun _ => True) (ContOk es) (fun _ _ => True) s
  fates : Fates ls batches items
  before : ∀ pre, pre <+: ls → ∃ left, Fates pre (batches.take pre.length) left
  emptied : ∀ pre l, pre ++ [l] <+: ls → discarding l ≠ none →
    Fates (pre ++ [l]) (batches.take (pre.length + 1)) []

omit [DecidableEq τ] in
theorem Fates.snoc {ls : List (Obs τ)} {batches : List (List Value)} {left left' vs : List Value}
    {l : Obs τ} (h : Fates ls batches left) (hl : Disposes l vs)
    (hall : vs ++ left' = left ++ okPut l) : Fates (ls ++ [l]) (batches ++ [vs]) left' where
  disposed := List.rel_append h.disposed (.cons hl .nil)
  all := by
    rw [List.flatten_append, List.flatMap_append, List.append_assoc, ← h.all, List.append_assoc]
    simpa using hall

/-- **One step disposes of one batch.** -/
theorem Carried.step (hcap : cap < 2 ^ 63) {ls : List (Obs τ)} {l : Obs τ}
    {batches : List (List Value)} {s s' : State τ Record Cont Cond}
    (h : Carried es cap ls batches items s) (hputs : (ls.flatMap okPut).length < 2 ^ 63 - 1)
    (hstep : Step code s l s') :
    ∃ batches' items', Carried es cap (ls ++ [l]) batches' items' s' := by
  obtain ⟨vs, items', hl, hall, hb, hw, hempty, hcont⟩ : ∃ vs items', Disposes l vs ∧
      vs ++ items' = items ++ okPut l ∧ Backed es cap s'.shared items' ∧
      s'.shared.wIdx ≤ s.shared.wIdx + (okPut l).length ∧
      (discarding l ≠ none → items' = []) ∧
      WaitInv (fun _ => True) (ContOk es) (fun _ _ => True) s' := by
    -- a segment of a thread, or the end of a wait
    obtain ⟨-, ⟨t, i, hi, rfl, rfl⟩ | ⟨t, w, k, c, ht, -, rfl, rfl⟩⟩ := step_cases hstep
    · have hk : ∀ k w, i = .resume k w → ContOk es k := by
        intro k w heq
        subst heq
        exact h.cont.cont t k (by rw [show s.thread t = .woken k w from hi]; rfl)
      have hend : s.shared.wIdx < 2 ^ 63 - 1 := by
        have := h.wIdx_le
        omega
      obtain ⟨vs, items', hl, hall, hb, hw, hempty, hkeeps⟩ :=
        (h.backed.seg hcap hend i hk).disposes t h.backed
      rw [State.after_shared]
      exact ⟨vs, items', hl, hall, hb, hw, hempty, h.cont.after hkeeps⟩
    · exact ⟨[], items, ⟨rfl, rfl⟩, (List.append_nil items).symm, h.backed,
        Int.le_of_eq (Int.add_zero _).symm, fun hd => absurd rfl hd, h.cont.wake ht w⟩
  have hlen : batches.length = ls.length := h.fates.disposed.length_eq.symm
  have hsnoc := h.fates.snoc hl hall
  -- the batches of the run so far stay what they were
  have htake : ∀ n, n ≤ ls.length → (batches ++ [vs]).take n = batches.take n :=
    fun n hn => List.take_append_of_le_length (hlen ▸ hn)
  have hfull : (batches ++ [vs]).take (ls ++ [l]).length = batches ++ [vs] := by
    apply List.take_of_length_le
    rw [List.length_append, List.length_append, hlen]
    rfl
  refine ⟨batches ++ [vs], items', hb, ?_, hcont, hsnoc, ?_, ?_⟩
  · have := h.wIdx_le
    rw [List.flatMap_append, List.length_append]
    have hone : ([l].flatMap okPut).length = (okPut l).length := by simp
    push_cast [hone]
    omega
  · intro pre hpre
    rcases List.prefix_concat_iff.mp hpre with rfl | hpre
    · rw [hfull]
      exact ⟨items', hsnoc⟩
    · rw [htake _ hpre.length_le]
      exact h.before pre hpre
  · intro pre m hpre hd
    rcases List.prefix_concat_iff.mp hpre with heq | hpre
    · obtain ⟨rfl, hm⟩ := List.append_inj' heq rfl
      obtain rfl := List.singleton_inj.mp hm
      have hnil := hempty hd
      subst hnil
      rw [List.length_append] at hfull
      rw [show pre.length + 1 = pre.length + [m].length from rfl, hfull]
      exact hsnoc
    · have hle : pre.length + 1 ≤ ls.length := by simpa using hpre.length_le
      rw [htake _ hle]
      exact h.emptied pre m hpre hd

/-! ## §4. Created buffers. -/

/-- A created buffer, of whatever size its block is. -/
theorem createWithSize_backed {env : CreateEnv} {elemsize : UInt64} {maxelems : Int64}
    (h : createWithSize env elemsize maxelems true = .ok (.ok, some cb)) :
    maxelems.toInt.toNat < 2 ^ 63 ∧ cb.wIdx = 0 ∧
      Backed elemsize.toNat maxelems.toInt.toNat cb [] := by
  unfold createWithSize at h
  split at h
  next hpos =>
    dsimp only at h
    split at h
    next bytes hbytes =>
      split at h
      next => exact absurd h (by simp)
      next hdata =>
        split at h
        next =>
          simp only [Except.ok.injEq, Prod.mk.injEq, Option.some.injEq, true_and] at h
          subst h
          have hmx : (maxelems.toInt.toNat : Int) = maxelems.toInt :=
            Int.toNat_of_nonneg (Int.le_of_lt hpos.2)
          have hlt := maxelems.toInt_lt
          refine ⟨by omega, rfl, ⟨rfl, rfl, hmx.symm, ?_, Int.le_refl 0, rfl, rfl, Nat.zero_le _,
            fun i hi => absurd hi (by simp), ?_, ?_, ?_⟩, fun _ => rfl⟩
          · rw [hmx]
            rfl
          · exact Nat.le_of_not_lt hdata
          · show allocSize elemsize maxelems < 2 ^ 64
            rw [allocSize_eq elemsize maxelems hpos.2]
            exact Nat.mod_lt _ (by decide)
          · refine .inr ⟨?_, Nat.zero_le _⟩
            show offsetofData + 0 * _ ≤ allocSize elemsize maxelems
            rw [Nat.zero_mul]
            exact Nat.le_of_not_lt hdata
        next hlocks =>
          simp only [Except.ok.injEq, Prod.mk.injEq] at h
          exact absurd h.1 hlocks
    next => exact absurd h (by simp)
  next => exact absurd h (by simp)

/-- **Each value has one fate.**  Taken in the order of the puts, the values put
are cut into batches: a get takes the next value; a clear, a shutdown and the
destruction take all that are left, and hand them to the free-up procedure once
and in this order, or not at all; nothing else takes or frees any. -/
theorem values_have_one_fate {env : CreateEnv} {elemsize : UInt64} {maxelems : Int64}
    (hcreate : createWithSize env elemsize maxelems true = .ok (.ok, some cb))
    {ls : List (Obs τ)} {s : State τ Record Cont Cond}
    (hrun : Run (Step code) (State.init τ cb) ls s)
    (hputs : (ls.flatMap okPut).length < 2 ^ 63 - 1) {freeValues : Bool} {freed : List Value}
    (hdestroy : destroy s.shared freeValues = .ok freed) :
    ∃ batches last, Fates ls batches last ∧ freed = (if freeValues then last else []) ∧
      (∀ pre, pre <+: ls → ∃ left, Fates pre (batches.take pre.length) left) ∧
      ∀ pre l, pre ++ [l] <+: ls → discarding l ≠ none →
        Fates (pre ++ [l]) (batches.take (pre.length + 1)) [] := by
  obtain ⟨hcap, hw, hb⟩ := createWithSize_backed hcreate
  have hcarried : ∃ batches items,
      Carried elemsize.toNat maxelems.toInt.toNat ls batches items s := by
    refine Run.invariant_history (fun ls s => (ls.flatMap okPut).length < 2 ^ 63 - 1 →
      ∃ batches items, Carried elemsize.toNat maxelems.toInt.toNat ls batches items s)
      ?_ ?_ hrun hputs
    · intro ls t l u _ ih hstep hputs
      have hfew : (ls.flatMap okPut).length < 2 ^ 63 - 1 := by
        rw [List.flatMap_append, List.length_append] at hputs
        omega
      obtain ⟨batches, items, h⟩ := ih hfew
      exact h.step hcap hfew hstep
    · intro _
      refine ⟨[], [], hb, ?_, WaitInv.init trivial, ⟨.nil, rfl⟩, ?_, ?_⟩
      · show cb.wIdx ≤ 0
        rw [hw]
      · intro pre hpre
        obtain rfl := List.prefix_nil.mp hpre
        exact ⟨[], .nil, rfl⟩
      · intro pre l hpre
        exact absurd (List.prefix_nil.mp hpre) (by simp)
  obtain ⟨batches, items, h⟩ := hcarried
  exact ⟨batches, items, h.fates, h.backed.destroy hcap hdestroy, h.before, h.emptied⟩

/-- Two values are put; a get returns the first, the destruction frees the other. -/
theorem values_have_one_fate_two :
    ∃ (cb : Record) (ls : List (Obs Unit)) (s : State Unit Record Cont Cond),
      createWithSize roomy 1 2 true = .ok (.ok, some cb) ∧
      Run (Step code) (State.init Unit cb) ls s ∧ ls.flatMap okPut = [[7], [8]] ∧
      destroy s.shared true = .ok [[8]] ∧ ∃ batches, Fates ls batches [[8]] := by
  have hrun : ∃ p, exec (next code) (State.init Unit (newRecord 1 2 true ⟨107, fun _ => 0⟩))
        [.call () (.put (some [7]) 5), .call () (.put (some [8]) 5), .call () (.get (some 1) 5)] =
          some p ∧
      p.1.flatMap okPut = [[7], [8]] ∧ destroy p.2.shared true = .ok [[8]] :=
    ⟨_, rfl, rfl, rfl⟩
  obtain ⟨⟨ls, s⟩, hexec, hputs, hdestroy⟩ := hrun
  have hs := run_of_exec hexec
  have hcreate : createWithSize roomy 1 2 true =
      .ok (.ok, some (newRecord 1 2 true ⟨107, fun _ => 0⟩)) := rfl
  obtain ⟨batches, last, hfates, hlast, -⟩ :=
    values_have_one_fate hcreate hs (by rw [show ls.flatMap okPut = _ from hputs]; decide) hdestroy
  refine ⟨_, ls, s, hcreate, hs, hputs, hdestroy, batches, ?_⟩
  rw [if_pos rfl] at hlast
  rw [hlast]
  exact hfates

end Mccp.Cbuffer
