/-
  Mccp.Cbuffer.Behaviour
  ──────────────────────
  **A CREATED BUFFER, OVER WHOLE RUNS.**

  `BehavesAsFifo` is the purpose of a buffer: with any number of threads,
  under every schedule, what is observed is a run of the bounded FIFO list.
  The counters are 64-bit, so it speaks of the runs with fewer than 2^63 - 1
  successful puts since the creation or the last clear (`PutsBounded`).

      Holds.run                    — the segment-wise matching, over runs
      Filled.not_behavesAsFifo     — a block that is too short is left by a put

  Together they say exactly which created buffers behave as the list.
-/
import Mccp.Cbuffer.Refinement

namespace Mccp.Cbuffer

open Memory Monitor Transition

/-! ## §1. Counting the successful puts. -/

variable {τ : Type}

/-- A put counts when it returned OK. -/
def countOk (n : Nat) : Outcome Cont Ret Cond Stop → Nat
  | .returned r => if r.result = .ok then n + 1 else n
  | _ => n

/-- One observation more: a put that returned OK counts, a clear starts again. -/
def countPut (n : Nat) : Obs τ → Nat
  | .seg _ (.enter c) o =>
      match c with
      | .put _ _ => countOk n o
      | .clear _ => 0
      | _ => n
  | .seg _ (.resume k _) o =>
      match k with
      | .put _ _ => countOk n o
      | _ => n
  | .wake _ _ => n

/-- The successful puts since the creation or the last clear. -/
def putsSince (ls : List (Obs τ)) : Nat := ls.foldl countPut 0

/-- At no time were there 2^63 - 1 successful puts since the last clear. -/
def PutsBounded (ls : List (Obs τ)) : Prop := ∀ ms, ms <+: ls → putsSince ms < 2 ^ 63 - 1

theorem putsSince_snoc (ls : List (Obs τ)) (l : Obs τ) :
    putsSince (ls ++ [l]) = countPut (putsSince ls) l := by
  unfold putsSince
  rw [List.foldl_append]
  rfl

theorem PutsBounded.of_snoc {ls : List (Obs τ)} {l : Obs τ} (h : PutsBounded (ls ++ [l])) :
    PutsBounded ls := by
  intro ms hms
  exact h ms (hms.trans (List.prefix_append ls [l]))

theorem PutsBounded.snoc {ls : List (Obs τ)} {l : Obs τ} (h : PutsBounded ls)
    (hl : putsSince (ls ++ [l]) < 2 ^ 63 - 1) : PutsBounded (ls ++ [l]) := by
  intro ms hms
  rcases List.prefix_concat_iff.mp hms with rfl | hms
  · exact hl
  · exact h ms hms

/-! ## §2. The write index counts at most the puts. -/

variable {es cap : Nat} {delProc : Bool} {cb : Record} {q : Fifo cap}

/-- The write index after a put. -/
theorem putRecheck_wIdx (h0 : 0 ≤ cb.wIdx) (hend : cb.wIdx < 2 ^ 63 - 1) (v : Value) (nsec : Int)
    {n : Nat} (hn : cb.wIdx ≤ n) :
    ((putRecheck cb v nsec).stateOr cb).wIdx ≤ countOk n (putRecheck cb v nsec).outcome := by
  have hw64 : int64 (cb.wIdx + 1) = cb.wIdx + 1 := int64_of_range (by omega) (by omega)
  unfold putRecheck
  rw [sAdjustIndices_eq h0]
  split
  next =>
    simp only []
    split
    next =>
      split
      next =>
        split
        next =>
          simp only [Seg.stateOr, Seg.outcome, countOk, hw64, if_true]
          push_cast
          omega
        next => exact hn
      next => exact hn
    next => exact hn
  next => exact hn

/-- A get or a peek leaves the write index alone. -/
theorem readRecheck_wIdx (h0 : 0 ≤ cb.wIdx) {nsec : Int} {sg : Segment}
    (hsg : sg = getRecheck cb nsec ∨ sg = peekRecheck cb nsec) :
    (sg.stateOr cb).wIdx = cb.wIdx := by
  rcases hsg with rfl | rfl
  all_goals
    simp only [getRecheck, peekRecheck, sAdjustIndices_eq h0]
    split
    next =>
      split
      next =>
        split
        next => split <;> rfl
        next => rfl
      next => rfl
    next => rfl

/-- A put's write index, from the first segment on. -/
theorem enter_put_wIdx (h0 : 0 ≤ cb.wIdx) (hend : cb.wIdx < 2 ^ 63 - 1) (val : Option Value)
    (nsec : Int) {n : Nat} (hn : cb.wIdx ≤ n) :
    ((enter cb (.put val nsec)).stateOr cb).wIdx
      ≤ countOk n (enter cb (.put val nsec)).outcome := by
  unfold enter
  cases val with
  | none => exact hn
  | some v =>
    simp only []
    split
    · exact putRecheck_wIdx h0 hend v nsec hn
    · exact hn

/-- A query leaves the record alone. -/
theorem flagQuery_stateOr (cb : Record) (retptr b : Bool) :
    (flagQuery cb retptr b).stateOr cb = cb := by
  unfold flagQuery
  split
  · split <;> rfl
  · rfl

/-- The setup for a muxer leaves the write index alone. -/
theorem setupForQmuxer_wIdx (cb : Record) (qmx : Option Qmuxer) (type : PollEvent) (isPre : Bool) :
    (setupForQmuxer cb qmx type isPre).1.wIdx = cb.wIdx := by
  unfold setupForQmuxer
  split
  · split
    · simp only []
      split <;> rfl
    · rfl
  · rfl

/-- **The write index never runs ahead of the count of puts.** -/
theorem wIdx_le_countPut (hz : Sizes es cap) (h : Holds es cap delProc cb q)
    (hend : cb.wIdx < 2 ^ 63 - 1) {n : Nat} (hn : cb.wIdx ≤ n) (t : τ) (i : Input Call Cont) :
    ((code.seg cb i).stateOr cb).wIdx ≤ countPut n (.seg t i (code.seg cb i).outcome) := by
  have h0 := h.wIdx_nonneg
  cases i with
  | enter c =>
    show ((enter cb c).stateOr cb).wIdx ≤ _
    cases c with
    | put val nsec => exact enter_put_wIdx h0 hend val nsec hn
    | get dst nsec =>
      simp only [enter]
      split
      · exact (readRecheck_wIdx h0 (.inl rfl)).trans_le hn
      · exact hn
    | peek dst nsec =>
      simp only [enter]
      split
      · exact (readRecheck_wIdx h0 (.inr rfl)).trans_le hn
      · exact hn
    | clear freeValues =>
      -- the indices start at 0 again, and so does the count
      obtain ⟨block, -, hclean⟩ := h.sClean hz freeValues
      show ((clear cb freeValues).stateOr cb).wIdx ≤ 0
      unfold clear
      rw [hclean]
      exact Int.le_refl 0
    | shutdown freeValues =>
      show ((shutdown cb freeValues).stateOr cb).wIdx ≤ n
      unfold shutdown
      split
      next =>
        have hdown : Stores es cap delProc { cb with isOperational := false } q.items :=
          { h.toStores with }
        obtain ⟨block, -, hclean⟩ := hdown.sClean hz freeValues
        rw [hclean]
        exact Int.natCast_nonneg n
      next => exact hn
    | size => exact hn
    | remainingCapacity => exact hn
    | maxCapacity => exact hn
    | isFull retptr =>
      show ((flagQuery cb retptr _).stateOr cb).wIdx ≤ n
      rw [flagQuery_stateOr]
      exact hn
    | isEmpty retptr =>
      show ((flagQuery cb retptr _).stateOr cb).wIdx ≤ n
      rw [flagQuery_stateOr]
      exact hn
    | isOperational retptr =>
      simp only [enter]
      cases retptr <;> exact hn
    | setupForQmuxer qmx type isPre =>
      exact (setupForQmuxer_wIdx cb qmx type isPre).trans_le hn
  | resume k w =>
    show ((resume cb k w).stateOr cb).wIdx ≤ _
    cases k with
    | put val nsec =>
      cases w with
      | signaled => exact putRecheck_wIdx h0 hend val nsec hn
      | timedout => exact hn
      | failed => exact hn
    | get nsec =>
      cases w with
      | signaled => exact (readRecheck_wIdx h0 (.inl rfl)).trans_le hn
      | timedout => exact hn
      | failed => exact hn
    | peek nsec =>
      cases w with
      | signaled => exact (readRecheck_wIdx h0 (.inr rfl)).trans_le hn
      | timedout => exact hn
      | failed => exact hn

/-! ## §3. Runs of a buffer that holds its list. -/

/-- What a run of the buffer carries along: the matching run of the list, and
the bound on the write index. -/
structure Matched (es cap : Nat) (delProc : Bool) (q : Fifo cap) (ls : List (Obs τ))
    [DecidableEq τ] (s : State τ Record Cont Cond) (a : State τ (Fifo cap) Cont Cond) : Prop where
  run : Run (Step (Fifo.code es cap delProc)) (State.init τ q) (ls.map (Label.map Ret.toSeen)) a
  related : Related (Holds es cap delProc) (ContOk es) s a
  wIdx_le : s.shared.wIdx ≤ putsSince ls

variable [DecidableEq τ]

/-- **One step is matched.** -/
theorem Matched.step (hz : Sizes es cap) {ls : List (Obs τ)} {l : Obs τ}
    {s s' : State τ Record Cont Cond} {a : State τ (Fifo cap) Cont Cond}
    (h : Matched es cap delProc q ls s a) (hb : putsSince ls < 2 ^ 63 - 1)
    (hstep : Step code s l s') : ∃ a', Matched es cap delProc q (ls ++ [l]) s' a' := by
  have hend : s.shared.wIdx < 2 ^ 63 - 1 := by
    have := h.wIdx_le
    omega
  obtain ⟨a', ha', hrel⟩ : ∃ a', Step (Fifo.code es cap delProc) a (l.map Ret.toSeen) a' ∧
      Related (Holds es cap delProc) (ContOk es) s' a' :=
    hstep.sim h.related rfl (fun t i _ hk _ => h.related.shared.seg hz hend i hk)
  refine ⟨a', ⟨?_, hrel, ?_⟩⟩
  · rw [List.map_append]
    exact h.run.snoc ha'
  · rw [putsSince_snoc]
    obtain ⟨-, ⟨t, i, -, rfl, rfl⟩ | ⟨t, w, k, c, -, -, rfl, rfl⟩⟩ := step_cases hstep
    · rw [State.after_shared]
      exact wIdx_le_countPut hz h.related.shared hend h.wIdx_le t i
    · exact h.wIdx_le

/-- **Every run is matched.** -/
theorem Holds.run (hz : Sizes es cap) (h : Holds es cap delProc cb q) (h0 : cb.wIdx = 0)
    {ls : List (Obs τ)} {s : State τ Record Cont Cond}
    (hrun : Run (Step code) (State.init τ cb) ls s) (hb : PutsBounded ls) :
    ∃ a, Matched es cap delProc q ls s a := by
  refine Run.invariant_history
    (fun ls s => PutsBounded ls → ∃ a, Matched es cap delProc q ls s a) ?_ ?_ hrun hb
  · intro ls t l u _ ih hstep hb
    obtain ⟨a, ha⟩ := ih hb.of_snoc
    exact ha.step hz (hb ls (List.prefix_append ls [l])) hstep
  · intro _
    refine ⟨State.init τ q, .nil _, ⟨h, rfl, rfl, ?_⟩, ?_⟩
    · intro t k hk
      exact absurd hk (by simp [State.init, Thread.cont?])
    · show cb.wIdx ≤ 0
      omega

/-- **What a buffer is for**: under every schedule of any number of threads,
what is observed is a run of the bounded FIFO list, with the same threads
asleep, the same flag and the same number of values held. -/
def BehavesAsFifo (es cap : Nat) (delProc : Bool) (cb : Record) : Prop :=
  ∀ (τ : Type) [DecidableEq τ] (ls : List (Obs τ)) (s : State τ Record Cont Cond),
    Run (Step code) (State.init τ cb) ls s → PutsBounded ls →
    ∃ a : State τ (Fifo cap) Cont Cond,
      Run (Step (Fifo.code es cap delProc)) (State.init τ (Fifo.empty cap))
        (ls.map (Label.map Ret.toSeen)) a ∧
      s.thread = a.thread ∧ s.halted = a.halted ∧
      s.shared.isOperational = a.shared.isOpen ∧
      s.shared.nElements = a.shared.items.length

/-- A record that holds the empty list behaves as the list. -/
theorem Holds.behavesAsFifo (hz : Sizes es cap) (h : Holds es cap delProc cb (Fifo.empty cap))
    (h0 : cb.wIdx = 0) : BehavesAsFifo es cap delProc cb := by
  intro τ _ ls s hrun hb
  obtain ⟨a, ha⟩ := h.run hz h0 hrun hb
  exact ⟨a, ha.run, ha.related.thread, ha.related.halted, ha.related.shared.isOperational,
    ha.related.shared.nElements_eq⟩

/-! ## §4. A block that is too short. -/

omit [DecidableEq τ] in
/-- Each observation counts at most once. -/
theorem putsSince_le_length (ls : List (Obs τ)) : putsSince ls ≤ ls.length := by
  induction ls using List.reverseRecOn with
  | nil => exact Nat.le_refl 0
  | append_singleton ls l ih =>
    have hone : countPut (putsSince ls) l ≤ putsSince ls + 1 := by
      have hok : ∀ o, countOk (putsSince ls) o ≤ putsSince ls + 1 := by
        intro o
        unfold countOk
        split
        · split <;> omega
        · omega
      unfold countPut
      split
      · split
        · exact hok _
        · omega
        · omega
      · split
        · exact hok _
        · omega
      · omega
    rw [putsSince_snoc, List.length_append, List.length_singleton]
    omega

/-- After `j` puts and nothing else, in a block of `size` bytes. -/
structure Filled (es cap size j : Nat) (cb : Record) : Prop where
  elementSize : cb.elementSize = es
  nMaxElements : cb.nMaxElements = cap
  nMaxAllocdElements : cb.nMaxAllocdElements = int64 (cap + 1)
  blockSize : cb.block.size = size
  isOperational : cb.isOperational = true
  wIdx : cb.wIdx = j
  nElements : cb.nElements = j

section
variable {size j : Nat} {v : Value}

/-- The address of one of the first slots, while it is inside the block. -/
theorem Filled.sDataAddr_lt {n : Nat} (h : Filled es cap size n cb) (hcap : cap < 2 ^ 63)
    (hj : j < cap) (hfit : offsetofData + j * es ≤ size) (hsize : size < 2 ^ 64) :
    sDataAddr cb (j : Int) = some (offsetofData + j * es) := by
  have hslot : slot es (cap + 1) j = j * es := by
    unfold slot
    rw [Nat.mod_eq_of_lt (by omega)]
  rw [sDataAddr_eq hcap h.nMaxAllocdElements (Int.natCast_nonneg j), h.elementSize,
    Int.toNat_natCast, hslot, size64_of_range (by omega)]

/-- The next put goes behind the `j` values, or faults there. -/
theorem Filled.putRecheck_eq (h : Filled es cap size j cb) (hcap : cap < 2 ^ 63) (hj : j < cap)
    (hfit : offsetofData + j * es ≤ size) (hsize : size < 2 ^ 64) (nsec : Int) :
    putRecheck cb v nsec =
      match cb.block.write (offsetofData + j * es) v with
      | some block =>
          .ret { cb with block := block, wIdx := int64 (cb.wIdx + 1),
                         nElements := int64 (cb.nElements + 1) }
            { result := .ok, notified := notifyIf cb needWaitReadable } [.get]
      | none => .halt .outOfBlock := by
  have h0 : 0 ≤ cb.wIdx := by
    rw [h.wIdx]
    exact Int.natCast_nonneg j
  have haddr : sDataAddr cb cb.wIdx = some (offsetofData + j * es) := by
    rw [h.wIdx]
    exact h.sDataAddr_lt hcap hj hfit hsize
  have hlt : cb.nElements < cb.nMaxElements := by
    rw [h.nElements, h.nMaxElements]
    omega
  unfold putRecheck
  rw [if_pos h.isOperational, sAdjustIndices_eq h0]
  simp only [if_pos hlt, haddr]
  rfl

/-- A put that fits is one put more. -/
theorem Filled.put (h : Filled es cap size j cb) (hcap : cap < 2 ^ 63) (hj : j < cap)
    (hfit : offsetofData + (j + 1) * es ≤ size) (hsize : size < 2 ^ 64) (hv : v.length = es)
    (nsec : Int) :
    ∃ cb' r ns, putRecheck cb v nsec = .ret cb' r ns ∧ Filled es cap size (j + 1) cb' := by
  have hmul : (j + 1) * es = j * es + es := Nat.succ_mul j es
  obtain ⟨block, hw⟩ : ∃ block, cb.block.write (offsetofData + j * es) v = some block :=
    Block.write_isSome (by rw [h.blockSize, hv]; omega)
  rw [h.putRecheck_eq hcap hj (by omega) hsize nsec, hw]
  refine ⟨_, _, _, rfl, h.elementSize, h.nMaxElements, h.nMaxAllocdElements,
    (Block.write_size hw).trans h.blockSize, h.isOperational, ?_, ?_⟩
  · show int64 (cb.wIdx + 1) = _
    rw [h.wIdx, int64_of_range (by omega) (by omega)]
    rfl
  · show int64 (cb.nElements + 1) = _
    rw [h.nElements, int64_of_range (by omega) (by omega)]
    rfl

/-- A put that does not fit leaves the block. -/
theorem Filled.put_faults (h : Filled es cap size j cb) (hcap : cap < 2 ^ 63) (hj : j < cap)
    (hfit : offsetofData + j * es ≤ size) (hover : size < offsetofData + (j + 1) * es)
    (hsize : size < 2 ^ 64) (hv : v.length = es) (nsec : Int) :
    putRecheck cb v nsec = .halt .outOfBlock := by
  have hmul : (j + 1) * es = j * es + es := Nat.succ_mul j es
  rw [h.putRecheck_eq hcap hj hfit hsize nsec,
    Block.write_none (by rw [h.blockSize, hv]; omega)]

/-- A put of the right size starts at `recheck`. -/
theorem seg_put (hv : v.length = cb.elementSize) (nsec : Int) :
    code.seg cb (.enter (.put (some v) nsec)) = putRecheck cb v nsec :=
  if_pos hv

/-- An idle thread can put a value of the right size. -/
theorem step_put {s : State Unit Record Cont Cond} (hhalt : s.halted = false)
    (hidle : s.thread () = .idle) (hv : v.length = s.shared.elementSize) (nsec : Int) :
    Step code s (.seg () (.enter (.put (some v) nsec)) (putRecheck s.shared v nsec).outcome)
      (s.after () (putRecheck s.shared v nsec)) := by
  rw [← seg_put hv nsec]
  exact step_seg hhalt hidle

/-- One thread can put as many values as fit. -/
theorem Filled.run (h : Filled es cap size 0 cb) (hcap : cap < 2 ^ 63) (hsize : size < 2 ^ 64)
    (hj : j ≤ cap) (hfit : offsetofData + j * es ≤ size) :
    ∃ ls s, Run (Step code) (State.init Unit cb) ls s ∧ ls.length = j ∧
      Filled es cap size j s.shared ∧ s.thread () = .idle ∧ s.halted = false := by
  induction j with
  | zero => exact ⟨[], _, .nil _, rfl, h, rfl, rfl⟩
  | succ j ih =>
    have hmul : (j + 1) * es = j * es + es := Nat.succ_mul j es
    obtain ⟨ls, s, hrun, hlen, hs, hidle, hhalt⟩ := ih (by omega) (by omega)
    obtain ⟨cb', r, ns, hput, hs'⟩ :=
      hs.put (v := List.replicate es 0) hcap (by omega) hfit hsize List.length_replicate 0
    have hlen0 : (List.replicate es (0 : UInt8)).length = s.shared.elementSize := by
      rw [List.length_replicate, hs.elementSize]
    have hstep := step_put hhalt hidle hlen0 0
    rw [hput] at hstep
    exact ⟨_, _, hrun.snoc hstep, by simp [hlen], hs', by simp [State.after], hhalt⟩

end

/-- Where the size wraps, there is a first slot that ends behind the block. -/
theorem exists_slot_past {size : Nat} (hes : es < 2 ^ 64) (hcap0 : 0 < cap)
    (hsize : size = (sizeofRecord + es * (cap + 1)) % 2 ^ 64) (hdata : offsetofData ≤ size)
    (hwrap : 2 ^ 64 ≤ sizeofRecord + es * (cap + 1)) :
    ∃ j < cap, offsetofData + j * es ≤ size ∧ size < offsetofData + (j + 1) * es := by
  have hcapes : es * (cap + 1) = cap * es + es := by ring
  -- the last slot but one is behind the block: at least one turn of 2^64 is missing
  have hmiss : size < offsetofData + (cap - 1 + 1) * es := by
    have hcap1 : cap - 1 + 1 = cap := by omega
    have hle : es ≤ cap * es := Nat.le_mul_of_pos_left es hcap0
    rw [hcap1]
    unfold sizeofRecord at hsize hwrap
    unfold offsetofData at hdata ⊢
    omega
  have hex : ∃ j, size < offsetofData + (j + 1) * es := ⟨cap - 1, hmiss⟩
  obtain ⟨j, hover, hmin⟩ : ∃ j, size < offsetofData + (j + 1) * es ∧
      ∀ m < j, ¬ size < offsetofData + (m + 1) * es :=
    ⟨Nat.find hex, Nat.find_spec hex, fun m hm => Nat.find_min hex hm⟩
  have hjcap : j < cap := by
    by_contra hge
    exact hmin (cap - 1) (by omega) hmiss
  refine ⟨j, hjcap, ?_, hover⟩
  cases j with
  | zero => simpa using hdata
  | succ j =>
    have := hmin j (Nat.lt_succ_self j)
    omega

/-- **Where the size wraps, some put leaves the block**, so the buffer does
not behave as the list. -/
theorem Filled.not_behavesAsFifo {size : Nat} (h : Filled es cap size 0 cb) (hes : es < 2 ^ 64)
    (hcap : cap < 2 ^ 63) (hcap0 : 0 < cap)
    (hsize : size = (sizeofRecord + es * (cap + 1)) % 2 ^ 64) (hdata : offsetofData ≤ size)
    (hwrap : 2 ^ 64 ≤ sizeofRecord + es * (cap + 1)) : ¬ BehavesAsFifo es cap delProc cb := by
  have hlt : size < 2 ^ 64 := by omega
  -- the first put that does not fit
  obtain ⟨j, hjcap, hfit, hover⟩ := exists_slot_past hes hcap0 hsize hdata hwrap
  obtain ⟨ls, s, hrun, hlen, hs, hidle, hhalt⟩ := h.run hcap hlt (Nat.le_of_lt hjcap) hfit
  have hfault := hs.put_faults (v := List.replicate es 0) hcap hjcap hfit hover hlt
    List.length_replicate 0
  have hlen0 : (List.replicate es (0 : UInt8)).length = s.shared.elementSize := by
    rw [List.length_replicate, hs.elementSize]
  have hstep := step_put hhalt hidle hlen0 0
  rw [hfault] at hstep
  have hls : PutsBounded ls := by
    intro ms hms
    have := hms.length_le
    have := putsSince_le_length ms
    omega
  have hbound : PutsBounded (ls ++ [.seg () (.enter (.put (some (List.replicate es 0)) 0))
      (Seg.outcome (.halt .outOfBlock : Segment))]) := by
    apply hls.snoc
    rw [putsSince_snoc]
    exact hls ls (List.prefix_refl ls)
  intro hfifo
  obtain ⟨a, ha, -⟩ := hfifo Unit _ _ (hrun.snoc hstep) hbound
  rw [List.map_append] at ha
  obtain ⟨b, -, hb⟩ := Run.last ha
  obtain ⟨-, ⟨t, i, -, hl, -⟩ | ⟨t, w, k, c, -, -, hl, -⟩⟩ := step_cases hb
  · injection hl with _ _ hout
    cases hsg : (Fifo.code es cap delProc).seg b.shared i with
    | ret => rw [hsg] at hout; exact absurd hout (by simp [Seg.outcome, Outcome.map])
    | wait => rw [hsg] at hout; exact absurd hout (by simp [Seg.outcome, Outcome.map])
    | halt st => exact Fifo.seg_ne_halt es delProc b.shared i st hsg
  · exact absurd hl (by simp [Label.map])

/-! ## §5. The buffers that creation hands out. -/

/-- The size that creation asks for, with its wraps. -/
theorem allocSize_eq (elemsize : UInt64) (maxelems : Int64) (h : 0 < maxelems.toInt) :
    allocSize elemsize maxelems
      = (sizeofRecord + elemsize.toNat * (maxelems.toInt.toNat + 1)) % 2 ^ 64 := by
  have hslots : (size64 (int64 (maxelems.toInt + 1)) : Int)
      ≡ (maxelems.toInt.toNat + 1 : Nat) [ZMOD 2 ^ 64] := by
    push_cast
    rw [Int.toNat_of_nonneg (Int.le_of_lt h)]
    exact (size64_modEq _).trans (int64_modEq _)
  have hsum : (sizeofRecord : Int) + size64 (elemsize.toNat * size64 (int64 (maxelems.toInt + 1)))
      ≡ (sizeofRecord + elemsize.toNat * (maxelems.toInt.toNat + 1) : Nat) [ZMOD 2 ^ 64] := by
    push_cast at hslots ⊢
    exact ((size64_modEq _).trans (hslots.mul_left _)).add_left _
  unfold allocSize
  rw [size64_congr hsum, size64_natCast]

/-- What creation does when everything outside succeeds. -/
theorem createWithSize_eq {env : CreateEnv} {elemsize : UInt64} {maxelems : Int64} (proc : Bool)
    (hes : 0 < elemsize.toNat) (hmx : 0 < maxelems.toInt) {bytes : Nat → UInt8}
    (hmem : env.malloc (allocSize elemsize maxelems) = some bytes) (hlocks : env.locks = .ok) :
    createWithSize env elemsize maxelems proc =
      if allocSize elemsize maxelems < offsetofData then .error .outOfBlock
      else .ok (.ok, some (newRecord elemsize maxelems proc
        ⟨allocSize elemsize maxelems, bytes⟩)) := by
  unfold createWithSize
  rw [if_pos ⟨hes, hmx⟩]
  simp only [hmem, if_pos hlocks]

/-- A new record whose block is long enough holds the empty list. -/
theorem newRecord_holds {elemsize : UInt64} {maxelems : Int64} (proc : Bool) {block : Block}
    (hmx : 0 < maxelems.toInt)
    (hblock : block.size = sizeofRecord + elemsize.toNat * (maxelems.toInt.toNat + 1)) :
    Holds elemsize.toNat maxelems.toInt.toNat proc (newRecord elemsize maxelems proc block)
      (Fifo.empty maxelems.toInt.toNat) where
  elementSize := rfl
  delProc_eq := rfl
  nMaxElements := (Int.toNat_of_nonneg (Int.le_of_lt hmx)).symm
  nMaxAllocdElements := by
    rw [Int.toNat_of_nonneg (Int.le_of_lt hmx)]
    rfl
  blockSize := hblock
  rIdx_nonneg := Int.le_refl 0
  wIdx_eq := rfl
  nElements_eq := rfl
  slots := by
    intro i hi
    exact absurd hi (by simp [Fifo.empty])
  isOperational := rfl

/-- A new record has been filled with nothing yet. -/
theorem newRecord_filled (elemsize : UInt64) {maxelems : Int64} (proc : Bool) (block : Block)
    (hmx : 0 < maxelems.toInt) :
    Filled elemsize.toNat maxelems.toInt.toNat block.size 0
      (newRecord elemsize maxelems proc block) where
  elementSize := rfl
  nMaxElements := (Int.toNat_of_nonneg (Int.le_of_lt hmx)).symm
  nMaxAllocdElements := by
    rw [Int.toNat_of_nonneg (Int.le_of_lt hmx)]
    rfl
  blockSize := rfl
  isOperational := rfl
  wIdx := rfl
  nElements := rfl

/-- **What creation hands out** when everything outside succeeds: the empty list
where the size does not wrap; otherwise it leaves its block, or hands out a
block that is too short. -/
theorem create_outcomes (env : CreateEnv) (elemsize : UInt64) (maxelems : Int64)
    (proc : Bool) (hes : 0 < elemsize.toNat) (hmx : 0 < maxelems.toInt)
    (hmem : (env.malloc (allocSize elemsize maxelems)).isSome) (hlocks : env.locks = .ok) :
    (sizeofRecord + elemsize.toNat * (maxelems.toInt.toNat + 1) < 2 ^ 64 ∧
      ∃ cb, createWithSize env elemsize maxelems proc = .ok (.ok, some cb) ∧ cb.wIdx = 0 ∧
        Sizes elemsize.toNat maxelems.toInt.toNat ∧
        Holds elemsize.toNat maxelems.toInt.toNat proc cb (Fifo.empty maxelems.toInt.toNat)) ∨
    (2 ^ 64 ≤ sizeofRecord + elemsize.toNat * (maxelems.toInt.toNat + 1) ∧
      (createWithSize env elemsize maxelems proc = .error .outOfBlock ∨
        ∃ cb, createWithSize env elemsize maxelems proc = .ok (.ok, some cb) ∧
          offsetofData ≤ allocSize elemsize maxelems ∧
          Filled elemsize.toNat maxelems.toInt.toNat (allocSize elemsize maxelems) 0 cb)) := by
  obtain ⟨bytes, hbytes⟩ := Option.isSome_iff_exists.mp hmem
  have hsize := allocSize_eq elemsize maxelems hmx
  have hcap : maxelems.toInt.toNat < 2 ^ 63 := by
    have := maxelems.toInt_lt
    omega
  rw [createWithSize_eq proc hes hmx hbytes hlocks]
  by_cases hfits : sizeofRecord + elemsize.toNat * (maxelems.toInt.toNat + 1) < 2 ^ 64
  · rw [Nat.mod_eq_of_lt hfits] at hsize
    have hdata : ¬ allocSize elemsize maxelems < offsetofData := by
      unfold offsetofData
      unfold sizeofRecord at hsize
      omega
    rw [if_neg hdata]
    exact .inl ⟨hfits, _, rfl, rfl, ⟨hes, by omega, hcap, hfits⟩, newRecord_holds proc hmx hsize⟩
  · refine .inr ⟨by omega, ?_⟩
    by_cases hdata : allocSize elemsize maxelems < offsetofData
    · rw [if_pos hdata]
      exact .inl rfl
    · rw [if_neg hdata]
      exact .inr ⟨_, rfl, by omega, newRecord_filled elemsize proc ⟨_, bytes⟩ hmx⟩

/-- **A created buffer behaves as a bounded FIFO list exactly when the size of
its block does not wrap.** -/
theorem create_behavesAsFifo_iff (env : CreateEnv) (elemsize : UInt64) (maxelems : Int64)
    (proc : Bool) (hes : 0 < elemsize.toNat) (hmx : 0 < maxelems.toInt)
    (hmem : (env.malloc (allocSize elemsize maxelems)).isSome) (hlocks : env.locks = .ok) :
    (∃ cb, createWithSize env elemsize maxelems proc = .ok (.ok, some cb) ∧
      BehavesAsFifo elemsize.toNat maxelems.toInt.toNat proc cb) ↔
    sizeofRecord + elemsize.toNat * (maxelems.toInt.toNat + 1) < 2 ^ 64 := by
  have hcap : maxelems.toInt.toNat < 2 ^ 63 := by
    have := maxelems.toInt_lt
    omega
  rcases create_outcomes env elemsize maxelems proc hes hmx hmem hlocks with
    ⟨hfits, cb, hcreate, hw, hz, hholds⟩ | ⟨hwrap, hstop | ⟨cb, hcreate, hdata, hfilled⟩⟩
  · exact iff_of_true ⟨cb, hcreate, hholds.behavesAsFifo hz hw⟩ hfits
  · refine iff_of_false ?_ (by omega)
    intro hex
    obtain ⟨cb, hcb, -⟩ := hex
    exact absurd (hstop.symm.trans hcb) (by simp)
  · refine iff_of_false ?_ (by omega)
    intro hex
    obtain ⟨cb', hcb, hfifo⟩ := hex
    rw [hcreate, Except.ok.injEq, Prod.mk.injEq, Option.some.injEq] at hcb
    rw [← hcb.2] at hfifo
    exact hfilled.not_behavesAsFifo elemsize.toNat_lt hcap (by omega)
      (allocSize_eq elemsize maxelems hmx) hdata hwrap hfifo

/-- Four values of eight bytes fit. -/
theorem create_behavesAsFifo_small :
    ∃ cb, createWithSize roomy 8 4 true = .ok (.ok, some cb) ∧ BehavesAsFifo 8 4 true cb :=
  (create_behavesAsFifo_iff roomy 8 4 true (by decide) (by decide) rfl rfl).mpr (by decide)

/-- The record in a block of 104 bytes that is to hold 2^60 slots of sixteen bytes. -/
def wrapped : Record := newRecord 16 (2 ^ 60 - 1) false ⟨sizeofRecord, fun _ => 0⟩

/-- Sixteen times 2^60 wraps to 0: creation asks for the header only. -/
theorem create_wrapped : createWithSize roomy 16 (2 ^ 60 - 1) false = .ok (.ok, some wrapped) ∧
    Filled 16 (2 ^ 60 - 1) sizeofRecord 0 wrapped := by
  have hmx : (2 ^ 60 - 1 : Int64).toInt = 2 ^ 60 - 1 := by decide +kernel
  have hes : (16 : UInt64).toNat = 16 := rfl
  have hcap : (2 ^ 60 - 1 : Int64).toInt.toNat = 2 ^ 60 - 1 := by rw [hmx]; rfl
  have hsize : allocSize 16 (2 ^ 60 - 1) = sizeofRecord := by
    rw [allocSize_eq 16 (2 ^ 60 - 1) (by rw [hmx]; decide), hcap, hes]
    decide
  constructor
  · rw [createWithSize_eq false (by decide) (by rw [hmx]; decide) rfl rfl, hsize]
    rfl
  · rw [← hcap, ← hes]
    exact newRecord_filled 16 false ⟨sizeofRecord, fun _ => 0⟩ (by rw [hmx]; decide)

/-- 2^60 slots of sixteen bytes wrap to none: creation succeeds on a block of
104 bytes, and the first put leaves it. -/
theorem createWithSize_wraps :
    ∃ cb, createWithSize roomy 16 (2 ^ 60 - 1) false = .ok (.ok, some cb) ∧
      cb.block.size = sizeofRecord ∧
      code.seg cb (.enter (.put (some (List.replicate 16 7)) 0)) = .halt .outOfBlock ∧
      ¬ BehavesAsFifo 16 (2 ^ 60 - 1) false cb := by
  obtain ⟨hcreate, hfilled⟩ := create_wrapped
  refine ⟨wrapped, hcreate, rfl, ?_, ?_⟩
  · rw [seg_put rfl]
    exact hfilled.put_faults (by decide) (by decide) (by decide) (by decide) (by decide) rfl 0
  · exact hfilled.not_behavesAsFifo (by decide) (by decide) (by decide) (by decide) (by decide)
      (by decide)

end Mccp.Cbuffer
