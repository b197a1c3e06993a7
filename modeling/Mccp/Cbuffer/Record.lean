/-
  Mccp.Cbuffer.Record
  ───────────────────
  **THE CIRCULAR BUFFER OF cbuffer.c, AS THE CODE COMPUTES IT.**

  `Record` is `mccp_cbuffer_record`, on an LP64 platform: three 64-bit
  counters, the flags, and the block the allocator returned, of which the
  slots are the bytes from `m_data` on.  All size and index arithmetic is
  64-bit and wraps.  An access outside the block, and a call of
  mccp_exit_fatal(), stop the process (`Stop`).

  The operations are the segments of a monitor (`Mccp.Lib.Monitor`): the lock
  is `m_lock`, the two conditions are `m_cond_get` and `m_cond_put`, and
  `code` lists what each call does from the moment it holds the lock to the
  moment it returns or sleeps in mccp_cond_wait().
-/
import Mccp.Lib.Memory
import Mccp.Lib.Monitor
import Mccp.Result

namespace Mccp.Cbuffer

open Memory Monitor

/-! ## §1. The record. -/

/-- The bytes of one element. -/
abbrev Value := List UInt8

/-- `mccp_qmuxer_t`: a queue muxer is known by its address. -/
abbrev Qmuxer := Nat

/-- `mccp_qmuxer_poll_event_t`. -/
inductive PollEvent where
  | unknown
  | readable
  | writable
  | both
  deriving DecidableEq, Repr

/-- The numbers of the enumeration. -/
def PollEvent.bits : PollEvent → Nat
  | .unknown => 0
  | .readable => 1
  | .writable => 2
  | .both => 3

/-- `IS_BIT_SET`. -/
def isBitSet (a b : Nat) : Bool := a &&& b == b

/-- `NEED_WAIT_READABLE`. -/
def needWaitReadable (type : PollEvent) : Bool := isBitSet type.bits PollEvent.readable.bits

/-- `NEED_WAIT_WRITABLE`. -/
def needWaitWritable (type : PollEvent) : Bool := isBitSet type.bits PollEvent.writable.bits

/-- `sizeof(mccp_cbuffer_record)`. -/
def sizeofRecord : Nat := 104

/-- The offset of `m_data` in the record (the record is padded behind it). -/
def offsetofData : Nat := 100

/-- `mccp_cbuffer_record`. -/
structure Record where
  rIdx : Int
  wIdx : Int
  nElements : Int
  isOperational : Bool
  /-- Whether `m_del_proc` is set. -/
  delProc : Bool
  elementSize : Nat
  nMaxElements : Int
  nMaxAllocdElements : Int
  qmuxer : Option Qmuxer
  type : PollEvent
  /-- The allocated block, the record's own fields included. -/
  block : Block

/-- Why a call stops the process. -/
inductive Stop where
  /-- mccp_exit_fatal() with its message. -/
  | exitFatal (msg : String)
  /-- An access outside the allocated block: undefined behaviour. -/
  | outOfBlock
  deriving DecidableEq, Repr

/-- `m_cond_get` and `m_cond_put`. -/
inductive Cond where
  | get
  | put
  deriving DecidableEq, Repr

/-! ## §2. Slots and indices. -/

/-- `s_adjust_indices`. -/
def sAdjustIndices (cb : Record) : Record :=
  if 0 ≤ cb.wIdx then cb
  else { cb with
    wIdx := cb.nMaxAllocdElements
    rIdx := cb.rIdx.tmod cb.nMaxAllocdElements }

/-- `s_data_addr`: the offset of a slot in the block; none is the NULL of a
negative index.  Addresses, like the product, are 64-bit and wrap. -/
def sDataAddr (cb : Record) (idx : Int) : Option Nat :=
  if 0 ≤ idx then
    some (offsetofData + size64 (idx.tmod cb.nMaxAllocdElements * int64 cb.elementSize))
  else none

/-- The loop of `s_freeup_all_values`: the values handed to the free-up
procedure, over the `n` indices from `i` on. -/
def sFreeupLoop (cb : Record) : Nat → Int → Except Stop (List Value)
  | 0, _ => .ok []
  | n + 1, i =>
      match sDataAddr cb i with
      | some addr =>
          match cb.block.read addr cb.elementSize with
          | some v => (sFreeupLoop cb n (i + 1)).map (v :: ·)
          | none => .error .outOfBlock
      | none => sFreeupLoop cb n (i + 1)

/-- `s_freeup_all_values`: the record after it, and what was freed. -/
def sFreeupAllValues (cb : Record) : Except Stop (Record × List Value) :=
  if cb.delProc then
    let cb := sAdjustIndices cb
    (sFreeupLoop cb (cb.wIdx - cb.rIdx).toNat cb.rIdx).map (fun vs => (cb, vs))
  else .ok (cb, [])

/-- `s_clean`: the record after it, and what was freed. -/
def sClean (cb : Record) (freeValues : Bool) : Except Stop (Record × List Value) := do
  let (cb, freed) ← if freeValues then sFreeupAllValues cb else .ok (cb, [])
  match cb.block.fill offsetofData (size64 (cb.elementSize * size64 cb.nMaxAllocdElements)) 0 with
  | some block =>
      return ({ cb with rIdx := 0, wIdx := 0, block := block, nElements := 0 }, freed)
  | none => .error .outOfBlock

/-! ## §3. Calls, results, segments. -/

/-- The calls on one buffer, by arguments.  `val` and `dst` are `valptr` and
`valsz`: none is NULL, otherwise the bytes at `valptr`, or just how many there
are.  `retptr` tells whether the flag's address is given. -/
inductive Call where
  | put (val : Option Value) (nsec : Int)
  | get (dst : Option Nat) (nsec : Int)
  | peek (dst : Option Nat) (nsec : Int)
  | clear (freeValues : Bool)
  | shutdown (freeValues : Bool)
  | size
  | remainingCapacity
  | maxCapacity
  | isFull (retptr : Bool)
  | isEmpty (retptr : Bool)
  | isOperational (retptr : Bool)
  | setupForQmuxer (qmx : Option Qmuxer) (type : PollEvent) (isPre : Bool)
  deriving DecidableEq, Repr

/-- What a sleeping call still has to do: it starts again at `recheck`. -/
inductive Cont where
  | put (val : Value) (nsec : Int)
  | get (nsec : Int)
  | peek (nsec : Int)
  deriving DecidableEq, Repr

/-- What the caller sees of a call: the result code (`ok` where the function
returns nothing), the bytes copied to `*valptr`, the flag stored at `*retptr`,
the two sizes stored by the setup, and the values handed to the free-up
procedure. -/
structure Seen where
  result : Result
  val : Option Value := none
  flag : Option Bool := none
  sizes : Option (Int × Int) := none
  freed : List Value := []
  deriving DecidableEq, Repr

/-- What a call does: what its caller sees, and the muxers it notifies. -/
structure Ret extends Seen where
  notified : List Qmuxer := []
  deriving DecidableEq, Repr

/-- The segments of this monitor. -/
abbrev Segment := Seg Record Cont Ret Cond Stop

/-- The muxer to notify when the registered type passes the test. -/
def notifyIf (cb : Record) (test : PollEvent → Bool) : List Qmuxer :=
  match cb.qmuxer with
  | some qmx => if test cb.type then [qmx] else []
  | none => []

/-- `mccp_cbuffer_put_with_size` from `recheck` on. -/
def putRecheck (cb : Record) (val : Value) (nsec : Int) : Segment :=
  if cb.isOperational then
    let cb := sAdjustIndices cb
    if cb.nElements < cb.nMaxElements then
      match sDataAddr cb cb.wIdx with
      | some dst =>
          match cb.block.write dst val with
          | some block =>
              let cb := { cb with
                block := block
                wIdx := int64 (cb.wIdx + 1)
                nElements := int64 (cb.nElements + 1) }
              .ret cb { result := .ok, notified := notifyIf cb needWaitReadable } [.get]
          | none => .halt .outOfBlock
      | none => .halt (.exitFatal "Circular buffer write pointer error.\n")
    else .wait cb (.put val nsec) .put []
  else .ret cb { result := .notOperational } []

/-- `mccp_cbuffer_get_with_size` from `recheck` on. -/
def getRecheck (cb : Record) (nsec : Int) : Segment :=
  if cb.isOperational then
    let cb := sAdjustIndices cb
    if 0 < cb.nElements then
      match sDataAddr cb cb.rIdx with
      | some src =>
          match cb.block.read src cb.elementSize with
          | some val =>
              let cb := { cb with
                rIdx := int64 (cb.rIdx + 1)
                nElements := int64 (cb.nElements - 1) }
              .ret cb { result := .ok, val := some val, notified := notifyIf cb needWaitWritable }
                [.put]
          | none => .halt .outOfBlock
      | none => .halt (.exitFatal "Circular buffer read pointer error.\n")
    else .wait cb (.get nsec) .get []
  else .ret cb { result := .notOperational } []

/-- `mccp_cbuffer_peek_with_size` from `recheck` on. -/
def peekRecheck (cb : Record) (nsec : Int) : Segment :=
  if cb.isOperational then
    let cb := sAdjustIndices cb
    if 0 < cb.nElements then
      match sDataAddr cb cb.rIdx with
      | some src =>
          match cb.block.read src cb.elementSize with
          | some val => .ret cb { result := .ok, val := some val } []
          | none => .halt .outOfBlock
      | none => .halt (.exitFatal "Circular buffer read pointer error.\n")
    else .wait cb (.peek nsec) .get []
  else .ret cb { result := .notOperational } []

/-- `mccp_cbuffer_clear`. -/
def clear (cb : Record) (freeValues : Bool) : Segment :=
  match sClean cb freeValues with
  | .ok (cb, freed) =>
      .ret cb { result := .ok, notified := notifyIf cb needWaitReadable, freed := freed } [.put]
  | .error h => .halt h

/-- `mccp_cbuffer_shutdown`, with `s_shutdown`. -/
def shutdown (cb : Record) (freeValues : Bool) : Segment :=
  if cb.isOperational then
    match sClean { cb with isOperational := false } freeValues with
    | .ok (cb, freed) =>
        .ret cb { result := .ok, notified := cb.qmuxer.toList, freed := freed } [.get, .put]
    | .error h => .halt h
  else .ret cb { result := .ok } []

/-- The common form of the size queries. -/
def query (cb : Record) (n : Int) : Segment :=
  .ret cb { result := if cb.isOperational then n else .notOperational } []

/-- The common form of the flag queries: `*retptr` is false unless the buffer
is operational and `b` holds. -/
def flagQuery (cb : Record) (retptr b : Bool) : Segment :=
  if retptr then
    if cb.isOperational then .ret cb { result := .ok, flag := some b } []
    else .ret cb { result := .notOperational, flag := some false } []
  else .ret cb { result := .invalidArgs } []

/-- `*remptr`, also the result of `mccp_cbuffer_remaining_capacity`. -/
def remaining (cb : Record) : Int := int64 (cb.nMaxElements - cb.nElements)

/-- What a muxer that polls for `type` has to wait for: the `ret` of the setup. -/
def needWait (cb : Record) (type : PollEvent) : PollEvent :=
  if needWaitReadable type ∧ cb.nElements = 0 then .readable
  else if needWaitWritable type ∧ remaining cb = 0 then .writable
  else .unknown

/-- `cbuffer_setup_for_qmuxer`, with both size pointers given. -/
def setupForQmuxer (cb : Record) (qmx : Option Qmuxer) (type : PollEvent) (isPre : Bool) :
    Record × Ret :=
  match qmx with
  | some qmx =>
      if cb.isOperational then
        let ret := needWait cb type
        let seen : Ret := { result := ret.bits, sizes := some (cb.nElements, remaining cb) }
        if isPre ∧ 0 < ret.bits then ({ cb with qmuxer := some qmx, type := ret }, seen)
        else ({ cb with qmuxer := none, type := .unknown }, seen)
      else (cb, { result := .notOperational })
  | none => (cb, { result := .invalidArgs })

/-- The first segment of each call: the argument checks, then the body. -/
def enter (cb : Record) : Call → Segment
  | .put val nsec =>
      match val with
      | some v => if v.length = cb.elementSize then putRecheck cb v nsec
                  else .ret cb { result := .invalidArgs } []
      | none => .ret cb { result := .invalidArgs } []
  | .get dst nsec =>
      if dst = some cb.elementSize then getRecheck cb nsec
      else .ret cb { result := .invalidArgs } []
  | .peek dst nsec =>
      if dst = some cb.elementSize then peekRecheck cb nsec
      else .ret cb { result := .invalidArgs } []
  | .clear freeValues => clear cb freeValues
  | .shutdown freeValues => shutdown cb freeValues
  | .size => query cb cb.nElements
  | .remainingCapacity => query cb (remaining cb)
  | .maxCapacity => query cb cb.nMaxElements
  | .isFull retptr => flagQuery cb retptr (decide (cb.nMaxElements ≤ cb.nElements))
  | .isEmpty retptr => flagQuery cb retptr (decide (cb.nElements = 0))
  | .isOperational retptr =>
      if retptr then .ret cb { result := .ok, flag := some cb.isOperational } []
      else .ret cb { result := .invalidArgs } []
  | .setupForQmuxer qmx type isPre =>
      let (cb, r) := setupForQmuxer cb qmx type isPre
      .ret cb r []

/-- The result of a wait that did not succeed. -/
def waitError : Wakeup → Result
  | .signaled => .ok
  | .timedout => .timedout
  | .failed => .posixApiError

/-- The segment after a wait: `recheck` after a success, else the error. -/
def resume (cb : Record) (k : Cont) (w : Wakeup) : Segment :=
  match w with
  | .signaled =>
      match k with
      | .put val nsec => putRecheck cb val nsec
      | .get nsec => getRecheck cb nsec
      | .peek nsec => peekRecheck cb nsec
  | w => .ret cb { result := waitError w } []

/-- The wait time of a sleeping call. -/
def Cont.nsec : Cont → Int
  | .put _ nsec => nsec
  | .get nsec => nsec
  | .peek nsec => nsec

/-- **The buffer as a monitor.**  Only a wait with a deadline can time out. -/
def code : Code Record Call Cont Ret Cond Stop where
  seg cb
    | .enter c => enter cb c
    | .resume k w => resume cb k w
  mayEnd k w := w ≠ .timedout ∨ 0 ≤ k.nsec

/-- The observations of a buffer. -/
abbrev Obs (τ : Type) := Label τ Call Cont Ret Cond Stop

/-! ## §4. Creation. -/

/-- What the outside decides during a creation. -/
structure CreateEnv where
  /-- malloc(): the bytes it finds in the new block, or none. -/
  malloc : Nat → Option (Nat → UInt8)
  /-- The result of creating the lock and the conditions. -/
  locks : Result

/-- An outside where everything succeeds, over zeroed memory. -/
def roomy : CreateEnv where
  malloc _ := some fun _ => 0
  locks := .ok

/-- The size mccp_cbuffer_create_with_size() asks malloc() for. -/
def allocSize (elemsize : UInt64) (maxelems : Int64) : Nat :=
  size64 (sizeofRecord + size64 (elemsize.toNat * size64 (int64 (maxelems.toInt + 1))))

/-- The record that creation leaves in its new block. -/
def newRecord (elemsize : UInt64) (maxelems : Int64) (proc : Bool) (block : Block) : Record where
  rIdx := 0
  wIdx := 0
  nElements := 0
  nMaxElements := maxelems.toInt
  nMaxAllocdElements := int64 (maxelems.toInt + 1)
  elementSize := elemsize.toNat
  delProc := proc
  isOperational := true
  qmuxer := none
  type := .unknown
  block := block

/-- `mccp_cbuffer_create_with_size`, with `cbptr` given: the result and `*cbptr`. -/
def createWithSize (env : CreateEnv) (elemsize : UInt64) (maxelems : Int64) (proc : Bool) :
    Except Stop (Result × Option Record) :=
  if 0 < elemsize.toNat ∧ 0 < maxelems.toInt then
    let size := allocSize elemsize maxelems
    match env.malloc size with
    | some bytes =>
        -- the locks and the fields are written into the new block
        if size < offsetofData then .error .outOfBlock
        else if env.locks = .ok then
          .ok (.ok, some (newRecord elemsize maxelems proc ⟨size, bytes⟩))
        else .ok (env.locks, none)
    | none => .ok (.noMemory, none)
  else .ok (.invalidArgs, none)

end Mccp.Cbuffer
