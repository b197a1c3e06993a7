/-
  Mccp.Cbuffer.Fifo
  ─────────────────
  **WHAT THE BUFFER IS FOR: A BOUNDED FIFO LIST.**

  The abstract state is the list of the values held, oldest first, and
  whether the buffer is still open.  Two facts are part of the type: at most
  `cap` values are held, and a closed buffer holds none.  There are no
  indices, no slots and no bytes, and no operation can stop the process.

      code    — the same calls as the C buffer, over the list
      seg_ne_halt — the abstract buffer never stops the process

  The blocking behaviour is part of the purpose too: a put sleeps exactly
  while the list is full, a get or a peek exactly while it is empty.
-/
import Mccp.Cbuffer.Record

namespace Mccp.Cbuffer

open Monitor

/-! ## §1. The abstract state. -/

/-- A bounded FIFO list. -/
structure Fifo (cap : Nat) where
  /-- The values held, oldest first. -/
  items : List Value
  isOpen : Bool
  bounded : items.length ≤ cap
  closed_empty : isOpen = false → items = []

namespace Fifo

variable {cap : Nat}

/-- A new buffer: open and empty. -/
def empty (cap : Nat) : Fifo cap where
  items := []
  isOpen := true
  bounded := Nat.zero_le cap
  closed_empty := fun _ => rfl

/-- Append a value at the young end. -/
def push (q : Fifo cap) (v : Value) (hopen : q.isOpen = true) (hroom : q.items.length < cap) :
    Fifo cap where
  items := q.items ++ [v]
  isOpen := q.isOpen
  bounded := by
    rw [List.length_append, List.length_singleton]
    omega
  closed_empty := by
    intro h
    rw [hopen] at h
    exact absurd h (by decide)

/-- Remove the oldest value. -/
def pop (q : Fifo cap) : Fifo cap where
  items := q.items.tail
  isOpen := q.isOpen
  bounded := by
    have := q.bounded
    rw [List.length_tail]
    omega
  closed_empty := by
    intro h
    rw [q.closed_empty h]
    rfl

/-- Drop every value. -/
def drop (q : Fifo cap) : Fifo cap where
  items := []
  isOpen := q.isOpen
  bounded := Nat.zero_le cap
  closed_empty := fun _ => rfl

/-- Drop every value and close. -/
def close (_ : Fifo cap) : Fifo cap where
  items := []
  isOpen := false
  bounded := Nat.zero_le cap
  closed_empty := fun _ => rfl

/-! ## §2. The calls. -/

/-- The segments of the abstract buffer. -/
abbrev Segment (cap : Nat) := Seg (Fifo cap) Cont Seen Cond Stop

/-- Put: append when there is room, sleep while there is none. -/
def put (q : Fifo cap) (val : Value) (nsec : Int) : Segment cap :=
  if hopen : q.isOpen then
    if hroom : q.items.length < cap then
      .ret (q.push val hopen hroom) { result := .ok } [.get]
    else .wait q (.put val nsec) .put []
  else .ret q { result := .notOperational } []

/-- Get: hand out and remove the oldest value, sleep while there is none. -/
def get (q : Fifo cap) (nsec : Int) : Segment cap :=
  if q.isOpen then
    match q.items with
    | v :: _ => .ret q.pop { result := .ok, val := some v } [.put]
    | [] => .wait q (.get nsec) .get []
  else .ret q { result := .notOperational } []

/-- Peek: hand out the oldest value and keep it, sleep while there is none. -/
def peek (q : Fifo cap) (nsec : Int) : Segment cap :=
  if q.isOpen then
    match q.items with
    | v :: _ => .ret q { result := .ok, val := some v } []
    | [] => .wait q (.peek nsec) .get []
  else .ret q { result := .notOperational } []

/-- A number about an open buffer. -/
def query (q : Fifo cap) (n : Int) : Segment cap :=
  .ret q { result := if q.isOpen then n else .notOperational } []

/-- A flag about an open buffer. -/
def flagQuery (q : Fifo cap) (retptr b : Bool) : Segment cap :=
  if retptr then
    if q.isOpen then .ret q { result := .ok, flag := some b } []
    else .ret q { result := .notOperational, flag := some false } []
  else .ret q { result := .invalidArgs } []

/-- What a muxer that polls for `type` has to wait for. -/
def needWait (q : Fifo cap) (type : PollEvent) : PollEvent :=
  if needWaitReadable type ∧ q.items = [] then .readable
  else if needWaitWritable type ∧ q.items.length = cap then .writable
  else .unknown

/-- What a muxer has to wait for, with the two sizes. -/
def pollEvent (q : Fifo cap) (type : PollEvent) : Segment cap :=
  if q.isOpen then
    .ret q {
      result := (q.needWait type).bits
      sizes := some (q.items.length, cap - q.items.length) } []
  else .ret q { result := .notOperational } []

/-- The first segment of each call, on values of `es` bytes. -/
def enter (es : Nat) (delProc : Bool) (q : Fifo cap) : Call → Segment cap
  | .put val nsec =>
      match val with
      | some v => if v.length = es then q.put v nsec else .ret q { result := .invalidArgs } []
      | none => .ret q { result := .invalidArgs } []
  | .get dst nsec =>
      if dst = some es then q.get nsec else .ret q { result := .invalidArgs } []
  | .peek dst nsec =>
      if dst = some es then q.peek nsec else .ret q { result := .invalidArgs } []
  | .clear freeValues =>
      .ret q.drop { result := .ok, freed := if freeValues ∧ delProc then q.items else [] } [.put]
  | .shutdown freeValues =>
      if q.isOpen then
        .ret q.close { result := .ok, freed := if freeValues ∧ delProc then q.items else [] }
          [.get, .put]
      else .ret q { result := .ok } []
  | .size => q.query q.items.length
  | .remainingCapacity => q.query (cap - q.items.length)
  | .maxCapacity => q.query cap
  | .isFull retptr => q.flagQuery retptr (decide (q.items.length = cap))
  | .isEmpty retptr => q.flagQuery retptr (decide (q.items = []))
  | .isOperational retptr =>
      if retptr then .ret q { result := .ok, flag := some q.isOpen } []
      else .ret q { result := .invalidArgs } []
  | .setupForQmuxer qmx type _ =>
      match qmx with
      | some _ => q.pollEvent type
      | none => .ret q { result := .invalidArgs } []

/-- The segment after a wait. -/
def resume (q : Fifo cap) (k : Cont) (w : Wakeup) : Segment cap :=
  match w with
  | .signaled =>
      match k with
      | .put val nsec => q.put val nsec
      | .get nsec => q.get nsec
      | .peek nsec => q.peek nsec
  | w => .ret q { result := waitError w } []

/-- **The bounded FIFO list as a monitor.** -/
def code (es cap : Nat) (delProc : Bool) : Code (Fifo cap) Call Cont Seen Cond Stop where
  seg q
    | .enter c => q.enter es delProc c
    | .resume k w => q.resume k w
  mayEnd k w := w ≠ .timedout ∨ 0 ≤ k.nsec

/-! ## §3. The abstract buffer never stops the process. -/

theorem put_ne_halt (q : Fifo cap) (v : Value) (nsec : Int) (h : Stop) :
    q.put v nsec ≠ .halt h := by
  unfold put
  split
  · split <;> simp
  · simp

theorem get_ne_halt (q : Fifo cap) (nsec : Int) (h : Stop) : q.get nsec ≠ .halt h := by
  unfold get
  split
  · split <;> simp
  · simp

theorem peek_ne_halt (q : Fifo cap) (nsec : Int) (h : Stop) : q.peek nsec ≠ .halt h := by
  unfold peek
  split
  · split <;> simp
  · simp

theorem enter_ne_halt (es : Nat) (delProc : Bool) (q : Fifo cap) (c : Call) (h : Stop) :
    q.enter es delProc c ≠ .halt h := by
  cases c with
  | put val nsec =>
    simp only [enter]
    split
    · split
      · exact q.put_ne_halt _ nsec h
      · simp
    · simp
  | get dst nsec =>
    simp only [enter]
    split
    · exact q.get_ne_halt nsec h
    · simp
  | peek dst nsec =>
    simp only [enter]
    split
    · exact q.peek_ne_halt nsec h
    · simp
  | clear => simp [enter]
  | shutdown =>
    simp only [enter]
    split <;> simp
  | size => simp [enter, query]
  | remainingCapacity => simp [enter, query]
  | maxCapacity => simp [enter, query]
  | isFull =>
    simp only [enter, flagQuery]
    split
    · split <;> simp
    · simp
  | isEmpty =>
    simp only [enter, flagQuery]
    split
    · split <;> simp
    · simp
  | isOperational =>
    simp only [enter]
    split <;> simp
  | setupForQmuxer =>
    simp only [enter, pollEvent]
    split
    · split <;> simp
    · simp

/-- **No segment of the abstract buffer stops the process.** -/
theorem seg_ne_halt (es : Nat) (delProc : Bool) (q : Fifo cap) (i : Input Call Cont) (h : Stop) :
    (code es cap delProc).seg q i ≠ .halt h := by
  cases i with
  | enter c => exact enter_ne_halt es delProc q c h
  | resume k w =>
    show q.resume k w ≠ .halt h
    cases w with
    | signaled =>
      cases k with
      | put v nsec => exact q.put_ne_halt v nsec h
      | get nsec => exact q.get_ne_halt nsec h
      | peek nsec => exact q.peek_ne_halt nsec h
    | timedout => simp [resume]
    | failed => simp [resume]

end Fifo

end Mccp.Cbuffer
