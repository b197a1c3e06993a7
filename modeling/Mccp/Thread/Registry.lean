/-
  Mccp.Thread.Registry
  ────────────────────
  **THE TWO TABLES OF THREAD OBJECTS, AND WHO WRITES THEM.**

  mccp_thread_create(), _destroy(), _free_when_destroy() and _is_valid() of
  thread.c, called by any number of threads.  One call of a hashmap, of malloc()
  or of free() is one step; what a call does up to the next one touches only its
  own object, and belongs to the step.

      create, malloc, allocMark, add  — mccp_thread_create() and s_initialize()
      destroy, clean                  — s_destroy() of both callers
      freeWhenDestroy, remark         — mccp_thread_free_when_destroy()
      acquire, release                — the application's own memory

  `life` is read by nothing but the allocator, which hands out no memory that
  is in use: it records what the memory at each address is used for.
-/
import Mccp.Hashmap.Map
import Mccp.Lib.Transition

namespace Mccp.Thread.Registry

open Hashmap Transition

/-! ## §1. Objects, calls, tables. -/

/-- What the memory at an address is used for; `heap` tells whether a destroy
is to free it. -/
inductive Life where
  /-- malloc() may hand it out. -/
  | unused
  /-- The application's, with no object in it. -/
  | held
  /-- Some call makes or destroys the object, or the memory has leaked. -/
  | busy (heap : Bool)
  /-- Created, and not being destroyed. -/
  | live (heap : Bool)
  deriving DecidableEq, Repr

/-- A destroy has found the object. -/
def Life.kill : Life → Life
  | .live heap => .busy heap
  | l => l

/-- The object has been marked. -/
def Life.mark : Life → Life
  | .live _ => .live true
  | l => l

/-- A destroy is to free the memory. -/
def Life.isHeap : Life → Bool
  | .unused => false
  | .held => false
  | .busy heap => heap
  | .live heap => heap

/-- Who calls `s_destroy`: a destroy, or a create that failed. -/
inductive Cleanup where
  | destroy
  | failed (ret : Result)
  deriving DecidableEq, Repr

/-- Where `s_destroy` is: before its own check, before those of `s_delete`,
before free() and before each of the two deletes. -/
inductive Part where
  | isThd
  | isThdAgain
  | isAllocMarked
  | free
  | deleteThd (freed : Bool)
  | deleteAlloc (freed : Bool)
  deriving DecidableEq, Repr

/-- The memory has been freed. -/
def Part.isFreed : Part → Bool
  | .deleteThd freed => freed
  | .deleteAlloc freed => freed
  | _ => false

/-- Where a thread is. -/
inductive Call (α : Type) where
  | idle
  /-- In a create, before malloc() and before `s_alloc_mark_thd`. -/
  | allocating
  | allocMarking (thd : α)
  /-- In a create, before `s_add_thd`. -/
  | adding (thd : α) (heap : Bool)
  /-- In mccp_thread_free_when_destroy(), before `s_alloc_mark_thd`. -/
  | remarking (thd : α)
  | cleaning (part : Part) (thd : α) (heap : Bool) (why : Cleanup)
  deriving DecidableEq, Repr

/-- The object a call works on. -/
def Call.obj? {α : Type} : Call α → Option α
  | .idle => none
  | .allocating => none
  | .allocMarking thd => some thd
  | .adding thd _ => some thd
  | .remarking thd => some thd
  | .cleaning _ thd _ _ => some thd

/-- The object that is a call's own, until the call has freed it. -/
def Call.own? {α : Type} : Call α → Option (α × Bool)
  | .idle => none
  | .allocating => none
  | .allocMarking thd => some (thd, true)
  | .adding thd heap => some (thd, heap)
  | .remarking _ => none
  | .cleaning part thd heap _ => if part.isFreed then none else some (thd, heap)

/-- The address a call has freed and is still to delete from the tables. -/
def Call.stale? {α : Type} : Call α → Option α
  | .cleaning part thd _ _ => if part.isFreed then some thd else none
  | _ => none

/-- The tables, the threads and the memory. -/
structure Tables (τ α : Type) where
  s_thd_tbl : Map α Bool
  s_alloc_tbl : Map α Bool
  call : τ → Call α
  life : α → Life

/-- No object and no call. -/
def Tables.empty (τ α : Type) : Tables τ α where
  s_thd_tbl := ∅
  s_alloc_tbl := ∅
  call := fun _ => .idle
  life := fun _ => .unused

/-- What a scheduler can choose; `thdptr` is what the pointer points to. -/
inductive Action (τ α : Type) where
  | create (t : τ) (thdptr : Option (Option α)) (mainproc : Bool)
  | malloc (t : τ) (mem : Option α)
  /-- `room` tells whether an entry can be allocated. -/
  | allocMark (t : τ) (room : Bool)
  /-- `s_add_thd`; `ret` is what the creation of the locks and conditions after
  it returns. -/
  | add (t : τ) (room : Bool) (ret : Result)
  | destroy (t : τ) (thdptr : Option (Option α))
  | clean (t : τ)
  | freeWhenDestroy (t : τ) (thdptr : Option (Option α))
  | remark (t : τ) (room : Bool)
  /-- Memory for the application, and from it. -/
  | acquire (t : τ) (mem : α)
  | release (t : τ) (mem : α)

/-- The thread that takes the step. -/
def Action.thread {τ α : Type} : Action τ α → τ
  | .create t _ _ => t
  | .malloc t _ => t
  | .allocMark t _ => t
  | .add t _ _ => t
  | .destroy t _ => t
  | .clean t => t
  | .freeWhenDestroy t _ => t
  | .remark t _ => t
  | .acquire t _ => t
  | .release t _ => t

/-- What the caller sees of a step: a create's result and `*thdptr`, a mark's
result. -/
inductive Outcome (α : Type) where
  | quiet
  | created (ret : Result) (thdptr : Option α)
  | destroyed
  | marked (ret : Result)
  deriving DecidableEq, Repr

/-- A choice and what is seen of it. -/
structure Label (τ α : Type) where
  action : Action τ α
  outcome : Outcome α

/-! ## §2. The steps of the calls. -/

variable {τ α : Type} [DecidableEq τ] [DecidableEq α]

/-- The tables with a thread moved. -/
def Tables.move (s : Tables τ α) (t : τ) (c : Call α) : Tables τ α :=
  { s with call := Function.update s.call t c }

/-- The tables with the use of an address changed. -/
def Tables.lead (s : Tables τ α) (thd : α) (l : Life) : Tables τ α :=
  { s with life := Function.update s.life thd l }

/-- `s_is_thd`. -/
def Tables.isThd (s : Tables τ α) (thd : α) : Bool :=
  (s.s_thd_tbl.find thd).1 = .ok ∧ (s.s_thd_tbl.find thd).2 = some true

/-- `s_is_alloc_marked`. -/
def Tables.isAllocMarked (s : Tables τ α) (thd : α) : Bool :=
  (s.s_alloc_tbl.find thd).1 = .ok ∧ (s.s_alloc_tbl.find thd).2 = some true

/-- `s_add_thd`. -/
def addThd (s : Tables τ α) (thd : α) (room : Bool) : Tables τ α :=
  let (_, _, tbl) := s.s_thd_tbl.add thd true true room
  { s with s_thd_tbl := tbl }

/-- `s_alloc_mark_thd`. -/
def allocMarkThd (s : Tables τ α) (thd : α) (room : Bool) : Tables τ α :=
  let (_, _, tbl) := s.s_alloc_tbl.add thd true true room
  { s with s_alloc_tbl := tbl }

/-- The check of `mccp_thread_create`, and the object in the caller's memory. -/
def create (s : Tables τ α) (t : τ) (thdptr : Option (Option α)) (mainproc : Bool) :
    Outcome α × Tables τ α :=
  match thdptr with
  | some old =>
      if mainproc then
        match old with
        -- the caller's memory, which is not marked
        | some thd => (.quiet, (s.lead thd (.busy false)).move t (.adding thd false))
        | none => (.quiet, s.move t .allocating)
      else (.created .invalidArgs old, s)
  | none => (.created .invalidArgs none, s)

/-- malloc() in `mccp_thread_create`: it hands out memory that is not in use. -/
def malloc (s : Tables τ α) (t : τ) (mem : Option α) : Option (Outcome α × Tables τ α) :=
  match mem with
  | some thd =>
      if s.life thd = .unused then
        some (.quiet, (s.lead thd (.busy true)).move t (.allocMarking thd))
      else none
  | none => some (.created .noMemory none, s.move t .idle)

/-- `s_initialize`: the create returns if it succeeds. -/
def add (s : Tables τ α) (t : τ) (thd : α) (heap room : Bool) (ret : Result) :
    Outcome α × Tables τ α :=
  -- the result of the add is not looked at
  let s := addThd s thd room
  if ret = .ok then (.created .ok (some thd), (s.lead thd (.live heap)).move t .idle)
  else (.quiet, s.move t (.cleaning .isThd thd heap (.failed ret)))

/-- `mccp_thread_destroy`, up to `s_destroy`. -/
def destroy (s : Tables τ α) (t : τ) (thdptr : Option (Option α)) : Outcome α × Tables τ α :=
  match thdptr with
  | some (some thd) =>
      -- the cancel, the wait and `m_freeup_proc` concern this object only
      if s.isThd thd then
        (.quiet, (s.lead thd (s.life thd).kill).move t
          (.cleaning .isThd thd (s.life thd).isHeap .destroy))
      else (.destroyed, s)
  | _ => (.destroyed, s)

/-- What is seen when `s_destroy` and its caller return. -/
def Cleanup.outcome (why : Cleanup) (thd : α) (heap : Bool) : Outcome α :=
  match why with
  | .destroy => .destroyed
  | .failed ret => .created ret (if heap then none else some thd)

/-- `s_destroy` returns and has not freed the memory: it is the application's,
or has leaked. -/
def keep (s : Tables τ α) (t : τ) (thd : α) (heap : Bool) : Tables τ α :=
  (s.lead thd (if heap then .busy true else .held)).move t .idle

/-- `s_destroy` and `s_delete`, one step after the other. -/
def clean (s : Tables τ α) (t : τ) (part : Part) (thd : α) (heap : Bool) (why : Cleanup) :
    Outcome α × Tables τ α :=
  match part with
  | .isThd =>
      if s.isThd thd then (.quiet, s.move t (.cleaning .isThdAgain thd heap why))
      -- an error message, and nothing is freed
      else (why.outcome thd heap, keep s t thd heap)
  | .isThdAgain =>
      if s.isThd thd then (.quiet, s.move t (.cleaning .isAllocMarked thd heap why))
      else (why.outcome thd heap, keep s t thd heap)
  | .isAllocMarked =>
      if s.isAllocMarked thd then (.quiet, s.move t (.cleaning .free thd heap why))
      else (.quiet, s.move t (.cleaning (.deleteThd false) thd heap why))
  -- from here on malloc() may hand out the address again
  | .free => (.quiet, (s.lead thd .unused).move t (.cleaning (.deleteThd true) thd heap why))
  | .deleteThd freed =>
      let (_, _, tbl) := s.s_thd_tbl.delete thd
      (.quiet, { s with s_thd_tbl := tbl }.move t (.cleaning (.deleteAlloc freed) thd heap why))
  | .deleteAlloc freed =>
      let (_, _, tbl) := s.s_alloc_tbl.delete thd
      let s := { s with s_alloc_tbl := tbl }
      (why.outcome thd heap, if freed then s.move t .idle else keep s t thd heap)

/-- The check of `mccp_thread_free_when_destroy`. -/
def freeWhenDestroy (s : Tables τ α) (t : τ) (thdptr : Option (Option α)) :
    Outcome α × Tables τ α :=
  match thdptr with
  | some (some thd) =>
      if s.isThd thd then (.quiet, s.move t (.remarking thd)) else (.marked .invalidObject, s)
  | _ => (.marked .invalidArgs, s)

/-- The mark of `mccp_thread_free_when_destroy`. -/
def remark (s : Tables τ α) (t : τ) (thd : α) (room : Bool) : Outcome α × Tables τ α :=
  (.marked .ok, ((allocMarkThd s thd room).lead thd (s.life thd).mark).move t .idle)

/-- `mccp_thread_is_valid`: the result and `*retptr`. -/
def isValid (s : Tables τ α) (thdptr : Option (Option α)) (retptr : Bool) :
    Result × Option Bool :=
  match thdptr with
  | some (some thd) =>
      if retptr then
        if s.isThd thd then (.ok, some true) else (.invalidObject, some false)
      else (.invalidArgs, none)
  | _ => (.invalidArgs, none)

/-! ## §3. All threads. -/

/-- **One step**; `none` when the choice is not open. -/
def next (s : Tables τ α) (a : Action τ α) : Option (Label τ α × Tables τ α) :=
  match a, s.call a.thread with
  | .create t thdptr mainproc, .idle =>
      let (o, s) := create s t thdptr mainproc
      some (⟨a, o⟩, s)
  | .malloc t mem, .allocating => (malloc s t mem).map (fun r => (⟨a, r.1⟩, r.2))
  | .allocMark t room, .allocMarking thd =>
      some (⟨a, .quiet⟩, (allocMarkThd s thd room).move t (.adding thd true))
  | .add t room ret, .adding thd heap =>
      let (o, s) := add s t thd heap room ret
      some (⟨a, o⟩, s)
  | .destroy t thdptr, .idle => let (o, s) := destroy s t thdptr; some (⟨a, o⟩, s)
  | .clean t, .cleaning part thd heap why =>
      let (o, s) := clean s t part thd heap why
      some (⟨a, o⟩, s)
  | .freeWhenDestroy t thdptr, .idle => let (o, s) := freeWhenDestroy s t thdptr; some (⟨a, o⟩, s)
  | .remark t room, .remarking thd => let (o, s) := remark s t thd room; some (⟨a, o⟩, s)
  | .acquire _ mem, .idle =>
      if s.life mem = .unused then some (⟨a, .quiet⟩, s.lead mem .held) else none
  | .release _ mem, .idle =>
      if s.life mem = .held then some (⟨a, .quiet⟩, s.lead mem .unused) else none
  | _, _ => none

/-- The transition relation over observations. -/
abbrev Step : Tables τ α → Label τ α → Tables τ α → Prop := observed next

/-- What a step can be. -/
inductive Moves (s : Tables τ α) (l : Label τ α) (s' : Tables τ α) : Prop
  | create (t : τ) (thdptr : Option (Option α)) (mainproc : Bool)
      (ha : l.action = .create t thdptr mainproc) (ht : s.call t = .idle)
      (hs : s' = (create s t thdptr mainproc).2)
  | malloc (t : τ) (mem : Option α) (ha : l.action = .malloc t mem) (ht : s.call t = .allocating)
      (hs : malloc s t mem = some (l.outcome, s'))
  | allocMark (t : τ) (room : Bool) (thd : α) (ha : l.action = .allocMark t room)
      (ht : s.call t = .allocMarking thd)
      (hs : s' = (allocMarkThd s thd room).move t (.adding thd true))
  | add (t : τ) (room : Bool) (ret : Result) (thd : α) (heap : Bool)
      (ha : l.action = .add t room ret) (ht : s.call t = .adding thd heap)
      (hs : s' = (add s t thd heap room ret).2)
  | destroy (t : τ) (thdptr : Option (Option α)) (ha : l.action = .destroy t thdptr)
      (ht : s.call t = .idle) (hs : s' = (destroy s t thdptr).2)
  | clean (t : τ) (part : Part) (thd : α) (heap : Bool) (why : Cleanup)
      (ha : l.action = .clean t) (ht : s.call t = .cleaning part thd heap why)
      (hs : s' = (clean s t part thd heap why).2)
  | freeWhenDestroy (t : τ) (thdptr : Option (Option α))
      (ha : l.action = .freeWhenDestroy t thdptr) (ht : s.call t = .idle)
      (hs : s' = (freeWhenDestroy s t thdptr).2)
  | remark (t : τ) (room : Bool) (thd : α) (ha : l.action = .remark t room)
      (ht : s.call t = .remarking thd) (hs : s' = (remark s t thd room).2)
  | acquire (t : τ) (mem : α) (ha : l.action = .acquire t mem) (ht : s.call t = .idle)
      (hmem : s.life mem = .unused) (hs : s' = s.lead mem .held)
  | release (t : τ) (mem : α) (ha : l.action = .release t mem) (ht : s.call t = .idle)
      (hmem : s.life mem = .held) (hs : s' = s.lead mem .unused)

/-- **Every step is one of the ten.** -/
theorem step_cases {s s' : Tables τ α} {l : Label τ α} (h : Step s l s') : Moves s l s' := by
  obtain ⟨a, ha⟩ := h
  unfold next at ha
  split at ha
  next t thdptr mainproc ht =>
    cases ha
    exact .create t thdptr mainproc rfl ht rfl
  next t mem ht =>
    obtain ⟨r, hr, hl⟩ := Option.map_eq_some_iff.mp ha
    cases hl
    exact .malloc t mem rfl ht hr
  next t room thd ht =>
    cases ha
    exact .allocMark t room thd rfl ht rfl
  next t room ret thd heap ht =>
    cases ha
    exact .add t room ret thd heap rfl ht rfl
  next t thdptr ht =>
    cases ha
    exact .destroy t thdptr rfl ht rfl
  next t part thd heap why ht =>
    cases ha
    exact .clean t part thd heap why rfl ht rfl
  next t thdptr ht =>
    cases ha
    exact .freeWhenDestroy t thdptr rfl ht rfl
  next t room thd ht =>
    cases ha
    exact .remark t room thd rfl ht rfl
  next t mem ht =>
    split at ha
    next hmem =>
      cases ha
      exact .acquire t mem rfl ht hmem rfl
    next => exact absurd ha (by simp)
  next t mem ht =>
    split at ha
    next hmem =>
      cases ha
      exact .release t mem rfl ht hmem rfl
    next => exact absurd ha (by simp)
  next => exact absurd ha (by simp)

end Mccp.Thread.Registry
