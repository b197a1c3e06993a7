/-
  Mccp.Thread.Object
  ──────────────────
  **ONE THREAD OBJECT OF thread.c, AND ITS RUNS.**

  Any number of threads start, wait for and cancel the object; every start
  that passes its check spawns a pthread, a RUN.  What a call does under
  `m_wait_lock` is one step; the lock is released while a start sleeps on
  `m_startup_cond` and a wait on `m_wait_cond`.  A run takes the lock twice:
  when it begins (`activate`) and when it ends (`finalize`).

      start     — the check of mccp_thread_start() and the spawning
      activate  — the first critical section of s_pthd_entry_point()
      finalize  — s_finalize()
      next      — one step of all threads and runs (executable)

  With autodelete the ended run destroys the object; then nothing that touches
  the object has a meaning, and calls find it gone.  Nobody else destroys it.
  A start without autodelete that another thread makes while a run is about to
  destroy the object can put that run to sleep in its own mccp_thread_wait();
  such a run only stays where it is here, and what happens to it in that sleep
  is left out.
-/
import Mccp.Lib.Monitor
import Mccp.Result

namespace Mccp.Thread

open Monitor Transition

/-! ## §1. The object and its runs. -/

/-- The fields of `mccp_thread_record` that its life depends on; a pthread is
known by the number of its run. -/
structure Thd where
  pthd : Option Nat
  resultCode : Result
  isStarted : Bool
  isActivated : Bool
  isCanceled : Bool
  isFinalized : Bool
  isDestroying : Bool
  doAutodelete : Bool
  deriving DecidableEq, Repr

/-- `s_initialize`. -/
def Thd.initial : Thd where
  pthd := none
  resultCode := .notStarted
  isStarted := false
  isActivated := false
  isCanceled := false
  isFinalized := false
  isDestroying := false
  doAutodelete := false

/-- Where a run is. -/
inductive Phase where
  /-- Not spawned. -/
  | absent
  /-- Spawned; its first critical section is still to come. -/
  | spawned
  /-- In `m_main_proc`. -/
  | main
  | returned (ret : Result)
  /-- About to call s_finalize(). -/
  | finishing (isCanceled : Bool)
  /-- In mccp_thread_destroy(), about to cancel, to wait, and to destroy. -/
  | deleting
  | deletingWait
  | deletingLast
  | ended
  deriving DecidableEq, Repr

/-- The run has begun and not finished. -/
def Phase.isActive : Phase → Bool
  | .main => true
  | .returned _ => true
  | .finishing _ => true
  | _ => false

/-- The run has been spawned and has not finished. -/
def Phase.isUnfinished (p : Phase) : Bool := p = .spawned ∨ p.isActive

/-- What a sleeping call is about: a start, with the run it spawned, or a wait. -/
inductive Cont where
  | start (r : Nat)
  | wait (nsec : Int)
  deriving DecidableEq, Repr

/-- `m_startup_cond` and `m_wait_cond`. -/
inductive Cond where
  | startup
  | wait
  deriving DecidableEq, Repr

/-- The object, the threads that call, and the runs. -/
structure System (τ : Type) where
  thd : Thd
  /-- Whether the object is in `s_thd_tbl`. -/
  isThd : Bool
  caller : τ → Monitor.Thread Cont Cond
  phase : Nat → Phase
  nRuns : Nat
  /-- A cancel request that was not acted on yet. -/
  cancelPending : Nat → Bool

/-- A new object. -/
def System.initial (τ : Type) : System τ where
  thd := .initial
  isThd := true
  caller := fun _ => .idle
  phase := fun _ => .absent
  nRuns := 0
  cancelPending := fun _ => false

/-- What a scheduler can choose. -/
inductive Action (τ : Type) where
  /-- mccp_thread_start(); `created` tells whether pthread_create() succeeds. -/
  | start (t : τ) (autodelete created : Bool)
  | wait (t : τ) (nsec : Int)
  /-- mccp_thread_cancel(); `sent` tells whether pthread_cancel() succeeds. -/
  | cancel (t : τ) (sent : Bool)
  /-- A sleep ends without a notification. -/
  | wake (t : τ) (w : Wakeup)
  /-- A woken call gets the lock back. -/
  | resume (t : τ)
  | activate (r : Nat)
  /-- `m_main_proc` returns. -/
  | leave (r : Nat) (ret : Result)
  /-- A cancel request is acted on in `m_main_proc`. -/
  | actCancel (r : Nat)
  /-- The result of `m_main_proc` is stored. -/
  | store (r : Nat)
  | finalize (r : Nat)
  /-- A step of the destruction by the run itself. -/
  | delete (r : Nat)
  deriving DecidableEq, Repr

/-- What an observer sees of a step. -/
inductive Outcome where
  | quiet
  | slept
  /-- A call returned without a run of its own. -/
  | returned (ret : Result)
  /-- A start returned OK; `r` is the run it spawned. -/
  | started (r : Nat)
  deriving DecidableEq, Repr

/-- A choice and what is seen of it. -/
structure Label (τ : Type) where
  action : Action τ
  outcome : Outcome
  deriving DecidableEq, Repr

/-! ## §2. The calls. -/

variable {τ : Type} [DecidableEq τ]

/-- The system with a calling thread moved. -/
def System.move (s : System τ) (t : τ) (th : Monitor.Thread Cont Cond) : System τ :=
  { s with caller := Function.update s.caller t th }

/-- The system with a run moved. -/
def System.run (s : System τ) (r : Nat) (p : Phase) : System τ :=
  { s with phase := Function.update s.phase r p }

/-- `mccp_thread_start` from `startcheck` on. -/
def startcheck (s : System τ) (t : τ) (r : Nat) : Outcome × System τ :=
  if s.thd.isStarted = false then (.slept, s.move t (.waiting (.start r) .startup))
  else (.started r, s.move t .idle)

/-- `mccp_thread_start`. -/
def start (s : System τ) (t : τ) (autodelete created : Bool) : Outcome × System τ :=
  if s.isThd then
    if s.thd.isActivated = false then
      if created then
        -- the flags are reset before the new run has begun
        let r := s.nRuns
        let thd := { s.thd with
          doAutodelete := autodelete
          pthd := some r
          isActivated := false
          isFinalized := false
          isDestroying := false
          isCanceled := false
          isStarted := false }
        startcheck ({ s with thd := thd, nRuns := r + 1 }.run r .spawned) t r
      else
        (.returned .posixApiError,
          { s with thd := { s.thd with doAutodelete := autodelete, pthd := none } })
    else (.returned .alreadyExists, s)
  else (.returned .invalidObject, s)

/-- `mccp_thread_wait` from `waitcheck` on. -/
def waitcheck (s : System τ) (t : τ) (nsec : Int) : Outcome × System τ :=
  if s.thd.isActivated then (.slept, s.move t (.waiting (.wait nsec) .wait))
  else (.returned .ok, s.move t .idle)

/-- `mccp_thread_wait`. -/
def wait (s : System τ) (t : τ) (nsec : Int) : Outcome × System τ :=
  if s.isThd then
    if s.thd.doAutodelete = false then waitcheck s t nsec else (.returned .notOperational, s)
  else (.returned .invalidObject, s)

/-- The critical section of `mccp_thread_cancel`. -/
def requestCancel (s : System τ) (sent : Bool) : Result × System τ :=
  if s.thd.isActivated then
    if s.thd.isCanceled = false then
      match s.thd.pthd with
      | some r =>
          if sent then (.ok, { s with cancelPending := Function.update s.cancelPending r true })
          else (.posixApiError, s)
      | none => (.ok, s)
    else (.ok, s)
  else (.ok, s)

/-- `mccp_thread_cancel`, in the process that created the object. -/
def cancel (s : System τ) (sent : Bool) : Outcome × System τ :=
  if s.isThd then
    let (ret, s) := requestCancel s sent
    (.returned ret, s)
  else (.returned .invalidObject, s)

/-- The result of a wait that did not succeed. -/
def waitError : Wakeup → Result
  | .signaled => .ok
  | .timedout => .timedout
  | .failed => .posixApiError

/-- A call after its sleep. -/
def resume (s : System τ) (t : τ) (k : Cont) (w : Wakeup) : Outcome × System τ :=
  match w with
  | .signaled =>
      match k with
      | .start r => startcheck s t r
      | .wait nsec => waitcheck s t nsec
  | w => (.returned (waitError w), s.move t .idle)

/-- Only a wait with a deadline can time out. -/
def mayEnd : Cont → Wakeup → Bool
  | .start _, w => w ≠ .timedout
  | .wait nsec, w => w ≠ .timedout ∨ 0 ≤ nsec

/-! ## §3. The runs. -/

/-- The first critical section of `s_pthd_entry_point`. -/
def activate (s : System τ) (r : Nat) : System τ :=
  { s with
    thd := { s.thd with
      isCanceled := false
      isFinalized := false
      isActivated := true
      isStarted := true }
    caller := broadcast [.startup] s.caller }.run r .main

/-- `s_finalize`, up to the autodelete. -/
def finalize (s : System τ) (r : Nat) : System τ :=
  { s with
    thd := { s.thd with pthd := none, isFinalized := true, isActivated := false }
    caller := broadcast [.wait] s.caller }.run r (if s.thd.doAutodelete then .deleting else .ended)

/-- A step of `mccp_thread_destroy`, called by the run itself; `none` while its
wait would sleep, which takes a later start without autodelete. -/
def delete (s : System τ) (r : Nat) : Option (System τ) :=
  match s.phase r with
  | .deleting => some ((requestCancel s true).2.run r .deletingWait)
  -- mccp_thread_wait() refuses at once where the object is to delete itself
  | .deletingWait =>
      if s.thd.doAutodelete ∨ s.thd.isActivated = false then some (s.run r .deletingLast) else none
  | .deletingLast =>
      some ({ s with isThd := false, thd := { s.thd with isDestroying := true } }.run r .ended)
  | _ => none

/-! ## §4. All threads and runs. -/

/-- A step that some thread has to be idle for. -/
def ifIdle (s : System τ) (t : τ) (a : Action τ) (f : Outcome × System τ) :
    Option (Label τ × System τ) :=
  match s.caller t with
  | .idle => some (⟨a, f.1⟩, f.2)
  | _ => none

/-- **One step**; `none` when the choice is not open, and when it touches an
object that is gone. -/
def next (s : System τ) (a : Action τ) : Option (Label τ × System τ) :=
  match a with
  | .start t autodelete created => ifIdle s t a (start s t autodelete created)
  | .wait t nsec => ifIdle s t a (wait s t nsec)
  | .cancel t sent => ifIdle s t a (cancel s sent)
  | .wake t w =>
      match s.caller t with
      | .waiting k _ =>
          if s.isThd ∧ mayEnd k w then some (⟨a, .quiet⟩, s.move t (.woken k w)) else none
      | _ => none
  | .resume t =>
      match s.caller t with
      | .woken k w =>
          if s.isThd then
            let (o, s) := resume s t k w
            some (⟨a, o⟩, s)
          else none
      | _ => none
  | .activate r =>
      if s.isThd ∧ s.phase r = .spawned then some (⟨a, .quiet⟩, activate s r) else none
  | .leave r ret =>
      if s.isThd ∧ s.phase r = .main then some (⟨a, .quiet⟩, s.run r (.returned ret)) else none
  | .actCancel r =>
      if s.isThd ∧ s.phase r = .main ∧ s.cancelPending r then
        some (⟨a, .quiet⟩,
          { s with thd := { s.thd with isCanceled := true } }.run r (.finishing true))
      else none
  | .store r =>
      match s.phase r with
      | .returned ret =>
          if s.isThd then
            some (⟨a, .quiet⟩,
              { s with thd := { s.thd with resultCode := ret } }.run r (.finishing false))
          else none
      | _ => none
  | .finalize r =>
      match s.phase r with
      | .finishing _ => if s.isThd then some (⟨a, .quiet⟩, finalize s r) else none
      | _ => none
  | .delete r => if s.isThd then (delete s r).map (fun s => (⟨a, .quiet⟩, s)) else none

/-- The transition relation over observations. -/
abbrev Step : System τ → Label τ → System τ → Prop := observed next

end Mccp.Thread
