/-
  Mccp.Logger.Emit
  ────────────────
  **MESSAGES THROUGH THE LOGGER: mccp_log_emit AND s_do_log.**

  Threads emit messages while others configure the logger.  The test on the
  debug level or the trace flags is made without the lock; the message is
  composed after it, and put out under the lock, to where the logger points by
  then.  The configuring calls hold the lock from end to end.

      LogState.passes — the test
      World           — the logger, the open streams, and a message a thread
      next            — one step (executable)
      call_replaces   — a call puts another stream in the place of the open one,
                        or leaves it
      Moves.changes   — what a step can be
-/
import Mccp.Logger.Config
import Mathlib.Logic.Function.Basic

namespace Mccp.Logger

open CString (isValidString)
open Transition

/-! ## §1. Messages. -/

/-- `mccp_log_level_t`. -/
inductive Level where
  | unknown
  | debug
  | trace
  | info
  | notice
  | warning
  | error
  | fatal
  deriving DecidableEq, Repr

/-- What a thread emits. -/
structure Message where
  lv : Level
  flags : UInt64
  msg : List Char
  deriving DecidableEq, Repr

/-- The test that `mccp_log_emit` begins with. -/
def LogState.passes (l : LogState) (m : Message) : Bool :=
  (m.lv ≠ .debug ∧ m.lv ≠ .trace) ∨
  (m.lv = .debug ∧ m.flags ≤ l.s_dbg_level) ∨
  (m.lv = .trace ∧ l.s_trace_flags &&& m.flags ≠ 0)

/-! ## §2. Streams that calls close and open. -/

/-- The stream that `s_log_final` closes. -/
def finalCloses (l : LogState) : Option Stream := if l.s_log_dst = .file then l.s_log_fd else none

/-- The stream that `s_log_init` closes. -/
def initCloses (l : LogState) (a : InitArgs) : Option Stream :=
  match a.dst with
  | .file => finalCloses l
  | .unknown => finalCloses l
  | .syslog => if isValidString a.arg then finalCloses l else none
  | .other _ => none

/-- The stream that `s_log_init` then opens. -/
def initOpens (env : Env) (a : InitArgs) : Option Stream :=
  if (isValidString a.arg ∧ a.dst = .file ∧ sIsFile env) ∧ env.opens then env.fdopen else none

/-- The stream that a call closes. -/
def Call.closes (env : Env) (l : LogState) : Call → Option Stream
  | .logInitialize a => initCloses l a
  | .logReinit => initCloses l (l.savedArgs env)
  | .logFinalize => finalCloses l
  | _ => none

/-- The stream that a call opens. -/
def Call.opens (env : Env) (l : LogState) : Call → Option Stream
  | .logInitialize a => initOpens env a
  | .logReinit => initOpens env (l.savedArgs env)
  | _ => none

variable {env : Env} {l : LogState} {a : InitArgs} {c : Call}

theorem LogState.Sound.finalCloses_eq (h : l.Sound) : finalCloses l = l.s_log_fd := by
  unfold finalCloses
  split
  next => rfl
  next hdst => exact (h hdst).symm

/-- The stream that `s_log_init` leaves, for a file or for stderr. -/
theorem sLogInitFile_fd (h : l.Sound) :
    (sLogInitFile env l a).2.s_log_fd = initOpens env a := by
  unfold initOpens
  split
  next hboth =>
    unfold sLogInitFile
    dsimp only
    rw [if_pos hboth.1, if_pos hboth.2]
    split
    next => rfl
    next => rfl
  next hnot =>
    unfold sLogInitFile
    dsimp only
    split
    next hfile =>
      rw [if_neg (fun hopens => hnot ⟨hfile, hopens⟩)]
      exact h.sLogFinal_fd
    next => rfl

theorem initOpens_of_ne (h : a.dst ≠ .file) : initOpens env a = none :=
  if_neg fun hboth => h hboth.1.2.1

/-- **A call puts another stream in the place of the open one, or leaves it.** -/
def Replaces (l l' : LogState) (closes opens : Option Stream) : Prop :=
  (closes = l.s_log_fd ∧ l'.s_log_fd = opens) ∨
  (closes = none ∧ opens = none ∧ l'.s_log_fd = l.s_log_fd)

theorem init_replaces (h : l.Sound) :
    Replaces l (sLogInit env l a).2 (initCloses l a) (initOpens env a) := by
  have hfork : LogState.Sound { l with s_is_fork_initialized := true } := h
  cases hdst : a.dst with
  | file =>
    simp only [sLogInit, initCloses, hdst]
    exact .inl ⟨h.finalCloses_eq, sLogInitFile_fd hfork⟩
  | unknown =>
    simp only [sLogInit, initCloses, hdst]
    exact .inl ⟨h.finalCloses_eq, sLogInitFile_fd hfork⟩
  | syslog =>
    rw [initOpens_of_ne (by rw [hdst]; decide)]
    simp only [sLogInit, initCloses, hdst]
    by_cases hvalid : isValidString a.arg = true
    · rw [if_pos hvalid, if_pos hvalid]
      exact .inl ⟨h.finalCloses_eq, hfork.sLogFinal_fd⟩
    · rw [if_neg hvalid, if_neg hvalid]
      exact .inr ⟨rfl, rfl, rfl⟩
  | other n =>
    rw [initOpens_of_ne (by rw [hdst]; simp)]
    simp only [sLogInit, initCloses, hdst]
    exact .inr ⟨rfl, rfl, rfl⟩

theorem call_replaces (env : Env) (c : Call) (h : l.Sound) :
    Replaces l (c.run env l).2 (c.closes env l) (c.opens env l) := by
  cases c with
  | logInitialize a => exact init_replaces h
  | logReinit => exact init_replaces h
  | logFinalize => exact .inl ⟨h.finalCloses_eq, h.sLogFinal_fd⟩
  | setDebugLevel level => exact .inr ⟨rfl, rfl, rfl⟩
  | setTraceFlags flags => exact .inr ⟨rfl, rfl, rfl⟩
  | unsetTraceFlags flags => exact .inr ⟨rfl, rfl, rfl⟩

/-! ## §3. The threads, and what is seen of them. -/

variable {T : Type} [DecidableEq T]

/-- The logger and the threads that use it. -/
structure World (T : Type) where
  log : LogState
  /-- The streams that fdopen() has returned and fclose() has not closed. -/
  streams : List Stream
  /-- What a thread has composed in `mccp_log_emit` and not yet put out. -/
  composed : T → Option Message

/-- Before the first call. -/
def World.initial (T : Type) : World T where
  log := .initial
  streams := []
  composed _ := none

/-- What a thread does next. -/
inductive Action (T : Type) where
  /-- `mccp_log_emit`, to where the message is composed; or all of it. -/
  | emit (t : T) (m : Message)
  /-- `s_do_log`, with the lock held. -/
  | doLog (t : T)
  | call (t : T) (c : Call) (env : Env)

/-- What is seen of a step. -/
inductive Obs (T : Type) where
  | emits (t : T) (m : Message) (passed : Bool)
  | puts (t : T) (m : Message) (sink : Sink)
  | calls (t : T) (c : Call) (ret : Result) (closes opens : Option Stream)
  deriving DecidableEq, Repr

/-- The streams that are open after a call. -/
def World.streamsAfter (w : World T) (closes opens : Option Stream) : List Stream :=
  w.streams.filter (fun fd => some fd ≠ closes) ++ opens.toList

/-- **One step.**  A stream that fdopen() returns is none that is open. -/
def World.next (w : World T) : Action T → Option (Obs T × World T)
  | .emit t m =>
      if w.composed t ≠ none then none
      else if w.log.passes m then
        some (.emits t m true, { w with composed := Function.update w.composed t (some m) })
      else some (.emits t m false, w)
  | .doLog t =>
      match w.composed t with
      | none => none
      | some m =>
          some (.puts t m w.log.sink, { w with composed := Function.update w.composed t none })
  | .call t c env =>
      if w.composed t ≠ none then none
      else if (c.opens env w.log).any (· ∈ w.streamsAfter (c.closes env w.log) none) then none
      else
        some (.calls t c (c.run env w.log).1 (c.closes env w.log) (c.opens env w.log),
          { w with
            log := (c.run env w.log).2
            streams := w.streamsAfter (c.closes env w.log) (c.opens env w.log) })

/-- The transition relation. -/
abbrev Moves (T : Type) [DecidableEq T] : World T → Obs T → World T → Prop := observed World.next

/-- **What a step can be.** -/
inductive Changes (w : World T) : Obs T → World T → Prop
  | passed (t : T) (m : Message) (hidle : w.composed t = none) (hpass : w.log.passes m = true) :
      Changes w (.emits t m true)
        { w with composed := Function.update w.composed t (some m) }
  | refused (t : T) (m : Message) (hidle : w.composed t = none) (hpass : w.log.passes m = false) :
      Changes w (.emits t m false) w
  | put (t : T) (m : Message) (hm : w.composed t = some m) :
      Changes w (.puts t m w.log.sink) { w with composed := Function.update w.composed t none }
  | called (t : T) (c : Call) (env : Env) (hidle : w.composed t = none) :
      Changes w (.calls t c (c.run env w.log).1 (c.closes env w.log) (c.opens env w.log))
        { w with
          log := (c.run env w.log).2
          streams := w.streamsAfter (c.closes env w.log) (c.opens env w.log) }

theorem Moves.changes {w w' : World T} {o : Obs T} (h : Moves T w o w') : Changes w o w' := by
  obtain ⟨act, hact⟩ := h
  cases act with
  | emit t m =>
    simp only [World.next, ne_eq, ite_not] at hact
    split at hact
    next hidle =>
      split at hact
      next hpass =>
        obtain ⟨rfl, rfl⟩ := Prod.mk.inj (Option.some.inj hact)
        exact .passed t m hidle hpass
      next hpass =>
        obtain ⟨rfl, rfl⟩ := Prod.mk.inj (Option.some.inj hact)
        exact .refused t m hidle (Bool.eq_false_iff.mpr hpass)
    next => exact absurd hact (by simp)
  | doLog t =>
    simp only [World.next] at hact
    split at hact
    next => exact absurd hact (by simp)
    next m hm =>
      obtain ⟨rfl, rfl⟩ := Prod.mk.inj (Option.some.inj hact)
      exact .put t m hm
  | call t c env =>
    simp only [World.next, ne_eq, ite_not] at hact
    split at hact
    next hidle =>
      split at hact
      next => exact absurd hact (by simp)
      next =>
        obtain ⟨rfl, rfl⟩ := Prod.mk.inj (Option.some.inj hact)
        exact .called t c env hidle
    next => exact absurd hact (by simp)

end Mccp.Logger
