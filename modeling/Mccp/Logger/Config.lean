/-
  Mccp.Logger.Config
  ──────────────────
  **CONFIGURING THE LOGGER: logger.c.**

  One destination for the whole process: a file, syslog, or stderr.  Where the
  new destination is a file, the old one is closed and its argument freed
  before the file is open; when it then cannot be opened there is nothing to go
  back to.  For syslog the argument is checked first.

      LogState                      — the static variables, and syslog's identity
      sLogInit, sLogReinit        — s_log_init() and s_log_reinit()
      next                        — the calls (executable)
      sLogInit_failed             — what a configuration that fails leaves
      failed_config_unchanged_iff — when that is what was there before
-/
import Mccp.Lib.CString
import Mccp.Lib.Transition
import Mccp.Result

namespace Mccp.Logger

open CString (isValidString)
open Transition

/-! ## §1. The logger. -/

/-- `mccp_log_destination_t`. -/
inductive Destination where
  | unknown
  | file
  | syslog
  /-- A number that the enumeration does not have. -/
  | other (n : Nat)
  deriving DecidableEq, Repr

/-- An open stream, of all that are ever opened. -/
abbrev Stream := Nat

/-- The static variables of logger.c; strings are what stands before their
terminator.  `syslog` is the identity that openlog() was last called with, until
closelog(). -/
structure LogState where
  s_log_fd : Option Stream
  s_log_dst : Destination
  s_log_arg : Option (List Char)
  s_do_multi_process : Bool
  s_do_date : Bool
  s_dbg_level : UInt64
  s_trace_flags : UInt64
  s_is_fork_initialized : Bool
  syslog : Option (List Char)
  deriving DecidableEq, Repr

/-- The logger before any call. -/
def LogState.initial : LogState where
  s_log_fd := none
  s_log_dst := .unknown
  s_log_arg := none
  s_do_multi_process := false
  s_do_date := false
  s_dbg_level := 0
  s_trace_flags := 0
  s_is_fork_initialized := false
  syslog := none

/-- The arguments of `mccp_log_initialize`. -/
structure InitArgs where
  dst : Destination
  arg : Option (List Char)
  multi_process : Bool
  emit_date : Bool
  debug_level : UInt64
  trace_flags : UInt64
  deriving DecidableEq, Repr

/-- What the outside decides during a call. -/
structure Env where
  /-- Whether stat() finds a directory; `none` when it fails. -/
  stat : Option Bool
  /-- Whether open() returns a descriptor. -/
  opens : Bool
  fdopen : Option Stream
  /-- Whether there is memory for the argument to be saved, and for the copy that
  s_log_reinit() makes of it. -/
  strdup : Bool
  strdupArg : Bool

/-- Where `s_do_log` puts a message. -/
inductive Sink where
  | stderr
  | stream (fd : Stream)
  /-- With the identity, if it has one. -/
  | syslog (ident : Option (List Char))
  | nowhere
  deriving DecidableEq, Repr

/-- `s_do_log`: where a message goes. -/
def LogState.sink (l : LogState) : Sink :=
  match l.s_log_dst with
  | .unknown => l.s_log_fd.elim .stderr .stream
  | .file => l.s_log_fd.elim .stderr .stream
  | .syslog => .syslog l.syslog
  | .other _ => .nowhere

/-! ## §2. The calls. -/

/-- `s_log_final`: a file is closed, and so is syslog. -/
def sLogFinal (l : LogState) : LogState :=
  { l with
    s_log_fd := if l.s_log_dst = .file then none else l.s_log_fd
    syslog := if l.s_log_dst = .syslog then none else l.syslog
    s_log_arg := none }

/-- `s_is_file`: anything but a directory. -/
def sIsFile (env : Env) : Bool :=
  match env.stat with
  | some true => false
  | some false => true
  | none => true

/-- The end of `s_log_init` where all has gone well. -/
def configured (env : Env) (l : LogState) (a : InitArgs) : LogState :=
  { l with
    s_log_dst := a.dst
    s_log_arg := if isValidString a.arg ∧ env.strdup then a.arg else none
    s_do_multi_process := a.multi_process
    s_do_date := a.emit_date
    s_dbg_level := a.debug_level
    s_trace_flags := a.trace_flags }

/-- `s_log_init` for a file or for stderr. -/
def sLogInitFile (env : Env) (l : LogState) (a : InitArgs) : Bool × LogState :=
  let l := sLogFinal l
  if isValidString a.arg ∧ a.dst = .file ∧ sIsFile env then
    if env.opens then
      let l := { l with s_log_fd := env.fdopen }
      if l.s_log_fd ≠ none then (true, configured env l a) else (false, l)
    else (false, l)
  -- use stderr
  else (true, configured env { l with s_log_fd := none } a)

/-- `s_log_init`. -/
def sLogInit (env : Env) (l : LogState) (a : InitArgs) : Bool × LogState :=
  let l := { l with s_is_fork_initialized := true }
  match a.dst with
  | .file => sLogInitFile env l a
  | .unknown => sLogInitFile env l a
  | .syslog =>
      if isValidString a.arg then (true, configured env { sLogFinal l with syslog := a.arg } a)
      else (false, l)
  | .other _ => (false, l)

/-- The arguments that `s_log_reinit` makes of the saved ones. -/
def LogState.savedArgs (env : Env) (l : LogState) : InitArgs where
  dst := l.s_log_dst
  arg := if isValidString l.s_log_arg ∧ env.strdupArg then l.s_log_arg else none
  multi_process := l.s_do_multi_process
  emit_date := l.s_do_date
  debug_level := l.s_dbg_level
  trace_flags := l.s_trace_flags

/-- `s_log_reinit`. -/
def sLogReinit (env : Env) (l : LogState) : Bool × LogState := sLogInit env l (l.savedArgs env)

/-- The calls. -/
inductive Call where
  | logInitialize (a : InitArgs)
  | logReinit
  | logFinalize
  | setDebugLevel (level : UInt64)
  | setTraceFlags (flags : UInt64)
  | unsetTraceFlags (flags : UInt64)
  deriving DecidableEq, Repr

/-- The result of a configuration. -/
def configResult (r : Bool × LogState) : Result × LogState :=
  (if r.1 then .ok else .anyFailures, r.2)

/-- What a call does; those without a result succeed. -/
def Call.run (env : Env) (l : LogState) : Call → Result × LogState
  | .logInitialize a => configResult (sLogInit env l a)
  | .logReinit => configResult (sLogReinit env l)
  | .logFinalize => (.ok, sLogFinal l)
  | .setDebugLevel level => (.ok, { l with s_dbg_level := level })
  | .setTraceFlags flags => (.ok, { l with s_trace_flags := l.s_trace_flags ||| flags })
  | .unsetTraceFlags flags => (.ok, { l with s_trace_flags := l.s_trace_flags &&& ~~~flags })

/-- A call, and its result. -/
structure Label where
  call : Call
  ret : Result
  deriving DecidableEq, Repr

/-- **One call**, with the answers of the outside during it. -/
def next (l : LogState) (a : Call × Env) : Option (Label × LogState) :=
  some (⟨a.1, (a.1.run a.2 l).1⟩, (a.1.run a.2 l).2)

/-- The transition relation. -/
abbrev Step : LogState → Label → LogState → Prop := observed next

/-! ## §3. Reachable loggers. -/

/-- Only a file has a stream. -/
def LogState.Sound (l : LogState) : Prop := l.s_log_dst ≠ .file → l.s_log_fd = none

variable {env : Env} {l : LogState} {a : InitArgs}

/-- The stream is closed, whatever the destination was. -/
theorem LogState.Sound.sLogFinal_fd (h : l.Sound) : (sLogFinal l).s_log_fd = none := by
  unfold sLogFinal
  dsimp only
  split
  next => rfl
  next hdst => exact h hdst

theorem LogState.Sound.final (h : l.Sound) : (sLogFinal l).Sound := fun _ => h.sLogFinal_fd

theorem LogState.Sound.initFile (h : l.Sound) : (sLogInitFile env l a).2.Sound := by
  have hfd := h.sLogFinal_fd
  unfold sLogInitFile
  dsimp only
  split
  next hfile =>
    split
    next =>
      split
      next => exact fun hne => absurd hfile.2.1 hne
      next hnone => exact fun _ => by simpa using hnone
    next => exact h.final
  next => exact fun _ => rfl

theorem LogState.Sound.init (h : l.Sound) : (sLogInit env l a).2.Sound := by
  have hfork : LogState.Sound { l with s_is_fork_initialized := true } := h
  unfold sLogInit
  dsimp only
  split
  next => exact hfork.initFile
  next => exact hfork.initFile
  next =>
    split
    next => exact fun _ => hfork.sLogFinal_fd
    next => exact hfork
  next => exact hfork

/-- **In every reachable logger, only a file has a stream.** -/
theorem sound_run {ls : List Label} (hrun : Run Step LogState.initial ls l) : l.Sound := by
  refine hrun.invariant ?_ (fun _ => rfl)
  intro l _ l' h hstep
  obtain ⟨⟨c, env⟩, ha⟩ := hstep
  simp only [next, Option.some.injEq, Prod.mk.injEq] at ha
  rw [← ha.2]
  cases c with
  | logInitialize a => exact h.init
  | logReinit => exact h.init
  | logFinalize => exact h.final
  | setDebugLevel level => exact h
  | setTraceFlags flags => exact h
  | unsetTraceFlags flags => exact h

/-! ## §4. Configurations that fail. -/

/-- **What a configuration that fails leaves**: of a file, an old destination
that is closed; otherwise what was there. -/
theorem sLogInit_failed (h : l.Sound) (hfail : (sLogInit env l a).1 = false) :
    (sLogInit env l a).2 =
      if a.dst = .file then { sLogFinal l with s_is_fork_initialized := true }
      else { l with s_is_fork_initialized := true } := by
  have hfork : LogState.Sound { l with s_is_fork_initialized := true } := h
  have hfile : (sLogInitFile env { l with s_is_fork_initialized := true } a).1 = false →
      a.dst = .file ∧ (sLogInitFile env { l with s_is_fork_initialized := true } a).2 =
        sLogFinal { l with s_is_fork_initialized := true } := by
    unfold sLogInitFile
    dsimp only
    split
    next hcond =>
      refine fun hfalse => ⟨hcond.2.1, ?_⟩
      split at hfalse
      next hopen =>
        rw [if_pos hopen]
        split at hfalse
        next => exact absurd hfalse (by simp)
        next hnone =>
          -- fdopen() has failed: NULL is stored where NULL is already
          rw [if_neg hnone]
          have hfd := hfork.sLogFinal_fd
          have hnull : env.fdopen = none := by simpa using hnone
          rw [hnull, ← hfd]
      next hopen =>
        rw [if_neg hopen]
    next => exact fun hfalse => absurd hfalse (by simp)
  have hfinal : sLogFinal { l with s_is_fork_initialized := true } =
      { sLogFinal l with s_is_fork_initialized := true } := rfl
  cases hdst : a.dst with
  | file =>
    simp only [sLogInit, hdst] at hfail ⊢
    rw [if_pos trivial, ← hfinal]
    exact (hfile hfail).2
  | unknown =>
    simp only [sLogInit, hdst] at hfail
    have hcontra := (hfile hfail).1
    rw [hdst] at hcontra
    exact absurd hcontra (by simp)
  | syslog =>
    simp only [sLogInit, hdst] at hfail ⊢
    by_cases hvalid : isValidString a.arg = true
    · rw [if_pos hvalid] at hfail
      exact absurd hfail (by simp)
    · rw [if_neg hvalid, if_neg (by simp)]
  | other n =>
    simp only [sLogInit, hdst]
    rw [if_neg (by simp)]

/-- **Nothing has changed**: the destination, the open file, the saved argument,
the flags and levels, and where messages go. -/
structure Unchanged (l l' : LogState) : Prop where
  destination : l'.s_log_dst = l.s_log_dst
  openFile : l'.s_log_fd = l.s_log_fd
  argument : l'.s_log_arg = l.s_log_arg
  multiProcess : l'.s_do_multi_process = l.s_do_multi_process
  date : l'.s_do_date = l.s_do_date
  debugLevel : l'.s_dbg_level = l.s_dbg_level
  traceFlags : l'.s_trace_flags = l.s_trace_flags
  messages : l'.sink = l.sink

/-- There is no open file, no saved argument and no identity to lose. -/
def LogState.Bare (l : LogState) : Prop :=
  l.s_log_fd = none ∧ l.s_log_arg = none ∧ (l.s_log_dst = .syslog → l.syslog = none)

/-- Closing the old destination changes nothing exactly when there is nothing to
close. -/
theorem unchanged_final_iff (h : l.Sound) :
    Unchanged l { sLogFinal l with s_is_fork_initialized := true } ↔ l.Bare := by
  have hfd := h.sLogFinal_fd
  constructor
  · intro hu
    refine ⟨hu.openFile.symm.trans hfd, ?_, ?_⟩
    · have harg := hu.argument
      unfold sLogFinal at harg
      exact harg.symm
    · intro hdst
      have hsink := hu.messages
      simp only [LogState.sink, sLogFinal, hdst, Sink.syslog.injEq] at hsink
      exact hsink.symm
  · intro hbare
    obtain ⟨hnone, harg, hident⟩ := hbare
    have hsyslog : (sLogFinal l).syslog = l.syslog := by
      unfold sLogFinal
      dsimp only
      split
      next hdst => exact (hident hdst).symm
      next => rfl
    refine ⟨rfl, hfd.trans hnone.symm, harg.symm, rfl, rfl, rfl, rfl, ?_⟩
    unfold LogState.sink
    rw [show (sLogFinal l).s_log_dst = l.s_log_dst from rfl, hfd, hsyslog, hnone]

/-- The destination that a call is to configure. -/
def Call.target (l : LogState) : Call → Option Destination
  | .logInitialize a => some a.dst
  | .logReinit => some l.s_log_dst
  | _ => none

/-- **A configuration that fails changes nothing exactly when it is not one of a
file, or there is nothing to lose**, in every reachable state of the logger. -/
theorem failed_config_unchanged_iff {ls : List Label} (hrun : Run Step LogState.initial ls l)
    {c : Call} (hfail : (c.run env l).1 ≠ .ok) :
    Unchanged l (c.run env l).2 ↔ c.target l ≠ some .file ∨ l.Bare := by
  have hsound := sound_run hrun
  have hsame : Unchanged l { l with s_is_fork_initialized := true } := by
    constructor <;> rfl
  have hconfig : ∀ a : InitArgs, (configResult (sLogInit env l a)).1 ≠ .ok →
      (Unchanged l (configResult (sLogInit env l a)).2 ↔ some a.dst ≠ some .file ∨ l.Bare) := by
    intro a hne
    have hfalse : (sLogInit env l a).1 = false := by
      unfold configResult at hne
      cases hr : (sLogInit env l a).1 with
      | false => rfl
      | true => exact absurd (by simp [hr]) hne
    unfold configResult
    rw [sLogInit_failed hsound hfalse]
    by_cases hfile : a.dst = .file
    · rw [if_pos hfile, unchanged_final_iff hsound, hfile]
      exact ⟨.inr, fun h => h.resolve_left (fun hne => hne rfl)⟩
    · rw [if_neg hfile]
      exact iff_of_true hsame (.inl fun h => hfile (Option.some.inj h))
  cases c with
  | logInitialize a => exact hconfig a hfail
  | logReinit => exact hconfig (l.savedArgs env) hfail
  | logFinalize => exact absurd rfl hfail
  | setDebugLevel level => exact absurd rfl hfail
  | setTraceFlags flags => exact absurd rfl hfail
  | unsetTraceFlags flags => exact absurd rfl hfail

/-- An outside where a file can be opened, or not. -/
def Env.disk (opens : Bool) : Env where
  stat := none
  opens := opens
  fdopen := some 3
  strdup := true
  strdupArg := true

/-- A log file, with dates and debug level 5. -/
def toFile : InitArgs where
  dst := .file
  arg := some ['a']
  multi_process := false
  emit_date := true
  debug_level := 5
  trace_flags := 0

/-- The logger that writes to this file. -/
def writing : LogState where
  s_log_fd := some 3
  s_log_dst := .file
  s_log_arg := some ['a']
  s_do_multi_process := false
  s_do_date := true
  s_dbg_level := 5
  s_trace_flags := 0
  s_is_fork_initialized := true
  syslog := none

theorem writing_run : Run Step LogState.initial [⟨.logInitialize toFile, .ok⟩] writing := by
  have hexec : exec next LogState.initial [(.logInitialize toFile, .disk true)] =
      some ([⟨.logInitialize toFile, .ok⟩], writing) := rfl
  exact run_of_exec hexec

/-- Syslog without an identity is refused, and the file is still written to. -/
theorem failed_syslog_unchanged :
    Unchanged writing ((Call.logInitialize { toFile with dst := .syslog, arg := none }).run
      (.disk true) writing).2 ∧
    ((Call.logInitialize { toFile with dst := .syslog, arg := none }).run
      (.disk true) writing).2.sink = .stream 3 := by
  have hfail : ((Call.logInitialize { toFile with dst := .syslog, arg := none }).run
      (.disk true) writing).1 ≠ .ok := by
    decide
  exact ⟨(failed_config_unchanged_iff writing_run hfail).mpr (.inl (by decide)), rfl⟩

/-- A second file cannot be opened: the first one is closed and forgotten, and
messages go to stderr from then on. -/
theorem failed_file_loses_log :
    Run Step LogState.initial [⟨.logInitialize toFile, .ok⟩,
        ⟨.logInitialize { toFile with arg := some ['b'] }, .anyFailures⟩]
      { writing with s_log_fd := none, s_log_arg := none } ∧
    writing.sink = .stream 3 ∧
    ({ writing with s_log_fd := none, s_log_arg := none } : LogState).sink = .stderr ∧
    ¬ Unchanged writing { writing with s_log_fd := none, s_log_arg := none } := by
  have hexec : exec next LogState.initial [(.logInitialize toFile, .disk true),
        (.logInitialize { toFile with arg := some ['b'] }, .disk false)] =
      some ([⟨.logInitialize toFile, .ok⟩,
          ⟨.logInitialize { toFile with arg := some ['b'] }, .anyFailures⟩],
        { writing with s_log_fd := none, s_log_arg := none }) := rfl
  exact ⟨run_of_exec hexec, rfl, rfl, fun h => absurd h.openFile (by decide)⟩

end Mccp.Logger
