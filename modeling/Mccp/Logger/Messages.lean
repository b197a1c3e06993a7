/-
  Mccp.Logger.Messages
  ────────────────────
  **WHICH MESSAGES ARE PUT OUT, HOW OFTEN, AND WHERE.**

  Any number of threads emit messages and configure the logger, in any order of
  steps.  The level, the flags and the open stream are what the calls so far have
  made them, and no stream is lost or closed twice, since a call that opens one
  has closed the one before.

      follows_run        — level, flags, stream and messages, by the history
      passed_iff         — which messages are put out
      messages_delivered — once each, and to the stream that is open
-/
import Mccp.Lib.History
import Mccp.Logger.Emit

namespace Mccp.Logger

open History (Since since_snoc not_since_nil)
open Transition

variable {T : Type}

/-! ## §1. What the history says. -/

/-- Bit `b` of some flags. -/
def hasFlag (flags : UInt64) (b : Nat) : Bool := flags.toBitVec.getLsbD b

theorem hasFlag_or (x y : UInt64) (b : Nat) : hasFlag (x ||| y) b = (hasFlag x b || hasFlag y b) :=
  BitVec.getLsbD_or

theorem hasFlag_and (x y : UInt64) (b : Nat) :
    hasFlag (x &&& y) b = (hasFlag x b && hasFlag y b) :=
  BitVec.getLsbD_and

/-- Taking away the flags of `y`. -/
theorem hasFlag_clear (x y : UInt64) (b : Nat) :
    hasFlag (x &&& ~~~y) b = (hasFlag x b && !hasFlag y b) := by
  rw [hasFlag_and]
  cases hx : hasFlag x b with
  | false => rfl
  | true =>
    have hlt : b < 64 := BitVec.lt_of_getLsbD hx
    have hnot : hasFlag (~~~y) b = !hasFlag y b := by
      unfold hasFlag
      rw [UInt64.toBitVec_not, BitVec.getLsbD_not, decide_eq_true hlt, Bool.true_and]
    rw [hnot]

theorem exists_hasFlag {x : UInt64} : x ≠ 0 ↔ ∃ b, hasFlag x b = true := by
  constructor
  · intro hne
    by_contra hnone
    refine hne (UInt64.toBitVec_inj.mp (BitVec.eq_of_getLsbD_eq fun b _ => ?_))
    have hfalse : hasFlag x b = false := Bool.eq_false_iff.mpr fun hb => hnone ⟨b, hb⟩
    exact hfalse.trans BitVec.getLsbD_zero.symm
  · rintro ⟨b, hb⟩ rfl
    exact absurd hb (by simp [hasFlag])

/-- The debug level that a call sets; a configuration does when it succeeds. -/
def Obs.setsLevel : Obs T → Option (Unit × UInt64)
  | .calls _ (.logInitialize a) .ok _ _ => some ((), a.debug_level)
  | .calls _ (.setDebugLevel level) _ _ _ => some ((), level)
  | _ => none

/-- A call that sets trace flag `b`. -/
def Obs.SetsFlag (b : Nat) : Obs T → Prop
  | .calls _ (.logInitialize a) .ok _ _ => hasFlag a.trace_flags b = true
  | .calls _ (.setTraceFlags flags) _ _ _ => hasFlag flags b = true
  | _ => False

/-- A call that clears it. -/
def Obs.ClearsFlag (b : Nat) : Obs T → Prop
  | .calls _ (.logInitialize a) .ok _ _ => hasFlag a.trace_flags b = false
  | .calls _ (.unsetTraceFlags flags) _ _ _ => hasFlag flags b = true
  | _ => False

/-- The stream that a call opens. -/
def Obs.opens : Obs T → Option Stream
  | .calls _ _ _ _ opens => opens
  | _ => none

/-- The stream that a call closes. -/
def Obs.closes : Obs T → Option Stream
  | .calls _ _ _ closes _ => closes
  | _ => none

/-- The debug level of the calls so far. -/
def levelOf (os : List (Obs T)) : UInt64 := History.latest Obs.setsLevel 0 () os

/-- Trace flag `b` is set. -/
def FlagSet (b : Nat) (os : List (Obs T)) : Prop := Since (Obs.SetsFlag b) (Obs.ClearsFlag b) os

/-- Stream `fd` is open. -/
def StreamOpen (fd : Stream) (os : List (Obs T)) : Prop :=
  Since (fun o => o.opens = some fd) (fun o => o.closes = some fd) os

/-- The message that thread `t` has composed. -/
def Obs.passedBy [DecidableEq T] (t : T) : Obs T → Option Message
  | .emits u m true => if u = t then some m else none
  | _ => none

/-- The message that thread `t` has put out. -/
def Obs.putBy [DecidableEq T] (t : T) : Obs T → Option Message
  | .puts u m _ => if u = t then some m else none
  | _ => none

/-- **The logger is what the history says.** -/
structure Follows [DecidableEq T] (os : List (Obs T)) (w : World T) : Prop where
  sound : w.log.Sound
  level : w.log.s_dbg_level = levelOf os
  flags : ∀ b, hasFlag w.log.s_trace_flags b = true ↔ FlagSet b os
  open_iff : ∀ fd, w.log.s_log_fd = some fd ↔ StreamOpen fd os
  streams : w.streams = w.log.s_log_fd.toList
  order : ∀ t, os.filterMap (Obs.passedBy t) =
    os.filterMap (Obs.putBy t) ++ (w.composed t).toList

/-! ## §2. A configuration sets the level and the flags. -/

variable {env : Env} {l : LogState} {a : InitArgs} {c : Call}

/-- **What a configuration makes of the level and the flags.** -/
theorem init_levels (env : Env) (a : InitArgs) (h : l.Sound) :
    ((sLogInit env l a).2.s_dbg_level, (sLogInit env l a).2.s_trace_flags) =
      if (sLogInit env l a).1 then (a.debug_level, a.trace_flags)
      else (l.s_dbg_level, l.s_trace_flags) := by
  cases hr : (sLogInit env l a).1 with
  | false =>
    rw [sLogInit_failed h hr]
    split
    next => rfl
    next => rfl
  | true =>
    have hfile : ∀ l', (sLogInitFile env l' a).1 = true →
        ((sLogInitFile env l' a).2.s_dbg_level, (sLogInitFile env l' a).2.s_trace_flags) =
          (a.debug_level, a.trace_flags) := by
      intro l'
      unfold sLogInitFile
      dsimp only
      intro htrue
      split at htrue
      next hcond =>
        rw [if_pos hcond]
        split at htrue
        next hopens =>
          rw [if_pos hopens]
          split at htrue
          next hfd =>
            rw [if_pos hfd]
            rfl
          next => exact absurd htrue (by simp)
        next => exact absurd htrue (by simp)
      next hcond =>
        rw [if_neg hcond]
        rfl
    unfold sLogInit at hr ⊢
    dsimp only at hr ⊢
    rw [if_pos rfl]
    split at hr
    next => exact hfile _ hr
    next => exact hfile _ hr
    next =>
      split at hr
      next hvalid =>
        rw [if_pos hvalid]
        rfl
      next => exact absurd hr (by simp)
    next => exact absurd hr (by simp)

/-- A configuration of the saved arguments leaves both. -/
theorem reinit_levels (h : l.Sound) :
    (sLogReinit env l).2.s_dbg_level = l.s_dbg_level ∧
      (sLogReinit env l).2.s_trace_flags = l.s_trace_flags := by
  have hlevels : ((sLogReinit env l).2.s_dbg_level, (sLogReinit env l).2.s_trace_flags) =
      (l.s_dbg_level, l.s_trace_flags) := by
    unfold sLogReinit
    rw [init_levels env _ h]
    exact ite_self _
  exact Prod.mk.inj hlevels

theorem run_init_ok (hr : (sLogInit env l a).1 = true) :
    (Call.logInitialize a).run env l = (.ok, (sLogInit env l a).2) := by
  unfold Call.run configResult
  dsimp only
  rw [if_pos hr]

theorem run_init_failed (hr : (sLogInit env l a).1 = false) :
    (Call.logInitialize a).run env l = (.anyFailures, (sLogInit env l a).2) := by
  unfold Call.run configResult
  dsimp only
  rw [hr, if_neg Bool.false_ne_true]

/-- What is seen of a call. -/
def Call.seen (env : Env) (l : LogState) (t : T) (c : Call) : Obs T :=
  .calls t c (c.run env l).1 (c.closes env l) (c.opens env l)

variable {t : T} {b : Nat}

theorem call_level (h : l.Sound) : (c.run env l).2.s_dbg_level =
    History.overwrite Obs.setsLevel () l.s_dbg_level (c.seen env l t) := by
  cases c with
  | logInitialize a =>
    have hlevel := congrArg Prod.fst (init_levels env a h)
    unfold Call.seen
    cases hr : (sLogInit env l a).1 with
    | true =>
      rw [hr] at hlevel
      rw [run_init_ok hr]
      exact hlevel
    | false =>
      rw [hr] at hlevel
      rw [run_init_failed hr]
      exact hlevel
  | logReinit => exact (reinit_levels h).1
  | logFinalize => rfl
  | setDebugLevel level => rfl
  | setTraceFlags flags => rfl
  | unsetTraceFlags flags => rfl

theorem call_flag (h : l.Sound) : hasFlag (c.run env l).2.s_trace_flags b = true ↔
    (c.seen env l t).SetsFlag b ∨
      (hasFlag l.s_trace_flags b = true ∧ ¬ (c.seen env l t).ClearsFlag b) := by
  have hsame : ∀ x : UInt64, x = l.s_trace_flags →
      (hasFlag x b = true ↔ False ∨ (hasFlag l.s_trace_flags b = true ∧ ¬ False)) := by
    rintro x rfl
    rw [not_false_eq_true, and_true, false_or]
  cases c with
  | logInitialize a =>
    have hflags := congrArg Prod.snd (init_levels env a h)
    unfold Call.seen
    cases hr : (sLogInit env l a).1 with
    | true =>
      rw [hr] at hflags
      have hset : (sLogInit env l a).2.s_trace_flags = a.trace_flags := hflags
      rw [run_init_ok hr]
      show hasFlag (sLogInit env l a).2.s_trace_flags b = true ↔ hasFlag a.trace_flags b = true ∨
        (hasFlag l.s_trace_flags b = true ∧ ¬ hasFlag a.trace_flags b = false)
      rw [hset, Bool.not_eq_false]
      exact ⟨.inl, fun hor => hor.elim id And.right⟩
    | false =>
      rw [hr] at hflags
      rw [run_init_failed hr]
      exact hsame _ hflags
  | logReinit => exact hsame _ (reinit_levels h).2
  | logFinalize => exact hsame _ rfl
  | setDebugLevel level => exact hsame _ rfl
  | setTraceFlags flags =>
    show hasFlag (l.s_trace_flags ||| flags) b = true ↔
      hasFlag flags b = true ∨ (hasFlag l.s_trace_flags b = true ∧ ¬ False)
    rw [hasFlag_or, Bool.or_eq_true, not_false_eq_true, and_true, or_comm]
  | unsetTraceFlags flags =>
    show hasFlag (l.s_trace_flags &&& ~~~flags) b = true ↔
      False ∨ (hasFlag l.s_trace_flags b = true ∧ ¬ hasFlag flags b = true)
    rw [hasFlag_clear, Bool.and_eq_true, Bool.not_eq_true', false_or, Bool.not_eq_true]

theorem call_open (h : l.Sound) {fd : Stream} : (c.run env l).2.s_log_fd = some fd ↔
    c.opens env l = some fd ∨ (l.s_log_fd = some fd ∧ ¬ c.closes env l = some fd) := by
  obtain ⟨hcloses, hopens⟩ | ⟨hcloses, hopens, hsame⟩ := call_replaces env c h
  · rw [hcloses, hopens, and_not_self_iff, or_false]
  · rw [hcloses, hopens, hsame]
    simp

/-- The open streams after a call are the one that the logger then has. -/
theorem call_streams {w : World T} (h : w.log.Sound) (hs : w.streams = w.log.s_log_fd.toList) :
    w.streamsAfter (c.closes env w.log) (c.opens env w.log) =
      (c.run env w.log).2.s_log_fd.toList := by
  unfold World.streamsAfter
  obtain ⟨hcloses, hopens⟩ | ⟨hcloses, hopens, hsame⟩ := call_replaces env c h
  · rw [hcloses, hopens, hs]
    have hnone : w.log.s_log_fd.toList.filter (fun fd => some fd ≠ w.log.s_log_fd) = [] := by
      cases w.log.s_log_fd with
      | none => rfl
      | some fd => simp
    rw [hnone, List.nil_append]
  · rw [hcloses, hopens, hsame, hs]
    simp

theorem LogState.Sound.call (h : l.Sound) : (c.run env l).2.Sound := by
  cases c with
  | logInitialize a => exact h.init
  | logReinit => exact h.init
  | logFinalize => exact h.final
  | setDebugLevel level => exact h
  | setTraceFlags flags => exact h
  | unsetTraceFlags flags => exact h

/-! ## §3. Runs. -/

section
variable [DecidableEq T] {w w' : World T} {o : Obs T} {os : List (Obs T)} {m : Message}

theorem follows_initial : Follows [] (World.initial T) where
  sound := fun _ => rfl
  level := rfl
  flags b := iff_of_false (by simp [World.initial, LogState.initial, hasFlag]) not_since_nil
  open_iff fd := iff_of_false (by simp [World.initial, LogState.initial]) not_since_nil
  streams := rfl
  order _ := rfl

/-- A step that is no call leaves the logger as it was. -/
theorem Follows.quiet (h : Follows os w) (hlog : w'.log = w.log) (hstreams : w'.streams = w.streams)
    (hlevel : o.setsLevel = none) (hflags : ∀ b, ¬ o.SetsFlag b ∧ ¬ o.ClearsFlag b)
    (hopen : o.opens = none ∧ o.closes = none)
    (horder : ∀ t, (os ++ [o]).filterMap (Obs.passedBy t) =
      (os ++ [o]).filterMap (Obs.putBy t) ++ (w'.composed t).toList) :
    Follows (os ++ [o]) w' where
  sound := by
    rw [hlog]
    exact h.sound
  level := by
    unfold levelOf
    rw [hlog, h.level, History.latest_snoc, History.overwrite_none hlevel]
    rfl
  flags b := by
    unfold FlagSet
    rw [hlog, h.flags b, since_snoc, or_iff_right (hflags b).1, and_iff_left (hflags b).2]
    rfl
  open_iff fd := by
    unfold StreamOpen
    rw [hlog, h.open_iff fd, since_snoc, hopen.1, hopen.2, or_iff_right (by simp),
      and_iff_left (by simp)]
    rfl
  streams := by
    rw [hstreams, hlog]
    exact h.streams
  order := horder

/-- A call follows the history, and says nothing of messages. -/
theorem Follows.called (h : Follows os w) (t : T) (c : Call) (env : Env) :
    Follows (os ++ [c.seen env w.log t])
      { w with
        log := (c.run env w.log).2
        streams := w.streamsAfter (c.closes env w.log) (c.opens env w.log) } where
  sound := h.sound.call
  level := by
    unfold levelOf
    rw [History.latest_snoc, call_level h.sound (t := t), h.level]
    rfl
  flags b := by
    unfold FlagSet
    rw [since_snoc, call_flag h.sound (t := t), h.flags b]
    rfl
  open_iff fd := by
    unfold StreamOpen
    rw [since_snoc, call_open h.sound, h.open_iff fd]
    rfl
  streams := call_streams h.sound h.streams
  order u := by
    rw [List.filterMap_append, List.filterMap_append]
    have hpassed : [c.seen env w.log t].filterMap (Obs.passedBy u) = [] := rfl
    have hput : [c.seen env w.log t].filterMap (Obs.putBy u) = [] := rfl
    rw [hpassed, hput, List.append_nil, List.append_nil]
    exact h.order u

/-- **One step.** -/
theorem Follows.step (h : Follows os w) (hstep : Changes w o w') : Follows (os ++ [o]) w' := by
  have hnone : ∀ b : Nat, ¬ False ∧ ¬ False := fun _ => ⟨not_false, not_false⟩
  cases hstep with
  | passed t m hidle hpass =>
    refine h.quiet rfl rfl rfl hnone ⟨rfl, rfl⟩ fun u => ?_
    rw [List.filterMap_append, List.filterMap_append, h.order u]
    by_cases hu : t = u
    · -- it had composed nothing before
      subst hu
      simp [Obs.passedBy, Obs.putBy, hidle]
    · simp [Obs.passedBy, Obs.putBy, hu, Function.update_of_ne (Ne.symm hu)]
  | refused t m hidle hpass =>
    refine h.quiet rfl rfl rfl hnone ⟨rfl, rfl⟩ fun u => ?_
    rw [List.filterMap_append, List.filterMap_append, h.order u]
    have hpassed : [Obs.emits t m false].filterMap (Obs.passedBy u) = [] := rfl
    have hput : [Obs.emits t m false].filterMap (Obs.putBy u) = [] := rfl
    rw [hpassed, hput, List.append_nil, List.append_nil]
  | put t m hm =>
    refine h.quiet rfl rfl rfl hnone ⟨rfl, rfl⟩ fun u => ?_
    rw [List.filterMap_append, List.filterMap_append, h.order u]
    by_cases hu : t = u
    · subst hu
      simp [Obs.passedBy, Obs.putBy, hm]
    · simp [Obs.passedBy, Obs.putBy, hu, Function.update_of_ne (Ne.symm hu)]
  | called t c env hidle => exact h.called t c env

/-- **Level, flags, stream and messages are what the history says**, in every run. -/
theorem follows_run (hrun : Run (Moves T) (World.initial T) os w) : Follows os w := by
  refine hrun.invariant_history Follows ?_ follows_initial
  intro os w o w' _ h hstep
  exact h.step hstep.changes

/-! ## §4. What is put out, and where. -/

/-- **A message that is wanted**, after the calls so far: it is none for debugging
or tracing; or its level is at most the one set last; or one of its flags has
been set and not been cleared since. -/
def Wanted (os : List (Obs T)) (m : Message) : Prop :=
  (m.lv ≠ .debug ∧ m.lv ≠ .trace) ∨
  (m.lv = .debug ∧ m.flags ≤ levelOf os) ∨
  (m.lv = .trace ∧ ∃ b, hasFlag m.flags b = true ∧ FlagSet b os)

theorem Follows.wanted_iff (h : Follows os w) : w.log.passes m = true ↔ Wanted os m := by
  have htrace : w.log.s_trace_flags &&& m.flags ≠ 0 ↔
      ∃ b, hasFlag m.flags b = true ∧ FlagSet b os := by
    rw [exists_hasFlag]
    refine exists_congr fun b => ?_
    rw [hasFlag_and, Bool.and_eq_true, h.flags b, and_comm]
  unfold LogState.passes Wanted
  rw [decide_eq_true_eq, h.level, htrace]

/-- A step in the middle of a run, and what the history was then. -/
theorem follows_split {before after : List (Obs T)}
    (hrun : Run (Moves T) (World.initial T) (before ++ o :: after) w) :
    ∃ v v', Follows before v ∧ Changes v o v' := by
  obtain ⟨v, hbefore, hrest⟩ := hrun.split
  cases hrest with
  | cons hstep _ => exact ⟨v, _, follows_run hbefore, hstep.changes⟩

/-- **Which messages pass**: those that are wanted by the calls made before, in
every run. -/
theorem passed_iff (hrun : Run (Moves T) (World.initial T) os w) {before after : List (Obs T)}
    {t : T} {passed : Bool} (hos : os = before ++ .emits t m passed :: after) :
    passed = true ↔ Wanted before m := by
  subst hos
  obtain ⟨v, v', hfollows, hchanges⟩ := follows_split hrun
  cases hchanges with
  | passed _ _ _ hpass => exact iff_of_true rfl (hfollows.wanted_iff.mp hpass)
  | refused _ _ _ hpass =>
    refine iff_of_false Bool.false_ne_true fun hwanted => ?_
    rw [hfollows.wanted_iff.mpr hwanted] at hpass
    exact Bool.noConfusion hpass

/-- A debug message of level 3. -/
def debugThree : Message where
  lv := .debug
  flags := 3
  msg := ['d']

/-- A note. -/
def note : Message where
  lv := .notice
  flags := 0
  msg := ['n']

/-- Two threads: the level lets the message of one pass, once a file has been
configured; while that waits for the lock, the other closes the file. -/
def twoThreads : List (Obs Bool) :=
  [.emits true debugThree false, .calls true (.logInitialize toFile) .ok none (some 3),
    .emits true debugThree true, .emits false note true, .puts false note (.stream 3),
    .calls false .logFinalize .ok (some 3) none, .puts true debugThree .stderr]

/-- The world after it. -/
def afterTwo : World Bool where
  log := sLogFinal writing
  streams := []
  composed _ := none

theorem twoThreads_run : Run (Moves Bool) (World.initial Bool) twoThreads afterTwo := by
  have hcomposed : (fun _ : Bool => (none : Option Message)) =
      Function.update (Function.update (Function.update (Function.update
        (fun _ => none) true (some debugThree)) false (some note)) false none) true none := by
    funext t
    cases t with
    | false => rfl
    | true => rfl
  have hexec : exec World.next (World.initial Bool)
      [.emit true debugThree, .call true (.logInitialize toFile) (.disk true),
        .emit true debugThree, .emit false note, .doLog false,
        .call false .logFinalize (.disk true), .doLog true] = some (twoThreads, afterTwo) := by
    unfold afterTwo
    rw [hcomposed]
    rfl
  exact run_of_exec hexec

/-- The first debug message is not wanted, the second one is. -/
theorem passed_iff_two :
    ¬ Wanted ([] : List (Obs Bool)) debugThree ∧
    Wanted (twoThreads.take 2) debugThree := by
  constructor
  · exact fun hwanted => Bool.noConfusion ((passed_iff twoThreads_run
      (show twoThreads = [] ++ .emits true debugThree false :: twoThreads.drop 1 from rfl)).mpr
        hwanted)
  · exact (passed_iff twoThreads_run (show twoThreads =
      twoThreads.take 2 ++ .emits true debugThree true :: twoThreads.drop 3 from rfl)).mp rfl

theorem LogState.Sound.sink_iff (h : l.Sound) {fd : Stream} :
    l.sink = .stream fd ↔ l.s_log_fd = some fd := by
  have helim : l.s_log_fd.elim Sink.stderr Sink.stream = .stream fd ↔ l.s_log_fd = some fd := by
    cases l.s_log_fd with
    | none => simp
    | some fd' => simp
  have hnone : ∀ dst, l.s_log_dst = dst → dst ≠ .file → l.s_log_fd = none := by
    rintro dst rfl hne
    exact h hne
  unfold LogState.sink
  cases hdst : l.s_log_dst with
  | unknown => exact helim
  | file => exact helim
  | syslog =>
    rw [hnone _ hdst (by decide)]
    exact iff_of_false (by simp) (by simp)
  | other n =>
    rw [hnone _ hdst (by simp)]
    exact iff_of_false (by simp) (by simp)

/-- **What becomes of the messages that pass, and of the streams.** -/
structure Delivered (os : List (Obs T)) (w : World T) : Prop where
  /-- A thread's messages are put out once each, and in order; the last may still
  be composed. -/
  order : ∀ t, os.filterMap (Obs.passedBy t) =
    os.filterMap (Obs.putBy t) ++ (w.composed t).toList
  /-- A message is put into the stream that is open then, if one is, and into no
  other. -/
  place : ∀ before t m sink after, os = before ++ .puts t m sink :: after →
    ∀ fd, sink = .stream fd ↔ StreamOpen fd before
  /-- A stream that is closed is open. -/
  closed : ∀ before t c ret fd opens after,
    os = before ++ .calls t c ret (some fd) opens :: after → StreamOpen fd before
  /-- The stream that is open is the one that the logger has: none is lost, and
  there is one at most. -/
  kept : ∀ fd, StreamOpen fd os ↔ w.log.s_log_fd = some fd
  streams : w.streams = w.log.s_log_fd.toList

/-- **Messages are delivered**, in every run. -/
theorem messages_delivered (hrun : Run (Moves T) (World.initial T) os w) : Delivered os w where
  order := (follows_run hrun).order
  place := by
    rintro before t m sink after rfl fd
    obtain ⟨v, v', hfollows, hchanges⟩ := follows_split hrun
    cases hchanges with
    | put _ _ hm => exact hfollows.sound.sink_iff.trans (hfollows.open_iff fd)
  closed := by
    rintro before t c ret fd opens after rfl
    obtain ⟨v, v', hfollows, hchanges⟩ := follows_split hrun
    generalize hclosed : some fd = closes at hchanges
    cases hchanges with
    | called _ _ env hidle =>
      obtain ⟨hcloses, -⟩ | ⟨hcloses, -⟩ := call_replaces env c hfollows.sound
      · exact (hfollows.open_iff fd).mp (hcloses.symm.trans hclosed.symm)
      · exact absurd (hclosed.trans hcloses) (by simp)
  kept fd := ((follows_run hrun).open_iff fd).symm
  streams := (follows_run hrun).streams

/-- Both messages are put out, one into the file and one to stderr, and the file
is closed. -/
theorem messages_delivered_two :
    Delivered twoThreads afterTwo ∧ ¬ StreamOpen 3 twoThreads := by
  have hdelivered := messages_delivered twoThreads_run
  exact ⟨hdelivered, fun hopen => absurd ((hdelivered.kept 3).mp hopen) (by decide)⟩

end

end Mccp.Logger
