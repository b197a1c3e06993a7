/-
  Mccp.Signal.Disposition
  ───────────────────────
  **SIGNAL DISPOSITIONS: signal.c.**

  One thread waits for all signals that have a disposition other than SIG_DFL
  and runs their handlers.  What a signal's disposition is stands in two
  places: whether the thread waits for the signal, and the handler, if there is
  one.  SIGUSR2 is the thread's own: it is what wakes the thread up when these
  change, so the thread waits for it always, and it cannot go back to SIG_DFL.

      signal                  — mccp_signal()
      sMainRound              — a round of the thread's loop, up to sigwait()
      sChildAtFork, sFinal    — fork(2), and the end
      Encodes                 — how the record holds the dispositions
      encodes_run             — it does so in every run
      signal_returns_previous — what a call reports
-/
import Mathlib.Data.Finset.Basic
import Mathlib.Logic.Function.Basic
import Mccp.Lib.History
import Mccp.Lib.Transition
import Mccp.Result

namespace Mccp.Signal

open History Transition

/-! ## §1. The record of the signal thread. -/

/-- What the platform has: signals below `NSIG`, and the number of SIGUSR2. -/
structure Platform where
  NSIG : Int
  SIGUSR2 : Int
  deriving DecidableEq, Repr

/-- `sighandler_t`, as the number that it is switched on. -/
abbrev Sighandler := UInt64

/-- `NULL`. -/
abbrev NULL : Sighandler := 0
/-- `SIG_DFL`. -/
abbrev SIG_DFL : Sighandler := 0
/-- `SIG_IGN`. -/
abbrev SIG_IGN : Sighandler := 1

/-- `sigset_t`; sigaddset(), sigdelset() and sigismember() are assumed to be the
operations of a set, for every signal number. -/
abbrev Sigset := Finset Int

/-- `signal_thread_record`; `m_sigprocs` is indexed by the signals below NSIG. -/
structure Sigthd where
  m_sigprocs : Int → Sighandler
  m_sigset : Sigset
  m_do_loop : Bool

/-- The static variables of signal.c.  `s_once_final` tells whether pthread_once()
has run the end already. -/
structure Statics where
  s_sigthd : Option Sigthd
  s_is_first : Bool
  s_is_last : Bool
  s_once_final : Bool
  old_sigset : Sigset
  old_sigprocs : Int → Sighandler

variable (P : Platform)

/-- `sigismember`. -/
def sigismember (ss : Sigset) (signum : Int) : Int :=
  if 0 < signum ∧ signum < P.NSIG then if signum ∈ ss then 1 else 0 else -1

/-! ## §2. `mccp_signal`. -/

/-- What a call returns, and what it stores into `*oldptr`. -/
structure Reply where
  ret : Result
  old : Option Sighandler
  deriving DecidableEq, Repr

/-- The disposition that `mccp_signal` reads off the record; `none` when
sigismember() fails. -/
def reported (st : Sigthd) (signum : Int) : Option Sighandler :=
  let h := st.m_sigprocs signum
  if sigismember P st.m_sigset signum = 1 then
    -- waited for without a handler: it is ignored
    if h = NULL then some SIG_IGN else some h
  else if sigismember P st.m_sigset signum = 0 then some SIG_DFL
  else none

/-- What `mccp_signal` makes of the record, where sigaddset() and sigdelset() are
set operations: a libc that keeps some signals to itself may refuse those. -/
def change (st : Sigthd) (signum : Int) (new : Sighandler) : Sigthd :=
  if new = SIG_DFL then
    { st with
      m_sigset := if signum ≠ P.SIGUSR2 then st.m_sigset.erase signum else st.m_sigset
      m_sigprocs := Function.update st.m_sigprocs signum NULL }
  else if new = SIG_IGN then
    { st with
      m_sigset := insert signum st.m_sigset
      m_sigprocs := Function.update st.m_sigprocs signum NULL }
  else
    { st with
      m_sigset := insert signum st.m_sigset
      m_sigprocs := Function.update st.m_sigprocs signum new }

/-- `mccp_signal` with a signal number in range. -/
def exchange (st : Sigthd) (signum : Int) (new : Sighandler) (oldptr : Bool) : Reply × Sigthd :=
  if oldptr then
    match reported P st signum with
    | some old => (⟨.ok, some old⟩, change P st signum new)
    | none => (⟨.posixApiError, none⟩, st)
  else (⟨.ok, none⟩, change P st signum new)

/-- `mccp_signal`; all of it is under the lock, once there is a record. -/
def signal (sigthd : Option Sigthd) (signum : Int) (new : Sighandler) (oldptr : Bool) :
    Reply × Option Sigthd :=
  match sigthd with
  | some st =>
      if 0 < signum ∧ signum < P.NSIG then
        ((exchange P st signum new oldptr).1, some (exchange P st signum new oldptr).2)
      else (⟨.invalidArgs, none⟩, some st)
  | none => (⟨.notOperational, none⟩, none)

/-! ## §3. The thread, fork(2) and the end. -/

/-- A round of `s_main`, up to sigwait(). -/
def sMainRound (st : Sigthd) : Sigthd := { st with m_sigset := insert P.SIGUSR2 st.m_sigset }

/-- `s_main` after sigwait(): the handler that it runs. -/
def sMainHandler (st : Sigthd) (sig : Int) : Option Sighandler :=
  if 0 < sig ∧ sig < P.NSIG then
    if st.m_sigprocs sig ≠ NULL then some (st.m_sigprocs sig) else none
  else none

/-- `s_create`: the record that the thread starts with. -/
def sCreate (ssptr : Option Sigset) (procs : Option (Int → Sighandler)) : Sigthd where
  m_sigprocs := procs.getD fun _ => NULL
  m_sigset := ssptr.getD ∅
  m_do_loop := true

/-- `s_get_sigset`. -/
def sGetSigset (sigthd : Option Sigthd) : Sigset := sigthd.elim ∅ Sigthd.m_sigset

/-- `s_save_sigprocs`. -/
def sSaveSigprocs (sigthd : Option Sigthd) : Int → Sighandler :=
  sigthd.elim (fun _ => NULL) Sigthd.m_sigprocs

/-- `s_once_init_proc`; a thread that cannot be created ends the process. -/
def sOnceInitProc (s : Statics) : Statics :=
  if s.s_is_first then
    let st := some (sCreate none none)
    { s with
      s_is_first := false
      s_sigthd := st
      old_sigset := sGetSigset st
      old_sigprocs := sSaveSigprocs st }
  else { s with s_sigthd := some (sCreate (some s.old_sigset) (some s.old_sigprocs)) }

/-- `s_child_at_fork`. -/
def sChildAtFork (s : Statics) : Statics :=
  if s.s_is_last = false then
    sOnceInitProc { s with
      old_sigset := sGetSigset s.s_sigthd
      old_sigprocs := sSaveSigprocs s.s_sigthd
      s_sigthd := none }
  else s

/-- `s_once_final_proc`; `valid` tells whether the thread is there to be waited
for, `own` whether it is the signal thread that calls. -/
def sOnceFinalProc (valid own : Bool) (s : Statics) : Statics :=
  match s.s_sigthd with
  | some st =>
      if valid then
        { s with
          s_sigthd := if own then some { st with m_do_loop := false } else none
          s_is_last := true }
      else s
  | none => s

/-- `s_final`. -/
def sFinal (valid own : Bool) (s : Statics) : Statics :=
  if s.s_once_final then s else sOnceFinalProc valid own { s with s_once_final := true }

/-- The static variables once `s_ctors` has run. -/
def booted : Statics := sOnceInitProc {
  s_sigthd := some { m_sigprocs := fun _ => NULL, m_sigset := ∅, m_do_loop := false }
  s_is_first := true
  s_is_last := false
  s_once_final := false
  old_sigset := ∅
  old_sigprocs := fun _ => NULL }

/-- What happens next. -/
inductive Input where
  | signal (signum : Int) (new : Sighandler) (oldptr : Bool)
  | round
  | fork
  | final (valid own : Bool)
  deriving DecidableEq, Repr

/-- What is seen of it. -/
inductive Label where
  | called (signum : Int) (new : Sighandler) (oldptr : Bool) (r : Reply)
  | rounded
  | forked
  | finished
  deriving DecidableEq, Repr

/-- **One step**: a call, a round of the thread, which holds the lock as a call
does, a fork as its child sees it, or the end. -/
def next (s : Statics) : Input → Option (Label × Statics)
  | .signal signum new oldptr =>
      some (.called signum new oldptr (signal P s.s_sigthd signum new oldptr).1,
        { s with s_sigthd := (signal P s.s_sigthd signum new oldptr).2 })
  | .round =>
      match s.s_sigthd with
      | some st =>
          if st.m_do_loop then some (.rounded, { s with s_sigthd := some (sMainRound P st) })
          else none
      | none => none
  | .fork => some (.forked, sChildAtFork s)
  | .final valid own => some (.finished, sFinal valid own s)

/-- The transition relation. -/
abbrev Step : Statics → Label → Statics → Prop := observed (next P)

/-! ## §4. What the history says. -/

/-- The disposition that a call sets. -/
def Label.write : Label → Option (Int × Sighandler)
  | .called signum new _ r => if r.ret = .ok then some (signum, new) else none
  | _ => none

/-- **The disposition that the most recent successful call gives a signal**, or
SIG_DFL. -/
def disposition (signum : Int) (ls : List Label) : Sighandler :=
  latest Label.write SIG_DFL signum ls

/-- After this the thread waits for SIGUSR2. -/
def Label.wakes : Label → Bool
  | .called signum new _ r => signum = P.SIGUSR2 ∧ r.ret = .ok ∧ new ≠ SIG_DFL
  | .rounded => true
  | _ => false

/-- The thread waits for SIGUSR2: it has gone round its loop, or SIGUSR2 has had
a disposition other than SIG_DFL. -/
def awaited (ls : List Label) : Bool := ls.any (Label.wakes P)

/-- **How the record holds the dispositions.** -/
structure Encodes (ls : List Label) (st : Sigthd) : Prop where
  sigset : ∀ n, n ≠ P.SIGUSR2 → (n ∈ st.m_sigset ↔ disposition n ls ≠ SIG_DFL)
  sigusr2 : P.SIGUSR2 ∈ st.m_sigset ↔ awaited P ls = true
  sigprocs : ∀ n, st.m_sigprocs n = if disposition n ls = SIG_IGN then NULL else disposition n ls

variable {P} {ls : List Label} {l : Label} {st : Sigthd} {s s' : Statics} {signum : Int}
  {new : Sighandler} {oldptr : Bool} {r : Reply}

theorem awaited_snoc : awaited P (ls ++ [l]) = (awaited P ls || l.wakes P) := by
  unfold awaited
  rw [List.any_append, List.any_cons, List.any_nil, Bool.or_false]

theorem disposition_quiet (h : l.write = none) (n : Int) :
    disposition n (ls ++ [l]) = disposition n ls := by
  unfold disposition
  rw [latest_snoc, overwrite_none h]

/-- What a successful call writes is the new disposition of its own signal. -/
theorem disposition_called (hok : r.ret = .ok) (n : Int) :
    disposition n (ls ++ [.called signum new oldptr r]) =
      if signum = n then new else disposition n ls := by
  have hwrite : (Label.called signum new oldptr r).write = some (signum, new) := if_pos hok
  unfold disposition
  rw [latest_snoc, overwrite_some hwrite]

/-! ## §5. The operations keep the encoding. -/

/-- What a successful call stores is what it reads off the record. -/
theorem exchange_cases :
    ((exchange P st signum new oldptr).1.ret = .ok ∧
      (exchange P st signum new oldptr).2 = change P st signum new ∧
      (oldptr = true → (exchange P st signum new oldptr).1.old = reported P st signum)) ∨
    ((exchange P st signum new oldptr).1.ret ≠ .ok ∧ (exchange P st signum new oldptr).2 = st) := by
  have hfailed : (Result.posixApiError : Result) ≠ .ok := by decide
  unfold exchange
  split
  next =>
    split
    next old hold => exact .inl ⟨rfl, rfl, fun _ => hold.symm⟩
    next => exact .inr ⟨hfailed, rfl⟩
  next hnull => exact .inl ⟨rfl, rfl, fun hptr => absurd hptr hnull⟩

/-- The set after a change, at another signal. -/
theorem mem_change_of_ne {n : Int} (hn : signum ≠ n) :
    n ∈ (change P st signum new).m_sigset ↔ n ∈ st.m_sigset := by
  unfold change
  split
  next =>
    dsimp only
    split
    next => exact Finset.mem_erase.trans (and_iff_right (Ne.symm hn))
    next => exact Iff.rfl
  next => split <;> exact Finset.mem_insert.trans (or_iff_right (Ne.symm hn))

/-- The set after a change, at its own signal: SIGUSR2 is never taken out. -/
theorem mem_change_self : signum ∈ (change P st signum new).m_sigset ↔
    new ≠ SIG_DFL ∨ signum = P.SIGUSR2 ∧ signum ∈ st.m_sigset := by
  unfold change
  split
  next hdfl =>
    rw [or_iff_right (not_not.mpr hdfl)]
    dsimp only
    split
    next husr => exact iff_of_false (Finset.notMem_erase _ _) (fun hand => husr hand.1)
    next husr => exact (and_iff_right (not_not.mp husr)).symm
  next hdfl => split <;> exact iff_of_true (Finset.mem_insert_self _ _) (.inl hdfl)

/-- The handlers after a change. -/
theorem change_sigprocs : (change P st signum new).m_sigprocs =
    Function.update st.m_sigprocs signum (if new = SIG_IGN then NULL else new) := by
  unfold change
  by_cases hdfl : new = SIG_DFL
  · rw [if_pos hdfl, hdfl, if_neg (show ¬ SIG_DFL = SIG_IGN by decide)]
  · rw [if_neg hdfl]
    split <;> rfl

/-- Once the thread waits for SIGUSR2, SIG_DFL and SIG_IGN are the same for it. -/
theorem change_sigusr2 (h : P.SIGUSR2 ∈ st.m_sigset) :
    change P st P.SIGUSR2 SIG_DFL = change P st P.SIGUSR2 SIG_IGN := by
  unfold change
  rw [if_pos rfl, if_neg (show ¬ SIG_IGN = SIG_DFL by decide), if_pos rfl, if_neg (not_not.mpr rfl),
    Finset.insert_eq_of_mem h]

/-- **A successful call** changes what is held for its own signal. -/
theorem Encodes.called (h : Encodes P ls st) (hok : r.ret = .ok) :
    Encodes P (ls ++ [.called signum new oldptr r]) (change P st signum new) := by
  refine ⟨fun n husr => ?_, ?_, fun n => ?_⟩
  · rw [disposition_called hok]
    by_cases hn : signum = n
    · subst hn
      rw [if_pos rfl, mem_change_self]
      exact or_iff_left (fun hand => husr hand.1)
    · rw [if_neg hn, mem_change_of_ne hn]
      exact h.sigset n husr
  · have hwakes : Label.wakes P (.called signum new oldptr r) = true ↔
        signum = P.SIGUSR2 ∧ new ≠ SIG_DFL := by
      simp [Label.wakes, hok]
    rw [awaited_snoc, Bool.or_eq_true, hwakes, ← h.sigusr2]
    by_cases hn : signum = P.SIGUSR2
    · subst hn
      rw [mem_change_self, and_iff_right rfl, and_iff_right rfl]
      exact or_comm
    · rw [mem_change_of_ne hn]
      exact (or_iff_left (fun hand => hn hand.1)).symm
  · rw [change_sigprocs, disposition_called hok]
    by_cases hn : signum = n
    · subst hn
      rw [if_pos rfl]
      exact Function.update_self _ _ _
    · rw [if_neg hn, ← h.sigprocs n]
      exact Function.update_of_ne (Ne.symm hn) _ _

/-- What is neither a successful call nor a round changes nothing that is held. -/
theorem Encodes.quiet (h : Encodes P ls st) (hwrite : l.write = none)
    (hwakes : l.wakes P = false) : Encodes P (ls ++ [l]) st := by
  refine ⟨fun n husr => ?_, ?_, fun n => ?_⟩
  · rw [disposition_quiet hwrite]
    exact h.sigset n husr
  · rw [awaited_snoc, hwakes, Bool.or_false]
    exact h.sigusr2
  · rw [disposition_quiet hwrite]
    exact h.sigprocs n

/-- A round of the thread puts SIGUSR2 into the set, and nothing else. -/
theorem Encodes.rounded (h : Encodes P ls st) :
    Encodes P (ls ++ [.rounded]) (sMainRound P st) := by
  refine ⟨fun n husr => ?_, ?_, fun n => ?_⟩
  · rw [disposition_quiet rfl, ← h.sigset n husr]
    exact Finset.mem_insert.trans (or_iff_right husr)
  · rw [awaited_snoc, show Label.rounded.wakes P = true from rfl, Bool.or_true]
    exact iff_of_true (Finset.mem_insert_self _ _) rfl
  · rw [disposition_quiet rfl]
    exact h.sigprocs n

/-- Whatever the loop of the thread is told, what is held stays. -/
theorem Encodes.congr {st' : Sigthd} (h : Encodes P ls st) (hset : st'.m_sigset = st.m_sigset)
    (hprocs : st'.m_sigprocs = st.m_sigprocs) : Encodes P ls st' := by
  refine ⟨fun n husr => ?_, ?_, fun n => ?_⟩
  · rw [hset]
    exact h.sigset n husr
  · rw [hset]
    exact h.sigusr2
  · rw [hprocs]
    exact h.sigprocs n

/-! ## §6. Runs. -/

/-- **What every run keeps**: the record, as long as there is one, holds the
dispositions, and there is one until the end. -/
structure Inv (P : Platform) (ls : List Label) (s : Statics) : Prop where
  first : s.s_is_first = false
  last : s.s_is_last = false → ∃ st, s.s_sigthd = some st
  encodes : ∀ st, s.s_sigthd = some st → Encodes P ls st

/-- A record that holds the dispositions is put in place. -/
theorem Inv.put (hfirst : s.s_is_first = false) (hst : s.s_sigthd = some st)
    (henc : Encodes P ls st) : Inv P ls s := by
  refine ⟨hfirst, fun _ => ⟨st, hst⟩, fun st' hst' => ?_⟩
  obtain rfl : st = st' := Option.some.inj (hst.symm.trans hst')
  exact henc

/-- Nothing that is held changes. -/
theorem Inv.quiet (h : Inv P ls s) (hwrite : l.write = none) (hwakes : l.wakes P = false) :
    Inv P (ls ++ [l]) s :=
  ⟨h.first, h.last, fun st hst => (h.encodes st hst).quiet hwrite hwakes⟩

theorem Inv.booted : Inv P [] booted := by
  refine .put rfl rfl ⟨fun n _ => ?_, ?_, fun n => rfl⟩
  · exact iff_of_false (Finset.notMem_empty _) (not_not.mpr rfl)
  · exact iff_of_false (Finset.notMem_empty _) Bool.false_ne_true

/-- A call. -/
theorem Inv.called (h : Inv P ls s) :
    Inv P (ls ++ [.called signum new oldptr (signal P s.s_sigthd signum new oldptr).1])
      { s with s_sigthd := (signal P s.s_sigthd signum new oldptr).2 } := by
  have hfailed : ∀ {r : Reply} {st : Sigthd}, r.ret ≠ .ok → Encodes P ls st →
      Encodes P (ls ++ [.called signum new oldptr r]) st := by
    intro r st hne hst
    exact hst.quiet (if_neg hne) (by simp [Label.wakes, hne])
  cases hsig : s.s_sigthd with
  | none =>
    refine ⟨h.first, fun hlast => ?_, fun st hst => absurd hst (by simp [signal])⟩
    obtain ⟨st, hst⟩ := h.last hlast
    exact absurd (hsig.symm.trans hst) (by simp)
  | some st =>
    have henc := h.encodes st hsig
    unfold signal
    dsimp only
    split
    next =>
      refine .put h.first rfl ?_
      obtain ⟨hok, hst, -⟩ | ⟨hne, hst⟩ := @exchange_cases P st signum new oldptr
      · rw [hst]
        exact henc.called hok
      · rw [hst]
        exact hfailed hne henc
    next => exact .put h.first rfl (hfailed (show Result.invalidArgs ≠ Result.ok by decide) henc)

/-- A fork: the child's new record is made from what the old one held. -/
theorem Inv.forked (h : Inv P ls s) : Inv P (ls ++ [.forked]) (sChildAtFork s) := by
  unfold sChildAtFork
  split
  next hlast =>
    obtain ⟨st, hst⟩ := h.last hlast
    unfold sOnceInitProc
    rw [if_neg (by rw [h.first]; decide)]
    refine .put h.first rfl (((h.encodes st hst).quiet rfl rfl).congr ?_ ?_)
    · rw [hst]
      rfl
    · rw [hst]
      rfl
  next => exact h.quiet rfl rfl

/-- The end: the record is given up, or its loop is told to stop. -/
theorem Inv.finished (h : Inv P ls s) (valid own : Bool) :
    Inv P (ls ++ [.finished]) (sFinal valid own s) := by
  have hquiet : Inv P (ls ++ [.finished]) s := h.quiet rfl rfl
  have hsame : Inv P (ls ++ [.finished]) { s with s_once_final := true } :=
    ⟨hquiet.first, hquiet.last, hquiet.encodes⟩
  unfold sFinal
  split
  next => exact hquiet
  next =>
    unfold sOnceFinalProc
    split
    next st hst =>
      split
      next =>
        cases own with
        | false =>
          exact ⟨h.first, fun hlast => absurd hlast (by simp),
            fun _ hnone => absurd hnone (by simp)⟩
        | true => exact .put h.first rfl ((hsame.encodes st hst).congr rfl rfl)
      next => exact hsame
    next => exact hsame

theorem Inv.step (h : Inv P ls s) (hstep : Step P s l s') : Inv P (ls ++ [l]) s' := by
  obtain ⟨i, hi⟩ := hstep
  cases i with
  | signal signum new oldptr =>
    simp only [next, Option.some.injEq, Prod.mk.injEq] at hi
    obtain ⟨rfl, rfl⟩ := hi
    exact h.called
  | round =>
    unfold next at hi
    dsimp only at hi
    split at hi
    next st hst =>
      split at hi
      next =>
        simp only [Option.some.injEq, Prod.mk.injEq] at hi
        obtain ⟨rfl, rfl⟩ := hi
        exact .put h.first rfl (h.encodes st hst).rounded
      next => exact absurd hi (by simp)
    next => exact absurd hi (by simp)
  | fork =>
    simp only [next, Option.some.injEq, Prod.mk.injEq] at hi
    obtain ⟨rfl, rfl⟩ := hi
    exact h.forked
  | final valid own =>
    simp only [next, Option.some.injEq, Prod.mk.injEq] at hi
    obtain ⟨rfl, rfl⟩ := hi
    exact h.finished valid own

/-- **In every run the record holds the dispositions that the calls have set**,
across forks, and whatever the thread does. -/
theorem encodes_run (hrun : Run (Step P) booted ls s) : Inv P ls s :=
  hrun.invariant_history (Inv P) (fun _ _ _ _ _ h hstep => h.step hstep) Inv.booted

/-! ## §7. What a call reports. -/

/-- SIGUSR2 is waited for once it has had a disposition other than SIG_DFL. -/
theorem awaited_of_disposition (h : disposition P.SIGUSR2 ls ≠ SIG_DFL) :
    awaited P ls = true := by
  induction ls using List.reverseRecOn with
  | nil => exact absurd rfl h
  | append_singleton ls l ih =>
    rw [awaited_snoc, Bool.or_eq_true]
    have hquiet : l.write = none → awaited P ls = true := by
      intro hwrite
      rw [disposition_quiet hwrite] at h
      exact ih h
    cases l with
    | called signum new oldptr r =>
      by_cases hok : r.ret = .ok
      · rw [disposition_called hok] at h
        split at h
        next husr => exact .inr (by simp [Label.wakes, husr, hok, h])
        next => exact .inl (ih h)
      · exact .inl (hquiet (if_neg hok))
    | rounded => exact .inl (hquiet rfl)
    | forked => exact .inl (hquiet rfl)
    | finished => exact .inl (hquiet rfl)

/-- The thread waits for a signal with a disposition other than SIG_DFL, and for
SIGUSR2 from its first round on. -/
theorem Encodes.mem_iff (h : Encodes P ls st) (signum : Int) : signum ∈ st.m_sigset ↔
    disposition signum ls ≠ SIG_DFL ∨ signum = P.SIGUSR2 ∧ awaited P ls = true := by
  by_cases husr : signum = P.SIGUSR2
  · subst husr
    rw [h.sigusr2, or_iff_right_of_imp (fun hne => ⟨rfl, awaited_of_disposition hne⟩)]
    exact (and_iff_right rfl).symm
  · rw [h.sigset signum husr, or_iff_left (fun hand => husr hand.1)]

/-- **What is read off a record that holds the dispositions.** -/
theorem Encodes.reported_eq (h : Encodes P ls st) (hrange : 0 < signum ∧ signum < P.NSIG) :
    reported P st signum = some
      (if signum = P.SIGUSR2 ∧ awaited P ls = true ∧ disposition signum ls = SIG_DFL then SIG_IGN
      else disposition signum ls) := by
  have hmem := h.mem_iff signum
  have hproc := h.sigprocs signum
  unfold reported sigismember
  dsimp only
  rw [if_pos hrange]
  by_cases hin : signum ∈ st.m_sigset
  · rw [if_pos hin, if_pos rfl]
    by_cases hdfl : disposition signum ls = SIG_DFL
    · -- only SIGUSR2 is waited for with nothing set
      have husr := (hmem.mp hin).resolve_left (not_not.mpr hdfl)
      have hnull : st.m_sigprocs signum = NULL := by
        rw [hproc, hdfl]
        rfl
      rw [if_pos hnull, if_pos ⟨husr.1, husr.2, hdfl⟩]
    · rw [if_neg (fun hall : _ ∧ _ ∧ _ => hdfl hall.2.2)]
      by_cases hign : disposition signum ls = SIG_IGN
      · rw [if_pos hign] at hproc
        rw [if_pos hproc, hign]
      · rw [if_neg hign] at hproc
        rw [hproc, if_neg hdfl]
  · have hdfl : disposition signum ls = SIG_DFL := by
      by_contra hne
      exact hin (hmem.mpr (.inl hne))
    rw [if_neg hin, if_neg (by decide), if_pos rfl,
      if_neg (fun hall => hin (hmem.mpr (.inr ⟨hall.1, hall.2.1⟩))), hdfl]

/-- **The handler that the thread runs** is the disposition, where that is one. -/
theorem Encodes.sMainHandler_eq (h : Encodes P ls st) (hrange : 0 < signum ∧ signum < P.NSIG) :
    sMainHandler P st signum =
      if disposition signum ls = SIG_DFL ∨ disposition signum ls = SIG_IGN then none
      else some (disposition signum ls) := by
  have hproc := h.sigprocs signum
  unfold sMainHandler
  rw [if_pos hrange]
  by_cases hign : disposition signum ls = SIG_IGN
  · rw [if_pos hign] at hproc
    rw [if_neg (not_not.mpr hproc), if_pos (Or.inr hign)]
  · rw [if_neg hign] at hproc
    rw [hproc]
    by_cases hdfl : disposition signum ls = SIG_DFL
    · rw [if_neg (not_not.mpr hdfl), if_pos (Or.inl hdfl)]
    · rw [if_pos hdfl, if_neg (fun hor : _ ∨ _ => hor.elim hdfl hign)]

/-- A call that returns OK has a record and a signal number in range. -/
theorem signal_ok {sigthd : Option Sigthd} (hok : (signal P sigthd signum new oldptr).1.ret = .ok) :
    ∃ st, sigthd = some st ∧ (0 < signum ∧ signum < P.NSIG) ∧
      (signal P sigthd signum new oldptr).1 = (exchange P st signum new oldptr).1 := by
  unfold signal at hok ⊢
  split at hok
  next st =>
    split at hok
    next hrange => exact ⟨st, rfl, hrange, by rw [if_pos hrange]⟩
    next =>
      have hne : (Result.invalidArgs : Result) ≠ .ok := by decide
      exact absurd hok hne
  next =>
    have hne : (Result.notOperational : Result) ≠ .ok := by decide
    exact absurd hok hne

/-- **A call reports the disposition that the most recent successful call has
given the signal**, or SIG_DFL, whatever has happened to other signals and
whatever the thread has done; except that SIGUSR2, once the thread waits for it,
is reported as ignored where it would be SIG_DFL. -/
theorem signal_returns_previous (hrun : Run (Step P) booted ls s)
    (hstep : Step P s (.called signum new true r) s') (hok : r.ret = .ok) :
    r.old = some
      (if signum = P.SIGUSR2 ∧ awaited P ls = true ∧ disposition signum ls = SIG_DFL then SIG_IGN
      else disposition signum ls) := by
  obtain ⟨i, hi⟩ := hstep
  have hr : (signal P s.s_sigthd signum new true).1 = r := by
    cases i with
    | signal signum' new' oldptr =>
      simp only [next, Option.some.injEq, Prod.mk.injEq, Label.called.injEq] at hi
      obtain ⟨⟨rfl, rfl, rfl, hr⟩, -⟩ := hi
      exact hr
    | round =>
      unfold next at hi
      dsimp only at hi
      split at hi
      next => split at hi <;> simp at hi
      next => simp at hi
    | fork => simp [next] at hi
    | final valid own => simp [next] at hi
  rw [← hr] at hok
  obtain ⟨st, hst, hrange, hreply⟩ := signal_ok hok
  rw [hreply] at hok
  obtain ⟨-, -, hold⟩ | ⟨hne, -⟩ := @exchange_cases P st signum new true
  · rw [← hr, hreply, hold rfl]
    exact ((encodes_run hrun).encodes st hst).reported_eq hrange
  · exact absurd hok hne

/-- The numbers of a common platform. -/
def linux : Platform where
  NSIG := 65
  SIGUSR2 := 12

/-- SIGHUP gets a handler, the thread goes round, and SIGINT is ignored. -/
def handled : List Label :=
  [.called 1 4096 false ⟨.ok, none⟩, .rounded, .called 2 SIG_IGN false ⟨.ok, none⟩]

/-- After that, SIGHUP has had the handler. -/
theorem signal_returns_handler : ∃ s s' r, Run (Step linux) booted handled s ∧
    Step linux s (.called 1 SIG_DFL true r) s' ∧ r.old = some 4096 := by
  have hexec : ∃ s, exec (next linux) booted
      [.signal 1 4096 false, .round, .signal 2 SIG_IGN false] = some (handled, s) ∧
      ∃ r s', next linux s (.signal 1 SIG_DFL true) = some (.called 1 SIG_DFL true r, s') ∧
        r.ret = .ok :=
    ⟨_, rfl, _, _, rfl, rfl⟩
  obtain ⟨s, hexec, r, s', hnext, hok⟩ := hexec
  have hrun := run_of_exec hexec
  have hold := signal_returns_previous hrun ⟨_, hnext⟩ hok
  exact ⟨s, s', r, hrun, ⟨_, hnext⟩, hold⟩

/-- SIGUSR2 has had no disposition, or has gone back to SIG_DFL, and is reported
as ignored: the thread's own loop, and a disposition before the last, have made
the thread wait for it. -/
theorem sigusr2_reported_ignored :
    (∃ s s', Run (Step linux) booted [.rounded] s ∧
      Step linux s (.called 12 SIG_DFL true ⟨.ok, some SIG_IGN⟩) s' ∧
      disposition 12 [.rounded] = SIG_DFL) ∧
    ∃ s s', Run (Step linux) booted
        [.called 12 4096 true ⟨.ok, some SIG_DFL⟩, .called 12 SIG_DFL true ⟨.ok, some 4096⟩] s ∧
      Step linux s (.called 12 4096 true ⟨.ok, some SIG_IGN⟩) s' ∧
      disposition 12 [.called 12 4096 true ⟨.ok, some SIG_DFL⟩,
        .called 12 SIG_DFL true ⟨.ok, some 4096⟩] = SIG_DFL := by
  have hround : ∃ s, exec (next linux) booted [.round] = some ([.rounded], s) ∧
      ∃ s', next linux s (.signal 12 SIG_DFL true) =
        some (.called 12 SIG_DFL true ⟨.ok, some SIG_IGN⟩, s') :=
    ⟨_, rfl, _, rfl⟩
  have hback : ∃ s, exec (next linux) booted [.signal 12 4096 true, .signal 12 SIG_DFL true] =
      some ([.called 12 4096 true ⟨.ok, some SIG_DFL⟩,
        .called 12 SIG_DFL true ⟨.ok, some 4096⟩], s) ∧
      ∃ s', next linux s (.signal 12 4096 true) =
        some (.called 12 4096 true ⟨.ok, some SIG_IGN⟩, s') :=
    ⟨_, rfl, _, rfl⟩
  obtain ⟨s, hexec, s', hnext⟩ := hround
  obtain ⟨t, hexec', t', hnext'⟩ := hback
  exact ⟨⟨s, s', run_of_exec hexec, ⟨_, hnext⟩, rfl⟩,
    t, t', run_of_exec hexec', ⟨_, hnext'⟩, rfl⟩

end Mccp.Signal
