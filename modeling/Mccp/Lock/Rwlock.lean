/-
  Mccp.Lock.Rwlock
  ────────────────
  **mccp_rwlock: REGIONS THAT OVERLAP SHARE ONE SAVED STATE.**

  Readers hold the lock together, and each of them stores into the same
  `m_prev_cancel_state`.  A reader's release is right exactly when the acquire
  that came last before it stored the very value its own acquire did.

      readerLock … leaveCritical — the API calls
      rwlock_regions_iff         — exactly when regions are independent
      overlapping_readers        — a plain reader locks another one in
-/
import Mccp.Lock.Regions

namespace Mccp.Lock

open Transition

/-! ## §1. The calls. -/

/-- The modes of a pthread read/write lock. -/
inductive RwMode where
  | reader
  | writer
  deriving DecidableEq, Repr

/-- `pthread_rwlock_t`: readers share it. -/
def rwlock : PthreadLock RwMode where
  compatible held m := held = .reader ∧ m = .reader
  waits := false

namespace Rwlock

/-- `mccp_rwlock_reader_lock`. -/
def readerLock : Call RwMode := .acquire .reader .lock
/-- `mccp_rwlock_reader_trylock`. -/
def readerTrylock : Call RwMode := .acquire .reader .trylock
/-- `mccp_rwlock_reader_timedlock`. -/
def readerTimedlock (nsec : Int) : Call RwMode := .acquire .reader (.timedlock nsec)
/-- `mccp_rwlock_writer_lock`. -/
def writerLock : Call RwMode := .acquire .writer .lock
/-- `mccp_rwlock_writer_trylock`. -/
def writerTrylock : Call RwMode := .acquire .writer .trylock
/-- `mccp_rwlock_writer_timedlock`. -/
def writerTimedlock (nsec : Int) : Call RwMode := .acquire .writer (.timedlock nsec)
/-- `mccp_rwlock_unlock`. -/
def unlock : Call RwMode := .release .plain
/-- `mccp_rwlock_reader_enter_critical`. -/
def readerEnterCritical : Call RwMode := .enterCritical .reader
/-- `mccp_rwlock_writer_enter_critical`. -/
def writerEnterCritical : Call RwMode := .enterCritical .writer
/-- `mccp_rwlock_leave_critical`. -/
def leaveCritical : Call RwMode := .release .critical

end Rwlock

/-! ## §2. Overlapping regions. -/

variable {τ : Type} [DecidableEq τ]

/-- **Regions of a read/write lock are independent exactly when every release
finds in the field what its own acquire stored**: in such a run every release
ends well, and a run with no release under way at its end, whose releases all
ended well, is such a run. -/
theorem rwlock_regions_iff {c : τ → CancelState} {ls : List (Label τ RwMode)}
    {s : State τ RwMode} :
    (Run (restrict (Step rwlock) Fits) (State.init RwMode c) ls s →
      Run (restrict (Step rwlock) EndsWell) (State.init RwMode c) ls s) ∧
    (s.Settled →
      (Run (restrict (Step rwlock) EndsWell) (State.init RwMode c) ls s ↔
        Run (restrict (Step rwlock) Fits) (State.init RwMode c) ls s)) := by
  refine ⟨endsWell_of_fits, fun hs => ⟨fun h => ?_, endsWell_of_fits⟩⟩
  exact fits_of_endsWell h hs

/-- Thread 0 reads in a critical region, thread 1 in a plain one that begins
later: the leave of thread 0 is refused, and thread 0 keeps the lock and stays
uncancelable. -/
theorem overlapping_readers :
    ∃ (ls : List (Label Nat RwMode)) (s : State Nat RwMode),
      Run (Step rwlock) (State.init RwMode fun _ => .enable) ls s ∧
      ls.getLast? = some
        { action := .run 0, event := .released .critical .criticalRegionNotOpened } ∧
      s.held 0 = [.reader] ∧ (s.thread 0).cancel = .disable ∧
      ¬ Run (restrict (Step rwlock) EndsWell) (State.init RwMode fun _ => .enable) ls s := by
  have hrun : ∃ p, exec (next rwlock) (State.init RwMode fun _ : Nat => .enable)
      [.call 0 Rwlock.readerEnterCritical, .run 0, .run 0,
        .call 1 Rwlock.readerLock, .run 1, .run 1,
        .call 0 Rwlock.leaveCritical, .run 0] = some p ∧
      p.1 = p.1.dropLast ++
        [{ action := .run 0, event := .released .critical .criticalRegionNotOpened }] ∧
      p.2.held 0 = [.reader] ∧ (p.2.thread 0).cancel = .disable :=
    ⟨_, rfl, rfl, rfl, rfl⟩
  obtain ⟨⟨ls, s⟩, hexec, hls, hheld, hcancel⟩ := hrun
  dsimp only at hls
  refine ⟨ls, s, run_of_exec hexec, ?_, hheld, hcancel, fun h => ?_⟩
  · rw [hls]
    exact List.getLast?_concat
  rw [hls] at h
  obtain ⟨u, -, -, hwell⟩ := h.last
  obtain ⟨_, _, _, hok, _⟩ := hwell _ _ rfl
  exact absurd hok (by decide)

end Mccp.Lock
