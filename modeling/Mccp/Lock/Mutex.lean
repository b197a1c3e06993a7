/-
  Mccp.Lock.Mutex
  ───────────────
  **mccp_mutex: A WAIT LETS OTHERS OVERWRITE THE SAVED STATE.**

  A mutex has one holder, but mccp_cond_wait() lends it to others in the middle
  of a region, and does not put `m_prev_cancel_state` back.  The release after
  the wait reads what the last region of another thread has left there.

      lock … condWait      — the API calls
      mutex_regions_iff    — exactly when regions survive their waits
      wait_loses_region    — a plain region during a wait closes a critical one
-/
import Mccp.Lock.Regions

namespace Mccp.Lock

open Transition

/-! ## §1. The calls. -/

/-- `pthread_mutex_t`: one holder, in one mode. -/
def mutex : PthreadLock Unit where
  compatible _ _ := false
  waits := true

namespace Mutex

/-- `mccp_mutex_lock`. -/
def lock : Call Unit := .acquire () .lock
/-- `mccp_mutex_trylock`. -/
def trylock : Call Unit := .acquire () .trylock
/-- `mccp_mutex_timedlock`. -/
def timedlock (nsec : Int) : Call Unit := .acquire () (.timedlock nsec)
/-- `mccp_mutex_unlock`. -/
def unlock : Call Unit := .release .plain
/-- `mccp_mutex_enter_critical`. -/
def enterCritical : Call Unit := .enterCritical ()
/-- `mccp_mutex_leave_critical`. -/
def leaveCritical : Call Unit := .release .critical
/-- `mccp_cond_wait` on this mutex. -/
def condWait (nsec : Int) : Call Unit := .condWait nsec

end Mutex

/-! ## §2. Regions with waits. -/

variable {τ : Type} [DecidableEq τ]

/-- **Regions of a mutex survive their waits exactly when every release finds
in the field what its own acquire stored**: in such a run every release ends
well, and a run with no release under way at its end, whose releases all ended
well, is such a run. -/
theorem mutex_regions_iff {c : τ → CancelState} {ls : List (Label τ Unit)} {s : State τ Unit} :
    (Run (restrict (Step mutex) Fits) (State.init Unit c) ls s →
      Run (restrict (Step mutex) EndsWell) (State.init Unit c) ls s) ∧
    (s.Settled →
      (Run (restrict (Step mutex) EndsWell) (State.init Unit c) ls s ↔
        Run (restrict (Step mutex) Fits) (State.init Unit c) ls s)) := by
  refine ⟨endsWell_of_fits, fun hs => ⟨fun h => ?_, endsWell_of_fits⟩⟩
  exact fits_of_endsWell h hs

/-- Thread 0 waits in a critical region, thread 1 locks and unlocks: the leave
of thread 0 is refused, and thread 0 keeps the mutex and stays uncancelable. -/
theorem wait_loses_region :
    ∃ (ls : List (Label Nat Unit)) (s : State Nat Unit),
      Run (Step mutex) (State.init Unit fun _ => .enable) ls s ∧
      ls.getLast? = some
        { action := .run 0, event := .released .critical .criticalRegionNotOpened } ∧
      s.held 0 = [()] ∧ (s.thread 0).cancel = .disable ∧
      ¬ Run (restrict (Step mutex) EndsWell) (State.init Unit fun _ => .enable) ls s := by
  have hrun : ∃ p, exec (next mutex) (State.init Unit fun _ : Nat => .enable)
      [.call 0 Mutex.enterCritical, .run 0, .run 0, .call 0 (Mutex.condWait (-1)),
        .call 1 Mutex.lock, .run 1, .run 1, .call 1 Mutex.unlock, .run 1, .run 1,
        .run 0, .call 0 Mutex.leaveCritical, .run 0] = some p ∧
      p.1 = p.1.dropLast ++
        [{ action := .run 0, event := .released .critical .criticalRegionNotOpened }] ∧
      p.2.held 0 = [()] ∧ (p.2.thread 0).cancel = .disable :=
    ⟨_, rfl, rfl, rfl, rfl⟩
  obtain ⟨⟨ls, s⟩, hexec, hls, hheld, hcancel⟩ := hrun
  dsimp only at hls
  refine ⟨ls, s, run_of_exec hexec, ?_, hheld, hcancel, fun h => ?_⟩
  · rw [hls]
    exact List.getLast?_concat
  rw [hls] at h
  obtain ⟨u, -, -, hwell⟩ := h.last
  obtain ⟨_, _, _, hok, _⟩ := hwell _ _ rfl
  exact absurd hok (by decide)

end Mccp.Lock
