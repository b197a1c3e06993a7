/-
  Mccp.Gstate.Waiters
  ───────────────────
  **WHAT A WAITER LEARNS OF A SHUTDOWN.**

  A wait for a state before ACCEPT_SHUTDOWN also ends when the state jumps over
  it into a shutdown, and is meant to say so with MCCP_RESULT_NOT_OPERATIONAL.
  But the shutdown states all come after the awaited one, and whether the state
  has come that far is tested first: the waiter is told that all is well.

      trackerAfter          — the tracker that a history of calls leaves
      tracker_run           — it is the one in the memory
      Learns                — what a waiter is to be told
      waiter_learns_iff     — when it is told so
-/
import Mccp.Gstate.Tracker
import Mathlib.Data.List.Basic

namespace Mccp.Gstate

open Monitor Transition

/-! ## §1. Histories of changes. -/

variable {τ : Type}

/-- What a step changes: a set that succeeds, a shutdown request that is
recorded, and a reset. -/
def track (g : Tracker) : Obs τ → Tracker
  | .seg _ (.enter (.set s)) (.returned r) => if r.result = .ok then { g with gs := s } else g
  | .seg _ (.enter (.requestShutdown l)) (.slept _ _) => { gs := .requestShutdown, gl := l }
  | .seg _ (.enter .reset) _ => { g with gs := .unknown }
  | _ => g

/-- **The tracker that a history leaves.** -/
def trackerAfter (ls : List (Obs τ)) : Tracker := ls.foldl track Tracker.initial

variable {g : Tracker} {i : Input Call Cont}

/-- A step without a change. -/
theorem track_unchanged {l : Obs τ} (hset : ∀ t s r, l = .seg t (.enter (.set s)) (.returned r) →
      r.result ≠ .ok) (hrec : recorded l = none) (hreset : ∀ t o, l ≠ .seg t (.enter .reset) o) :
    track g l = g := by
  unfold track
  split
  next t s r => exact if_neg (hset t s r rfl)
  next => exact absurd hrec (by simp [recorded])
  next t o => exact absurd rfl (hreset t o)
  next => rfl

/-- **What a segment does to the tracker is what an observer tracks.** -/
theorem seg_track (t : τ) :
    (code.seg g i).stateOr g = track g (.seg t i (code.seg g i).outcome : Obs τ) := by
  by_cases hi : i = .enter .reset
  · subst hi
    rfl
  · rcases seg_cases (g := g) hi t with ⟨hsame, hrec, hset⟩ | ⟨s, rfl, -, hset, hout⟩ |
      ⟨l, rfl, -, -, hreq, hout⟩
    · rw [hsame, track_unchanged ?_ hrec ?_]
      · intro u s r heq
        injection heq with _ hin hout
        exact hset s r hin hout
      · intro u o heq
        injection heq with _ hin _
        exact hi hin
    · rw [hset, hout]
      rfl
    · rw [hreq, hout]
      rfl

variable [DecidableEq τ]

/-- **The tracker in the memory is the one of the history**, in every reachable
state. -/
theorem tracker_run {ls : List (Obs τ)} {s : State τ Tracker Cont Cond}
    (hrun : Run (Step code) (State.init τ Tracker.initial) ls s) : s.shared = trackerAfter ls := by
  refine hrun.invariant_history (fun ls s => s.shared = trackerAfter ls) ?_ rfl
  intro ls s l s' _ ih hstep
  unfold trackerAfter at ih ⊢
  rw [List.foldl_append, ← ih]
  obtain ⟨-, ⟨t, i, -, rfl, rfl⟩ | ⟨t, w, k, c, -, -, rfl, rfl⟩⟩ := step_cases hstep
  · rw [State.after_shared]
    exact seg_track t
  · rfl

/-! ## §2. The end of a wait. -/

/-- **What a waiter is to be told** when tracker `g` ends its wait: of a shutdown,
with the state and the grace level, where the state is one of a shutdown; OK
where it is the awaited one or a later one. -/
def Learns (w : WaitFor) (g : Tracker) (r : Ret) : Prop :=
  (g.gs.isShutdown = true →
    r = { result := .notOperational
          curS := if w.curS then some g.gs else none
          curG := if w.curG then some g.gl else none }) ∧
  (w.waitFor.num ≤ g.gs.num → g.gs.isShutdown = false → r.result = .ok)

/-- A wait that ends returns OK, whatever ends it. -/
theorem waitForRecheck_returned {w : WaitFor} {r : Ret} (hw : w.waitFor.isShutdown = false)
    (h : (waitForRecheck g w).outcome = .returned r) :
    w.waitFor.num ≤ g.gs.num ∧ r.result = .ok := by
  have hbefore := GlobalState.isShutdown_eq_false.mp hw
  unfold waitForRecheck at h
  split at h
  next => exact absurd h (by simp [Seg.outcome])
  next hends =>
    -- a shutdown state is never before the awaited one
    have hle : w.waitFor.num ≤ g.gs.num := by
      by_contra hlt
      have hopen : ¬ g.gs.isShutdown = false := fun hopen => hends ⟨by omega, hopen⟩
      rw [GlobalState.isShutdown_eq_false] at hopen
      omega
    injection h with h
    rw [← h]
    exact ⟨hle, if_pos hle⟩

/-- **A sleeper is told what it is to be told exactly when the state that ends
its wait is not one of a shutdown**: the one that the changes made so far have
led to. -/
theorem waiter_learns_iff {ls : List (Obs τ)} {s s' : State τ Tracker Cont Cond}
    (hrun : Run (Step code) (State.init τ Tracker.initial) ls s) {t : τ} {w : WaitFor} {r : Ret}
    (hw : w.waitFor.isShutdown = false)
    (hstep : Step code s (.seg t (.resume (.waitFor w) .signaled) (.returned r)) s') :
    Learns w (trackerAfter ls) r ↔ (trackerAfter ls).gs.isShutdown = false := by
  have hends : (waitForRecheck (trackerAfter ls) w).outcome = .returned r := by
    obtain ⟨-, ⟨u, i, -, hl, -⟩ | ⟨u, w', k, c, -, -, hl, -⟩⟩ := step_cases hstep
    · injection hl with _ hi ho
      subst hi
      rw [← tracker_run hrun]
      exact ho.symm
    · exact absurd hl (by simp)
  obtain ⟨hle, hok⟩ := waitForRecheck_returned hw hends
  constructor
  · intro h
    by_contra hdown
    have hret := congrArg Ret.result (h.1 (by simpa using hdown))
    rw [hok] at hret
    exact absurd (show Result.ok = Result.notOperational from hret) (by decide)
  · intro hopen
    refine ⟨fun hdown => ?_, fun _ _ => hok⟩
    rw [hopen] at hdown
    exact absurd hdown (by decide)

/-- A wait for STARTED. -/
def forStarted : WaitFor where
  waitFor := .started
  curS := true
  curG := true
  nsec := -1

/-- Thread 0 waits for STARTED, thread 1 sets this state. -/
def sleepUntil (s : GlobalState) : List (Obs Nat) :=
  [.seg 0 (.enter (.waitFor forStarted)) (.slept (.waitFor forStarted) .cond),
    .seg 1 (.enter (.set s)) (.returned { result := .ok })]

/-- Woken at STARTED, the waiter learns it. -/
theorem waiter_learns_started :
    Learns forStarted (trackerAfter (sleepUntil .started))
      { result := .ok, curS := some .started, curG := some .unknown } := by
  have hrun : ∃ s, exec (next code) (State.init Nat Tracker.initial)
      [.call 0 (.waitFor forStarted), .call 1 (.set .started)] =
        some (sleepUntil .started, s) ∧
      ∃ s', next code s (.resume 0) = some (.seg 0 (.resume (.waitFor forStarted) .signaled)
        (.returned { result := .ok, curS := some .started, curG := some .unknown }), s') :=
    ⟨_, rfl, _, rfl⟩
  obtain ⟨s, hexec, s', hnext⟩ := hrun
  exact (waiter_learns_iff (run_of_exec hexec) rfl ⟨_, hnext⟩).mpr rfl

/-- The start is given up: the state jumps from below STARTED into the shutdown,
and the waiter is told OK. -/
theorem waiter_misses_shutdown : ∃ (s s' : State Nat Tracker Cont Cond) (r : Ret),
    Run (Step code) (State.init Nat Tracker.initial) (sleepUntil .shuttingdown) s ∧
    Step code s (.seg 0 (.resume (.waitFor forStarted) .signaled) (.returned r)) s' ∧
    (trackerAfter (sleepUntil .shuttingdown)).gs = .shuttingdown ∧ r.result = .ok ∧
    ¬ Learns forStarted (trackerAfter (sleepUntil .shuttingdown)) r := by
  have hrun : ∃ s, exec (next code) (State.init Nat Tracker.initial)
      [.call 0 (.waitFor forStarted), .call 1 (.set .shuttingdown)] =
        some (sleepUntil .shuttingdown, s) ∧
      ∃ s', next code s (.resume 0) = some (.seg 0 (.resume (.waitFor forStarted) .signaled)
        (.returned { result := .ok, curS := some .shuttingdown, curG := some .unknown }), s') :=
    ⟨_, rfl, _, rfl⟩
  obtain ⟨s, hexec, s', hnext⟩ := hrun
  refine ⟨s, s', _, run_of_exec hexec, ⟨_, hnext⟩, rfl, rfl, fun h => ?_⟩
  have hret := congrArg Ret.result (h.1 rfl)
  exact absurd (show Result.ok = Result.notOperational from hret) (by decide)

end Mccp.Gstate
