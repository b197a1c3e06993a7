/-
  Mccp.Cbuffer.Timeouts
  ─────────────────────
  **THE TIMEOUT OF A QUEUE CALL STARTS AGAIN AT EACH RECHECK.**

  A put that finds the buffer full, and a get or a peek that finds it empty,
  sleeps in mccp_cond_wait() and goes back to `recheck` when it is woken.  When
  somebody else was faster it sleeps again, and with the whole of `nsec`, not
  with what is left of it.

      code_restarts        — each wait of a call is given the whole of `nsec`
      recheck_budget_iff   — when the waits keep to `nsec` together
-/
import Mathlib.Algebra.Order.Group.Int
import Mccp.Cbuffer.Record
import Mccp.Lib.Sleeps

namespace Mccp.Cbuffer

open Budget Monitor Transition

/-! ## §1. One timeout for all waits. -/

/-- The timeout that a put, a get or a peek is called with. -/
def Call.nsec : Call → Option Int
  | .put _ nsec => some nsec
  | .get _ nsec => some nsec
  | .peek _ nsec => some nsec
  | _ => none

variable {cb : Record} {k : Cont} {cnd : Cond}

/-- From `recheck` on, a call that sleeps does so with the timeout it is given. -/
theorem recheck_slept {nsec : Int} {sg : Segment}
    (hsg : (∃ v, sg = putRecheck cb v nsec) ∨ sg = getRecheck cb nsec ∨ sg = peekRecheck cb nsec)
    (h : sg.outcome = .slept k cnd) : k.nsec = nsec := by
  rcases hsg with ⟨v, rfl⟩ | rfl | rfl
  -- the three differ in what they do with a slot, and all sleep without one
  all_goals
    simp only [putRecheck, getRecheck, peekRecheck] at h
    split at h
    next =>
      split at h
      next =>
        split at h
        next => split at h <;> exact absurd h (by simp [Seg.outcome])
        next => exact absurd h (by simp [Seg.outcome])
      next =>
        injection h with hk
        rw [← hk]
        rfl
    next => exact absurd h (by simp [Seg.outcome])

/-- Only a put, a get or a peek goes to sleep, and with the timeout it is given. -/
theorem enter_slept {c : Call} (h : (enter cb c).outcome = .slept k cnd) :
    c.nsec = some k.nsec := by
  cases c with
  | put val nsec =>
    simp only [enter] at h
    split at h
    next =>
      split at h
      next => exact congrArg some (recheck_slept (.inl ⟨_, rfl⟩) h).symm
      next => exact absurd h (by simp [Seg.outcome])
    next => exact absurd h (by simp [Seg.outcome])
  | get dst nsec =>
    simp only [enter] at h
    split at h
    next => exact congrArg some (recheck_slept (.inr (.inl rfl)) h).symm
    next => exact absurd h (by simp [Seg.outcome])
  | peek dst nsec =>
    simp only [enter] at h
    split at h
    next => exact congrArg some (recheck_slept (.inr (.inr rfl)) h).symm
    next => exact absurd h (by simp [Seg.outcome])
  | clear freeValues =>
    simp only [enter, clear] at h
    split at h <;> exact absurd h (by simp [Seg.outcome])
  | shutdown freeValues =>
    simp only [enter, shutdown] at h
    split at h
    next => split at h <;> exact absurd h (by simp [Seg.outcome])
    next => exact absurd h (by simp [Seg.outcome])
  | size => exact absurd h (by simp [enter, query, Seg.outcome])
  | remainingCapacity => exact absurd h (by simp [enter, query, Seg.outcome])
  | maxCapacity => exact absurd h (by simp [enter, query, Seg.outcome])
  | isFull retptr =>
    simp only [enter, flagQuery] at h
    split at h
    next => split at h <;> exact absurd h (by simp [Seg.outcome])
    next => exact absurd h (by simp [Seg.outcome])
  | isEmpty retptr =>
    simp only [enter, flagQuery] at h
    split at h
    next => split at h <;> exact absurd h (by simp [Seg.outcome])
    next => exact absurd h (by simp [Seg.outcome])
  | isOperational retptr =>
    simp only [enter] at h
    split at h <;> exact absurd h (by simp [Seg.outcome])
  | setupForQmuxer qmx type isPre => exact absurd h (by simp [enter, Seg.outcome])

/-- Back at `recheck`, the timeout is what it was. -/
theorem resume_slept {k' : Cont} {w : Wakeup} (h : (resume cb k w).outcome = .slept k' cnd) :
    k'.nsec = k.nsec := by
  cases w with
  | signaled =>
    cases k with
    | put v nsec => exact recheck_slept (.inl ⟨v, rfl⟩) h
    | get nsec => exact recheck_slept (.inr (.inl rfl)) h
    | peek nsec => exact recheck_slept (.inr (.inr rfl)) h
  | timedout => exact absurd h (by simp [resume, Seg.outcome])
  | failed => exact absurd h (by simp [resume, Seg.outcome])

/-- **Each wait of a call is given the whole of `nsec`.** -/
theorem code_restarts : Restarts code Cont.nsec Call.nsec where
  enter _ _ _ _ h := enter_slept h
  resume _ _ _ _ _ h := resume_slept h

/-! ## §2. The waits of a call. -/

variable {τ : Type} [DecidableEq τ]

/-- The waits for which mccp_cond_wait() is called in the call that thread `t`
makes at the beginning of the history. -/
def waits (t : τ) (h : List (Timed τ Call Cont Ret Cond Stop Int)) : List (Wait Int) :=
  sleeps t Cont.nsec none h

/-- **The timeouts of a put, a get or a peek keep to `nsec` together exactly
when no wait of the call but its last one takes any time**, whatever the other
threads do meanwhile. -/
theorem recheck_budget_iff {s s' : State τ Record Cont Cond} {t : τ} {c : Call} {nsec : Int}
    {l : Timed τ Call Cont Ret Cond Stop Int} {h : List (Timed τ Call Cont Ret Cond Stop Int)}
    {o : Outcome Cont Ret Cond Stop} (hc : c.nsec = some nsec) (hl : l.label = .seg t (.enter c) o)
    (hrun : Run (Step code) s ((l :: h).map Timed.label) s') (hno : NoCall t h)
    (hchron : Chronological l.time h) :
    (∀ before w after, waits t (l :: h) = before ++ w :: after →
      w.allowed ≤ nsec - spent before) ↔
    IdleBut 1 (waits t (l :: h)) := by
  rw [← paced_iff (r := (· ≤ ·))]
  exact code_restarts.within_iff hc hl hrun hno hchron

/-- Thread 0 gets with a timeout of 10 from an empty buffer of one slot; thread 1
puts, and thread 2 takes the value before thread 0 has the lock again. -/
def outrun : List (Action Nat Call) :=
  [.call 0 (.get (some 1) 10), .call 1 (.put (some [7]) (-1)), .call 2 (.get (some 1) (-1)),
    .resume 0]

/-- What is seen of it, at these times. -/
def outrunAt (a b c d : Int) : List (Timed Nat Call Cont Ret Cond Stop Int) :=
  [⟨a, .seg 0 (.enter (.get (some 1) 10)) (.slept (.get 10) .get)⟩,
    ⟨b, .seg 1 (.enter (.put (some [7]) (-1))) (.returned { result := .ok })⟩,
    ⟨c, .seg 2 (.enter (.get (some 1) (-1))) (.returned { result := .ok, val := some [7] })⟩,
    ⟨d, .seg 0 (.resume (.get 10) .signaled) (.slept (.get 10) .get)⟩]

theorem outrun_run (a b c d : Int) :
    ∃ s, Run (Step code) (State.init Nat (newRecord 1 1 false ⟨106, fun _ => 0⟩))
      ((outrunAt a b c d).map Timed.label) s := by
  have hrun : ∃ s, exec (next code) (State.init Nat (newRecord 1 1 false ⟨106, fun _ => 0⟩))
      outrun = some ((outrunAt a b c d).map Timed.label, s) := ⟨_, rfl⟩
  obtain ⟨s, hexec⟩ := hrun
  exact ⟨s, run_of_exec hexec⟩

/-- Outrun in no time, the call has its whole timeout left. -/
theorem recheck_budget_outrun_at_once :
    (∃ s, Run (Step code) (State.init Nat (newRecord 1 1 false ⟨106, fun _ => 0⟩))
      ((outrunAt 3 3 3 3).map Timed.label) s) ∧
    ∀ before w after, waits 0 (outrunAt 3 3 3 3) = before ++ w :: after →
      w.allowed ≤ 10 - spent before := by
  obtain ⟨s, hrun⟩ := outrun_run 3 3 3 3
  refine ⟨⟨s, hrun⟩, ?_⟩
  refine (recheck_budget_iff (c := .get (some 1) 10) rfl rfl hrun ?_ ?_).mpr ?_
  · intro l hl c o
    rcases List.mem_cons.mp hl with rfl | hl
    · exact fun h => absurd h (by simp)
    · rcases List.mem_cons.mp hl with rfl | hl
      · exact fun h => absurd h (by simp)
      · rw [List.mem_singleton.mp hl]
        exact fun h => absurd h (by simp)
  · simp [Chronological]
  · exact ⟨fun _ => rfl, fun h => absurd h (by simp), trivial⟩

/-- Outrun after 8 of its 10, the call sleeps for another 10. -/
theorem outrun_get_restarts :
    ∃ (cb : Record) (s : State Nat Record Cont Cond),
      createWithSize roomy 1 1 false = .ok (.ok, some cb) ∧
      Run (Step code) (State.init Nat cb) ((outrunAt 0 7 7 8).map Timed.label) s ∧
      waits 0 (outrunAt 0 7 7 8) = [{ allowed := 10, taken := 8 }, { allowed := 10, taken := 0 }] ∧
      ¬ ∀ before w after, waits 0 (outrunAt 0 7 7 8) = before ++ w :: after →
        w.allowed ≤ 10 - spent before := by
  obtain ⟨s, hrun⟩ := outrun_run 0 7 7 8
  refine ⟨_, s, rfl, hrun, rfl, fun h => ?_⟩
  have hsecond := h [{ allowed := 10, taken := 8 }] { allowed := 10, taken := 0 } [] rfl
  exact absurd hsecond (by decide)

end Mccp.Cbuffer
