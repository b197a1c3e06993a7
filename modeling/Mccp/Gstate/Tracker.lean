/-
  Mccp.Gstate.Tracker
  ───────────────────
  **THE GLOBAL STATE OF gstate.c, AS THE CODE COMPUTES IT.**

  One state for the whole process, which only moves forward, one grace level
  for its shutdown, one lock and one condition.  `code` is the tracker as a
  monitor: setting, waiting for a state, and the shutdown request, which
  sleeps until somebody accepts it.

      GlobalState.num — the enumeration's numbers; the code compares these
      waitForRecheck  — mccp_global_state_wait_for() from `recheck` on
      code            — the calls, as segments of a monitor
-/
import Mccp.Lib.Monitor
import Mccp.Result

namespace Mccp.Gstate

open Monitor

/-! ## §1. States and grace levels. -/

/-- `mccp_global_state_t`. -/
inductive GlobalState where
  | unknown
  | initializing
  | initialized
  | starting
  | started
  | requestShutdown
  | acceptShutdown
  | shuttingdown
  | shutdown
  | finalizing
  | finalized
  deriving DecidableEq, Repr

/-- The numbers of the enumeration. -/
def GlobalState.num : GlobalState → Nat
  | .unknown => 0
  | .initializing => 1
  | .initialized => 2
  | .starting => 3
  | .started => 4
  | .requestShutdown => 5
  | .acceptShutdown => 6
  | .shuttingdown => 7
  | .shutdown => 8
  | .finalizing => 9
  | .finalized => 10

/-- `IS_VALID_MCCP_GLOBAL_STATE`. -/
def GlobalState.isValid (s : GlobalState) : Bool :=
  decide (GlobalState.unknown.num < s.num ∧ s.num ≤ GlobalState.finalized.num)

/-- `IS_MCCP_GLOBAL_STATE_SHUTDOWN`. -/
def GlobalState.isShutdown (s : GlobalState) : Bool :=
  decide (GlobalState.acceptShutdown.num ≤ s.num)

/-- `shutdown_grace_level_t`. -/
inductive GraceLevel where
  | unknown
  | rightNow
  | gracefully
  deriving DecidableEq, Repr

/-- `IS_VALID_SHUTDOWN`. -/
def GraceLevel.isValid : GraceLevel → Bool
  | .unknown => false
  | .rightNow => true
  | .gracefully => true

/-- `s_gs` and `s_gl`. -/
structure Tracker where
  gs : GlobalState
  gl : GraceLevel
  deriving DecidableEq, Repr

/-- The tracker before any call. -/
def Tracker.initial : Tracker where
  gs := .unknown
  gl := .unknown

/-- `s_is_valid_state`: the state transition is one way only. -/
def sIsValidState (g : Tracker) (s : GlobalState) : Bool := decide (g.gs.num ≤ s.num)

/-! ## §2. Calls and segments. -/

/-- What mccp_global_state_wait_for() was asked: the state, which pointers are
given, and for how long. -/
structure WaitFor where
  waitFor : GlobalState
  curS : Bool
  curG : Bool
  nsec : Int
  deriving DecidableEq, Repr

/-- The calls. -/
inductive Call where
  | set (s : GlobalState)
  | get (sptr : Bool)
  | waitFor (w : WaitFor)
  | requestShutdown (l : GraceLevel)
  | reset
  deriving DecidableEq, Repr

/-- `mccp_global_state_wait_for_shutdown_request`. -/
def Call.waitForShutdownRequest (curG : Bool) (nsec : Int) : Call :=
  .waitFor { waitFor := .requestShutdown, curS := false, curG := curG, nsec := nsec }

/-- What a sleeping call still has to do. -/
inductive Cont where
  | waitFor (w : WaitFor)
  | requestShutdown
  deriving DecidableEq, Repr

/-- What a call returns, and what it stored at its pointers. -/
structure Ret where
  result : Result
  curS : Option GlobalState := none
  curG : Option GraceLevel := none
  deriving DecidableEq, Repr

/-- The one condition of the tracker. -/
inductive Cond where
  | cond
  deriving DecidableEq, Repr

/-- The segments of this monitor; no call stops the process. -/
abbrev Segment := Seg Tracker Cont Ret Cond Empty

/-- `mccp_global_state_set`. -/
def set (g : Tracker) (s : GlobalState) : Segment :=
  if s.isValid then
    if sIsValidState g s then .ret { g with gs := s } { result := .ok } [.cond]
    else .ret g { result := .invalidStateTransition } []
  else .ret g { result := .invalidArgs } []

/-- `mccp_global_state_get`. -/
def get (g : Tracker) (sptr : Bool) : Segment :=
  if sptr then .ret g { result := .ok, curS := some g.gs } []
  else .ret g { result := .invalidArgs } []

/-- `mccp_global_state_wait_for` from `recheck` on. -/
def waitForRecheck (g : Tracker) (w : WaitFor) : Segment :=
  if g.gs.num < w.waitFor.num ∧ g.gs.isShutdown = false then .wait g (.waitFor w) .cond []
  else
    let ret : Result :=
      if w.waitFor.num ≤ g.gs.num then .ok
      else if g.gs.isShutdown = true ∧ w.waitFor.isShutdown = false then .notOperational
      else .ok
    .ret g {
      result := ret
      curS := if w.curS then some g.gs else none
      curG := if w.curG then some g.gl else none } []

/-- `mccp_global_state_wait_for`. -/
def waitFor (g : Tracker) (w : WaitFor) : Segment :=
  if w.waitFor.isValid then waitForRecheck g w else .ret g { result := .invalidArgs } []

/-- `mccp_global_state_request_shutdown` from `recheck` on; `ret` is what the
last wait returned. -/
def requestRecheck (g : Tracker) (ret : Result) (notify : List Cond) : Segment :=
  if g.gs.isShutdown = false then .wait g .requestShutdown .cond notify
  else .ret g { result := ret } notify

/-- `mccp_global_state_request_shutdown`. -/
def requestShutdown (g : Tracker) (l : GraceLevel) : Segment :=
  if l.isValid then
    if g.gs.isShutdown = false ∧ g.gs ≠ .requestShutdown then
      if sIsValidState g .requestShutdown then
        requestRecheck { gs := .requestShutdown, gl := l } .anyFailures [.cond]
      else .ret g { result := .invalidStateTransition } []
    else .ret g { result := .anyFailures } []
  else .ret g { result := .invalidArgs } []

/-- The first segment of each call. -/
def enter (g : Tracker) : Call → Segment
  | .set s => set g s
  | .get sptr => get g sptr
  | .waitFor w => waitFor g w
  | .requestShutdown l => requestShutdown g l
  | .reset => .ret { g with gs := .unknown } { result := .ok } []

/-- The result of a wait that did not succeed. -/
def waitError : Wakeup → Result
  | .signaled => .ok
  | .timedout => .timedout
  | .failed => .posixApiError

/-- The segment after a wait. -/
def resume (g : Tracker) (k : Cont) (w : Wakeup) : Segment :=
  match w with
  | .signaled =>
      match k with
      | .waitFor w => waitForRecheck g w
      | .requestShutdown => requestRecheck g .ok []
  | w => .ret g { result := waitError w } []

/-- Whether a sleeping call has a deadline. -/
def Cont.hasDeadline : Cont → Bool
  | .waitFor w => decide (0 ≤ w.nsec)
  | .requestShutdown => false

/-- **The tracker as a monitor.** -/
def code : Code Tracker Call Cont Ret Cond Empty where
  seg g
    | .enter c => enter g c
    | .resume k w => resume g k w
  mayEnd k w := w ≠ .timedout ∨ k.hasDeadline

/-- The observations of the tracker. -/
abbrev Obs (τ : Type) := Label τ Call Cont Ret Cond Empty

/-! ## §3. What a segment does to the tracker. -/

/-- The grace level a step recorded: a request that found the shutdown not yet
requested stores its level, and sleeps. -/
def recorded {τ : Type} : Obs τ → Option GraceLevel
  | .seg _ (.enter (.requestShutdown l)) (.slept _ _) => some l
  | _ => none

/-- The state is never reset. -/
def NoReset {τ : Type} (ls : List (Obs τ)) : Prop := ∀ t o, .seg t (.enter .reset) o ∉ ls

theorem GlobalState.isShutdown_eq_false {s : GlobalState} :
    s.isShutdown = false ↔ s.num < GlobalState.acceptShutdown.num := by
  rw [GlobalState.isShutdown, decide_eq_false_iff_not, Nat.not_le]

/-- A test of the state leaves the tracker as it is. -/
theorem waitForRecheck_stateOr (g : Tracker) (w : WaitFor) :
    (waitForRecheck g w).stateOr g = g := by
  unfold waitForRecheck
  split <;> rfl

variable {τ : Type} {g : Tracker} {i : Input Call Cont}

/-- **Inversion**: without a reset, a segment leaves the tracker as it is, or
moves the state forward by a set, or records a request that comes first. -/
theorem seg_cases (hi : i ≠ .enter .reset) (t : τ) :
    ((code.seg g i).stateOr g = g ∧ recorded (.seg t i (code.seg g i).outcome : Obs τ) = none ∧
      ∀ s r, i = .enter (.set s) → (code.seg g i).outcome = .returned r → r.result ≠ .ok) ∨
    (∃ s, i = .enter (.set s) ∧ g.gs.num ≤ s.num ∧ (code.seg g i).stateOr g = { g with gs := s } ∧
      (code.seg g i).outcome = .returned { result := .ok }) ∨
    (∃ l, i = .enter (.requestShutdown l) ∧ l.isValid = true ∧
      g.gs.num < GlobalState.requestShutdown.num ∧
      (code.seg g i).stateOr g = { gs := .requestShutdown, gl := l } ∧
      (code.seg g i).outcome = .slept .requestShutdown .cond) := by
  cases i with
  | enter c =>
    cases c with
    | set s =>
      show ((set g s).stateOr g = g ∧ _) ∨ _
      by_cases hv : s.isValid = true
      · by_cases hle : g.gs.num ≤ s.num
        · have hset : set g s = .ret { g with gs := s } { result := .ok } [.cond] := by
            rw [set, if_pos hv, sIsValidState, if_pos (decide_eq_true hle)]
          refine .inr (.inl ⟨s, rfl, hle, ?_, ?_⟩)
          · exact congrArg (Seg.stateOr g) hset
          · exact congrArg Seg.outcome hset
        · have hset : set g s = .ret g { result := .invalidStateTransition } [] := by
            rw [set, if_pos hv, sIsValidState, if_neg (by simpa using hle)]
          refine .inl ⟨congrArg (Seg.stateOr g) hset, rfl, ?_⟩
          intro _ r _ hr
          obtain rfl := Outcome.returned.inj ((congrArg Seg.outcome hset).symm.trans hr)
          decide
      · have hset : set g s = .ret g { result := .invalidArgs } [] := by
          rw [set, if_neg hv]
        refine .inl ⟨congrArg (Seg.stateOr g) hset, rfl, ?_⟩
        intro _ r _ hr
        obtain rfl := Outcome.returned.inj ((congrArg Seg.outcome hset).symm.trans hr)
        decide
    | get sptr =>
      refine .inl ⟨?_, rfl, fun _ _ hset => absurd hset (by simp)⟩
      show (get g sptr).stateOr g = g
      unfold get
      split <;> rfl
    | waitFor w =>
      refine .inl ⟨?_, rfl, fun _ _ hset => absurd hset (by simp)⟩
      show (waitFor g w).stateOr g = g
      unfold waitFor
      split
      · exact waitForRecheck_stateOr g w
      · rfl
    | requestShutdown l =>
      show ((requestShutdown g l).stateOr g = g ∧
        recorded (.seg t (.enter (.requestShutdown l)) (requestShutdown g l).outcome : Obs τ)
          = none ∧ _) ∨ _
      by_cases hv : l.isValid = true
      · by_cases hnew : g.gs.isShutdown = false ∧ g.gs ≠ .requestShutdown
        · -- not requested and not accepted: the state is an earlier one
          have hlt : g.gs.num < GlobalState.requestShutdown.num := by
            have hopen := GlobalState.isShutdown_eq_false.mp hnew.1
            have hne := hnew.2
            revert hopen hne
            cases g.gs <;> decide
          have hseg : requestShutdown g l =
              .wait { gs := .requestShutdown, gl := l } .requestShutdown .cond [.cond] := by
            rw [requestShutdown, if_pos hv, if_pos hnew, sIsValidState,
              if_pos (decide_eq_true (Nat.le_of_lt hlt)), requestRecheck]
            rfl
          refine .inr (.inr ⟨l, rfl, hv, hlt, ?_, ?_⟩)
          · exact congrArg (Seg.stateOr g) hseg
          · exact congrArg Seg.outcome hseg
        · refine .inl ?_
          rw [requestShutdown, if_pos hv, if_neg hnew]
          exact ⟨rfl, rfl, fun _ _ hset => absurd hset (by simp)⟩
      · refine .inl ?_
        rw [requestShutdown, if_neg hv]
        exact ⟨rfl, rfl, fun _ _ hset => absurd hset (by simp)⟩
    | reset => exact absurd rfl hi
  | resume k w =>
    -- who wakes up writes nothing
    refine .inl ⟨?_, rfl, fun _ _ hset => absurd hset (by simp)⟩
    show (resume g k w).stateOr g = g
    cases w with
    | signaled =>
      cases k with
      | waitFor w => exact waitForRecheck_stateOr g w
      | requestShutdown =>
        show (requestRecheck g .ok []).stateOr g = g
        unfold requestRecheck
        split <;> rfl
    | timedout => rfl
    | failed => rfl

/-- **The state never decreases.** -/
theorem seg_forward (hi : i ≠ .enter .reset) :
    g.gs.num ≤ ((code.seg g i).stateOr g).gs.num := by
  obtain ⟨hsame, -⟩ | ⟨s, -, hle, hset, -⟩ | ⟨l, -, -, hlt, hreq, -⟩ := seg_cases hi ()
  · exact Nat.le_of_eq (congrArg (fun g => g.gs.num) hsame.symm)
  · rw [hset]
    exact hle
  · rw [hreq]
    exact Nat.le_of_lt hlt

end Mccp.Gstate
