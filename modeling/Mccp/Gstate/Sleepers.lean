/-
  Mccp.Gstate.Sleepers
  ────────────────────
  **NOBODY SLEEPS THROUGH A CHANGE OF THE GLOBAL STATE.**

  One condition serves everybody: whoever waits for some state, and whoever
  has requested the shutdown and waits until it is accepted.  A set and a
  recorded request notify it, a reset does not.  Still nobody is left in the
  wait set without a reason of his own, since a reset only moves the state
  further away from what he waits for; and once the shutdown is accepted the
  wait set is empty for good.

      Reason            — what a sleeper waits for
      code_justified    — every segment respects it
      seg_never_sleeps  — no segment sleeps once the shutdown is accepted
      sleepers_have_reason — both, over all runs
-/
import Mccp.Gstate.Tracker
import Mccp.Lib.Reasons

namespace Mccp.Gstate

open Monitor Transition

/-! ## §1. The reasons. -/

/-- **What a sleeper waits for**: a later state, or the end of a request. -/
def Reason (k : Cont) (_ : Cond) (g : Tracker) : Prop :=
  g.gs.isShutdown = false ∧ ∀ w, k = .waitFor w → g.gs.num < w.waitFor.num

/-- A segment that notifies everybody only has to have a reason itself. -/
theorem respects_all {g g' : Tracker} {k : Cont} (h : Reason k .cond g') :
    (Seg.wait g' k .cond [.cond] : Segment).Respects Reason g := by
  refine ⟨h, ?_⟩
  intro _ c _ hc
  cases c
  exact absurd (List.mem_singleton.mpr rfl) hc

theorem waitForRecheck_respects (g : Tracker) (w : WaitFor) :
    (waitForRecheck g w).Respects Reason g := by
  unfold waitForRecheck
  split
  next h =>
    refine ⟨⟨h.2, ?_⟩, fun _ _ hB _ => hB⟩
    intro w' heq
    injection heq with heq
    exact heq ▸ h.1
  next => exact fun _ _ hB _ => hB

theorem requestRecheck_respects (g : Tracker) (ret : Result) :
    (requestRecheck g ret []).Respects Reason g := by
  unfold requestRecheck
  split
  next h => exact ⟨⟨h, fun w heq => absurd heq (by simp)⟩, fun _ _ hB _ => hB⟩
  next => exact fun _ _ hB _ => hB

theorem requestShutdown_respects (g : Tracker) (l : GraceLevel) :
    (requestShutdown g l).Respects Reason g := by
  unfold requestShutdown
  split
  · split
    · split
      · exact respects_all ⟨rfl, fun w heq => absurd heq (by simp)⟩
      · exact fun _ _ hB _ => hB
    · exact fun _ _ hB _ => hB
  · exact fun _ _ hB _ => hB

theorem set_respects (g : Tracker) (s : GlobalState) : (set g s).Respects Reason g := by
  unfold set
  split
  · split
    · intro _ c _ hc
      cases c
      exact absurd (List.mem_singleton.mpr rfl) hc
    · exact fun _ _ hB _ => hB
  · exact fun _ _ hB _ => hB

/-- A reset notifies nobody, and ends nobody's reason. -/
theorem reset_respects (g : Tracker) :
    (code.seg g (.enter .reset)).Respects Reason g := by
  intro k _ hB _
  refine ⟨rfl, fun w hk => ?_⟩
  exact Nat.lt_of_le_of_lt (Nat.zero_le _) (hB.2 w hk)

/-- **Every segment respects the reasons.** -/
theorem code_justified : Justified code Reason := by
  intro g i
  cases i with
  | enter c =>
    cases c with
    | set s => exact set_respects g s
    | get sptr =>
      show (get g sptr).Respects Reason g
      unfold get
      split <;> exact fun _ _ hB _ => hB
    | waitFor w =>
      show (waitFor g w).Respects Reason g
      unfold waitFor
      split
      · exact waitForRecheck_respects g w
      · exact fun _ _ hB _ => hB
    | requestShutdown l => exact requestShutdown_respects g l
    | reset => exact reset_respects g
  | resume k w =>
    cases w with
    | signaled =>
      cases k with
      | waitFor w => exact waitForRecheck_respects g w
      | requestShutdown => exact requestRecheck_respects g .ok
    | timedout => exact fun _ _ hB _ => hB
    | failed => exact fun _ _ hB _ => hB

/-! ## §2. After the shutdown has been accepted. -/

variable {g : Tracker} {i : Input Call Cont}

theorem waitForRecheck_returns (hdown : g.gs.isShutdown = true) (w : WaitFor) (k : Cont)
    (c : Cond) : (waitForRecheck g w).outcome ≠ .slept k c := by
  unfold waitForRecheck
  rw [if_neg (by simp [hdown])]
  simp [Seg.outcome]

/-- **No segment sleeps** once the shutdown is accepted. -/
theorem seg_never_sleeps (hdown : g.gs.isShutdown = true) (k : Cont) (c : Cond) :
    (code.seg g i).outcome ≠ .slept k c := by
  cases i with
  | enter call =>
    cases call with
    | set s =>
      show (set g s).outcome ≠ _
      unfold set
      split
      · split <;> simp [Seg.outcome]
      · simp [Seg.outcome]
    | get sptr =>
      show (get g sptr).outcome ≠ _
      unfold get
      split <;> simp [Seg.outcome]
    | waitFor w =>
      show (waitFor g w).outcome ≠ _
      unfold waitFor
      split
      · exact waitForRecheck_returns hdown w k c
      · simp [Seg.outcome]
    | requestShutdown l =>
      show (requestShutdown g l).outcome ≠ _
      unfold requestShutdown
      -- the request finds the shutdown accepted already
      split
      · rw [if_neg (by simp [hdown])]
        simp [Seg.outcome]
      · simp [Seg.outcome]
    | reset => simp [code, enter, Seg.outcome]
  | resume k' w =>
    cases w with
    | signaled =>
      cases k' with
      | waitFor w => exact waitForRecheck_returns hdown w k c
      | requestShutdown =>
        show (requestRecheck g .ok []).outcome ≠ _
        unfold requestRecheck
        rw [if_neg (by simp [hdown])]
        simp [Seg.outcome]
    | timedout => simp [code, resume, Seg.outcome]
    | failed => simp [code, resume, Seg.outcome]

/-- Without a reset, an accepted shutdown stays accepted. -/
theorem isShutdown_forward (hi : i ≠ .enter .reset) (hdown : g.gs.isShutdown = true) :
    ((code.seg g i).stateOr g).gs.isShutdown = true := by
  have hle := seg_forward (g := g) hi
  simp only [GlobalState.isShutdown, decide_eq_true_eq] at hdown ⊢
  omega

variable {τ : Type} [DecidableEq τ] {s : State τ Tracker Cont Cond}

/-- Without a reset, no step of a run from an accepted shutdown on sleeps. -/
theorem never_sleeps_run {ls : List (Obs τ)} {s' : State τ Tracker Cont Cond}
    (hrun : Run (Step code) s ls s') (hdown : s.shared.gs.isShutdown = true) (hls : NoReset ls) :
    s'.shared.gs.isShutdown = true ∧ ∀ t i k c, (.seg t i (.slept k c) : Obs τ) ∉ ls := by
  induction hrun with
  | nil => exact ⟨hdown, fun _ _ _ _ hmem => absurd hmem (by simp)⟩
  | @cons s u s' l ls hstep _ ih =>
    have hnot : ∀ t o, l ≠ .seg t (.enter .reset) o := by
      intro t o heq
      exact hls t o (heq ▸ List.mem_cons_self)
    have hu : u.shared.gs.isShutdown = true ∧ ∀ t i k c, l ≠ .seg t i (.slept k c) := by
      obtain ⟨-, ⟨t, i, -, rfl, rfl⟩ | ⟨t, w, k, c, -, -, rfl, rfl⟩⟩ := step_cases hstep
      · constructor
        · rw [State.after_shared]
          refine isShutdown_forward ?_ hdown
          intro hi
          subst hi
          exact hnot t _ rfl
        · intro t' i' k c heq
          injection heq with _ _ ho
          exact seg_never_sleeps hdown k c ho
      · exact ⟨hdown, fun _ _ _ _ => by simp⟩
    obtain ⟨hdown', hrest⟩ := ih hu.1 fun t o hmem => hls t o (List.mem_cons_of_mem _ hmem)
    refine ⟨hdown', ?_⟩
    intro t i k c hmem
    rcases List.mem_cons.mp hmem with heq | hmem
    · exact hu.2 t i k c heq.symm
    · exact hrest t i k c hmem

/-- **No lost wake-up in the global state tracker.**  In every reachable state,
resets or not, whoever sleeps has a reason to; and from the acceptance of the
shutdown on, without a reset, nobody is asleep and nobody falls asleep. -/
theorem sleepers_have_reason {ls : List (Obs τ)}
    (hrun : Run (Step code) (State.init τ Tracker.initial) ls s) :
    (∀ t k c, s.thread t = .waiting k c → Reason k c s.shared) ∧
    (s.shared.gs.isShutdown = true → ∀ ms u, Run (Step code) s ms u → NoReset ms →
      (∀ t k c, u.thread t ≠ .waiting k c) ∧
      ∀ t i k c, (.seg t i (.slept k c) : Obs τ) ∉ ms) := by
  refine ⟨code_justified.run hrun, ?_⟩
  intro hdown ms u hlater hms
  obtain ⟨hdown', hnone⟩ := never_sleeps_run hlater hdown hms
  refine ⟨?_, hnone⟩
  intro t k c hwait
  have hopen := (code_justified.run (hrun.append hlater) t k c hwait).1
  rw [hdown'] at hopen
  exact absurd hopen (by decide)

/-- Thread 0 sleeps until STARTED, through a reset by thread 1, and is woken when
thread 1 goes straight to the shutdown. -/
theorem sleepers_have_reason_reset : ∃ (ls ms : List (Obs Nat)) (s u : State Nat Tracker Cont Cond),
    Run (Step code) (State.init Nat Tracker.initial) ls s ∧ Run (Step code) s ms u ∧
    (∀ w, s.thread 0 = .waiting (.waitFor w) .cond → s.shared.gs.num < w.waitFor.num) ∧
    s.thread 0 = .waiting (.waitFor ⟨.started, true, true, -1⟩) .cond ∧
    ∀ t k c, u.thread t ≠ .waiting k c := by
  have hrun : ∃ p, exec (next code) (State.init Nat Tracker.initial)
      [.call 0 (.waitFor ⟨.started, true, true, -1⟩), .call 1 .reset] = some p ∧
      p.2.thread 0 = .waiting (.waitFor ⟨.started, true, true, -1⟩) .cond ∧
      ∃ q, exec (next code) p.2 [.call 1 (.set .shuttingdown)] = some q ∧
        q.2.shared.gs.isShutdown = true := ⟨_, rfl, rfl, _, rfl, rfl⟩
  obtain ⟨⟨ls, s⟩, hexec, hwait, ⟨ms, u⟩, hexec', hdown⟩ := hrun
  have hs := run_of_exec hexec
  have hu := run_of_exec hexec'
  refine ⟨ls, ms, s, u, hs, hu, ?_, hwait, ?_⟩
  · intro w hw
    exact ((sleepers_have_reason hs).1 0 _ _ hw).2 w rfl
  · have hafter := (sleepers_have_reason (hs.append hu)).2 hdown [] u (.nil u)
    exact (hafter fun _ _ hmem => absurd hmem (by simp)).1

end Mccp.Gstate
