/-
  Mccp.Lib.Reasons
  ────────────────
  **THE WAIT-SET RULE, WITH A REASON OF THE SLEEPER'S OWN.**

  In `Monitor.Signals` the reason to wait belongs to the condition.  Where one
  condition serves sleepers that wait for different things, it belongs to what
  the sleeper still has to do: `B k c s` says that continuation `k` has a
  reason to sleep on `c` in state `s`.

      Reasoned       — every sleeper of a wait set has its reason
      Reasoned.notify — a change that ends only the reasons it notifies
      Justified.run  — THE RULE: in every reachable state of a monitor whose
                       segments are so, every sleeper has its reason

  The first two know of wait sets only, so that a system which keeps its
  threads in its own way can use them too.
-/
import Mccp.Lib.Monitor

namespace Monitor

open Transition

variable {τ σ Call K R C H : Type}

/-! ## §1. Wait sets. -/

/-- Every sleeper has its reason. -/
def Reasoned (B : K → C → σ → Prop) (s : σ) (thread : τ → Thread K C) : Prop :=
  ∀ t k c, thread t = .waiting k c → B k c s

variable {B : K → C → σ → Prop} {s s' : σ} {thread : τ → Thread K C}

theorem Reasoned.idle : Reasoned (τ := τ) B s (fun _ => .idle) := by
  intro t k c h
  exact absurd h (by simp)

/-- A change that notifies the conditions of all reasons it ends. -/
theorem Reasoned.notify [DecidableEq C] (h : Reasoned B s thread) {ns : List C}
    (hB : ∀ k c, B k c s → c ∉ ns → B k c s') : Reasoned B s' (broadcast ns thread) := by
  intro t k c hw
  obtain ⟨hwaits, hc⟩ := broadcast_waiting hw
  exact hB k c (h t k c hwaits) hc

/-- A change without a notification, which ends no reason. -/
theorem Reasoned.mono (h : Reasoned B s thread) (hB : ∀ k c, B k c s → B k c s') :
    Reasoned B s' thread :=
  fun t k c hw => hB k c (h t k c hw)

/-- One thread moves; where it goes to sleep, it has its reason. -/
theorem Reasoned.move [DecidableEq τ] (h : Reasoned B s thread) {t : τ} {th : Thread K C}
    (hth : ∀ k c, th = .waiting k c → B k c s) : Reasoned B s (Function.update thread t th) := by
  intro u k c hu
  by_cases hut : u = t
  · subst hut
    rw [Function.update_self] at hu
    exact hth k c hu
  · rw [Function.update_of_ne hut] at hu
    exact h u k c hu

/-- Who does not sleep has nothing to show. -/
theorem Reasoned.leave [DecidableEq τ] (h : Reasoned B s thread) {t : τ} {th : Thread K C}
    (hth : ∀ k c, th ≠ .waiting k c) : Reasoned B s (Function.update thread t th) :=
  h.move fun k c heq => absurd heq (hth k c)

/-! ## §2. Monitors. -/

/-- A segment started in `s` sleeps only for a reason, and notifies the
condition of every reason it ends. -/
def Seg.Respects (B : K → C → σ → Prop) (s : σ) : Seg σ K R C H → Prop
  | .ret s' _ ns => ∀ k c, B k c s → c ∉ ns → B k c s'
  | .wait s' k₀ c₀ ns => B k₀ c₀ s' ∧ ∀ k c, B k c s → c ∉ ns → B k c s'
  | .halt _ => True

/-- Every segment respects the reasons. -/
def Justified (code : Code σ Call K R C H) (B : K → C → σ → Prop) : Prop :=
  ∀ s i, (code.seg s i).Respects B s

variable {code : Code σ Call K R C H} [DecidableEq τ] [DecidableEq C]

/-- **One step keeps every sleeper's reason.** -/
theorem Justified.step (hj : Justified code B) {s s' : State τ σ K C} {l : Label τ Call K R C H}
    (h : Reasoned B s.shared s.thread) (hstep : Step code s l s') :
    Reasoned B s'.shared s'.thread := by
  obtain ⟨-, ⟨t, i, -, -, rfl⟩ | ⟨t, w, k, c, -, -, -, rfl⟩⟩ := step_cases hstep
  · have hseg := hj s.shared i
    revert hseg
    cases code.seg s.shared i with
    | ret s₁ r ns =>
      intro hseg
      exact (h.notify hseg).leave (by simp)
    | wait s₁ k₀ c₀ ns =>
      intro hseg
      refine (h.notify hseg.2).move fun k c heq => ?_
      injection heq with hk hc
      subst hk hc
      exact hseg.1
    | halt h₀ => exact fun _ => h
  · exact h.leave (by simp)

/-- **THE RULE**: in every reachable state, every sleeper has its reason. -/
theorem Justified.run (hj : Justified code B) {s₀ : σ} {s : State τ σ K C}
    {ls : List (Label τ Call K R C H)} (hrun : Run (Step code) (State.init τ s₀) ls s) :
    Reasoned B s.shared s.thread :=
  hrun.invariant_history (fun _ s => Reasoned B s.shared s.thread)
    (fun _ _ _ _ _ h hstep => hj.step h hstep) Reasoned.idle

end Monitor
