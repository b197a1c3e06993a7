/-
  Mccp.Qmuxer.Passes
  ──────────────────
  **A PASS AMONG OTHER THREADS IS A CALL OF s_qmx_setup_for_poll().**

  A pass of a poller goes on object by object, with steps of all other threads
  in between.  What it comes to is what the function computes from the queues
  that the pass has met, each in the state of the run when the pass came to it.

      Pass.finish      — what is left of a pass, as the function computes it
      passStep_follows — one object of a pass is one round of the loop
      pass_is_setup    — a whole pass, in every run
-/
import Mccp.Qmuxer.Ready
import Mccp.Qmuxer.Results

namespace Mccp.Qmuxer

open Cbuffer Monitor Transition

variable {τ Q : Type}

/-! ## §1. The rest of a pass. -/

/-- The loop looks at no object before the one it begins with. -/
theorem setupLoop_congr {met met' : Nat → Q → Record} {i : Nat}
    (h : ∀ j, i ≤ j → met j = met' j) (qmx : Qmuxer) (isPre : Bool) (nev : Int) (nNulls : Nat)
    (polls : List (Option (Poll Q))) :
    setupLoop met qmx isPre i nev nNulls polls = setupLoop met' qmx isPre i nev nNulls polls := by
  induction polls generalizing i nev nNulls with
  | nil => rfl
  | cons x polls ih =>
    have hrest : ∀ j, i + 1 ≤ j → met j = met' j := fun j hj => h j (by omega)
    cases x with
    | none =>
      unfold setupLoop
      rw [ih hrest]
    | some mp =>
      unfold setupLoop
      rw [h i (Nat.le_refl i)]
      simp only [ih hrest]

/-- The result of a pass and the array it leaves, when it meets the queues `met`
from now on. -/
def Pass.finish (met : Nat → Q → Record) (qmx : Qmuxer) (p : Pass Q) :
    Result × List (Option (Poll Q)) :=
  let (ret, polls) := setupLoop met qmx p.isPre p.seen.length p.nev p.nNulls p.todo
  (ret, p.seen.reverse ++ polls)

theorem finish_congr {met met' : Nat → Q → Record} {p : Pass Q}
    (h : ∀ j, p.seen.length ≤ j → met j = met' j) (qmx : Qmuxer) :
    p.finish met qmx = p.finish met' qmx := by
  unfold Pass.finish
  rw [setupLoop_congr h]

/-- Where a pass over the queues is after one object: in the same pass, or behind
it, with a result and an array. -/
inductive Follows (queue : Q → Record) (c : PollCall Q) (p : Pass Q) : Place Q → Prop
  | goesOn {p' : Pass Q} (hpre : p'.isPre = p.isPre) (hseen : p'.seen.length = p.seen.length + 1)
      (hfinish : ∀ met : Nat → Q → Record, met p.seen.length = queue →
        p'.finish met c.qmx = p.finish met c.qmx) : Follows queue c p (.passing c p')
  | ends {ret : Result} {polls : List (Option (Poll Q))}
      (hfinish : ∀ met : Nat → Q → Record, met p.seen.length = queue →
        p.finish met c.qmx = (ret, polls)) :
      Follows queue c p (afterPass { c with polls := polls } p.isPre ret)

theorem Follows.of_error {queue : Q → Record} {c : PollCall Q} {p : Pass Q} {ret : Result}
    {polls : List (Option (Poll Q))} (hne : ret ≠ 0)
    (hfinish : ∀ met : Nat → Q → Record, met p.seen.length = queue →
      p.finish met c.qmx = (ret, polls)) :
    Follows queue c p (.returning { c with polls := polls } ret) := by
  have hends := Follows.ends hfinish
  unfold afterPass at hends
  rwa [if_neg hne] at hends

variable [DecidableEq τ] [DecidableEq Q] {s s' : System τ Q} {l : Label τ Q} {t : τ}
  {c : PollCall Q} {p : Pass Q} {ls : List (Label τ Q)}

/-- **The step lemma**: one object of a pass is one round of the loop. -/
theorem passStep_follows (s : System τ Q) (t : τ) (c : PollCall Q) (p : Pass Q) :
    Follows s.queue c p ((passStep s t c p).2.place t) := by
  obtain ⟨isPre, seen, todo, nev, nNulls⟩ := p
  cases todo with
  | nil =>
    simp only [passStep, System.move, Function.update_self]
    refine .ends ?_
    intro met _
    simp [Pass.finish, setupLoop, Pass.result, Pass.polls]
  | cons x todo =>
    cases x with
    | none =>
      cases isPre with
      | true =>
        simp only [passStep, if_true, System.move, Function.update_self]
        exact .of_error (by decide) (fun met _ => rfl)
      | false =>
        simp only [passStep, Bool.false_eq_true, if_false, System.move, Function.update_self]
        refine .goesOn rfl rfl ?_
        intro met _
        simp [Pass.finish, setupLoop]
    | some mp =>
      cases hbbq : mp.bbq with
      | none =>
        simp only [passStep, hbbq, System.move, Function.update_self]
        refine .goesOn rfl rfl ?_
        intro met _
        simp [Pass.finish, setupLoop, hbbq]
      | some q =>
        simp only [passStep, hbbq]
        by_cases hbad : isPre = true ∧ (visit (s.queue q) c.qmx mp isPre).2.1 < 0
        · rw [if_pos hbad]
          simp only [System.move, Function.update_self]
          refine .of_error (Int.ne_of_lt hbad.2) ?_
          intro met hmet
          have hqueue : met seen.length q = s.queue q := congrFun hmet q
          obtain ⟨rfl, hneg⟩ := hbad
          simp [Pass.finish, setupLoop, hbbq, hqueue, hneg, Pass.polls]
        · rw [if_neg hbad]
          simp only [System.move, Function.update_self]
          refine .goesOn rfl rfl ?_
          intro met hmet
          have hqueue : met seen.length q = s.queue q := congrFun hmet q
          simp [Pass.finish, setupLoop, hbbq, hqueue, hbad]

/-! ## §2. Passes among other threads. -/

/-- A thread in a pass stays where it is, or goes on by one object. -/
theorem step_passing (h : Step s l s') (hat : s.place t = .passing c p) :
    s'.place t = .passing c p ∨ s'.place t = (passStep s t c p).2.place t := by
  by_cases hl : l.thread = some t
  · rcases step_own h hl with ⟨args, ha⟩ | ha | ⟨w, ha⟩
    · simp only [next, hat] at ha
      exact absurd ha (by simp)
    · simp only [next, hat, Option.some.injEq] at ha
      rw [ha]
      exact .inr rfl
    · simp only [next, hat] at ha
      exact absurd ha (by simp)
  · rcases step_other h hl with hsame | ⟨c', hsleep, -⟩
    · exact .inl (hsame.trans hat)
    · exact absurd (hat.symm.trans hsleep) (by simp)

/-- The queues of a state that the run has passed. -/
def MetIn (s : System τ Q) (ls : List (Label τ Q)) (queue : Q → Record) : Prop :=
  ∃ before u, before <+: ls ∧ Run Step s before u ∧ queue = u.queue

theorem MetIn.snoc {queue : Q → Record} (h : MetIn s ls queue) (l : Label τ Q) :
    MetIn s (ls ++ [l]) queue := by
  obtain ⟨before, u, hbefore, hrun, hqueue⟩ := h
  exact ⟨before, u, hbefore.trans (List.prefix_append ls [l]), hrun, hqueue⟩

/-- **How far a pass has come**: what is left of it, together with the queues that
it has met, is what was left of it at the beginning of the run. -/
structure Ongoing (s : System τ Q) (c : PollCall Q) (p : Pass Q) (ls : List (Label τ Q))
    (p' : Pass Q) : Prop where
  isPre : p'.isPre = p.isPre
  finish : ∀ met', ∃ met, (∀ i, p.seen.length ≤ i → MetIn s ls (met i) ∨ met i = met' i) ∧
    p'.finish met' c.qmx = p.finish met c.qmx

/-- **The end of a pass**, somewhere in the run: what was left of it has come to a
result, from queues that it met. -/
def Over (s : System τ Q) (t : τ) (c : PollCall Q) (p : Pass Q) (ls : List (Label τ Q)) : Prop :=
  ∃ before u met ret polls, before <+: ls ∧ Run Step s before u ∧
    (∀ i, p.seen.length ≤ i → MetIn s before (met i)) ∧ p.finish met c.qmx = (ret, polls) ∧
    u.place t = afterPass { c with polls := polls } p.isPre ret

/-- **The run lemma.** -/
theorem pass_run (hat : s.place t = .passing c p) (hrun : Run Step s ls s') :
    (∃ p', s'.place t = .passing c p' ∧ Ongoing s c p ls p') ∨ Over s t c p ls := by
  refine Run.invariant_history (fun ls s' => (∃ p', s'.place t = .passing c p' ∧
    Ongoing s c p ls p') ∨ Over s t c p ls) ?_ ?_ hrun
  · intro ls v l v' hv ih hstep
    rcases ih with ⟨p', hat', hongoing⟩ | ⟨before, u, met, ret, polls, hbefore, hend⟩
    · -- the queues of the state before the step
      have hmetin : MetIn s (ls ++ [l]) v.queue :=
        ⟨ls, v, List.prefix_append ls [l], hv, rfl⟩
      rcases step_passing hstep hat' with hsame | hnext
      · refine .inl ⟨p', hsame, hongoing.isPre, fun met' => ?_⟩
        obtain ⟨met, hmet, hfinish⟩ := hongoing.finish met'
        exact ⟨met, fun i hi => (hmet i hi).imp_left (fun h => h.snoc l), hfinish⟩
      · have hfollows := passStep_follows v t c p'
        rw [← hnext] at hfollows
        generalize hplace : v'.place t = place at hfollows
        cases hfollows with
        | @goesOn p'' hpre hseen hfollows =>
          refine .inl ⟨p'', rfl, hpre.trans hongoing.isPre, fun met' => ?_⟩
          -- the object of the step meets the queues of this moment
          obtain ⟨met, hmet, hfinish⟩ :=
            hongoing.finish (Function.update met' p'.seen.length v.queue)
          refine ⟨met, fun i hi => ?_, ?_⟩
          · rcases hmet i hi with hin | heq
            · exact .inl (hin.snoc l)
            · by_cases hi' : i = p'.seen.length
              · rw [hi', Function.update_self] at heq
                rw [hi', heq]
                exact .inl hmetin
              · rw [Function.update_of_ne hi'] at heq
                exact .inr heq
          · rw [← hfinish, ← hfollows _ (Function.update_self _ _ _)]
            apply finish_congr
            intro j hj
            rw [Function.update_of_ne (by omega)]
        | @ends ret polls hends =>
          obtain ⟨met, hmet, hfinish⟩ := hongoing.finish (fun _ => v.queue)
          refine .inr ⟨ls ++ [l], v', met, ret, polls, List.prefix_rfl, hv.snoc hstep,
            fun i hi => ?_, ?_, ?_⟩
          · rcases hmet i hi with hin | heq
            · exact hin.snoc l
            · rw [heq]
              exact hmetin
          · rw [← hfinish]
            exact hends _ rfl
          · rw [hplace, hongoing.isPre]
    · exact .inr ⟨before, u, met, ret, polls, hbefore.trans (List.prefix_append ls [l]), hend⟩
  · exact .inl ⟨p, hat, rfl, fun met' => ⟨met', fun i _ => .inr rfl, rfl⟩⟩

/-- **A whole pass**, among the steps of all other threads, comes to what
`s_qmx_setup_for_poll` computes from the queues that it met. -/
theorem pass_is_setup {isPre : Bool} {polls : List (Option (Poll Q))} (hpolls : polls ≠ [])
    (hat : s.place t = .passing c (Pass.start isPre polls)) (hrun : Run Step s ls s') :
    (∃ p', s'.place t = .passing c p') ∨
    ∃ before u met ret polls', before <+: ls ∧ Run Step s before u ∧
      (∀ i, MetIn s before (met i)) ∧
      setupForPoll met (some c.qmx) (some polls) isPre = (ret, some polls') ∧
      u.place t = afterPass { c with polls := polls' } isPre ret := by
  rcases pass_run hat hrun with ⟨p', hat', -⟩ | ⟨before, u, met, ret, polls', hbefore, hrun', hmet,
    hfinish, hplace⟩
  · exact .inl ⟨p', hat'⟩
  · refine .inr ⟨before, u, met, ret, polls', hbefore, hrun', fun i => hmet i (Nat.zero_le i), ?_,
      hplace⟩
    obtain ⟨x, xs, rfl⟩ := List.exists_cons_of_ne_nil hpolls
    unfold setupForPoll
    have hloop : setupLoop met c.qmx isPre 0 0 0 (x :: xs) = (ret, polls') := hfinish
    simp only [hloop]

end Mccp.Qmuxer
