/-
  Mccp.Thread.Finish
  ──────────────────
  **WHERE A CANCELLATION BREAKS A THREAD'S FINISH.**

  A thread finishes in its cancellation handler, or after its main procedure
  has returned.  On the second way a request that came in late is still pending
  when s_finalize() calls `m_final_proc`, with `m_wait_lock` held and no handler
  left.  If the procedure has a cancellation point, the pthread ends there: the
  lock is never released, and the object looks active for ever.

      FinishedWell      — what an ended pthread should leave
      Truthful          — the flags tell how the runs are; kept by every step
      LockInv           — the lock, the calls and the returns fit the phases
      locked_refines    — uninterrupted, the object behaves as without the lock
      finish_kept_iff   — which runs finish well
-/
import Mccp.Thread.Locked

namespace Mccp.Thread

open Monitor Transition

variable {τ : Type}

/-! ## §1. What an ended pthread should leave. -/

/-- mccp_thread_wait() returns: a new call at once, one that was woken as soon
as it goes on, and nobody sleeps in it. -/
structure WaitReturns [DecidableEq τ] (f : Locked τ) : Prop where
  called : ∀ u nsec, f.sys.caller u = .idle → ∃ ret f',
    nextLocked f (.plain (.wait u nsec)) = some (⟨.plain (.wait u nsec), .returned ret⟩, f')
  woken : ∀ u nsec w, f.sys.caller u = .woken (.wait nsec) w → ∃ ret f',
    nextLocked f (.plain (.resume u)) = some (⟨.plain (.resume u), .returned ret⟩, f')
  asleep : ∀ u c, ¬ Sleeps f.sys u c

/-- **Every ended pthread has finished well**: its finalize procedure was
called once and has returned, and it does not hold the lock.  Once all have
ended, the lock is free, the flags say so, and mccp_thread_wait() returns, as
long as the object has not deleted itself. -/
structure FinishedWell [DecidableEq τ] (f : Locked τ) : Prop where
  once : ∀ r, f.sys.phase r = .ended → f.finalCalls r = 1 ∧ f.finalReturns r = 1
  released : ∀ r, f.sys.phase r = .ended → f.waitLock ≠ some r
  atRest : 0 < f.sys.nRuns → (∀ r < f.sys.nRuns, f.sys.phase r = .ended) →
    f.waitLock = none ∧ f.sys.thd.isActivated = false ∧ f.sys.thd.isFinalized = true ∧
    (f.sys.isThd = true → WaitReturns f)

/-- The step keeps it. -/
def KeepsFinish [DecidableEq τ] (_ : Locked τ) (_ : LockedLabel τ) (f' : Locked τ) : Prop :=
  FinishedWell f'

/-- **The condition**: no request is acted on in one of the two procedures. -/
def Uninterrupted (_ : Locked τ) (l : LockedLabel τ) (_ : Locked τ) : Prop :=
  match l.action with
  | .cancelInFinal _ => False
  | .cancelInFreeup _ => False
  | _ => True

/-! ## §2. The flags tell how the runs are. -/

section
variable {s t : System τ} {a : Action τ}

/-- **The flags are truthful**: an object that is active has an active run, one
that is not finalized has an unfinished run, and waits sleep on active objects
only. -/
structure Truthful (s : System τ) : Prop where
  activated : s.thd.isActivated = true → ∃ r, (s.phase r).isActive = true
  finalized : 0 < s.nRuns → s.thd.isFinalized = false → ∃ r, (s.phase r).isUnfinished = true
  sleeping : ∀ u c, Sleeps s u c → c = .wait ∧ s.thd.isActivated = true
  absent : ∀ r, s.nRuns ≤ r → s.phase r = .absent

theorem Truthful.initial : Truthful (System.initial τ) where
  activated h := absurd h (by simp [System.initial, Thd.initial])
  finalized h := absurd h (by simp [System.initial])
  sleeping u c h := by
    obtain ⟨nsec, hu⟩ := h
    exact absurd hu (by simp [System.initial])
  absent _ _ := rfl

theorem Phase.Goes.isActive_eq {p q : Phase} (h : p.Goes q) : q.isActive = p.isActive := by
  cases h <;> rfl

theorem Phase.Goes.isUnfinished_eq {p q : Phase} (h : p.Goes q) :
    q.isUnfinished = p.isUnfinished := by
  cases h <;> rfl

/-- A property of phases that the moved run keeps is still one of some run. -/
theorem exists_phase_update {phase : Nat → Phase} {P : Phase → Bool} {r : Nat} {p : Phase}
    (hP : P p = P (phase r)) (h : ∃ q, P (phase q) = true) :
    ∃ q, P (Function.update phase r p q) = true := by
  obtain ⟨q, hq⟩ := h
  refine ⟨q, ?_⟩
  by_cases hqr : q = r
  · rw [hqr, Function.update_self, hP, ← hqr]
    exact hq
  · rw [Function.update_of_ne hqr]
    exact hq

/-- A run that is moved is not an absent one. -/
theorem Truthful.absent_update (h : Truthful s) {r : Nat} {p : Phase} (hr : s.phase r ≠ .absent) :
    ∀ q, s.nRuns ≤ q → Function.update s.phase r p q = .absent := by
  intro q hq
  have hne : q ≠ r := by
    intro heq
    exact hr (heq ▸ h.absent q hq)
  rw [Function.update_of_ne hne]
  exact h.absent q hq

/-- A run that goes on keeps its flags' meaning. -/
theorem Truthful.move (h : Truthful s) {r : Nat} {p : Phase} (hr : s.phase r ≠ .absent)
    (hactive : p.isActive = (s.phase r).isActive)
    (hunfinished : p.isUnfinished = (s.phase r).isUnfinished)
    (hp : t.phase = Function.update s.phase r p) (hn : t.nRuns = s.nRuns)
    (hact : t.thd.isActivated = s.thd.isActivated)
    (hfin : t.thd.isFinalized = s.thd.isFinalized) (hc : t.caller = s.caller) : Truthful t where
  activated ha := by
    rw [hp]
    exact exists_phase_update hactive (h.activated (hact ▸ ha))
  finalized hpos hf := by
    rw [hp]
    exact exists_phase_update hunfinished (h.finalized (hn ▸ hpos) (hfin ▸ hf))
  sleeping u c hu := by
    rw [hact]
    exact h.sleeping u c (sleeps_of_caller hc hu)
  absent q hq := by
    rw [hp]
    exact h.absent_update hr q (hn ▸ hq)

/-- **Every turn keeps the flags truthful.** -/
theorem Truthful.turn (h : Truthful s) (hturn : Turn s a t) : Truthful t := by
  cases hturn with
  | call hp hn hact hfin hsleep =>
    refine ⟨?_, ?_, ?_, ?_⟩
    · rw [hact, hp]
      exact h.activated
    · rw [hn, hfin, hp]
      exact h.finalized
    · intro u c hu
      rw [hact]
      rcases hsleep u c hu with hs | hs
      · exact h.sleeping u c hs
      · exact hs
    · rw [hn, hp]
      exact h.absent
  | spawn hidle hp hn hact hsleep =>
    refine ⟨?_, ?_, ?_, ?_⟩
    · intro ha
      exact absurd (hact.symm.trans ha) (by simp)
    · intro _ _
      rw [hp]
      exact ⟨s.nRuns, by rw [Function.update_self]; rfl⟩
    · intro u c hu
      -- nobody slept, for the object was not active
      exact absurd (hidle.symm.trans (h.sleeping u c (hsleep u c hu)).2) (by simp)
    · intro q hq
      rw [hn] at hq
      rw [hp, Function.update_of_ne (by omega)]
      exact h.absent q (by omega)
  | activate r hr =>
    have hmain : (activate s r).phase r = .main := Function.update_self ..
    refine ⟨fun _ => ⟨r, by rw [hmain]; rfl⟩, fun _ _ => ⟨r, by rw [hmain]; rfl⟩, ?_, ?_⟩
    · intro u c hu
      exact ⟨(h.sleeping u c (sleeps_of_broadcast rfl hu).1).1, rfl⟩
    · exact h.absent_update (by rw [hr]; simp)
  | goOn r p hgo hp hn hact hfin hc =>
    have hr : s.phase r ≠ .absent := by
      intro heq
      rw [heq] at hgo
      cases hgo
    exact h.move hr hgo.isActive_eq hgo.isUnfinished_eq hp hn hact hfin hc
  | finalize r b hr =>
    refine ⟨fun ha => absurd ha (by simp [finalize, System.run]),
      fun _ hf => absurd hf (by simp [finalize, System.run]), ?_, ?_⟩
    · intro u c hu
      -- every sleeping wait has been notified
      have hcaller : (Thread.finalize s r).caller = broadcast [.wait] s.caller := rfl
      obtain ⟨hs, hne⟩ := sleeps_of_broadcast hcaller hu
      exact absurd (h.sleeping u c hs).1 (by simpa using hne)
    · exact h.absent_update (by rw [hr]; simp)
  | delete r hr hp hn hact hfin hc =>
    exact h.move (by rw [hr]; simp) (by rw [hr]; rfl) (by rw [hr]; rfl) hp hn hact hfin hc

end

/-! ## §3. The lock and the procedures. -/

/-- A run in this phase can hold the lock from step to step. -/
def Phase.mayHold : Phase → Bool
  | .finishing _ => true
  | .deletingLast => true
  | _ => false

/-- The calls of the finalize procedure and the returns from it, for a run in
this phase that holds the lock or not. -/
def Phase.finals (p : Phase) (holds : Bool) : Nat × Nat :=
  match p with
  | .finishing _ => if holds then (1, 0) else (0, 0)
  | .deleting => (1, 1)
  | .deletingWait => (1, 1)
  | .deletingLast => (1, 1)
  | .ended => (1, 1)
  | _ => (0, 0)

/-- **The lock, the calls and the returns fit the phases.** -/
structure LockInv (f : Locked τ) : Prop where
  truthful : Truthful f.sys
  holder : ∀ r, f.waitLock = some r → (f.sys.phase r).mayHold = true
  counts : ∀ r, (f.finalCalls r, f.finalReturns r) =
    (f.sys.phase r).finals (f.waitLock = some r)

theorem LockInv.initial : LockInv (Locked.initial τ) where
  truthful := Truthful.initial
  holder r h := absurd h (by simp [Locked.initial])
  counts _ := rfl

theorem Phase.Goes.outside {p q : Phase} (h : p.Goes q) :
    p.mayHold = false ∧ q.finals false = p.finals false := by
  cases h <;> exact ⟨rfl, rfl⟩

/-- Outside the procedures a run moves only where it holds no lock. -/
theorem Turn.outside {s t : System τ} {a : Action τ} (h : Turn s a t) (htrue : Truthful s)
    (hproc : containsProc s a = false) (r : Nat) :
    t.phase r = s.phase r ∨
      ((s.phase r).mayHold = false ∧ (t.phase r).finals false = (s.phase r).finals false) := by
  cases h with
  | call hp hn hact hfin hsleep => exact .inl (congrFun hp r)
  | spawn hidle hp hn hact hsleep =>
    rw [hp]
    by_cases hr : r = s.nRuns
    · rw [hr, Function.update_self, htrue.absent s.nRuns (Nat.le_refl _)]
      exact .inr ⟨rfl, rfl⟩
    · exact .inl (Function.update_of_ne hr ..)
  | activate q hq =>
    by_cases hr : r = q
    · rw [hr, show (Thread.activate s q).phase q = .main from Function.update_self .., hq]
      exact .inr ⟨rfl, rfl⟩
    · exact .inl (Function.update_of_ne hr ..)
  | goOn q p hgo hp hn hact hfin hc =>
    rw [hp]
    by_cases hr : r = q
    · rw [hr, Function.update_self]
      exact .inr hgo.outside
    · exact .inl (Function.update_of_ne hr ..)
  | finalize q b hq => exact absurd hproc (by simp [containsProc])
  | delete q hq hp hn hact hfin hc => exact absurd hproc (by simp [containsProc, hq])

variable {f f' : Locked τ} {l : LockedLabel τ}

/-- Only the run that holds the lock counts differently with it. -/
theorem LockInv.counts_of (h : LockInv f) {r : Nat} (hne : f.waitLock ≠ some r) :
    (f.finalCalls r, f.finalReturns r) = (f.sys.phase r).finals false := by
  rw [h.counts r, decide_eq_false hne]

theorem not_uninterrupted {r : Nat}
    (ha : l.action = .cancelInFinal r ∨ l.action = .cancelInFreeup r) :
    ¬ Uninterrupted f l f' := by
  unfold Uninterrupted
  rcases ha with ha | ha <;>
  · rw [ha]
    exact id

theorem uninterrupted_of_ne (hfinal : ∀ r, l.action ≠ .cancelInFinal r)
    (hfreeup : ∀ r, l.action ≠ .cancelInFreeup r) : Uninterrupted f l f' := by
  unfold Uninterrupted
  split
  next r ha => exact hfinal r ha
  next r ha => exact hfreeup r ha
  next => trivial

/-- A run takes the lock to call a procedure. -/
theorem LockInv.of_enter (h : LockInv f) {r : Nat} (hhold : (f.sys.phase r).mayHold = true)
    (hfree : f.waitLock = none) (hs : f'.sys = f.sys) (hw : f'.waitLock = some r)
    (hothers : ∀ q, q ≠ r → f'.finalCalls q = f.finalCalls q ∧
      f'.finalReturns q = f.finalReturns q)
    (hown : (f'.finalCalls r, f'.finalReturns r) = (f.sys.phase r).finals true) : LockInv f' := by
  refine ⟨hs ▸ h.truthful, ?_, ?_⟩
  · intro q hq
    rw [hw] at hq
    rw [hs, ← Option.some.inj hq]
    exact hhold
  · intro q
    rw [hs, hw]
    by_cases hqr : q = r
    · rw [hqr, hown, decide_eq_true rfl]
    · obtain ⟨hcalls, hreturns⟩ := hothers q hqr
      rw [hcalls, hreturns, decide_eq_false (fun heq => hqr (Option.some.inj heq).symm)]
      exact h.counts_of (by rw [hfree]; simp)

/-- The run that has the lock moves on and lets it go. -/
theorem LockInv.of_leave (h : LockInv f) (htrue : Truthful f'.sys) {r : Nat} {p : Phase}
    (hheld : f.waitLock = some r) (hw : f'.waitLock = none)
    (hphase : f'.sys.phase = Function.update f.sys.phase r p)
    (hothers : ∀ q, q ≠ r → f'.finalCalls q = f.finalCalls q ∧
      f'.finalReturns q = f.finalReturns q)
    (hown : (f'.finalCalls r, f'.finalReturns r) = p.finals false) : LockInv f' := by
  refine ⟨htrue, ?_, ?_⟩
  · intro q hq
    exact absurd (hw.symm.trans hq) (by simp)
  · intro q
    rw [hw, hphase, decide_eq_false (by simp)]
    by_cases hqr : q = r
    · rw [hqr, Function.update_self]
      exact hown
    · obtain ⟨hcalls, hreturns⟩ := hothers q hqr
      rw [hcalls, hreturns, Function.update_of_ne hqr]
      refine h.counts_of ?_
      rw [hheld]
      exact fun heq => hqr (Option.some.inj heq).symm

/-- **The step lemma**: without a request acted on in a procedure, the lock, the
calls and the returns fit the phases after every step. -/
theorem LockInv.step [DecidableEq τ] (h : LockInv f) (hstep : LockedStep f l f')
    (hun : Uninterrupted f l f') : LockInv f' := by
  cases lockedStep_cases hstep with
  | plain a m ha hproc hlock hs hw hcalls hreturns =>
    have hturn := next_turn hs
    have houtside := hturn.outside h.truthful hproc
    refine ⟨h.truthful.turn hturn, ?_, ?_⟩
    · intro r hr
      rw [hw] at hr
      have hhold := h.holder r hr
      rcases houtside r with heq | ⟨hno, -⟩
      · rw [heq]
        exact hhold
      · exact absurd (hno.symm.trans hhold) (by simp)
    · intro r
      rw [hcalls, hreturns, hw]
      rcases houtside r with heq | ⟨hno, hsame⟩
      · rw [heq]
        exact h.counts r
      · have hne : f.waitLock ≠ some r :=
          fun hr => absurd (hno.symm.trans (h.holder r hr)) (by simp)
        rw [decide_eq_false hne, hsame]
        exact h.counts_of hne
  | callFinal r b ha hr hfree hs hw hcalls hreturns =>
    refine h.of_enter (by rw [hr]; rfl) hfree hs hw ?_ ?_
    · intro q hq
      rw [hcalls, hreturns, Function.update_of_ne hq]
      exact ⟨rfl, rfl⟩
    · -- not called before, for the lock was free
      have hbefore := h.counts_of (r := r) (by rw [hfree]; simp)
      rw [hr] at hbefore
      obtain ⟨hc0, hr0⟩ := Prod.mk.inj hbefore
      rw [hcalls, hreturns, Function.update_self, hc0, hr0, hr]
      rfl
  | returnFinal r b ha hr hthd hheld hs hw hcalls hreturns =>
    have hturn : Turn f.sys (.finalize r) f'.sys := hs ▸ .finalize r b hr
    have hphase : f'.sys.phase = Function.update f.sys.phase r
        (if f.sys.thd.doAutodelete then .deleting else .ended) := by
      rw [hs]
      rfl
    refine h.of_leave (h.truthful.turn hturn) hheld hw hphase ?_ ?_
    · intro q hq
      rw [hcalls, hreturns, Function.update_of_ne hq]
      exact ⟨rfl, rfl⟩
    · have hbefore := h.counts r
      rw [hr, decide_eq_true hheld] at hbefore
      obtain ⟨hc1, hr0⟩ := Prod.mk.inj hbefore
      rw [hcalls, hreturns, Function.update_self, hc1, hr0]
      split <;> rfl
  | cancelInFinal r ha => exact absurd hun (not_uninterrupted (.inl ha))
  | callFreeup r ha hr hfree hs hw hcalls hreturns =>
    have hsame : ∀ q, q ≠ r → f'.finalCalls q = f.finalCalls q ∧
        f'.finalReturns q = f.finalReturns q :=
      fun q _ => ⟨congrFun hcalls q, congrFun hreturns q⟩
    refine h.of_enter (by rw [hr]; rfl) hfree hs hw hsame ?_
    have hbefore := h.counts r
    rw [hr] at hbefore
    rw [hcalls, hreturns, hbefore, hr]
    rfl
  | returnFreeup r ha hr hthd hheld hs hw hcalls hreturns =>
    have hphase : f'.sys.phase = Function.update f.sys.phase r .ended := by
      simp only [delete, hr, Option.some.injEq] at hs
      rw [← hs]
      rfl
    have hsame : ∀ q, q ≠ r → f'.finalCalls q = f.finalCalls q ∧
        f'.finalReturns q = f.finalReturns q :=
      fun q _ => ⟨congrFun hcalls q, congrFun hreturns q⟩
    refine h.of_leave (h.truthful.turn (delete_turn hs)) hheld hw hphase hsame ?_
    have hbefore := h.counts r
    rw [hr] at hbefore
    rw [hcalls, hreturns, hbefore]
    rfl
  | cancelInFreeup r ha => exact absurd hun (not_uninterrupted (.inr ha))

/-! ## §4. Which runs finish well. -/

/-- A call of mccp_thread_wait() on an object at rest returns at once. -/
theorem wait_returns [DecidableEq τ] {s : System τ} (hact : s.thd.isActivated = false) (u : τ)
    (nsec : Int) : ∃ ret, (wait s u nsec).1 = .returned ret := by
  unfold wait waitcheck
  split
  next =>
    split
    next =>
      rw [if_neg (by simp [hact])]
      exact ⟨_, rfl⟩
    next => exact ⟨_, rfl⟩
  next => exact ⟨_, rfl⟩

/-- So does one that was woken. -/
theorem resume_wait_returns [DecidableEq τ] {s : System τ} (hact : s.thd.isActivated = false)
    (u : τ) (nsec : Int) (w : Wakeup) : ∃ ret, (resume s u (.wait nsec) w).1 = .returned ret := by
  unfold resume waitcheck
  cases w with
  | signaled =>
    dsimp only
    rw [if_neg (by simp [hact])]
    exact ⟨_, rfl⟩
  | timedout => exact ⟨_, rfl⟩
  | failed => exact ⟨_, rfl⟩

/-- With the lock free a step outside the procedures is one of the object. -/
theorem nextLocked_plain [DecidableEq τ] {a : Action τ} {m : Label τ} {s : System τ}
    (hproc : containsProc f.sys a = false) (hfree : f.waitLock = none)
    (hs : next f.sys a = some (m, s)) :
    ∃ f', nextLocked f (.plain a) = some (⟨.plain a, m.outcome⟩, f') := by
  simp only [nextLocked]
  rw [if_pos ⟨hproc, fun _ => hfree⟩, hs]
  exact ⟨_, rfl⟩

/-- With the lock free and nobody active, mccp_thread_wait() returns. -/
theorem LockInv.waitReturns [DecidableEq τ] (h : LockInv f) (hfree : f.waitLock = none)
    (hact : f.sys.thd.isActivated = false) (hthd : f.sys.isThd = true) : WaitReturns f := by
  refine ⟨?_, ?_, ?_⟩
  · intro u nsec hu
    obtain ⟨ret, hret⟩ := wait_returns hact u nsec
    have hnext : next f.sys (.wait u nsec) =
        some (⟨.wait u nsec, .returned ret⟩, (wait f.sys u nsec).2) := by
      show ifIdle f.sys u (.wait u nsec) (wait f.sys u nsec) = _
      unfold ifIdle
      rw [hu, ← hret]
    exact ⟨ret, nextLocked_plain rfl hfree hnext⟩
  · intro u nsec w hu
    obtain ⟨ret, hret⟩ := resume_wait_returns hact u nsec w
    have hnext : next f.sys (.resume u) =
        some (⟨.resume u, .returned ret⟩, (resume f.sys u (.wait nsec) w).2) := by
      simp only [next, hu]
      rw [if_pos hthd, hret]
    exact ⟨ret, nextLocked_plain rfl hfree hnext⟩
  · intro u c hu
    exact absurd (hact.symm.trans (h.truthful.sleeping u c hu).2) (by simp)

/-- **What the invariant says of the ended pthreads.** -/
theorem LockInv.finishedWell [DecidableEq τ] (h : LockInv f) : FinishedWell f := by
  have hreleased : ∀ r, f.sys.phase r = .ended → f.waitLock ≠ some r := by
    intro r hr hheld
    have hhold := h.holder r hheld
    rw [hr] at hhold
    exact absurd hhold (by simp [Phase.mayHold])
  refine ⟨?_, hreleased, ?_⟩
  · intro r hr
    have hcounts := h.counts_of (hreleased r hr)
    rw [hr] at hcounts
    exact Prod.mk.inj hcounts
  · intro hpos hall
    have hidle : ∀ r, f.sys.phase r = .ended ∨ f.sys.phase r = .absent := by
      intro r
      rcases Nat.lt_or_ge r f.sys.nRuns with hr | hr
      · exact .inl (hall r hr)
      · exact .inr (h.truthful.absent r hr)
    have hfree : f.waitLock = none := by
      cases hw : f.waitLock with
      | none => rfl
      | some r =>
        have hhold := h.holder r hw
        rcases hidle r with hr | hr <;>
        · rw [hr] at hhold
          exact absurd hhold (by simp [Phase.mayHold])
    have hact : f.sys.thd.isActivated = false := by
      by_contra hact
      obtain ⟨r, hr⟩ := h.truthful.activated (by simpa using hact)
      rcases hidle r with heq | heq <;>
      · rw [heq] at hr
        exact absurd hr (by decide)
    have hfin : f.sys.thd.isFinalized = true := by
      by_contra hfin
      obtain ⟨r, hr⟩ := h.truthful.finalized hpos (by simpa using hfin)
      rcases hidle r with heq | heq <;>
      · rw [heq] at hr
        exact absurd hr (by decide)
    exact ⟨hfree, hact, hfin, h.waitReturns hfree hact⟩

/-- **A step keeps the finish exactly when it interrupts no procedure.** -/
theorem LockInv.keepsFinish_iff [DecidableEq τ] (h : LockInv f) (hstep : LockedStep f l f') :
    KeepsFinish f l f' ↔ Uninterrupted f l f' := by
  constructor
  · intro hkeep
    cases lockedStep_cases hstep with
    | cancelInFinal r ha hr hheld hs hw hreturns =>
      -- the procedure has been called, and will not return
      have hended : f'.sys.phase r = .ended := by
        rw [hs]
        exact Function.update_self ..
      have hcounts := h.counts r
      rw [hr, decide_eq_true hheld] at hcounts
      obtain ⟨-, hr0⟩ := Prod.mk.inj hcounts
      have hone := (hkeep.once r hended).2
      rw [hreturns, hr0] at hone
      exact absurd hone (by decide)
    | cancelInFreeup r ha hended hw => exact absurd hw (hkeep.released r hended)
    | plain a m ha => exact uninterrupted_of_ne (by simp [ha]) (by simp [ha])
    | callFinal r b ha => exact uninterrupted_of_ne (by simp [ha]) (by simp [ha])
    | returnFinal r b ha => exact uninterrupted_of_ne (by simp [ha]) (by simp [ha])
    | callFreeup r ha => exact uninterrupted_of_ne (by simp [ha]) (by simp [ha])
    | returnFreeup r ha => exact uninterrupted_of_ne (by simp [ha]) (by simp [ha])
  · intro hun
    exact (h.step hstep hun).finishedWell

/-- **The runs in which every ended pthread has finished well are exactly the
runs in which no request is acted on inside a procedure that a pthread without
its handler has called.** -/
theorem finish_kept_iff [DecidableEq τ] {ls : List (LockedLabel τ)} :
    Run (restrict LockedStep KeepsFinish) (Locked.initial τ) ls f ↔
    Run (restrict LockedStep Uninterrupted) (Locked.initial τ) ls f :=
  Run.restrict_congr (fun _ _ _ h hstep => h.keepsFinish_iff hstep)
    (fun _ _ _ h hstep hun => h.step hstep hun) LockInv.initial

/-- A request comes while the main procedure runs, which returns without acting
on it; the finalize procedure acts on it.  The pthread is gone, the lock is
held, the object looks active, and nobody can wait for it. -/
theorem late_cancel_keeps_lock :
    ∃ (ls : List (LockedLabel Bool)) (f : Locked Bool),
      Run LockedStep (Locked.initial Bool) ls f ∧ f.sys.nRuns = 1 ∧ f.sys.phase 0 = .ended ∧
      f.waitLock = some 0 ∧ f.sys.thd.isActivated = true ∧ f.sys.thd.isFinalized = false ∧
      f.finalCalls 0 = 1 ∧ f.finalReturns 0 = 0 ∧
      (∀ u nsec, nextLocked f (.plain (.wait u nsec)) = none) ∧ ¬ FinishedWell f := by
  have hrun : ∃ p, exec nextLocked (Locked.initial Bool)
      [.plain (.start false false true), .plain (.activate 0), .plain (.resume false),
        .plain (.cancel true true), .plain (.leave 0 .ok), .plain (.store 0), .callFinal 0,
        .cancelInFinal 0] = some p ∧
      p.2.sys.nRuns = 1 ∧ p.2.sys.phase 0 = .ended ∧ p.2.waitLock = some 0 ∧
      p.2.sys.thd.isActivated = true ∧ p.2.sys.thd.isFinalized = false ∧
      p.2.finalCalls 0 = 1 ∧ p.2.finalReturns 0 = 0 ∧
      p.2.sys.isThd = true ∧ p.2.sys.thd.doAutodelete = false :=
    ⟨_, rfl, rfl, rfl, rfl, rfl, rfl, rfl, rfl, rfl, rfl⟩
  obtain ⟨⟨ls, f⟩, hexec, hn, hended, hheld, hact, hfin, hc, hr, hthd, hauto⟩ := hrun
  refine ⟨ls, f, run_of_exec hexec, hn, hended, hheld, hact, hfin, hc, hr, ?_, ?_⟩
  · intro u nsec
    have hneeds : needsWaitLock f.sys (.wait u nsec) = true := by
      show (f.sys.isThd && !f.sys.thd.doAutodelete) = true
      rw [show f.sys.isThd = true from hthd, show f.sys.thd.doAutodelete = false from hauto]
      rfl
    have hlocked : f.waitLock ≠ none := by
      rw [show f.waitLock = some 0 from hheld]
      simp
    exact if_neg fun hc => hlocked (hc.2 hneeds)
  · intro hwell
    exact hwell.released 0 hended hheld

end Mccp.Thread
