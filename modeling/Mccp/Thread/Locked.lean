/-
  Mccp.Thread.Locked
  ──────────────────
  **THE OBJECT WITH ITS m_wait_lock, AND THE USER'S PROCEDURES INSIDE IT.**

  s_finalize() calls `m_final_proc`, and mccp_thread_destroy() `m_freeup_proc`,
  with `m_wait_lock` held.  Both are the user's code and may contain
  cancellation points, so each is a call, a return, and between them a request
  that may be acted on.  (An object without one of them has nothing between the
  two.)  Everything else is as in `Mccp.Thread.Object`, and waits for the lock
  where the source does.

  After the main procedure has returned no cleanup handler is left: a request
  that is acted on ends the pthread where it is.  In the handler itself no
  further request is acted on.

      nextLocked — one step (executable)
      Turn       — what a step does to the runs, the flags and the waits
      next_turn  — every step of the object is one
      LockedTurn — what a step does to the lock and the procedures
-/
import Mccp.Thread.OneRun

namespace Mccp.Thread

open Monitor Transition

variable {τ : Type}

/-! ## §1. The lock and the procedures. -/

/-- The object, who holds `m_wait_lock` across several steps, and what was seen
of the finalize procedure. -/
structure Locked (τ : Type) where
  sys : System τ
  /-- The run that is in one of the two procedures. -/
  waitLock : Option Nat
  /-- How often each run has called `m_final_proc`, and how often it returned. -/
  finalCalls : Nat → Nat
  finalReturns : Nat → Nat
  /-- The run is in its cancellation handler. -/
  inHandler : Nat → Bool

/-- A new object. -/
def Locked.initial (τ : Type) : Locked τ where
  sys := .initial τ
  waitLock := none
  finalCalls := fun _ => 0
  finalReturns := fun _ => 0
  inHandler := fun _ => false

/-- What a scheduler can choose. -/
inductive LockedAction (τ : Type) where
  /-- A step outside the two procedures. -/
  | plain (a : Action τ)
  | callFinal (r : Nat)
  | returnFinal (r : Nat)
  /-- A cancel request is acted on in `m_final_proc`. -/
  | cancelInFinal (r : Nat)
  | callFreeup (r : Nat)
  | returnFreeup (r : Nat)
  /-- A cancel request is acted on in `m_freeup_proc`. -/
  | cancelInFreeup (r : Nat)
  deriving DecidableEq, Repr

/-- A choice and what is seen of it. -/
structure LockedLabel (τ : Type) where
  action : LockedAction τ
  outcome : Outcome
  deriving DecidableEq, Repr

/-- The steps that contain one of the procedures. -/
def containsProc (s : System τ) : Action τ → Bool
  | .finalize _ => true
  | .delete r => s.phase r = .deletingLast
  | _ => false

/-- The steps that need `m_wait_lock`. -/
def needsWaitLock (s : System τ) : Action τ → Bool
  | .start _ _ _ => s.isThd
  | .wait _ _ => s.isThd && !s.thd.doAutodelete
  | .cancel _ _ => s.isThd
  -- the sleep ends, but the call goes on only with the lock
  | .wake _ _ => false
  | .resume _ => true
  | .activate _ => true
  | .leave _ _ => false
  | .actCancel _ => false
  | .store _ => false
  | .finalize _ => true
  | .delete r => !(s.phase r = .deletingWait && s.thd.doAutodelete)

/-- A run whose request is acted on in its main procedure enters its handler. -/
def entersHandler (a : Action τ) (inHandler : Nat → Bool) : Nat → Bool :=
  match a with
  | .actCancel r => Function.update inHandler r true
  | _ => inHandler

variable [DecidableEq τ]

/-- **One step** of the object with its lock. -/
def nextLocked (f : Locked τ) (a : LockedAction τ) : Option (LockedLabel τ × Locked τ) :=
  match a with
  | .plain b =>
      if containsProc f.sys b = false ∧ (needsWaitLock f.sys b → f.waitLock = none) then
        (next f.sys b).map fun p =>
          (⟨a, p.1.outcome⟩, { f with sys := p.2, inHandler := entersHandler b f.inHandler })
      else none
  | .callFinal r =>
      match f.sys.phase r with
      | .finishing _ =>
          if f.sys.isThd ∧ f.waitLock = none then
            some (⟨a, .quiet⟩, { f with
              waitLock := some r
              finalCalls := Function.update f.finalCalls r (f.finalCalls r + 1) })
          else none
      | _ => none
  | .returnFinal r =>
      match f.sys.phase r with
      | .finishing _ =>
          if f.sys.isThd ∧ f.waitLock = some r then
            some (⟨a, .quiet⟩, { f with
              sys := finalize f.sys r
              waitLock := none
              finalReturns := Function.update f.finalReturns r (f.finalReturns r + 1) })
          else none
      | _ => none
  | .cancelInFinal r =>
      -- the handler was popped: the pthread ends, and keeps the lock
      if f.sys.phase r = .finishing false ∧ f.waitLock = some r ∧ f.sys.cancelPending r then
        some (⟨a, .quiet⟩, { f with sys := f.sys.run r .ended })
      else none
  | .callFreeup r =>
      if f.sys.phase r = .deletingLast ∧ f.sys.isThd ∧ f.waitLock = none then
        some (⟨a, .quiet⟩, { f with waitLock := some r })
      else none
  | .returnFreeup r =>
      if f.sys.phase r = .deletingLast ∧ f.sys.isThd ∧ f.waitLock = some r then
        (delete f.sys r).map fun s => (⟨a, .quiet⟩, { f with sys := s, waitLock := none })
      else none
  | .cancelInFreeup r =>
      if f.sys.phase r = .deletingLast ∧ f.waitLock = some r ∧ f.sys.cancelPending r ∧
          f.inHandler r = false then
        some (⟨a, .quiet⟩, { f with
          sys := { f.sys with thd := { f.sys.thd with isDestroying := true } }.run r .ended })
      else none

/-- The transition relation over observations. -/
abbrev LockedStep : Locked τ → LockedLabel τ → Locked τ → Prop := observed nextLocked

/-! ## §2. What a step does to the runs. -/

/-- How a run goes on between its procedures. -/
inductive Phase.Goes : Phase → Phase → Prop
  | leave (ret : Result) : Goes .main (.returned ret)
  | actCancel : Goes .main (.finishing true)
  | store (ret : Result) : Goes (.returned ret) (.finishing false)
  | cancelSelf : Goes .deleting .deletingWait
  | waitSelf : Goes .deletingWait .deletingLast

/-- The thread sleeps in a wait. -/
def Sleeps (s : System τ) (u : τ) (c : Cond) : Prop :=
  ∃ nsec, s.caller u = .waiting (.wait nsec) c

/-- **What a step can do to the runs, the two flags and the sleeping waits.** -/
inductive Turn (s : System τ) : Action τ → System τ → Prop
  /-- A call that spawns nothing; a wait falls asleep on an active object only. -/
  | call {a : Action τ} {t : System τ} (hp : t.phase = s.phase) (hn : t.nRuns = s.nRuns)
      (hact : t.thd.isActivated = s.thd.isActivated)
      (hfin : t.thd.isFinalized = s.thd.isFinalized)
      (hsleep : ∀ u c, Sleeps t u c → Sleeps s u c ∨ (c = .wait ∧ s.thd.isActivated = true)) :
      Turn s a t
  | spawn {a : Action τ} {t : System τ} (hidle : s.thd.isActivated = false)
      (hp : t.phase = Function.update s.phase s.nRuns .spawned) (hn : t.nRuns = s.nRuns + 1)
      (hact : t.thd.isActivated = false) (hsleep : ∀ u c, Sleeps t u c → Sleeps s u c) :
      Turn s a t
  | activate (r : Nat) (hr : s.phase r = .spawned) : Turn s (.activate r) (activate s r)
  | goOn {a : Action τ} {t : System τ} (r : Nat) (p : Phase) (hgo : (s.phase r).Goes p)
      (hp : t.phase = Function.update s.phase r p) (hn : t.nRuns = s.nRuns)
      (hact : t.thd.isActivated = s.thd.isActivated)
      (hfin : t.thd.isFinalized = s.thd.isFinalized) (hc : t.caller = s.caller) : Turn s a t
  | finalize (r : Nat) (b : Bool) (hr : s.phase r = .finishing b) :
      Turn s (.finalize r) (finalize s r)
  | delete (r : Nat) {t : System τ} (hr : s.phase r = .deletingLast)
      (hp : t.phase = Function.update s.phase r .ended) (hn : t.nRuns = s.nRuns)
      (hact : t.thd.isActivated = s.thd.isActivated)
      (hfin : t.thd.isFinalized = s.thd.isFinalized) (hc : t.caller = s.caller) :
      Turn s (.delete r) t

variable {s t : System τ} {u : τ} {l : Label τ} {a : Action τ}

theorem sleeps_move {v : τ} {th : Monitor.Thread Cont Cond} {c : Cond}
    (h : Sleeps (s.move u th) v c) :
    (v = u ∧ ∃ nsec, th = .waiting (.wait nsec) c) ∨ Sleeps s v c := by
  obtain ⟨nsec, hv⟩ := h
  simp only [System.move] at hv
  by_cases hvu : v = u
  · rw [hvu, Function.update_self] at hv
    exact .inl ⟨hvu, nsec, hv⟩
  · rw [Function.update_of_ne hvu] at hv
    exact .inr ⟨nsec, hv⟩

/-- A thread that is moved into no wait. -/
theorem sleeps_of_move {v : τ} {th : Monitor.Thread Cont Cond} {c : Cond}
    (hth : ∀ nsec, th ≠ .waiting (.wait nsec) c) (h : Sleeps (s.move u th) v c) :
    Sleeps s v c := by
  rcases sleeps_move h with ⟨-, nsec, hn⟩ | hs
  · exact absurd hn (hth nsec)
  · exact hs

omit [DecidableEq τ] in
theorem sleeps_of_caller {c : Cond} (hc : t.caller = s.caller) (h : Sleeps t u c) :
    Sleeps s u c := by
  obtain ⟨nsec, hu⟩ := h
  exact ⟨nsec, by rw [← hc]; exact hu⟩

omit [DecidableEq τ] in
/-- A sleeper that a notification has left alone. -/
theorem sleeps_of_broadcast {ns : List Cond} {c : Cond} (hc : t.caller = broadcast ns s.caller)
    (h : Sleeps t u c) : Sleeps s u c ∧ c ∉ ns := by
  obtain ⟨nsec, hu⟩ := h
  rw [hc] at hu
  obtain ⟨hs, hns⟩ := broadcast_waiting hu
  exact ⟨⟨nsec, hs⟩, hns⟩

/-- A wait falls asleep on an active object, or returns. -/
theorem waitcheck_turn (u : τ) (nsec : Int) : Turn s a (waitcheck s u nsec).2 := by
  unfold waitcheck
  split
  next hact =>
    refine .call rfl rfl rfl rfl fun v c hv => ?_
    rcases sleeps_move hv with ⟨-, n, hn⟩ | hs
    · injection hn with _ hc
      exact .inr ⟨hc.symm, hact⟩
    · exact .inl hs
  next =>
    exact .call rfl rfl rfl rfl fun v c hv => .inl (sleeps_of_move (by simp) hv)

theorem startcheck_turn (u : τ) (r : Nat) : Turn s a (startcheck s u r).2 := by
  unfold startcheck
  split
  next => exact .call rfl rfl rfl rfl fun v c hv => .inl (sleeps_of_move (by simp) hv)
  next => exact .call rfl rfl rfl rfl fun v c hv => .inl (sleeps_of_move (by simp) hv)

/-- A start spawns, or touches no run. -/
theorem start_turn (u : τ) (autodelete created : Bool) :
    Turn s a (start s u autodelete created).2 := by
  unfold start
  split
  next =>
    split
    next hidle =>
      split
      next =>
        simp only [startcheck, System.run, if_true]
        exact .spawn hidle rfl rfl rfl fun v c hv => sleeps_of_move (by simp) hv
      next => exact .call rfl rfl rfl rfl fun v c hv => .inl (sleeps_of_caller rfl hv)
    next => exact .call rfl rfl rfl rfl fun v c hv => .inl hv
  next => exact .call rfl rfl rfl rfl fun v c hv => .inl hv

/-- A call after its sleep touches no run. -/
theorem resume_turn (u : τ) (k : Cont) (w : Wakeup) : Turn s a (resume s u k w).2 := by
  have herror : Turn s a (s.move u .idle) :=
    .call rfl rfl rfl rfl fun v c hv => .inl (sleeps_of_move (by simp) hv)
  unfold resume
  cases w with
  | signaled =>
    cases k with
    | start r => exact startcheck_turn u r
    | wait nsec => exact waitcheck_turn u nsec
  | timedout => exact herror
  | failed => exact herror

omit [DecidableEq τ] in
/-- A step of the destruction. -/
theorem delete_turn {r : Nat} (h : delete s r = some t) : Turn s (.delete r) t := by
  unfold delete at h
  split at h
  next hr =>
    obtain rfl := Option.some.inj h
    obtain ⟨hp, hthd, hn, hc⟩ := requestCancel_same s true
    exact .goOn r .deletingWait (by rw [hr]; exact .cancelSelf) (by simp [System.run, hp])
      (by simp [System.run, hn]) (by simp [System.run, hthd]) (by simp [System.run, hthd])
      (by simp [System.run, hc])
  next hr =>
    split at h
    next =>
      obtain rfl := Option.some.inj h
      exact .goOn r .deletingLast (by rw [hr]; exact .waitSelf) rfl rfl rfl rfl rfl
    next => exact absurd h (by simp)
  next hr =>
    obtain rfl := Option.some.inj h
    exact .delete r hr rfl rfl rfl rfl rfl
  next => exact absurd h (by simp)

/-- **Every step of the object is such a turn.** -/
theorem next_turn (h : next s a = some (l, t)) : Turn s a t := by
  cases a with
  | start u autodelete created =>
    obtain ⟨rfl, rfl⟩ := ifIdle_some h
    exact start_turn u autodelete created
  | wait u nsec =>
    obtain ⟨rfl, rfl⟩ := ifIdle_some h
    unfold wait
    split
    next =>
      split
      next => exact waitcheck_turn u nsec
      next => exact .call rfl rfl rfl rfl fun v c hv => .inl hv
    next => exact .call rfl rfl rfl rfl fun v c hv => .inl hv
  | cancel u sent =>
    obtain ⟨rfl, rfl⟩ := ifIdle_some h
    unfold cancel
    split
    next =>
      obtain ⟨hp, hthd, hn, hc⟩ := requestCancel_same s sent
      exact .call hp hn (by rw [hthd]) (by rw [hthd]) fun v c hv => .inl (sleeps_of_caller hc hv)
    next => exact .call rfl rfl rfl rfl fun v c hv => .inl hv
  | wake u w =>
    simp only [next] at h
    split at h
    next k c hu =>
      obtain ⟨-, rfl, rfl⟩ := guarded h
      exact .call rfl rfl rfl rfl fun v c hv => .inl (sleeps_of_move (by simp) hv)
    next => exact absurd h (by simp)
  | resume u =>
    simp only [next] at h
    split at h
    next k w hu =>
      obtain ⟨-, rfl, rfl⟩ := guarded h
      exact resume_turn u k w
    next => exact absurd h (by simp)
  | activate r =>
    obtain ⟨⟨-, hr⟩, rfl, rfl⟩ := guarded h
    exact .activate r hr
  | leave r ret =>
    obtain ⟨⟨-, hr⟩, rfl, rfl⟩ := guarded h
    exact .goOn r _ (by rw [hr]; exact .leave ret) rfl rfl rfl rfl rfl
  | actCancel r =>
    obtain ⟨⟨-, hr, -⟩, rfl, rfl⟩ := guarded h
    exact .goOn r _ (by rw [hr]; exact .actCancel) rfl rfl rfl rfl rfl
  | store r =>
    simp only [next] at h
    split at h
    next ret hr =>
      obtain ⟨-, rfl, rfl⟩ := guarded h
      exact .goOn r _ (by rw [hr]; exact .store ret) rfl rfl rfl rfl rfl
    next => exact absurd h (by simp)
  | finalize r =>
    simp only [next] at h
    split at h
    next b hr =>
      obtain ⟨-, rfl, rfl⟩ := guarded h
      exact .finalize r b hr
    next => exact absurd h (by simp)
  | delete r =>
    simp only [next] at h
    split at h
    next =>
      obtain ⟨t', ht', heq⟩ := Option.map_eq_some_iff.mp h
      obtain ⟨rfl, rfl⟩ := Prod.mk.inj heq
      exact delete_turn ht'
    next => exact absurd h (by simp)

/-! ## §3. What a step does to the lock and the procedures. -/

/-- **What a step can do** to the object with its lock. -/
inductive LockedTurn (f : Locked τ) (l : LockedLabel τ) (f' : Locked τ) : Prop
  | plain (a : Action τ) (m : Label τ) (ha : l.action = .plain a)
      (hproc : containsProc f.sys a = false) (hlock : needsWaitLock f.sys a → f.waitLock = none)
      (hs : next f.sys a = some (m, f'.sys)) (hw : f'.waitLock = f.waitLock)
      (hcalls : f'.finalCalls = f.finalCalls) (hreturns : f'.finalReturns = f.finalReturns)
  | callFinal (r : Nat) (b : Bool) (ha : l.action = .callFinal r)
      (hr : f.sys.phase r = .finishing b) (hfree : f.waitLock = none) (hs : f'.sys = f.sys)
      (hw : f'.waitLock = some r)
      (hcalls : f'.finalCalls = Function.update f.finalCalls r (f.finalCalls r + 1))
      (hreturns : f'.finalReturns = f.finalReturns)
  | returnFinal (r : Nat) (b : Bool) (ha : l.action = .returnFinal r)
      (hr : f.sys.phase r = .finishing b) (hthd : f.sys.isThd = true)
      (hheld : f.waitLock = some r) (hs : f'.sys = finalize f.sys r) (hw : f'.waitLock = none)
      (hcalls : f'.finalCalls = f.finalCalls)
      (hreturns : f'.finalReturns = Function.update f.finalReturns r (f.finalReturns r + 1))
  | cancelInFinal (r : Nat) (ha : l.action = .cancelInFinal r)
      (hr : f.sys.phase r = .finishing false) (hheld : f.waitLock = some r)
      (hs : f'.sys = f.sys.run r .ended) (hw : f'.waitLock = some r)
      (hreturns : f'.finalReturns = f.finalReturns)
  | callFreeup (r : Nat) (ha : l.action = .callFreeup r) (hr : f.sys.phase r = .deletingLast)
      (hfree : f.waitLock = none) (hs : f'.sys = f.sys) (hw : f'.waitLock = some r)
      (hcalls : f'.finalCalls = f.finalCalls) (hreturns : f'.finalReturns = f.finalReturns)
  | returnFreeup (r : Nat) (ha : l.action = .returnFreeup r)
      (hr : f.sys.phase r = .deletingLast) (hthd : f.sys.isThd = true)
      (hheld : f.waitLock = some r) (hs : delete f.sys r = some f'.sys) (hw : f'.waitLock = none)
      (hcalls : f'.finalCalls = f.finalCalls) (hreturns : f'.finalReturns = f.finalReturns)
  | cancelInFreeup (r : Nat) (ha : l.action = .cancelInFreeup r)
      (hended : f'.sys.phase r = .ended) (hw : f'.waitLock = some r)

/-- **Every step is one of the seven.** -/
theorem lockedStep_cases {f f' : Locked τ} {l : LockedLabel τ} (h : LockedStep f l f') :
    LockedTurn f l f' := by
  obtain ⟨a, ha⟩ := h
  unfold nextLocked at ha
  split at ha
  next b =>
    split at ha
    next hc =>
      obtain ⟨p, hp, heq⟩ := Option.map_eq_some_iff.mp ha
      cases heq
      exact .plain b p.1 rfl hc.1 hc.2 hp rfl rfl rfl
    next => exact absurd ha (by simp)
  next r =>
    split at ha
    next b hr =>
      split at ha
      next hc =>
        cases ha
        exact .callFinal r b rfl hr hc.2 rfl rfl rfl rfl
      next => exact absurd ha (by simp)
    next => exact absurd ha (by simp)
  next r =>
    split at ha
    next b hr =>
      split at ha
      next hc =>
        cases ha
        exact .returnFinal r b rfl hr hc.1 hc.2 rfl rfl rfl rfl
      next => exact absurd ha (by simp)
    next => exact absurd ha (by simp)
  next r =>
    split at ha
    next hc =>
      cases ha
      exact .cancelInFinal r rfl hc.1 hc.2.1 rfl hc.2.1 rfl
    next => exact absurd ha (by simp)
  next r =>
    split at ha
    next hc =>
      cases ha
      exact .callFreeup r rfl hc.1 hc.2.2 rfl rfl rfl rfl
    next => exact absurd ha (by simp)
  next r =>
    split at ha
    next hc =>
      obtain ⟨s, hs, heq⟩ := Option.map_eq_some_iff.mp ha
      cases heq
      exact .returnFreeup r rfl hc.1 hc.2.1 hc.2.2 hs rfl rfl rfl
    next => exact absurd ha (by simp)
  next r =>
    split at ha
    next hc =>
      cases ha
      exact .cancelInFreeup r rfl (Function.update_self ..) hc.2.1
    next => exact absurd ha (by simp)

end Mccp.Thread
