/-
  Mccp.Gstate.Workers
  ───────────────────
  **THE TRACKER, ITS MUTEX AND THE PTHREADS OF THE WORKERS.**

  The tracker with its lock as a mutex, and the pthreads of the pipeline workers
  beside threads that make any calls.  A pthread that is cancelled in the wait for
  STARTED has the lock again when s_worker_finalize() runs, and that one calls
  mccp_global_state_cancel_janitor() to give it back: unless `m_is_started` tells
  that the main loop has begun.  The flag belongs to the worker, not to the pthread:
  nothing clears it when the worker is started once more.

      nextWorkers  — one step of the system (executable)
      Moves        — what a step can be (`step_moves`)
      Shape        — how pthreads, phases and places fit together

  Cancellation points are the condition wait and the main loop; the logger shuts
  them out while it writes.
-/
import Mccp.Gstate.Opening
import Mccp.Lib.Locked

namespace Mccp.Gstate.Janitor

open Monitor Transition

/-! ## §1. The workers and the tracker. -/

/-- Where a pthread of a worker is in `s_worker_main`. -/
inductive Phase where
  | fresh
  /-- In the call that waits for STARTED. -/
  | opening
  /-- The call has returned. -/
  | passing (r : Ret)
  /-- In `m_proc`. -/
  | looping
  /-- Cancelled, in `s_worker_finalize`. -/
  | finalizing
  | finished
  deriving DecidableEq, Repr

/-- The pthread of a worker has begun and not ended. -/
def Phase.live : Phase → Bool
  | .fresh => false
  | .finished => false
  | _ => true

/-- The tracker with its mutex, for the threads `τ`. -/
abbrev Tracked (τ : Type) := Locked.State τ Tracker Call Cont Ret Cond

/-- What is seen at the tracker. -/
abbrev Seen (τ : Type) := Locked.Seen τ Call Cont Ret Cond Empty

/-- Where a thread is, at the tracker. -/
abbrev Place := Locked.Place Tracker Call Cont Ret Cond

/-- The tracker, the pthreads and the worker objects. -/
structure Workers (τ W : Type) where
  gs : Tracked τ
  phase : τ → Phase
  /-- `m_is_started`. -/
  started : W → Bool
  /-- The pthread that the worker has. -/
  running : W → Option τ
  /-- `mccp_exit_fatal` has been called. -/
  exited : Bool

variable {τ W : Type}

/-- Workers that have just been created. -/
def Workers.init (τ W : Type) : Workers τ W where
  gs := Locked.State.init τ Tracker.initial
  phase _ := .fresh
  started _ := false
  running _ := none
  exited := false

/-- What a scheduler can choose. -/
inductive Action (τ : Type) where
  /-- A step at the tracker. -/
  | gs (a : Locked.Action τ Call)
  /-- The worker acts on what its wait has returned. -/
  | pass (t : τ)
  /-- `m_proc` returns. -/
  | finish (t : τ)
  deriving DecidableEq, Repr

/-- What is seen of a step. -/
inductive Label (τ : Type) where
  | gs (l : Seen τ)
  | own (t : τ)
  deriving DecidableEq, Repr

/-- The thread that has taken the step. -/
def Label.thread : Label τ → τ
  | .gs l => l.thread
  | .own t => t

/-- The step at the tracker, if it is one. -/
def Label.gs? : Label τ → Option (Seen τ)
  | .gs l => some l
  | .own _ => none

/-- The program of a worker's pthread, at the tracker: the one call is the wait, and
the janitor is called unless the flag is set. -/
def Phase.permits (free flag : Bool) : Phase → Seen τ → Bool
  | .fresh, .call _ c => c = .waitFor openingWait ∧ free = true
  | .opening, .quiet _ => true
  | .opening, .seg _ _ _ => true
  | .opening, .wake _ _ => true
  | .opening, .unlock _ _ => true
  | .opening, .cancel _ _ => true
  | .looping, .cancel _ _ => true
  | .finalizing, .quiet _ => true
  | .finalizing, .clean _ _ janitor => janitor = !flag
  | _, _ => false

/-- The other threads are not cancelled. -/
def uncancelled : Seen τ → Bool
  | .cancel _ _ => false
  | .clean _ _ _ => false
  | _ => true

/-- Where the step leaves the pthread. -/
def Phase.after (p : Phase) : Seen τ → Phase
  | .call _ _ => .opening
  | .unlock _ r => .passing r
  | .cancel _ _ => .finalizing
  | .clean _ _ _ => .finished
  | _ => p

/-- The pthread of the worker, after the step. -/
def pthreadAfter (running : Option τ) : Seen τ → Option τ
  | .call t _ => some t
  | .clean _ _ _ => none
  | _ => running

/-- The pthread `t` of worker `w` may take the step; a worker that has a pthread is
not started. -/
def Workers.permits (s : Workers τ W) (w : W) (l : Seen τ) : Bool :=
  (s.phase l.thread).permits (s.running w).isNone (s.started w) l

variable [DecidableEq τ] [DecidableEq W]

/-- The state after a step of the worker's pthread at the tracker. -/
def Workers.moved (s : Workers τ W) (w : W) (l : Seen τ) (gs : Tracked τ) : Workers τ W :=
  { s with
    gs := gs
    phase := Function.update s.phase l.thread ((s.phase l.thread).after l)
    running := Function.update s.running w (pthreadAfter (s.running w) l) }

/-- The pthread of the worker returns; it is not cancelled any more. -/
def Workers.returned (s : Workers τ W) (w : W) (t : τ) : Workers τ W :=
  { s with
    phase := Function.update s.phase t .finished
    running := Function.update s.running w none }

/-- `s_worker_main`, from the end of its wait on. -/
def Workers.passed (s : Workers τ W) (w : W) (t : τ) (r : Ret) : Workers τ W :=
  match sWorkerMain r with
  | .mainLoop =>
      { s with
        started := Function.update s.started w true
        phase := Function.update s.phase t .looping }
  | .exitFatal _ => { s with exited := true }
  | .returns _ => s.returned w t

/-- **One step**; `role t` is the worker that pthread `t` belongs to, if any. -/
def nextWorkers (role : τ → Option W) (s : Workers τ W) :
    Action τ → Option (Label τ × Workers τ W)
  | .gs a =>
      if s.exited then none else
      match Locked.next code s.gs a with
      | none => none
      | some (l, gs) =>
          match role l.thread with
          | none => if uncancelled l then some (.gs l, { s with gs := gs }) else none
          | some w => if s.permits w l then some (.gs l, s.moved w l gs) else none
  | .pass t =>
      if s.exited then none else
      match role t, s.phase t with
      | some w, .passing r => some (.own t, s.passed w t r)
      | _, _ => none
  | .finish t =>
      if s.exited then none else
      match role t, s.phase t with
      | some w, .looping => some (.own t, s.returned w t)
      | _, _ => none

/-- The transition relation. -/
abbrev Step (role : τ → Option W) : Workers τ W → Label τ → Workers τ W → Prop :=
  observed (nextWorkers role)

/-! ## §2. What a step can be. -/

variable {role : τ → Option W} {s s' : Workers τ W} {l : Label τ} {t u : τ} {w : W}

/-- **What a step can be.** -/
inductive Moves (role : τ → Option W) (s : Workers τ W) : Label τ → Workers τ W → Prop
  | other (l : Seen τ) (gs : Tracked τ) (hrole : role l.thread = none)
      (hstep : Locked.Step code s.gs l gs) (hl : uncancelled l = true) :
      Moves role s (.gs l) { s with gs := gs }
  | worker (w : W) (l : Seen τ) (gs : Tracked τ) (hrole : role l.thread = some w)
      (hstep : Locked.Step code s.gs l gs) (hl : s.permits w l = true) :
      Moves role s (.gs l) (s.moved w l gs)
  | passes (w : W) (t : τ) (r : Ret) (hrole : role t = some w) (hphase : s.phase t = .passing r) :
      Moves role s (.own t) (s.passed w t r)
  | finishes (w : W) (t : τ) (hrole : role t = some w) (hphase : s.phase t = .looping) :
      Moves role s (.own t) (s.returned w t)

theorem step_moves (h : Step role s l s') : s.exited = false ∧ Moves role s l s' := by
  obtain ⟨a, ha⟩ := h
  have hopen : s.exited = false := by
    by_contra hexited
    have htrue : s.exited = true := by simpa using hexited
    cases a <;> simp [nextWorkers, htrue] at ha
  refine ⟨hopen, ?_⟩
  have hnot : ¬ s.exited = true := by simp [hopen]
  cases a with
  | gs a =>
    simp only [nextWorkers, if_neg hnot] at ha
    split at ha
    next => exact absurd ha (by simp)
    next l gs hnext =>
      split at ha
      next hrole =>
        split at ha
        next hl =>
          obtain ⟨rfl, rfl⟩ := Prod.mk.inj (Option.some.inj ha)
          exact .other l gs hrole ⟨a, hnext⟩ hl
        next => exact absurd ha (by simp)
      next w hrole =>
        split at ha
        next hl =>
          obtain ⟨rfl, rfl⟩ := Prod.mk.inj (Option.some.inj ha)
          exact .worker w l gs hrole ⟨a, hnext⟩ hl
        next => exact absurd ha (by simp)
  | pass t =>
    simp only [nextWorkers, if_neg hnot] at ha
    split at ha
    next w r hrole hphase =>
      obtain ⟨rfl, rfl⟩ := Prod.mk.inj (Option.some.inj ha)
      exact .passes w t r hrole hphase
    next => exact absurd ha (by simp)
  | finish t =>
    simp only [nextWorkers, if_neg hnot] at ha
    split at ha
    next w hrole hphase =>
      obtain ⟨rfl, rfl⟩ := Prod.mk.inj (Option.some.inj ha)
      exact .finishes w t hrole hphase
    next => exact absurd ha (by simp)

/-- A step at the tracker is one of the mutex model. -/
theorem Moves.gs_step {l : Seen τ} (h : Moves role s (.gs l) s') :
    Locked.Step code s.gs l s'.gs := by
  cases h with
  | other l gs hrole hstep hl => exact hstep
  | worker w l gs hrole hstep hl => exact hstep

/-! ## §3. Phases and places. -/

/-- Where a pthread is at the tracker in each phase; who has left the wait for the
main loop has set the flag. -/
def Fits (flag : Bool) : Phase → Place → Prop
  | .fresh, .idle => True
  | .opening, .locking i => WorkerInput i
  | .opening, .entered i => WorkerInput i
  | .opening, .looked i _ => WorkerInput i
  | .opening, .waiting k _ => k = .waitFor openingWait
  | .opening, .unlocking _ => True
  | .passing _, .idle => True
  | .looping, .idle => flag = true
  | .finalizing, .dying _ => True
  | .finalizing, .cleaning _ => True
  | .finalizing, .quitting => flag = true
  | .finished, .idle => True
  | .finished, .ended _ => True
  | _, _ => False

/-- The thread has not been cancelled. -/
def Uncancelled : Place → Prop
  | .dying _ => False
  | .cleaning _ => False
  | .quitting => False
  | .ended _ => False
  | _ => True

/-- Setting the flag does no harm. -/
theorem Fits.flag {flag : Bool} {p : Phase} {place : Place} (h : Fits flag p place) :
    Fits true p place := by
  cases p <;> cases place <;> first | exact h | rfl

/-- Out of its call, a worker is not at the tracker. -/
theorem Fits.idle {flag : Bool} {p : Phase} {place : Place} (h : Fits flag p place)
    (hp : (∃ r, p = .passing r) ∨ p = .looping) : place = .idle := by
  obtain ⟨r, rfl⟩ | rfl := hp
  · cases place <;> first | rfl | exact h.elim
  · cases place <;> first | rfl | exact h.elim

omit [DecidableEq τ] [DecidableEq W] in
/-- A notification takes a worker on to its recheck. -/
theorem Fits.broadcast {flag : Bool} {p : Phase} {place : τ → Place}
    (h : Fits flag p (place u)) (ns : List Cond) :
    Fits flag p (Locked.broadcast ns place u) := by
  obtain hsame | ⟨k, c, hp, hwoken⟩ := Locked.broadcast_cases ns place u
  · rwa [hsame]
  · rw [hp] at h
    rw [hwoken]
    cases p with
    | opening =>
      obtain rfl : k = .waitFor openingWait := h
      exact .inr ⟨.signaled, rfl⟩
    | _ => exact h.elim

omit [DecidableEq τ] [DecidableEq W] in
theorem Uncancelled.broadcast {place : τ → Place} (h : Uncancelled (place u)) (ns : List Cond) :
    Uncancelled (Locked.broadcast ns place u) := by
  obtain hsame | ⟨k, c, -, hwoken⟩ := Locked.broadcast_cases ns place u
  · rwa [hsame]
  · rw [hwoken]
    trivial

/-- **How pthreads, phases and places fit together.** -/
structure Shape (role : τ → Option W) (s : Workers τ W) : Prop where
  /-- A worker has one pthread at a time. -/
  single : ∀ t w, role t = some w → (s.phase t).live = true → s.running w = some t
  worker : ∀ t w, role t = some w → Fits (s.started w) (s.phase t) (s.gs.place t)
  other : ∀ t, role t = none → Uncancelled (s.gs.place t)
  going : s.gs.halted = false

omit [DecidableEq τ] [DecidableEq W] in
theorem Shape.init : Shape role (Workers.init τ W) where
  single _ _ _ h := absurd h (by simp [Workers.init, Phase.live])
  worker _ _ _ := trivial
  other _ _ := trivial
  going := rfl

/-- No step at the tracker stops the process. -/
theorem step_going {m m' : Tracked τ} {l : Seen τ} (h : Locked.Step code m l m')
    (hm : m.halted = false) : m'.halted = false := by
  obtain ⟨-, hchanges⟩ := Locked.step_changes h
  cases hchanges with
  | writes t i v hp =>
    cases code.seg v i with
    | ret g r ns => exact hm
    | wait g k c ns => exact hm
    | halt e => exact e.elim
  | _ => exact hm

/-- **What a segment of a worker does**: it sleeps before STARTED, and returns
something else than the way to the main loop, or returns after. -/
theorem opening_seg {g : Tracker} {i : Input Call Cont} (hi : WorkerInput i) :
    (g.gs.num < GlobalState.started.num ∧
      code.seg g i = .wait g (.waitFor openingWait) .cond []) ∨
    ∃ r, code.seg g i = .ret g r [] ∧
      (sWorkerMain r = .mainLoop → GlobalState.started.num ≤ g.gs.num) := by
  by_cases htest : Tests i
  · have hseg := worker_seg (g := g) htest
    by_cases hlt : g.gs.num < GlobalState.started.num
    · exact .inl ⟨hlt, hseg.trans (if_pos hlt)⟩
    · exact .inr ⟨_, hseg.trans (if_neg hlt), fun _ => Nat.not_lt.mp hlt⟩
  · obtain rfl | ⟨wk, rfl⟩ := hi
    · exact absurd (.inl rfl) htest
    · cases wk with
      | signaled => exact absurd (.inr rfl) htest
      | timedout => exact .inr ⟨_, rfl, fun hmain => absurd hmain (by decide)⟩
      | failed => exact .inr ⟨_, rfl, fun hmain => absurd hmain (by decide)⟩

/-- **A step of a worker's pthread at the tracker takes it where its phase says.** -/
theorem fits_step {m m' : Tracked τ} {l : Seen τ} {p : Phase} {free flag : Bool}
    (hstep : Locked.Step code m l m') (hl : p.permits free flag l = true)
    (hfits : Fits flag p (m.place l.thread)) : Fits flag (p.after l) (m'.place l.thread) := by
  obtain ⟨-, hchanges⟩ := Locked.step_changes hstep
  have hno : ∀ {P : Prop}, false = true → P := fun h => Bool.noConfusion h
  cases hchanges with
  | called t c hp =>
    show Fits flag .opening ((m.put t (.locking (.enter c)) m.mutex).place t)
    rw [Locked.put_self]
    cases p with
    | fresh =>
      obtain ⟨rfl, -⟩ : c = .waitFor openingWait ∧ free = true := of_decide_eq_true hl
      exact .inl rfl
    | _ => exact hno hl
  | locked t i hp hm =>
    show Fits flag p ((m.put t (.entered i) (some t)).place t)
    rw [Locked.put_self]
    rw [show m.place (Locked.Seen.quiet t).thread = .locking i from hp] at hfits
    cases p <;> exact hfits
  | lockedToDie t k hp hm =>
    show Fits flag p ((m.put t (.cleaning k) (some t)).place t)
    rw [Locked.put_self]
    rw [show m.place (Locked.Seen.quiet t).thread = .dying k from hp] at hfits
    cases p <;> exact hfits
  | looks t i hp =>
    show Fits flag p ((m.put t (.looked i m.shared) m.mutex).place t)
    rw [Locked.put_self]
    rw [show m.place (Locked.Seen.quiet t).thread = .entered i from hp] at hfits
    cases p <;> exact hfits
  | writes t i v hp =>
    rw [show m.place (Locked.Seen.seg t i (code.seg v i).outcome).thread = .looked i v from hp]
      at hfits
    cases p with
    | opening =>
      show Fits flag .opening ((m.after t (code.seg v i)).place t)
      obtain ⟨-, hseg⟩ | ⟨r, hseg, -⟩ := opening_seg (g := v) hfits
      · rw [hseg]
        show Fits flag .opening (Function.update (Locked.broadcast [] m.place) t
          (.waiting (.waitFor openingWait) .cond) t)
        rw [Function.update_self]
        rfl
      · rw [hseg]
        show Fits flag .opening (Function.update (Locked.broadcast [] m.place) t (.unlocking r) t)
        rw [Function.update_self]
        trivial
    | _ => exact hfits.elim
  | unlocked t r hp =>
    show Fits flag (.passing r) ((m.put t .idle none).place t)
    rw [Locked.put_self]
    trivial
  | woken t w k c hp hw =>
    show Fits flag p ((m.put t (.locking (.resume k w)) m.mutex).place t)
    rw [Locked.put_self]
    rw [show m.place (Locked.Seen.wake t w).thread = .waiting k c from hp] at hfits
    cases p with
    | opening =>
      obtain rfl : k = .waitFor openingWait := hfits
      exact .inr ⟨w, rfl⟩
    | _ => exact hfits.elim
  | cancelled t k c hp =>
    show Fits flag .finalizing ((m.put t (.dying k) m.mutex).place t)
    rw [Locked.put_self]
    trivial
  | quits t hp =>
    show Fits flag .finalizing ((m.put t .quitting m.mutex).place t)
    rw [Locked.put_self]
    rw [show m.place (Locked.Seen.cancel t false).thread = .idle from hp] at hfits
    cases p with
    | looping => exact hfits
    | opening => exact hfits.elim
    | _ => exact hno hl
  | cleaned t k janitor hp =>
    show Fits flag .finished ((m.put t (.ended (some k)) (m.released janitor)).place t)
    rw [Locked.put_self]
    trivial
  | left t janitor hp =>
    show Fits flag .finished ((m.put t (.ended none) (m.released janitor)).place t)
    rw [Locked.put_self]
    trivial

/-- The other threads are not cancelled, and stay so. -/
theorem uncancelled_step {m m' : Tracked τ} {l : Seen τ} (hstep : Locked.Step code m l m')
    (hl : uncancelled l = true) (hplace : Uncancelled (m.place l.thread)) :
    Uncancelled (m'.place l.thread) := by
  obtain ⟨-, hchanges⟩ := Locked.step_changes hstep
  cases hchanges with
  | called t c hp =>
    show Uncancelled ((m.put t (.locking (.enter c)) m.mutex).place t)
    rw [Locked.put_self]
    trivial
  | locked t i hp hm =>
    show Uncancelled ((m.put t (.entered i) (some t)).place t)
    rw [Locked.put_self]
    trivial
  | lockedToDie t k hp hm =>
    rw [show m.place (Locked.Seen.quiet t).thread = .dying k from hp] at hplace
    exact hplace.elim
  | looks t i hp =>
    show Uncancelled ((m.put t (.looked i m.shared) m.mutex).place t)
    rw [Locked.put_self]
    trivial
  | writes t i v hp =>
    show Uncancelled ((m.after t (code.seg v i)).place t)
    cases code.seg v i with
    | ret g r ns =>
      show Uncancelled (Function.update (Locked.broadcast ns m.place) t (.unlocking r) t)
      rw [Function.update_self]
      trivial
    | wait g k c ns =>
      show Uncancelled (Function.update (Locked.broadcast ns m.place) t (.waiting k c) t)
      rw [Function.update_self]
      trivial
    | halt e => exact e.elim
  | unlocked t r hp =>
    show Uncancelled ((m.put t .idle none).place t)
    rw [Locked.put_self]
    trivial
  | woken t w k c hp hw =>
    show Uncancelled ((m.put t (.locking (.resume k w)) m.mutex).place t)
    rw [Locked.put_self]
    trivial
  | cancelled t k c hp => exact absurd hl (by simp [uncancelled])
  | quits t hp => exact absurd hl (by simp [uncancelled])
  | cleaned t k janitor hp => exact absurd hl (by simp [uncancelled])
  | left t janitor hp => exact absurd hl (by simp [uncancelled])

omit [DecidableEq τ] in
/-- A pthread that takes a step has begun, or begins when its worker has none. -/
theorem permits_live {p : Phase} {free flag : Bool} {l : Seen τ}
    (hl : p.permits free flag l = true) :
    p.live = true ∨ (free = true ∧ ∃ t c, l = .call t c) := by
  cases p with
  | fresh =>
    cases l with
    | call t c =>
      obtain ⟨-, hfree⟩ : c = .waitFor openingWait ∧ free = true := of_decide_eq_true hl
      exact .inr ⟨hfree, t, c, rfl⟩
    | _ => exact Bool.noConfusion hl
  | finished => cases l <;> exact Bool.noConfusion hl
  | _ => exact .inl rfl

omit [DecidableEq τ] [DecidableEq W] in
/-- Another pthread of the same worker has not begun, or has ended. -/
theorem Shape.alone (h : Shape role s) (ht : role t = some w) (hu : role u = some w) (hut : u ≠ t)
    (hlive : (s.phase t).live = true) : (s.phase u).live = false := by
  by_contra hnot
  have hsome := h.single u w hu (by simpa using hnot)
  exact hut (Option.some.inj (hsome.symm.trans (h.single t w ht hlive)))

/-- A pthread returns. -/
theorem Shape.returned (h : Shape role s) (hrole : role t = some w)
    (hlive : (s.phase t).live = true) (hidle : s.gs.place t = .idle) :
    Shape role (s.returned w t) where
  single u w' hu hbegun := by
    replace hbegun : (Function.update s.phase t .finished u).live = true := hbegun
    show Function.update s.running w none w' = some u
    by_cases hut : u = t
    · rw [hut, Function.update_self] at hbegun
      exact Bool.noConfusion hbegun
    · rw [Function.update_of_ne hut] at hbegun
      by_cases hw : w' = w
      · subst hw
        exact absurd hbegun (by simp [h.alone hrole hu hut hlive])
      · rw [Function.update_of_ne hw]
        exact h.single u w' hu hbegun
  worker u w' hu := by
    show Fits (s.started w') (Function.update s.phase t .finished u) (s.gs.place u)
    by_cases hut : u = t
    · rw [hut, Function.update_self, hidle]
      trivial
    · rw [Function.update_of_ne hut]
      exact h.worker u w' hu
  other := h.other
  going := h.going

omit [DecidableEq W] in
/-- Another thread takes a step at the tracker. -/
theorem Shape.elsewhere (h : Shape role s) {l : Seen τ} {gs : Tracked τ}
    (hgs : Locked.Step code s.gs l gs) (hut : u ≠ l.thread) :
    (∀ w, role u = some w → Fits (s.started w) (s.phase u) (gs.place u)) ∧
      (role u = none → Uncancelled (gs.place u)) := by
  obtain ⟨ns, hns⟩ := Locked.step_others hgs hut
  rw [hns]
  exact ⟨fun w hu => (h.worker u w hu).broadcast ns, fun hu => (h.other u hu).broadcast ns⟩

/-- A worker's pthread takes a step at the tracker. -/
theorem Shape.moved (h : Shape role s) {l : Seen τ} {gs : Tracked τ}
    (hrole : role l.thread = some w) (hgs : Locked.Step code s.gs l gs)
    (hl : s.permits w l = true) : Shape role (s.moved w l gs) where
  single u w' hu hlive := by
    show Function.update s.running w (pthreadAfter (s.running w) l) w' = some u
    replace hlive : (Function.update s.phase l.thread ((s.phase l.thread).after l) u).live = true :=
      hlive
    by_cases hut : u = l.thread
    · subst hut
      obtain rfl : w = w' := Option.some.inj (hrole.symm.trans hu)
      rw [Function.update_self] at hlive ⊢
      obtain hbegun | ⟨-, t, c, rfl⟩ := permits_live hl
      · have hsome := h.single l.thread w hrole hbegun
        cases l with
        | call t c => rfl
        | clean t asleep janitor => exact absurd hlive (by simp [Phase.after, Phase.live])
        | _ => exact hsome
      · rfl
    · rw [Function.update_of_ne hut] at hlive
      have hsome := h.single u w' hu hlive
      by_cases hw : w' = w
      · -- the worker's pthread is `u`, so it is not that of the step
        subst hw
        obtain hbegun | ⟨hfree, -⟩ := permits_live hl
        · exact absurd hlive (by simp [h.alone hrole hu hut hbegun])
        · exact absurd hfree (by simp [hsome])
      · rw [Function.update_of_ne hw]
        exact hsome
  worker u w' hu := by
    show Fits (s.started w') (Function.update s.phase l.thread ((s.phase l.thread).after l) u)
      (gs.place u)
    by_cases hut : u = l.thread
    · subst hut
      obtain rfl : w = w' := Option.some.inj (hrole.symm.trans hu)
      rw [Function.update_self]
      exact fits_step hgs hl (h.worker _ w hrole)
    · rw [Function.update_of_ne hut]
      exact (h.elsewhere hgs hut).1 w' hu
  other u hu := by
    refine (h.elsewhere hgs ?_).2 hu
    rintro rfl
    exact absurd (hu.symm.trans hrole) (by simp)
  going := step_going hgs h.going

/-- A worker acts on what its wait has returned. -/
theorem Shape.passed (h : Shape role s) {r : Ret} (hrole : role t = some w)
    (hphase : s.phase t = .passing r) : Shape role (s.passed w t r) := by
  have hlive : (s.phase t).live = true := by
    rw [hphase]
    rfl
  have hidle : s.gs.place t = .idle := by
    have hfits := h.worker t w hrole
    rw [hphase] at hfits
    exact hfits.idle (.inl ⟨r, rfl⟩)
  unfold Workers.passed
  split
  next =>
    refine ⟨fun u w' hu hbegun => h.single u w' hu ?_, fun u w' hu => ?_, h.other, h.going⟩
    · by_cases hut : u = t
      · rw [hut]
        exact hlive
      · replace hbegun : (Function.update s.phase t .looping u).live = true := hbegun
        rwa [Function.update_of_ne hut] at hbegun
    · show Fits (Function.update s.started w true w') (Function.update s.phase t .looping u)
        (s.gs.place u)
      by_cases hut : u = t
      · subst hut
        obtain rfl : w = w' := Option.some.inj (hrole.symm.trans hu)
        rw [Function.update_self, Function.update_self, hidle]
        rfl
      · rw [Function.update_of_ne hut]
        by_cases hw : w' = w
        · rw [hw, Function.update_self]
          exact (h.worker u w' hu).flag
        · rw [Function.update_of_ne hw]
          exact h.worker u w' hu
  next => exact ⟨h.single, h.worker, h.other, h.going⟩
  next => exact h.returned hrole hlive hidle

/-- **Every step keeps the shape.** -/
theorem Shape.step (h : Shape role s) (hstep : Step role s l s') : Shape role s' := by
  obtain ⟨-, hmoves⟩ := step_moves hstep
  cases hmoves with
  | other l gs hrole hgs hl =>
    refine ⟨h.single, fun u w hu => ?_, fun u hu => ?_, step_going hgs h.going⟩
    · refine (h.elsewhere hgs ?_).1 w hu
      rintro rfl
      exact absurd (hrole.symm.trans hu) (by simp)
    · by_cases hut : u = l.thread
      · subst hut
        exact uncancelled_step hgs hl (h.other _ hrole)
      · exact (h.elsewhere hgs hut).2 hu
  | worker w l gs hrole hgs hl => exact h.moved hrole hgs hl
  | passes w t r hrole hphase => exact h.passed hrole hphase
  | finishes w t hrole hphase =>
    have hfits := h.worker t w hrole
    rw [hphase] at hfits
    exact h.returned hrole (by rw [hphase]; rfl) (hfits.idle (.inr rfl))

end Mccp.Gstate.Janitor
