/-
  Mccp.Lib.Monitor
  ────────────────
  **MONITORS WITH CONDITION VARIABLES.**

  A monitor is a shared state behind one lock.  A call runs as a sequence of
  atomic SEGMENTS: from the moment the thread gets the lock to the moment it
  either returns or goes to sleep in a condition wait (which releases the
  lock).  A segment may notify conditions; a notified, timed-out or
  spuriously woken thread leaves the wait set at once and runs its next
  segment whenever it gets the lock back.

      Code        — the segments of a monitor, as one executable function
      next        — one step of any number of threads (executable)
      Signals.run — THE WAIT-SET RULE: if a segment that ends the reason to
                    wait on a condition also notifies it, nobody ever waits
                    without a reason
      Step.sim    — a segment-wise simulation lifts to threads
      next_call, next_resume, next_wake — what a choice that is open does

  Thread names, the shared state, calls, continuations, results, conditions
  and the ways to halt are all parameters.
-/
import Mccp.Lib.Transition

namespace Monitor

open Transition

/-! ## §1. Segments and threads. -/

/-- How a condition wait ended. -/
inductive Wakeup where
  /-- The wait returned success: a notification, or a spurious wake-up. -/
  | signaled
  /-- The deadline passed. -/
  | timedout
  /-- The wait failed. -/
  | failed
  deriving DecidableEq, Repr

/-- What starts a segment: a new call, or the end of a wait. -/
inductive Input (Call K : Type) where
  | enter (c : Call)
  | resume (k : K) (w : Wakeup)
  deriving DecidableEq, Repr

/-- How a segment ends: with a result, asleep on a condition (holding the
continuation `k`), or with the whole process stopped. -/
inductive Seg (σ K R C H : Type) where
  | ret (s : σ) (r : R) (notify : List C)
  | wait (s : σ) (k : K) (c : C) (notify : List C)
  | halt (h : H)

/-- What an observer of one segment sees. -/
inductive Outcome (K R C H : Type) where
  | returned (r : R)
  | slept (k : K) (c : C)
  | halted (h : H)
  deriving DecidableEq, Repr

/-- Where a thread is: outside the monitor, in the wait set of a condition, or
out of it and about to take the lock again. -/
inductive Thread (K C : Type) where
  | idle
  | waiting (k : K) (c : C)
  | woken (k : K) (w : Wakeup)
  deriving DecidableEq, Repr

/-- The code of a monitor: its segments, and the ways a wait may end. -/
structure Code (σ Call K R C H : Type) where
  seg : σ → Input Call K → Seg σ K R C H
  mayEnd : K → Wakeup → Bool

/-- The monitor and its threads; `halted` once the process has stopped. -/
structure State (τ σ K C : Type) where
  shared : σ
  thread : τ → Thread K C
  halted : Bool

variable {τ σ α Call K R R' C H : Type}

/-- What an observer sees of a segment. -/
def Seg.outcome : Seg σ K R C H → Outcome K R C H
  | .ret _ r _ => .returned r
  | .wait _ k c _ => .slept k c
  | .halt h => .halted h

/-- The shared state behind a segment that started in `s`. -/
def Seg.stateOr (s : σ) : Seg σ K R C H → σ
  | .ret s' _ _ => s'
  | .wait s' _ _ _ => s'
  | .halt _ => s

/-- All threads outside the monitor. -/
def State.init (τ : Type) {K C : Type} (s : σ) : State τ σ K C :=
  { shared := s, thread := fun _ => .idle, halted := false }

/-- Notifying conditions empties their wait sets. -/
def broadcast [DecidableEq C] (ns : List C) (thread : τ → Thread K C) : τ → Thread K C :=
  fun u => match thread u with
    | .waiting k c => if c ∈ ns then .woken k .signaled else .waiting k c
    | th => th

variable [DecidableEq τ] [DecidableEq C]

/-- The state after thread `t` ran a segment. -/
def State.after (s : State τ σ K C) (t : τ) : Seg σ K R C H → State τ σ K C
  | .ret s' _ ns =>
      { s with shared := s', thread := Function.update (broadcast ns s.thread) t .idle }
  | .wait s' k c ns =>
      { s with shared := s', thread := Function.update (broadcast ns s.thread) t (.waiting k c) }
  | .halt _ => { s with halted := true }

theorem State.after_shared (s : State τ σ K C) (t : τ) (sg : Seg σ K R C H) :
    (s.after t sg).shared = sg.stateOr s.shared := by
  cases sg <;> rfl

/-- What a scheduler can choose. -/
inductive Action (τ Call : Type) where
  /-- Thread `t` makes a call and runs its first segment. -/
  | call (t : τ) (c : Call)
  /-- The wait of thread `t` ends without a notification. -/
  | wake (t : τ) (w : Wakeup)
  /-- Thread `t` gets the lock back and runs its next segment. -/
  | resume (t : τ)
  deriving DecidableEq, Repr

/-- What an observer sees of a step. -/
inductive Label (τ Call K R C H : Type) where
  | seg (t : τ) (i : Input Call K) (o : Outcome K R C H)
  | wake (t : τ) (w : Wakeup)
  deriving DecidableEq, Repr

/-- **One step**, with what an observer sees of it; `none` when the choice is
not open in this state. -/
def next (code : Code σ Call K R C H) (s : State τ σ K C) :
    Action τ Call → Option (Label τ Call K R C H × State τ σ K C)
  | .call t c =>
      if s.halted then none else
      match s.thread t with
      | .idle =>
          let sg := code.seg s.shared (.enter c)
          some (.seg t (.enter c) sg.outcome, s.after t sg)
      | _ => none
  | .wake t w =>
      if s.halted then none else
      match s.thread t with
      | .waiting k _ =>
          if code.mayEnd k w then
            some (.wake t w, { s with thread := Function.update s.thread t (.woken k w) })
          else none
      | _ => none
  | .resume t =>
      if s.halted then none else
      match s.thread t with
      | .woken k w =>
          let sg := code.seg s.shared (.resume k w)
          some (.seg t (.resume k w) sg.outcome, s.after t sg)
      | _ => none

/-- The transition relation over observations. -/
abbrev Step (code : Code σ Call K R C H) :
    State τ σ K C → Label τ Call K R C H → State τ σ K C → Prop :=
  observed (next code)

/-! ## §2. What a step can do. -/

variable {code : Code σ Call K R C H} {s s' : State τ σ K C} {l : Label τ Call K R C H}

/-- The thread is at the start of this segment. -/
def Thread.Starts (th : Thread K C) : Input Call K → Prop
  | .enter _ => th = .idle
  | .resume k w => th = .woken k w

/-- **Inversion**: a step is one segment of one thread, or one wait that ends. -/
theorem step_cases (h : Step code s l s') :
    s.halted = false ∧
    ((∃ t i, (s.thread t).Starts i ∧ l = .seg t i (code.seg s.shared i).outcome ∧
        s' = s.after t (code.seg s.shared i)) ∨
     (∃ t w k c, s.thread t = .waiting k c ∧ code.mayEnd k w = true ∧ l = .wake t w ∧
        s' = { s with thread := Function.update s.thread t (.woken k w) })) := by
  obtain ⟨a, ha⟩ := h
  cases a with
  | call t c =>
    simp only [next] at ha
    split at ha
    next => exact absurd ha (by simp)
    next hh =>
      split at ha
      next ht =>
        simp only [Option.some.injEq, Prod.mk.injEq] at ha
        exact ⟨by simpa using hh, .inl ⟨t, .enter c, ht, ha.1.symm, ha.2.symm⟩⟩
      next => exact absurd ha (by simp)
  | wake t w =>
    simp only [next] at ha
    split at ha
    next => exact absurd ha (by simp)
    next hh =>
      split at ha
      next k c ht =>
        split at ha
        next hw =>
          simp only [Option.some.injEq, Prod.mk.injEq] at ha
          exact ⟨by simpa using hh, .inr ⟨t, w, k, c, ht, hw, ha.1.symm, ha.2.symm⟩⟩
        next => exact absurd ha (by simp)
      next => exact absurd ha (by simp)
  | resume t =>
    simp only [next] at ha
    split at ha
    next => exact absurd ha (by simp)
    next hh =>
      split at ha
      next k w ht =>
        simp only [Option.some.injEq, Prod.mk.injEq] at ha
        exact ⟨by simpa using hh, .inl ⟨t, .resume k w, ht, ha.1.symm, ha.2.symm⟩⟩
      next => exact absurd ha (by simp)

/-- A thread at the start of a segment can run it. -/
theorem step_seg {t : τ} {i : Input Call K} (hh : s.halted = false)
    (hi : (s.thread t).Starts i) :
    Step code s (.seg t i (code.seg s.shared i).outcome) (s.after t (code.seg s.shared i)) := by
  cases i with
  | enter c => exact ⟨.call t c, by simp [next, hh, show s.thread t = .idle from hi]⟩
  | resume k w => exact ⟨.resume t, by simp [next, hh, show s.thread t = .woken k w from hi]⟩

/-- A wait can end in every way the code allows. -/
theorem step_wake {t : τ} {w : Wakeup} {k : K} {c : C} (hh : s.halted = false)
    (ht : s.thread t = .waiting k c) (hw : code.mayEnd k w = true) :
    Step code s (.wake t w) { s with thread := Function.update s.thread t (.woken k w) } :=
  ⟨.wake t w, by simp [next, hh, ht, hw]⟩

omit [DecidableEq τ] in
theorem broadcast_waiting {ns : List C} {thread : τ → Thread K C} {u : τ} {k : K} {c : C}
    (h : broadcast ns thread u = .waiting k c) : thread u = .waiting k c ∧ c ∉ ns := by
  unfold broadcast at h
  split at h
  next k' c' hu =>
    split at h
    next => exact absurd h (by simp)
    next hc =>
      injection h with hk hc'
      subst hk hc'
      exact ⟨hu, hc⟩
  next hne => exact absurd h (hne k c)

/-! ## §3. The wait-set rule. -/

/-- The continuation a thread holds, if it is inside a call. -/
def Thread.cont? : Thread K C → Option K
  | .idle => none
  | .waiting k _ => some k
  | .woken k _ => some k

omit [DecidableEq τ] in
/-- Notifying keeps every thread's continuation. -/
theorem broadcast_cont? (ns : List C) (thread : τ → Thread K C) (u : τ) :
    (broadcast ns thread u).cont? = (thread u).cont? := by
  unfold broadcast
  split
  next k c hu =>
    rw [hu]
    split <;> rfl
  next => rfl

/-- A segment started in `s` keeps the invariant; it sleeps on a condition only
for its reason `B`, and notifies every condition whose reason it ends. -/
def Seg.Keeps (Inv : σ → Prop) (KInv : K → Prop) (B : C → σ → Prop) (s : σ) :
    Seg σ K R C H → Prop
  | .ret s' _ ns => Inv s' ∧ ∀ d, B d s → d ∉ ns → B d s'
  | .wait s' k c ns => Inv s' ∧ KInv k ∧ B c s' ∧ ∀ d, B d s → d ∉ ns → B d s'
  | .halt _ => True

/-- Every segment keeps the invariant and the reasons to wait. -/
structure Signals (code : Code σ Call K R C H) (Inv : σ → Prop) (KInv : K → Prop)
    (B : C → σ → Prop) : Prop where
  enter : ∀ s c, Inv s → (code.seg s (.enter c)).Keeps Inv KInv B s
  resume : ∀ s k w, Inv s → KInv k → (code.seg s (.resume k w)).Keeps Inv KInv B s

/-- What the wait-set rule carries from state to state. -/
structure WaitInv (Inv : σ → Prop) (KInv : K → Prop) (B : C → σ → Prop)
    (s : State τ σ K C) : Prop where
  shared : Inv s.shared
  cont : ∀ t k, (s.thread t).cont? = some k → KInv k
  reason : ∀ t k c, s.thread t = .waiting k c → B c s.shared

variable {Inv : σ → Prop} {KInv : K → Prop} {B : C → σ → Prop}

omit [DecidableEq τ] [DecidableEq C] in
theorem WaitInv.init {s : σ} (h : Inv s) :
    WaitInv (τ := τ) Inv KInv B (State.init τ s) where
  shared := h
  cont := by
    intro t k hk
    exact absurd hk (by simp [State.init, Thread.cont?])
  reason := by
    intro t k c hk
    exact absurd hk (by simp [State.init])

/-- One segment keeps the wait-set invariant. -/
theorem WaitInv.after {sg : Seg σ K R C H} {t : τ} (h : WaitInv Inv KInv B s)
    (hk : sg.Keeps Inv KInv B s.shared) : WaitInv Inv KInv B (s.after t sg) := by
  have hcont : ∀ ns u k, u ≠ t →
      (broadcast ns s.thread u).cont? = some k → KInv k := by
    intro ns u k _ hu
    exact h.cont u k (by rw [← broadcast_cont? ns]; exact hu)
  cases sg with
  | ret s' r ns =>
    obtain ⟨hinv, hB⟩ := hk
    refine ⟨hinv, ?_, ?_⟩
    · intro u k hu
      by_cases hut : u = t
      · subst hut
        simp [State.after, Thread.cont?] at hu
      · simp only [State.after, Function.update_of_ne hut] at hu
        exact hcont ns u k hut hu
    · intro u k c hu
      by_cases hut : u = t
      · subst hut
        simp [State.after] at hu
      · simp only [State.after, Function.update_of_ne hut] at hu
        obtain ⟨hw, hc⟩ := broadcast_waiting hu
        exact hB c (h.reason u k c hw) hc
  | wait s' k₀ c₀ ns =>
    obtain ⟨hinv, hk₀, hc₀, hB⟩ := hk
    refine ⟨hinv, ?_, ?_⟩
    · intro u k hu
      by_cases hut : u = t
      · subst hut
        simp only [State.after, Function.update_self, Thread.cont?, Option.some.injEq] at hu
        exact hu ▸ hk₀
      · simp only [State.after, Function.update_of_ne hut] at hu
        exact hcont ns u k hut hu
    · intro u k c hu
      by_cases hut : u = t
      · subst hut
        simp only [State.after, Function.update_self, Thread.waiting.injEq] at hu
        exact hu.2 ▸ hc₀
      · simp only [State.after, Function.update_of_ne hut] at hu
        obtain ⟨hw, hc⟩ := broadcast_waiting hu
        exact hB c (h.reason u k c hw) hc
  | halt _ => exact ⟨h.shared, h.cont, h.reason⟩

omit [DecidableEq C] in
/-- A wait that ends keeps it too. -/
theorem WaitInv.wake {t : τ} {k : K} {c : C} (h : WaitInv Inv KInv B s)
    (ht : s.thread t = .waiting k c) (w : Wakeup) :
    WaitInv Inv KInv B { s with thread := Function.update s.thread t (.woken k w) } := by
  refine ⟨h.shared, ?_, ?_⟩
  · intro u k' hu
    by_cases hut : u = t
    · subst hut
      exact h.cont u k' (by simpa [Thread.cont?, ht] using hu)
    · exact h.cont u k' (by simpa [Function.update_of_ne hut] using hu)
  · intro u k' c' hu
    by_cases hut : u = t
    · subst hut
      simp at hu
    · exact h.reason u k' c' (by simpa [Function.update_of_ne hut] using hu)

/-- **One step keeps the wait-set invariant.** -/
theorem Signals.step (hs : Signals code Inv KInv B) (h : WaitInv Inv KInv B s)
    (hstep : Step code s l s') : WaitInv Inv KInv B s' := by
  obtain ⟨-, ⟨t, i, hi, -, rfl⟩ | ⟨t, w, k, c, ht, -, -, rfl⟩⟩ := step_cases hstep
  · cases i with
    | enter c => exact h.after (hs.enter _ c h.shared)
    | resume k w =>
      have hk : KInv k := h.cont t k (by rw [show s.thread t = .woken k w from hi]; rfl)
      exact h.after (hs.resume _ k w h.shared hk)
  · exact h.wake ht w

/-- **THE WAIT-SET RULE**: in every reachable state, a thread in a wait set
has its reason to wait. -/
theorem Signals.run (hs : Signals code Inv KInv B) {s₀ : σ} (h0 : Inv s₀)
    {ls : List (Label τ Call K R C H)} (hrun : Run (Step code) (State.init τ s₀) ls s) :
    WaitInv Inv KInv B s :=
  hrun.invariant (fun _ _ _ h hstep => hs.step h hstep) (WaitInv.init h0)

/-! ## §4. Simulation between monitors. -/

/-- An outcome of which only a part `f` of the result is seen. -/
def Outcome.map (f : R → R') : Outcome K R C H → Outcome K R' C H
  | .returned r => .returned (f r)
  | .slept k c => .slept k c
  | .halted h => .halted h

/-- A step of which only a part `f` of the result is seen. -/
def Label.map (f : R → R') : Label τ Call K R C H → Label τ Call K R' C H
  | .seg t i o => .seg t i (o.map f)
  | .wake t w => .wake t w

/-- Two segments end alike, with the seen part `f` of the results equal and in
related states, and keep the continuation invariant. -/
def Seg.Sim (Rel : σ → α → Prop) (KInv : K → Prop) (f : R → R') :
    Seg σ K R C H → Seg α K R' C H → Prop
  | .ret s r ns, .ret a r' ns' => Rel s a ∧ f r = r' ∧ ns = ns'
  | .wait s k c ns, .wait a k' c' ns' => Rel s a ∧ KInv k ∧ k = k' ∧ c = c' ∧ ns = ns'
  | .halt h, .halt h' => h = h'
  | _, _ => False

/-- The two monitors are in related states and their threads at the same places. -/
structure Related (Rel : σ → α → Prop) (KInv : K → Prop)
    (s : State τ σ K C) (a : State τ α K C) : Prop where
  shared : Rel s.shared a.shared
  thread : s.thread = a.thread
  halted : s.halted = a.halted
  cont : ∀ t k, (s.thread t).cont? = some k → KInv k

variable {Rel : σ → α → Prop} {f : R → R'} {a : State τ α K C} {code' : Code α Call K R' C H}

/-- **Simulation of one step**: when the segment that the step runs is matched
by the other monitor's segment, the step is matched, with the same observation. -/
theorem Step.sim (h : Related Rel KInv s a) (hend : code.mayEnd = code'.mayEnd)
    (hseg : ∀ t i, (s.thread t).Starts i → (∀ k w, i = .resume k w → KInv k) →
      l = .seg t i (code.seg s.shared i).outcome →
      (code.seg s.shared i).Sim Rel KInv f (code'.seg a.shared i))
    (hstep : Step code s l s') : ∃ a', Step code' a (l.map f) a' ∧ Related Rel KInv s' a' := by
  obtain ⟨hh, ⟨t, i, hi, hl, rfl⟩ | ⟨t, w, k, c, ht, hw, rfl, rfl⟩⟩ := step_cases hstep
  · have hk : ∀ k w, i = .resume k w → KInv k := by
      intro k w heq
      subst heq
      exact h.cont t k (by rw [show s.thread t = .woken k w from hi]; rfl)
    have hsim := hseg t i hi hk hl
    have hi' : (a.thread t).Starts i := h.thread ▸ hi
    refine ⟨a.after t (code'.seg a.shared i), ?_, ?_⟩
    · have hout : (code.seg s.shared i).outcome.map f = (code'.seg a.shared i).outcome := by
        revert hsim
        cases code.seg s.shared i <;> cases code'.seg a.shared i <;>
          simp +contextual [Seg.Sim, Seg.outcome, Outcome.map]
      rw [hl, show Label.map f (.seg t i (code.seg s.shared i).outcome)
        = .seg t i ((code.seg s.shared i).outcome.map f) from rfl, hout]
      exact step_seg (h.halted ▸ hh) hi'
    · -- matched segments end in the same way, so only three pairs are left
      revert hsim
      have hcont : ∀ ns u k', (broadcast ns s.thread u).cont? = some k' → KInv k' := by
        intro ns u k' hu
        exact h.cont u k' (by rw [← broadcast_cont? ns]; exact hu)
      cases code.seg s.shared i with
      | ret s₁ r ns =>
        cases code'.seg a.shared i with
        | ret a₁ r' ns' =>
          intro hboth
          obtain ⟨hR, rfl, rfl⟩ := hboth
          refine ⟨hR, by simp [State.after, h.thread], h.halted, ?_⟩
          intro u k' hu
          by_cases hut : u = t
          · subst hut
            simp [State.after, Thread.cont?] at hu
          · simp only [State.after, Function.update_of_ne hut] at hu
            exact hcont ns u k' hu
        | wait => exact False.elim
        | halt => exact False.elim
      | wait s₁ k₁ c₁ ns =>
        cases code'.seg a.shared i with
        | ret => exact False.elim
        | wait a₁ k₂ c₂ ns' =>
          intro hboth
          obtain ⟨hR, hk₁, rfl, rfl, rfl⟩ := hboth
          refine ⟨hR, by simp [State.after, h.thread], h.halted, ?_⟩
          intro u k' hu
          by_cases hut : u = t
          · subst hut
            simp only [State.after, Function.update_self, Thread.cont?, Option.some.injEq] at hu
            exact hu ▸ hk₁
          · simp only [State.after, Function.update_of_ne hut] at hu
            exact hcont ns u k' hu
        | halt => exact False.elim
      | halt h₁ =>
        cases code'.seg a.shared i with
        | ret => exact False.elim
        | wait => exact False.elim
        | halt h₂ =>
          intro _
          exact ⟨h.shared, h.thread, rfl, h.cont⟩
  · -- a wake-up runs no code
    refine ⟨_, step_wake (h.halted ▸ hh) (h.thread ▸ ht) (hend ▸ hw), h.shared, ?_, h.halted, ?_⟩
    · simp [h.thread]
    · intro u k' hu
      by_cases hut : u = t
      · subst hut
        exact h.cont u k' (by simpa [Thread.cont?, ht] using hu)
      · exact h.cont u k' (by simpa [Function.update_of_ne hut] using hu)

/-! ## §5. What a choice does. -/

/-- A call that is made runs its first segment. -/
theorem next_call {t : τ} {c : Call} (h : next code s (.call t c) = some (l, s')) :
    s.thread t = .idle ∧ l = .seg t (.enter c) (code.seg s.shared (.enter c)).outcome ∧
      s' = s.after t (code.seg s.shared (.enter c)) := by
  simp only [next] at h
  split at h
  next => exact absurd h (by simp)
  next =>
    split at h
    next ht =>
      simp only [Option.some.injEq, Prod.mk.injEq] at h
      exact ⟨ht, h.1.symm, h.2.symm⟩
    next => exact absurd h (by simp)

/-- A woken thread that goes on runs its next segment. -/
theorem next_resume {t : τ} (h : next code s (.resume t) = some (l, s')) :
    ∃ k w, s.thread t = .woken k w ∧
      l = .seg t (.resume k w) (code.seg s.shared (.resume k w)).outcome ∧
      s' = s.after t (code.seg s.shared (.resume k w)) := by
  simp only [next] at h
  split at h
  next => exact absurd h (by simp)
  next =>
    split at h
    next k w ht =>
      simp only [Option.some.injEq, Prod.mk.injEq] at h
      exact ⟨k, w, ht, h.1.symm, h.2.symm⟩
    next => exact absurd h (by simp)

/-- A wait that ends runs nothing. -/
theorem next_wake {t : τ} {w : Wakeup} (h : next code s (.wake t w) = some (l, s')) :
    l = .wake t w ∧ s'.shared = s.shared := by
  simp only [next] at h
  split at h
  next => exact absurd h (by simp)
  next =>
    split at h
    next =>
      split at h
      next =>
        simp only [Option.some.injEq, Prod.mk.injEq] at h
        obtain ⟨rfl, rfl⟩ := h
        exact ⟨rfl, rfl⟩
      next => exact absurd h (by simp)
    next => exact absurd h (by simp)

/-- A segment of one thread keeps what the others still have to do. -/
theorem State.after_cont? {s : State τ σ K C} {t u : τ} (hut : u ≠ t) (sg : Seg σ K R C H) :
    ((s.after t sg).thread u).cont? = (s.thread u).cont? := by
  cases sg with
  | ret s' r ns =>
    show (Function.update (broadcast ns s.thread) t .idle u).cont? = _
    rw [Function.update_of_ne hut, broadcast_cont?]
  | wait s' k c ns =>
    show (Function.update (broadcast ns s.thread) t (.waiting k c) u).cont? = _
    rw [Function.update_of_ne hut, broadcast_cont?]
  | halt h => rfl

/-- What the thread of a segment still has to do after it. -/
theorem State.after_own {s : State τ σ K C} {t : τ} {sg : Seg σ K R C H} {k : K}
    (hh : ∀ h, sg ≠ .halt h) (hk : ((s.after t sg).thread t).cont? = some k) :
    ∃ s' c ns, sg = .wait s' k c ns := by
  cases sg with
  | ret s' r ns =>
    change (Function.update (broadcast ns s.thread) t .idle t).cont? = some k at hk
    rw [Function.update_self] at hk
    exact absurd hk (by simp [Thread.cont?])
  | wait s' k' c ns =>
    change (Function.update (broadcast ns s.thread) t (.waiting k' c) t).cont? = some k at hk
    rw [Function.update_self] at hk
    obtain rfl := Option.some.inj hk
    exact ⟨s', c, ns, rfl⟩
  | halt h => exact absurd rfl (hh h)

end Monitor
