/-
  Mccp.Lib.Locked
  ───────────────
  **MONITORS WITH THEIR MUTEX, AND THREADS THAT ARE CANCELLED.**

  The code of a monitor (`Mccp.Lib.Monitor`), one level below.  A segment is no
  longer one step: the thread takes the mutex, looks at the shared state, writes
  what the segment makes of what it has seen, and gives the mutex back.  A thread
  that is cancelled in its condition wait takes the mutex once more and runs its
  clean-up handler with it: a handler that is to give it back calls the JANITOR,
  which unlocks.  One that is cancelled outside of its calls runs its handler
  without the mutex, and should not call it.

      next              — one step of any number of threads (executable)
      Changes           — what a step can be (`step_changes`)
      Inv               — the mutex is with the one thread that is past the lock,
                          and what that thread has seen is the shared state
      refines_run       — a run with the right janitors is one of the monitor
      right_of_inWaits  — they are right when cancellations are acted on in waits
      holder_steps      — who holds the mutex can give it back
      stuck_run         — a handler that keeps it keeps it for ever

  An unlock frees the mutex, whoever holds it.
-/
import Mccp.Lib.Monitor

namespace Monitor.Locked

open Transition

/-! ## §1. Threads and the mutex. -/

/-- Where a thread is. -/
inductive Place (σ Call K R C : Type) where
  | idle
  /-- About to take the mutex, for a call or on the way out of a wait. -/
  | locking (i : Input Call K)
  /-- With the mutex: before it looks, and after it has seen the state. -/
  | entered (i : Input Call K)
  | looked (i : Input Call K) (seen : σ)
  /-- Has written, and gives the mutex back. -/
  | unlocking (r : R)
  | waiting (k : K) (c : C)
  /-- Has acted on a cancellation in its wait: before the mutex, and with it. -/
  | dying (k : K)
  | cleaning (k : K)
  /-- Has acted on a cancellation outside of its calls. -/
  | quitting
  /-- Its clean-up handler has returned. -/
  | ended (k : Option K)
  deriving DecidableEq, Repr

/-- The monitor, its mutex and its threads. -/
structure State (τ σ Call K R C : Type) where
  shared : σ
  mutex : Option τ
  place : τ → Place σ Call K R C
  halted : Bool

variable {τ σ Call K R C H : Type}

/-- All threads outside, and the mutex free. -/
def State.init (τ : Type) {Call K R C : Type} (s : σ) : State τ σ Call K R C where
  shared := s
  mutex := none
  place _ := .idle
  halted := false

/-- What a scheduler can choose; `janitor` tells whether the handler calls it. -/
inductive Action (τ Call : Type) where
  | call (t : τ) (c : Call)
  | lock (t : τ)
  | look (t : τ)
  | write (t : τ)
  | unlock (t : τ)
  | wake (t : τ) (w : Wakeup)
  | cancel (t : τ)
  | clean (t : τ) (janitor : Bool)
  deriving DecidableEq, Repr

/-- The thread that takes the step. -/
def Action.thread : Action τ Call → τ
  | .call t _ => t
  | .lock t => t
  | .look t => t
  | .write t => t
  | .unlock t => t
  | .wake t _ => t
  | .cancel t => t
  | .clean t _ => t

/-- What is seen of a step; `asleep` tells whether a cancellation was acted on in
a wait. -/
inductive Seen (τ Call K R C H : Type) where
  | call (t : τ) (c : Call)
  | seg (t : τ) (i : Input Call K) (o : Outcome K R C H)
  | unlock (t : τ) (r : R)
  | wake (t : τ) (w : Wakeup)
  | cancel (t : τ) (asleep : Bool)
  | clean (t : τ) (asleep janitor : Bool)
  /-- Takes the mutex, or looks at the state. -/
  | quiet (t : τ)
  deriving DecidableEq, Repr

/-- The thread that has taken the step. -/
def Seen.thread : Seen τ Call K R C H → τ
  | .call t _ => t
  | .seg t _ _ => t
  | .unlock t _ => t
  | .wake t _ => t
  | .cancel t _ => t
  | .clean t _ _ => t
  | .quiet t => t

/-- Notifying conditions sends those who wait on them to the mutex. -/
def broadcast [DecidableEq C] (ns : List C) (place : τ → Place σ Call K R C) :
    τ → Place σ Call K R C :=
  fun u => match place u with
    | .waiting k c => if c ∈ ns then .locking (.resume k .signaled) else .waiting k c
    | p => p

/-- A notification takes a thread out of its wait, or does nothing to it. -/
theorem broadcast_cases [DecidableEq C] (ns : List C) (place : τ → Place σ Call K R C) (u : τ) :
    broadcast ns place u = place u ∨
      ∃ k c, place u = .waiting k c ∧ broadcast ns place u = .locking (.resume k .signaled) := by
  unfold broadcast
  split
  next k c hp =>
    split
    next => exact .inr ⟨k, c, hp, rfl⟩
    next => exact .inl hp.symm
  next => exact .inl rfl

variable [DecidableEq τ] [DecidableEq C]

/-- The state with another place for thread `t`, and another mutex. -/
def State.put (s : State τ σ Call K R C) (t : τ) (p : Place σ Call K R C) (mutex : Option τ) :
    State τ σ Call K R C :=
  { s with mutex := mutex, place := Function.update s.place t p }

/-- The state after thread `t` has written what a segment makes; a wait gives the
mutex back. -/
def State.after (s : State τ σ Call K R C) (t : τ) : Seg σ K R C H → State τ σ Call K R C
  | .ret s' r ns =>
      { s with
        shared := s'
        place := Function.update (broadcast ns s.place) t (.unlocking r) }
  | .wait s' k c ns =>
      { s with
        shared := s'
        mutex := none
        place := Function.update (broadcast ns s.place) t (.waiting k c) }
  | .halt _ => { s with halted := true }

/-- The mutex after a clean-up handler. -/
def State.released (s : State τ σ Call K R C) (janitor : Bool) : Option τ :=
  if janitor then none else s.mutex

/-- **One step**, with what is seen of it; `none` when the choice is not open. -/
def next (code : Code σ Call K R C H) (s : State τ σ Call K R C) (a : Action τ Call) :
    Option (Seen τ Call K R C H × State τ σ Call K R C) :=
  if s.halted then none else
  match a, s.place a.thread with
  | .call t c, .idle => some (.call t c, s.put t (.locking (.enter c)) s.mutex)
  | .lock t, .locking i =>
      if s.mutex = none then some (.quiet t, s.put t (.entered i) (some t)) else none
  | .lock t, .dying k =>
      if s.mutex = none then some (.quiet t, s.put t (.cleaning k) (some t)) else none
  | .look t, .entered i => some (.quiet t, s.put t (.looked i s.shared) s.mutex)
  | .write t, .looked i v =>
      some (.seg t i (code.seg v i).outcome, s.after t (code.seg v i))
  | .unlock t, .unlocking r => some (.unlock t r, s.put t .idle none)
  | .wake t w, .waiting k _ =>
      if code.mayEnd k w then some (.wake t w, s.put t (.locking (.resume k w)) s.mutex) else none
  | .cancel t, .waiting k _ => some (.cancel t true, s.put t (.dying k) s.mutex)
  | .cancel t, .idle => some (.cancel t false, s.put t .quitting s.mutex)
  | .clean t janitor, .cleaning k =>
      some (.clean t true janitor, s.put t (.ended (some k)) (s.released janitor))
  | .clean t janitor, .quitting =>
      some (.clean t false janitor, s.put t (.ended none) (s.released janitor))
  | _, _ => none

/-- The transition relation. -/
abbrev Step (code : Code σ Call K R C H) :
    State τ σ Call K R C → Seen τ Call K R C H → State τ σ Call K R C → Prop :=
  observed (next code)

/-- A handler that has the mutex calls the janitor, and no other does. -/
def Right : State τ σ Call K R C → Seen τ Call K R C H → State τ σ Call K R C → Prop
  | _, .clean _ asleep janitor, _ => janitor = asleep
  | _, _, _ => True

variable {code : Code σ Call K R C H} {s s' : State τ σ Call K R C} {l : Seen τ Call K R C H}
  {t u : τ}

omit [DecidableEq C] in
@[simp] theorem put_self {p : Place σ Call K R C} {m : Option τ} : (s.put t p m).place t = p := by
  unfold State.put
  exact Function.update_self t p s.place

omit [DecidableEq C] in
theorem put_of_ne {p : Place σ Call K R C} {m : Option τ} (hu : u ≠ t) :
    (s.put t p m).place u = s.place u := by
  unfold State.put
  exact Function.update_of_ne hu p s.place

/-- **What a step can be.** -/
inductive Changes (code : Code σ Call K R C H) (s : State τ σ Call K R C) :
    Seen τ Call K R C H → State τ σ Call K R C → Prop
  | called (t : τ) (c : Call) (hp : s.place t = .idle) :
      Changes code s (.call t c) (s.put t (.locking (.enter c)) s.mutex)
  | locked (t : τ) (i : Input Call K) (hp : s.place t = .locking i) (hm : s.mutex = none) :
      Changes code s (.quiet t) (s.put t (.entered i) (some t))
  | lockedToDie (t : τ) (k : K) (hp : s.place t = .dying k) (hm : s.mutex = none) :
      Changes code s (.quiet t) (s.put t (.cleaning k) (some t))
  | looks (t : τ) (i : Input Call K) (hp : s.place t = .entered i) :
      Changes code s (.quiet t) (s.put t (.looked i s.shared) s.mutex)
  | writes (t : τ) (i : Input Call K) (v : σ) (hp : s.place t = .looked i v) :
      Changes code s (.seg t i (code.seg v i).outcome) (s.after t (code.seg v i))
  | unlocked (t : τ) (r : R) (hp : s.place t = .unlocking r) :
      Changes code s (.unlock t r) (s.put t .idle none)
  | woken (t : τ) (w : Wakeup) (k : K) (c : C) (hp : s.place t = .waiting k c)
      (hw : code.mayEnd k w = true) :
      Changes code s (.wake t w) (s.put t (.locking (.resume k w)) s.mutex)
  | cancelled (t : τ) (k : K) (c : C) (hp : s.place t = .waiting k c) :
      Changes code s (.cancel t true) (s.put t (.dying k) s.mutex)
  | quits (t : τ) (hp : s.place t = .idle) :
      Changes code s (.cancel t false) (s.put t .quitting s.mutex)
  | cleaned (t : τ) (k : K) (janitor : Bool) (hp : s.place t = .cleaning k) :
      Changes code s (.clean t true janitor) (s.put t (.ended (some k)) (s.released janitor))
  | left (t : τ) (janitor : Bool) (hp : s.place t = .quitting) :
      Changes code s (.clean t false janitor) (s.put t (.ended none) (s.released janitor))

theorem step_changes (h : Step code s l s') : s.halted = false ∧ Changes code s l s' := by
  obtain ⟨a, ha⟩ := h
  unfold next at ha
  split at ha
  next => exact absurd ha (by simp)
  next hh =>
    refine ⟨by simpa using hh, ?_⟩
    split at ha
    next t c hp =>
      obtain ⟨rfl, rfl⟩ := Prod.mk.inj (Option.some.inj ha)
      exact .called t c hp
    next t i hp =>
      split at ha
      next hm =>
        obtain ⟨rfl, rfl⟩ := Prod.mk.inj (Option.some.inj ha)
        exact .locked t i hp hm
      next => exact absurd ha (by simp)
    next t k hp =>
      split at ha
      next hm =>
        obtain ⟨rfl, rfl⟩ := Prod.mk.inj (Option.some.inj ha)
        exact .lockedToDie t k hp hm
      next => exact absurd ha (by simp)
    next t i hp =>
      obtain ⟨rfl, rfl⟩ := Prod.mk.inj (Option.some.inj ha)
      exact .looks t i hp
    next t i v hp =>
      obtain ⟨rfl, rfl⟩ := Prod.mk.inj (Option.some.inj ha)
      exact .writes t i v hp
    next t r hp =>
      obtain ⟨rfl, rfl⟩ := Prod.mk.inj (Option.some.inj ha)
      exact .unlocked t r hp
    next t w k c hp =>
      split at ha
      next hw =>
        obtain ⟨rfl, rfl⟩ := Prod.mk.inj (Option.some.inj ha)
        exact .woken t w k c hp hw
      next => exact absurd ha (by simp)
    next t k c hp =>
      obtain ⟨rfl, rfl⟩ := Prod.mk.inj (Option.some.inj ha)
      exact .cancelled t k c hp
    next t hp =>
      obtain ⟨rfl, rfl⟩ := Prod.mk.inj (Option.some.inj ha)
      exact .quits t hp
    next t janitor k hp =>
      obtain ⟨rfl, rfl⟩ := Prod.mk.inj (Option.some.inj ha)
      exact .cleaned t k janitor hp
    next t janitor hp =>
      obtain ⟨rfl, rfl⟩ := Prod.mk.inj (Option.some.inj ha)
      exact .left t janitor hp
    next => exact absurd ha (by simp)

/-- **The others**: a step leaves them where they are, but for those it notifies. -/
theorem step_others (h : Step code s l s') (hu : u ≠ l.thread) :
    ∃ ns, s'.place u = broadcast ns s.place u := by
  have hnil : s.place u = broadcast [] s.place u := by
    unfold broadcast
    cases s.place u <;> rfl
  obtain ⟨-, hchanges⟩ := step_changes h
  cases hchanges with
  | writes t i v hp =>
    cases code.seg v i with
    | ret s₁ r ns => exact ⟨ns, Function.update_of_ne hu _ _⟩
    | wait s₁ k c ns => exact ⟨ns, Function.update_of_ne hu _ _⟩
    | halt e => exact ⟨[], hnil⟩
  | called t c hp => exact ⟨[], (put_of_ne hu).trans hnil⟩
  | locked t i hp hm => exact ⟨[], (put_of_ne hu).trans hnil⟩
  | lockedToDie t k hp hm => exact ⟨[], (put_of_ne hu).trans hnil⟩
  | looks t i hp => exact ⟨[], (put_of_ne hu).trans hnil⟩
  | unlocked t r hp => exact ⟨[], (put_of_ne hu).trans hnil⟩
  | woken t w k c hp hw => exact ⟨[], (put_of_ne hu).trans hnil⟩
  | cancelled t k c hp => exact ⟨[], (put_of_ne hu).trans hnil⟩
  | quits t hp => exact ⟨[], (put_of_ne hu).trans hnil⟩
  | cleaned t k janitor hp => exact ⟨[], (put_of_ne hu).trans hnil⟩
  | left t janitor hp => exact ⟨[], (put_of_ne hu).trans hnil⟩

/-! ## §2. The mutex is with one thread. -/

/-- The thread is past the lock. -/
def Place.holds : Place σ Call K R C → Bool
  | .entered _ => true
  | .looked _ _ => true
  | .unlocking _ => true
  | .cleaning _ => true
  | _ => false

/-- **The mutex is with the one thread that is past the lock, and what that thread
has seen is the shared state.** -/
structure Inv (s : State τ σ Call K R C) : Prop where
  holder : ∀ t, s.mutex = some t ↔ (s.place t).holds = true
  fresh : ∀ t i v, s.place t = .looked i v → v = s.shared

omit [DecidableEq τ] [DecidableEq C] in
theorem Inv.init (v : σ) : Inv (State.init τ v : State τ σ Call K R C) where
  holder _ := iff_of_false (by simp [State.init]) (by simp [State.init, Place.holds])
  fresh _ _ _ h := absurd h (by simp [State.init])

omit [DecidableEq τ] [DecidableEq C] in
/-- No other thread is past the lock. -/
theorem Inv.alone (h : Inv s) (ht : (s.place t).holds = true) (hu : u ≠ t) :
    (s.place u).holds = false := by
  by_contra hholds
  have hmu := (h.holder u).mpr (by simpa using hholds)
  exact hu (Option.some.inj (hmu.symm.trans ((h.holder t).mpr ht)))

omit [DecidableEq C] in
/-- **A thread moves**: it takes the mutex when that is free, and gives it back when
it is its own. -/
theorem Inv.put (h : Inv s) {p : Place σ Call K R C} {m : Option τ}
    (htakes : p.holds = true → s.mutex = none ∨ s.mutex = some t)
    (hm : m = if p.holds then some t else if (s.place t).holds then none else s.mutex)
    (hlooked : ∀ i v, p = .looked i v → v = s.shared) : Inv (s.put t p m) where
  holder u := by
    show m = some u ↔ (Function.update s.place t p u).holds = true
    by_cases hu : u = t
    · subst hu
      rw [Function.update_self, hm]
      by_cases hp : p.holds = true
      · rw [if_pos hp]
        exact iff_of_true rfl hp
      · rw [if_neg hp]
        refine iff_of_false ?_ hp
        split
        next => simp
        next hnot => exact fun heq => hnot ((h.holder u).mp heq)
    · rw [Function.update_of_ne hu, hm, ← h.holder u]
      by_cases hp : p.holds = true
      · rw [if_pos hp]
        refine iff_of_false (fun heq => hu (Option.some.inj heq).symm) fun heq => ?_
        obtain hnone | hsome := htakes hp
        · exact absurd (hnone.symm.trans heq) (by simp)
        · exact hu (Option.some.inj (hsome.symm.trans heq)).symm
      · rw [if_neg hp]
        split
        next ht =>
          refine iff_of_false (by simp) fun heq => ?_
          exact hu (Option.some.inj (heq.symm.trans ((h.holder t).mpr ht)))
        next => rfl
  fresh u i v hu := by
    by_cases hut : u = t
    · subst hut
      exact hlooked i v (put_self.symm.trans hu)
    · exact h.fresh u i v ((put_of_ne hut).symm.trans hu)

omit [DecidableEq τ] in
theorem broadcast_holds (ns : List C) (place : τ → Place σ Call K R C) (u : τ) :
    (broadcast ns place u).holds = (place u).holds := by
  obtain hsame | ⟨k, c, hp, hwoken⟩ := broadcast_cases ns place u
  · rw [hsame]
  · rw [hwoken, hp]
    rfl

omit [DecidableEq τ] in
theorem broadcast_looked {ns : List C} {place : τ → Place σ Call K R C} {i : Input Call K} {v : σ}
    (h : broadcast ns place u = .looked i v) : place u = .looked i v := by
  obtain hsame | ⟨k, c, -, hwoken⟩ := broadcast_cases ns place u
  · exact hsame.symm.trans h
  · exact absurd (hwoken.symm.trans h) (by simp)

omit [DecidableEq τ] in
/-- A notification leaves the mutex and what has been seen alone. -/
theorem Inv.notify (h : Inv s) (ns : List C) : Inv { s with place := broadcast ns s.place } where
  holder u := by
    rw [broadcast_holds]
    exact h.holder u
  fresh u i v hu := h.fresh u i v (broadcast_looked hu)

omit [DecidableEq C] in
/-- The holder may write. -/
theorem Inv.store (h : Inv s) {p : Place σ Call K R C} {m : Option τ}
    (ht : (s.place t).holds = true) (hput : Inv (s.put t p m))
    (hlooked : ∀ i v, p ≠ .looked i v) (v' : σ) :
    Inv { s.put t p m with shared := v' } where
  holder := hput.holder
  fresh u i v hu := by
    have hplace : (s.put t p m).place u = .looked i v := hu
    by_cases hut : u = t
    · subst hut
      exact absurd (put_self.symm.trans hplace) (hlooked i v)
    · rw [put_of_ne hut] at hplace
      have halone := h.alone ht hut
      rw [hplace] at halone
      exact absurd halone (by simp [Place.holds])

/-- What a segment writes keeps the invariant. -/
theorem Inv.after (h : Inv s) (ht : (s.place t).holds = true) (sg : Seg σ K R C H) :
    Inv (s.after t sg) := by
  have hmutex := (h.holder t).mpr ht
  cases sg with
  | ret s' r ns =>
    have hn := h.notify ns
    have hnt : (broadcast ns s.place t).holds = true := by
      rw [broadcast_holds]
      exact ht
    have hput : Inv (State.put { s with place := broadcast ns s.place } t (.unlocking r)
        s.mutex) := by
      refine hn.put (fun _ => .inr hmutex) ?_ (fun _ _ heq => absurd heq (by simp))
      rw [hmutex]
      rfl
    exact hn.store hnt hput (by simp) s'
  | wait s' k c ns =>
    have hn := h.notify ns
    have hnt : (broadcast ns s.place t).holds = true := by
      rw [broadcast_holds]
      exact ht
    have hput : Inv (State.put { s with place := broadcast ns s.place } t (.waiting k c) none) := by
      refine hn.put (fun hp => absurd hp (by simp [Place.holds])) ?_
        (fun _ _ heq => absurd heq (by simp))
      show none = if _ then some t else if (broadcast ns s.place t).holds then none else s.mutex
      rw [if_pos hnt, if_neg (by simp [Place.holds])]
    exact hn.store hnt hput (by simp) s'
  | halt e => exact ⟨h.holder, h.fresh⟩

/-- **Every step with the right janitor keeps it.** -/
theorem Inv.step (h : Inv s) (hstep : Step code s l s') (hright : Right s l s') : Inv s' := by
  obtain ⟨-, hchanges⟩ := step_changes hstep
  have hquiet : ∀ {t : τ} {p : Place σ Call K R C}, (s.place t).holds = false →
      p.holds = false → (∀ i v, p ≠ .looked i v) → Inv (s.put t p s.mutex) := by
    intro t p ht hp hlooked
    refine h.put (fun hholds => absurd hholds (by simp [hp])) ?_
      (fun i v heq => absurd heq (hlooked i v))
    rw [if_neg (by simp [hp]), if_neg (by simp [ht])]
  cases hchanges with
  | called t c hp => exact hquiet (by rw [hp]; rfl) rfl (by simp)
  | locked t i hp hm =>
    exact h.put (fun _ => .inl hm) (by rfl) (fun _ _ heq => absurd heq (by simp))
  | lockedToDie t k hp hm =>
    exact h.put (fun _ => .inl hm) (by rfl) (fun _ _ heq => absurd heq (by simp))
  | looks t i hp =>
    have hm := (h.holder t).mpr (by rw [hp]; rfl)
    refine h.put (fun _ => .inr hm) ?_ (fun i' v heq => ?_)
    · rw [hm]
      rfl
    · injection heq with _ hv
      exact hv.symm
  | writes t i v hp => exact h.after (by rw [hp]; rfl) _
  | unlocked t r hp =>
    refine h.put (fun hholds => absurd hholds (by simp [Place.holds])) ?_
      (fun _ _ heq => absurd heq (by simp))
    rw [hp]
    rfl
  | woken t w k c hp hw => exact hquiet (by rw [hp]; rfl) rfl (by simp)
  | cancelled t k c hp => exact hquiet (by rw [hp]; rfl) rfl (by simp)
  | quits t hp => exact hquiet (by rw [hp]; rfl) rfl (by simp)
  | cleaned t k janitor hp =>
    -- the janitor gives the mutex back
    obtain rfl : janitor = true := hright
    refine h.put (fun hholds => absurd hholds (by simp [Place.holds])) ?_
      (fun _ _ heq => absurd heq (by simp))
    rw [hp]
    rfl
  | left t janitor hp =>
    obtain rfl : janitor = false := hright
    exact hquiet (by rw [hp]; rfl) rfl (by simp)

/-- **Only a segment changes the shared state**, and as the monitor's does. -/
theorem Inv.step_shared (h : Inv s) (hstep : Step code s l s') :
    s'.shared = s.shared ∨
      ∃ t i o, l = .seg t i o ∧ s'.shared = (code.seg s.shared i).stateOr s.shared := by
  obtain ⟨-, hchanges⟩ := step_changes hstep
  cases hchanges with
  | writes t i v hp =>
    obtain rfl := h.fresh t i v hp
    refine .inr ⟨t, i, _, rfl, ?_⟩
    cases code.seg s.shared i <;> rfl
  | _ => exact .inl rfl

/-- **The mutex is with one thread**, in every run with the right janitors. -/
theorem inv_run {v : σ} {ls : List (Seen τ Call K R C H)}
    (hrun : Run (restrict (Step code) Right) (State.init τ v) ls s) : Inv s :=
  hrun.invariant (fun _ _ _ h hstep => h.step hstep.1 hstep.2) (Inv.init v)

/-! ## §3. It is the monitor. -/

/-- Where a thread of the monitor is at the beginning of a segment. -/
def startOf : Input Call K → Thread K C
  | .enter _ => .idle
  | .resume k w => .woken k w

/-- Where the monitor sees the thread; one that has been cancelled in its wait is
out of it and does not come back. -/
def Place.thread : Place σ Call K R C → Thread K C
  | .idle => .idle
  | .locking i => startOf i
  | .entered i => startOf i
  | .looked i _ => startOf i
  | .unlocking _ => .idle
  | .waiting k c => .waiting k c
  | .dying k => .woken k .failed
  | .cleaning k => .woken k .failed
  | .quitting => .idle
  | .ended k => k.elim .idle fun k => .woken k .failed

/-- **The state, as the monitor sees it.** -/
def State.view (s : State τ σ Call K R C) : Monitor.State τ σ K C where
  shared := s.shared
  thread t := (s.place t).thread
  halted := s.halted

/-- **The step, as the monitor sees it**: a segment, or a wait that ends. -/
def Seen.view : Seen τ Call K R C H → Option (Label τ Call K R C H)
  | .seg t i o => some (.seg t i o)
  | .wake t w => some (.wake t w)
  | .cancel t true => some (.wake t .failed)
  | _ => none

omit [DecidableEq C] in
/-- A move, as the monitor sees it. -/
theorem view_put {p : Place σ Call K R C} {m : Option τ} :
    (s.put t p m).view =
      { s.view with thread := Function.update s.view.thread t p.thread } := by
  have hthread : (fun u => ((s.put t p m).place u).thread) =
      Function.update s.view.thread t p.thread := by
    funext u
    by_cases hu : u = t
    · subst hu
      rw [put_self, Function.update_self]
    · rw [put_of_ne hu, Function.update_of_ne hu]
      rfl
  exact congrArg (fun f => { s.view with thread := f }) hthread

omit [DecidableEq C] in
/-- A move that the monitor does not see. -/
theorem view_same {p : Place σ Call K R C} {m : Option τ} (h : p.thread = (s.place t).thread) :
    (s.put t p m).view = s.view := by
  rw [view_put, h]
  exact congrArg (fun f => { s.view with thread := f }) (Function.update_eq_self t s.view.thread)

omit [DecidableEq τ] in
theorem broadcast_thread (ns : List C) (place : τ → Place σ Call K R C) (u : τ) :
    (broadcast ns place u).thread =
      Monitor.broadcast ns (fun t => (place t).thread) u := by
  unfold broadcast Monitor.broadcast
  dsimp only
  cases hp : place u with
  | waiting k c =>
    show Place.thread (if c ∈ ns then .locking (.resume k .signaled) else .waiting k c) =
      if c ∈ ns then .woken k .signaled else .waiting k c
    split
    next => rfl
    next => rfl
  | locking i => cases i <;> rfl
  | entered i => cases i <;> rfl
  | looked i v => cases i <;> rfl
  | ended k => cases k <;> rfl
  | _ => rfl

/-- What is written, as the monitor sees it. -/
theorem view_after (sg : Seg σ K R C H) : (s.after t sg).view = s.view.after t sg := by
  have hthread : ∀ (ns : List C) (p : Place σ Call K R C),
      (fun u => (Function.update (broadcast ns s.place) t p u).thread) =
        Function.update (Monitor.broadcast ns s.view.thread) t p.thread := by
    intro ns p
    funext u
    by_cases hu : u = t
    · subst hu
      rw [Function.update_self, Function.update_self]
    · rw [Function.update_of_ne hu, Function.update_of_ne hu]
      exact broadcast_thread ns s.place u
  cases sg with
  | ret s' r ns =>
    exact congrArg (fun f => (⟨s', f, s.halted⟩ : Monitor.State τ σ K C))
      (hthread ns (.unlocking r))
  | wait s' k c ns =>
    exact congrArg (fun f => (⟨s', f, s.halted⟩ : Monitor.State τ σ K C))
      (hthread ns (.waiting k c))
  | halt e => rfl

omit [DecidableEq τ] [DecidableEq C] in
theorem starts_startOf (i : Input Call K) : (startOf i : Thread K C).Starts i := by
  cases i with
  | enter c => rfl
  | resume k w => rfl

/-- **A step is one of the monitor, or one that it does not see.** -/
theorem step_view (h : Inv s) (hfail : ∀ k, code.mayEnd k .failed = true)
    (hstep : Step code s l s') :
    match l.view with
    | some m => Monitor.Step code s.view m s'.view
    | none => s'.view = s.view := by
  obtain ⟨hh, hchanges⟩ := step_changes hstep
  have hwake : ∀ {t : τ} {k : K} {c : C} {w : Wakeup} {p : Place σ Call K R C},
      s.place t = .waiting k c → code.mayEnd k w = true → p.thread = .woken k w →
      Monitor.Step code s.view (.wake t w) (s.put t p s.mutex).view := by
    intro t k c w p hp hw hthread
    rw [view_put, hthread]
    exact step_wake hh (show (s.place t).thread = .waiting k c by rw [hp]; rfl) hw
  cases hchanges with
  | called t c hp => exact view_same (by rw [hp]; rfl)
  | locked t i hp hm => exact view_same (by rw [hp]; rfl)
  | lockedToDie t k hp hm => exact view_same (by rw [hp]; rfl)
  | looks t i hp => exact view_same (by rw [hp]; rfl)
  | writes t i v hp =>
    -- it has the mutex, so the shared state is what it has seen
    obtain rfl := h.fresh t i v hp
    show Monitor.Step code s.view (.seg t i (code.seg s.shared i).outcome)
      (s.after t (code.seg s.shared i)).view
    rw [view_after]
    refine step_seg hh ?_
    show (s.place t).thread.Starts i
    rw [hp]
    exact starts_startOf i
  | unlocked t r hp => exact view_same (by rw [hp]; rfl)
  | woken t w k c hp hw => exact hwake hp hw rfl
  | cancelled t k c hp => exact hwake hp (hfail k) rfl
  | quits t hp => exact view_same (by rw [hp]; rfl)
  | cleaned t k janitor hp => exact view_same (by rw [hp]; rfl)
  | left t janitor hp => exact view_same (by rw [hp]; rfl)

/-- **Runs with the right janitors are runs of the monitor**, where a wait may
fail: that is what a cancellation in it is. -/
theorem refines_run {v : σ} {ls : List (Seen τ Call K R C H)}
    (hfail : ∀ k, code.mayEnd k .failed = true)
    (hrun : Run (restrict (Step code) Right) (State.init τ v) ls s) :
    Run (Monitor.Step code) (Monitor.State.init τ v) (ls.filterMap Seen.view) s.view := by
  refine hrun.invariant_history
    (fun ls s => Run (Monitor.Step code) (Monitor.State.init τ v) (ls.filterMap Seen.view) s.view)
    ?_ (.nil _)
  intro ls s l s' hrun hview hstep
  have hone := step_view (inv_run hrun) hfail hstep.1
  rw [List.filterMap_append]
  cases hl : l.view with
  | some m =>
    rw [hl] at hone
    rw [List.filterMap_cons_some hl]
    exact hview.snoc hone
  | none =>
    rw [hl] at hone
    rw [List.filterMap_cons_none hl, List.filterMap_nil, List.append_nil, hone]
    exact hview

/-! ## §4. Threads that are cancelled in their waits only. -/

/-- Cancellations are acted on in waits, and every handler calls the janitor. -/
def InWaits : State τ σ Call K R C → Seen τ Call K R C H → State τ σ Call K R C → Prop
  | _, .cancel _ asleep, _ => asleep = true
  | _, .clean _ _ janitor, _ => janitor = true
  | _, _, _ => True

/-- Then no handler runs without the mutex. -/
theorem InWaits.step (h : ∀ u, s.place u ≠ .quitting) (hstep : Step code s l s')
    (hin : InWaits s l s') : Right s l s' ∧ ∀ u, s'.place u ≠ .quitting := by
  have hothers : ∀ u, u ≠ l.thread → s'.place u ≠ .quitting := by
    intro u hu heq
    obtain ⟨ns, hns⟩ := step_others hstep hu
    obtain hsame | ⟨k, c, -, hwoken⟩ := broadcast_cases ns s.place u
    · exact h u (hsame.symm.trans (hns.symm.trans heq))
    · exact absurd (hwoken.symm.trans (hns.symm.trans heq)) (by simp)
  have hput : ∀ {t : τ} {p : Place σ Call K R C} {m : Option τ}, p ≠ .quitting →
      (∀ u, u ≠ t → (s.put t p m).place u ≠ .quitting) →
      ∀ u, (s.put t p m).place u ≠ .quitting := by
    intro t p m hp hrest u
    by_cases hu : u = t
    · rw [hu, put_self]
      exact hp
    · exact hrest u hu
  obtain ⟨-, hchanges⟩ := step_changes hstep
  cases hchanges with
  | called t c hp => exact ⟨trivial, hput (by simp) hothers⟩
  | locked t i hp hm => exact ⟨trivial, hput (by simp) hothers⟩
  | lockedToDie t k hp hm => exact ⟨trivial, hput (by simp) hothers⟩
  | looks t i hp => exact ⟨trivial, hput (by simp) hothers⟩
  | writes t i v hp =>
    refine ⟨trivial, fun u => ?_⟩
    by_cases hu : u = t
    · subst hu
      cases code.seg v i with
      | ret s₁ r ns =>
        show Function.update (broadcast ns s.place) u (.unlocking r) u ≠ .quitting
        rw [Function.update_self]
        simp
      | wait s₁ k c ns =>
        show Function.update (broadcast ns s.place) u (.waiting k c) u ≠ .quitting
        rw [Function.update_self]
        simp
      | halt e => exact h u
    · exact hothers u hu
  | unlocked t r hp => exact ⟨trivial, hput (by simp) hothers⟩
  | woken t w k c hp hw => exact ⟨trivial, hput (by simp) hothers⟩
  | cancelled t k c hp => exact ⟨trivial, hput (by simp) hothers⟩
  | quits t hp => exact Bool.noConfusion (show false = true from hin)
  | cleaned t k janitor hp => exact ⟨hin, hput (by simp) hothers⟩
  | left t janitor hp => exact absurd hp (h t)

/-- **So every handler has the mutex when it calls the janitor.** -/
theorem right_of_inWaits {v : σ} {ls : List (Seen τ Call K R C H)}
    (hrun : Run (restrict (Step code) InWaits) (State.init τ v) ls s) :
    Run (restrict (Step code) Right) (State.init τ v) ls s :=
  hrun.restrict_of_inv (fun s => ∀ u, s.place u ≠ .quitting)
    (fun _ _ _ h hstep hin => InWaits.step h hstep hin) (fun _ => by simp [State.init])

/-! ## §5. Who has the mutex, and who keeps it. -/

/-- How many steps a thread that is past the lock is away from giving it back. -/
def Place.left : Place σ Call K R C → Nat
  | .entered _ => 3
  | .looked _ _ => 2
  | .unlocking _ => 1
  | .cleaning _ => 1
  | _ => 0

/-- **Who holds the mutex can go on**, and gives it back in three steps of its own
at most, unless one of these stops the process; none of them cancels it. -/
theorem holder_steps (code : Code σ Call K R C H) (h : Inv s) (hh : s.halted = false)
    (ht : s.mutex = some t) :
    ∃ l s', l.thread = t ∧ Step code s l s' ∧ Right s l s' ∧
      (s'.mutex = none ∨ s'.halted = true ∨
        (s'.mutex = some t ∧ (s'.place t).left < (s.place t).left ∧
          ∀ k, s'.place t ≠ .cleaning k)) := by
  have hholds := (h.holder t).mp ht
  have hopen : ¬ s.halted = true := by simp [hh]
  cases hp : s.place t with
  | entered i =>
    refine ⟨.quiet t, s.put t (.looked i s.shared) s.mutex, rfl, ⟨.look t, ?_⟩, trivial, ?_⟩
    · simp only [next, if_neg hopen, Action.thread, hp]
    · rw [put_self]
      exact .inr (.inr ⟨ht, Nat.lt_add_one 2, by simp⟩)
  | looked i v =>
    refine ⟨.seg t i (code.seg v i).outcome, s.after t (code.seg v i), rfl, ⟨.write t, ?_⟩, trivial,
      ?_⟩
    · simp only [next, if_neg hopen, Action.thread, hp]
    · cases code.seg v i with
      | ret s' r ns =>
        have hplace : (s.after t (.ret s' r ns : Seg σ K R C H)).place t = .unlocking r :=
          Function.update_self t _ _
        rw [hplace]
        exact .inr (.inr ⟨ht, Nat.lt_add_one 1, by simp⟩)
      | wait s' k c ns => exact .inl rfl
      | halt e => exact .inr (.inl rfl)
  | unlocking r =>
    refine ⟨.unlock t r, s.put t .idle none, rfl, ⟨.unlock t, ?_⟩, trivial, .inl rfl⟩
    simp only [next, if_neg hopen, Action.thread, hp]
  | cleaning k =>
    refine ⟨.clean t true true, s.put t (.ended (some k)) (s.released true), rfl,
      ⟨.clean t true, ?_⟩, rfl, .inl rfl⟩
    simp only [next, if_neg hopen, Action.thread, hp]
  | idle | locking _ | waiting _ _ | dying _ | quitting | ended _ =>
    rw [hp] at hholds
    exact absurd hholds (by simp [Place.holds])

/-- **The mutex is kept**: by a thread that has ended, and nobody is past the lock. -/
structure Stuck (t : τ) (s : State τ σ Call K R C) : Prop where
  kept : s.mutex = some t
  ended : ∃ k, s.place t = .ended k
  outside : ∀ u, (s.place u).holds = false

/-- **A handler that has the mutex and does not call the janitor.** -/
theorem Inv.stuck (h : Inv s) (hstep : Step code s (.clean t true false) s') : Stuck t s' := by
  obtain ⟨-, hchanges⟩ := step_changes hstep
  cases hchanges with
  | cleaned t k janitor hp =>
    refine ⟨(h.holder t).mpr (by rw [hp]; rfl), ⟨some k, put_self⟩, fun u => ?_⟩
    by_cases hu : u = t
    · subst hu
      rw [put_self]
      rfl
    · rw [put_of_ne hu]
      exact h.alone (by rw [hp]; rfl) hu

omit [DecidableEq τ] [DecidableEq C] in
theorem Inv.not_stuck (h : Inv s) : ¬ Stuck t s := by
  intro hstuck
  have hholds := (h.holder t).mp hstuck.kept
  rw [hstuck.outside t] at hholds
  exact Bool.noConfusion hholds

/-- **Every step keeps it**, but for a janitor that is called without the mutex; and
nobody gets to it. -/
theorem Stuck.step (h : Stuck t s) (hstep : Step code s l s') (hright : Right s l s') :
    Stuck t s' ∧ ∀ u i, s.place u = .locking i → s'.place u = .locking i := by
  obtain ⟨-, hchanges⟩ := step_changes hstep
  have hbusy : ∀ {u : τ}, (s.place u).holds = true → False := by
    intro u hu
    rw [h.outside u] at hu
    exact Bool.noConfusion hu
  have hmove : ∀ {u : τ} {p : Place σ Call K R C}, (∀ k, s.place u ≠ .ended k) →
      (∀ i, s.place u ≠ .locking i) → p.holds = false →
      Stuck t (s.put u p s.mutex) ∧
        ∀ u' i, s.place u' = .locking i → (s.put u p s.mutex).place u' = .locking i := by
    intro u p hended hlocking hp
    have hut : t ≠ u := by
      rintro rfl
      obtain ⟨k, hk⟩ := h.ended
      exact hended k hk
    refine ⟨⟨h.kept, ?_, fun u' => ?_⟩, fun u' i hu' => ?_⟩
    · rw [put_of_ne hut]
      exact h.ended
    · by_cases hu : u' = u
      · rw [hu, put_self]
        exact hp
      · rw [put_of_ne hu]
        exact h.outside u'
    · have hu : u' ≠ u := by
        rintro rfl
        exact hlocking i hu'
      rw [put_of_ne hu]
      exact hu'
  cases hchanges with
  | called u c hp => exact hmove (by simp [hp]) (by simp [hp]) rfl
  | locked u i hp hm => exact absurd (hm.symm.trans h.kept) (by simp)
  | lockedToDie u k hp hm => exact absurd (hm.symm.trans h.kept) (by simp)
  | looks u i hp => exact (hbusy (u := u) (by rw [hp]; rfl)).elim
  | writes u i v hp => exact (hbusy (u := u) (by rw [hp]; rfl)).elim
  | unlocked u r hp => exact (hbusy (u := u) (by rw [hp]; rfl)).elim
  | woken u w k c hp hw => exact hmove (by simp [hp]) (by simp [hp]) rfl
  | cancelled u k c hp => exact hmove (by simp [hp]) (by simp [hp]) rfl
  | quits u hp => exact hmove (by simp [hp]) (by simp [hp]) rfl
  | cleaned u k janitor hp => exact (hbusy (u := u) (by rw [hp]; rfl)).elim
  | left u janitor hp =>
    obtain rfl : janitor = false := hright
    exact hmove (by simp [hp]) (by simp [hp]) rfl

/-- **A mutex that is kept is kept for ever**, and so is everybody who wants it. -/
theorem stuck_run {ls : List (Seen τ Call K R C H)} (h : Stuck t s)
    (hrun : Run (restrict (Step code) Right) s ls s') :
    Stuck t s' ∧ ∀ u i, s.place u = .locking i → s'.place u = .locking i := by
  induction hrun with
  | nil => exact ⟨h, fun _ _ hu => hu⟩
  | cons hstep _ ih =>
    obtain ⟨hstuck, hsame⟩ := h.step hstep.1 hstep.2
    obtain ⟨hend, hrest⟩ := ih hstuck
    exact ⟨hend, fun u i hu => hrest u i (hsame u i hu)⟩

end Monitor.Locked
