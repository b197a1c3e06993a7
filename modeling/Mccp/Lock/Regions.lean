/-
  Mccp.Lock.Regions
  ─────────────────
  **THE REGIONS OF lock.c, FOR A MUTEX AND FOR A READ/WRITE LOCK ALIKE.**

  Both locks wrap a pthread lock and one field, `m_prev_cancel_state`.  Every
  successful acquire stores into it: -INT_MAX for a plain region, the thread's
  old cancelability state for a critical one.  Every release reads it, refuses
  when its kind is the wrong one, and leave_critical() gives the thread the
  state it reads.

      Call, How    — the API calls, as the families they are
      next         — one atomic step of any number of threads: a pthread call,
                     or an access of the field
      Fits         — a release reads what its own acquire stored
      EndsWell     — a release returns OK, gives up the thread's own hold and
                     restores the thread's own state
      endsWell_of_fits / fits_of_endsWell — one is the other

  What differs between the locks is a parameter: which holds exclude each
  other, and whether a condition can be waited on.
-/
import Mccp.Lib.Transition
import Mccp.Result
import Mathlib.Logic.Function.Basic

namespace Mccp.Lock

open Transition

/-! ## §1. Calls. -/

/-- `PTHREAD_CANCEL_ENABLE` and `PTHREAD_CANCEL_DISABLE`. -/
inductive CancelState where
  | enable
  | disable
  deriving DecidableEq, Repr

/-- The kind of a region: lock ... unlock, or enter_critical ... leave_critical. -/
inductive Kind where
  | plain
  | critical
  deriving DecidableEq, Repr

/-- The pthread call that takes the lock; critical regions only know `lock`. -/
inductive How where
  | lock
  | trylock
  | timedlock (nsec : Int)
  deriving DecidableEq, Repr

/-- The API calls; `M` are the modes of the pthread lock. -/
inductive Call (M : Type) where
  | acquire (mode : M) (how : How)
  | enterCritical (mode : M)
  | release (kind : Kind)
  | condWait (nsec : Int)
  deriving DecidableEq, Repr

/-- A pthread lock: the modes that can be held together, and whether
pthread_cond_wait() takes it. -/
structure PthreadLock (M : Type) where
  compatible : M → M → Bool
  waits : Bool

/-- A region that a thread has opened, with the cancelability state the thread
had before. -/
structure Region (M : Type) where
  mode : M
  kind : Kind
  before : CancelState
  deriving DecidableEq, Repr

/-- What the acquire stores into `m_prev_cancel_state`; `none` is -INT_MAX. -/
def Region.saved {M : Type} (r : Region M) : Option CancelState :=
  match r.kind with
  | .plain => none
  | .critical => some r.before

theorem Region.saved_isSome {M : Type} (r : Region M) :
    r.saved.isSome ↔ r.kind = .critical := by
  unfold Region.saved
  cases r.kind <;> simp

theorem Region.saved_eq_some {M : Type} {r : Region M} {c : CancelState} :
    r.saved = some c ↔ r.kind = .critical ∧ r.before = c := by
  unfold Region.saved
  cases r.kind <;> simp

/-! ## §2. Threads. -/

/-- Where a thread is in the code. -/
inductive Place (M : Type) where
  /-- In no call. -/
  | outside
  /-- About to take the pthread lock. -/
  | locking (r : Region M) (how : How)
  /-- Has the pthread lock; about to store into the field. -/
  | storing (r : Region M)
  /-- About to read the field. -/
  | testing (kind : Kind)
  /-- About to release the pthread lock; `oldstate` is what leave_critical read. -/
  | unlocking (oldstate : Option CancelState)
  /-- About to set the thread's state to `oldstate`. -/
  | restoring (oldstate : CancelState)
  /-- In pthread_cond_wait(), without the lock. -/
  | sleeping (mode : M) (nsec : Int)
  deriving DecidableEq, Repr

/-- A thread: its place, its cancelability state and its open regions, the
innermost first. -/
structure Thread (M : Type) where
  place : Place M
  cancel : CancelState
  regions : List (Region M)
  deriving DecidableEq, Repr

/-- The lock and its threads: `m_prev_cancel_state`, the holds of the pthread
lock, the newest first, and the threads. -/
structure State (τ M : Type) where
  prev : Option CancelState
  holds : List (τ × M)
  thread : τ → Thread M

variable {τ M : Type}

/-- A new lock, with no thread in a region. -/
def State.init (M : Type) (c : τ → CancelState) : State τ M where
  prev := none
  holds := []
  thread t := { place := .outside, cancel := c t, regions := [] }

/-- What a thread sees of a step. -/
inductive Event where
  /-- A call goes on. -/
  | goesOn
  | acquired (ret : Result)
  | released (kind : Kind) (ret : Result)
  | waited (ret : Result)
  deriving DecidableEq, Repr

/-- What a scheduler can choose. -/
inductive Action (τ M : Type) where
  /-- The thread sets its own cancelability state, between two calls. -/
  | setCancel (t : τ) (c : CancelState)
  | call (t : τ) (c : Call M)
  /-- The thread makes the next step of its call. -/
  | run (t : τ)
  /-- The deadline of the call passes, or a trylock finds the lock taken. -/
  | giveUp (t : τ)
  deriving DecidableEq, Repr

/-- The thread that it moves. -/
def Action.thread : Action τ M → τ
  | .setCancel t _ => t
  | .call t _ => t
  | .run t => t
  | .giveUp t => t

/-- A step: what was chosen, and what its thread sees of it. -/
structure Label (τ M : Type) where
  action : Action τ M
  event : Event
  deriving DecidableEq, Repr

/-- The thread that makes the step. -/
def Label.thread (l : Label τ M) : τ := l.action.thread

variable [DecidableEq τ]

/-- The state with another thread record, field or holds. -/
def State.put (s : State τ M) (t : τ) (th : Thread M) : State τ M :=
  { s with thread := Function.update s.thread t th }

/-- The lock can be taken in this mode. -/
def State.free (L : PthreadLock M) (s : State τ M) (m : M) : Bool :=
  s.holds.all fun h => L.compatible h.2 m

/-- pthread unlock: one hold of the thread is given up. -/
def State.unlock (s : State τ M) (t : τ) : State τ M :=
  { s with holds := s.holds.eraseP fun h => h.1 = t }

/-- A call begins.  Regions are well bracketed: a release is of the kind of the
innermost open region, and a wait is inside a region. -/
def begin (L : PthreadLock M) (s : State τ M) (t : τ) : Call M → Option (State τ M)
  | .acquire mode how =>
      let th := s.thread t
      let r : Region M := { mode := mode, kind := .plain, before := th.cancel }
      some (s.put t { th with place := .locking r how })
  | .enterCritical mode =>
      let th := s.thread t
      let r : Region M := { mode := mode, kind := .critical, before := th.cancel }
      -- pthread_setcancelstate(PTHREAD_CANCEL_DISABLE, &oldstate)
      some (s.put t { th with place := .locking r .lock, cancel := .disable })
  | .release kind =>
      match (s.thread t).regions with
      | r :: _ =>
          if r.kind = kind then some (s.put t { s.thread t with place := .testing kind }) else none
      | [] => none
  | .condWait nsec =>
      match (s.thread t).regions with
      | r :: _ =>
          if L.waits then
            some ((s.unlock t).put t { s.thread t with place := .sleeping r.mode nsec })
          else none
      | [] => none

/-- A thread between two calls. -/
def Thread.home (th : Thread M) : Thread M := { th with place := .outside }

/-- A thread whose innermost region has been closed. -/
def Thread.close (th : Thread M) : Thread M :=
  { th with place := .outside, regions := th.regions.tail }

/-- The next step of a call under way. -/
def step (L : PthreadLock M) (s : State τ M) (t : τ) : Option (Event × State τ M) :=
  let th := s.thread t
  match th.place with
  | .outside => none
  | .locking r _ =>
      if s.free L r.mode then
        some (.goesOn, { s with holds := (t, r.mode) :: s.holds }.put t
          { th with place := .storing r })
      else none
  | .storing r =>
      some (.acquired .ok, { s with prev := r.saved }.put t
        { th with place := .outside, regions := r :: th.regions })
  | .testing .plain =>
      match s.prev with
      | none => some (.goesOn, s.put t { th with place := .unlocking none })
      | some _ => some (.released .plain .criticalRegionNotClosed, s.put t th.home)
  | .testing .critical =>
      match s.prev with
      | some c => some (.goesOn, s.put t { th with place := .unlocking (some c) })
      | none => some (.released .critical .criticalRegionNotOpened, s.put t th.home)
  | .unlocking none => some (.released .plain .ok, (s.unlock t).put t th.close)
  | .unlocking (some c) => some (.goesOn, (s.unlock t).put t { th with place := .restoring c })
  | .restoring c => some (.released .critical .ok, s.put t { th.close with cancel := c })
  | .sleeping m _ =>
      if s.free L m then
        some (.waited .ok, { s with holds := (t, m) :: s.holds }.put t th.home)
      else none

/-- A call that gives up. -/
def giveUp (L : PthreadLock M) (s : State τ M) (t : τ) : Option (Event × State τ M) :=
  let th := s.thread t
  match th.place with
  | .locking _ .trylock => some (.acquired .busy, s.put t th.home)
  | .locking _ (.timedlock nsec) =>
      if 0 ≤ nsec then some (.acquired .timedout, s.put t th.home) else none
  | .sleeping m nsec =>
      if 0 ≤ nsec ∧ s.free L m then
        some (.waited .timedout, { s with holds := (t, m) :: s.holds }.put t th.home)
      else none
  | _ => none

/-- **One step**, with what is seen of it. -/
def next (L : PthreadLock M) (s : State τ M) (a : Action τ M) :
    Option (Label τ M × State τ M) :=
  match a with
  | .setCancel t c =>
      match (s.thread t).place with
      | .outside =>
          some ({ action := a, event := .goesOn }, s.put t { s.thread t with cancel := c })
      | _ => none
  | .call t c =>
      match (s.thread t).place with
      | .outside => (begin L s t c).map fun s' => ({ action := a, event := .goesOn }, s')
      | _ => none
  | .run t => (step L s t).map fun p => ({ action := a, event := p.1 }, p.2)
  | .giveUp t => (giveUp L s t).map fun p => ({ action := a, event := p.1 }, p.2)

/-- The transition relation. -/
abbrev Step (L : PthreadLock M) : State τ M → Label τ M → State τ M → Prop := observed (next L)

/-! ## §3. What a step can do. -/

/-- The modes a thread holds, the newest first. -/
def State.held (s : State τ M) (t : τ) : List M :=
  (s.holds.filter fun h => h.1 = t).map Prod.snd

/-- **The moves of a thread**, with what is seen of each. -/
inductive Moves (L : PthreadLock M) (s : State τ M) (t : τ) : Event → State τ M → Prop
  | setCancel (c : CancelState) (hp : (s.thread t).place = .outside) :
      Moves L s t .goesOn (s.put t { s.thread t with cancel := c })
  | begins (r : Region M) (how : How) (c : CancelState) (hp : (s.thread t).place = .outside) :
      Moves L s t .goesOn (s.put t { s.thread t with place := .locking r how, cancel := c })
  | releases (r : Region M) (rest : List (Region M)) (hp : (s.thread t).place = .outside)
      (hr : (s.thread t).regions = r :: rest) :
      Moves L s t .goesOn (s.put t { s.thread t with place := .testing r.kind })
  | sleeps (r : Region M) (rest : List (Region M)) (nsec : Int)
      (hp : (s.thread t).place = .outside) (hr : (s.thread t).regions = r :: rest) :
      Moves L s t .goesOn ((s.unlock t).put t { s.thread t with place := .sleeping r.mode nsec })
  | takes (r : Region M) (how : How) (hp : (s.thread t).place = .locking r how) :
      Moves L s t .goesOn ({ s with holds := (t, r.mode) :: s.holds }.put t
        { s.thread t with place := .storing r })
  | fails (r : Region M) (how : How) (ret : Result) (hp : (s.thread t).place = .locking r how) :
      Moves L s t (.acquired ret) (s.put t (s.thread t).home)
  | stores (r : Region M) (hp : (s.thread t).place = .storing r) :
      Moves L s t (.acquired .ok) ({ s with prev := r.saved }.put t
        { s.thread t with place := .outside, regions := r :: (s.thread t).regions })
  | passes (kind : Kind) (hp : (s.thread t).place = .testing kind)
      (hprev : s.prev.isSome ↔ kind = .critical) :
      Moves L s t .goesOn (s.put t { s.thread t with place := .unlocking s.prev })
  | refused (kind : Kind) (ret : Result) (hp : (s.thread t).place = .testing kind)
      (hprev : ¬ (s.prev.isSome ↔ kind = .critical)) (hret : ret ≠ .ok) :
      Moves L s t (.released kind ret) (s.put t (s.thread t).home)
  | unlocks (hp : (s.thread t).place = .unlocking none) :
      Moves L s t (.released .plain .ok) ((s.unlock t).put t (s.thread t).close)
  | opens (c : CancelState) (hp : (s.thread t).place = .unlocking (some c)) :
      Moves L s t .goesOn ((s.unlock t).put t { s.thread t with place := .restoring c })
  | restores (c : CancelState) (hp : (s.thread t).place = .restoring c) :
      Moves L s t (.released .critical .ok) (s.put t { (s.thread t).close with cancel := c })
  | wakes (m : M) (nsec : Int) (ret : Result) (hp : (s.thread t).place = .sleeping m nsec) :
      Moves L s t (.waited ret) ({ s with holds := (t, m) :: s.holds }.put t (s.thread t).home)

variable {L : PthreadLock M} {s s' : State τ M} {t : τ} {l : Label τ M}

theorem moves_of_begin {c : Call M} (hp : (s.thread t).place = .outside)
    (h : begin L s t c = some s') : Moves L s t .goesOn s' := by
  cases c with
  | acquire mode how =>
    injection h with h
    subst h
    exact .begins _ how _ hp
  | enterCritical mode =>
    injection h with h
    subst h
    exact .begins _ .lock _ hp
  | release kind =>
    simp only [begin] at h
    split at h
    next r rest hr =>
      split at h
      next hk =>
        injection h with h
        subst h hk
        exact .releases r rest hp hr
      next => exact absurd h (by simp)
    next => exact absurd h (by simp)
  | condWait nsec =>
    simp only [begin] at h
    split at h
    next r rest hr =>
      split at h
      next =>
        injection h with h
        subst h
        exact .sleeps r rest nsec hp hr
      next => exact absurd h (by simp)
    next => exact absurd h (by simp)

theorem moves_of_step {e : Event} (h : step L s t = some (e, s')) : Moves L s t e s' := by
  simp only [step] at h
  split at h
  next => exact absurd h (by simp)
  next r how hp =>
    split at h
    next =>
      injection h with h
      injection h with he hs
      subst he hs
      exact .takes r how hp
    next => exact absurd h (by simp)
  next r hp =>
    injection h with h
    injection h with he hs
    subst he hs
    exact .stores r hp
  next hp =>
    split at h
    next hprev =>
      injection h with h
      injection h with he hs
      subst he hs
      exact hprev ▸ .passes .plain hp (by simp [hprev])
    next c hprev =>
      injection h with h
      injection h with he hs
      subst he hs
      exact .refused .plain _ hp (by simp [hprev]) (by decide)
  next hp =>
    split at h
    next c hprev =>
      injection h with h
      injection h with he hs
      subst he hs
      exact hprev ▸ .passes .critical hp (by simp [hprev])
    next hprev =>
      injection h with h
      injection h with he hs
      subst he hs
      exact .refused .critical _ hp (by simp [hprev]) (by decide)
  next hp =>
    injection h with h
    injection h with he hs
    subst he hs
    exact .unlocks hp
  next c hp =>
    injection h with h
    injection h with he hs
    subst he hs
    exact .opens c hp
  next c hp =>
    injection h with h
    injection h with he hs
    subst he hs
    exact .restores c hp
  next m nsec hp =>
    split at h
    next =>
      injection h with h
      injection h with he hs
      subst he hs
      exact .wakes m nsec .ok hp
    next => exact absurd h (by simp)

theorem moves_of_giveUp {e : Event} (h : giveUp L s t = some (e, s')) : Moves L s t e s' := by
  simp only [giveUp] at h
  split at h
  next r hp =>
    injection h with h
    injection h with he hs
    subst he hs
    exact .fails r .trylock _ hp
  next r nsec hp =>
    split at h
    next =>
      injection h with h
      injection h with he hs
      subst he hs
      exact .fails r (.timedlock nsec) _ hp
    next => exact absurd h (by simp)
  next m nsec hp =>
    split at h
    next =>
      injection h with h
      injection h with he hs
      subst he hs
      exact .wakes m nsec .timedout hp
    next => exact absurd h (by simp)
  next => exact absurd h (by simp)

/-- **Inversion**: a step is a move of its thread. -/
theorem step_moves (h : Step L s l s') : Moves L s l.thread l.event s' := by
  obtain ⟨a, ha⟩ := h
  cases a with
  | setCancel t c =>
    simp only [next] at ha
    split at ha
    next hp =>
      injection ha with ha
      injection ha with hl hs
      subst hl hs
      exact .setCancel c hp
    next => exact absurd ha (by simp)
  | call t c =>
    simp only [next] at ha
    split at ha
    next hp =>
      obtain ⟨s₁, hb, ha⟩ := Option.map_eq_some_iff.mp ha
      injection ha with hl hs
      subst hl hs
      exact moves_of_begin hp hb
    next => exact absurd ha (by simp)
  | run t =>
    obtain ⟨⟨e, s₁⟩, hb, ha⟩ := Option.map_eq_some_iff.mp ha
    injection ha with hl hs
    subst hl hs
    exact moves_of_step hb
  | giveUp t =>
    obtain ⟨⟨e, s₁⟩, hb, ha⟩ := Option.map_eq_some_iff.mp ha
    injection ha with hl hs
    subst hl hs
    exact moves_of_giveUp hb

/-! ## §4. Holds and regions. -/

/-- The modes a thread should hold: those of its open regions, but for the one
that a call under way is about to open or close. -/
def Thread.holding (th : Thread M) : List M :=
  match th.place with
  | .storing r => r.mode :: th.regions.map Region.mode
  | .restoring _ => th.regions.tail.map Region.mode
  | .sleeping _ _ => th.regions.tail.map Region.mode
  | _ => th.regions.map Region.mode

/-- A call inside a region is about the innermost one. -/
def Thread.Inside (th : Thread M) : Prop :=
  match th.place with
  | .testing kind => th.regions.head?.map Region.kind = some kind
  | .unlocking _ => th.regions ≠ []
  | .restoring _ => th.regions ≠ []
  | .sleeping m _ => th.regions.head?.map Region.mode = some m
  | _ => True

/-- Every thread holds what its open regions need. -/
structure Inv (s : State τ M) : Prop where
  held : ∀ t, s.held t = (s.thread t).holding
  inside : ∀ t, (s.thread t).Inside

theorem held_cons_self (s : State τ M) (t : τ) (m : M) :
    State.held { s with holds := (t, m) :: s.holds } t = m :: s.held t := by
  simp [State.held]

theorem held_cons_of_ne (s : State τ M) {t u : τ} (m : M) (h : u ≠ t) :
    State.held { s with holds := (t, m) :: s.holds } u = s.held u := by
  simp [State.held, h.symm]

/-- A pthread unlock takes the newest hold of the thread. -/
theorem held_unlock_self (s : State τ M) (t : τ) : (s.unlock t).held t = (s.held t).tail := by
  unfold State.held State.unlock
  induction s.holds with
  | nil => rfl
  | cons h hs ih =>
    by_cases ht : h.1 = t
    · simp [ht]
    · simpa [List.eraseP_cons, ht] using ih

theorem held_unlock_of_ne (s : State τ M) {t u : τ} (h : u ≠ t) :
    (s.unlock t).held u = s.held u := by
  unfold State.held State.unlock
  induction s.holds with
  | nil => rfl
  | cons g gs ih =>
    by_cases ht : g.1 = t
    · simp [ht, h.symm]
    · rw [List.eraseP_cons_of_neg (by simpa using ht), List.filter_cons, List.filter_cons]
      split
      · rw [List.map_cons, List.map_cons, ih]
      · exact ih

/-- One thread moves, the others keep what they hold. -/
theorem Inv.put {s₁ : State τ M} {th : Thread M} (h : Inv s) (hth : s₁.thread = s.thread)
    (hother : ∀ u, u ≠ t → s₁.held u = s.held u) (hheld : s₁.held t = th.holding)
    (hin : th.Inside) : Inv (s₁.put t th) where
  held u := by
    show s₁.held u = (Function.update s₁.thread t th u).holding
    by_cases hu : u = t
    · subst hu
      rw [Function.update_self, hheld]
    · rw [Function.update_of_ne hu, hth, hother u hu, h.held u]
  inside u := by
    show (Function.update s₁.thread t th u).Inside
    by_cases hu : u = t
    · subst hu
      rw [Function.update_self]
      exact hin
    · rw [Function.update_of_ne hu, hth]
      exact h.inside u

/-- **Every move keeps the holds**: each call moves one hold with its region. -/
theorem Inv.move {e : Event} (h : Inv s) (hmove : Moves L s t e s') : Inv s' := by
  have hheld := h.held t
  have hin := h.inside t
  simp only [Thread.holding] at hheld
  simp only [Thread.Inside] at hin
  cases hmove with
  | setCancel c hp =>
    simp only [hp] at hheld
    refine h.put rfl (fun _ _ => rfl) ?_ ?_
    · simpa only [Thread.holding, hp] using hheld
    · simp only [Thread.Inside, hp]
  | begins r how c hp =>
    simp only [hp] at hheld
    exact h.put rfl (fun _ _ => rfl) hheld trivial
  | releases r rest hp hr =>
    simp only [hp] at hheld
    exact h.put rfl (fun _ _ => rfl) hheld (by simp [Thread.Inside, hr])
  | sleeps r rest nsec hp hr =>
    -- the wait gives up the hold but keeps the region open
    simp only [hp] at hheld
    refine h.put rfl (fun u hu => held_unlock_of_ne s hu) ?_ (by simp [Thread.Inside, hr])
    rw [held_unlock_self, hheld]
    exact List.map_tail.symm
  | takes r how hp =>
    simp only [hp] at hheld
    refine h.put rfl (fun u hu => held_cons_of_ne s r.mode hu) ?_ trivial
    rw [held_cons_self, hheld]
    rfl
  | fails r how ret hp =>
    simp only [hp] at hheld
    exact h.put rfl (fun _ _ => rfl) hheld trivial
  | stores r hp =>
    simp only [hp] at hheld
    exact h.put rfl (fun _ _ => rfl) hheld trivial
  | passes kind hp hprev =>
    -- nothing is released yet, so the region must still be there
    simp only [hp] at hheld hin
    refine h.put rfl (fun _ _ => rfl) hheld ?_
    intro hnil
    exact absurd hin (by simp [show (s.thread t).regions = [] from hnil])
  | refused kind ret hp hprev hret =>
    simp only [hp] at hheld
    exact h.put rfl (fun _ _ => rfl) hheld trivial
  | unlocks hp =>
    simp only [hp] at hheld
    refine h.put rfl (fun u hu => held_unlock_of_ne s hu) ?_ trivial
    rw [held_unlock_self, hheld]
    exact List.map_tail.symm
  | opens c hp =>
    simp only [hp] at hheld hin
    refine h.put rfl (fun u hu => held_unlock_of_ne s hu) ?_ hin
    rw [held_unlock_self, hheld]
    exact List.map_tail.symm
  | restores c hp =>
    simp only [hp] at hheld
    exact h.put rfl (fun _ _ => rfl) hheld trivial
  | wakes m nsec ret hp =>
    simp only [hp] at hheld hin
    obtain ⟨r, hr, rfl⟩ := Option.map_eq_some_iff.mp hin
    obtain ⟨rest, hrest⟩ := List.head?_eq_some_iff.mp hr
    refine h.put rfl (fun u hu => held_cons_of_ne s r.mode hu) ?_ trivial
    rw [held_cons_self, hheld]
    simp only [Thread.holding, Thread.home, hrest, List.tail_cons, List.map_cons]

theorem Inv.init (c : τ → CancelState) : Inv (State.init M c) where
  held _ := rfl
  inside _ := trivial

/-! ## §5. Releases that end well. -/

/-- **The condition on a release**: where it reads the field, it finds what the
acquire of its own region has stored. -/
def Fits (s : State τ M) (l : Label τ M) (_ : State τ M) : Prop :=
  ∀ kind, (s.thread l.thread).place = .testing kind →
    (s.thread l.thread).regions.head?.map Region.saved = some s.prev

/-- **What a release should do**: it returns OK, the thread holds the lock only
for the regions that are still open, and after leave_critical its cancelability
state is the one it had before this region. -/
def EndsWell (s : State τ M) (l : Label τ M) (s' : State τ M) : Prop :=
  ∀ kind ret, l.event = .released kind ret →
    ∃ r rest, (s.thread l.thread).regions = r :: rest ∧ ret = .ok ∧
      s'.held l.thread = rest.map Region.mode ∧ (s'.thread l.thread).regions = rest ∧
      (kind = .critical → (s'.thread l.thread).cancel = r.before)

/-- No release is under way beyond its test. -/
def State.Settled (s : State τ M) : Prop :=
  ∀ t c, (s.thread t).place ≠ .unlocking (some c) ∧ (s.thread t).place ≠ .restoring c

/-- The state a thread in leave_critical is about to set is its own. -/
def Thread.Own (th : Thread M) : Prop :=
  ∀ c, th.place = .unlocking (some c) ∨ th.place = .restoring c →
    th.regions.head?.map Region.before = some c

/-- A move changes the record of its own thread only. -/
theorem Moves.others {e : Event} {u : τ} (h : Moves L s t e s') (hu : u ≠ t) :
    s'.thread u = s.thread u := by
  cases h <;> exact Function.update_of_ne hu _ _

/-- A release that fits reads its own state. -/
theorem own_move (hown : (s.thread l.thread).Own) (hmove : Moves L s l.thread l.event s')
    (hfits : Fits s l s') : (s'.thread l.thread).Own := by
  generalize l.event = e at hmove
  cases hmove with
  | passes kind hp hprev =>
    intro c hc
    have hplace : s.prev = some c := by
      simpa [State.put] using hc
    have hsaved := hfits kind hp
    rw [hplace] at hsaved
    obtain ⟨r, hr, hrc⟩ := Option.map_eq_some_iff.mp hsaved
    have hhead : ((s.thread l.thread).regions.head?).map Region.before = some c := by
      rw [hr, ← (Region.saved_eq_some.mp hrc).2]
      rfl
    simpa [State.put] using hhead
  | opens c hp =>
    intro c' hc
    have hcc : c = c' := by
      simpa [State.put] using hc
    subst hcc
    simpa [State.put] using hown c (.inl hp)
  | setCancel c hp =>
    intro c' hc
    exact absurd hc (by simp [State.put, hp])
  | _ =>
    intro c' hc
    exact absurd hc (by simp [State.put, Thread.home, Thread.close])

/-- A release that fits, and has read its own state, ends well. -/
theorem endsWell_move (hinv : Inv s) (hown : (s.thread l.thread).Own)
    (hmove : Moves L s l.thread l.event s') (hfits : Fits s l s') : EndsWell s l s' := by
  have hheld := (hinv.move hmove).held l.thread
  have hin := hinv.inside l.thread
  simp only [Thread.Inside] at hin
  intro kind ret he
  generalize l.event = e at hmove he
  cases hmove with
  | refused kind' ret' hp hprev hret =>
    -- the field shows the kind of the region, which is that of the call
    simp only [hp] at hin
    obtain ⟨r, hr, hkind⟩ := Option.map_eq_some_iff.mp hin
    have hsaved := hfits kind' hp
    rw [hr, Option.map_some, Option.some.injEq] at hsaved
    rw [← hsaved, ← hkind] at hprev
    exact absurd r.saved_isSome hprev
  | unlocks hp =>
    simp only [hp] at hin
    obtain ⟨r, rest, hr⟩ := List.exists_cons_of_ne_nil hin
    injection he with hk hret
    subst hk hret
    refine ⟨r, rest, hr, rfl, ?_, ?_, ?_⟩
    · rw [hheld]
      simp [State.put, Thread.holding, Thread.close, hr]
    · simp [State.put, Thread.close, hr]
    · intro hk
      exact absurd hk (by decide)
  | restores c hp =>
    simp only [hp] at hin
    obtain ⟨r, rest, hr⟩ := List.exists_cons_of_ne_nil hin
    injection he with hk hret
    subst hk hret
    refine ⟨r, rest, hr, rfl, ?_, ?_, ?_⟩
    · rw [hheld]
      simp [State.put, Thread.holding, Thread.close, hr]
    · simp [State.put, Thread.close, hr]
    · intro _
      have hbefore := hown c (.inr hp)
      rw [hr] at hbefore
      injection hbefore with hbefore
      rw [hbefore]
      simp [State.put]
  | _ => exact absurd he (by simp)

/-- **Where every release fits, every release ends well.** -/
theorem endsWell_of_fits {c : τ → CancelState} {ls : List (Label τ M)}
    (h : Run (restrict (Step L) Fits) (State.init M c) ls s) :
    Run (restrict (Step L) EndsWell) (State.init M c) ls s := by
  refine Run.restrict_of_inv (fun s => Inv s ∧ ∀ t, (s.thread t).Own) ?_ ?_ h
  · intro s l s' hboth hstep hfits
    obtain ⟨hinv, hown⟩ := hboth
    have hmove := step_moves hstep
    refine ⟨endsWell_move hinv (hown _) hmove hfits, hinv.move hmove, ?_⟩
    intro u
    by_cases hu : u = l.thread
    · subst hu
      exact own_move (hown _) hmove hfits
    · rw [hmove.others hu]
      exact hown u
  · refine ⟨Inv.init c, ?_⟩
    intro t c' hc
    exact absurd hc (by simp [State.init])

/-- Some thread is about to set a state that is not its own. -/
def State.Doomed (s : State τ M) : Prop := ∃ t, ¬ (s.thread t).Own

/-- A release that reads what is not its own, and is not refused, is doomed. -/
theorem doomed_of_not_fits (hinv : Inv s) (hmove : Moves L s l.thread l.event s')
    (hwell : EndsWell s l s') (hnot : ¬ Fits s l s') : s'.Doomed := by
  have hin := hinv.inside l.thread
  simp only [Thread.Inside] at hin
  unfold Fits at hnot
  push Not at hnot
  obtain ⟨kind, hp, hne⟩ := hnot
  simp only [hp] at hin
  obtain ⟨r, hr, hkind⟩ := Option.map_eq_some_iff.mp hin
  rw [hr, Option.map_some, ne_eq, Option.some.injEq] at hne
  generalize he : l.event = e at hmove
  cases hmove with
  | refused kind' ret hp' hprev hret =>
    obtain ⟨_, _, _, hok, _⟩ := hwell kind' ret he
    exact absurd hok hret
  | passes kind' hp' hprev =>
    rw [hp] at hp'
    injection hp' with hk
    subst hk
    cases hprevc : s.prev with
    | none =>
      -- a plain region stores nothing else
      have hsaved : ¬ r.saved.isSome := by
        rw [r.saved_isSome, hkind, ← hprev, hprevc]
        simp
      exact absurd (by simpa [hprevc] using hsaved) hne
    | some c =>
      refine ⟨l.thread, fun hown => hne ?_⟩
      have hbefore := hown c (.inl (by simp [State.put, hprevc]))
      simp only [State.put, Function.update_self, hr, Option.map_some, Option.some.injEq]
        at hbefore
      rw [hprevc, Region.saved_eq_some]
      exact ⟨by rw [hkind, ← hprev, hprevc]; rfl, hbefore⟩
  | setCancel _ hp' => exact absurd (hp.symm.trans hp') (by simp)
  | begins _ _ _ hp' => exact absurd (hp.symm.trans hp') (by simp)
  | releases _ _ hp' => exact absurd (hp.symm.trans hp') (by simp)
  | sleeps _ _ _ hp' => exact absurd (hp.symm.trans hp') (by simp)
  | takes _ _ hp' => exact absurd (hp.symm.trans hp') (by simp)
  | fails _ _ _ hp' => exact absurd (hp.symm.trans hp') (by simp)
  | stores _ hp' => exact absurd (hp.symm.trans hp') (by simp)
  | unlocks hp' => exact absurd (hp.symm.trans hp') (by simp)
  | opens _ hp' => exact absurd (hp.symm.trans hp') (by simp)
  | restores _ hp' => exact absurd (hp.symm.trans hp') (by simp)
  | wakes _ _ _ hp' => exact absurd (hp.symm.trans hp') (by simp)

/-- A doomed release that ends does not end well. -/
theorem doomed_move (hdoom : s.Doomed) (hmove : Moves L s l.thread l.event s')
    (hwell : EndsWell s l s') : s'.Doomed := by
  obtain ⟨t, hnot⟩ := hdoom
  by_cases ht : t = l.thread
  · subst ht
    unfold Thread.Own at hnot
    push Not at hnot
    obtain ⟨c, hp, hne⟩ := hnot
    generalize he : l.event = e at hmove
    cases hmove with
    | opens c' hp' =>
      have hc : c' = c := by
        rw [hp'] at hp
        simpa using hp
      subst hc
      refine ⟨l.thread, fun hown => hne ?_⟩
      simpa [State.put] using hown c' (.inr (by simp [State.put]))
    | restores c' hp' =>
      have hc : c' = c := by
        rw [hp'] at hp
        simpa using hp
      subst hc
      obtain ⟨r, rest, hr, -, -, -, hcancel⟩ := hwell .critical .ok he
      have hbefore := hcancel rfl
      simp only [State.put, Function.update_self] at hbefore
      exact absurd (by rw [hr, hbefore]; rfl) hne
    | unlocks hp' => exact absurd hp (by simp [hp'])
    | setCancel _ hp' => exact absurd hp (by simp [hp'])
    | begins _ _ _ hp' => exact absurd hp (by simp [hp'])
    | releases _ _ hp' => exact absurd hp (by simp [hp'])
    | sleeps _ _ _ hp' => exact absurd hp (by simp [hp'])
    | takes _ _ hp' => exact absurd hp (by simp [hp'])
    | fails _ _ _ hp' => exact absurd hp (by simp [hp'])
    | stores _ hp' => exact absurd hp (by simp [hp'])
    | passes _ hp' => exact absurd hp (by simp [hp'])
    | refused _ _ hp' => exact absurd hp (by simp [hp'])
    | wakes _ _ _ hp' => exact absurd hp (by simp [hp'])
  · refine ⟨t, ?_⟩
    rw [hmove.others ht]
    exact hnot

/-- **Where every release ends well, every release fits**, once those under way
have ended, too. -/
theorem fits_of_endsWell {c : τ → CancelState} {ls : List (Label τ M)}
    (h : Run (restrict (Step L) EndsWell) (State.init M c) ls s) (hs : s.Settled) :
    Run (restrict (Step L) Fits) (State.init M c) ls s := by
  refine Run.restrict_of_doomed Inv State.Doomed ?_ ?_ ?_ (Inv.init c) h ?_
  · intro s l s' hinv hstep _
    exact hinv.move (step_moves hstep)
  · intro s l s' hinv hstep hwell hnot
    exact doomed_of_not_fits hinv (step_moves hstep) hwell hnot
  · intro s l s' _ hdoom hstep hwell
    exact doomed_move hdoom (step_moves hstep) hwell
  · intro hex
    obtain ⟨t, hnot⟩ := hex
    refine hnot fun c hc => ?_
    rcases hc with hc | hc
    · exact absurd hc (hs t c).1
    · exact absurd hc (hs t c).2

end Mccp.Lock
