/-
  Mccp.Counting.Sum
  ─────────────────
  **THE SUM OF check10-a.c, BEHIND ITS READ/WRITE LOCK.**

  s_incr(), s_get() and s_set(), called by any number of threads.  The lock is
  that of lock.c, one pthread call or one access of its field at a time, and
  s_sum++ is a read and a write.  Whoever has read the sum knows it until the
  lock is released, so that no increment is lost.

      Op, run       — the three functions, and one step of one of them
      Sum.Inv       — ties the places, the regions of the lock and the sum together
      Effect        — what a step does, to those who call
      run_spec      — it is all that a step does
-/
import Mccp.Lock.Exclusion

namespace Mccp.Counting

open Lock (RwMode rwlock Region Apart)
open Transition

/-! ## §1. The three functions. -/

/-- A call of `s_incr`, `s_get` or `s_set`. -/
inductive Op where
  | incr
  | get
  | set (v : UInt64)
  deriving DecidableEq, Repr

/-- The lock function that it calls. -/
def Op.mode : Op → RwMode
  | .incr => .writer
  | .get => .reader
  | .set _ => .writer

/-- What it makes of the sum. -/
def Op.apply : Op → UInt64 → UInt64
  | .incr, sum => sum + 1
  | .get, sum => sum
  | .set v, _ => v

/-- Where a thread is in the three functions. -/
inductive At where
  | idle
  /-- In `mccp_rwlock_writer_lock` or `mccp_rwlock_reader_lock`. -/
  | locking (op : Op)
  | inside (op : Op)
  /-- `s_sum++` has read `v`. -/
  | writing (v : UInt64)
  /-- Done with the sum, which is `v`. -/
  | leaving (op : Op) (v : UInt64)
  /-- In `mccp_rwlock_unlock`. -/
  | unlocking (op : Op) (v : UInt64)
  deriving DecidableEq, Repr

/-- The static variables, and where all threads are. -/
structure Sum (τ : Type) where
  s_lock : Lock.State τ RwMode
  s_sum : UInt64
  place : τ → At

/-- The sum once `s_setup` has created its lock. -/
def Sum.initial (τ : Type) : Sum τ where
  s_lock := Lock.State.init RwMode fun _ => .enable
  s_sum := 0
  place _ := .idle

/-- What is seen of a step. -/
inductive Seen where
  | quiet
  | wrote (op : Op)
  /-- The function returns; `v` is what `s_get` returns. -/
  | returned (op : Op) (v : UInt64)
  deriving DecidableEq, Repr

variable {τ : Type} [DecidableEq τ]

/-- The sum with a thread moved. -/
def Sum.go (s : Sum τ) (t : τ) (p : At) : Sum τ := { s with place := Function.update s.place t p }

/-- A step of the lock; `k` says where it takes the thread. -/
def onLock (s : Sum τ) (t : τ) (a : Lock.Action τ RwMode) (k : Lock.Event → Seen × At) :
    Option (Seen × Sum τ) :=
  (Lock.next rwlock s.s_lock a).map fun p =>
    ((k p.1.event).1, { s with s_lock := p.2 }.go t (k p.1.event).2)

/-- The lock function goes on until it has the lock; its result is not looked at. -/
def afterLock (op : Op) : Lock.Event → Seen × At
  | .acquired _ => (.quiet, .inside op)
  | _ => (.quiet, .locking op)

/-- So does the unlock. -/
def afterUnlock (op : Op) (v : UInt64) : Lock.Event → Seen × At
  | .released _ _ => (.returned op v, .idle)
  | _ => (.quiet, .unlocking op v)

/-- A thread calls one of the three. -/
def call (s : Sum τ) (t : τ) (op : Op) : Option (Seen × Sum τ) :=
  match s.place t with
  | .idle => onLock s t (.call t (.acquire op.mode .lock)) fun _ => (.quiet, .locking op)
  | _ => none

/-- **One step of a thread** in `s_incr`, `s_get` or `s_set`. -/
def run (s : Sum τ) (t : τ) : Option (Seen × Sum τ) :=
  match s.place t with
  | .idle => none
  | .locking op => onLock s t (.run t) (afterLock op)
  | .inside .incr => some (.quiet, s.go t (.writing s.s_sum))
  | .inside .get => some (.quiet, s.go t (.leaving .get s.s_sum))
  | .inside (.set v) => some (.wrote (.set v), { s with s_sum := v }.go t (.leaving (.set v) v))
  | .writing v => some (.wrote .incr, { s with s_sum := v + 1 }.go t (.leaving .incr (v + 1)))
  | .leaving op v => onLock s t (.call t (.release .plain)) fun _ => (.quiet, .unlocking op v)
  | .unlocking op v => onLock s t (.run t) (afterUnlock op v)

/-! ## §2. The invariant. -/

/-- What the thread has read or written. -/
def At.known : At → Option UInt64
  | .writing v => some v
  | .leaving _ v => some v
  | .unlocking _ v => some v
  | _ => none

/-- The function that the thread is in. -/
def At.op : At → Option Op
  | .idle => none
  | .locking op => some op
  | .inside op => some op
  | .writing _ => some .incr
  | .leaving op _ => some op
  | .unlocking op _ => some op

/-- What the thread has read or written is the sum, and what it was to set. -/
def At.Knows (p : At) (sum : UInt64) : Prop :=
  ∀ v, p.known = some v → v = sum ∧ ∀ w, p.op = some (.set w) → v = w

theorem At.knows {p : At} {v : UInt64} (hp : p.known = some v)
    (hset : ∀ w, p.op = some (.set w) → v = w) : p.Knows v := by
  intro w hw
  obtain rfl := Option.some.inj (hp.symm.trans hw)
  exact ⟨rfl, hset⟩

/-- The increment of the thread is in the sum. -/
def At.isCounted : At → Bool
  | .leaving .incr _ => true
  | .unlocking .incr _ => true
  | _ => false

/-- The mode in which the thread holds the lock. -/
def At.mode : At → Option RwMode
  | .inside op => some op.mode
  | .writing _ => some .writer
  | .leaving op _ => some op.mode
  | .unlocking op _ => some op.mode
  | _ => none

/-- The one region that a thread opens. -/
def plain (op : Op) : Region RwMode := { mode := op.mode, kind := .plain, before := .enable }

/-- Where the thread is in lock.c. -/
def Fits (th : Lock.Thread RwMode) : At → Prop
  | .idle => th = { place := .outside, cancel := .enable, regions := [] }
  | .locking op =>
      th = { place := .locking (plain op) .lock, cancel := .enable, regions := [] } ∨
        th = { place := .storing (plain op), cancel := .enable, regions := [] }
  | .inside op => th = { place := .outside, cancel := .enable, regions := [plain op] }
  | .writing _ => th = { place := .outside, cancel := .enable, regions := [plain .incr] }
  | .leaving op _ => th = { place := .outside, cancel := .enable, regions := [plain op] }
  | .unlocking op _ =>
      th = { place := .testing .plain, cancel := .enable, regions := [plain op] } ∨
        th = { place := .unlocking none, cancel := .enable, regions := [plain op] }

/-- **The invariant.** -/
structure Sum.Inv (s : Sum τ) : Prop where
  lock : Lock.Inv s.s_lock
  apart : Apart rwlock s.s_lock
  prev : s.s_lock.prev = none
  fits : ∀ t, Fits (s.s_lock.thread t) (s.place t)
  known : ∀ t, (s.place t).Knows s.s_sum

theorem Sum.Inv.initial : (Sum.initial τ).Inv where
  lock := Lock.Inv.init _
  apart := Apart.init _
  prev := rfl
  fits _ := rfl
  known _ _ h := absurd h (by simp [Sum.initial, At.known])

variable {s s' : Sum τ} {t u : τ}

/-- Who is inside holds the lock. -/
theorem Sum.Inv.held (h : s.Inv) {m : RwMode} (hm : (s.place t).mode = some m) :
    m ∈ s.s_lock.held t := by
  have hfits := h.fits t
  rw [h.lock.held t]
  cases hp : s.place t with
  | idle => exact absurd (hp ▸ hm) (by simp [At.mode])
  | locking op => exact absurd (hp ▸ hm) (by simp [At.mode])
  | inside op =>
    rw [hp] at hfits hm
    rw [show s.s_lock.thread t = _ from hfits]
    obtain rfl := Option.some.inj hm
    exact List.mem_singleton.mpr rfl
  | writing v =>
    rw [hp] at hfits hm
    rw [show s.s_lock.thread t = _ from hfits]
    obtain rfl := Option.some.inj hm
    exact List.mem_singleton.mpr rfl
  | leaving op v =>
    rw [hp] at hfits hm
    rw [show s.s_lock.thread t = _ from hfits]
    obtain rfl := Option.some.inj hm
    exact List.mem_singleton.mpr rfl
  | unlocking op v =>
    rw [hp] at hfits hm
    obtain rfl := Option.some.inj hm
    rcases hfits with hth | hth <;> rw [hth] <;> exact List.mem_singleton.mpr rfl

/-- **A writer is alone with the sum.** -/
theorem Sum.Inv.alone (h : s.Inv) (ht : (s.place t).mode = some .writer) (htu : t ≠ u) :
    (s.place u).known = none := by
  have hnil := h.apart.writer_alone htu (h.held ht)
  by_contra hk
  have hmode : ∃ m, (s.place u).mode = some m := by
    cases hp : s.place u with
    | idle => exact absurd (by rw [hp]; rfl) hk
    | locking op => exact absurd (by rw [hp]; rfl) hk
    | inside op => exact ⟨_, rfl⟩
    | writing v => exact ⟨_, rfl⟩
    | leaving op v => exact ⟨_, rfl⟩
    | unlocking op v => exact ⟨_, rfl⟩
  obtain ⟨m, hm⟩ := hmode
  have hheld := h.held hm
  rw [hnil] at hheld
  exact absurd hheld List.not_mem_nil

/-! ## §3. What a step does. -/

/-- **What a step of `t` does**, as far as its callers can tell. -/
inductive Effect (s : Sum τ) (t : τ) : Seen → Sum τ → Prop
  | quiet {s' : Sum τ} (hsum : s'.s_sum = s.s_sum) (hothers : ∀ u, u ≠ t → s'.place u = s.place u)
      (hop : (s'.place t).op = (s.place t).op)
      (hcounted : (s'.place t).isCounted = (s.place t).isCounted) : Effect s t .quiet s'
  | wrote {s' : Sum τ} (op : Op) (hsum : s'.s_sum = op.apply s.s_sum)
      (hothers : ∀ u, u ≠ t → s'.place u = s.place u)
      (hop : (s.place t).op = some op ∧ (s'.place t).op = some op)
      (hcounted : (s.place t).isCounted = false ∧
        ((s'.place t).isCounted = true ↔ op = .incr)) : Effect s t (.wrote op) s'
  | returned {s' : Sum τ} (op : Op) (hsum : s'.s_sum = s.s_sum)
      (hothers : ∀ u, u ≠ t → s'.place u = s.place u)
      (hop : (s.place t).op = some op ∧ s'.place t = .idle)
      (hcounted : (s.place t).isCounted = true ↔ op = .incr)
      (hset : ∀ v, op = .set v → s.s_sum = v) :
      Effect s t (.returned op s.s_sum) s'

theorem go_self (s : Sum τ) (t : τ) (p : At) : (s.go t p).place t = p := Function.update_self ..

theorem go_others (s : Sum τ) (t : τ) (p : At) : ∀ u, u ≠ t → (s.go t p).place u = s.place u :=
  fun _ hu => Function.update_of_ne hu ..

/-- A step of the lock, which takes the thread to `p`. -/
theorem Sum.Inv.lock_step (h : s.Inv) {l : Lock.Label τ RwMode}
    {s_lock : Lock.State τ RwMode} {p : At}
    (hstep : Lock.Step rwlock s.s_lock l s_lock) (hl : l.thread = t)
    (hprev : s_lock.prev = none) (hfits : Fits (s_lock.thread t) p)
    (hknown : p.Knows s.s_sum) : ({ s with s_lock := s_lock }.go t p).Inv where
  lock := h.lock.move (Lock.step_moves hstep)
  apart := h.apart.step hstep
  prev := hprev
  fits u := by
    by_cases hu : u = t
    · subst hu
      rw [go_self]
      exact hfits
    · rw [go_others _ _ _ u hu]
      show Fits (s_lock.thread u) (s.place u)
      rw [(Lock.step_moves hstep).others (hl ▸ hu)]
      exact h.fits u
  known u := by
    by_cases hu : u = t
    · subst hu
      rw [go_self]
      exact hknown
    · rw [go_others _ _ _ u hu]
      exact h.known u

/-- A step that leaves the lock alone. -/
theorem Sum.Inv.sum_step (h : s.Inv) {v : UInt64} {p : At}
    (hfits : Fits (s.s_lock.thread t) p) (hknown : p.Knows v)
    (hothers : v = s.s_sum ∨ (s.place t).mode = some .writer) :
    ({ s with s_sum := v }.go t p).Inv where
  lock := h.lock
  apart := h.apart
  prev := h.prev
  fits u := by
    by_cases hu : u = t
    · subst hu
      rw [go_self]
      exact hfits
    · rw [go_others _ _ _ u hu]
      exact h.fits u
  known u := by
    by_cases hu : u = t
    · subst hu
      rw [go_self]
      exact hknown
    · rw [go_others _ _ _ u hu]
      rcases hothers with rfl | hwriter
      · exact h.known u
      · -- nobody else knows a value that is out of date now
        intro w hw
        exact absurd ((h.alone hwriter (Ne.symm hu)).symm.trans hw) (by simp)

/-- **A call enters the lock function.** -/
theorem call_spec (h : s.Inv) {op : Op} {e : Seen} (hcall : call s t op = some (e, s')) :
    s'.Inv ∧ e = .quiet ∧ s.place t = .idle ∧ s'.s_sum = s.s_sum ∧
      s'.place = Function.update s.place t (.locking op) := by
  unfold call at hcall
  split at hcall
  next hidle =>
    obtain ⟨⟨l, s_lock⟩, hnext, heq⟩ := Option.map_eq_some_iff.mp hcall
    injection heq with he hs
    have hstep : Lock.Step rwlock s.s_lock l s_lock := ⟨_, hnext⟩
    have hth : s.s_lock.thread t = { place := .outside, cancel := .enable, regions := [] } := by
      have hfits := h.fits t
      rwa [hidle] at hfits
    simp only [Lock.next, hth, Lock.begin, Option.map_some, Option.some.injEq,
      Prod.mk.injEq] at hnext
    obtain ⟨rfl, rfl⟩ := hnext
    refine ⟨?_, he.symm, hidle, by rw [← hs]; rfl, by rw [← hs]; rfl⟩
    rw [← hs]
    exact h.lock_step hstep rfl h.prev (.inl (Function.update_self ..))
      (fun v hv => absurd hv (by simp [At.known]))
  next => exact absurd hcall (by simp)

/-- In the lock function. -/
theorem locking_spec (h : s.Inv) {op : Op} (hp : s.place t = .locking op) {e : Seen}
    (hrun : onLock s t (.run t) (afterLock op) = some (e, s')) : s'.Inv ∧ Effect s t e s' := by
  have hfits := h.fits t
  rw [hp] at hfits
  obtain ⟨⟨l, s_lock⟩, hnext, heq⟩ := Option.map_eq_some_iff.mp hrun
  injection heq with he hs
  have hstep : Lock.Step rwlock s.s_lock l s_lock := ⟨_, hnext⟩
  -- it is in the function before the step and inside or in it after
  have heffect : ∀ p : At, p.op = some op → p.isCounted = false →
      Effect s t .quiet ({ s with s_lock := s_lock }.go t p) := by
    intro p hop hcounted
    refine .quiet rfl (go_others _ _ _) ?_ ?_
    · rw [go_self, hp, hop]
      rfl
    · rw [go_self, hp, hcounted]
      rfl
  rcases hfits with hth | hth
  · -- pthread_rwlock_wrlock() or pthread_rwlock_rdlock()
    simp only [Lock.next, Lock.step, hth, plain] at hnext
    split at hnext
    next =>
      simp only [Option.map_some, Option.some.injEq, Prod.mk.injEq] at hnext
      obtain ⟨rfl, rfl⟩ := hnext
      subst he hs
      refine ⟨h.lock_step hstep rfl h.prev (.inr (Function.update_self ..)) ?_,
        heffect _ rfl rfl⟩
      exact fun v hv => absurd hv (by simp [afterLock, At.known])
    next => exact absurd hnext (by simp)
  · -- m_prev_cancel_state
    simp only [Lock.next, Lock.step, hth, Option.map_some, Option.some.injEq,
      Prod.mk.injEq] at hnext
    obtain ⟨rfl, rfl⟩ := hnext
    subst he hs
    refine ⟨h.lock_step hstep rfl rfl (Function.update_self ..) ?_, heffect _ rfl rfl⟩
    exact fun v hv => absurd hv (by simp [afterLock, At.known])

/-- In the unlock. -/
theorem unlocking_spec (h : s.Inv) {op : Op} {v : UInt64} (hp : s.place t = .unlocking op v)
    {e : Seen} (hrun : onLock s t (.run t) (afterUnlock op v) = some (e, s')) :
    s'.Inv ∧ Effect s t e s' := by
  have hfits := h.fits t
  rw [hp] at hfits
  obtain ⟨hv, hset⟩ := h.known t v (by rw [hp]; rfl)
  have hknown := h.known t
  rw [hp] at hset hknown
  obtain ⟨⟨l, s_lock⟩, hnext, heq⟩ := Option.map_eq_some_iff.mp hrun
  injection heq with he hs
  have hstep : Lock.Step rwlock s.s_lock l s_lock := ⟨_, hnext⟩
  rcases hfits with hth | hth
  · -- the region is a plain one, as all are
    simp only [Lock.next, Lock.step, hth, h.prev, Option.map_some, Option.some.injEq,
      Prod.mk.injEq] at hnext
    obtain ⟨rfl, rfl⟩ := hnext
    subst he hs
    refine ⟨h.lock_step hstep rfl h.prev (.inr (Function.update_self ..)) hknown, ?_⟩
    · refine .quiet rfl (go_others _ _ _) ?_ ?_ <;> rw [go_self, hp] <;> cases op <;> rfl
  · simp only [Lock.next, Lock.step, hth, Option.map_some, Option.some.injEq,
      Prod.mk.injEq] at hnext
    obtain ⟨rfl, rfl⟩ := hnext
    subst he hs hv
    refine ⟨h.lock_step hstep rfl h.prev (Function.update_self ..) ?_, ?_⟩
    · exact fun w hw => absurd hw (by simp [afterUnlock, At.known])
    · refine .returned op rfl (go_others _ _ _) ⟨by rw [hp]; rfl, go_self ..⟩ ?_ ?_
      · rw [hp]
        cases op <;> simp [At.isCounted]
      · exact fun w hw => hset w (by rw [hw]; rfl)

/-- The call of the unlock. -/
theorem leaving_spec (h : s.Inv) {op : Op} {v : UInt64} (hp : s.place t = .leaving op v)
    {e : Seen}
    (hrun : onLock s t (.call t (.release .plain)) (fun _ => (.quiet, .unlocking op v)) =
      some (e, s')) : s'.Inv ∧ Effect s t e s' := by
  have hth := h.fits t
  rw [hp] at hth
  obtain ⟨⟨l, s_lock⟩, hnext, heq⟩ := Option.map_eq_some_iff.mp hrun
  injection heq with he hs
  have hstep : Lock.Step rwlock s.s_lock l s_lock := ⟨_, hnext⟩
  simp only [Fits] at hth
  simp only [Lock.next, Lock.begin, hth, plain, if_true, Option.map_some, Option.some.injEq,
    Prod.mk.injEq] at hnext
  obtain ⟨rfl, rfl⟩ := hnext
  subst he hs
  have hknown := h.known t
  rw [hp] at hknown
  refine ⟨h.lock_step hstep rfl h.prev (.inl (Function.update_self ..)) hknown, ?_⟩
  · refine .quiet rfl (go_others _ _ _) ?_ ?_ <;> rw [go_self, hp] <;> cases op <;> rfl

/-- **A step does what is seen of it.** -/
theorem run_spec (h : s.Inv) {e : Seen} (hrun : run s t = some (e, s')) :
    s'.Inv ∧ Effect s t e s' := by
  have hfits := h.fits t
  unfold run at hrun
  split at hrun
  next => exact absurd hrun (by simp)
  next op hp => exact locking_spec h hp hrun
  next hp =>
    rw [hp] at hfits
    cases hrun
    refine ⟨h.sum_step hfits (At.knows rfl (by simp [At.op])) (.inl rfl), ?_⟩
    refine .quiet rfl (go_others _ _ _) ?_ ?_ <;> rw [go_self, hp] <;> rfl
  next hp =>
    rw [hp] at hfits
    cases hrun
    refine ⟨h.sum_step hfits (At.knows rfl (by simp [At.op])) (.inl rfl), ?_⟩
    refine .quiet rfl (go_others _ _ _) ?_ ?_ <;> rw [go_self, hp] <;> rfl
  next v hp =>
    rw [hp] at hfits
    cases hrun
    refine ⟨h.sum_step hfits (At.knows rfl (by simp [At.op])) (.inr (by rw [hp]; rfl)), ?_⟩
    refine .wrote (.set v) rfl (go_others _ _ _) ⟨by rw [hp]; rfl, by rw [go_self]; rfl⟩ ?_
    rw [go_self, hp]
    simp [At.isCounted]
  next v hp =>
    rw [hp] at hfits
    cases hrun
    have hv : v = s.s_sum := (h.known t v (by rw [hp]; rfl)).1
    refine ⟨h.sum_step hfits (At.knows rfl (by simp [At.op])) (.inr (by rw [hp]; rfl)), ?_⟩
    refine .wrote .incr (by rw [hv]; rfl) (go_others _ _ _)
      ⟨by rw [hp]; rfl, by rw [go_self]; rfl⟩ ?_
    rw [go_self, hp]
    simp [At.isCounted]
  next op v hp => exact leaving_spec h hp hrun
  next op v hp => exact unlocking_spec h hp hrun

end Mccp.Counting
