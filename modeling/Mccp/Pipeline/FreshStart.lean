/-
  Mccp.Pipeline.FreshStart
  ────────────────────────
  **A START STARTS AFRESH, UNLESS ONE BEFORE IT HAS FAILED.**

  A start that fails cancels the workers it has begun, and the cancelation
  leaves `m_sg_lvl` at SHUTDOWN_RIGHT_NOW.  The next start sets the counters and
  `m_do_loop` anew, but not `m_sg_lvl`, so its workers leave their loop before
  the first procedure.

      Stride           — what one step of a worker can be, when nobody pauses
      Course           — the workers begun are on their way to their procedures
      Phase            — before, in and after the start that succeeds
      Phase.step       — kept by every step
      start_fresh_iff  — a start is fresh if and only if none before it failed
-/
import Mathlib.Algebra.BigOperators.Group.Finset.Basic
import Mathlib.Algebra.BigOperators.Group.Finset.Piecewise
import Mccp.Pipeline.Start

namespace Mccp.Pipeline.Start

open Transition
open Gstate (GraceLevel)

variable {n : Nat} {s s' : System n} {l : Label n} {i : Fin n}

/-! ## §1. The worker that makes a step. -/

/-- The run is in s_worker_pause(). -/
def Place.isPausing : Place → Bool
  | .pausing _ => true
  | _ => false

/-- One step of a worker within its loop, while no pause is requested. -/
inductive Stride (stage : StageRecord) (w : Worker) : Worker → Prop
  | enter (called : Bool) (hi : w.place = .head called) (hloop : stage.m_do_loop = true) :
      Stride stage w { w with place := .level called }
  | stop (called : Bool) (hi : w.place = .head called) (hloop : stage.m_do_loop = false) :
      Stride stage w { w with place := .left called }
  | goOn (called : Bool) (hi : w.place = .level called) :
      Stride stage w { w with place := .test called }
  | leave (called : Bool) (hi : w.place = .level called)
      (hleave : ¬ (w.st = 0 ∧ stage.m_sg_lvl = .unknown)) :
      Stride stage w { w with place := .left called }
  | call (called : Bool) (hi : w.place = .test called) :
      Stride stage w { w with place := .executing }
  | fail (ret : Result) (hi : w.place = .executing) :
      Stride stage w { w with st := ret, place := .left true }
  | again (ret : Result) (hi : w.place = .executing) :
      Stride stage w { w with st := ret, place := .head true }

/-- The stage with another worker in the place of one. -/
def System.put (s : System n) (i : Fin n) (w : Worker) : System n :=
  { s with worker := Function.update s.worker i w }

/-- **What a step of a worker can do**, while no pause is requested. -/
theorem workerStep_cases {ret : Result} {isMaster : Bool}
    (hpause : s.stage.m_pause_requested = false)
    (hin : (s.worker i).place.isPausing = false) (h : workerStep s i ret isMaster = some s') :
    (∃ w, Stride s.stage (s.worker i) w ∧ s' = s.put i w) ∨
      (∃ called, (s.worker i).place = .left called ∧ s' = s.finalize i false) := by
  unfold workerStep at h
  cases hi : (s.worker i).place with
  | absent =>
    rw [hi] at h
    exact absurd h (by simp)
  | head called =>
    rw [hi] at h
    cases hloop : s.stage.m_do_loop with
    | true =>
      refine Or.inl ⟨_, .enter called hi hloop, ?_⟩
      simpa [hloop, System.move, System.put] using h.symm
    | false =>
      refine Or.inl ⟨_, .stop called hi hloop, ?_⟩
      simpa [hloop, System.move, System.put] using h.symm
  | level called =>
    rw [hi] at h
    dsimp only at h
    split at h
    next hgo =>
      refine Or.inl ⟨_, .goOn called hi, ?_⟩
      exact (Option.some.inj h).symm
    next hleave =>
      refine Or.inl ⟨_, .leave called hi (fun hst => hleave (.inr hst)), ?_⟩
      exact (Option.some.inj h).symm
  | test called =>
    rw [hi] at h
    refine Or.inl ⟨_, .call called hi, ?_⟩
    simpa [hpause, System.move, System.put] using h.symm
  | executing =>
    rw [hi] at h
    dsimp only at h
    split at h
    next =>
      refine Or.inl ⟨_, .fail ret hi, ?_⟩
      simpa [System.move, System.put] using h.symm
    next =>
      refine Or.inl ⟨_, .again ret hi, ?_⟩
      simpa [System.move, System.put] using h.symm
  | pausing called =>
    rw [hi] at hin
    exact absurd hin (by simp [Place.isPausing])
  | left called =>
    rw [hi] at h
    exact Or.inr ⟨called, rfl, (Option.some.inj h).symm⟩
  | ended called isCanceled =>
    rw [hi] at h
    exact absurd h (by simp)

/-- A worker within its loop is neither ended nor in a pause, before and after. -/
theorem Stride.within {stage : StageRecord} {w w' : Worker} (h : Stride stage w w') :
    w.place.isRunning = true ∧ w.place.isEnded = false ∧ w'.place.isEnded = false ∧
      w'.place.isPausing = false ∧ w'.cancelPending = w.cancelPending := by
  cases h with
  | enter called hi | stop called hi | goOn called hi | leave called hi | call called hi
  | fail ret hi | again ret hi =>
    rw [hi]
    exact ⟨rfl, rfl, rfl, rfl, rfl⟩

theorem Place.isCanceled_of_isEnded {p : Place} (h : p.isEnded = false) :
    p.isCanceled = false := by
  cases p with
  | ended called isCanceled => exact absurd h (by simp [Place.isEnded])
  | _ => rfl

/-! ## §2. On the way to the first procedure. -/

/-- How many steps of its own a worker is from its first procedure. -/
def Place.distance : Place → Nat
  | .head false => 3
  | .level false => 2
  | .test false => 1
  | _ => 0

/-- A worker that has called its first procedure, or comes to it with its next
steps. -/
def Worker.OnWay (w : Worker) : Prop :=
  w.place.isPausing = false ∧
    (w.place.hasCalled = true ∨
      (w.place = .head false ∨ w.place = .level false ∨ w.place = .test false) ∧ w.st = 0)

theorem Worker.OnWay.begun : Worker.begun.OnWay :=
  ⟨rfl, .inr ⟨.inl rfl, rfl⟩⟩

/-- A run that has ended on its way has called its first procedure. -/
theorem Worker.OnWay.hasCalled {w : Worker} (h : w.OnWay)
    (hend : w.place.isEnded = true ∨ ∃ called, w.place = .left called) :
    w.place.hasCalled = true := by
  obtain ⟨-, hcalled | ⟨hplace, -⟩⟩ := h
  · exact hcalled
  · rcases hend with hend | ⟨called, hleft⟩
    · rcases hplace with hp | hp | hp <;> exact absurd hend (by rw [hp]; decide)
    · rcases hplace with hp | hp | hp <;> exact absurd hleft (by rw [hp]; simp)

/-- A step brings a worker nearer, where the loop goes on and no shutdown has
been asked for. -/
theorem Worker.OnWay.stride {stage : StageRecord} {w w' : Worker} (h : w.OnWay)
    (hloop : stage.m_do_loop = true) (hlvl : stage.m_sg_lvl = .unknown)
    (hs : Stride stage w w') :
    w'.OnWay ∧ (w'.place.hasCalled = true ∨ w'.place.distance + 1 ≤ w.place.distance) := by
  obtain ⟨-, hcalled | ⟨hplace, hst⟩⟩ := h
  · -- called before: called still
    have hcalled' : w'.place.hasCalled = true := by
      cases hs with
      | enter called hi | stop called hi | goOn called hi | leave called hi =>
        rw [hi] at hcalled
        exact hcalled
      | call called hi | fail ret hi | again ret hi => rfl
    exact ⟨⟨hs.within.2.2.2.1, .inl hcalled'⟩, .inl hcalled'⟩
  · cases hs with
    | enter called hi =>
      have hc : called = false := by simpa [hi] using hplace
      subst hc
      refine ⟨⟨rfl, .inr ⟨.inr (.inl rfl), hst⟩⟩, .inr ?_⟩
      show 2 + 1 ≤ w.place.distance
      rw [hi]
      decide
    | stop called hi hno => exact absurd hloop (by rw [hno]; decide)
    | goOn called hi =>
      have hc : called = false := by simpa [hi] using hplace
      subst hc
      refine ⟨⟨rfl, .inr ⟨.inr (.inr rfl), hst⟩⟩, .inr ?_⟩
      show 1 + 1 ≤ w.place.distance
      rw [hi]
      decide
    | leave called hi hleave => exact absurd ⟨hst, hlvl⟩ hleave
    | call called hi => exact ⟨⟨rfl, .inl rfl⟩, .inl rfl⟩
    | fail ret hi => exact ⟨⟨rfl, .inl rfl⟩, .inl rfl⟩
    | again ret hi => exact ⟨⟨rfl, .inl rfl⟩, .inl rfl⟩

/-! ## §3. What a step can do. -/

/-- What a call that finds `m_lock` free does. -/
def callOf (s : System n) : Action n → Option (Outcome × System n)
  | .setup ret => some (setup s ret)
  | .start => some (start s)
  | .cancel => some (cancel s)
  | .shutdown lvl => some (shutdown s lvl)
  | .wait ret => some (wait s ret)
  | .pause => some (pause s)
  | .resume => some (resume s)
  | .destroy => some (destroy s)
  | _ => none

/-- The start of all the workers is over. -/
def System.started (s : System n) : System n :=
  { s with stage := { s.stage with m_status := .started }, api := .idle }

/-- The workers of a start that failed have been waited for. -/
def System.cleaned (s : System n) : System n :=
  { s with
    stage := { s.stage with m_n_canceled_workers := 0, m_n_shutdown_workers := 0 }
    worker := fun _ => .idle
    api := .idle }

/-- **What a step can do.** -/
inductive Event (s : System n) : Label n → System n → Prop
  | worker (i : Fin n) (ret : Result) (isMaster : Bool) (s' : System n)
      (hs : workerStep s i ret isMaster = some s') : Event s ⟨.worker i ret isMaster, .quiet⟩ s'
  | actCancel (i : Fin n) (hp : (s.worker i).cancelPending = true)
      (hr : (s.worker i).place.isRunning = true) :
      Event s ⟨.actCancel i, .quiet⟩ (s.finalize i true)
  | call (a : Action n) (f : Outcome × System n) (hapi : s.api = .idle)
      (hf : callOf s a = some f) : Event s ⟨a, f.1⟩ f.2
  | invalid (a : Action n) (f : Outcome × System n) (hapi : s.api = .idle)
      (hf : callOf s a = some f) : Event s ⟨a, .returned .invalidObject⟩ s
  | startWorker (k : Nat) (hk : k < n) (ret : Result) (hapi : s.api = .starting k) :
      Event s ⟨.startWorker ret, .quiet⟩ (Start.startWorker s ⟨k, hk⟩ ret)
  | endStart (k : Nat) (hk : n ≤ k) (hapi : s.api = .starting k) :
      Event s ⟨.endStart, .returned .ok⟩ s.started
  | endClean (ret : Result) (hapi : s.api = .cleaning ret)
      (hall : ∀ i, (s.worker i).place.isRunning = false) :
      Event s ⟨.endStart, .returned ret⟩ s.cleaned
  | endPause (ret : Result) (hapi : s.api = .pausing) :
      Event s ⟨.endPause ret, (Start.endPause s ret).1⟩ (Start.endPause s ret).2

/-- What holds of each call holds of the one that is made. -/
@[elab_as_elim]
theorem callOf_ind {P : Action n → Outcome × System n → Prop} {a : Action n}
    {f : Outcome × System n} (hf : callOf s a = some f)
    (hsetup : ∀ ret, P (.setup ret) (setup s ret)) (hstart : P .start (start s))
    (hcancel : P .cancel (cancel s)) (hshutdown : ∀ lvl, P (.shutdown lvl) (shutdown s lvl))
    (hwait : ∀ ret, P (.wait ret) (wait s ret)) (hpause : P .pause (pause s))
    (hresume : P .resume (resume s)) (hdestroy : P .destroy (destroy s)) : P a f := by
  cases a with
  | setup ret => exact Option.some.inj hf ▸ hsetup ret
  | start => exact Option.some.inj hf ▸ hstart
  | cancel => exact Option.some.inj hf ▸ hcancel
  | shutdown lvl => exact Option.some.inj hf ▸ hshutdown lvl
  | wait ret => exact Option.some.inj hf ▸ hwait ret
  | pause => exact Option.some.inj hf ▸ hpause
  | resume => exact Option.some.inj hf ▸ hresume
  | destroy => exact Option.some.inj hf ▸ hdestroy
  | _ => exact absurd hf (by simp [callOf])

theorem event_of_ifFree {a : Action n} {f : Outcome × System n} (hf : callOf s a = some f)
    (h : ifFree s a f = some (l, s')) : Event s l s' := by
  unfold ifFree at h
  split at h
  next hapi =>
    split at h
    next =>
      obtain ⟨rfl, rfl⟩ : _ ∧ _ := by simpa using h
      exact .call a f hapi hf
    next =>
      obtain ⟨rfl, rfl⟩ : _ ∧ _ := by simpa using h
      exact .invalid a f hapi hf
  next => exact absurd h (by simp)

theorem event_of_goOn {a : Action n} (h : goOn s a = some (l, s')) : Event s l s' := by
  unfold goOn at h
  split at h
  next k ret hapi =>
    split at h
    next hk =>
      obtain ⟨rfl, rfl⟩ : _ ∧ _ := by simpa using h
      exact .startWorker k hk ret hapi
    next => exact absurd h (by simp)
  next k hapi =>
    split at h
    next hk =>
      obtain ⟨rfl, rfl⟩ : _ ∧ _ := by simpa using h
      exact .endStart k hk hapi
    next => exact absurd h (by simp)
  next ret hapi =>
    split at h
    next hall =>
      obtain ⟨rfl, rfl⟩ : _ ∧ _ := by simpa using h
      exact .endClean ret hapi hall
    next => exact absurd h (by simp)
  next ret hapi =>
    obtain ⟨rfl, rfl⟩ : _ ∧ _ := by simpa using h
    exact .endPause ret hapi
  next => exact absurd h (by simp)

theorem Step.event (h : Step s l s') : Event s l s' := by
  obtain ⟨a, ha⟩ := h
  unfold next at ha
  split at ha
  next => exact absurd ha (by simp)
  next =>
    cases a with
    | setup ret => exact event_of_ifFree rfl ha
    | start => exact event_of_ifFree rfl ha
    | cancel => exact event_of_ifFree rfl ha
    | shutdown lvl => exact event_of_ifFree rfl ha
    | wait ret => exact event_of_ifFree rfl ha
    | pause => exact event_of_ifFree rfl ha
    | resume => exact event_of_ifFree rfl ha
    | destroy => exact event_of_ifFree rfl ha
    | startWorker ret => exact event_of_goOn ha
    | endStart => exact event_of_goOn ha
    | endPause ret => exact event_of_goOn ha
    | worker i ret isMaster =>
      obtain ⟨t, ht, hl⟩ := Option.map_eq_some_iff.mp ha
      obtain ⟨rfl, rfl⟩ : _ ∧ _ := by simpa using hl
      exact .worker i ret isMaster t ht
    | actCancel i =>
      dsimp only at ha
      split at ha
      next hc =>
        obtain ⟨rfl, rfl⟩ : _ ∧ _ := by simpa using ha
        exact .actCancel i hc.1 hc.2
      next => exact absurd ha (by simp)

/-! ## §4. The workers of a start. -/

/-- The number of workers whose place is such. -/
def System.count (s : System n) (p : Place → Bool) : Nat :=
  (Finset.univ.filter fun i => p (s.worker i).place = true).card

/-- The other workers count as before. -/
theorem count_put (p : Place → Bool) (s : System n) (i : Fin n) (w : Worker) :
    (s.put i w).count p + (p (s.worker i).place).toNat =
      s.count p + (p w.place).toNat := by
  have hsum : ∀ t : System n, t.count p = ∑ j, (p (t.worker j).place).toNat := by
    intro t
    unfold System.count
    rw [Finset.card_filter]
    refine Finset.sum_congr rfl (fun j _ => ?_)
    cases hp : p (t.worker j).place <;> rfl
  rw [hsum, hsum]
  have hput : ∀ j, (p ((s.put i w).worker j).place).toNat =
      Function.update (fun j => (p (s.worker j).place).toNat) i (p w.place).toNat j := by
    intro j
    show (p (Function.update s.worker i w j).place).toNat = _
    by_cases hji : j = i
    · rw [hji, Function.update_self, Function.update_self]
    · rw [Function.update_of_ne hji, Function.update_of_ne hji]
  rw [Finset.sum_congr rfl (fun j _ => hput j),
    Finset.sum_update_of_mem (Finset.mem_univ i),
    Finset.sum_eq_add_sum_sdiff_singleton_of_mem (Finset.mem_univ i)
      (fun j => (p (s.worker j).place).toNat)]
  omega

/-- What no step of a worker changes, while no pause is requested. -/
structure Frame (s s' : System n) : Prop where
  api : s'.api = s.api
  size : s'.stage.m_n_workers = s.stage.m_n_workers
  status : s'.stage.m_status = s.stage.m_status
  lvl : s'.stage.m_sg_lvl = s.stage.m_sg_lvl
  pause : s'.stage.m_pause_requested = s.stage.m_pause_requested
  loop : s'.stage.m_do_loop = s.stage.m_do_loop

theorem Frame.finalize (s : System n) (i : Fin n) (isCanceled : Bool) :
    Frame s (s.finalize i isCanceled) := by
  cases isCanceled <;> exact ⟨rfl, rfl, rfl, rfl, rfl, rfl⟩

theorem finalize_worker (s : System n) (i : Fin n) (isCanceled : Bool) :
    (s.finalize i isCanceled).worker = (s.put i
      { s.worker i with place := .ended (s.worker i).place.hasCalled isCanceled }).worker := rfl

/-- The workers of a start, of which the first `k` have been begun, are on their
way, and counted. -/
structure Course (k : Nat) (s : System n) : Prop where
  size : s.stage.m_n_workers = n
  loop : s.stage.m_do_loop = true ∨ ∀ i, (s.worker i).place.isEnded = true
  lvl : s.stage.m_sg_lvl = .unknown
  pause : s.stage.m_pause_requested = false
  begun : ∀ i : Fin n, i.val < k → (s.worker i).OnWay
  rest : ∀ i : Fin n, k ≤ i.val → (s.worker i).place = .absent
  pending : ∀ i, (s.worker i).cancelPending = false
  shutdown : s.stage.m_n_shutdown_workers = s.count Place.isEnded
  canceled : s.stage.m_n_canceled_workers = s.count Place.isCanceled

theorem Course.not_pausing {k : Nat} (h : Course k s) (i : Fin n) :
    (s.worker i).place.isPausing = false := by
  rcases Nat.lt_or_ge i.val k with hi | hi
  · exact (h.begun i hi).1
  · rw [h.rest i hi]
    rfl

theorem Course.lt {k : Nat} (h : Course k s) (hi : (s.worker i).place ≠ .absent) : i.val < k := by
  by_contra hge
  exact hi (h.rest i (by omega))

/-- Another worker on its way in the place of one that has not ended. -/
theorem Course.replace {k : Nat} {w : Worker} (h : Course k s) (hi : i.val < k) (hw : w.OnWay)
    (hpend : w.cancelPending = (s.worker i).cancelPending)
    (hin : (s.worker i).place.isEnded = false)
    (hworker : s'.worker = (s.put i w).worker) (hframe : Frame s s')
    (hshutdown : s'.stage.m_n_shutdown_workers =
      s.stage.m_n_shutdown_workers + w.place.isEnded.toNat)
    (hcanceled : s'.stage.m_n_canceled_workers =
      s.stage.m_n_canceled_workers + w.place.isCanceled.toNat) : Course k s' := by
  have hother : ∀ j, j ≠ i → s'.worker j = s.worker j := by
    intro j hji
    rw [hworker]
    exact Function.update_of_ne hji ..
  have hself : s'.worker i = w := by
    rw [hworker]
    exact Function.update_self ..
  have hcount : ∀ p, s'.count p + (p (s.worker i).place).toNat = s.count p + (p w.place).toNat := by
    intro p
    have hput := count_put p s i w
    unfold System.count at hput ⊢
    rw [hworker]
    exact hput
  refine ⟨by rw [hframe.size, h.size], .inl ?_, by rw [hframe.lvl, h.lvl],
    by rw [hframe.pause, h.pause], ?_, ?_, ?_, ?_, ?_⟩
  · rw [hframe.loop]
    refine h.loop.resolve_right (fun hall => ?_)
    have hend := hall i
    rw [hin] at hend
    exact absurd hend (by decide)
  · intro j hj
    by_cases hji : j = i
    · rw [hji, hself]
      exact hw
    · rw [hother j hji]
      exact h.begun j hj
  · intro j hj
    rw [hother j (by intro hji; rw [hji] at hj; omega)]
    exact h.rest j hj
  · intro j
    by_cases hji : j = i
    · rw [hji, hself, hpend]
      exact h.pending i
    · rw [hother j hji]
      exact h.pending j
  · have hc := hcount Place.isEnded
    rw [hin, Bool.toNat_false] at hc
    rw [hshutdown, h.shutdown]
    omega
  · have hc := hcount Place.isCanceled
    rw [Place.isCanceled_of_isEnded hin, Bool.toNat_false] at hc
    rw [hcanceled, h.canceled]
    omega

/-- A worker that makes a step within the loop stays on its course. -/
theorem Course.put {k : Nat} {w : Worker} (h : Course k s) (hs : Stride s.stage (s.worker i) w) :
    Course k (s.put i w) ∧
      (w.place.hasCalled = true ∨ w.place.distance + 1 ≤ (s.worker i).place.distance) := by
  obtain ⟨hrun, hin, hin', -, hpend⟩ := hs.within
  have hi : i.val < k := h.lt (by intro habs; rw [habs] at hrun; exact absurd hrun (by decide))
  have hloop : s.stage.m_do_loop = true := by
    refine h.loop.resolve_right (fun hall => ?_)
    have hend := hall i
    rw [hin] at hend
    exact absurd hend (by decide)
  obtain ⟨hway, hnear⟩ := (h.begun i hi).stride hloop h.lvl hs
  refine ⟨h.replace hi hway hpend hin rfl ⟨rfl, rfl, rfl, rfl, rfl, rfl⟩ ?_ ?_, hnear⟩
  · rw [hin']
    rfl
  · rw [Place.isCanceled_of_isEnded hin']
    rfl

/-- So does one that ends. -/
theorem Course.finalize {k : Nat} {called : Bool} (h : Course k s)
    (hleft : (s.worker i).place = .left called) : Course k (s.finalize i false) := by
  have hi : i.val < k := h.lt (by rw [hleft]; simp)
  have hcalled := (h.begun i hi).hasCalled (.inr ⟨called, hleft⟩)
  have hin : (s.worker i).place.isEnded = false := by
    rw [hleft]
    rfl
  have hway : Worker.OnWay
      { s.worker i with place := .ended (s.worker i).place.hasCalled false } :=
    ⟨rfl, .inl hcalled⟩
  exact h.replace hi hway rfl hin (finalize_worker s i false) (Frame.finalize s i false) rfl rfl

/-- A start that has begun no worker yet. -/
theorem Course.zero (hsize : s.stage.m_n_workers = n) (hloop : s.stage.m_do_loop = true)
    (hlvl : s.stage.m_sg_lvl = .unknown) (hpause : s.stage.m_pause_requested = false)
    (hidle : ∀ i, s.worker i = .idle)
    (hshutdown : s.stage.m_n_shutdown_workers = 0)
    (hcanceled : s.stage.m_n_canceled_workers = 0) : Course 0 s := by
  have hcount : ∀ p : Place → Bool, p .absent = false → s.count p = 0 := by
    intro p hp
    unfold System.count
    rw [Finset.card_eq_zero, Finset.filter_eq_empty_iff]
    intro i _
    show ¬ p (s.worker i).place = true
    rw [hidle i]
    show ¬ p .absent = true
    rw [hp]
    decide
  refine ⟨hsize, .inl hloop, hlvl, hpause, fun i hi => ?_, fun i _ => by rw [hidle i]; rfl,
    fun i => by rw [hidle i]; rfl, ?_, ?_⟩
  · exact absurd hi (by omega)
  · rw [hshutdown, hcount Place.isEnded rfl]
  · rw [hcanceled, hcount Place.isCanceled rfl]

/-- One more worker is begun. -/
theorem Course.begin {k : Nat} {p : ApiPlace} (h : Course k s) (hk : k < n) :
    Course (k + 1) { s.put ⟨k, hk⟩ .begun with api := p } := by
  have habsent := h.rest ⟨k, hk⟩ (Nat.le_refl k)
  have hloop : s.stage.m_do_loop = true := by
    refine h.loop.resolve_right (fun hall => ?_)
    have hend := hall ⟨k, hk⟩
    rw [habsent] at hend
    exact absurd hend (by decide)
  refine ⟨h.size, .inl hloop, h.lvl, h.pause, ?_, ?_, ?_, ?_, ?_⟩
  · intro j hj
    show (Function.update s.worker ⟨k, hk⟩ .begun j).OnWay
    by_cases hjk : j = ⟨k, hk⟩
    · rw [hjk, Function.update_self]
      exact Worker.OnWay.begun
    · rw [Function.update_of_ne hjk]
      apply h.begun j
      have hne : j.val ≠ k := fun he => hjk (Fin.ext he)
      omega
  · intro j hj
    show (Function.update s.worker ⟨k, hk⟩ .begun j).place = .absent
    rw [Function.update_of_ne (by intro hjk; rw [hjk] at hj; exact absurd hj (by simp))]
    exact h.rest j (by omega)
  · intro j
    show (Function.update s.worker ⟨k, hk⟩ .begun j).cancelPending = false
    by_cases hjk : j = ⟨k, hk⟩
    · rw [hjk, Function.update_self]
      rfl
    · rw [Function.update_of_ne hjk]
      exact h.pending j
  · have hcount := count_put Place.isEnded s ⟨k, hk⟩ .begun
    rw [habsent] at hcount
    show s.stage.m_n_shutdown_workers = (s.put ⟨k, hk⟩ .begun).count Place.isEnded
    rw [h.shutdown]
    exact hcount.symm
  · have hcount := count_put Place.isCanceled s ⟨k, hk⟩ .begun
    rw [habsent] at hcount
    show s.stage.m_n_canceled_workers = (s.put ⟨k, hk⟩ .begun).count Place.isCanceled
    rw [h.canceled]
    exact hcount.symm

/-! ## §5. Before, in and after the start that succeeds. -/

/-- The step ends a start that fails. -/
def Label.isFailedStart (l : Label n) : Bool :=
  l.action = .endStart ∧ l.outcome ≠ .returned .ok

/-- A stage that has not been started yet, and whether a start has failed. -/
structure New (failed : Prop) (s : System n) : Prop where
  size : s.stage.m_n_workers = n
  status : StageState.canStart s.stage.m_status = true
  pause : s.stage.m_pause_requested = false
  lvl_of_failed : failed → s.stage.m_sg_lvl = .rightNow
  lvl_of_not : ¬ failed → s.stage.m_sg_lvl = .unknown
  places : ∀ i, (s.worker i).place.isPausing = false

/-- **The phases of a stage**; `failed` tells whether a start has failed. -/
inductive Phase (failed : Prop) (s : System n) : Prop
  | new (hapi : s.api = .idle) (hnew : New failed s) (hidle : ∀ i, s.worker i = .idle)
  | starting (k : Nat) (hapi : s.api = .starting k) (hloop : s.stage.m_do_loop = true)
      (hnew : New failed s) (hcourse : ¬ failed → Course k s)
  | cleaning (ret : Result) (hapi : s.api = .cleaning ret) (hret : ret ≠ .ok) (hnew : New True s)
  | gone (hapi : s.api = .idle ∨ s.api = .pausing)
      (hstatus : StageState.canStart s.stage.m_status = false)

theorem Phase.created (n : Nat) : Phase False (System.created n) :=
  .new rfl ⟨rfl, rfl, rfl, False.elim, fun _ => rfl, fun _ => rfl⟩ (fun _ => rfl)

/-- A step of a worker keeps a stage new. -/
theorem New.of_frame {failed : Prop} (h : New failed s) (hframe : Frame s s')
    (hplaces : ∀ i, (s'.worker i).place.isPausing = false) : New failed s' := by
  refine ⟨by rw [hframe.size, h.size], ?_, ?_, ?_, ?_, hplaces⟩
  · rw [hframe.status]
    exact h.status
  · rw [hframe.pause]
    exact h.pause
  · rw [hframe.lvl]
    exact h.lvl_of_failed
  · rw [hframe.lvl]
    exact h.lvl_of_not

/-- Whoever moves, with the others where they are, nobody is in a pause. -/
theorem New.put {failed : Prop} {w : Worker} (h : New failed s) (hframe : Frame s s')
    (hworker : s'.worker = (s.put i w).worker) (hw : w.place.isPausing = false) :
    New failed s' := by
  refine h.of_frame hframe (fun j => ?_)
  rw [hworker]
  show (Function.update s.worker i w j).place.isPausing = false
  by_cases hji : j = i
  · rw [hji, Function.update_self]
    exact hw
  · rw [Function.update_of_ne hji]
    exact h.places j

/-- The step of a worker, on a stage that is new. -/
theorem New.workerStep {failed : Prop} {ret : Result} {isMaster : Bool} (h : New failed s)
    (hs : workerStep s i ret isMaster = some s') : New failed s' ∧ Frame s s' := by
  rcases workerStep_cases h.pause (h.places i) hs with ⟨w, hw, rfl⟩ | ⟨called, hleft, rfl⟩
  · have hframe : Frame s (s.put i w) := ⟨rfl, rfl, rfl, rfl, rfl, rfl⟩
    exact ⟨h.put hframe rfl hw.within.2.2.2.1, hframe⟩
  · have hframe := Frame.finalize s i false
    exact ⟨h.put hframe (finalize_worker s i false) rfl, hframe⟩

theorem Course.workerStep {k : Nat} {ret : Result} {isMaster : Bool} (h : Course k s)
    (hs : workerStep s i ret isMaster = some s') : Course k s' := by
  rcases workerStep_cases h.pause (h.not_pausing i) hs with ⟨w, hw, rfl⟩ | ⟨called, hleft, rfl⟩
  · exact (h.put hw).1
  · exact h.finalize hleft

/-- A stage that is new is not one that a start has succeeded on. -/
theorem not_started_of_canStart (h : StageState.canStart s.stage.m_status = true) :
    s.stage.m_status ≠ .started ∧ s.stage.m_status ≠ .paused ∧ s.stage.m_status ≠ .singled := by
  refine ⟨?_, ?_, ?_⟩
  · intro habs
    rw [habs] at h
    exact absurd h (by decide)
  · intro habs
    rw [habs] at h
    exact absurd h (by decide)
  · intro habs
    rw [habs] at h
    exact absurd h (by decide)

/-- What a call does to a stage that is new: nothing much, or it begins a start,
or it destroys the stage. -/
theorem callOf_new {failed : Prop} {a : Action n} {f : Outcome × System n} (h : New failed s)
    (hapi : s.api = .idle) (hf : callOf s a = some f) :
    New failed f.2 ∧ f.2.worker = s.worker ∧
        (f.2.api = .idle ∨ f.2.api = .starting 0 ∧ f.2.stage.m_do_loop = true ∧
          f.2.stage.m_n_shutdown_workers = 0 ∧ f.2.stage.m_n_canceled_workers = 0) ∨
      f.2.api = .idle ∧ StageState.canStart f.2.stage.m_status = false := by
  obtain ⟨hstarted, hpaused, hsingled⟩ := not_started_of_canStart h.status
  refine callOf_ind hf ?setup ?start ?cancel ?shutdown ?wait ?pause ?resume ?destroy
  case setup =>
    intro ret
    left
    unfold setup
    split
    next hini =>
      cases ret with
      | none => exact ⟨h, rfl, .inl hapi⟩
      | some ret =>
        dsimp only
        split
        next =>
          have hnew : New failed { s with stage := { s.stage with m_status := .setup } } :=
            ⟨h.size, rfl, h.pause, h.lvl_of_failed, h.lvl_of_not, h.places⟩
          exact ⟨hnew, rfl, .inl hapi⟩
        next => exact ⟨h, rfl, .inl hapi⟩
    next =>
      split
      next => exact ⟨h, rfl, .inl hapi⟩
      next => exact ⟨h, rfl, .inl hapi⟩
  case start =>
    left
    unfold start
    rw [if_pos h.status]
    exact ⟨⟨h.size, h.status, h.pause, h.lvl_of_failed, h.lvl_of_not, h.places⟩, rfl,
      .inr ⟨rfl, rfl, rfl, rfl⟩⟩
  case cancel =>
    left
    unfold cancel
    rw [if_neg hstarted]
    exact ⟨h, rfl, .inl hapi⟩
  case shutdown =>
    intro lvl
    left
    unfold shutdown
    rw [if_neg (by rintro (hs | hs | hs); exacts [hstarted hs, hpaused hs, hsingled hs])]
    exact ⟨h, rfl, .inl hapi⟩
  case wait =>
    intro ret
    left
    unfold wait
    rw [if_neg hstarted]
    exact ⟨h, rfl, .inl hapi⟩
  case pause =>
    left
    unfold pause
    rw [if_neg hstarted, if_neg hpaused]
    exact ⟨h, rfl, .inl hapi⟩
  case resume =>
    left
    unfold resume
    rw [if_neg hpaused, if_neg hstarted]
    exact ⟨h, rfl, .inl hapi⟩
  case destroy =>
    right
    exact ⟨hapi, rfl⟩

/-- A stage that cannot be started stays so. -/
theorem callOf_gone {a : Action n} {f : Outcome × System n} (hapi : s.api = .idle)
    (hst : StageState.canStart s.stage.m_status = false) (hf : callOf s a = some f) :
    (f.2.api = .idle ∨ f.2.api = .pausing) ∧ StageState.canStart f.2.stage.m_status = false := by
  have hstay : (s.api = .idle ∨ s.api = .pausing) ∧
      StageState.canStart s.stage.m_status = false := ⟨.inl hapi, hst⟩
  refine callOf_ind hf ?setup ?start ?cancel ?shutdown ?wait ?pause ?resume ?destroy
  case setup =>
    intro ret
    unfold setup
    split
    next hini =>
      rw [hini] at hst
      exact absurd hst (by decide)
    next =>
      split
      next => exact hstay
      next => exact hstay
  case start =>
    unfold start
    rw [if_neg (by rw [hst]; decide)]
    exact hstay
  case cancel =>
    unfold cancel
    split
    next => exact hstay
    next => exact hstay
  case shutdown =>
    intro lvl
    unfold shutdown
    split
    next =>
      dsimp only
      split
      next => exact ⟨.inl hapi, rfl⟩
      next => exact ⟨.inl hapi, rfl⟩
    next => exact hstay
  case wait =>
    intro ret
    unfold wait
    split
    next =>
      split
      next =>
        split
        next =>
          refine ⟨.inl hapi, ?_⟩
          show StageState.canStart (if 0 < s.stage.m_n_canceled_workers then _ else _) = false
          split
          next => rfl
          next => rfl
        next => exact hstay
      next => exact hstay
    next => exact hstay
  case pause =>
    unfold pause
    split
    next => exact ⟨.inr rfl, hst⟩
    next =>
      split
      next => exact hstay
      next => exact hstay
  case resume =>
    unfold resume
    split
    next => exact ⟨.inl hapi, rfl⟩
    next =>
      split
      next => exact hstay
      next => exact hstay
  case destroy =>
    exact ⟨.inl hapi, rfl⟩

/-- Whatever a worker does, a stage that cannot be started stays so. -/
theorem workerStep_gone {ret : Result} {isMaster : Bool}
    (hst : StageState.canStart s.stage.m_status = false)
    (hs : workerStep s i ret isMaster = some s') :
    s'.api = s.api ∧ StageState.canStart s'.stage.m_status = false := by
  unfold workerStep at hs
  split at hs
  next => exact absurd hs (by simp)
  next =>
    rw [← Option.some.inj hs]
    exact ⟨rfl, hst⟩
  next =>
    rw [← Option.some.inj hs]
    exact ⟨rfl, hst⟩
  next =>
    rw [← Option.some.inj hs]
    exact ⟨rfl, hst⟩
  next =>
    rw [← Option.some.inj hs]
    exact ⟨rfl, hst⟩
  next called hi =>
    -- the last at the barrier makes the stage PAUSED
    rw [← Option.some.inj hs]
    dsimp only
    cases isMaster with
    | true =>
      simp only [if_true]
      split
      next => exact ⟨rfl, rfl⟩
      next => exact ⟨rfl, rfl⟩
    | false =>
      simp only [Bool.false_eq_true, if_false]
      split
      next => exact ⟨rfl, hst⟩
      next => exact ⟨rfl, hst⟩
  next =>
    rw [← Option.some.inj hs]
    have hframe := Frame.finalize s i false
    exact ⟨hframe.api, by rw [hframe.status]; exact hst⟩
  next => exact absurd hs (by simp)

/-- A round of a start. -/
theorem phase_startWorker {failed : Prop} {k : Nat} (hk : k < n) (ret : Result)
    (hloop : s.stage.m_do_loop = true) (hnew : New failed s) (hcourse : ¬ failed → Course k s) :
    Phase failed (startWorker s ⟨k, hk⟩ ret) := by
  unfold startWorker
  split
  next =>
    have hframe : Frame s (s.put ⟨k, hk⟩ .begun) := ⟨rfl, rfl, rfl, rfl, rfl, rfl⟩
    have hnew' := hnew.put hframe rfl rfl
    refine .starting (k + 1) rfl hloop ?_ (fun hf => (hcourse hf).begin hk)
    exact ⟨hnew'.size, hnew'.status, hnew'.pause, hnew'.lvl_of_failed, hnew'.lvl_of_not,
      hnew'.places⟩
  next hret =>
    refine .cleaning ret rfl hret ?_
    refine ⟨hnew.size, hnew.status, hnew.pause, fun _ => rfl, fun hnot => absurd trivial hnot,
      fun i => ?_⟩
    -- who runs is only marked
    show (if _ then { s.worker i with cancelPending := true } else s.worker i).place.isPausing = _
    split
    next => exact hnew.places i
    next => exact hnew.places i

/-- **The step lemma.** -/
theorem Phase.step {failed : Prop} (h : Phase failed s) (hs : Step s l s') :
    Phase (failed ∨ l.isFailedStart = true) s' := by
  -- nothing but the end of a start can make it a failed one
  have hquiet : ∀ a o, a ≠ Action.endStart →
      (failed ∨ (⟨a, o⟩ : Label n).isFailedStart = true) = failed := by
    intro a o ha
    simp [Label.isFailedStart, ha]
  cases Step.event hs with
  | worker i ret isMaster t hw =>
    rw [hquiet _ _ (by simp)]
    cases h with
    | new hapi hnew hidle => exact absurd hw (by simp [workerStep, hidle i, Worker.idle])
    | starting k hapi hloop hnew hcourse =>
      obtain ⟨hnew', hframe⟩ := hnew.workerStep hw
      exact .starting k (by rw [hframe.api, hapi]) (by rw [hframe.loop, hloop]) hnew'
        (fun hf => (hcourse hf).workerStep hw)
    | cleaning ret hapi hret hnew =>
      obtain ⟨hnew', hframe⟩ := hnew.workerStep hw
      exact .cleaning ret (by rw [hframe.api, hapi]) hret hnew'
    | gone hapi hstatus =>
      obtain ⟨hapi', hstatus'⟩ := workerStep_gone hstatus hw
      exact .gone (by rw [hapi']; exact hapi) hstatus'
  | actCancel i hp hr =>
    rw [hquiet _ _ (by simp)]
    have hframe := Frame.finalize s i true
    cases h with
    | new hapi hnew hidle => exact absurd hp (by simp [hidle i, Worker.idle])
    | starting k hapi hloop hnew hcourse =>
      refine .starting k hapi hloop (hnew.put hframe (finalize_worker s i true) rfl) (fun hf => ?_)
      -- no worker of a first start has been asked to end
      exact absurd hp (by rw [(hcourse hf).pending i]; decide)
    | cleaning ret hapi hret hnew =>
      exact .cleaning ret hapi hret (hnew.put hframe (finalize_worker s i true) rfl)
    | gone hapi hstatus => exact .gone hapi hstatus
  | call a f hapi hf =>
    rw [hquiet _ _ (by rintro rfl; exact absurd hf (by simp [callOf]))]
    cases h with
    | new _ hnew hidle =>
      rcases callOf_new hnew hapi hf with ⟨hnew', hworker, hapi' | ⟨hapi', hloop, hshut, hcanc⟩⟩ |
        ⟨hapi', hstatus⟩
      · exact .new hapi' hnew' (by rw [hworker]; exact hidle)
      · refine .starting 0 hapi' hloop hnew' (fun hnot => ?_)
        exact Course.zero hnew'.size hloop (hnew'.lvl_of_not hnot) hnew'.pause
          (by rw [hworker]; exact hidle) hshut hcanc
      · exact .gone (.inl hapi') hstatus
    | starting k hk _ _ _ => exact absurd (hapi.symm.trans hk) (by simp)
    | cleaning ret hk _ _ => exact absurd (hapi.symm.trans hk) (by simp)
    | gone _ hstatus =>
      obtain ⟨hapi', hstatus'⟩ := callOf_gone hapi hstatus hf
      exact .gone hapi' hstatus'
  | invalid a f hapi hf =>
    rw [hquiet _ _ (by rintro rfl; exact absurd hf (by simp [callOf]))]
    exact h
  | startWorker k hk ret hapi =>
    rw [hquiet _ _ (by simp)]
    cases h with
    | starting k' hapi' hloop hnew hcourse =>
      obtain rfl : k = k' := ApiPlace.starting.inj (hapi.symm.trans hapi')
      exact phase_startWorker hk ret hloop hnew hcourse
    | new hk _ _ => exact absurd (hapi.symm.trans hk) (by simp)
    | cleaning ret hk _ _ => exact absurd (hapi.symm.trans hk) (by simp)
    | gone hk _ => exact absurd hk (by rw [hapi]; simp)
  | endStart k hk hapi => exact .gone (.inl rfl) rfl
  | endClean ret hapi hall =>
    cases h with
    | cleaning ret' hapi' hret hnew =>
      obtain rfl : ret = ret' := ApiPlace.cleaning.inj (hapi.symm.trans hapi')
      have hfailed : (⟨.endStart, .returned ret⟩ : Label n).isFailedStart = true := by
        simp [Label.isFailedStart, hret]
      exact .new rfl ⟨hnew.size, hnew.status, hnew.pause, fun _ => hnew.lvl_of_failed trivial,
        fun hnot => absurd (.inr hfailed) hnot, fun _ => rfl⟩ (fun _ => rfl)
    | new hk _ _ => exact absurd (hapi.symm.trans hk) (by simp)
    | starting k hk _ _ _ => exact absurd (hapi.symm.trans hk) (by simp)
    | gone hk _ => exact absurd hk (by rw [hapi]; simp)
  | endPause ret hapi =>
    rw [hquiet _ _ (by simp)]
    cases h with
    | gone hk hstatus =>
      unfold Start.endPause
      split
      next => exact .gone (.inl rfl) hstatus
      next => exact .gone (.inl rfl) hstatus
    | new hk _ _ => exact absurd (hapi.symm.trans hk) (by simp)
    | starting k hk _ _ _ => exact absurd (hapi.symm.trans hk) (by simp)
    | cleaning ret hk _ _ => exact absurd (hapi.symm.trans hk) (by simp)

/-! ## §6. The runs of the workers. -/

/-- A shutdown, a cancelation, a pause, or the destruction of the stage. -/
def Action.isDisturbing : Action n → Bool
  | .shutdown _ => true
  | .cancel => true
  | .pause => true
  | .destroy => true
  | _ => false

/-- The step is one of this worker. -/
def Label.isStepOf (l : Label n) (i : Fin n) : Bool :=
  match l.action with
  | .worker j _ _ => j = i
  | _ => false

/-- The flags and the counters of a start: the loop goes on, no shutdown is
asked for, and the workers counted are those that have ended. -/
structure Fresh (s : System n) : Prop where
  loop : s.stage.m_do_loop = true
  lvl : s.stage.m_sg_lvl = .unknown
  shutdown : s.stage.m_n_shutdown_workers = s.count Place.isEnded
  canceled : s.stage.m_n_canceled_workers = s.count Place.isCanceled

/-- Whatever else happens, short of a disturbance, each worker calls its first
procedure: with its third own step at the latest, and the next one is open. -/
def Enters (s : System n) : Prop :=
  ∀ ls t, Run Step s ls t → (∀ l ∈ ls, l.action.isDisturbing = false) → ∀ i,
    (t.worker i).place.hasCalled = true ∨
      ls.countP (·.isStepOf i) < 3 ∧
        (t.halted = false → ∀ ret isMaster, (next t (.worker i ret isMaster)).isSome = true)

/-- After the start that succeeds, as long as nothing disturbs the workers. -/
structure Underway (s : System n) : Prop where
  api : s.api = .idle
  status : StageState.canStart s.stage.m_status = false
  course : Course n s

/-- When as many have ended as there are, all have. -/
theorem all_ended (h : s.count Place.isEnded = n) (i : Fin n) :
    (s.worker i).place.isEnded = true := by
  have huniv := Finset.eq_univ_of_card _ (h.trans (Fintype.card_fin n).symm)
  have hmem := Finset.mem_univ i
  rw [← huniv] at hmem
  exact (Finset.mem_filter.mp hmem).2

/-- A call that is no disturbance leaves the workers and their flags alone, but
that a wait for workers that have all ended takes back `m_do_loop`. -/
theorem Underway.callOf {a : Action n} {f : Outcome × System n} (h : Underway s)
    (ha : a.isDisturbing = false) (hf : callOf s a = some f) :
    Underway f.2 ∧ f.2.worker = s.worker := by
  have hc := h.course
  have hst := h.status
  revert ha
  refine callOf_ind hf ?setup ?start ?cancel ?shutdown ?wait ?pause ?resume ?destroy
  case setup =>
    intro ret ha
    unfold setup
    split
    next hini =>
      rw [hini] at hst
      exact absurd hst (by decide)
    next =>
      split
      next => exact ⟨h, rfl⟩
      next => exact ⟨h, rfl⟩
  case start =>
    intro ha
    unfold start
    rw [if_neg (by rw [hst]; decide)]
    exact ⟨h, rfl⟩
  case wait =>
    intro ret ha
    unfold wait
    split
    next =>
      split
      next =>
        split
        next hcount =>
          have hall := all_ended (hc.shutdown.symm.trans (hcount.trans hc.size))
          refine ⟨⟨h.api, ?_, ⟨hc.size, .inr hall, hc.lvl, hc.pause, hc.begun, hc.rest,
            hc.pending, hc.shutdown, hc.canceled⟩⟩, rfl⟩
          show StageState.canStart (if 0 < s.stage.m_n_canceled_workers then _ else _) = false
          split
          next => rfl
          next => rfl
        next =>
          exact ⟨⟨h.api, hst, ⟨hc.size, hc.loop, hc.lvl, hc.pause, hc.begun, hc.rest,
            hc.pending, hc.shutdown, hc.canceled⟩⟩, rfl⟩
      next => exact ⟨h, rfl⟩
    next => exact ⟨h, rfl⟩
  case resume =>
    intro ha
    unfold resume
    split
    next =>
      exact ⟨⟨h.api, rfl, ⟨hc.size, hc.loop, hc.lvl, rfl, hc.begun, hc.rest, hc.pending,
        hc.shutdown, hc.canceled⟩⟩, rfl⟩
    next =>
      split
      next => exact ⟨h, rfl⟩
      next => exact ⟨h, rfl⟩
  case cancel =>
    intro ha
    exact absurd ha (by simp [Action.isDisturbing])
  case shutdown =>
    intro lvl ha
    exact absurd ha (by simp [Action.isDisturbing])
  case pause =>
    intro ha
    exact absurd ha (by simp [Action.isDisturbing])
  case destroy =>
    intro ha
    exact absurd ha (by simp [Action.isDisturbing])

/-- **A worker that makes a step comes nearer**, and the others stay. -/
theorem Underway.worker {ret : Result} {isMaster : Bool} (h : Underway s)
    (hs : workerStep s i ret isMaster = some s') :
    Underway s' ∧ (∀ j, j ≠ i → s'.worker j = s.worker j) ∧
      ((s'.worker i).place.hasCalled = true ∨
        (s'.worker i).place.distance + 1 ≤ (s.worker i).place.distance) := by
  have hc := h.course
  rcases workerStep_cases hc.pause (hc.not_pausing i) hs with ⟨w, hw, rfl⟩ | ⟨called, hleft, rfl⟩
  · obtain ⟨hc', hnear⟩ := hc.put hw
    refine ⟨⟨h.api, h.status, hc'⟩, fun j hji => Function.update_of_ne hji .., ?_⟩
    rw [show (s.put i w).worker i = w from Function.update_self ..]
    exact hnear
  · refine ⟨⟨h.api, h.status, hc.finalize hleft⟩, fun j hji => ?_, .inl ?_⟩
    · rw [finalize_worker]
      exact Function.update_of_ne hji ..
    · have hcalled := (hc.begun i (by exact i.isLt)).hasCalled (.inr ⟨called, hleft⟩)
      rw [finalize_worker]
      show (Function.update s.worker i _ i).place.hasCalled = true
      rw [Function.update_self]
      exact hcalled

/-- The worker has called its first procedure, or has made so many steps
towards it. -/
def Worker.Near (w : Worker) (steps : Nat) : Prop :=
  w.place.hasCalled = true ∨ w.place.distance + steps ≤ 3

theorem Place.distance_of_hasCalled {p : Place} (h : p.hasCalled = true) : p.distance = 0 := by
  cases p with
  | head called =>
    obtain rfl : called = true := h
    rfl
  | level called =>
    obtain rfl : called = true := h
    rfl
  | test called =>
    obtain rfl : called = true := h
    rfl
  | _ => rfl

theorem Place.distance_le (p : Place) : p.distance ≤ 3 := by
  unfold Place.distance
  split
  next => omega
  next => omega
  next => omega
  next => omega

/-- **The step lemma** of the continuation. -/
theorem Underway.step (h : Underway s) (hl : l.action.isDisturbing = false) (hs : Step s l s') :
    Underway s' ∧ ∀ i k, (s.worker i).Near k → (s'.worker i).Near (k + (l.isStepOf i).toNat) := by
  have hapi := h.api
  cases Step.event hs with
  | worker j ret isMaster t hw =>
    obtain ⟨h', hother, hnear⟩ := h.worker hw
    refine ⟨h', fun i k hk => ?_⟩
    by_cases hij : i = j
    · subst hij
      rcases hnear with hcalled | hnear
      · exact .inl hcalled
      · rcases hk with hcalled | hk
        · rw [Place.distance_of_hasCalled hcalled] at hnear
          exact absurd hnear (by omega)
        · right
          simp only [Label.isStepOf, decide_true, Bool.toNat_true]
          omega
    · rw [hother i hij]
      have hnot : ¬ j = i := fun hji => hij hji.symm
      simpa [Label.isStepOf, hnot] using hk
  | actCancel j hp hr => exact absurd hp (by rw [h.course.pending j]; decide)
  | call a f _ hf =>
    obtain ⟨h', hworker⟩ := h.callOf hl hf
    refine ⟨h', fun i k hk => ?_⟩
    have hown : (⟨a, f.1⟩ : Label n).isStepOf i = false := by
      cases a with
      | worker j ret isMaster => exact absurd hf (by simp [Start.callOf])
      | _ => rfl
    rw [hworker, hown]
    exact hk
  | invalid a f _ hf =>
    refine ⟨h, fun i k hk => ?_⟩
    have hown : (⟨a, .returned .invalidObject⟩ : Label n).isStepOf i = false := by
      cases a with
      | worker j ret isMaster => exact absurd hf (by simp [Start.callOf])
      | _ => rfl
    rw [hown]
    exact hk
  | startWorker k hk ret habs => exact absurd (hapi.symm.trans habs) (by simp)
  | endStart k hk habs => exact absurd (hapi.symm.trans habs) (by simp)
  | endClean ret habs hall => exact absurd (hapi.symm.trans habs) (by simp)
  | endPause ret habs => exact absurd (hapi.symm.trans habs) (by simp)

/-- A worker on its way can make its next step, unless it has ended. -/
theorem Underway.next_open {ret : Result} {isMaster : Bool} (h : Underway s)
    (hcalled : (s.worker i).place.hasCalled ≠ true) (hhalted : s.halted = false) :
    (next s (.worker i ret isMaster)).isSome = true := by
  obtain ⟨-, hc | ⟨hplace, -⟩⟩ := h.course.begun i i.isLt
  · exact absurd hc hcalled
  · rcases hplace with hp | hp | hp
    · simp [next, hhalted, workerStep, hp]
    · simp [next, hhalted, workerStep, hp]
    · simp [next, hhalted, workerStep, hp]

/-- **The run lemma** of the continuation. -/
theorem Underway.enters (h : Underway s) : Enters s := by
  have hrun : ∀ ls t, Run Step s ls t → (∀ l ∈ ls, l.action.isDisturbing = false) →
      Underway t ∧ ∀ i, (t.worker i).Near (ls.countP (·.isStepOf i)) := by
    intro ls t hr
    refine hr.invariant_history (fun ls t => (∀ l ∈ ls, l.action.isDisturbing = false) →
      Underway t ∧ ∀ i, (t.worker i).Near (ls.countP (·.isStepOf i))) ?_ ?_
    · intro ms u l v _ ih hstep hquiet
      obtain ⟨hu, hnear⟩ := ih (fun m hm => hquiet m (List.mem_append_left _ hm))
      obtain ⟨hv, hnear'⟩ := hu.step (hquiet l (by simp)) hstep
      refine ⟨hv, fun i => ?_⟩
      have := hnear' i _ (hnear i)
      rw [List.countP_append, List.countP_singleton]
      cases hown : l.isStepOf i with
      | true => simpa [hown] using this
      | false => simpa [hown] using this
    · intro _
      exact ⟨h, fun i => .inr ((s.worker i).place.distance_le)⟩
  intro ls t hr hquiet i
  obtain ⟨ht, hnear⟩ := hrun ls t hr hquiet
  by_cases hcalled : (t.worker i).place.hasCalled = true
  · exact .inl hcalled
  · refine .inr ⟨?_, fun hhalted ret isMaster => ht.next_open hcalled hhalted⟩
    -- who has not called is at least one step away
    obtain ⟨-, hc | ⟨hplace, -⟩⟩ := ht.course.begun i i.isLt
    · exact absurd hc hcalled
    · have hsteps := (hnear i).resolve_left hcalled
      have hpos : 1 ≤ (t.worker i).place.distance := by
        rcases hplace with hp | hp | hp <;> rw [hp] <;> decide
      omega

/-! ## §7. A start starts afresh. -/

/-- The phase that a run of a stage leads to. -/
theorem reachable_phase {ls : List (Label n)} (hrun : Run Step (System.created n) ls s) :
    Phase (∃ l ∈ ls, l.isFailedStart = true) s := by
  refine hrun.invariant_history (fun ls t => Phase (∃ l ∈ ls, l.isFailedStart = true) t) ?_ ?_
  · intro ms u l v _ ih hstep
    have h := ih.step hstep
    have hiff : (∃ m ∈ ms ++ [l], m.isFailedStart = true) =
        ((∃ m ∈ ms, m.isFailedStart = true) ∨ l.isFailedStart = true) := by
      simp [or_and_right, exists_or]
    rw [hiff]
    exact h
  · have hnone : (∃ l ∈ ([] : List (Label n)), l.isFailedStart = true) = False := by simp
    rw [hnone]
    exact Phase.created n

/-- A start ends with all the workers begun, or after a failure. -/
theorem endStart_cases {o : Outcome} (h : Step s ⟨.endStart, o⟩ s') :
    (∃ k, n ≤ k ∧ s.api = .starting k ∧ o = .returned .ok ∧ s' = s.started) ∨
      ∃ ret, s.api = .cleaning ret ∧ o = .returned ret := by
  have hev := Step.event h
  generalize hl : (⟨.endStart, o⟩ : Label n) = l at hev
  cases hev with
  | endStart k hk hapi =>
    injection hl with _ ho
    exact .inl ⟨k, hk, hapi, ho, rfl⟩
  | endClean ret hapi hall =>
    injection hl with _ ho
    exact .inr ⟨ret, hapi, ho⟩
  | call a f hapi hf =>
    injection hl with ha
    exact absurd hf (by rw [← ha]; simp [callOf])
  | invalid a f hapi hf =>
    injection hl with ha
    exact absurd hf (by rw [← ha]; simp [callOf])
  | worker j ret isMaster t hw =>
    injection hl with ha
    exact absurd ha (by simp)
  | actCancel j hp hr =>
    injection hl with ha
    exact absurd ha (by simp)
  | startWorker k hk ret hapi =>
    injection hl with ha
    exact absurd ha (by simp)
  | endPause ret hapi =>
    injection hl with ha
    exact absurd ha (by simp)

theorem Phase.of_starting {failed : Prop} {k : Nat} (h : Phase failed s)
    (hapi : s.api = .starting k) :
    s.stage.m_do_loop = true ∧ New failed s ∧ (¬ failed → Course k s) := by
  cases h with
  | starting k' hk hloop hnew hcourse =>
    obtain rfl : k = k' := ApiPlace.starting.inj (hapi.symm.trans hk)
    exact ⟨hloop, hnew, hcourse⟩
  | new hk _ _ => exact absurd (hapi.symm.trans hk) (by simp)
  | cleaning ret hk _ _ => exact absurd (hapi.symm.trans hk) (by simp)
  | gone hk _ => exact absurd hk (by rw [hapi]; simp)

theorem Phase.of_cleaning {failed : Prop} {ret : Result} (h : Phase failed s)
    (hapi : s.api = .cleaning ret) : ret ≠ .ok := by
  cases h with
  | cleaning ret' hk hret _ =>
    obtain rfl : ret = ret' := ApiPlace.cleaning.inj (hapi.symm.trans hk)
    exact hret
  | new hk _ _ => exact absurd (hapi.symm.trans hk) (by simp)
  | starting k hk _ _ _ => exact absurd (hapi.symm.trans hk) (by simp)
  | gone hk _ => exact absurd hk (by rw [hapi]; simp)

/-- A start that has begun all the workers. -/
theorem Course.started {k : Nat} (h : Course k s) (hk : n ≤ k) : Underway s.started where
  api := rfl
  status := rfl
  course :=
    { size := h.size
      loop := h.loop
      lvl := h.lvl
      pause := h.pause
      begun := fun i _ => h.begun i (by omega)
      rest := fun i hi => absurd i.isLt (by omega)
      pending := h.pending
      shutdown := h.shutdown
      canceled := h.canceled }

/-- **A start starts afresh, and its workers come to their first procedures, if
and only if no start before it has failed.** -/
theorem start_fresh_iff {ls : List (Label n)} (hrun : Run Step (System.created n) ls s)
    (hstart : Step s ⟨.endStart, .returned .ok⟩ s') :
    (Fresh s' ∧ Enters s') ↔ ∀ l ∈ ls, l.isFailedStart = false := by
  have hphase := reachable_phase hrun
  rcases endStart_cases hstart with ⟨k, hk, hapi, -, rfl⟩ | ⟨ret, hapi, hret⟩
  · obtain ⟨hloop, hnew, hcourse⟩ := hphase.of_starting hapi
    constructor
    · intro ⟨hfresh, _⟩ l hl
      by_contra hfailed
      have hlvl := hnew.lvl_of_failed ⟨l, hl, by simpa using hfailed⟩
      have hunknown : s.stage.m_sg_lvl = .unknown := hfresh.lvl
      rw [hlvl] at hunknown
      exact absurd hunknown (by decide)
    · intro hnone
      have hnot : ¬ ∃ l ∈ ls, l.isFailedStart = true := by
        intro ⟨l, hl, hfailed⟩
        rw [hnone l hl] at hfailed
        exact absurd hfailed (by decide)
      have hc := hcourse hnot
      exact ⟨⟨hloop, hc.lvl, hc.shutdown, hc.canceled⟩, (hc.started hk).enters⟩
  · -- a start that cleans up does not return OK
    obtain rfl : Result.ok = ret := Outcome.returned.inj hret
    exact absurd rfl (hphase.of_cleaning hapi)

/-- Two workers are begun; the first has called its procedure before the start
is over. -/
theorem start_fresh_two_workers :
    ∃ (ls : List (Label 2)) (s s' : System 2),
      Run Step (System.created 2) ls s ∧ Step s ⟨.endStart, .returned .ok⟩ s' ∧
      (s'.worker 0).place = .executing ∧ Fresh s' ∧ Enters s' := by
  have hrun : ∃ p, exec next (System.created 2)
      [.start, .startWorker .ok, .worker 0 .ok false, .worker 0 .ok false, .worker 0 .ok false,
        .startWorker .ok, .endStart] = some p ∧
      p.1 = [⟨.start, .quiet⟩, ⟨.startWorker .ok, .quiet⟩, ⟨.worker 0 .ok false, .quiet⟩,
        ⟨.worker 0 .ok false, .quiet⟩, ⟨.worker 0 .ok false, .quiet⟩,
        ⟨.startWorker .ok, .quiet⟩] ++ [⟨.endStart, .returned .ok⟩] ∧
      (p.2.worker 0).place = .executing := ⟨_, rfl, rfl, rfl⟩
  obtain ⟨⟨ls, s'⟩, hexec, hshape, hplace⟩ := hrun
  change ls = _ at hshape
  subst hshape
  obtain ⟨s, hs, hstep⟩ := (run_of_exec hexec).last
  have hfresh := (start_fresh_iff hs hstep).mpr (by decide)
  exact ⟨_, s, s', hs, hstep, hplace, hfresh.1, hfresh.2⟩

/-- The second worker of a start cannot be begun; the next start returns OK,
and its first worker ends without having called a procedure. -/
theorem started_with_stale_level :
    ∃ (ls ms : List (Label 2)) (s s' t : System 2),
      Run Step (System.created 2) ls s ∧ Step s ⟨.endStart, .returned .ok⟩ s' ∧
      s'.stage.m_sg_lvl = .rightNow ∧ Run Step s' ms t ∧
      (∀ l ∈ ms, l.action.isDisturbing = false) ∧ (t.worker 0).place = .ended false false ∧
      ¬ (Fresh s' ∧ Enters s') := by
  have hrun : ∃ p, exec next (System.created 2)
      [.start, .startWorker .ok, .startWorker .posixApiError, .actCancel 0, .endStart,
        .start, .startWorker .ok, .startWorker .ok, .endStart] = some p ∧
      p.1 = [⟨.start, .quiet⟩, ⟨.startWorker .ok, .quiet⟩, ⟨.startWorker .posixApiError, .quiet⟩,
        ⟨.actCancel 0, .quiet⟩, ⟨.endStart, .returned .posixApiError⟩, ⟨.start, .quiet⟩,
        ⟨.startWorker .ok, .quiet⟩, ⟨.startWorker .ok, .quiet⟩] ++ [⟨.endStart, .returned .ok⟩] ∧
      p.2.stage.m_sg_lvl = .rightNow ∧
      ∃ q, exec next p.2 [.worker 0 .ok false, .worker 0 .ok false, .worker 0 .ok false] = some q ∧
        q.1 = [⟨.worker 0 .ok false, .quiet⟩, ⟨.worker 0 .ok false, .quiet⟩,
          ⟨.worker 0 .ok false, .quiet⟩] ∧
        (q.2.worker 0).place = .ended false false := ⟨_, rfl, rfl, rfl, _, rfl, rfl, rfl⟩
  obtain ⟨⟨ls, s'⟩, hexec, hshape, hlvl, ⟨ms, t⟩, hmore, hshape', hplace⟩ := hrun
  change ls = _ at hshape
  change ms = _ at hshape'
  subst hshape
  subst hshape'
  obtain ⟨s, hs, hstep⟩ := (run_of_exec hexec).last
  refine ⟨_, _, s, s', t, hs, hstep, hlvl, run_of_exec hmore, by decide, hplace, ?_⟩
  intro ⟨hfresh, _⟩
  have hunknown := hfresh.lvl
  rw [hlvl] at hunknown
  exact absurd hunknown (by decide)

end Mccp.Pipeline.Start
