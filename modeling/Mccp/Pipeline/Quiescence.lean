/-
  Mccp.Pipeline.Quiescence
  ────────────────────────
  **A PAUSED STAGE IS QUIET.**

  m_pause_requested goes down only after m_status has become PAUSED, and
  m_status becomes PAUSED only after all workers have come through the barrier
  of the current request.  A worker that has come through stays until it sees
  the request withdrawn.

      Inv         — ties the two fields, the epochs and all places together
      Inv.step    — kept by every step
      Inv.quiet   — a PAUSED stage with its request up is quiet
-/
import Mccp.Pipeline.Pause

namespace Mccp.Pipeline.Pause

open Transition

variable {n : Nat} {s s' : Crew n} {l : Label n}

/-! ## §1. The invariant. -/

/-- What the place of the call says about the two fields. -/
def ApiFits (stage : StageRecord) : ApiPlace → Prop
  | .clearLocking _ => stage.m_status = .paused
  | .clearSetting _ => stage.m_status = .paused
  | .clearNotifying _ => stage.m_pause_requested = false
  | .clearUnlocking _ => stage.m_pause_requested = false
  | .startSetting _ => stage.m_pause_requested = false
  | .pauseWoken _ ret => ret = .ok ∨ ret = .timedout
  | .pauseUnlocking ret => (ret = .ok ∨ ret = .timedout) ∧
      (ret = .ok → stage.m_status = .paused ∧ stage.m_pause_requested = true)
  | .pauseDone ret => (ret = .ok ∨ ret = .timedout) ∧
      (ret = .ok → stage.m_status = .paused ∧ stage.m_pause_requested = true)
  | _ => True

theorem ApiFits.setPaused {r : StageRecord} {p : ApiPlace} (h : ApiFits r p) :
    ApiFits { r with m_status := .paused } p := by
  cases p with
  | clearLocking _ => exact rfl
  | clearSetting _ => exact rfl
  | pauseUnlocking ret => exact ⟨h.1, fun hok => ⟨rfl, (h.2 hok).2⟩⟩
  | pauseDone ret => exact ⟨h.1, fun hok => ⟨rfl, (h.2 hok).2⟩⟩
  | _ => exact h

theorem ApiFits.congr {r r' : StageRecord} {p : ApiPlace} (h : ApiFits r p)
    (hstatus : r'.m_status = r.m_status) (hrequested : r'.m_pause_requested = r.m_pause_requested) :
    ApiFits r' p := by
  cases p <;> simp only [ApiFits, hstatus, hrequested] <;> exact h

/-- The call has withdrawn the request and not set `m_status` back yet. -/
def ApiPlace.isClearing : ApiPlace → Bool
  | .clearNotifying _ => true
  | .clearUnlocking _ => true
  | .startSetting _ => true
  | _ => false

/-- **The invariant.** -/
structure Inv (s : Crew n) : Prop where
  status : s.stage.m_status = .started ∨ s.stage.m_status = .paused
  passed_le : ∀ i, s.passed i ≤ s.epoch
  /-- Who goes to the barrier has not been through in this epoch. -/
  waiting : ∀ i, (s.place i).isWaiting = true →
    s.stage.m_pause_requested = true ∧ s.passed i < s.epoch
  /-- Who has been through in this epoch stays while the request is up. -/
  inside : s.stage.m_pause_requested = true → ∀ i, s.passed i = s.epoch →
    (s.place i).isPaused = true
  paused : s.stage.m_status = .paused → s.stage.m_pause_requested = true →
    ∀ i, s.passed i = s.epoch
  withdrawn : s.stage.m_status = .paused → s.stage.m_pause_requested = false →
    s.api.isClearing = true
  /-- A master that is late. -/
  master : ∀ i, (s.place i).isMaster = true → s.stage.m_pause_requested = true ∧
    s.stage.m_status = .started ∧ ∀ j, s.passed j = s.epoch
  unique : ∀ i j, (s.place i).isMaster = true → (s.place j).isMaster = true → i = j
  api : ApiFits s.stage s.api

theorem Inv.started (n : Nat) (proc : WorkerProc) : Inv (Crew.started n proc) := by
  refine ⟨.inl rfl, fun _ => Nat.le_refl _, ?_, ?_, ?_, ?_, ?_, ?_, trivial⟩
  · intro i hi
    exact absurd hi (by simp [Crew.started, Place.isWaiting])
  · intro hr
    exact absurd hr (by simp [Crew.started, StageRecord.zero])
  · intro hp
    exact absurd hp (by simp [Crew.started])
  · intro hp
    exact absurd hp (by simp [Crew.started])
  · intro i hi
    exact absurd hi (by simp [Crew.started, Place.isMaster])
  · intro i j hi
    exact absurd hi (by simp [Crew.started, Place.isMaster])

/-! ## §2. Moves that touch neither of the two fields. -/

/-- **A worker moves.** -/
theorem Inv.of_go (h : Inv s) {i : Fin n} {p : Place}
    (hplace : s'.place = Function.update s.place i p) (hstage : s'.stage = s.stage)
    (hapi : s'.api = s.api) (hepoch : s'.epoch = s.epoch) (hpassed : s'.passed = s.passed)
    (hpaused : p.isPaused = true ∨ (s.place i).isPaused = false ∨
      s.stage.m_pause_requested = false)
    (hwaiting : p.isWaiting = true → s.stage.m_pause_requested = true ∧ s.passed i < s.epoch)
    (hmaster : p.isMaster = true → (s.place i).isMaster = true) : Inv s' := by
  have hi : s'.place i = p := by
    rw [hplace, Function.update_self]
  have hj : ∀ j, j ≠ i → s'.place j = s.place j := fun j hj => by
    rw [hplace, Function.update_of_ne hj]
  -- the masters were masters before
  have hmasters : ∀ j, (s'.place j).isMaster = true → (s.place j).isMaster = true := by
    intro j hm
    by_cases hji : j = i
    · rw [hji, hi] at hm
      rw [hji]
      exact hmaster hm
    · rw [hj j hji] at hm
      exact hm
  refine ⟨?_, ?_, ?_, ?_, ?_, ?_, ?_, ?_, ?_⟩
  · rw [hstage]
    exact h.status
  · rw [hepoch, hpassed]
    exact h.passed_le
  · intro j hw
    rw [hstage, hepoch, hpassed]
    by_cases hji : j = i
    · rw [hji, hi] at hw
      rw [hji]
      exact hwaiting hw
    · rw [hj j hji] at hw
      exact h.waiting j hw
  · rw [hstage, hepoch, hpassed]
    intro hr j hpass
    by_cases hji : j = i
    · subst hji
      rw [hi]
      rcases hpaused with hp | hp | hp
      · exact hp
      · exact absurd (h.inside hr j hpass) (by rw [hp]; decide)
      · exact absurd hr (by rw [hp]; decide)
    · rw [hj j hji]
      exact h.inside hr j hpass
  · rw [hstage, hepoch, hpassed]
    exact h.paused
  · rw [hstage, hapi]
    exact h.withdrawn
  · intro j hm
    rw [hstage, hepoch, hpassed]
    exact h.master j (hmasters j hm)
  · intro j k hm hm'
    exact h.unique j k (hmasters j hm) (hmasters k hm')
  · rw [hstage, hapi]
    exact h.api

/-- **The call moves.** -/
theorem Inv.of_at (h : Inv s) {p : ApiPlace} (hapi : s'.api = p)
    (hplace : ∀ i, (s'.place i).isWaiting = (s.place i).isWaiting ∧
      (s'.place i).isPaused = (s.place i).isPaused ∧
      (s'.place i).isMaster = (s.place i).isMaster)
    (hstatus : s'.stage.m_status = s.stage.m_status)
    (hrequested : s'.stage.m_pause_requested = s.stage.m_pause_requested)
    (hepoch : s'.epoch = s.epoch) (hpassed : s'.passed = s.passed)
    (hclearing : s.api.isClearing = true → p.isClearing = true)
    (hfits : ApiFits s.stage p) : Inv s' := by
  refine ⟨?_, ?_, ?_, ?_, ?_, ?_, ?_, ?_, ?_⟩
  · rw [hstatus]
    exact h.status
  · rw [hepoch, hpassed]
    exact h.passed_le
  · intro i hw
    rw [hrequested, hepoch, hpassed]
    rw [(hplace i).1] at hw
    exact h.waiting i hw
  · intro hr i hpass
    rw [(hplace i).2.1]
    rw [hrequested] at hr
    rw [hepoch, hpassed] at hpass
    exact h.inside hr i hpass
  · rw [hstatus, hrequested, hepoch, hpassed]
    exact h.paused
  · intro hp hr
    rw [hstatus] at hp
    rw [hrequested] at hr
    rw [hapi]
    exact hclearing (h.withdrawn hp hr)
  · intro i hm
    rw [(hplace i).2.2] at hm
    rw [hstatus, hrequested, hepoch, hpassed]
    exact h.master i hm
  · intro i j hm hm'
    rw [(hplace i).2.2] at hm
    rw [(hplace j).2.2] at hm'
    exact h.unique i j hm hm'
  · rw [hapi]
    exact hfits.congr hstatus hrequested

/-! ## §3. The moves that matter. -/

/-- A worker at the barrier, with the request that brought it there. -/
theorem Inv.waiting_started (h : Inv s) {i : Fin n} (hi : (s.place i).isWaiting = true) :
    s.stage.m_pause_requested = true ∧ s.stage.m_status = .started := by
  obtain ⟨hr, hlt⟩ := h.waiting i hi
  refine ⟨hr, h.status.resolve_right ?_⟩
  intro hp
  have hpass : s.passed i = s.epoch := h.paused hp hr i
  omega

/-- The barrier. -/
theorem Inv.of_arrive (h : Inv s) {i : Fin n} (hi : s.place i = .arriving) (master : Fin n) :
    Inv (arrive s i master) := by
  have hwait : (s.place i).isWaiting = true := by
    rw [hi]
    rfl
  obtain ⟨hr, hstarted⟩ := h.waiting_started hwait
  unfold arrive
  split
  next hall =>
    -- everybody is through, in this epoch
    have hmaster : ∀ j, (Place.released (j = master)).isMaster = true → j = master := by
      intro j hj
      exact of_decide_eq_true hj
    refine ⟨h.status, fun _ => Nat.le_refl _, ?_, fun _ _ _ => rfl, fun _ _ _ => rfl,
      h.withdrawn, fun _ _ => ⟨hr, hstarted, fun _ => rfl⟩, ?_, h.api⟩
    · intro j hj
      exact absurd hj (by simp [Place.isWaiting])
    · intro j k hj hk
      rw [hmaster j hj, hmaster k hk]
  next =>
    refine h.of_go rfl rfl rfl rfl rfl (.inr (.inl (by rw [hi]; rfl))) ?_ (by simp [Place.isMaster])
    intro _
    exact h.waiting i hwait

/-- The master sets `m_status`: it is the only one, so no other is late. -/
theorem Inv.of_setPaused (h : Inv s) {i : Fin n} (hi : s.place i = .locked true) :
    Inv ({ s with stage := { s.stage with m_status := .paused } }.go i .notifying) := by
  have him : (s.place i).isMaster = true := by
    rw [hi]
    rfl
  obtain ⟨hr, hstarted, hall⟩ := h.master i him
  have hself : ∀ p : Place, Function.update s.place i p i = p := fun p => Function.update_self ..
  have hother : ∀ (p : Place) j, j ≠ i → Function.update s.place i p j = s.place j := fun p j hj =>
    Function.update_of_ne hj ..
  have hnone : ∀ j, ¬ (Function.update s.place i .notifying j).isMaster = true := by
    intro j hj
    by_cases hji : j = i
    · rw [hji, hself] at hj
      exact absurd hj (by decide)
    · rw [hother _ j hji] at hj
      exact hji (h.unique j i hj him)
  refine ⟨.inr rfl, h.passed_le, ?_, ?_, fun _ _ => hall, ?_, fun j hj => absurd hj (hnone j),
    fun j k hj => absurd hj (hnone j), ?_⟩
  · intro j hj
    change (Function.update s.place i .notifying j).isWaiting = true at hj
    by_cases hji : j = i
    · rw [hji, hself] at hj
      exact absurd hj (by decide)
    · rw [hother _ j hji] at hj
      exact h.waiting j hj
  · intro _ j hpass
    show (Function.update s.place i .notifying j).isPaused = true
    by_cases hji : j = i
    · rw [hji, hself]
      rfl
    · rw [hother _ j hji]
      exact h.inside hr j hpass
  · intro _ hr'
    exact absurd hr (by rw [show s.stage.m_pause_requested = false from hr']; decide)
  · exact h.api.setPaused

/-- A pause sets the request, anew or once more. -/
theorem Inv.of_request (h : Inv s) {nsec : Int} (hi : s.api = .pauseSetting nsec) :
    Inv (s.request.at (.pauseRecheck nsec)) := by
  by_cases hr : s.stage.m_pause_requested = true
  · -- nothing but the place of the call changes
    refine h.of_at rfl (fun _ => ⟨rfl, rfl, rfl⟩) rfl ?_ ?_ rfl ?_ trivial
    · exact hr.symm
    · show (if s.stage.m_pause_requested = true then s.epoch else s.epoch + 1) = s.epoch
      rw [if_pos hr]
    · rw [hi]
      exact id
  · have hr' : s.stage.m_pause_requested = false := by simpa using hr
    have hepoch : (s.request.at (.pauseRecheck nsec)).epoch = s.epoch + 1 := if_neg hr
    have hnp : s.stage.m_status ≠ .paused := by
      intro hp
      have hc := h.withdrawn hp hr'
      rw [hi] at hc
      exact absurd hc (by simp [ApiPlace.isClearing])
    -- nobody has been through in the new epoch
    have hnew : ∀ i, s.passed i ≠ s.epoch + 1 := by
      intro i hpass
      have hle := h.passed_le i
      omega
    refine ⟨h.status, ?_, ?_, ?_, ?_, ?_, ?_, h.unique, trivial⟩
    · intro i
      rw [hepoch]
      exact Nat.le_succ_of_le (h.passed_le i)
    · intro i hw
      exact absurd (h.waiting i hw).1 hr
    · intro _ i hpass
      rw [hepoch] at hpass
      exact absurd hpass (hnew i)
    · intro hp
      exact absurd hp hnp
    · intro hp
      exact absurd hp hnp
    · intro i hm
      exact absurd (h.master i hm).1 hr

/-- A resume withdraws the request, of a pause that is complete. -/
theorem Inv.of_withdraw (h : Inv s) {k : Resumer} (hi : s.api = .clearSetting k) :
    Inv (s.withdraw.at (.clearNotifying k)) := by
  have hp : s.stage.m_status = .paused := by
    have hapi := h.api
    rw [hi] at hapi
    exact hapi
  refine ⟨h.status, h.passed_le, ?_, ?_, ?_, fun _ _ => rfl, ?_, h.unique, rfl⟩
  · intro i hw
    exact absurd (h.waiting_started hw).2 (by rw [hp]; decide)
  · intro hr
    exact absurd hr (by simp [Crew.withdraw, Crew.at])
  · intro _ hr
    exact absurd hr (by simp [Crew.withdraw, Crew.at])
  · intro i hm
    exact absurd (h.master i hm).2.1 (by rw [hp]; decide)

/-- `m_status` is set back, after the request has been withdrawn. -/
theorem Inv.of_setStarted (h : Inv s) {k : Resumer} (hi : s.api = .startSetting k)
    {p : ApiPlace} (hp : p = .idle ∨ p = .levelSetting) :
    Inv ({ s with stage := { s.stage with m_status := .started } }.at p) := by
  have hr : s.stage.m_pause_requested = false := by
    have hapi := h.api
    rw [hi] at hapi
    exact hapi
  refine ⟨.inl rfl, h.passed_le, h.waiting, h.inside, ?_, ?_, ?_, h.unique, ?_⟩
  · intro hps
    exact absurd hps (by simp [Crew.at])
  · intro hps
    exact absurd hps (by simp [Crew.at])
  · intro i hm
    exact absurd (h.master i hm).1 (by rw [hr]; decide)
  · rcases hp with rfl | rfl <;> exact trivial

/-! ## §4. Every step. -/

/-- **What a worker's step can be.** -/
inductive WorkerEffect (s : Crew n) (i : Fin n) (s' : Crew n) : Prop
  /-- The worker moves; through the barrier it does not come so, and it stays
  in the pause while the request is up. -/
  | go (p : Place) (hplace : s'.place = Function.update s.place i p) (hstage : s'.stage = s.stage)
      (hapi : s'.api = s.api ∨ s'.api = s.api.notified) (hepoch : s'.epoch = s.epoch)
      (hpassed : s'.passed = s.passed)
      (henter : p.isPaused = true → (s.place i).isPaused = true)
      (hleave : (s.place i).isPaused = true →
        p.isPaused = true ∨ s.stage.m_pause_requested = false)
      (hwaiting : p.isWaiting = true →
        s.stage.m_pause_requested = true ∧ (s.place i).isPaused = false)
      (hmaster : p.isMaster = true → (s.place i).isMaster = true)
  | arrive (master : Fin n) (hi : s.place i = .arriving) (hs : s' = arrive s i master)
  | setPaused (hi : s.place i = .locked true)
      (hs : s' = { s with stage := { s.stage with m_status := .paused } }.go i .notifying)

theorem afterProc_plain (ret : Result) (rest : List Proc) :
    (afterProc ret rest).isPaused = false ∧ (afterProc ret rest).isWaiting = false ∧
      (afterProc ret rest).isMaster = false := by
  unfold afterProc
  split
  · split <;> exact ⟨rfl, rfl, rfl⟩
  · split <;> exact ⟨rfl, rfl, rfl⟩

/-- A move between places outside the pause. -/
theorem WorkerEffect.outside {i : Fin n} {p : Place} {lock : Option (Holder n)}
    {st : Fin n → Result} (hi : (s.place i).isPaused = false)
    (hp : p.isPaused = false ∧ p.isWaiting = false ∧ p.isMaster = false) :
    WorkerEffect s i ({ s with m_pause_lock := lock, st := st }.go i p) := by
  obtain ⟨h1, h2, h3⟩ := hp
  refine .go p rfl rfl (.inl rfl) rfl rfl ?_ ?_ ?_ ?_
  · intro h
    exact absurd h (by rw [h1]; decide)
  · intro h
    exact absurd h (by rw [hi]; decide)
  · intro h
    exact absurd h (by rw [h2]; decide)
  · intro h
    exact absurd h (by rw [h3]; decide)

theorem Place.not_waiting {p : Place} (h : p.isPaused = true) : p.isWaiting = false := by
  cases p <;> simp_all [Place.isPaused, Place.isWaiting]

/-- A move between places of the pause. -/
theorem WorkerEffect.within {i : Fin n} {p : Place} {lock : Option (Holder n)} {a : ApiPlace}
    (ha : a = s.api ∨ a = s.api.notified) (hi : (s.place i).isPaused = true)
    (hp : p.isPaused = true) (hm : p.isMaster = true → (s.place i).isMaster = true) :
    WorkerEffect s i ({ s with m_pause_lock := lock, api := a }.go i p) := by
  refine .go p rfl rfl ha rfl rfl (fun _ => hi) (fun _ => .inl hp) ?_ hm
  intro hw
  exact absurd hw (by rw [Place.not_waiting hp]; decide)

theorem workerStep_cases {i : Fin n} {ret : Result} {master : Fin n}
    (h : workerStep s i ret master = some s') : WorkerEffect s i s' := by
  unfold workerStep at h
  split at h
  next hi =>
    cases h
    refine .outside (by rw [hi]; rfl) ?_
    split <;> exact ⟨rfl, rfl, rfl⟩
  next hi =>
    cases h
    refine .outside (by rw [hi]; rfl) ?_
    split <;> exact ⟨rfl, rfl, rfl⟩
  next hi =>
    split at h
    next hr =>
      split at h
      · cases h
        exact .outside (by rw [hi]; rfl) ⟨rfl, rfl, rfl⟩
      · cases h
        exact .outside (by rw [hi]; rfl) ⟨rfl, rfl, rfl⟩
    next hr =>
      -- the request is seen: off to the barrier
      cases h
      refine .go .arriving rfl rfl (.inl rfl) rfl rfl ?_ ?_ ?_ ?_
      · intro hp
        exact absurd hp (by decide)
      · intro hp
        exact absurd hp (by rw [hi]; decide)
      · intro _
        exact ⟨by simpa using hr, by rw [hi]; rfl⟩
      · intro hm
        exact absurd hm (by decide)
  next hi =>
    cases h
    exact .outside (by rw [hi]; rfl) (afterProc_plain _ _)
  next hi =>
    cases h
    exact .arrive master hi rfl
  next hi => exact absurd h (by simp)
  next isMaster hi =>
    split at h
    · cases h
      refine .within (.inl rfl) (by rw [hi]; rfl) rfl ?_
      intro hm
      rw [hi]
      exact hm
    · exact absurd h (by simp)
  next hi =>
    cases h
    exact .setPaused hi rfl
  next hi =>
    cases h
    exact .within (.inl rfl) (by rw [hi]; rfl) rfl (by simp [Place.isMaster])
  next hi =>
    cases h
    exact .within (.inr rfl) (by rw [hi]; rfl) rfl (by simp [Place.isMaster])
  next hi =>
    split at h
    · cases h
      exact .within (.inl rfl) (by rw [hi]; rfl) rfl (by simp [Place.isMaster])
    · next hr =>
      -- the request has been withdrawn: out of the pause
      cases h
      refine .go .unlocking rfl rfl (.inl rfl) rfl rfl ?_ ?_ ?_ ?_
      · intro hp
        exact absurd hp (by decide)
      · intro _
        exact .inr (by simpa using hr)
      · intro hw
        exact absurd hw (by decide)
      · intro hm
        exact absurd hm (by decide)
  next hi => exact absurd h (by simp)
  next hi =>
    split at h
    · cases h
      exact .within (.inl rfl) (by rw [hi]; rfl) rfl (by simp [Place.isMaster])
    · exact absurd h (by simp)
  next hi =>
    cases h
    exact .outside (by rw [hi]; rfl) ⟨rfl, rfl, rfl⟩
  next hi => exact absurd h (by simp)

/-- A worker's step does not touch `m_pause_requested`, nor the call but for waking it. -/
theorem WorkerEffect.frame {i : Fin n} (h : WorkerEffect s i s') :
    s'.stage.m_pause_requested = s.stage.m_pause_requested ∧
      (s'.api = s.api ∨ s'.api = s.api.notified) := by
  cases h with
  | go p hplace hstage hapi hepoch hpassed henter hleave hwaiting hmaster =>
    exact ⟨by rw [hstage], hapi⟩
  | arrive master hi hs =>
    rw [hs]
    unfold Pause.arrive
    split <;> exact ⟨rfl, .inl rfl⟩
  | setPaused hi hs =>
    rw [hs]
    exact ⟨rfl, .inl rfl⟩

/-- **What a step of the call can be.** -/
inductive ApiEffect (s : Crew n) (o : Outcome) (s' : Crew n) : Prop
  /-- The call moves; it wakes workers at most. -/
  | at (p : ApiPlace) (hapi : s'.api = p)
      (hplace : s'.place = s.place ∨ s'.place = fun i => (s.place i).notified)
      (hstatus : s'.stage.m_status = s.stage.m_status)
      (hrequested : s'.stage.m_pause_requested = s.stage.m_pause_requested)
      (hepoch : s'.epoch = s.epoch) (hpassed : s'.passed = s.passed)
      (hclearing : s.api.isClearing = true → p.isClearing = true) (hfits : ApiFits s.stage p)
      (ho : o = .paused .ok → s.stage.m_status = .paused ∧ s.stage.m_pause_requested = true)
  | request (nsec : Int) (hi : s.api = .pauseSetting nsec)
      (hs : s' = s.request.at (.pauseRecheck nsec)) (ho : o = .quiet)
  | withdraw (k : Resumer) (hi : s.api = .clearSetting k)
      (hs : s' = s.withdraw.at (.clearNotifying k)) (ho : o = .quiet)
  | setStarted (k : Resumer) (p : ApiPlace) (hi : s.api = .startSetting k)
      (hp : p = .idle ∨ p = .levelSetting)
      (hs : s' = { s with stage := { s.stage with m_status := .started } }.at p)
      (ho : o ≠ .paused .ok)

/-- The call moves and touches nothing else that matters. -/
theorem ApiEffect.move {o : Outcome} {p : ApiPlace} (hapi : s'.api = p)
    (hplace : s'.place = s.place ∨ s'.place = fun i => (s.place i).notified)
    (hstatus : s'.stage.m_status = s.stage.m_status)
    (hrequested : s'.stage.m_pause_requested = s.stage.m_pause_requested)
    (hepoch : s'.epoch = s.epoch) (hpassed : s'.passed = s.passed)
    (hi : s.api.isClearing = false ∨ p.isClearing = true) (hfits : ApiFits s.stage p)
    (ho : o ≠ .paused .ok) : ApiEffect s o s' := by
  refine .at p hapi hplace hstatus hrequested hepoch hpassed ?_ hfits (fun h => absurd h ho)
  intro hc
  rcases hi with hi | hi
  · exact absurd hc (by rw [hi]; decide)
  · exact hi

/-- The call goes on, and nothing but m_pause_lock changes with it. -/
theorem ApiEffect.goesOn {o : Outcome} {p : ApiPlace} {lock : Option (Holder n)}
    (hi : s.api.isClearing = false) (hfits : ApiFits s.stage p) (ho : o ≠ .paused .ok) :
    ApiEffect s o ({ s with m_pause_lock := lock }.at p) :=
  .move rfl (.inl rfl) rfl rfl rfl rfl (.inl hi) hfits ho

/-- Outside a resume, a stage that is PAUSED has its request up. -/
theorem Inv.requested (h : Inv s) (hp : s.stage.m_status = .paused)
    (hi : s.api.isClearing = false) : s.stage.m_pause_requested = true := by
  by_contra hr
  have hc := h.withdrawn hp (by simpa using hr)
  exact absurd hc (by rw [hi]; decide)

theorem Inv.not_singled (h : Inv s) : s.stage.m_status ≠ .singled := by
  rcases h.status with hs | hs <;> rw [hs] <;> decide

theorem lockFor_some {o : Outcome} {p : ApiPlace} (h : s.lockFor p = some (o, s')) :
    o = .quiet ∧ s' = { s with m_pause_lock := some .api }.at p := by
  unfold Crew.lockFor at h
  split at h
  · cases h
    exact ⟨rfl, rfl⟩
  · exact absurd h (by simp)

/-- Whose sleep on `m_pause_cond` ends. -/
theorem wakeApi_some {ret : Result} (h : wakeApi s ret = some s') :
    ∃ nsec, s.api = .pauseAsleep nsec ∧ (ret = .ok ∨ (ret = .timedout ∧ 0 ≤ nsec)) ∧
      s' = s.at (.pauseWoken nsec ret) := by
  unfold wakeApi at h
  split at h
  next nsec hi =>
    split at h
    next hret =>
      cases h
      exact ⟨nsec, hi, hret, rfl⟩
    next => exact absurd h (by simp)
  next => exact absurd h (by simp)

/-- **A step of the call**, in a stage whose fields fit the call's place and whose
request is up when it is PAUSED outside a resume. -/
theorem apiStep_effect (hfits : ApiFits s.stage s.api) (hsingled : s.stage.m_status ≠ .singled)
    (hrequested : s.stage.m_status = .paused → s.api.isClearing = false →
      s.stage.m_pause_requested = true) {o : Outcome} (ha : apiStep s = some (o, s')) :
    ApiEffect s o s' := by
  unfold apiStep at ha
  split at ha
  next hi => exact absurd ha (by simp)
  next nsec hi =>
    cases ha
    refine .goesOn (by rw [hi]; rfl) ?_ (by simp)
    split <;> exact trivial
  next hi =>
    split at ha
    next hp =>
      -- the call finds the stage paused and returns OK at once
      cases ha
      refine .at .idle rfl (.inl rfl) rfl rfl rfl rfl (by rw [hi]; exact id) trivial ?_
      intro _
      exact ⟨hp, hrequested hp (by rw [hi]; rfl)⟩
    next =>
      cases ha
      exact .goesOn (by rw [hi]; rfl) trivial
        (by simp [Result.ok, Result.invalidStateTransition])
  next nsec hi =>
    obtain ⟨rfl, rfl⟩ := lockFor_some ha
    exact .goesOn (by rw [hi]; rfl) trivial (by simp)
  next nsec hi =>
    cases ha
    exact .request nsec hi rfl rfl
  next nsec hi =>
    split at ha
    next =>
      cases ha
      exact .goesOn (by rw [hi]; rfl) trivial (by simp)
    next hp =>
      -- the sleep is over: OK is what the call will return
      cases ha
      have hp' : s.stage.m_status = .paused := by simpa using hp
      refine .goesOn (by rw [hi]; rfl) ?_ (by simp)
      exact ⟨.inl rfl, fun _ => ⟨hp', hrequested hp' (by rw [hi]; rfl)⟩⟩
  next hi => exact absurd ha (by simp)
  next nsec ret hi =>
    obtain ⟨rfl, rfl⟩ := lockFor_some ha
    rw [hi] at hfits
    refine .goesOn (by rw [hi]; rfl) ?_ (by simp)
    split
    · exact trivial
    · next hret => exact ⟨hfits, fun hok => absurd hok hret⟩
  next ret hi =>
    cases ha
    rw [hi] at hfits
    exact .goesOn (by rw [hi]; rfl) hfits (by simp)
  next ret hi =>
    rw [hi] at hfits
    split at ha
    next hret =>
      -- a wait ends with OK or TIMEDOUT, so the request is never taken back here
      exact absurd hfits.1 (by rintro (hr | hr) <;> simp [hr] at hret)
    next =>
      cases ha
      refine .at .idle rfl (.inl rfl) rfl rfl rfl rfl (by rw [hi]; exact id) trivial ?_
      intro ho
      exact hfits.2 (by simpa using ho)
  next hi =>
    cases ha
    refine .goesOn (by rw [hi]; rfl) ?_ (by simp)
    split
    · next hp => exact hp
    · exact trivial
  next hi =>
    split at ha
    · cases ha
      exact .goesOn (by rw [hi]; rfl) trivial (by simp)
    · cases ha
      exact .goesOn (by rw [hi]; rfl) trivial (by simp)
  next hi =>
    cases ha
    refine .goesOn (by rw [hi]; rfl) ?_ (by simp)
    split <;> exact trivial
  next hi =>
    cases ha
    refine .goesOn (by rw [hi]; rfl) ?_ (by simp)
    split <;> exact trivial
  next hi =>
    split at ha
    · cases ha
      exact .goesOn (by rw [hi]; rfl) trivial (by simp)
    · cases ha
      exact .goesOn (by rw [hi]; rfl) trivial (by simp)
  next hi =>
    cases ha
    refine .goesOn (by rw [hi]; rfl) ?_ (by simp)
    split
    · next hp => exact hp
    · exact trivial
  next hi =>
    cases ha
    refine .goesOn (by rw [hi]; rfl) ?_ (by simp)
    rw [if_neg hsingled]
    exact trivial
  next hi =>
    cases ha
    exact .move rfl (.inl rfl) rfl rfl rfl rfl (.inl (by rw [hi]; rfl)) trivial (by simp)
  next k hi =>
    obtain ⟨rfl, rfl⟩ := lockFor_some ha
    rw [hi] at hfits
    exact .goesOn (by rw [hi]; rfl) hfits (by simp)
  next k hi =>
    cases ha
    exact .withdraw k hi rfl rfl
  next k hi =>
    cases ha
    rw [hi] at hfits
    exact .move rfl (.inr rfl) rfl rfl rfl rfl (.inr rfl) hfits (by simp)
  next k hi =>
    cases ha
    rw [hi] at hfits
    exact .move rfl (.inl rfl) rfl rfl rfl rfl (.inr rfl) hfits (by simp)
  next k hi =>
    cases k with
    | resume =>
      cases ha
      exact .setStarted .resume .idle hi (.inl rfl) rfl (by simp)
    | shutdown =>
      cases ha
      exact .setStarted .shutdown .levelSetting hi (.inr rfl) rfl (by simp)

theorem apiStep_cases (h : Inv s) {o : Outcome} (ha : apiStep s = some (o, s')) :
    ApiEffect s o s' :=
  apiStep_effect h.api h.not_singled h.requested ha

/-- **What a choice does.** -/
inductive Moves (s : Crew n) : Label n → Crew n → Prop
  | enter (c : Call) (hi : s.api = .idle) : Moves s ⟨.call c, .quiet⟩ (s.at c.entry)
  | api {o : Outcome} {s' : Crew n} (ha : apiStep s = some (o, s')) : Moves s ⟨.api, o⟩ s'
  | wakeApi {ret : Result} {nsec : Int} (hi : s.api = .pauseAsleep nsec)
      (hret : ret = .ok ∨ (ret = .timedout ∧ 0 ≤ nsec)) :
      Moves s ⟨.wakeApi ret, .quiet⟩ (s.at (.pauseWoken nsec ret))
  | worker {i : Fin n} {ret : Result} {master : Fin n} {s' : Crew n}
      (hw : workerStep s i ret master = some s') : Moves s ⟨.worker i ret master, .quiet⟩ s'
  | wakeWorker {i : Fin n} (hi : s.place i = .sleeping) :
      Moves s ⟨.wakeWorker i, .quiet⟩ (s.go i .relocking)

theorem step_moves (hstep : Step s l s') : Moves s l s' := by
  obtain ⟨a, ha⟩ := hstep
  unfold next at ha
  split at ha
  next c =>
    split at ha
    next hi =>
      cases ha
      exact .enter c hi
    next => exact absurd ha (by simp)
  next =>
    obtain ⟨r, hr, hl⟩ := Option.map_eq_some_iff.mp ha
    cases hl
    exact .api hr
  next ret =>
    obtain ⟨r, hr, hl⟩ := Option.map_eq_some_iff.mp ha
    cases hl
    obtain ⟨nsec, hi, hret, rfl⟩ := wakeApi_some hr
    exact .wakeApi hi hret
  next i ret master =>
    obtain ⟨r, hr, hl⟩ := Option.map_eq_some_iff.mp ha
    cases hl
    exact .worker hr
  next i =>
    split at ha
    next hi =>
      cases ha
      exact .wakeWorker hi
    next => exact absurd ha (by simp)

/-- What a step can be. -/
inductive Effect (s : Crew n) (l : Label n) (s' : Crew n) : Prop
  | worker (i : Fin n) (h : WorkerEffect s i s') (ho : l.outcome = .quiet)
  | api (h : ApiEffect s l.outcome s') (ha : ∀ nsec, s.api = .pauseSetting nsec → l.action = .api)

/-- **Every step is one of a worker or of the call.** -/
theorem Inv.step_cases (h : Inv s) (hstep : Step s l s') : Effect s l s' := by
  cases step_moves hstep with
  | enter c hi =>
    refine .api (.goesOn (by rw [hi]; rfl) ?_ (by simp)) ?_
    · cases c <;> exact trivial
    · intro nsec hs
      exact absurd (hi.symm.trans hs) (by simp)
  | api ha => exact .api (apiStep_cases h ha) (fun _ _ => rfl)
  | wakeApi hi hret =>
    refine .api (.goesOn (by rw [hi]; rfl) ?_ (by simp)) ?_
    · exact hret.imp_right (fun hr => hr.1)
    · intro nsec' hs
      exact absurd (hi.symm.trans hs) (by simp)
  | worker hw => exact .worker _ (workerStep_cases hw) rfl
  | wakeWorker hi =>
    exact .worker _ (.within (.inl rfl) (by rw [hi]; rfl) rfl (by simp [Place.isMaster])) rfl

theorem ApiPlace.notified_fits {r : StageRecord} {p : ApiPlace} (h : ApiFits r p) :
    ApiFits r p.notified := by
  cases p with
  | pauseAsleep nsec => exact .inl rfl
  | _ => exact h

theorem ApiPlace.notified_isClearing (p : ApiPlace) : p.notified.isClearing = p.isClearing := by
  cases p <;> rfl

theorem Place.notified_same (p : Place) : p.notified.isWaiting = p.isWaiting ∧
    p.notified.isPaused = p.isPaused ∧ p.notified.isMaster = p.isMaster := by
  cases p <;> exact ⟨rfl, rfl, rfl⟩

/-- A worker's step. -/
theorem Inv.of_worker (h : Inv s) {i : Fin n} (he : WorkerEffect s i s') : Inv s' := by
  cases he with
  | go p hplace hstage hapi hepoch hpassed henter hleave hwaiting hmaster =>
    have hpaused : p.isPaused = true ∨ (s.place i).isPaused = false ∨
        s.stage.m_pause_requested = false := by
      by_cases hi : (s.place i).isPaused = true
      · exact (hleave hi).imp_right .inr
      · exact .inr (.inl (by simpa using hi))
    have hwait : p.isWaiting = true → s.stage.m_pause_requested = true ∧ s.passed i < s.epoch := by
      intro hw
      obtain ⟨hr, hi⟩ := hwaiting hw
      refine ⟨hr, Nat.lt_of_le_of_ne (h.passed_le i) ?_⟩
      -- in the current epoch it would still be in the pause
      intro hpass
      exact absurd (h.inside hr i hpass) (by rw [hi]; decide)
    rcases hapi with hapi | hapi
    · exact h.of_go hplace hstage hapi hepoch hpassed hpaused hwait hmaster
    · have h' : Inv (s.at s.api.notified) :=
        h.of_at (p := s.api.notified) rfl (fun _ => ⟨rfl, rfl, rfl⟩) rfl rfl rfl rfl
          (by rw [ApiPlace.notified_isClearing]; exact id) (ApiPlace.notified_fits h.api)
      exact h'.of_go hplace hstage hapi hepoch hpassed hpaused hwait hmaster
  | arrive master hi hs =>
    rw [hs]
    exact h.of_arrive hi master
  | setPaused hi hs =>
    rw [hs]
    exact h.of_setPaused hi

/-- A step of the call. -/
theorem Inv.of_api (h : Inv s) {o : Outcome} (he : ApiEffect s o s') : Inv s' := by
  cases he with
  | «at» p hapi hplace hstatus hrequested hepoch hpassed hclearing hfits ho =>
    refine h.of_at hapi ?_ hstatus hrequested hepoch hpassed hclearing hfits
    intro i
    rcases hplace with hplace | hplace
    · rw [hplace]
      exact ⟨rfl, rfl, rfl⟩
    · rw [hplace]
      exact Place.notified_same _
  | request nsec hi hs ho =>
    rw [hs]
    exact h.of_request hi
  | withdraw k hi hs ho =>
    rw [hs]
    exact h.of_withdraw hi
  | setStarted k p hi hp hs ho =>
    rw [hs]
    exact h.of_setStarted hi hp

/-- **The step lemma.** -/
theorem Inv.step (h : Inv s) (hstep : Step s l s') : Inv s' := by
  cases h.step_cases hstep with
  | worker i he ho => exact h.of_worker he
  | api he ha => exact h.of_api he

theorem reachable_inv {proc : WorkerProc} {ls : List (Label n)}
    (hrun : Run Step (Crew.started n proc) ls s) : Inv s :=
  hrun.invariant (fun _ _ _ h hstep => h.step hstep) (Inv.started n proc)

/-! ## §5. Quiescence. -/

/-- All workers have come through the barrier of the current request, none of
them executes a procedure. -/
def Quiet (s : Crew n) : Prop :=
  ∀ i, s.passed i = s.epoch ∧ (s.place i).isPaused = true ∧ (s.place i).isExecuting = false

/-- PAUSED, with the request up. -/
def IsPaused (s : Crew n) : Prop :=
  s.stage.m_status = .paused ∧ s.stage.m_pause_requested = true

/-- The request is up after the step: it has not been withdrawn. -/
def StaysRequested (_ : Crew n) (_ : Label n) (s' : Crew n) : Prop :=
  s'.stage.m_pause_requested = true

theorem Place.not_executing {p : Place} (h : p.isPaused = true) : p.isExecuting = false := by
  cases p <;> simp_all [Place.isPaused, Place.isExecuting]

theorem Inv.quiet (h : Inv s) (hp : IsPaused s) : Quiet s := by
  intro i
  have hpass := h.paused hp.1 hp.2 i
  have hin := h.inside hp.2 i hpass
  exact ⟨hpass, hin, Place.not_executing hin⟩

/-- A stage is PAUSED until its request is withdrawn. -/
theorem Inv.stays_paused (h : Inv s) (hstep : Step s l s') (hp : IsPaused s)
    (hr : StaysRequested s l s') : IsPaused s' := by
  refine ⟨?_, hr⟩
  cases h.step_cases hstep with
  | worker i he ho =>
    cases he with
    | go p hplace hstage hapi hepoch hpassed henter hleave hwaiting hmaster =>
      rw [hstage]
      exact hp.1
    | arrive master hi hs =>
      rw [hs]
      unfold arrive
      split <;> exact hp.1
    | setPaused hi hs =>
      rw [hs]
      rfl
  | api he ha =>
    cases he with
    | «at» p hapi hplace hstatus hrequested hepoch hpassed hclearing hfits ho =>
      rw [hstatus]
      exact hp.1
    | request nsec hi hs ho =>
      rw [hs]
      exact hp.1
    | withdraw k hi hs ho =>
      rw [hs] at hr
      exact absurd hr (by simp [StaysRequested, Crew.withdraw, Crew.at])
    | setStarted k p hi hp' hs ho =>
      -- the request is down by then
      have hapi := h.api
      rw [hi] at hapi
      exact absurd hp.2 (by rw [show s.stage.m_pause_requested = false from hapi]; decide)

/-- A pause that returns OK finds the stage PAUSED, with the request up. -/
theorem Inv.pause_ok (h : Inv s) (hstep : Step s l s') (ho : l.outcome = .paused .ok) :
    IsPaused s' := by
  cases h.step_cases hstep with
  | worker i he ho' =>
    rw [ho'] at ho
    exact absurd ho (by simp)
  | api he ha =>
    cases he with
    | «at» p hapi hplace hstatus hrequested hepoch hpassed hclearing hfits ho' =>
      obtain ⟨hp, hr⟩ := ho' ho
      exact ⟨by rw [hstatus]; exact hp, by rw [hrequested]; exact hr⟩
    | request nsec hi hs ho' =>
      rw [ho'] at ho
      exact absurd ho (by simp)
    | withdraw k hi hs ho' =>
      rw [ho'] at ho
      exact absurd ho (by simp)
    | setStarted k p hi hp hs ho' => exact absurd ho ho'

/-- **Pause is quiescence**: in every reachable state that is PAUSED with the
request up, all workers have come through the barrier and none executes a
procedure, nor will any while the request is up; and this is the state in which
a pause returns OK. -/
theorem paused_stage_quiet {proc : WorkerProc} {ls : List (Label n)}
    (hrun : Run Step (Crew.started n proc) ls s) :
    (IsPaused s → Quiet s ∧
      ∀ ms s', Run (restrict Step StaysRequested) s ms s' → Quiet s') ∧
    (∀ l s', Step s l s' → l.outcome = .paused .ok → IsPaused s' ∧ Quiet s') := by
  have h := reachable_inv hrun
  refine ⟨?_, ?_⟩
  · intro hp
    refine ⟨h.quiet hp, ?_⟩
    intro ms s' hrun'
    have hkeep : ∀ (t : Crew n) (l : Label n) (t' : Crew n), Inv t ∧ IsPaused t →
        restrict Step StaysRequested t l t' → Inv t' ∧ IsPaused t' := by
      intro t l t' ht hstep
      exact ⟨ht.1.step hstep.1, ht.1.stays_paused hstep.1 ht.2 hstep.2⟩
    obtain ⟨h', hp'⟩ := hrun'.invariant hkeep ⟨h, hp⟩
    exact h'.quiet hp'
  · intro l s' hstep ho
    have hp := h.pause_ok hstep ho
    exact ⟨hp, (h.step hstep).quiet hp⟩

/-- Two workers are paused; the master of the barrier is late, and so is the
call that paused them. -/
theorem paused_stage_quiet_pair :
    ∃ (ls : List (Label 2)) (s : Crew 2),
      Run Step (Crew.started 2 .f_m) ls s ∧ IsPaused s ∧ Quiet s := by
  have hrun : ∃ p, exec next (Crew.started 2 .f_m)
      [.call (.pause 5), .api, .api, .api, .api,
        .worker 0 0 0, .worker 0 0 0, .worker 0 0 0, .worker 0 0 0,
        .worker 1 0 0, .worker 1 0 0, .worker 1 0 0, .worker 1 0 1,
        .worker 1 0 0, .worker 1 0 0] = some p ∧ IsPaused p.2 :=
    ⟨_, rfl, rfl, rfl⟩
  obtain ⟨⟨ls, s⟩, hexec, hpaused⟩ := hrun
  exact ⟨ls, s, run_of_exec hexec, hpaused, ((paused_stage_quiet (run_of_exec hexec)).1 hpaused).1⟩

end Mccp.Pipeline.Pause
