/-
  Mccp.Pipeline.RepeatedPause
  ───────────────────────────
  **A PAUSE COMPLETES, UNLESS IT OVERTAKES A WORKER OF THE ONE BEFORE.**

  A worker that wakes up on m_resume_cond looks at m_pause_requested, which
  tells whether there is a request, but not which.  If the next pause has set
  it again the worker goes back to sleep, and the others wait for it at the
  barrier.

      UpToDate       — who is in the pause came through for this request
      UpToDate.step  — kept by every step but a request that comes too early
      Lags.forever   — after such a request the stage is never PAUSED again
-/
import Mccp.Pipeline.Quiescence

namespace Mccp.Pipeline.Pause

open Transition

variable {n : Nat} {s s' : Crew n} {l : Label n}

/-! ## §1. The condition. -/

/-- The call is about to set `m_pause_requested`. -/
def ApiPlace.isRequesting : ApiPlace → Bool
  | .pauseSetting _ => true
  | _ => false

/-- **The condition**: a pause that sets `m_pause_requested` anew finds no worker
between the barrier and the end of its check. -/
def Fresh (s : Crew n) (l : Label n) (_ : Crew n) : Prop :=
  l.action = .api → s.api.isRequesting = true → s.stage.m_pause_requested = false →
    ∀ i, (s.place i).isPaused = false

instance (s : Crew n) (l : Label n) (s' : Crew n) : Decidable (Fresh s l s') := by
  unfold Fresh
  infer_instance

/-- Who is between the barrier and the end of its check came through the
barrier for the current request. -/
def UpToDate (s : Crew n) : Prop :=
  s.stage.m_pause_requested = true → ∀ i, (s.place i).isPaused = true → s.passed i = s.epoch

/-- **The step lemma.** -/
theorem UpToDate.step (hu : UpToDate s) (h : Inv s) (hstep : Step s l s') (hf : Fresh s l s') :
    UpToDate s' := by
  cases h.step_cases hstep with
  | worker i he ho =>
    cases he with
    | go p hplace hstage hapi hepoch hpassed henter hleave hwaiting hmaster =>
      intro hr j hj
      rw [hstage] at hr
      rw [hplace] at hj
      rw [hepoch, hpassed]
      by_cases hji : j = i
      · rw [hji, Function.update_self] at hj
        rw [hji]
        exact hu hr i (henter hj)
      · rw [Function.update_of_ne hji] at hj
        exact hu hr j hj
    | arrive master hi hs =>
      rw [hs]
      unfold arrive
      split
      · -- the last one lets all through for the current request
        intro _ _ _
        rfl
      · intro hr j hj
        by_cases hji : j = i
        · subst hji
          exact absurd hj (by simp [Crew.go, Place.isPaused])
        · apply hu hr j
          rw [show (s.go i .blocked).place j = s.place j from Function.update_of_ne hji ..] at hj
          exact hj
    | setPaused hi hs =>
      obtain ⟨-, -, hall⟩ := h.master i (by rw [hi]; rfl)
      rw [hs]
      intro _ j _
      exact hall j
  | api he ha =>
    cases he with
    | «at» p hapi hplace hstatus hrequested hepoch hpassed hclearing hfits ho =>
      intro hr j hj
      rw [hrequested] at hr
      rw [hepoch, hpassed]
      apply hu hr j
      rcases hplace with hplace | hplace
      · rw [hplace] at hj
        exact hj
      · rw [hplace] at hj
        rw [← (Place.notified_same (s.place j)).2.1]
        exact hj
    | request nsec hi hs ho =>
      rw [hs]
      intro _ j hj
      by_cases hr : s.stage.m_pause_requested = true
      · show s.passed j = if s.stage.m_pause_requested = true then s.epoch else s.epoch + 1
        rw [if_pos hr]
        exact hu hr j hj
      · -- a new request: nobody is in the pause
        have hnone := hf (ha nsec hi) (by rw [hi]; rfl) (by simpa using hr) j
        exact absurd hj (by rw [show (s.request.at _).place j = s.place j from rfl, hnone]; decide)
    | withdraw k hi hs ho =>
      rw [hs]
      intro hr
      exact absurd hr (by simp [Crew.withdraw, Crew.at])
    | setStarted k p hi hp hs ho =>
      rw [hs]
      exact hu

/-- The workers come through the barrier together. -/
theorem together {proc : WorkerProc} {ls : List (Label n)}
    (hrun : Run Step (Crew.started n proc) ls s) (i j : Fin n) : s.passed i = s.passed j := by
  have hstep : ∀ (t : Crew n) (l : Label n) (t' : Crew n),
      (Inv t ∧ ∀ i j, t.passed i = t.passed j) → Step t l t' →
      Inv t' ∧ ∀ i j, t'.passed i = t'.passed j := by
    intro t l t' hboth hs
    obtain ⟨h, hall⟩ := hboth
    refine ⟨h.step hs, ?_⟩
    cases h.step_cases hs with
    | worker i he ho =>
      cases he with
      | go p hplace hstage hapi hepoch hpassed henter hleave hwaiting hmaster =>
        rw [hpassed]
        exact hall
      | arrive master hi hs' =>
        rw [hs']
        unfold arrive
        split
        · intro _ _
          rfl
        · exact hall
      | setPaused hi hs' =>
        rw [hs']
        exact hall
    | api he ha =>
      cases he with
      | «at» p hapi hplace hstatus hrequested hepoch hpassed hclearing hfits ho =>
        rw [hpassed]
        exact hall
      | request nsec hi hs' ho =>
        rw [hs']
        exact hall
      | withdraw k hi hs' ho =>
        rw [hs']
        exact hall
      | setStarted k p hi hp hs' ho =>
        rw [hs']
        exact hall
  exact (hrun.invariant hstep ⟨Inv.started n proc, fun _ _ => rfl⟩).2 i j

/-! ## §2. What an early request does. -/

/-- The worker is in the pause of an earlier request. -/
def Lags (s : Crew n) (i : Fin n) : Prop :=
  s.stage.m_pause_requested = true ∧ (s.place i).isPaused = true ∧ s.passed i < s.epoch

theorem ApiPlace.isRequesting_iff {p : ApiPlace} :
    p.isRequesting = true ↔ ∃ nsec, p = .pauseSetting nsec := by
  cases p <;> simp [ApiPlace.isRequesting]

/-- A request that does not meet the condition leaves a worker behind. -/
theorem Inv.lags_of_not_fresh (h : Inv s) (hstep : Step s l s') (hf : ¬ Fresh s l s') :
    ∃ i, Lags s' i := by
  unfold Fresh at hf
  push Not at hf
  obtain ⟨hact, hrequesting, hr, i, hpaused⟩ := hf
  obtain ⟨nsec, hi⟩ := ApiPlace.isRequesting_iff.mp hrequesting
  have hs : s' = s.request.at (.pauseRecheck nsec) := by
    cases step_moves hstep with
    | api ha =>
      unfold apiStep at ha
      rw [hi] at ha
      cases ha
      rfl
    | _ => exact absurd hact (by simp)
  refine ⟨i, ?_⟩
  rw [hs]
  have hin : (s.place i).isPaused = true := by simpa using hpaused
  refine ⟨rfl, hin, ?_⟩
  show s.passed i < if s.stage.m_pause_requested = true then s.epoch else s.epoch + 1
  rw [if_neg (by rw [hr]; decide)]
  exact Nat.lt_succ_of_le (h.passed_le i)

/-- While a worker lags the stage does not become PAUSED. -/
theorem Lags.not_paused {i : Fin n} (hl : Lags s i) (h : Inv s) :
    s.stage.m_status ≠ .paused := by
  intro hp
  have hpass := h.paused hp hl.1 i
  have hlt := hl.2.2
  omega

/-- A worker that lags stays so: the barrier waits for it, and it waits for a
resume that finds the stage PAUSED. -/
theorem Lags.step {i : Fin n} (hl : Lags s i) (h : Inv s) (hstep : Step s l s') : Lags s' i := by
  obtain ⟨hr, hpaused, hlt⟩ := hl
  cases h.step_cases hstep with
  | worker j he ho =>
    cases he with
    | go p hplace hstage hapi hepoch hpassed henter hleave hwaiting hmaster =>
      refine ⟨by rw [hstage]; exact hr, ?_, by rw [hepoch, hpassed]; exact hlt⟩
      rw [hplace]
      by_cases hij : i = j
      · rw [hij, Function.update_self]
        rw [hij] at hpaused
        refine (hleave hpaused).resolve_right ?_
        rw [hr]
        decide
      · rw [Function.update_of_ne hij]
        exact hpaused
    | arrive master hj hs =>
      have hij : i ≠ j := by
        intro heq
        subst heq
        exact absurd hpaused (by rw [hj]; decide)
      rw [hs]
      unfold arrive
      split
      next hall =>
        exact absurd hpaused (by rw [hall i hij]; decide)
      next =>
        refine ⟨hr, ?_, hlt⟩
        rw [show (s.go j .blocked).place i = s.place i from Function.update_of_ne hij ..]
        exact hpaused
    | setPaused hj hs =>
      -- there is no late master: not all are through
      obtain ⟨-, -, hall⟩ := h.master j (by rw [hj]; rfl)
      have hpass := hall i
      omega
  | api he ha =>
    cases he with
    | «at» p hapi hplace hstatus hrequested hepoch hpassed hclearing hfits ho =>
      refine ⟨by rw [hrequested]; exact hr, ?_, by rw [hepoch, hpassed]; exact hlt⟩
      rcases hplace with hplace | hplace
      · rw [hplace]
        exact hpaused
      · rw [hplace]
        show (s.place i).notified.isPaused = true
        rw [(Place.notified_same (s.place i)).2.1]
        exact hpaused
    | request nsec hi hs ho =>
      rw [hs]
      refine ⟨rfl, hpaused, ?_⟩
      show s.passed i < if s.stage.m_pause_requested = true then s.epoch else s.epoch + 1
      rw [if_pos hr]
      exact hlt
    | withdraw k hi hs ho =>
      have hapi := h.api
      rw [hi] at hapi
      exact absurd hapi (Lags.not_paused ⟨hr, hpaused, hlt⟩ h)
    | setStarted k p hi hp hs ho =>
      rw [hs]
      exact ⟨hr, hpaused, hlt⟩

/-- **After a request that comes too early the stage is never PAUSED again.** -/
theorem Lags.forever {i : Fin n} (hl : Lags s i) (h : Inv s) {ls : List (Label n)}
    (hrun : Run Step s ls s') : Lags s' i ∧ s'.stage.m_status ≠ .paused := by
  have hstep : ∀ (t : Crew n) (l : Label n) (t' : Crew n), Inv t ∧ Lags t i → Step t l t' →
      Inv t' ∧ Lags t' i := by
    intro t l t' hboth hs
    obtain ⟨ht, htl⟩ := hboth
    exact ⟨ht.step hs, htl.step ht hs⟩
  obtain ⟨h', hl'⟩ := hrun.invariant hstep ⟨h, hl⟩
  exact ⟨hl', hl'.not_paused h'⟩

/-! ## §3. Pauses that come in time. -/

/-- **When no request comes too early, a pause finds nobody asleep for an earlier
one**: who sleeps while the request is up, be the stage PAUSED already or not,
has come through the barrier for this pause, and nobody waits there for it. -/
theorem pending_pause_not_overtaking {proc : WorkerProc} {ls : List (Label n)}
    (hrun : Run (restrict Step Fresh) (Crew.started n proc) ls s)
    (hr : s.stage.m_pause_requested = true)
    {i : Fin n} (hi : s.place i = .sleeping) :
    s.passed i = s.epoch ∧ ∀ j, s.place j ≠ .blocked := by
  have hstep : ∀ (t : Crew n) (l : Label n) (t' : Crew n), Inv t ∧ UpToDate t →
      restrict Step Fresh t l t' → Inv t' ∧ UpToDate t' := by
    intro t l t' hboth hs
    obtain ⟨h, hu⟩ := hboth
    exact ⟨h.step hs.1, hu.step h hs.1 hs.2⟩
  have h0 : UpToDate (Crew.started n proc) := by
    intro hr0
    exact absurd hr0 (by simp [Crew.started, StageRecord.zero])
  obtain ⟨h, hu⟩ := hrun.invariant hstep ⟨Inv.started n proc, h0⟩
  have hpass : s.passed i = s.epoch := hu hr i (by rw [hi]; rfl)
  refine ⟨hpass, ?_⟩
  intro j hj
  have hlt := (h.waiting j (by rw [hj]; rfl)).2
  have heq := together hrun.of_restrict i j
  omega

/-- The first pause of two workers, up to its return, with both asleep. -/
def pauseBoth : List (Action 2) :=
  [.call (.pause (-1)), .api, .api, .api, .api,
    .worker 0 0 0, .worker 0 0 0, .worker 0 0 0, .worker 0 0 0,
    .worker 1 0 0, .worker 1 0 0, .worker 1 0 0, .worker 1 0 1,
    .worker 1 0 0, .worker 1 0 0, .worker 1 0 0, .worker 1 0 0,
    .worker 0 0 0, .worker 0 0 0, .worker 0 0 0,
    .api, .api, .api, .api]

/-- A resume, whose two workers are awake but have not got the lock. -/
def resumeBoth : List (Action 2) :=
  [.call .resume, .api, .api, .api, .api, .api, .api]

/-- A second pause that begins when both workers have left the first, up to where
both are asleep again. -/
def pauseAgain : List (Action 2) :=
  pauseBoth ++ resumeBoth ++
    [.worker 0 0 0, .worker 0 0 0, .worker 0 0 0, .worker 1 0 0, .worker 1 0 0, .worker 1 0 0] ++
    pauseBoth.take 20

/-- In the second pause, too, both sleepers have come through the barrier for it. -/
theorem second_pause_not_overtaking :
    ∃ (ls : List (Label 2)) (s : Crew 2),
      Run (restrict Step Fresh) (Crew.started 2 .m) ls s ∧ s.epoch = 2 ∧
      (s.place 0 = .sleeping ∧ s.passed 0 = s.epoch) ∧
      (s.place 1 = .sleeping ∧ s.passed 1 = s.epoch) ∧ ∀ j, s.place j ≠ .blocked := by
  have hrun : ∃ p, exec next (Crew.started 2 .m) pauseAgain = some p ∧ p.2.epoch = 2 ∧
      p.2.stage.m_pause_requested = true ∧ p.2.place 0 = .sleeping ∧ p.2.place 1 = .sleeping :=
    ⟨_, rfl, rfl, rfl, rfl, rfl⟩
  obtain ⟨⟨ls, s⟩, hexec, hepoch, hr, hsleep0, hsleep1⟩ := hrun
  have hchecked : Checked next Fresh (Crew.started 2 .m) pauseAgain := by
    decide
  have hfresh := run_of_checked hexec hchecked
  obtain ⟨hpass0, hnone⟩ := pending_pause_not_overtaking hfresh hr hsleep0
  obtain ⟨hpass1, -⟩ := pending_pause_not_overtaking hfresh hr hsleep1
  exact ⟨ls, s, hfresh, hepoch, ⟨hsleep0, hpass0⟩, ⟨hsleep1, hpass1⟩, hnone⟩

/-- Worker 0 leaves the pause, a new pause sets the request, and only then worker 1
gets the lock: it sleeps on, and worker 0 waits for it at the barrier. -/
theorem overtaken_worker_sleeps :
    ∃ (ls : List (Label 2)) (s : Crew 2),
      Run Step (Crew.started 2 .m) ls s ∧
      s.stage.m_pause_requested = true ∧ s.stage.m_status ≠ .paused ∧
      s.place 1 = .sleeping ∧ s.passed 1 ≠ s.epoch ∧ s.place 0 = .blocked := by
  have hrun : ∃ p, exec next (Crew.started 2 .m)
      (pauseBoth ++ resumeBoth ++
        [.worker 0 0 0, .worker 0 0 0, .worker 0 0 0,
          .call (.pause (-1)), .api, .api, .api, .api,
          .worker 1 0 0, .worker 1 0 0,
          .worker 0 0 0, .worker 0 0 0, .worker 0 0 0, .worker 0 0 0]) = some p ∧
      p.2.stage.m_pause_requested = true ∧ p.2.stage.m_status = .started ∧
      p.2.place 1 = .sleeping ∧ p.2.passed 1 = 1 ∧ p.2.epoch = 2 ∧ p.2.place 0 = .blocked :=
    ⟨_, rfl, rfl, rfl, rfl, rfl, rfl, rfl⟩
  obtain ⟨⟨ls, s⟩, hexec, hr, hst, hsleep, hpass, hepoch, hblock⟩ := hrun
  refine ⟨ls, s, run_of_exec hexec, hr, ?_, hsleep, ?_, hblock⟩
  · rw [hst]
    decide
  · rw [hpass, hepoch]
    decide

end Mccp.Pipeline.Pause
