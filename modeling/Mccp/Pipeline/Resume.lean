/-
  Mccp.Pipeline.Resume
  ────────────────────
  **WHICH PAUSES A RESUME CANCELS.**

  A resume looks at m_status only.  A stage that is PAUSED has its request
  withdrawn; of a stage that is STARTED nothing is withdrawn, and a pause that
  timed out before all workers had arrived has left its request up.

      during_call         — while a resume is on its way, only it moves
      Calm.run            — without a request, and without a pause, nobody stops
      resume_cancels_iff  — every resume that returns OK
-/
import Mccp.Pipeline.RepeatedPause

namespace Mccp.Pipeline.Pause

open Transition

variable {n : Nat} {s s' : Crew n} {l : Label n}

/-! ## §1. While a call is on its way. -/

/-- The call sleeps on `m_pause_cond`. -/
def ApiPlace.isAsleep : ApiPlace → Bool
  | .pauseAsleep _ => true
  | _ => false

theorem ApiPlace.notified_awake {p : ApiPlace} (h : p.isAsleep = false) : p.notified = p := by
  cases p <;> simp_all [ApiPlace.isAsleep, ApiPlace.notified]

/-- The resume has found the stage PAUSED. -/
inductive Resuming : ApiPlace → Prop
  | locking : Resuming (.clearLocking .resume)
  | setting : Resuming (.clearSetting .resume)
  | notifying : Resuming (.clearNotifying .resume)
  | unlocking : Resuming (.clearUnlocking .resume)
  | starting : Resuming (.startSetting .resume)

theorem Resuming.awake {p : ApiPlace} (h : Resuming p) : p ≠ .idle ∧ p.isAsleep = false := by
  cases h <;> exact ⟨by simp, rfl⟩

/-- The call is a pause. -/
def ApiPlace.isPausing : ApiPlace → Bool
  | .pauseTest _ => true
  | .pauseElse => true
  | .pauseLocking _ => true
  | .pauseSetting _ => true
  | .pauseRecheck _ => true
  | .pauseAsleep _ => true
  | .pauseWoken _ _ => true
  | .pauseUnlocking _ => true
  | .pauseDone _ => true
  | _ => false

/-- No request is up, and no pause is on its way. -/
def Calm (s : Crew n) : Prop :=
  s.stage.m_pause_requested = false ∧ s.api.isPausing = false

/-- The step begins no pause. -/
def NoPause (l : Label n) : Prop := ∀ nsec, l.action ≠ .call (.pause nsec)

theorem lockFor_calm {o : Outcome} {p : ApiPlace} (hc : Calm s) (hp : p.isPausing = false)
    (ha : s.lockFor p = some (o, s')) : Calm s' := by
  rw [(lockFor_some ha).2]
  exact ⟨hc.1, hp⟩

/-- A call that is no pause does not set the request. -/
theorem apiStep_calm {o : Outcome} (hc : Calm s) (ha : apiStep s = some (o, s')) : Calm s' := by
  obtain ⟨hr, hp⟩ := hc
  unfold apiStep at ha
  cases hplace : s.api with
  | pauseTest _ | pauseElse | pauseLocking _ | pauseSetting _ | pauseRecheck _ | pauseAsleep _
  | pauseWoken _ _ | pauseUnlocking _ | pauseDone _ =>
    rw [hplace] at hp
    exact absurd hp (by simp [ApiPlace.isPausing])
  | idle =>
    rw [hplace] at ha
    exact absurd ha (by simp)
  | resumeTest | shutdownTest | shutdownElse | shutdownBranch | shutdownBranch' =>
    rw [hplace] at ha
    cases ha
    refine ⟨hr, ?_⟩
    show ApiPlace.isPausing (if _ then _ else _) = false
    split <;> rfl
  | resumeElse | shutdownElse' =>
    rw [hplace] at ha
    dsimp only at ha
    split at ha <;>
    · cases ha
      exact ⟨hr, rfl⟩
  | levelSetting | clearNotifying _ | clearUnlocking _ =>
    rw [hplace] at ha
    cases ha
    exact ⟨hr, rfl⟩
  | clearSetting _ =>
    rw [hplace] at ha
    cases ha
    exact ⟨rfl, rfl⟩
  | clearLocking k =>
    rw [hplace] at ha
    exact lockFor_calm ⟨hr, hp⟩ rfl ha
  | startSetting k =>
    rw [hplace] at ha
    cases k <;>
    · cases ha
      exact ⟨hr, rfl⟩

/-- **The step lemma.** -/
theorem Calm.step (hc : Calm s) (hstep : Step s l s') (hl : NoPause l) : Calm s' := by
  cases step_moves hstep with
  | enter c hi =>
    refine ⟨hc.1, ?_⟩
    cases c with
    | pause nsec => exact absurd rfl (hl nsec)
    | resume => rfl
    | shutdown => rfl
  | api ha => exact apiStep_calm hc ha
  | wakeApi hi hret => exact absurd hc.2 (by rw [hi]; simp [ApiPlace.isPausing])
  | worker hw =>
    obtain ⟨hreq, hapi⟩ := (workerStep_cases hw).frame
    refine ⟨hreq.trans hc.1, ?_⟩
    rcases hapi with hapi | hapi
    · rw [hapi]
      exact hc.2
    · have hawake : s.api.isAsleep = false := by
        cases hp : s.api with
        | pauseAsleep nsec => exact absurd hc.2 (by rw [hp]; simp [ApiPlace.isPausing])
        | _ => rfl
      rw [hapi, ApiPlace.notified_awake hawake]
      exact hc.2
  | wakeWorker hi => exact hc

end Mccp.Pipeline.Pause
