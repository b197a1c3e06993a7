/-
  Mccp.Pipeline.Cancel
  ────────────────────
  **THE WORKERS OF A STAGE, AND THE CALLS THAT CANCEL THEM.**

  To the workers and calls of a started stage come mccp_pipeline_stage_cancel(),
  a shutdown with any level, and what a worker does at its end: a worker that
  has been sent a cancellation may act on it in a fetch, main or throw procedure
  and in its wait on m_resume_cond (pthread_barrier_wait() and the locks are no
  cancellation points), and then runs s_worker_finalize() from its clean-up
  handler; one that comes out of its loop runs it too.

      cancelStep  — s_cancel_stage()
      act         — a worker acts on its cancellation
      finalStep   — s_worker_finalize()
      next        — one step of all (executable)
      Moves       — what a step can be (`step_moves`)

  The mutexes are of the default type: an unlock makes one free, whoever holds
  it.  All workers are in their loop, so m_is_started is true.
-/
import Mccp.Pipeline.Quiescence

namespace Mccp.Pipeline.Cancel

open Transition Pause
open Gstate (GraceLevel)

/-! ## §1. The state. -/

/-- Why a worker runs `s_worker_finalize`. -/
inductive Ending where
  | finished
  /-- Canceled in a fetch, main or throw procedure. -/
  | inProc
  /-- Canceled in `pthread_cond_wait`. -/
  | inWait
  deriving DecidableEq, Repr

/-- `is_canceled`. -/
def Ending.isCanceled : Ending → Bool
  | .finished => false
  | .inProc => true
  | .inWait => true

/-- Where a worker is that has left its loop. -/
inductive Final where
  /-- `pthread_cond_wait` takes `m_pause_lock` before the clean-up. -/
  | relocking
  /-- In `s_worker_finalize`, before and after taking `m_final_lock`. -/
  | locking (e : Ending)
  | canceled (e : Ending)
  | pauseUnlocking (e : Ending)
  | shutdown (e : Ending)
  | unlocking (e : Ending)
  | gone
  deriving DecidableEq, Repr

/-- Who calls `s_cancel_stage`. -/
inductive Canceler where
  | cancel
  | shutdown
  deriving DecidableEq, Repr

/-- Where a call is in `mccp_pipeline_stage_cancel` or in `s_cancel_stage`. -/
inductive CancelPlace where
  | none
  | test
  /-- About to cancel worker `i`. -/
  | sending (k : Canceler) (i : Nat) (first_err : Result)
  | levelSetting (k : Canceler) (ret : Result)
  | loopClearing (k : Canceler) (ret : Result)
  deriving DecidableEq, Repr

/-- The calls. -/
inductive Call where
  | pause (nsec : Int)
  | resume
  | shutdown (lvl : GraceLevel)
  | cancel
  deriving DecidableEq, Repr

/-- A stage with `n` workers. -/
structure System (n : Nat) where
  crew : Crew n
  cancel : CancelPlace
  /-- The argument of a shutdown. -/
  lvl : GraceLevel
  /-- `pthread_cancel` has been called for the worker. -/
  pending : Fin n → Bool
  final : Fin n → Option Final
  m_final_lock : Option (Fin n)

/-- A stage that has just been started. -/
def System.started (n : Nat) (proc : WorkerProc) : System n where
  crew := Crew.started n proc
  cancel := .none
  lvl := .unknown
  pending := fun _ => false
  final := fun _ => none
  m_final_lock := none

/-- What a scheduler can choose. -/
inductive Action (n : Nat) where
  /-- A call gets `m_lock`. -/
  | call (c : Call)
  /-- A step of the call; where it cancels a worker, that returns `ret`. -/
  | api (ret : Result)
  | wakeApi (ret : Result)
  | worker (i : Fin n) (ret : Result) (master : Fin n)
  | wakeWorker (i : Fin n)
  /-- A worker acts on its cancellation. -/
  | act (i : Fin n)
  | finalize (i : Fin n)
  deriving DecidableEq, Repr

/-- What the caller sees. -/
inductive Outcome where
  | of (o : Pause.Outcome)
  | canceled (ret : Result)
  deriving DecidableEq, Repr

/-- A choice and what is seen of it. -/
structure Label (n : Nat) where
  action : Action n
  outcome : Outcome
  deriving DecidableEq, Repr

variable {n : Nat}

/-! ## §2. The calls. -/

/-- A call begins. -/
def System.enter (s : System n) : Call → System n
  | .pause nsec => { s with crew := s.crew.at (.pauseTest nsec) }
  | .resume => { s with crew := s.crew.at .resumeTest }
  | .shutdown lvl => { s with crew := s.crew.at .shutdownTest, lvl := lvl }
  | .cancel => { s with cancel := .test }

/-- The stage with `m_sg_lvl` set. -/
def setLevel (s : Crew n) (lvl : GraceLevel) : Crew n :=
  { s with stage := { s.stage with m_sg_lvl := lvl } }

/-- The stage with `m_do_loop` cleared. -/
def clearLoop (s : Crew n) : Crew n := { s with stage := { s.stage with m_do_loop := false } }

/-- What `s_cancel_stage` returns to its caller, who returns it. -/
def Canceler.returns (ret : Result) : Canceler → Outcome
  | .cancel => .canceled ret
  | .shutdown => .of (.shutDown ret)

/-- `mccp_pipeline_stage_cancel` and `s_cancel_stage`; the cancellation of a worker
returns `ret`. -/
def cancelStep (s : System n) (ret : Result) : Option (Outcome × System n) :=
  match s.cancel with
  | .none => none
  | .test =>
      if s.crew.stage.m_status = .started then
        some (.of .quiet, { s with cancel := .sending .cancel 0 .ok })
      else some (.canceled .invalidStateTransition, { s with cancel := .none })
  | .sending k i first_err =>
      if h : i < n then
        some (.of .quiet, { s with
          pending := if ret = .ok then Function.update s.pending ⟨i, h⟩ true else s.pending
          -- carries on, whatever errors occur
          cancel := .sending k (i + 1) (if ret ≠ .ok ∧ first_err = .ok then ret else first_err) })
      else some (.of .quiet, { s with cancel := .levelSetting k first_err })
  | .levelSetting k ret =>
      some (.of .quiet, { s with crew := setLevel s.crew .rightNow, cancel := .loopClearing k ret })
  | .loopClearing k ret =>
      some (k.returns ret, { s with crew := clearLoop s.crew, cancel := .none })

/-- The end of `mccp_pipeline_stage_shutdown`, with its level. -/
def shutdownStep (s : System n) : Outcome × System n :=
  let s := { s with crew := (setLevel s.crew s.lvl).at .idle }
  if s.lvl = .rightNow then (.of .quiet, { s with cancel := .sending .shutdown 0 .ok })
  else (.of (.shutDown .ok), s)

/-- **A step of the call that holds `m_lock`.** -/
def apiStep (s : System n) (ret : Result) : Option (Outcome × System n) :=
  if s.cancel ≠ .none then cancelStep s ret
  else if s.crew.api = .levelSetting then some (shutdownStep s)
  else (Pause.apiStep s.crew).map (fun r => (.of r.1, { s with crew := r.2 }))

/-! ## §3. The end of a worker. -/

/-- A worker leaves its loop, for its clean-up. -/
def System.leave (s : System n) (i : Fin n) (f : Final) : System n :=
  { s with crew := s.crew.go i .exited, final := Function.update s.final i (some f) }

theorem System.leave_final (s : System n) (i : Fin n) (f : Final) :
    (s.leave i f).final i = some f :=
  Function.update_self ..

theorem System.leave_final_of_ne (s : System n) {i k : Fin n} (f : Final) (hk : k ≠ i) :
    (s.leave i f).final k = s.final k :=
  Function.update_of_ne hk ..

/-- `s_pthd_cancel_handler`: a worker acts on its cancellation. -/
def act (s : System n) (i : Fin n) : Option (System n) :=
  if s.pending i = true then
    match s.crew.place i with
    | .executing _ _ => some (s.leave i (.locking .inProc))
    -- notified or not, it is in `pthread_cond_wait`
    | .sleeping => some (s.leave i .relocking)
    | .relocking => some (s.leave i .relocking)
    | _ => none
  else none

/-- The worker goes on with its end. -/
def System.ends (s : System n) (i : Fin n) (f : Final) : System n :=
  { s with final := Function.update s.final i (some f) }

/-- The stage with `m_pause_lock` set. -/
def setLock (s : Crew n) (lock : Option (Holder n)) : Crew n := { s with m_pause_lock := lock }

/-- The stage with one more canceled worker. -/
def countCanceled (s : Crew n) : Crew n :=
  { s with stage := { s.stage with m_n_canceled_workers := s.stage.m_n_canceled_workers + 1 } }

/-- The stage with one more worker that has ended. -/
def countShutdown (s : Crew n) : Crew n :=
  { s with stage := { s.stage with m_n_shutdown_workers := s.stage.m_n_shutdown_workers + 1 } }

/-- `s_worker_finalize`. -/
def finalStep (s : System n) (i : Fin n) : Option (System n) :=
  match s.final i with
  | none => if s.crew.place i = .exited then some (s.ends i (.locking .finished)) else none
  | some .relocking =>
      if s.crew.m_pause_lock = none then
        some ({ s with crew := setLock s.crew (some (.worker i)) }.ends i (.locking .inWait))
      else none
  | some (.locking e) =>
      if s.m_final_lock = none then
        some ({ s with m_final_lock := some i }.ends i
          (if e.isCanceled then .canceled e else .shutdown e))
      else none
  | some (.canceled e) =>
      some ({ s with crew := countCanceled s.crew }.ends i (.pauseUnlocking e))
  -- whether it holds m_pause_lock or not
  | some (.pauseUnlocking e) =>
      some ({ s with crew := setLock s.crew none }.ends i (.shutdown e))
  | some (.shutdown e) => some ({ s with crew := countShutdown s.crew }.ends i (.unlocking e))
  | some (.unlocking _) => some ({ s with m_final_lock := none }.ends i .gone)
  | some .gone => none

/-! ## §4. All together. -/

/-- **One step**; `none` when the choice is not open. -/
def next (s : System n) (a : Action n) : Option (Label n × System n) :=
  let quiet (s : System n) : Label n × System n := (⟨a, .of .quiet⟩, s)
  match a with
  | .call c =>
      if s.crew.api = .idle ∧ s.cancel = .none then some (quiet (s.enter c)) else none
  | .api ret => (apiStep s ret).map (fun r => (⟨a, r.1⟩, r.2))
  | .wakeApi ret => (wakeApi s.crew ret).map (fun c => quiet { s with crew := c })
  | .worker i ret master =>
      (workerStep s.crew i ret master).map (fun c => quiet { s with crew := c })
  | .wakeWorker i =>
      if s.crew.place i = .sleeping then some (quiet { s with crew := s.crew.go i .relocking })
      else none
  | .act i => (act s i).map quiet
  | .finalize i => (finalStep s i).map quiet

/-- The transition relation over observations. -/
abbrev Step : System n → Label n → System n → Prop := observed next

/-! ## §5. What a step can be. -/

/-- **What a step can be.** -/
inductive Moves (s : System n) : Action n → System n → Prop
  | enter (c : Call) (hi : s.crew.api = .idle) : Moves s (.call c) (s.enter c)
  | api {ret : Result} {o : Pause.Outcome} {c : Crew n} (hc : s.cancel = .none)
      (hl : s.crew.api ≠ .levelSetting) (ha : Pause.apiStep s.crew = some (o, c)) :
      Moves s (.api ret) { s with crew := c }
  | shutdown {ret : Result} (hc : s.cancel = .none) (hl : s.crew.api = .levelSetting) :
      Moves s (.api ret) (shutdownStep s).2
  | cancel {ret : Result} {o : Outcome} {s' : System n} (hc : s.cancel ≠ .none)
      (ha : cancelStep s ret = some (o, s')) : Moves s (.api ret) s'
  | wakeApi {ret : Result} {c : Crew n} (ha : Pause.wakeApi s.crew ret = some c) :
      Moves s (.wakeApi ret) { s with crew := c }
  | worker {i : Fin n} {ret : Result} {master : Fin n} {c : Crew n}
      (hw : workerStep s.crew i ret master = some c) :
      Moves s (.worker i ret master) { s with crew := c }
  | wakeWorker {i : Fin n} (hi : s.crew.place i = .sleeping) :
      Moves s (.wakeWorker i) { s with crew := s.crew.go i .relocking }
  | act {i : Fin n} {s' : System n} (ha : act s i = some s') : Moves s (.act i) s'
  | finalize {i : Fin n} {s' : System n} (hf : finalStep s i = some s') : Moves s (.finalize i) s'

variable {s s' : System n} {l : Label n}

/-- **Every step is one of these.** -/
theorem step_moves (hstep : Step s l s') : Moves s l.action s' := by
  obtain ⟨a, ha⟩ := hstep
  cases a with
  | call c =>
    unfold next at ha
    dsimp only at ha
    split at ha
    next hi =>
      cases ha
      exact .enter c hi.1
    next => exact absurd ha (by simp)
  | api ret =>
    obtain ⟨r, hr, hl⟩ := Option.map_eq_some_iff.mp ha
    cases hl
    unfold apiStep at hr
    split at hr
    next hc => exact .cancel hc hr
    next hc =>
      have hnone : s.cancel = .none := not_not.mp hc
      split at hr
      next hl =>
        cases hr
        exact .shutdown hnone hl
      next hl =>
        obtain ⟨c, hstep, hl'⟩ := Option.map_eq_some_iff.mp hr
        cases hl'
        exact .api hnone hl hstep
  | wakeApi ret =>
    obtain ⟨c, hc, hl⟩ := Option.map_eq_some_iff.mp ha
    cases hl
    exact .wakeApi hc
  | worker i ret master =>
    obtain ⟨c, hc, hl⟩ := Option.map_eq_some_iff.mp ha
    cases hl
    exact .worker hc
  | wakeWorker i =>
    unfold next at ha
    dsimp only at ha
    split at ha
    next hi =>
      cases ha
      exact .wakeWorker hi
    next => exact absurd ha (by simp)
  | act i =>
    obtain ⟨t, ht, hl⟩ := Option.map_eq_some_iff.mp ha
    cases hl
    exact .act ht
  | finalize i =>
    obtain ⟨t, ht, hl⟩ := Option.map_eq_some_iff.mp ha
    cases hl
    exact .finalize ht

/-- A cancellation of the stage touches `m_sg_lvl` and `m_do_loop` of it at most. -/
theorem cancelStep_frame {ret : Result} {o : Outcome} (h : cancelStep s ret = some (o, s')) :
    s'.final = s.final ∧ (s'.crew = s.crew ∨ s'.crew = setLevel s.crew .rightNow ∨
      s'.crew = clearLoop s.crew) := by
  unfold cancelStep at h
  split at h
  next => exact absurd h (by simp)
  next =>
    split at h <;>
    · cases h
      exact ⟨rfl, .inl rfl⟩
  next =>
    split at h <;>
    · cases h
      exact ⟨rfl, .inl rfl⟩
  next =>
    cases h
    exact ⟨rfl, .inr (.inl rfl)⟩
  next =>
    cases h
    exact ⟨rfl, .inr (.inr rfl)⟩

theorem shutdownStep_frame (s : System n) : (shutdownStep s).2.final = s.final ∧
    (shutdownStep s).2.crew = (setLevel s.crew s.lvl).at .idle := by
  unfold shutdownStep
  dsimp only
  split <;> exact ⟨rfl, rfl⟩

/-- Where a worker can act on its cancellation, and what it does then. -/
inductive Acts : Place → Final → Prop
  | executing (p : Proc) (rest : List Proc) : Acts (.executing p rest) (.locking .inProc)
  | sleeping : Acts .sleeping .relocking
  | relocking : Acts .relocking .relocking

theorem act_cases {i : Fin n} (h : act s i = some s') :
    ∃ f, Acts (s.crew.place i) f ∧ s' = s.leave i f := by
  unfold act at h
  split at h
  next =>
    cases hp : s.crew.place i with
    | executing p rest =>
      rw [hp] at h
      cases h
      exact ⟨_, .executing p rest, rfl⟩
    | sleeping =>
      rw [hp] at h
      cases h
      exact ⟨_, .sleeping, rfl⟩
    | relocking =>
      rw [hp] at h
      cases h
      exact ⟨_, .relocking, rfl⟩
    | _ =>
      rw [hp] at h
      exact absurd h (by simp)
  next => exact absurd h (by simp)

/-- The steps of a worker's end. -/
inductive Ends : Option Final → Final → Prop
  | finished : Ends none (.locking .finished)
  | relocking : Ends (some .relocking) (.locking .inWait)
  | canceled (e : Ending) (he : e.isCanceled = true) : Ends (some (.locking e)) (.canceled e)
  | plain (e : Ending) (he : e.isCanceled = false) : Ends (some (.locking e)) (.shutdown e)
  | pauseUnlocking (e : Ending) : Ends (some (.canceled e)) (.pauseUnlocking e)
  | shutdown (e : Ending) : Ends (some (.pauseUnlocking e)) (.shutdown e)
  | unlocking (e : Ending) : Ends (some (.shutdown e)) (.unlocking e)
  | gone (e : Ending) : Ends (some (.unlocking e)) .gone

theorem finalStep_ends {i : Fin n} (h : finalStep s i = some s') :
    ∃ f, Ends (s.final i) f ∧ s'.final = Function.update s.final i (some f) ∧
      (s.final i = none → s.crew.place i = .exited) := by
  unfold finalStep at h
  cases hi : s.final i with
  | none =>
    rw [hi] at h
    dsimp only at h
    split at h
    next hplace =>
      cases h
      exact ⟨_, .finished, rfl, fun _ => hplace⟩
    next => exact absurd h (by simp)
  | some f =>
    rw [hi] at h
    cases f with
    | gone => exact absurd h (by simp)
    | relocking =>
      dsimp only at h
      split at h
      · cases h
        exact ⟨_, .relocking, rfl, nofun⟩
      · exact absurd h (by simp)
    | locking e =>
      dsimp only at h
      split at h
      · cases h
        cases he : e.isCanceled with
        | true => exact ⟨_, .canceled e he, rfl, nofun⟩
        | false => exact ⟨_, .plain e he, rfl, nofun⟩
      · exact absurd h (by simp)
    | canceled e =>
      cases h
      exact ⟨_, .pauseUnlocking e, rfl, nofun⟩
    | pauseUnlocking e =>
      cases h
      exact ⟨_, .shutdown e, rfl, nofun⟩
    | shutdown e =>
      cases h
      exact ⟨_, .unlocking e, rfl, nofun⟩
    | unlocking e =>
      cases h
      exact ⟨_, .gone e, rfl, nofun⟩

/-- `s_worker_finalize` touches `m_pause_lock` and the two counters of the stage at most. -/
theorem finalStep_frame {i : Fin n} (h : finalStep s i = some s') :
    s'.crew = s.crew ∨ (∃ lock, s'.crew = setLock s.crew lock) ∨
      s'.crew = countCanceled s.crew ∨ s'.crew = countShutdown s.crew := by
  unfold finalStep at h
  split at h
  next =>
    split at h
    next =>
      cases h
      exact .inl rfl
    next => exact absurd h (by simp)
  next =>
    split at h
    next =>
      cases h
      exact .inr (.inl ⟨_, rfl⟩)
    next => exact absurd h (by simp)
  next =>
    split at h
    next =>
      cases h
      exact .inl rfl
    next => exact absurd h (by simp)
  next =>
    cases h
    exact .inr (.inr (.inl rfl))
  next =>
    cases h
    exact .inr (.inl ⟨_, rfl⟩)
  next =>
    cases h
    exact .inr (.inr (.inr rfl))
  next =>
    cases h
    exact .inl rfl
  next => exact absurd h (by simp)

end Mccp.Pipeline.Cancel
