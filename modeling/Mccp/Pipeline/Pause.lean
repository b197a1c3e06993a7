/-
  Mccp.Pipeline.Pause
  ───────────────────
  **THE WORKERS OF A STARTED STAGE, AND THE CALLS THAT PAUSE THEM.**

  pipeline_worker.c and the pause, resume and graceful shutdown of
  pipeline_stage.c.  Each read or write of a field that others write is a step
  of its own.  `m_lock` is held through a call, so at most one call is on its
  way; the workers and the call share `m_pause_lock`.

      workerStep  — WORKER_LOOP and s_worker_pause()
      arrive      — the barrier: the last of the workers lets all through
      apiStep     — the call that holds m_lock
      next        — one step of all (executable)

  `epoch` counts how often m_pause_requested went up, `passed` in which epoch
  each worker last came through the barrier; the code reads neither.
-/
import Mccp.Lib.Transition
import Mccp.Pipeline.Stage

namespace Mccp.Pipeline.Pause

open Transition

/-! ## §1. Places. -/

/-- The procedures that a worker executes. -/
inductive Proc where
  | fetch
  | main
  | throw
  deriving DecidableEq, Repr

/-- The procedures of one round of the loop. -/
def procs : WorkerProc → List Proc
  | .f_m_t => [.fetch, .main, .throw]
  | .f_m => [.fetch, .main]
  | .m_t => [.main, .throw]
  | .m => [.main]

/-- Where a worker is. -/
inductive Place where
  /-- The loop's condition: `m_do_loop`, then `m_sg_lvl`. -/
  | head
  | level
  /-- About to look at `m_pause_requested`. -/
  | test
  /-- In a procedure; the rest of the round is still to come. -/
  | executing (p : Proc) (rest : List Proc)
  /-- In `s_worker_pause`: before the barrier, and waiting in it. -/
  | arriving
  | blocked
  /-- Through the barrier, before and after taking `m_pause_lock`. -/
  | released (isMaster : Bool)
  | locked (isMaster : Bool)
  /-- The master has set `m_status`. -/
  | notifying
  | recheck
  /-- Asleep on `m_resume_cond`, and awake but without the lock. -/
  | sleeping
  | relocking
  | unlocking
  /-- Out of the loop. -/
  | exited
  deriving DecidableEq, Repr

/-- Through the barrier, and not yet seen the request withdrawn. -/
def Place.isPaused : Place → Bool
  | .released _ => true
  | .locked _ => true
  | .notifying => true
  | .recheck => true
  | .sleeping => true
  | .relocking => true
  | _ => false

/-- On the way to the barrier, or in it. -/
def Place.isWaiting : Place → Bool
  | .arriving => true
  | .blocked => true
  | _ => false

/-- The master of a round that has not set `m_status` yet. -/
def Place.isMaster : Place → Bool
  | .released m => m
  | .locked m => m
  | _ => false

/-- In a fetch, main or throw procedure. -/
def Place.isExecuting : Place → Bool
  | .executing _ _ => true
  | _ => false

/-- The calls. -/
inductive Call where
  | pause (nsec : Int)
  | resume
  | shutdown
  deriving DecidableEq, Repr

/-- Who calls `s_resume_stage`. -/
inductive Resumer where
  | resume
  | shutdown
  deriving DecidableEq, Repr

/-- Where the call is that holds `m_lock`. -/
inductive ApiPlace where
  | idle
  /-- `mccp_pipeline_stage_pause`. -/
  | pauseTest (nsec : Int)
  | pauseElse
  | pauseLocking (nsec : Int)
  | pauseSetting (nsec : Int)
  | pauseRecheck (nsec : Int)
  | pauseAsleep (nsec : Int)
  | pauseWoken (nsec : Int) (ret : Result)
  | pauseUnlocking (ret : Result)
  | pauseDone (ret : Result)
  /-- `mccp_pipeline_stage_resume`. -/
  | resumeTest
  | resumeElse
  /-- `mccp_pipeline_stage_shutdown` with SHUTDOWN_GRACEFULLY. -/
  | shutdownTest
  | shutdownElse
  | shutdownElse'
  | shutdownBranch
  | shutdownBranch'
  | levelSetting
  /-- `s_resume_stage`, and the setting of `m_status` after it. -/
  | clearLocking (k : Resumer)
  | clearSetting (k : Resumer)
  | clearNotifying (k : Resumer)
  | clearUnlocking (k : Resumer)
  | startSetting (k : Resumer)
  deriving DecidableEq, Repr

/-- Who holds `m_pause_lock`. -/
inductive Holder (n : Nat) where
  | api
  | worker (i : Fin n)
  deriving DecidableEq, Repr

/-- A stage with `n` workers. -/
structure Crew (n : Nat) where
  stage : StageRecord
  proc : WorkerProc
  place : Fin n → Place
  st : Fin n → Result
  api : ApiPlace
  m_pause_lock : Option (Holder n)
  epoch : Nat
  passed : Fin n → Nat

/-- A stage that has just been started. -/
def Crew.started (n : Nat) (proc : WorkerProc) : Crew n where
  stage := { StageRecord.zero with m_n_workers := n, m_do_loop := true, m_status := .started }
  proc := proc
  place := fun _ => .head
  st := fun _ => 0
  api := .idle
  m_pause_lock := none
  epoch := 0
  passed := fun _ => 0

/-- What a scheduler can choose. -/
inductive Action (n : Nat) where
  /-- A call gets `m_lock`. -/
  | call (c : Call)
  | api
  /-- A sleep on `m_pause_cond` ends without a notification. -/
  | wakeApi (ret : Result)
  /-- A worker's step; an executing procedure returns `ret`, and if the step
  completes the barrier, `master` is told so. -/
  | worker (i : Fin n) (ret : Result) (master : Fin n)
  /-- A sleep on `m_resume_cond` ends without a notification. -/
  | wakeWorker (i : Fin n)
  deriving DecidableEq, Repr

/-- What the caller sees: nothing, or what a call returns. -/
inductive Outcome where
  | quiet
  | paused (ret : Result)
  | resumed (ret : Result)
  | shutDown (ret : Result)
  deriving DecidableEq, Repr

/-- A choice and what is seen of it. -/
structure Label (n : Nat) where
  action : Action n
  outcome : Outcome
  deriving DecidableEq, Repr

/-! ## §2. The workers. -/

variable {n : Nat}

/-- The crew with a worker moved. -/
def Crew.go (s : Crew n) (i : Fin n) (p : Place) : Crew n :=
  { s with place := Function.update s.place i p }

/-- `mccp_barrier_wait`: the worker waits, or lets all workers through. -/
def arrive (s : Crew n) (i master : Fin n) : Crew n :=
  if ∀ j, j ≠ i → s.place j = .blocked then
    { s with
      place := fun j => .released (j = master)
      passed := fun _ => s.epoch }
  else s.go i .blocked

/-- A procedure of the round has returned `ret`. -/
def afterProc (ret : Result) (rest : List Proc) : Place :=
  if 0 < ret then
    match rest with
    | p :: rest => .executing p rest
    | [] => .head
  else if ret < 0 then .exited
  else .head

/-- The call that sleeps on `m_pause_cond` is woken. -/
def ApiPlace.notified : ApiPlace → ApiPlace
  | .pauseAsleep nsec => .pauseWoken nsec .ok
  | p => p

/-- A worker that sleeps on `m_resume_cond` is woken. -/
def Place.notified : Place → Place
  | .sleeping => .relocking
  | p => p

/-- **A worker's step**: `WORKER_LOOP`, and `s_worker_pause` from `arriving` to
`unlocking`. -/
def workerStep (s : Crew n) (i : Fin n) (ret : Result) (master : Fin n) : Option (Crew n) :=
  match s.place i with
  | .head => some (s.go i (if s.stage.m_do_loop = true then .level else .exited))
  | .level =>
      some (s.go i (if 0 < s.st i ∨ (s.st i = 0 ∧ s.stage.m_sg_lvl = .unknown) then .test
        else .exited))
  | .test =>
      -- the request is read here once, before the procedures of the round
      if s.stage.m_pause_requested = false then
        match procs s.proc with
        | p :: rest => some (s.go i (.executing p rest))
        | [] => some (s.go i .head)
      else some (s.go i .arriving)
  | .executing _ rest =>
      some ({ s with st := Function.update s.st i ret }.go i (afterProc ret rest))
  | .arriving => some (arrive s i master)
  | .blocked => none
  | .released isMaster =>
      if s.m_pause_lock = none then
        some ({ s with m_pause_lock := some (.worker i) }.go i (.locked isMaster))
      else none
  -- the barrier's master tells the stage that it is paused
  | .locked true =>
      some ({ s with stage := { s.stage with m_status := .paused } }.go i .notifying)
  | .locked false => some (s.go i .recheck)
  | .notifying => some ({ s with api := s.api.notified }.go i .recheck)
  | .recheck =>
      if s.stage.m_pause_requested = true then
        some ({ s with m_pause_lock := none }.go i .sleeping)
      else some (s.go i .unlocking)
  | .sleeping => none
  | .relocking =>
      if s.m_pause_lock = none then
        some ({ s with m_pause_lock := some (.worker i) }.go i .recheck)
      else none
  | .unlocking => some ({ s with m_pause_lock := none }.go i .head)
  | .exited => none

/-! ## §3. The calls. -/

/-- The crew with the call moved. -/
def Crew.at (s : Crew n) (p : ApiPlace) : Crew n := { s with api := p }

/-- The call takes `m_pause_lock`, if it is free. -/
def Crew.lockFor (s : Crew n) (p : ApiPlace) : Option (Outcome × Crew n) :=
  if s.m_pause_lock = none then some (.quiet, { s with m_pause_lock := some .api }.at p) else none

/-- `m_pause_requested = true`. -/
def Crew.request (s : Crew n) : Crew n :=
  { s with
    stage := { s.stage with m_pause_requested := true }
    epoch := if s.stage.m_pause_requested = true then s.epoch else s.epoch + 1 }

/-- `m_pause_requested = false`. -/
def Crew.withdraw (s : Crew n) : Crew n :=
  { s with stage := { s.stage with m_pause_requested := false } }

/-- The end of a resume, and of the part of a shutdown that resumes. -/
def afterStart (s : Crew n) : Resumer → Outcome × Crew n
  | .resume => (.resumed .ok, s.at .idle)
  | .shutdown => (.quiet, s.at .levelSetting)

/-- **A step of the call that holds `m_lock`.** -/
def apiStep (s : Crew n) : Option (Outcome × Crew n) :=
  match s.api with
  | .idle => none
  | .pauseTest nsec =>
      some (.quiet, s.at (if s.stage.m_status = .started then .pauseLocking nsec else .pauseElse))
  | .pauseElse =>
      if s.stage.m_status = .paused then some (.paused .ok, s.at .idle)
      else some (.paused .invalidStateTransition, s.at .idle)
  | .pauseLocking nsec => s.lockFor (.pauseSetting nsec)
  -- the request is set with `m_pause_lock` held, but read without it
  | .pauseSetting nsec => some (.quiet, s.request.at (.pauseRecheck nsec))
  | .pauseRecheck nsec =>
      if s.stage.m_status ≠ .paused then
        some (.quiet, { s with m_pause_lock := none }.at (.pauseAsleep nsec))
      else some (.quiet, s.at (.pauseUnlocking .ok))
  | .pauseAsleep _ => none
  | .pauseWoken nsec ret =>
      s.lockFor (if ret = .ok then .pauseRecheck nsec else .pauseUnlocking ret)
  | .pauseUnlocking ret => some (.quiet, { s with m_pause_lock := none }.at (.pauseDone ret))
  | .pauseDone ret =>
      if ret ≠ .ok ∧ ret ≠ .timedout then some (.paused ret, s.withdraw.at .idle)
      else some (.paused ret, s.at .idle)
  | .resumeTest =>
      some (.quiet, s.at (if s.stage.m_status = .paused then .clearLocking .resume
        else .resumeElse))
  | .resumeElse =>
      if s.stage.m_status = .started then some (.resumed .ok, s.at .idle)
      else some (.resumed .invalidStateTransition, s.at .idle)
  | .shutdownTest =>
      some (.quiet, s.at (if s.stage.m_status = .started then .shutdownBranch else .shutdownElse))
  | .shutdownElse =>
      some (.quiet, s.at (if s.stage.m_status = .paused then .shutdownBranch else .shutdownElse'))
  -- one state after the other is compared, while a worker may set the status
  | .shutdownElse' =>
      if s.stage.m_status = .singled then some (.quiet, s.at .shutdownBranch)
      else some (.shutDown .invalidStateTransition, s.at .idle)
  | .shutdownBranch =>
      some (.quiet, s.at (if s.stage.m_status = .paused then .clearLocking .shutdown
        else .shutdownBranch'))
  | .shutdownBranch' =>
      some (.quiet, s.at (if s.stage.m_status = .singled then .startSetting .shutdown
        else .levelSetting))
  | .levelSetting =>
      some (.shutDown .ok, { s with stage := { s.stage with m_sg_lvl := .gracefully } }.at .idle)
  | .clearLocking k => s.lockFor (.clearSetting k)
  | .clearSetting k => some (.quiet, s.withdraw.at (.clearNotifying k))
  | .clearNotifying k =>
      some (.quiet, { s with place := fun i => (s.place i).notified }.at (.clearUnlocking k))
  | .clearUnlocking k => some (.quiet, { s with m_pause_lock := none }.at (.startSetting k))
  | .startSetting k => some (afterStart { s with stage := { s.stage with m_status := .started } } k)

/-- Where a call begins. -/
def Call.entry : Call → ApiPlace
  | .pause nsec => .pauseTest nsec
  | .resume => .resumeTest
  | .shutdown => .shutdownTest

/-- What a sleep on `m_pause_cond` can end with: OK at any time, and TIMEDOUT
with a deadline. -/
def wakeApi (s : Crew n) (ret : Result) : Option (Crew n) :=
  match s.api with
  | .pauseAsleep nsec =>
      if ret = .ok ∨ (ret = .timedout ∧ 0 ≤ nsec) then some (s.at (.pauseWoken nsec ret)) else none
  | _ => none

/-! ## §4. All together. -/

/-- **One step**; `none` when the choice is not open. -/
def next (s : Crew n) (a : Action n) : Option (Label n × Crew n) :=
  match a with
  | .call c => if s.api = .idle then some (⟨a, .quiet⟩, s.at c.entry) else none
  | .api => (apiStep s).map (fun r => (⟨a, r.1⟩, r.2))
  | .wakeApi ret => (wakeApi s ret).map (fun s => (⟨a, .quiet⟩, s))
  | .worker i ret master => (workerStep s i ret master).map (fun s => (⟨a, .quiet⟩, s))
  | .wakeWorker i =>
      if s.place i = .sleeping then some (⟨a, .quiet⟩, s.go i .relocking) else none

/-- The transition relation over observations. -/
abbrev Step : Crew n → Label n → Crew n → Prop := observed next

end Mccp.Pipeline.Pause
