/-
  Mccp.Pipeline.Start
  ───────────────────
  **THE LIFE OF A STAGE: SETUP, START, CANCEL, SHUTDOWN AND WAIT.**

  The calls of pipeline_stage.c on one stage, and the runs of its workers.  A
  call holds `m_lock`, so one call is on its way at a time; a start begins its
  workers one by one, and the workers already begun run meanwhile.  When a
  worker cannot be started, the others are cancelled and waited for.

      sCancelStage  — s_cancel_stage()
      workerStep    — WORKER_LOOP, from a worker's first look at `m_do_loop`
      Worker.ends   — s_worker_finalize()
      apiStep       — the calls
      next          — one step of all (executable)

  A worker is followed from the opening on (`Mccp.Gstate.Opening` is about what
  comes before).  The round of procedures is one step, and the barrier of a
  pause lets through whoever is at it (`Mccp.Pipeline.Pause` has both in full).
-/
import Mathlib.Data.Fintype.Card
import Mathlib.Data.Fintype.EquivFin
import Mccp.Lib.Transition
import Mccp.Pipeline.StageWait

namespace Mccp.Pipeline.Start

open Transition
open Gstate (GraceLevel)

/-! ## §1. Workers and calls. -/

/-- Where the run of a worker is; `called` tells whether it has called its
first procedure. -/
inductive Place where
  /-- No run of this start. -/
  | absent
  /-- The loop's condition: `m_do_loop`, then `st` and `m_sg_lvl`. -/
  | head (called : Bool)
  | level (called : Bool)
  /-- About to look at `m_pause_requested`. -/
  | test (called : Bool)
  /-- In the procedures. -/
  | executing
  /-- In `s_worker_pause`. -/
  | pausing (called : Bool)
  /-- Out of the loop. -/
  | left (called : Bool)
  /-- Finalized. -/
  | ended (called isCanceled : Bool)
  deriving DecidableEq, Repr

/-- A worker: its place, the `st` of its loop, and whether a cancelation of its
run is pending. -/
structure Worker where
  place : Place
  st : Result
  cancelPending : Bool
  deriving DecidableEq, Repr

/-- A worker that has no run. -/
def Worker.idle : Worker where
  place := .absent
  st := 0
  cancelPending := false

/-- A worker whose thread has just been started. -/
def Worker.begun : Worker where
  place := .head false
  st := 0
  cancelPending := false

/-- The run has been finalized. -/
def Place.isEnded : Place → Bool
  | .ended _ _ => true
  | _ => false

/-- The run has been cancelled and finalized. -/
def Place.isCanceled : Place → Bool
  | .ended _ isCanceled => isCanceled
  | _ => false

/-- The run is under way. -/
def Place.isRunning : Place → Bool
  | .absent => false
  | .ended _ _ => false
  | _ => true

/-- The first procedure of the run has been called. -/
def Place.hasCalled : Place → Bool
  | .absent => false
  | .head called => called
  | .level called => called
  | .test called => called
  | .executing => true
  | .pausing called => called
  | .left called => called
  | .ended called _ => called

/-- Where the call is that holds `m_lock`. -/
inductive ApiPlace where
  | idle
  /-- In mccp_pipeline_stage_start(), about to start worker `i`. -/
  | starting (i : Nat)
  /-- In it, waiting for the workers after the start of one has failed. -/
  | cleaning (ret : Result)
  /-- In mccp_pipeline_stage_pause(), waiting for the workers. -/
  | pausing
  deriving DecidableEq, Repr

/-- A stage with `n` workers. -/
structure System (n : Nat) where
  stage : StageRecord
  isStage : Bool
  worker : Fin n → Worker
  api : ApiPlace
  halted : Bool

/-- A stage that has just been created. -/
def System.created (n : Nat) : System n where
  stage := { StageRecord.zero with m_n_workers := n, m_status := .initialized }
  isStage := true
  worker := fun _ => .idle
  api := .idle
  halted := false

/-- What a scheduler can choose. -/
inductive Action (n : Nat) where
  /-- mccp_pipeline_stage_setup(), and what `m_setup_proc` returns, if given. -/
  | setup (ret : Option Result)
  | start
  /-- The start goes on: s_worker_start() of the next worker returns `ret`. -/
  | startWorker (ret : Result)
  /-- The start ends: all workers started, or all the others waited for. -/
  | endStart
  | cancel
  | shutdown (lvl : GraceLevel)
  /-- mccp_pipeline_stage_wait(), where s_wait_stage() returns `ret`. -/
  | wait (ret : Result)
  | pause
  /-- The wait of a pause ends. -/
  | endPause (ret : Result)
  | resume
  | destroy
  /-- A worker makes its next step; `ret` is the result of its procedures, and
  `isMaster` what the barrier tells it. -/
  | worker (i : Fin n) (ret : Result) (isMaster : Bool)
  /-- A pending cancelation is acted on. -/
  | actCancel (i : Fin n)
  deriving DecidableEq, Repr

/-- What is seen of a step. -/
inductive Outcome where
  | quiet
  | returned (ret : Result)
  | exited (msg : String)
  deriving DecidableEq, Repr

/-- A choice and what is seen of it. -/
structure Label (n : Nat) where
  action : Action n
  outcome : Outcome
  deriving DecidableEq, Repr

variable {n : Nat}

/-! ## §2. The calls. -/

/-- `s_cancel_stage` over the first `k` workers: each of them that runs gets a
cancelation, and then an immediate shutdown is mimicked. -/
def sCancelStage (s : System n) (k : Nat) : System n :=
  { s with
    worker := fun i =>
      if i.val < k ∧ (s.worker i).place.isRunning then { s.worker i with cancelPending := true }
      else s.worker i
    stage := { s.stage with m_sg_lvl := .rightNow, m_do_loop := false } }

/-- The states in which a stage can be started. -/
def StageState.canStart (st : StageState) : Bool :=
  st = .initialized ∨ st = .setup ∨ st = .finalized

/-- `mccp_pipeline_stage_setup`. -/
def setup (s : System n) (ret : Option Result) : Outcome × System n :=
  if s.stage.m_status = .initialized then
    match ret with
    | some ret =>
        if ret = .ok then (.returned ret, { s with stage := { s.stage with m_status := .setup } })
        else (.returned ret, s)
    | none => (.returned .anyFailures, s)
  else if s.stage.m_status = .setup then (.returned .ok, s)
  else (.returned .invalidStateTransition, s)

/-- `mccp_pipeline_stage_start` up to its loop. -/
def start (s : System n) : Outcome × System n :=
  if StageState.canStart s.stage.m_status then
    (.quiet, { s with
      stage := { s.stage with
        m_n_canceled_workers := 0
        m_n_shutdown_workers := 0
        m_do_loop := true }
      api := .starting 0 })
  else (.returned .invalidStateTransition, s)

/-- A round of the loop of `mccp_pipeline_stage_start`; the failure of a worker
ends it, and cancels the workers up to and with this one. -/
def startWorker (s : System n) (i : Fin n) (ret : Result) : System n :=
  if ret = .ok then
    { s with
      worker := Function.update s.worker i .begun
      api := .starting (i.val + 1) }
  else { sCancelStage s (i.val + 1) with api := .cleaning ret }

/-- `mccp_pipeline_stage_cancel`. -/
def cancel (s : System n) : Outcome × System n :=
  if s.stage.m_status = .started then (.returned .ok, sCancelStage s n)
  else (.returned .invalidStateTransition, s)

/-- `mccp_pipeline_stage_shutdown`. -/
def shutdown (s : System n) (lvl : GraceLevel) : Outcome × System n :=
  if s.stage.m_status = .started ∨ s.stage.m_status = .paused ∨ s.stage.m_status = .singled then
    -- s_resume_stage() of a paused stage, which clears the request
    let paused : Bool := s.stage.m_status = .paused
    let s := { s with stage := { s.stage with
      m_status := .started
      m_pause_requested := if paused then false else s.stage.m_pause_requested
      m_sg_lvl := lvl } }
    (.returned .ok, if lvl = .rightNow then sCancelStage s n else s)
  else (.returned .invalidStateTransition, s)

/-- `mccp_pipeline_stage_wait` once s_wait_stage() has returned. -/
def wait (s : System n) (ret : Result) : Outcome × System n :=
  if s.stage.m_status = .started then
    if ret = .ok then
      if s.stage.m_n_shutdown_workers = s.stage.m_n_workers then
        -- a single canceled worker makes the whole stage canceled
        let status : StageState := if 0 < s.stage.m_n_canceled_workers then .canceled else .shutdown
        (.returned ret, { s with stage := { s.stage with m_status := status, m_do_loop := false } })
      else (.exited "must not happen", { s with halted := true })
    else (.returned ret, s)
  else (.returned .invalidStateTransition, s)

/-- `mccp_pipeline_stage_pause` up to its wait. -/
def pause (s : System n) : Outcome × System n :=
  if s.stage.m_status = .started then
    (.quiet, { s with stage := { s.stage with m_pause_requested := true }, api := .pausing })
  else if s.stage.m_status = .paused then (.returned .ok, s)
  else (.returned .invalidStateTransition, s)

/-- `mccp_pipeline_stage_pause` from the end of its wait on. -/
def endPause (s : System n) (ret : Result) : Outcome × System n :=
  -- a pause that timed out leaves its request behind
  if ret ≠ .ok ∧ ret ≠ .timedout then
    (.returned ret,
      { s with stage := { s.stage with m_pause_requested := false }, api := .idle })
  else (.returned ret, { s with api := .idle })

/-- `mccp_pipeline_stage_resume`. -/
def resume (s : System n) : Outcome × System n :=
  if s.stage.m_status = .paused then
    (.returned .ok,
      { s with stage := { s.stage with m_pause_requested := false, m_status := .started } })
  else if s.stage.m_status = .started then (.returned .ok, s)
  else (.returned .invalidStateTransition, s)

/-- `mccp_pipeline_stage_destroy`; nothing calls the stage any more. -/
def destroy (s : System n) : Outcome × System n :=
  let s := sCancelStage { s with stage := { s.stage with m_status := .destroying } } n
  (.returned .ok, { s with isStage := false })

/-! ## §3. The workers. -/

/-- The stage with a worker moved. -/
def System.move (s : System n) (i : Fin n) (p : Place) : System n :=
  { s with worker := Function.update s.worker i { s.worker i with place := p } }

/-- The end of a run: `s_worker_finalize`. -/
def System.finalize (s : System n) (i : Fin n) (isCanceled : Bool) : System n :=
  { s.move i (.ended (s.worker i).place.hasCalled isCanceled) with
    stage := sWorkerFinalize s.stage isCanceled }

/-- `WORKER_LOOP`, `s_worker_pause` and the end of a run. -/
def workerStep (s : System n) (i : Fin n) (ret : Result) (isMaster : Bool) : Option (System n) :=
  match (s.worker i).place with
  | .absent => none
  | .head called => some (s.move i (if s.stage.m_do_loop then .level called else .left called))
  | .level called =>
      let st := (s.worker i).st
      some (s.move i
        (if 0 < st ∨ (st = 0 ∧ s.stage.m_sg_lvl = .unknown) then .test called else .left called))
  | .test called =>
      some (s.move i (if s.stage.m_pause_requested = false then .executing else .pausing called))
  | .executing =>
      let s := { s with worker := Function.update s.worker i { s.worker i with st := ret } }
      some (s.move i (if ret < 0 then .left true else .head true))
  | .pausing called =>
      let s := if isMaster then { s with stage := { s.stage with m_status := .paused } } else s
      -- the worker sleeps as long as the request stands
      some (if s.stage.m_pause_requested then s else s.move i (.head called))
  | .left _ => some (s.finalize i false)
  | .ended _ _ => none

/-! ## §4. All of them. -/

/-- A call that finds `m_lock` free, on a stage that is one. -/
def ifFree (s : System n) (a : Action n) (f : Outcome × System n) : Option (Label n × System n) :=
  match s.api with
  | .idle =>
      if s.isStage then some (⟨a, f.1⟩, f.2) else some (⟨a, .returned .invalidObject⟩, s)
  | _ => none

/-- The steps of a start and of a pause under way. -/
def goOn (s : System n) (a : Action n) : Option (Label n × System n) :=
  match s.api, a with
  | .starting k, .startWorker ret =>
      if hk : k < n then some (⟨a, .quiet⟩, startWorker s ⟨k, hk⟩ ret) else none
  | .starting k, .endStart =>
      if n ≤ k then
        some (⟨a, .returned .ok⟩,
          { s with stage := { s.stage with m_status := .started }, api := .idle })
      else none
  | .cleaning ret, .endStart =>
      -- s_wait_stage() without a deadline: no run is under way any more
      if ∀ i, (s.worker i).place.isRunning = false then
        some (⟨a, .returned ret⟩, { s with
          stage := { s.stage with m_n_canceled_workers := 0, m_n_shutdown_workers := 0 }
          worker := fun _ => .idle
          api := .idle })
      else none
  | .pausing, .endPause ret =>
      let (o, s) := endPause s ret
      some (⟨a, o⟩, s)
  | _, _ => none

/-- **One step**; `none` when the choice is not open. -/
def next (s : System n) (a : Action n) : Option (Label n × System n) :=
  if s.halted then none else
  match a with
  | .setup ret => ifFree s a (setup s ret)
  | .start => ifFree s a (start s)
  | .cancel => ifFree s a (cancel s)
  | .shutdown lvl => ifFree s a (shutdown s lvl)
  | .wait ret => ifFree s a (wait s ret)
  | .pause => ifFree s a (pause s)
  | .resume => ifFree s a (resume s)
  | .destroy => ifFree s a (destroy s)
  | .startWorker ret => goOn s (.startWorker ret)
  | .endStart => goOn s .endStart
  | .endPause ret => goOn s (.endPause ret)
  | .worker i ret isMaster => (workerStep s i ret isMaster).map fun s' => (⟨a, .quiet⟩, s')
  | .actCancel i =>
      if (s.worker i).cancelPending ∧ (s.worker i).place.isRunning then
        some (⟨a, .quiet⟩, s.finalize i true)
      else none

/-- The transition relation. -/
abbrev Step : System n → Label n → System n → Prop := observed next

end Mccp.Pipeline.Start
