/-
  Mccp.Pipeline.Stage
  ───────────────────
  **THE RECORD OF A PIPELINE STAGE, AND ITS INITIALISATION.**

  mccp_pipeline_stage_internal.h and s_init_stage() of pipeline_stage.c.  The
  locks, conditions and workers of a stage are calls into other modules;
  `InitEnv` holds what they return.

      StageRecord       — the fields that the modelled code reads
      findWorkerProc    — s_find_worker_proc()
      initStage         — s_init_stage(): a result and the record it leaves
-/
import Mathlib.Logic.Function.Basic
import Mccp.Gstate.Tracker

namespace Mccp.Pipeline

open Gstate (GraceLevel)

/-! ## §1. The record. -/

/-- `mccp_pipeline_stage_state_t`. -/
inductive StageState where
  | unknown
  | initialized
  | setup
  | started
  | paused
  | singled
  | canceled
  | shutdown
  | finalized
  | destroying
  deriving DecidableEq, Repr

/-- `mccp_pipeline_stage_record`. -/
structure StageRecord where
  m_name : Option String
  m_n_workers : Nat
  m_event_size : Nat
  m_max_batch : Nat
  m_is_heap_allocd : Bool
  m_do_loop : Bool
  m_sg_lvl : GraceLevel
  m_status : StageState
  m_n_canceled_workers : Nat
  m_n_shutdown_workers : Nat
  m_pause_requested : Bool
  deriving DecidableEq, Repr

/-- A record of zero bytes. -/
def StageRecord.zero : StageRecord where
  m_name := none
  m_n_workers := 0
  m_event_size := 0
  m_max_batch := 0
  m_is_heap_allocd := false
  m_do_loop := false
  m_sg_lvl := .unknown
  m_status := .unknown
  m_n_canceled_workers := 0
  m_n_shutdown_workers := 0
  m_pause_requested := false

/-- `IS_VALID_STRING`. -/
def isValidString (x : Option String) : Bool := x ≠ none ∧ x ≠ some ""

/-! ## §2. The workers' main procedure. -/

/-- `worker_main_proc_t`. -/
inductive WorkerProc where
  | f_m_t
  | f_m
  | m_t
  | m
  deriving DecidableEq, Repr

/-- `s_find_worker_proc`; each argument tells whether the procedure is given. -/
def findWorkerProc (fetch_proc main_proc throw_proc : Bool) : Option WorkerProc :=
  match fetch_proc, main_proc, throw_proc with
  | true, true, true => some .f_m_t
  | true, true, false => some .f_m
  | false, true, true => some .m_t
  | false, true, false => some .m
  | _, false, _ => none

/-! ## §3. The initialisation. -/

/-- What the calls of `s_init_stage` return. -/
structure InitEnv where
  /-- m_lock, m_final_lock and m_cond, in the order of their creation. -/
  locks : List Result
  /-- m_pause_barrier, when it has threads to count. -/
  barrier : Result
  /-- m_pause_lock, m_pause_cond and m_resume_cond. -/
  pauseLocks : List Result
  strdup : Bool
  /-- The malloc() of `m_workers`. -/
  workers : Bool
  workerCreate : Nat → Result

/-- The arguments of `mccp_pipeline_stage_create` that it reads; of each
procedure, whether it is given.  `sptr` is what the caller's pointer points to. -/
structure Args (α : Type) where
  sptr : Option (Option α)
  name : Option String
  n_workers : Nat
  event_size : Nat
  max_batch_size : Nat
  sched_proc : Bool
  fetch_proc : Bool
  main_proc : Bool
  throw_proc : Bool
  deriving DecidableEq, Repr

/-- The first result of a list that is not OK; OK when there is none. -/
def firstFailure : List Result → Result
  | [] => .ok
  | r :: rs => if r = .ok then firstFailure rs else r

/-- `mccp_barrier_create`: it refuses a barrier for no threads. -/
def barrierCreate (made : Result) (n : Nat) : Result := if 0 < n then made else .invalidArgs

/-- The creations of `s_init_stage`, in their order. -/
def InitEnv.creations (env : InitEnv) (n_workers : Nat) : List Result :=
  env.locks ++ barrierCreate env.barrier n_workers :: env.pauseLocks

/-- `s_init_stage` on a stage that is not NULL: the result, and the record
found as `old`. -/
def initStage {α : Type} (env : InitEnv) (a : Args α) (is_heap_allocd : Bool)
    (old : StageRecord) : Result × StageRecord :=
  match findWorkerProc a.fetch_proc a.main_proc a.throw_proc with
  | some _ =>
      let ps := StageRecord.zero
      let ret := firstFailure (env.creations a.n_workers)
      if ret = .ok then
        -- the record is filled only after all locks exist
        if env.strdup ∧ env.workers then
          let ps := { ps with
            m_name := a.name
            m_event_size := a.event_size
            m_max_batch := a.max_batch_size }
          let ret := firstFailure ((List.range a.n_workers).map env.workerCreate)
          if ret = .ok then
            (.ok, { ps with
              m_n_workers := a.n_workers
              m_is_heap_allocd := is_heap_allocd
              m_do_loop := false
              m_sg_lvl := .unknown
              m_status := .initialized
              m_n_canceled_workers := 0
              m_n_shutdown_workers := 0
              m_pause_requested := false })
          else (ret, ps)
        -- without a name or workers it has none
        else (.noMemory, { ps with m_name := none })
      else (ret, ps)
  | none => (.invalidArgs, old)

/-- An initialised stage has the name it was asked for. -/
theorem initStage_ok {α : Type} {env : InitEnv} {a : Args α} {is_heap_allocd : Bool}
    {old : StageRecord} (h : (initStage env a is_heap_allocd old).1 = .ok) :
    (initStage env a is_heap_allocd old).2.m_name = a.name := by
  unfold initStage at h ⊢
  cases hp : findWorkerProc a.fetch_proc a.main_proc a.throw_proc with
  | none => simp [hp, Result.ok, Result.invalidArgs] at h
  | some p =>
    simp only [hp] at h ⊢
    by_cases h1 : firstFailure (env.creations a.n_workers) = .ok
    · by_cases h2 : env.strdup ∧ env.workers
      · by_cases h3 : firstFailure ((List.range a.n_workers).map env.workerCreate) = .ok
        · rw [if_pos h1, if_pos h2, if_pos h3]
        · rw [if_pos h1, if_pos h2, if_neg h3]
      · rw [if_pos h1, if_neg h2] at h
        exact absurd h (by decide)
    · rw [if_neg h1] at h
      exact absurd h h1

end Mccp.Pipeline
