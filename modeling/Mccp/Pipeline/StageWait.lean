/-
  Mccp.Pipeline.StageWait
  ───────────────────────
  **WAITING FOR A STAGE: ONE WORKER AFTER THE OTHER.**

  s_wait_stage() waits for the workers in turn.  With a deadline it goes on as
  long as `w`, the time it gives to the next worker, is positive; after each
  wait `w` becomes the time the wait has taken.  A wait that takes no time on
  the clock ends the loop early, with the OK of the last wait.

      waitLoop             — the loop with a deadline
      sWaitStage           — s_wait_stage(): the result, and the waits it made
      stageWait            — mccp_pipeline_stage_wait() on a started stage
      waitLoop_thorough    — when an OK of the loop means all the workers
      wait_stage_thorough_iff — the same for the whole of the wait
-/
import Mathlib.Data.List.Nodup
import Mathlib.Data.List.Range
import Mccp.Pipeline.Stage

namespace Mccp.Pipeline

open Gstate (GraceLevel)

/-! ## §1. The wait. -/

/-- What the outside decides during a wait: the clock before and after the wait
for each worker, and what each s_worker_wait() returns. -/
structure WaitEnv where
  w_begin : Nat → Int
  w_end : Nat → Int
  workerWait : Nat → Result

/-- The time the wait for a worker has taken, on the clock. -/
def WaitEnv.elapsed (env : WaitEnv) (i : Nat) : Int := env.w_end i - env.w_begin i

/-- A call of s_worker_wait(). -/
structure Wait where
  worker : Nat
  nsec : Int
  ret : Result
  deriving DecidableEq, Repr

/-- The loop of `s_wait_stage` with a deadline, from worker `i` on, with `rest`
workers to go. -/
def waitLoop (env : WaitEnv) : (rest i : Nat) → (w : Int) → Result × List Wait
  | 0, _, _ => (.ok, [])
  | rest + 1, i, w =>
      if 0 < w then
        let ret := env.workerWait i
        if ret = .ok then
          let (r, waits) := waitLoop env rest (i + 1) (env.elapsed i)
          (r, { worker := i, nsec := w, ret := ret } :: waits)
        else (ret, [{ worker := i, nsec := w, ret := ret }])
      else (.ok, [])

/-- `s_wait_stage` on a stage that is not NULL: the result, and the waits made. -/
def sWaitStage (env : WaitEnv) (n : Nat) (nsec : Int) (is_in_destroy : Bool) :
    Result × List Wait :=
  if is_in_destroy = false ∧ 0 < nsec then waitLoop env n 0 nsec
  else (.ok, (List.range n).map fun i => { worker := i, nsec := -1, ret := env.workerWait i })

/-- `s_worker_finalize`: what the end of a worker does to the counters. -/
def sWorkerFinalize (ps : StageRecord) (is_canceled : Bool) : StageRecord :=
  let ps := if is_canceled then { ps with m_n_canceled_workers := ps.m_n_canceled_workers + 1 }
            else ps
  { ps with m_n_shutdown_workers := ps.m_n_shutdown_workers + 1 }

/-- What mccp_pipeline_stage_wait() comes to: a result and the record, with the
arguments of `m_final_proc` and `m_shutdown_proc` where they are called; or the
end of the process. -/
inductive StageWaitOutcome where
  | returned (ret : Result) (ps : StageRecord) (procs : Option (Bool × GraceLevel))
  | exitFatal (msg : String)
  deriving DecidableEq, Repr

/-- `mccp_pipeline_stage_wait` on a stage; `ends` are the workers that have
finished when the counters are read, in order, and whether by a cancelation. -/
def stageWait (env : WaitEnv) (ps : StageRecord) (ends : List (Nat × Bool)) (nsec : Int) :
    StageWaitOutcome :=
  if ps.m_status = .started then
    let ret := (sWaitStage env ps.m_n_workers nsec false).1
    let ps := (ends.map Prod.snd).foldl sWorkerFinalize ps
    let n_shutdown := ps.m_n_shutdown_workers
    let n_canceled := ps.m_n_canceled_workers
    if ret = .ok then
      if n_shutdown = ps.m_n_workers then
        let status : StageState := if 0 < n_canceled then .canceled else .shutdown
        .returned ret { ps with m_status := status, m_do_loop := false }
          (some (decide (0 < n_canceled), ps.m_sg_lvl))
      else
        .exitFatal ("must not happen, waiting for all the worker exit succeeded but the number " ++
          "of the exited workers and the number of succeeded API calls differ on stage '" ++
          ps.m_name.getD "(null)" ++ "'\n")
    else .returned ret ps none
  else .returned .invalidStateTransition ps none

/-! ## §2. Waiting for all the workers. -/

variable {env : WaitEnv}

/-- The wait for this worker was made, and returned OK. -/
def WaitedFor (waits : List Wait) (i : Nat) : Prop :=
  ∃ wait ∈ waits, wait.worker = i ∧ wait.ret = .ok

/-- No wait but the last takes no time on the clock, if all went well so far. -/
def TakesTime (env : WaitEnv) (i n : Nat) : Prop :=
  ∀ j, i ≤ j → j + 1 < n → (∀ k, i ≤ k → k ≤ j → env.workerWait k = .ok) → 0 < env.elapsed j

theorem waitedFor_cons {wait : Wait} {waits : List Wait} {j : Nat} (h : wait.worker ≠ j) :
    WaitedFor (wait :: waits) j ↔ WaitedFor waits j := by
  unfold WaitedFor
  constructor
  · intro hex
    obtain ⟨v, hv, hj, hok⟩ := hex
    rcases List.mem_cons.mp hv with rfl | hv
    · exact absurd hj h
    · exact ⟨v, hv, hj, hok⟩
  · intro hex
    obtain ⟨v, hv, hj, hok⟩ := hex
    exact ⟨v, List.mem_cons_of_mem _ hv, hj, hok⟩

/-- A wait that went well and took its time leaves the rest to the next ones. -/
theorem takesTime_succ {i n : Nat} (hret : env.workerWait i = .ok) (htime : 0 < env.elapsed i) :
    TakesTime env i n ↔ TakesTime env (i + 1) n := by
  constructor
  · intro h j hij hj hok
    refine h j (by omega) hj fun k hik hkj => ?_
    by_cases hk : k = i
    · rw [hk]
      exact hret
    · exact hok k (by omega) hkj
  · intro h j hij hj hok
    by_cases hji : j = i
    · rw [hji]
      exact htime
    · exact h j (by omega) hj fun k hik hkj => hok k (by omega) hkj

/-- Without time left the loop ends, with the OK it has. -/
theorem waitLoop_of_not_pos {rest i : Nat} {w : Int} (hw : ¬ 0 < w) :
    waitLoop env rest i w = (.ok, []) := by
  cases rest with
  | zero => rfl
  | succ rest => rw [waitLoop, if_neg hw]

/-- **The loop waits for every worker exactly when no wait on its way takes no
time.**  Induction on the workers to go; a wait without time leaves the next
worker unvisited. -/
theorem waitLoop_thorough (rest : Nat) : ∀ (i : Nat) (w : Int), 0 < w →
    (((waitLoop env rest i w).1 = .ok →
        ∀ j, i ≤ j → j < i + rest → WaitedFor (waitLoop env rest i w).2 j) ↔
      TakesTime env i (i + rest)) := by
  induction rest with
  | zero =>
    intro i w _
    constructor
    · intro _ j hij hj
      omega
    · intro _ _ j hij hj
      omega
  | succ rest ih =>
    intro i w hw
    by_cases hret : env.workerWait i = .ok
    · have hloop : waitLoop env (rest + 1) i w =
          ((waitLoop env rest (i + 1) (env.elapsed i)).1,
            { worker := i, nsec := w, ret := .ok } ::
              (waitLoop env rest (i + 1) (env.elapsed i)).2) := by
        rw [waitLoop, if_pos hw]
        simp only [hret, if_pos]
      rw [hloop]
      by_cases htime : 0 < env.elapsed i
      · -- the loop goes on with the next worker
        have hsum : i + (rest + 1) = i + 1 + rest := by omega
        rw [takesTime_succ hret htime, hsum, ← ih (i + 1) (env.elapsed i) htime]
        refine imp_congr_right fun _ => ?_
        constructor
        · intro h j hij hj
          exact (waitedFor_cons (show i ≠ j by omega)).mp (h j (by omega) hj)
        · intro h j hij hj
          by_cases hji : j = i
          · exact ⟨_, List.mem_cons_self, hji.symm, rfl⟩
          · exact (waitedFor_cons (show i ≠ j by omega)).mpr (h j (by omega) hj)
      · -- the loop ends here: right only if there is no worker left
        rw [waitLoop_of_not_pos htime]
        cases rest with
        | zero =>
          refine iff_of_true ?_ ?_
          · intro _ j hij hj
            exact ⟨_, List.mem_cons_self, show i = j by omega, rfl⟩
          · intro j hij hj
            omega
        | succ rest =>
          refine iff_of_false ?_ ?_
          · intro h
            obtain ⟨v, hv, hworker, -⟩ := h rfl (i + 1) (by omega) (by omega)
            rw [List.mem_singleton] at hv
            subst hv
            exact absurd hworker (by simp)
          · intro h
            refine htime (h i (Nat.le_refl i) (by omega) fun k hik hki => ?_)
            rw [show k = i by omega]
            exact hret
    · -- the wait for worker i fails, and so does the whole
      have hloop : (waitLoop env (rest + 1) i w).1 = env.workerWait i := by
        rw [waitLoop, if_pos hw]
        simp only [if_neg hret]
      rw [hloop]
      apply iff_of_true (fun h => absurd h hret)
      intro j hij _ hok
      exact absurd (hok i (Nat.le_refl i) hij) hret

/-- **When an OK of s_wait_stage means all the workers**: with a deadline, no
wait but the last takes no time; without one, every wait goes well. -/
def Thorough (env : WaitEnv) (n : Nat) (nsec : Int) (is_in_destroy : Bool) : Prop :=
  if is_in_destroy = false ∧ 0 < nsec then TakesTime env 0 n
  else ∀ i, i < n → env.workerWait i = .ok

theorem sWaitStage_thorough {n : Nat} {nsec : Int} {is_in_destroy : Bool} :
    ((sWaitStage env n nsec is_in_destroy).1 = .ok →
      ∀ i, i < n → WaitedFor (sWaitStage env n nsec is_in_destroy).2 i) ↔
    Thorough env n nsec is_in_destroy := by
  unfold sWaitStage Thorough
  by_cases hd : is_in_destroy = false ∧ 0 < nsec
  · rw [if_pos hd, if_pos hd]
    have hloop := @waitLoop_thorough env n 0 nsec hd.2
    rw [Nat.zero_add] at hloop
    rw [← hloop]
    refine imp_congr_right (fun _ => forall_congr' (fun i => ?_))
    exact ⟨fun h _ hi => h hi, fun h => h (by omega)⟩
  · rw [if_neg hd, if_neg hd]
    constructor
    · intro h i hi
      obtain ⟨v, hv, hworker, hok⟩ := h rfl i hi
      obtain ⟨k, -, rfl⟩ := List.mem_map.mp hv
      rw [← hworker]
      exact hok
    · intro h _ i hi
      exact ⟨_, List.mem_map.mpr ⟨i, List.mem_range.mpr hi, rfl⟩, rfl, h i hi⟩

/-! ## §3. The counters. -/

/-- Every finished worker is counted once. -/
theorem sWorkerFinalize_count (ends : List Bool) : ∀ (ps : StageRecord),
    (ends.foldl sWorkerFinalize ps).m_n_shutdown_workers = ps.m_n_shutdown_workers + ends.length ∧
    (ends.foldl sWorkerFinalize ps).m_n_workers = ps.m_n_workers := by
  induction ends with
  | nil =>
    intro ps
    exact ⟨rfl, rfl⟩
  | cons e ends ih =>
    intro ps
    obtain ⟨hcount, hworkers⟩ := ih (sWorkerFinalize ps e)
    have hone : (sWorkerFinalize ps e).m_n_shutdown_workers = ps.m_n_shutdown_workers + 1 := by
      unfold sWorkerFinalize
      cases e <;> rfl
    have hsame : (sWorkerFinalize ps e).m_n_workers = ps.m_n_workers := by
      unfold sWorkerFinalize
      cases e <;> rfl
    rw [List.foldl_cons, List.length_cons, hcount, hworkers, hone, hsame]
    exact ⟨by omega, rfl⟩

/-- As many ends as workers, when all of them have finished. -/
theorem ends_length {n : Nat} {ends : List (Nat × Bool)} (honce : (ends.map Prod.fst).Nodup)
    (hworkers : ∀ i ∈ ends.map Prod.fst, i < n) (hall : ∀ i, i < n → i ∈ ends.map Prod.fst) :
    ends.length = n := by
  have hperm : (ends.map Prod.fst).Perm (List.range n) := by
    rw [List.perm_ext_iff_of_nodup honce List.nodup_range]
    intro i
    rw [List.mem_range]
    exact ⟨hworkers i, hall i⟩
  have hlen := hperm.length_eq
  rwa [List.length_map, List.length_range] at hlen

/-- **A successful stage wait has waited for everybody exactly when it is
thorough**, and then the counts agree.  Each worker finishes once since the
start (`honce`), and a wait for a worker returns OK only after that. -/
theorem wait_stage_thorough_iff {ps : StageRecord} {ends : List (Nat × Bool)} {nsec : Int}
    {is_in_destroy : Bool} (hstart : ps.m_n_shutdown_workers = 0)
    (honce : (ends.map Prod.fst).Nodup) (hworkers : ∀ i ∈ ends.map Prod.fst, i < ps.m_n_workers)
    (hwaited : ∀ i, WaitedFor (sWaitStage env ps.m_n_workers nsec false).2 i →
      i ∈ ends.map Prod.fst) :
    (((sWaitStage env ps.m_n_workers nsec is_in_destroy).1 = .ok →
        ∀ i, i < ps.m_n_workers →
          WaitedFor (sWaitStage env ps.m_n_workers nsec is_in_destroy).2 i) ∧
      (is_in_destroy = false → ∀ msg, stageWait env ps ends nsec ≠ .exitFatal msg)) ↔
    Thorough env ps.m_n_workers nsec is_in_destroy := by
  rw [← sWaitStage_thorough]
  refine ⟨And.left, fun h => ⟨h, ?_⟩⟩
  intro heq msg
  subst heq
  obtain ⟨hcount, hsame⟩ := sWorkerFinalize_count (ends.map Prod.snd) ps
  unfold stageWait
  split
  · by_cases hret : (sWaitStage env ps.m_n_workers nsec false).1 = .ok
    · -- all the workers have been waited for, so all have been counted
      have hlen := ends_length honce hworkers fun i hi => hwaited i (h hret i hi)
      have hagree : ((ends.map Prod.snd).foldl sWorkerFinalize ps).m_n_shutdown_workers =
          ((ends.map Prod.snd).foldl sWorkerFinalize ps).m_n_workers := by
        rw [hcount, hsame, hstart, List.length_map, hlen, Nat.zero_add]
      simp only [hret, if_pos, hagree]
      exact StageWaitOutcome.noConfusion
    · simp only [if_neg hret]
      exact StageWaitOutcome.noConfusion
  · exact StageWaitOutcome.noConfusion

/-- Two workers, and a clock that moves. -/
theorem wait_stage_two_workers :
    ∃ (env : WaitEnv) (ps : StageRecord) (ends : List (Nat × Bool)),
      stageWait env ps ends 100 = .returned .ok
        { ps with m_status := .shutdown, m_n_shutdown_workers := 2 } (some (false, .unknown)) ∧
      ∀ i, i < 2 → WaitedFor (sWaitStage env 2 100 false).2 i := by
  let env : WaitEnv := { w_begin := fun i => 10 * i, w_end := fun i => 10 * i + 5
                         workerWait := fun _ => .ok }
  let ps : StageRecord := { StageRecord.zero with m_n_workers := 2, m_status := .started }
  have htime : Thorough env 2 100 false := by
    intro j _ _ _
    show 0 < 10 * (j : Int) + 5 - 10 * j
    omega
  refine ⟨env, ps, [(1, false), (0, false)], rfl, ?_⟩
  have hends : ∀ i, WaitedFor (sWaitStage env 2 100 false).2 i → i ∈ [1, 0] := by
    intro i hex
    obtain ⟨v, hv, rfl, -⟩ := hex
    rw [show (sWaitStage env 2 100 false).2
      = [⟨0, 100, .ok⟩, ⟨1, 5, .ok⟩] from rfl] at hv
    rcases List.mem_cons.mp hv with rfl | hv
    · decide
    · rw [List.mem_singleton.mp hv]
      decide
  have hiff := @wait_stage_thorough_iff env ps [(1, false), (0, false)] 100 false rfl
    (by decide) (by decide) hends
  exact (hiff.mpr htime).1 rfl

/-- Two workers, and a clock that shows the same time before and after the wait
for the first one: the second, still running, is not waited for, and the stage
wait stops the process. -/
theorem second_worker_not_waited_for :
    ∃ (env : WaitEnv) (ps : StageRecord) (ends : List (Nat × Bool)) (msg : String),
      ps.m_n_shutdown_workers = 0 ∧ (ends.map Prod.fst).Nodup ∧
      (∀ i, WaitedFor (sWaitStage env ps.m_n_workers 100 false).2 i → i ∈ ends.map Prod.fst) ∧
      sWaitStage env ps.m_n_workers 100 false = (.ok, [{ worker := 0, nsec := 100, ret := .ok }]) ∧
      ps.m_n_workers = 2 ∧ stageWait env ps ends 100 = .exitFatal msg := by
  let env : WaitEnv := { w_begin := fun _ => 7, w_end := fun _ => 7, workerWait := fun _ => .ok }
  let ps : StageRecord := { StageRecord.zero with m_n_workers := 2, m_status := .started }
  refine ⟨env, ps, [(0, false)], _, rfl, by decide, ?_, rfl, rfl, rfl⟩
  intro i hex
  obtain ⟨v, hv, rfl, -⟩ := hex
  rw [show (sWaitStage env ps.m_n_workers 100 false).2 = [⟨0, 100, .ok⟩] from rfl] at hv
  rw [List.mem_singleton.mp hv]
  decide

end Mccp.Pipeline
