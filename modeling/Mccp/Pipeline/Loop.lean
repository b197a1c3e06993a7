/-
  Mccp.Pipeline.Loop
  ──────────────────
  **THE FOUR LOOPS OF THE WORKERS.**

  WORKER_LOOP of pipeline_worker.c and the four functions made of it.  All that
  is not the loop's own is the `Outside`: the flags of the stage that are seen
  at the loop's head, the pause, and the fetch, main and throw procedures, in
  a state of their own.

      ops                  — the procedures of one iteration
      loop, workerLoop     — WORKER_LOOP
      sWorkerFMT, …        — the four functions
      erase_workerLoop     — a procedure that passes its count on is not missed
      worker_loops_agree   — the four loops agree

  The loop need not end: it is run for some number of looks at its condition.
-/
import Mccp.Pipeline.Pause

namespace Mccp.Pipeline.Loop

open Gstate (GraceLevel)
open Pause (Proc procs)

/-! ## §1. What a worker sees. -/

/-- The flags of the stage at one look at the loop's condition, and `m_sg_lvl`
as it is read after the loop, where no other look comes before. -/
structure Flags where
  m_do_loop : Bool
  m_sg_lvl : GraceLevel
  m_pause_requested : Bool
  /-- Compared to SHUTDOWN_RIGHT_NOW, and then to SHUTDOWN_GRACEFULLY. -/
  m_sg_lvl_after : GraceLevel
  m_sg_lvl_after' : GraceLevel
  deriving DecidableEq, Repr

/-- The rest of the program, in a state of type `W`.  A procedure gets the index
of the worker and a number of events; the buffer is in the state. -/
structure Outside (W : Type) where
  look : W → Flags × W
  /-- `s_worker_pause`. -/
  pause : W → W
  /-- `m_fetch_proc`, `m_main_proc` and `m_throw_proc`. -/
  proc : Proc → Nat → Nat → W → Result × W

/-- What a worker does. -/
inductive Event where
  | look
  | pause
  | call (p : Proc) (n_evs : Nat) (ret : Result)
  deriving DecidableEq, Repr

/-- Where the iteration ends: with the next look, or out of the loop. -/
inductive Flow where
  | next
  | leave
  deriving DecidableEq, Repr

/-- One iteration. -/
structure Round (W : Type) where
  events : List Event
  st : Result
  flow : Flow
  world : W
  deriving DecidableEq

/-- Some looks; `ret` is `none` where the loop has not ended yet. -/
structure Trace (W : Type) where
  events : List Event
  ret : Option Result
  world : W
  deriving DecidableEq

/-- `mccp_pipeline_worker_record`; the stage is `none` where a pointer is NULL,
and its flags are those that `look` tells. -/
structure Worker where
  m_sptr : Option StageRecord
  m_idx : Nat
  deriving DecidableEq, Repr

/-! ## §2. The loops. -/

variable {W : Type}

/-- The round, after one more event. -/
def Round.after (e : Event) (r : Round W) : Round W := { r with events := e :: r.events }

/-- The trace, after some more events. -/
def Trace.after (es : List Event) (t : Trace W) : Trace W := { t with events := es ++ t.events }

/-- The procedures of one iteration: each gets the count that the one before it
has returned, as long as it is positive. -/
def ops (o : Outside W) (idx : Nat) : List Proc → Nat → Result → W → Round W
  | [], _, st, w => ⟨[], st, .next, w⟩
  | p :: ps, n_evs, _, w =>
      let (st, w) := o.proc p idx n_evs w
      let e := Event.call p n_evs st
      if 0 < st then (ops o idx ps st.toNat st w).after e
      else ⟨[e], st, if st < 0 then .leave else .next, w⟩

theorem ops_cons (o : Outside W) (idx : Nat) (p : Proc) (ps : List Proc) (n_evs : Nat)
    (st : Result) (w : W) :
    ops o idx (p :: ps) n_evs st w =
      let r := o.proc p idx n_evs w
      if 0 < r.1 then (ops o idx ps r.1.toNat r.1 r.2).after (.call p n_evs r.1)
      else ⟨[.call p n_evs r.1], r.1, if r.1 < 0 then .leave else .next, r.2⟩ :=
  rfl

/-- What the function returns after its loop. -/
def afterLoop (f : Flags) (st : Result) : Result :=
  if (f.m_sg_lvl_after = .rightNow ∨ f.m_sg_lvl_after' = .gracefully) ∧ 0 < st then .ok else st

/-- An iteration, and what `rest` makes of the looks after it. -/
def iterate (f : Flags) (r : Round W) (rest : Result → W → Trace W) : Trace W :=
  match r.flow with
  | .next => (rest r.st r.world).after (.look :: r.events)
  | .leave => ⟨.look :: r.events, some (afterLoop f r.st), r.world⟩

/-- The loop of `WORKER_LOOP`, for `fuel` looks at its condition. -/
def loop (o : Outside W) (body : Result → W → Round W) : Nat → Result → W → Trace W
  | 0, _, w => ⟨[], none, w⟩
  | fuel + 1, st, w =>
      let (f, w) := o.look w
      if f.m_do_loop = true ∧ (0 < st ∨ (st = 0 ∧ f.m_sg_lvl = .unknown)) then
        if f.m_pause_requested = false then iterate f (body st w) (loop o body fuel)
        else (loop o body fuel st (o.pause w)).after [.look, .pause]
      else ⟨[.look], some (afterLoop f st), w⟩

theorem loop_succ (o : Outside W) (body : Result → W → Round W) (fuel : Nat) (st : Result) (w : W) :
    loop o body (fuel + 1) st w =
      if (o.look w).1.m_do_loop = true ∧ (0 < st ∨ (st = 0 ∧ (o.look w).1.m_sg_lvl = .unknown)) then
        if (o.look w).1.m_pause_requested = false then
          iterate (o.look w).1 (body st (o.look w).2) (loop o body fuel)
        else (loop o body fuel st (o.pause (o.look w).2)).after [.look, .pause]
      else ⟨[.look], some (afterLoop (o.look w).1 st), (o.look w).2⟩ :=
  rfl

/-- `WORKER_LOOP`. -/
def workerLoop (ps : List Proc) (o : Outside W) (worker : Option Worker) (fuel : Nat) (w : W) :
    Trace W :=
  match worker with
  | some ⟨some stage, idx⟩ => loop o (ops o idx ps stage.m_max_batch) fuel 0 w
  | some ⟨none, _⟩ => ⟨[], some .invalidArgs, w⟩
  | none => ⟨[], some .invalidArgs, w⟩

/-- `s_worker_f_m_t`. -/
def sWorkerFMT : Outside W → Option Worker → Nat → W → Trace W :=
  workerLoop [.fetch, .main, .throw]

/-- `s_worker_f_m`. -/
def sWorkerFM : Outside W → Option Worker → Nat → W → Trace W := workerLoop [.fetch, .main]

/-- `s_worker_m_t`. -/
def sWorkerMT : Outside W → Option Worker → Nat → W → Trace W := workerLoop [.main, .throw]

/-- `s_worker_m`. -/
def sWorkerM : Outside W → Option Worker → Nat → W → Trace W := workerLoop [.main]

/-- The function that `s_find_worker_proc` has found. -/
def sWorkerMain : WorkerProc → Outside W → Option Worker → Nat → W → Trace W
  | .f_m_t => sWorkerFMT
  | .f_m => sWorkerFM
  | .m_t => sWorkerMT
  | .m => sWorkerM

/-- Each function goes through the procedures that a paused worker goes through. -/
theorem sWorkerMain_eq (q : WorkerProc) :
    sWorkerMain (W := W) q = workerLoop (procs q) := by
  cases q with
  | f_m_t => rfl
  | f_m => rfl
  | m_t => rfl
  | m => rfl

/-! ## §3. Procedures that pass their count on. -/

/-- The procedure `p` returns the count that it gets, and does nothing. -/
def Outside.passing (o : Outside W) (p : Proc) : Outside W :=
  { o with proc := Function.update o.proc p fun _ n_evs w => (n_evs, w) }

/-- The event is no call of a procedure that is left out. -/
def Event.kept (keep : Proc → Bool) : Event → Bool
  | .look => true
  | .pause => true
  | .call p _ _ => keep p

/-- The round without the calls of procedures that are left out. -/
def Round.erase (keep : Proc → Bool) (r : Round W) : Round W :=
  { r with events := r.events.filter (Event.kept keep) }

/-- The trace without the calls of procedures that are left out. -/
def Trace.erase (keep : Proc → Bool) (t : Trace W) : Trace W :=
  { t with events := t.events.filter (Event.kept keep) }

/-- Outside the procedures kept, `o` passes counts on; the procedures kept, the
flags and the pause are those of `o'`. -/
structure Passes (keep : Proc → Bool) (o o' : Outside W) : Prop where
  look : o.look = o'.look
  pause : o.pause = o'.pause
  proc : ∀ p, keep p = true → o.proc p = o'.proc p
  passing : ∀ p, keep p = false → ∀ idx n_evs w, o.proc p idx n_evs w = ((n_evs : Int), w)

variable {keep : Proc → Bool} {o o' : Outside W}

theorem Passes.refl (o : Outside W) : Passes (fun _ => true) o o where
  look := rfl
  pause := rfl
  proc _ _ := rfl
  passing _ h := absurd h (by decide)

/-- One more procedure that passes its count on. -/
theorem Passes.passing_more (h : Passes keep o o') (q : Proc) :
    Passes (fun p => keep p && p ≠ q) (o.passing q) o' where
  look := h.look
  pause := h.pause
  proc p hp := by
    rw [Bool.and_eq_true, decide_eq_true_eq] at hp
    rw [← h.proc p hp.1]
    exact Function.update_of_ne hp.2 _ _
  passing p hp idx n_evs w := by
    by_cases hpq : p = q
    · subst hpq
      show Function.update o.proc p _ p idx n_evs w = _
      rw [Function.update_self]
    · have hkeep : keep p = false := by simpa [hpq] using hp
      rw [← h.passing p hkeep idx n_evs w]
      show Function.update o.proc q _ p idx n_evs w = _
      rw [Function.update_of_ne hpq]

/-- The result before the first procedure is forgotten. -/
theorem ops_st {ps : List Proc} (hps : ps ≠ []) (idx n_evs : Nat) (st st' : Result) (w : W) :
    ops o idx ps n_evs st w = ops o idx ps n_evs st' w := by
  cases ps with
  | nil => exact absurd rfl hps
  | cons p ps => rfl

theorem toNat_of_pos {st : Result} (h : 0 < st) : 0 < st.toNat ∧ st = (st.toNat : Int) :=
  ⟨Int.lt_toNat.mpr h, (Int.toNat_of_nonneg (Int.le_of_lt h)).symm⟩

/-- **An iteration does without the procedures that pass their count on.** -/
theorem ops_erase (h : Passes keep o o') (idx : Nat) {ps : List Proc} :
    ∀ {n_evs : Nat} {st : Result} {w : W}, 0 < n_evs → st = n_evs →
      (ops o idx ps n_evs st w).erase keep = ops o' idx (ps.filter keep) n_evs st w := by
  induction ps with
  | nil => exact fun _ _ => rfl
  | cons p ps ih =>
    intro n_evs st w hn hst
    cases hp : keep p with
    | true =>
      rw [List.filter_cons_of_pos hp]
      rw [ops_cons, ops_cons, h.proc p hp]
      dsimp only
      split
      next hret =>
        obtain ⟨hcount, hret⟩ := toNat_of_pos hret
        rw [← ih hcount hret]
        simp [Round.erase, Round.after, Event.kept, hp]
      next => simp [Round.erase, Event.kept, hp]
    | false =>
      -- the count goes on to the next procedure as it is
      have hpos : (0 : Int) < n_evs := by omega
      rw [List.filter_cons_of_neg (by simp [hp]), ← ih hn hst]
      rw [ops_cons, h.passing p hp]
      dsimp only
      rw [if_pos hpos, Int.toNat_natCast, ← hst]
      simp [Round.erase, Round.after, Event.kept, hp]

/-! ## §4. The loops agree. -/

theorem Trace.erase_after (t : Trace W) (es : List Event) :
    (t.after es).erase keep = (t.erase keep).after (es.filter (Event.kept keep)) := by
  simp [Trace.erase, Trace.after]

theorem iterate_erase (f : Flags) (r : Round W) {rest rest' : Result → W → Trace W}
    (h : ∀ st w, (rest st w).erase keep = rest' st w) :
    (iterate f r rest).erase keep = iterate f (r.erase keep) rest' := by
  unfold iterate
  show _ = match r.flow with
    | .next => _
    | .leave => _
  cases r.flow with
  | next =>
    dsimp only
    rw [Trace.erase_after, h]
    rfl
  | leave => rfl

/-- A loop whose iterations agree with those of another agrees with it. -/
theorem loop_erase (h : Passes keep o o') {body body' : Result → W → Round W}
    (hbody : ∀ st w, (body st w).erase keep = body' st w) (fuel : Nat) :
    ∀ {st : Result} {w : W}, (loop o body fuel st w).erase keep = loop o' body' fuel st w := by
  induction fuel with
  | zero => exact rfl
  | succ fuel ih =>
    intro st w
    rw [loop_succ, loop_succ, h.look, h.pause]
    split
    next =>
      split
      next =>
        rw [← hbody st (o'.look w).2]
        exact iterate_erase (o'.look w).1 _ fun _ _ => ih
      next =>
        rw [Trace.erase_after, ih]
        rfl
    next => rfl

/-- **A procedure that passes its count on is not missed**, where events can be
fetched at all or the first procedure is kept. -/
theorem erase_workerLoop (h : Passes keep o o') {p : Proc} {ps : List Proc}
    {worker : Option Worker}
    (hmax : keep p = true ∨ ∀ stage idx, worker = some ⟨some stage, idx⟩ → 0 < stage.m_max_batch)
    (hps : (p :: ps).filter keep ≠ []) (fuel : Nat) (w : W) :
    (workerLoop (p :: ps) o worker fuel w).erase keep =
      workerLoop ((p :: ps).filter keep) o' worker fuel w := by
  unfold workerLoop
  split
  next stage idx =>
    refine loop_erase h (fun st w => ?_) fuel
    by_cases hpos : 0 < stage.m_max_batch
    · rw [ops_st (by simp) idx stage.m_max_batch st stage.m_max_batch, ops_erase h idx hpos rfl,
        ops_st hps idx stage.m_max_batch st stage.m_max_batch]
    · have hp := hmax.resolve_right fun hmax => hpos (hmax stage idx rfl)
      rw [List.filter_cons_of_pos hp]
      rw [ops_cons, ops_cons, h.proc p hp]
      dsimp only
      split
      next hret =>
        obtain ⟨hcount, hret⟩ := toNat_of_pos hret
        rw [← ops_erase h idx hcount hret]
        simp [Round.erase, Round.after, Event.kept, hp]
      next => simp [Round.erase, Event.kept, hp]
  next => rfl
  next => rfl

/-- **The four worker loops agree.**  Whatever the procedures return and whatever
flags are seen, for any number of looks: a function that lacks a procedure does
what the one with all three does, whose procedure in that place returns its
count. -/
theorem worker_loops_agree (o : Outside W) (worker : Option Worker) (fuel : Nat) (w : W) :
    (sWorkerFMT (o.passing .throw) worker fuel w).erase (fun p => p ≠ .throw) =
      sWorkerFM o worker fuel w ∧
    ((∀ stage idx, worker = some ⟨some stage, idx⟩ → 0 < stage.m_max_batch) →
      (sWorkerFMT (o.passing .fetch) worker fuel w).erase (fun p => p ≠ .fetch) =
        sWorkerMT o worker fuel w ∧
      (sWorkerFMT ((o.passing .fetch).passing .throw) worker fuel w).erase
          (fun p => p ≠ .fetch && p ≠ .throw) =
        sWorkerM o worker fuel w) := by
  have hone : ∀ q, Passes (fun p => p ≠ q) (o.passing q) o := fun q => by
    simpa using (Passes.refl o).passing_more q
  have htwo := (hone .fetch).passing_more .throw
  refine ⟨?_, fun hmax => ⟨?_, ?_⟩⟩
  · exact erase_workerLoop (hone .throw) (.inl rfl) (by decide) fuel w
  · exact erase_workerLoop (hone .fetch) (.inr hmax) (by decide) fuel w
  · exact erase_workerLoop htwo (.inr hmax) (by decide) fuel w

/-- A stage that is neither paused nor shut down; every procedure deals with all
its events but one. -/
def Outside.busy : Outside Unit where
  look w := (⟨true, .unknown, false, .unknown, .unknown⟩, w)
  pause w := w
  proc _ _ n_evs w := ((n_evs : Int) - 1, w)

/-- A worker of a stage with batches of four events. -/
def Worker.ofFour : Worker := ⟨some { StageRecord.zero with m_max_batch := 4 }, 0⟩

theorem worker_loops_agree_four :
    (sWorkerFMT (Outside.busy.passing .fetch) (some .ofFour) 2 ()).erase (fun p => p ≠ .fetch) =
      sWorkerMT Outside.busy (some .ofFour) 2 () ∧
    (sWorkerMT Outside.busy (some .ofFour) 2 ()).events =
      [.look, .call .main 4 3, .call .throw 3 2, .look, .call .main 4 3, .call .throw 3 2] := by
  refine ⟨((worker_loops_agree Outside.busy (some .ofFour) 2 ()).2 ?_).1, by decide⟩
  intro stage idx h
  injection h with h
  injection h with h
  injection h with h
  rw [← h]
  decide

end Mccp.Pipeline.Loop
