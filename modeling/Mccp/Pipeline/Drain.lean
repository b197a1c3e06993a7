/-
  Mccp.Pipeline.Drain
  ───────────────────
  **WHEN A WORKER LEAVES ITS LOOP AFTER A GRACEFUL SHUTDOWN.**

  mccp_pipeline_stage_shutdown() sets `m_sg_lvl`, at a moment of its own between
  two events of a worker.  The worker looks at the level only where the last
  result is 0, whichever procedure has returned it.

      shutdownAt          — a graceful shutdown at a moment
      lastCall            — the last procedure called
      graceful_shutdown_leaves — where the loop ends
      abandons_events     — a main procedure that drops a batch ends it as well
-/
import Mccp.Pipeline.Loop

namespace Mccp.Pipeline.Loop

open Gstate (GraceLevel)
open Pause (Proc)

/-! ## §1. The moment of the shutdown. -/

variable {V : Type}

/-- `m_sg_lvl` after `t` events, with the shutdown after `moment` of them. -/
def levelAt (moment t : Nat) : GraceLevel := if moment ≤ t then .gracefully else .unknown

/-- A graceful shutdown takes effect after `moment` events of the worker; the
world counts them.  No worker is cancelled, and the loop is not cut off. -/
def Outside.shutdownAt (o : Outside V) (moment : Nat) : Outside (V × Nat) where
  look w :=
    let (f, v) := o.look w.1
    ({ m_do_loop := true
       m_sg_lvl := levelAt moment w.2
       m_pause_requested := f.m_pause_requested
       m_sg_lvl_after := levelAt moment w.2
       m_sg_lvl_after' := levelAt moment w.2 }, (v, w.2 + 1))
  pause w := (o.pause w.1, w.2 + 1)
  proc p idx n_evs w :=
    let (ret, v) := o.proc p idx n_evs w.1
    (ret, (v, w.2 + 1))

theorem shutdownAt_look (o : Outside V) (moment : Nat) (v : V) (t : Nat) :
    (o.shutdownAt moment).look (v, t) =
      (⟨true, levelAt moment t, (o.look v).1.m_pause_requested, levelAt moment t,
        levelAt moment t⟩, ((o.look v).2, t + 1)) :=
  rfl

theorem shutdownAt_proc (o : Outside V) (moment : Nat) (p : Proc) (idx n_evs : Nat) (v : V)
    (t : Nat) :
    (o.shutdownAt moment).proc p idx n_evs (v, t) =
      ((o.proc p idx n_evs v).1, ((o.proc p idx n_evs v).2, t + 1)) :=
  rfl

/-- The last procedure called, its count and its result. -/
def lastCall (es : List Event) : Option (Proc × Nat × Result) :=
  es.foldl (fun c e =>
    match e with
    | .call p n_evs ret => some (p, n_evs, ret)
    | _ => c) none

/-- What `st` holds after some events. -/
def stAfter (es : List Event) : Result := ((lastCall es).map fun c => c.2.2).getD 0

/-- A fetch call made after the shutdown has returned 0. -/
def Drained (moment : Nat) (es : List Event) : Prop :=
  ∃ before n_evs after, es = before ++ .call .fetch n_evs 0 :: after ∧ moment ≤ before.length

theorem lastCall_call (es : List Event) (p : Proc) (n_evs : Nat) (ret : Result) :
    lastCall (es ++ [.call p n_evs ret]) = some (p, n_evs, ret) := by
  simp [lastCall]

theorem lastCall_look (es : List Event) : lastCall (es ++ [.look]) = lastCall es := by
  simp [lastCall]

theorem lastCall_pause (es : List Event) : lastCall (es ++ [.pause]) = lastCall es := by
  simp [lastCall]

/-- The last call of a history is one of its events. -/
theorem mem_of_lastCall {es : List Event} {p : Proc} {n_evs : Nat} {ret : Result}
    (h : lastCall es = some (p, n_evs, ret)) : .call p n_evs ret ∈ es := by
  induction es using List.reverseRecOn with
  | nil => exact absurd h (by simp [lastCall])
  | append_singleton es e ih =>
    cases e with
    | call q n_evs' ret' =>
      rw [lastCall_call] at h
      obtain ⟨rfl, rfl, rfl⟩ := by simpa using h
      simp
    | look =>
      rw [lastCall_look] at h
      exact List.mem_append_left _ (ih h)
    | pause =>
      rw [lastCall_pause] at h
      exact List.mem_append_left _ (ih h)

/-! ## §2. One iteration. -/

/-- No procedure fails. -/
def Outside.Succeeds (o : Outside V) : Prop := ∀ p idx n_evs v, 0 ≤ (o.proc p idx n_evs v).1

variable {o : Outside V} {moment : Nat}

/-- **An iteration without a failure** ends with the next look; `st` is what the
last procedure has returned, and the clock has counted the calls. -/
theorem ops_shutdownAt (ho : o.Succeeds) (idx : Nat) {ps : List Proc} :
    ∀ {n_evs : Nat} {st : Result} {v : V} {t : Nat} {pre : List Event}, stAfter pre = st → 0 ≤ st →
      let r := ops (o.shutdownAt moment) idx ps n_evs st (v, t)
      r.flow = .next ∧ 0 ≤ r.st ∧ stAfter (pre ++ r.events) = r.st ∧
        r.world.2 = t + r.events.length := by
  induction ps with
  | nil =>
    intro n_evs st v t pre hpre hst
    exact ⟨rfl, hst, by simpa [ops] using hpre, rfl⟩
  | cons p ps ih =>
    intro n_evs st v t pre hpre hst
    have hret := ho p idx n_evs v
    have hlast : stAfter (pre ++ [.call p n_evs (o.proc p idx n_evs v).1]) =
        (o.proc p idx n_evs v).1 := by
      unfold stAfter
      rw [lastCall_call]
      rfl
    rw [ops_cons, shutdownAt_proc]
    dsimp only
    split
    next =>
      obtain ⟨hflow, hst', hlast', hclock⟩ := @ih (o.proc p idx n_evs v).1.toNat _
        (o.proc p idx n_evs v).2 (t + 1) _ hlast hret
      refine ⟨hflow, hst', ?_, ?_⟩
      · rw [List.append_assoc] at hlast'
        exact hlast'
      · apply hclock.trans
        simp only [Round.after, List.length_cons]
        omega
    next => exact ⟨if_neg (Int.not_lt.mpr hret), hret, hlast, rfl⟩

/-! ## §3. The loop. -/

/-- **Where the loop ends**: at a look after the shutdown that finds `st` to be 0. -/
theorem loop_shutdownAt (ho : o.Succeeds) (idx n_evs : Nat) (ps : List Proc) (fuel : Nat) :
    ∀ {st ret : Result} {v : V} {pre : List Event}, stAfter pre = st → 0 ≤ st →
      (loop (o.shutdownAt moment) (ops (o.shutdownAt moment) idx ps n_evs) fuel st
        (v, pre.length)).ret = some ret →
      ∃ before, pre ++ (loop (o.shutdownAt moment) (ops (o.shutdownAt moment) idx ps n_evs) fuel st
          (v, pre.length)).events = before ++ [.look] ∧
        moment ≤ before.length ∧ stAfter before = 0 := by
  induction fuel with
  | zero => exact fun _ _ h => absurd h (by simp [loop])
  | succ fuel ih =>
    intro st ret v pre hpre hst
    rw [loop_succ, shutdownAt_look]
    have hlook : stAfter (pre ++ [.look]) = st := by
      unfold stAfter
      rw [lastCall_look]
      exact hpre
    split
    next =>
      split
      next =>
        obtain ⟨hflow, hst', hlast, hclock⟩ :=
          @ops_shutdownAt V o moment ho idx ps n_evs st (o.look v).2 (pre.length + 1) _ hlook hst
        dsimp only at hflow hst' hlast hclock ⊢
        generalize ops (o.shutdownAt moment) idx ps n_evs st ((o.look v).2, pre.length + 1) = r
          at hflow hst' hlast hclock ⊢
        obtain ⟨es, st', flow, v', t'⟩ := r
        dsimp only at hflow hst' hlast hclock
        subst hflow
        have ht : t' = (pre ++ [Event.look] ++ es).length := by
          rw [hclock, List.length_append, List.length_append, List.length_singleton]
        have hrest := @ih st' ret v' _ hlast hst'
        rw [← ht] at hrest
        intro hret
        obtain ⟨before, heq, hmoment, hzero⟩ := hrest hret
        refine ⟨before, ?_, hmoment, hzero⟩
        rw [← heq]
        simp [iterate, Trace.after]
      next =>
        have hpause : stAfter (pre ++ [.look, .pause]) = st := by
          have hsplit : pre ++ [.look, .pause] = pre ++ [.look] ++ [.pause] := by simp
          unfold stAfter at hlook ⊢
          rw [hsplit, lastCall_pause]
          exact hlook
        have hrest := @ih st ret (o.pause (o.look v).2) _ hpause hst
        intro hret
        obtain ⟨before, heq, hmoment, hzero⟩ := hrest (by rw [List.length_append]; exact hret)
        refine ⟨before, ?_, hmoment, hzero⟩
        rw [← heq, List.length_append, List.append_assoc]
        rfl
    next hleave =>
      -- a result that is not negative is 0, and then the level is set
      intro _
      have hzero : st = 0 := by
        by_contra hne
        exact hleave ⟨rfl, .inl (Int.lt_iff_le_and_ne.mpr ⟨hst, Ne.symm hne⟩)⟩
      refine ⟨pre, rfl, ?_, hpre.trans hzero⟩
      by_contra hearly
      exact hleave ⟨rfl, .inr ⟨hzero, if_neg hearly⟩⟩

/-- **A worker leaves its loop after a graceful shutdown** only at a look at the
loop's condition after it, where no procedure has been called yet or the last
one has returned 0, whichever it was.  Where main and throw never return 0, it
was the fetch. -/
theorem graceful_shutdown_leaves (ho : o.Succeeds) (stage : StageRecord) (idx fuel : Nat) (v : V)
    {ret : Result}
    (h : (sWorkerFMT (o.shutdownAt moment) (some ⟨some stage, idx⟩) fuel (v, 0)).ret = some ret) :
    ∃ before, (sWorkerFMT (o.shutdownAt moment) (some ⟨some stage, idx⟩) fuel (v, 0)).events =
        before ++ [.look] ∧
      moment ≤ before.length ∧
      (lastCall before = none ∨ ∃ p n_evs, lastCall before = some (p, n_evs, 0)) ∧
      ((∀ p n_evs, p ≠ .fetch → .call p n_evs 0 ∉ before) →
        lastCall before = none ∨ ∃ n_evs, lastCall before = some (.fetch, n_evs, 0)) := by
  obtain ⟨before, heq, hmoment, hzero⟩ :=
    @loop_shutdownAt V o moment ho idx stage.m_max_batch [.fetch, .main, .throw] fuel 0 ret v []
      rfl (Int.le_refl 0) h
  have hlast : lastCall before = none ∨ ∃ p n_evs, lastCall before = some (p, n_evs, 0) := by
    unfold stAfter at hzero
    cases hlast : lastCall before with
    | none => exact .inl rfl
    | some c =>
      rw [hlast] at hzero
      obtain ⟨p, n_evs, ret'⟩ := c
      have hret' : ret' = 0 := hzero
      exact .inr ⟨p, n_evs, by rw [hret']⟩
  refine ⟨before, heq, hmoment, hlast, ?_⟩
  intro hfetch
  rcases hlast with hnone | ⟨p, n_evs, hp⟩
  · exact .inl hnone
  · by_cases hpf : p = .fetch
    · exact .inr ⟨n_evs, by rw [hp, hpf]⟩
    · exact absurd (mem_of_lastCall hp) (hfetch p n_evs hpf)

/-- Two events are fetched each time, and the main procedure drops them. -/
def Outside.dropping : Outside Unit where
  look w := (⟨true, .unknown, false, .unknown, .unknown⟩, w)
  pause w := w
  proc p _ n_evs w :=
    match p with
    | .fetch => (2, w)
    | .main => (0, w)
    | .throw => ((n_evs : Int), w)

/-- The worker leaves after the batch that the main procedure has dropped. -/
theorem graceful_shutdown_leaves_dropping :
    ∃ before, (sWorkerFMT (Outside.dropping.shutdownAt 3) (some .ofFour) 2 ((), 0)).events =
        before ++ [.look] ∧ 3 ≤ before.length ∧
      (lastCall before = none ∨ ∃ p n_evs, lastCall before = some (p, n_evs, 0)) := by
  have hpos : Outside.dropping.Succeeds := by
    intro p idx n_evs v
    cases p with
    | fetch => exact (by decide : (0 : Int) ≤ 2)
    | main => exact Int.le_refl 0
    | throw => exact Int.natCast_nonneg n_evs
  obtain ⟨before, heq, hmoment, hlast, -⟩ := @graceful_shutdown_leaves Unit Outside.dropping 3 hpos
    { StageRecord.zero with m_max_batch := 4 } 0 2 () 0 (by decide)
  exact ⟨before, heq, hmoment, hlast⟩

/-- **Events are left behind**: the shutdown takes effect right after the main
procedure has dropped a batch of two, and no fetch has returned 0.  Before the
first iteration the worker leaves without any fetch. -/
theorem abandons_events :
    (sWorkerFMT (Outside.dropping.shutdownAt 3) (some .ofFour) 2 ((), 0)).ret = some .ok ∧
    (sWorkerFMT (Outside.dropping.shutdownAt 3) (some .ofFour) 2 ((), 0)).events =
      [.look, .call .fetch 4 2, .call .main 2 0, .look] ∧
    ¬ Drained 3 (sWorkerFMT (Outside.dropping.shutdownAt 3) (some .ofFour) 2 ((), 0)).events ∧
    (sWorkerFMT (Outside.dropping.shutdownAt 0) (some .ofFour) 1 ((), 0)).events = [.look] := by
  refine ⟨by decide, by decide, ?_, by decide⟩
  rintro ⟨before, n_evs, after, hsplit, -⟩
  have hmem : Event.call .fetch n_evs 0 ∈
      (sWorkerFMT (Outside.dropping.shutdownAt 3) (some .ofFour) 2 ((), 0)).events := by
    rw [hsplit]
    simp
  have hevents : (sWorkerFMT (Outside.dropping.shutdownAt 3) (some .ofFour) 2 ((), 0)).events =
      [.look, .call .fetch 4 2, .call .main 2 0, .look] := by decide
  rw [hevents] at hmem
  simp at hmem

end Mccp.Pipeline.Loop
