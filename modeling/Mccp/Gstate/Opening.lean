/-
  Mccp.Gstate.Opening
  ───────────────────
  **THE GALA OPENING: WHAT A WORKER SEES WHEN ITS WAIT ENDS.**

  A pipeline worker first waits for the state STARTED.  The wait ends with OK
  at any state from STARTED on, and reports the state it saw; s_worker_main()
  takes every state but STARTED itself for impossible and stops the process.

      reachable_passed — the state is beyond STARTED exactly when some call
                         has moved it there
      worker_seg       — the segments of a waiting worker, by the state

  So a worker is safe exactly as long as nobody is ahead of it.
-/
import Mccp.Gstate.Tracker
import Mathlib.Data.List.Basic

namespace Mccp.Gstate

open Monitor Transition

/-! ## §1. The worker. -/

/-- How s_worker_main() goes on. -/
inductive WorkerNext where
  /-- `m_is_started` is set and `m_proc` is called. -/
  | mainLoop
  | exitFatal (msg : String)
  | returns (ret : Result)
  deriving DecidableEq, Repr

/-- The wait of `s_worker_main`. -/
def openingWait : WaitFor where
  waitFor := .started
  curS := true
  curG := true
  nsec := -1

/-- `s_worker_main`, from the end of its wait on. -/
def sWorkerMain (r : Ret) : WorkerNext :=
  if r.result = .ok then
    if r.curS = some .started then .mainLoop else .exitFatal "must not happen.\n"
  else if r.result = .notOperational then
    match r.curS with
    | some s => if s.isShutdown = false then .exitFatal "must not happen.\n" else .returns r.result
    | none => .returns r.result
  else .returns r.result

/-- The inputs that make a worker test the state: the call of its wait, and
the end of its sleep by a notification. -/
def Tests (i : Input Call Cont) : Prop :=
  i = .enter (.waitFor openingWait) ∨ i = .resume (.waitFor openingWait) .signaled

/-- The inputs of a worker that waits, or is about to. -/
def WorkerInput (i : Input Call Cont) : Prop :=
  i = .enter (.waitFor openingWait) ∨ ∃ w, i = .resume (.waitFor openingWait) w

/-- The step makes a worker stop the process. -/
def Fatal {τ : Type} (l : Obs τ) : Prop :=
  ∃ t i r msg, l = .seg t i (.returned r) ∧ WorkerInput i ∧ sWorkerMain r = .exitFatal msg

variable {τ : Type} {g : Tracker} {i : Input Call Cont}

/-- **What a test of the state leads to.** -/
theorem worker_seg (hi : Tests i) :
    code.seg g i =
      if g.gs.num < GlobalState.started.num then .wait g (.waitFor openingWait) .cond []
      else .ret g { result := .ok, curS := some g.gs, curG := some g.gl } [] := by
  have hrecheck : waitForRecheck g openingWait =
      if g.gs.num < GlobalState.started.num then .wait g (.waitFor openingWait) .cond []
      else .ret g { result := .ok, curS := some g.gs, curG := some g.gl } [] := by
    unfold waitForRecheck
    by_cases hlt : g.gs.num < GlobalState.started.num
    · have hopen : g.gs.isShutdown = false := by
        unfold GlobalState.isShutdown
        rw [decide_eq_false_iff_not]
        have : GlobalState.started.num < GlobalState.acceptShutdown.num := by decide
        omega
      rw [if_pos ⟨hlt, hopen⟩, if_pos hlt]
    · have hwait : openingWait.waitFor = .started := rfl
      rw [if_neg (by rw [hwait]; exact fun h => hlt h.1), if_neg hlt]
      simp only [hwait, if_pos (Nat.not_lt.mp hlt)]
      rfl
  rcases hi with rfl | rfl
  · exact hrecheck
  · exact hrecheck

/-- A test stops the process exactly when the state is beyond STARTED. -/
theorem test_fatal_iff (hi : Tests i) (t : τ) :
    Fatal (.seg t i (code.seg g i).outcome : Obs τ) ↔ GlobalState.started.num < g.gs.num := by
  have hinput : WorkerInput i := by
    rcases hi with rfl | rfl
    · exact .inl rfl
    · exact .inr ⟨_, rfl⟩
  rw [worker_seg hi]
  by_cases hlt : g.gs.num < GlobalState.started.num
  · -- still too early: the worker sleeps
    rw [if_pos hlt]
    constructor
    · intro hex
      obtain ⟨t', i', r, msg, hl, -, -⟩ := hex
      exact absurd hl (by simp [Seg.outcome])
    · intro h
      omega
  · rw [if_neg hlt]
    constructor
    · intro hex
      obtain ⟨t', i', r, msg, hl, -, hfatal⟩ := hex
      injection hl with _ _ ho
      injection ho with hr
      subst hr
      by_contra hle
      have hstarted : g.gs = .started := by
        revert hlt hle
        cases g.gs <;> decide
      rw [hstarted] at hfatal
      exact absurd hfatal (by simp [sWorkerMain])
    · intro hgt
      refine ⟨t, i, _, "must not happen.\n", rfl, hinput, ?_⟩
      have hne : g.gs ≠ .started := by
        intro h
        rw [h] at hgt
        exact absurd hgt (by decide)
      simp [sWorkerMain, hne]

/-- A worker whose wait failed returns the error. -/
theorem not_fatal_of_not_tests (hi : WorkerInput i) (hnot : ¬ Tests i) (t : τ) :
    ¬ Fatal (.seg t i (code.seg g i).outcome : Obs τ) := by
  rcases hi with rfl | ⟨w, rfl⟩
  · exact absurd (.inl rfl) hnot
  · intro hex
    obtain ⟨t', i', r, msg, hl, -, hfatal⟩ := hex
    injection hl with _ _ ho
    cases w with
    | signaled => exact absurd (.inr rfl) hnot
    | timedout =>
      injection ho with hr
      subst hr
      exact absurd hfatal (by simp [sWorkerMain, waitError])
    | failed =>
      injection ho with hr
      subst hr
      exact absurd hfatal (by simp [sWorkerMain, waitError])

/-! ## §2. Who is ahead of the workers. -/

/-- The step moves the state beyond STARTED: a set to a later state that
succeeded, or a shutdown request that was recorded (and sleeps until it is
accepted). -/
def PassesStarted : Obs τ → Prop
  | .seg _ (.enter (.set s)) (.returned r) =>
      r.result = .ok ∧ GlobalState.started.num < s.num
  | .seg _ (.enter (.requestShutdown _)) (.slept _ _) => True
  | _ => False

/-- **One step moves the state beyond STARTED, or leaves it on its side.** -/
theorem seg_passes (hi : i ≠ .enter .reset) (t : τ) :
    GlobalState.started.num < ((code.seg g i).stateOr g).gs.num ↔
      GlobalState.started.num < g.gs.num ∨
      PassesStarted (.seg t i (code.seg g i).outcome : Obs τ) := by
  rcases seg_cases (g := g) hi t with ⟨hsame, hrec, hset⟩ | ⟨s, rfl, hle, hset, hout⟩ |
    ⟨l, rfl, -, -, hreq, hout⟩
  · rw [hsame]
    refine ⟨.inl, fun h => h.resolve_right ?_⟩
    intro hpass
    unfold PassesStarted at hpass
    split at hpass
    next s r hobs =>
      injection hobs with _ hin hout
      exact hset s r hin hout hpass.1
    next hobs =>
      rw [hobs] at hrec
      exact absurd hrec (by simp [recorded])
    next => exact hpass
  · -- one way only: the old state is not beyond the new one
    rw [hset, hout]
    constructor
    · intro h
      exact .inr ⟨rfl, h⟩
    · intro h
      rcases h with h | ⟨-, h⟩
      · exact Nat.lt_of_lt_of_le h hle
      · exact h
  · -- recorded: it sleeps, as nobody can have accepted it yet
    rw [hreq, hout]
    refine ⟨fun _ => .inr trivial, fun _ => ?_⟩
    show GlobalState.started.num < GlobalState.requestShutdown.num
    decide

variable [DecidableEq τ]

/-- **In every reachable state, the state is beyond STARTED exactly when some
step has moved it there.** -/
theorem reachable_passed {ls : List (Obs τ)} {s : State τ Tracker Cont Cond}
    (hrun : Run (Step code) (State.init τ Tracker.initial) ls s) (hreset : NoReset ls) :
    GlobalState.started.num < s.shared.gs.num ↔ ∃ l ∈ ls, PassesStarted l := by
  refine Run.invariant_history (fun ls s => NoReset ls →
    (GlobalState.started.num < s.shared.gs.num ↔ ∃ l ∈ ls, PassesStarted l)) ?_ ?_ hrun hreset
  · intro ls s l s' _ ih hstep hreset
    have hih := ih (fun t o hmem => hreset t o (List.mem_append_left _ hmem))
    have hsnoc : (∃ m ∈ ls ++ [l], PassesStarted m) ↔
        (∃ m ∈ ls, PassesStarted m) ∨ PassesStarted l := by
      simp only [List.mem_append, List.mem_singleton, or_and_right, exists_or, exists_eq_left]
    rw [hsnoc]
    obtain ⟨-, ⟨t, i, -, rfl, rfl⟩ | ⟨t, w, k, c, -, -, rfl, rfl⟩⟩ := step_cases hstep
    · have hi : i ≠ .enter .reset := by
        intro heq
        subst heq
        exact hreset t _ (List.mem_append_right _ (List.mem_singleton_self _))
      rw [State.after_shared, seg_passes hi t, hih]
    · rw [show (PassesStarted (.wake t w : Obs τ)) = False from rfl, or_false]
      exact hih
  · intro _
    constructor
    · intro h
      exact absurd h (Nat.not_lt_zero 4)
    · intro hex
      obtain ⟨l, hl, -⟩ := hex
      exact absurd hl (by simp)

/-- One step of a worker stops the process exactly when it is a test, and the
state has been moved beyond STARTED before it. -/
theorem step_fatal_iff {ls : List (Obs τ)} {s s' : State τ Tracker Cont Cond} {t : τ}
    {i : Input Call Cont} {o : Outcome Cont Ret Cond Empty}
    (hrun : Run (Step code) (State.init τ Tracker.initial) ls s) (hreset : NoReset ls)
    (hstep : Step code s (.seg t i o) s') (hi : WorkerInput i) :
    Fatal (.seg t i o : Obs τ) ↔ Tests i ∧ ∃ l ∈ ls, PassesStarted l := by
  obtain ⟨-, ⟨t', i', -, hl, -⟩ | ⟨t', w, k, c, -, -, hl, -⟩⟩ := step_cases hstep
  · injection hl with ht hi' ho
    subst ht hi' ho
    rw [← reachable_passed hrun hreset]
    by_cases htest : Tests i
    · rw [test_fatal_iff htest t]
      exact ⟨fun h => ⟨htest, h⟩, fun h => h.2⟩
    · apply iff_of_false (not_fatal_of_not_tests hi htest t)
      intro h
      exact htest h.1
  · exact absurd hl (by simp)

/-! ## §3. Runs without a 'must not happen'. -/

/-- **In a run, no worker stops the process exactly when every test of a worker
comes before the state is moved beyond STARTED.** -/
theorem worker_never_fatal_iff {ls : List (Obs τ)} {s : State τ Tracker Cont Cond}
    (hrun : Run (Step code) (State.init τ Tracker.initial) ls s) (hreset : NoReset ls) :
    (∀ l ∈ ls, ¬ Fatal l) ↔
    ∀ ms t i o, ms ++ [.seg t i o] <+: ls → Tests i → ∀ l ∈ ms, ¬ PassesStarted l := by
  have hsplit : ∀ ms t i o, ms ++ [.seg t i o] <+: ls → WorkerInput i →
      (Fatal (.seg t i o : Obs τ) ↔ Tests i ∧ ∃ l ∈ ms, PassesStarted l) := by
    intro ms t i o hex hi
    obtain ⟨rest, rfl⟩ := hex
    obtain ⟨u, hu, -⟩ := hrun.split
    obtain ⟨v, hv, hstep⟩ := hu.last
    refine step_fatal_iff hv ?_ hstep hi
    intro t' o' hmem
    exact hreset t' o' (by simp [hmem])
  constructor
  · intro hsafe ms t i o hpre htest l hl hpass
    have hi : WorkerInput i := by
      rcases htest with rfl | rfl
      · exact .inl rfl
      · exact .inr ⟨_, rfl⟩
    have hmem : (.seg t i o : Obs τ) ∈ ls := hpre.subset (by simp)
    exact hsafe _ hmem ((hsplit ms t i o hpre hi).mpr ⟨htest, l, hl, hpass⟩)
  · intro htimely l hl hfatal
    obtain ⟨ms, rest, rfl⟩ := List.append_of_mem hl
    obtain ⟨t, i, r, msg, rfl, hi, hexit⟩ := hfatal
    have hpre : ms ++ [.seg t i (.returned r)] <+: ms ++ .seg t i (.returned r) :: rest :=
      ⟨rest, by simp⟩
    obtain ⟨htest, l, hl, hpass⟩ :=
      (hsplit ms t i _ hpre hi).mp ⟨t, i, r, msg, rfl, hi, hexit⟩
    exact htimely ms t i _ hpre htest l hl hpass

/-- A worker that waits first and gets the lock back at STARTED is safe. -/
theorem worker_never_fatal_prompt :
    ∃ (ls : List (Obs Bool)) (s : State Bool Tracker Cont Cond),
      Run (Step code) (State.init Bool Tracker.initial) ls s ∧ ls.length = 3 ∧
      ∀ l ∈ ls, ¬ Fatal l := by
  have hrun : ∃ p, exec (next code) (State.init Bool Tracker.initial)
      [.call true (.waitFor openingWait), .call false (.set .started), .resume true] = some p ∧
      p.1 = [.seg true (.enter (.waitFor openingWait)) (.slept (.waitFor openingWait) .cond),
        .seg false (.enter (.set .started)) (.returned { result := .ok }),
        .seg true (.resume (.waitFor openingWait) .signaled) (.returned
          { result := .ok, curS := some .started, curG := some .unknown })] :=
    ⟨_, rfl, rfl⟩
  obtain ⟨⟨ls, s⟩, hexec, rfl⟩ := hrun
  have hs := run_of_exec hexec
  refine ⟨_, s, hs, rfl, (worker_never_fatal_iff hs ?_).mpr ?_⟩
  · intro t o hmem
    exact absurd hmem (by simp)
  · -- the set to STARTED does not go beyond it
    intro ms t i o hpre _ l hl hpass
    have hmem := hpre.subset (List.mem_append_left _ hl)
    simp only [List.mem_cons, List.not_mem_nil, or_false] at hmem
    rcases hmem with rfl | rfl | rfl
    · exact hpass
    · exact absurd hpass.2 (by decide)
    · exact hpass

/-- A worker sleeps, the state becomes STARTED, and before the worker gets the
lock back a shutdown is requested: the worker stops the process. -/
theorem slow_worker_fatal :
    ∃ (ls : List (Obs Nat)) (s : State Nat Tracker Cont Cond),
      Run (Step code) (State.init Nat Tracker.initial) ls s ∧ NoReset ls ∧ ∃ l ∈ ls, Fatal l := by
  have hrun : ∃ p, exec (next code) (State.init Nat Tracker.initial)
      [.call 0 (.waitFor openingWait), .call 1 (.set .started),
        .call 2 (.requestShutdown .gracefully), .resume 0] = some p ∧
      p.1 = [.seg 0 (.enter (.waitFor openingWait)) (.slept (.waitFor openingWait) .cond),
        .seg 1 (.enter (.set .started)) (.returned { result := .ok }),
        .seg 2 (.enter (.requestShutdown .gracefully)) (.slept .requestShutdown .cond),
        .seg 0 (.resume (.waitFor openingWait) .signaled) (.returned
          { result := .ok, curS := some .requestShutdown, curG := some .gracefully })] :=
    ⟨_, rfl, rfl⟩
  obtain ⟨⟨ls, s⟩, hexec, rfl⟩ := hrun
  refine ⟨_, s, run_of_exec hexec, ?_, _, List.mem_of_getLast? rfl, 0, _, _, "must not happen.\n",
    rfl, .inr ⟨.signaled, rfl⟩, rfl⟩
  intro t o hmem
  exact absurd hmem (by simp)

end Mccp.Gstate
