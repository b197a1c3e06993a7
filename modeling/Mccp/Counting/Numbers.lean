/-
  Mccp.Counting.Numbers
  ─────────────────────
  **THE NUMBERS THAT check10-a.c PRINTS.**

  The sum is what the workers have processed since it was last set, up to the
  increments of those that are still in s_main(); none is lost.  A pause that
  succeeds waits for them all.  So the number printed with it is exact, and it
  stays the same until the stage is resumed, whatever else is typed.

      processed, lastPaused — what a history should show
      State.Inv     — ties the sum to the history, and a paused stage to both
      next_inv      — every step keeps it
      sum_accounts  — the sum, in every reachable state
      paused_number_exact — the numbers of a paused stage
-/
import Mathlib.Data.Fintype.Card
import Mccp.Counting.Program
import Mccp.Pipeline.Resume

namespace Mccp.Pipeline.Pause

open Transition

variable {n : Nat} {s s' : Crew n} {o : Outcome}

/-! ## §1. The stage, seen from outside. -/

/-- A call that returns something is over. -/
theorem apiStep_returns (ha : apiStep s = some (o, s')) (ho : o ≠ .quiet) : s'.api = .idle := by
  have hquiet : ∀ {c : Crew n}, some ((.quiet : Outcome), c) = some (o, s') → s'.api = .idle :=
    fun h => absurd (Prod.mk.inj (Option.some.inj h)).1.symm ho
  unfold apiStep at ha
  cases hplace : s.api with
  | pauseTest _ | pauseSetting _ | pauseUnlocking _ | resumeTest | shutdownTest | shutdownElse
  | shutdownBranch | shutdownBranch' | clearSetting _ | clearNotifying _ | clearUnlocking _ =>
    rw [hplace] at ha
    exact hquiet ha
  | pauseLocking _ | pauseWoken _ _ | clearLocking _ =>
    rw [hplace] at ha
    exact absurd (lockFor_some ha).1 ho
  | idle | pauseAsleep _ =>
    rw [hplace] at ha
    exact absurd ha (by simp)
  | pauseRecheck _ =>
    rw [hplace] at ha
    dsimp only at ha
    split at ha <;> exact hquiet ha
  | pauseElse | pauseDone _ | resumeElse =>
    rw [hplace] at ha
    dsimp only at ha
    split at ha <;> (cases ha; rfl)
  | shutdownElse' =>
    rw [hplace] at ha
    dsimp only at ha
    split at ha
    · exact hquiet ha
    · cases ha
      rfl
  | levelSetting =>
    rw [hplace] at ha
    cases ha
    rfl
  | startSetting k =>
    rw [hplace] at ha
    cases k with
    | resume =>
      cases ha
      rfl
    | shutdown => exact hquiet ha

/-- A pause goes on, or returns. -/
theorem apiStep_pausing (ha : apiStep s = some (o, s')) (hp : s.api.isPausing = true) :
    (o = .quiet ∧ s'.api.isPausing = true) ∨ ∃ ret, o = .paused ret ∧ s'.api = .idle := by
  unfold apiStep at ha
  cases hplace : s.api with
  | pauseTest _ =>
    rw [hplace] at ha
    cases ha
    refine .inl ⟨rfl, ?_⟩
    show ApiPlace.isPausing (if _ then _ else _) = true
    split <;> rfl
  | pauseElse | pauseDone _ =>
    rw [hplace] at ha
    dsimp only at ha
    split at ha <;> (cases ha; exact .inr ⟨_, rfl, rfl⟩)
  | pauseLocking _ =>
    rw [hplace] at ha
    obtain ⟨ho, hs⟩ := lockFor_some ha
    exact .inl ⟨ho, by rw [hs]; rfl⟩
  | pauseWoken _ ret =>
    rw [hplace] at ha
    obtain ⟨ho, hs⟩ := lockFor_some ha
    refine .inl ⟨ho, ?_⟩
    rw [hs]
    show ApiPlace.isPausing (if _ then _ else _) = true
    split <;> rfl
  | pauseSetting _ | pauseUnlocking _ =>
    rw [hplace] at ha
    cases ha
    exact .inl ⟨rfl, rfl⟩
  | pauseRecheck _ =>
    rw [hplace] at ha
    dsimp only at ha
    split at ha <;> (cases ha; exact .inl ⟨rfl, rfl⟩)
  | pauseAsleep _ =>
    rw [hplace] at ha
    exact absurd ha (by simp)
  | _ => exact absurd hp (by rw [hplace]; simp [ApiPlace.isPausing])

/-- A worker that executes a procedure is not moved by the others, -/
theorem WorkerEffect.executing_stays {i j : Fin n} (h : WorkerEffect s i s') (hij : j ≠ i)
    (hj : (s.place j).isExecuting = true) : s'.place j = s.place j := by
  cases h with
  | go p hplace _ _ _ _ _ _ _ _ => rw [hplace, Function.update_of_ne hij]
  | arrive master hi hs =>
    rw [hs]
    unfold Pause.arrive
    split
    next hall =>
      -- the others are all in the barrier
      rw [hall j hij] at hj
      exact absurd hj (by simp [Place.isExecuting])
    next => exact Function.update_of_ne hij ..
  | setPaused hi hs =>
    rw [hs]
    exact Function.update_of_ne hij ..

/-- nor by a call. -/
theorem ApiEffect.executing_stays {j : Fin n} (h : ApiEffect s o s')
    (hj : (s.place j).isExecuting = true) : s'.place j = s.place j := by
  cases h with
  | «at» p _ hplace _ _ _ _ _ _ _ =>
    rcases hplace with hplace | hplace
    · rw [hplace]
    · rw [hplace]
      show (s.place j).notified = s.place j
      cases hp : s.place j with
      | sleeping => exact absurd hj (by rw [hp]; simp [Place.isExecuting])
      | _ => rfl
  | request _ _ hs _ => rw [hs]; rfl
  | withdraw _ _ hs _ => rw [hs]; rfl
  | setStarted _ _ _ _ hs _ => rw [hs]; rfl

/-- While the request is not withdrawn, a paused stage stays so. -/
theorem IsPaused.keep (h : Inv s) {l : Label n} (hstep : Step s l s')
    (hr : s.stage.m_pause_requested = true → s'.stage.m_pause_requested = true)
    (hp : IsPaused s) : IsPaused s' := h.stays_paused hstep hp (hr hp.2)

/-- A pause withdraws nothing. -/
theorem apiStep_keeps (h : Inv s) (ha : apiStep s = some (o, s')) (hp : s.api.isPausing = true)
    (hpaused : IsPaused s) : IsPaused s' := by
  refine hpaused.keep h (l := ⟨.api, o⟩) ⟨.api, by simp [next, ha]⟩ fun hr => ?_
  cases apiStep_cases h ha with
  | «at» p _ _ _ hrequested _ _ _ _ _ => exact hrequested.trans hr
  | request _ _ hs _ => rw [hs]; rfl
  | withdraw _ hi _ _ => exact absurd hp (by rw [hi]; simp [ApiPlace.isPausing])
  | setStarted _ _ hi _ _ _ => exact absurd hp (by rw [hi]; simp [ApiPlace.isPausing])

/-- What a step beside the call leaves as it is. -/
structure Beside (s s' : Crew n) : Prop where
  idle : s.api = .idle → s'.api = .idle
  pausing : s.api.isPausing = true → s'.api.isPausing = true
  paused : IsPaused s → IsPaused s'

theorem ApiPlace.notified_pausing (p : ApiPlace) : p.notified.isPausing = p.isPausing := by
  cases p <;> rfl

/-- A worker's step is beside the call. -/
theorem WorkerEffect.beside {i : Fin n} (he : WorkerEffect s i s') (h : Inv s) {l : Label n}
    (hstep : Step s l s') : Beside s s' := by
  obtain ⟨hr, hapi⟩ := he.frame
  refine ⟨fun hi => ?_, fun hp => ?_, fun hp => hp.keep h hstep hr.trans⟩
  · rcases hapi with hapi | hapi <;> rw [hapi, hi]
    rfl
  · rcases hapi with hapi | hapi <;> rw [hapi]
    · exact hp
    · rw [ApiPlace.notified_pausing]
      exact hp

end Mccp.Pipeline.Pause

namespace Mccp.Counting

open Pipeline.Pause (Crew Place ApiPlace IsPaused)
open Transition

variable {n : Nat}

/-! ## §2. Histories. -/

/-- A worker has processed one more, or the sum is set anew. -/
def countUp (sum : UInt64) : Obs n → UInt64
  | .processed _ => sum + 1
  | .set v => v
  | _ => sum

/-- **What has been processed**, since the sum was last set. -/
def processed (ls : List (Obs n)) : UInt64 := ls.foldl countUp 0

/-- The stage is paused, and the number has been printed; or it is paused no
longer. -/
def pausedAfter (v : Option UInt64) : Obs n → Option UInt64
  | .shown (.paused _) v => some v
  | .command .resume => none
  | .leaves => none
  | .crashes => none
  | _ => v

/-- **The number that was printed with the last pause**, unless the stage has
been resumed since, or the loop has ended. -/
def lastPaused (ls : List (Obs n)) : Option UInt64 := ls.foldl pausedAfter none

variable {ls : List (Obs n)} {s s' : State n}

theorem processed_snoc (ls : List (Obs n)) (l : Obs n) :
    processed (ls ++ [l]) = countUp (processed ls) l := by
  simp [processed]

theorem lastPaused_snoc (ls : List (Obs n)) (l : Obs n) :
    lastPaused (ls ++ [l]) = pausedAfter (lastPaused ls) l := by
  simp [lastPaused]

/-- The increment of worker `i` is in the sum, and its s_main() has not returned. -/
def State.pending (s : State n) (i : Fin n) : Bool :=
  s.returned i || (s.sum.place (some i)).isCounted

/-- How many they are. -/
def State.numPending (s : State n) : Nat := (Finset.univ.filter fun i => s.pending i = true).card

theorem numPending_congr (h : ∀ i, s'.pending i = s.pending i) : s'.numPending = s.numPending := by
  unfold State.numPending
  simp only [h]

/-- A step of worker `i` that leaves it as it is. -/
theorem numPending_at {i : Fin n} (hi : s'.pending i = s.pending i)
    (h : ∀ j, j ≠ i → s'.pending j = s.pending j) : s'.numPending = s.numPending := by
  refine numPending_congr fun j => ?_
  by_cases hj : j = i
  · exact hj ▸ hi
  · exact h j hj

theorem numPending_none (h : ∀ i, s.pending i = false) : s.numPending = 0 := by
  unfold State.numPending
  rw [Finset.card_eq_zero, Finset.filter_eq_empty_iff]
  intro i _
  rw [h i]
  decide

/-- One worker more. -/
theorem numPending_succ {i : Fin n} (hi : s.pending i = false) (hi' : s'.pending i = true)
    (h : ∀ j, j ≠ i → s'.pending j = s.pending j) : s'.numPending = s.numPending + 1 := by
  unfold State.numPending
  have heq : (Finset.univ.filter fun j => s'.pending j = true) =
      insert i (Finset.univ.filter fun j => s.pending j = true) := by
    ext j
    simp only [Finset.mem_filter, Finset.mem_univ, true_and, Finset.mem_insert]
    by_cases hj : j = i
    · subst hj
      simp [hi']
    · simp [hj, h j hj]
  rw [heq, Finset.card_insert_of_notMem (by simp [hi])]

/-! ## §3. The invariant. -/

/-- The worker is in s_main(), and has called s_incr(). -/
def State.Busy (s : State n) (i : Fin n) : Prop :=
  s.sum.place (some i) ≠ .idle ∨ s.returned i = true

/-- main() is in its loop, and not in a resume. -/
def Main.isOpen : Main → Bool
  | .prompt => true
  | .pausing _ => true
  | .setting => true
  | .showing _ => true
  | _ => false

/-- main() is about to set the sum to zero, or to print the zero. -/
def Main.isZeroing : Main → Bool
  | .setting => true
  | .showing (.paused true) => true
  | _ => false

/-- The stage and the sum against the place of main(). -/
def MainFits (s : State n) : Prop :=
  match s.main with
  | .prompt => s.crew.api = .idle ∧ s.sum.place none = .idle
  | .pausing _ => s.crew.api.isPausing = true ∧ s.sum.place none = .idle
  | .setting =>
      s.crew.api = .idle ∧ IsPaused s.crew ∧ ∀ op, (s.sum.place none).op = some op → op = .set 0
  | .showing how =>
      s.crew.api = .idle ∧ (∀ op, (s.sum.place none).op = some op → op = .get) ∧
        (how ≠ .got → IsPaused s.crew) ∧ (how = .paused true → s.sum.s_sum = 0)
  | _ => s.sum.place none = .idle

/-- **The invariant**, of a state and its history. -/
structure Inv (ls : List (Obs n)) (s : State n) : Prop where
  crew : Pipeline.Pause.Inv s.crew
  sum : s.sum.Inv
  busy : ∀ i, s.Busy i → ∃ rest, s.crew.place i = .executing .main rest
  apart : ∀ i, s.returned i = true → s.sum.place (some i) = .idle
  incr : ∀ i op, (s.sum.place (some i)).op = some op → op = .incr
  main : MainFits s
  counts : s.sum.s_sum = processed ls + UInt64.ofNat s.numPending
  frozen : ∀ v, lastPaused ls = some v →
    IsPaused s.crew ∧ s.main.isOpen = true ∧ (s.main.isZeroing = false → s.sum.s_sum = v)

theorem Inv.initial : Inv [] (State.initial n) where
  crew := Pipeline.Pause.Inv.started n .f_m_t
  sum := Sum.Inv.initial
  busy i h := by rcases h with h | h <;> exact absurd h (by simp [State.initial, Sum.initial])
  apart i h := rfl
  incr i op h := absurd h (by simp [State.initial, Sum.initial, At.op])
  main := ⟨rfl, rfl⟩
  counts := by
    rw [numPending_none fun i => by simp [State.pending, State.initial, Sum.initial, At.isCounted]]
    rfl
  frozen v h := absurd h (by simp [lastPaused])

/-- Nobody counts in a paused stage. -/
theorem Inv.not_busy (h : Inv ls s) (hp : IsPaused s.crew) (i : Fin n) : ¬ s.Busy i := by
  intro hbusy
  obtain ⟨rest, hplace⟩ := h.busy i hbusy
  have hquiet := (h.crew.quiet hp i).2.2
  rw [hplace] at hquiet
  exact absurd hquiet (by simp [Place.isExecuting])

theorem Inv.none_pending (h : Inv ls s) (hp : IsPaused s.crew) : s.numPending = 0 := by
  refine numPending_none fun i => ?_
  have hbusy := h.not_busy hp i
  unfold State.Busy at hbusy
  push Not at hbusy
  unfold State.pending
  rw [hbusy.1, Bool.eq_false_of_not_eq_true hbusy.2]
  rfl

/-- So the sum of a paused stage is exact. -/
theorem Inv.exact (h : Inv ls s) (hp : IsPaused s.crew) : s.sum.s_sum = processed ls := by
  rw [h.counts, h.none_pending hp]
  exact UInt64.add_zero _

/-- What other threads do around main(). -/
theorem MainFits.around (h : MainFits s) (hmain : s'.main = s.main)
    (hplace : s'.sum.place none = s.sum.place none)
    (hsum : IsPaused s.crew → s'.sum.s_sum = s.sum.s_sum)
    (hcrew : Pipeline.Pause.Beside s.crew s'.crew) : MainFits s' := by
  unfold MainFits at h ⊢
  rw [hmain]
  cases hm : s.main with
  | prompt =>
    rw [hm] at h
    exact ⟨hcrew.idle h.1, hplace.trans h.2⟩
  | pausing zero =>
    rw [hm] at h
    exact ⟨hcrew.pausing h.1, hplace.trans h.2⟩
  | setting =>
    rw [hm] at h
    obtain ⟨hidle, hpaused, hop⟩ := h
    exact ⟨hcrew.idle hidle, hcrew.paused hpaused, fun op ho => hop op (hplace ▸ ho)⟩
  | showing how =>
    rw [hm] at h
    obtain ⟨hidle, hop, hpaused, hzero⟩ := h
    refine ⟨hcrew.idle hidle, fun op ho => hop op (hplace ▸ ho),
      fun hne => hcrew.paused (hpaused hne), fun heq => ?_⟩
    exact (hsum (hpaused (by rw [heq]; simp))).trans (hzero heq)
  | resuming | shuttingDown | stopping | waiting | crashed =>
    rw [hm] at h
    exact hplace.trans h

/-- **A step of the stage, or of main() alone**: nothing is counted. -/
theorem Inv.of_crew (h : Inv ls s) {l : Obs n} {crew : Crew n} {main : Main} {st : Result}
    {stop : Bool} (hcrew : Pipeline.Pause.Inv crew)
    (hbusy : ∀ i, s.Busy i → crew.place i = s.crew.place i)
    (hmain : MainFits { s with crew := crew, main := main, st := st, s_do_stop := stop })
    (hl : ∀ v, countUp v l = v)
    (hfrozen : ∀ v, pausedAfter (lastPaused ls) l = some v →
      IsPaused crew ∧ main.isOpen = true ∧ (main.isZeroing = false → s.sum.s_sum = v)) :
    Inv (ls ++ [l]) { s with crew := crew, main := main, st := st, s_do_stop := stop } where
  crew := hcrew
  sum := h.sum
  busy i hi := by
    obtain ⟨rest, hplace⟩ := h.busy i hi
    exact ⟨rest, (hbusy i hi).trans hplace⟩
  apart := h.apart
  incr := h.incr
  main := hmain
  counts := by
    rw [processed_snoc, hl]
    exact h.counts
  frozen v hv := by
    rw [lastPaused_snoc] at hv
    exact hfrozen v hv

/-! ## §4. Steps of the workers. -/

/-- A worker's step of the stage, with no s_main() at its end. -/
theorem Inv.of_worker (h : Inv ls s) {l : Pipeline.Pause.Label n} {crew : Crew n} {i : Fin n}
    (hstep : Pipeline.Pause.Step s.crew l crew) (he : Pipeline.Pause.WorkerEffect s.crew i crew)
    (hi : ∀ rest, s.crew.place i ≠ .executing .main rest) :
    Inv (ls ++ [.quiet]) { s with crew := crew } := by
  have hbeside := he.beside h.crew hstep
  refine h.of_crew (h.crew.step hstep) (fun j hj => ?_) ?_ (fun _ => rfl) fun v hv => ?_
  · obtain ⟨rest, hplace⟩ := h.busy j hj
    refine he.executing_stays ?_ (by rw [hplace]; rfl)
    rintro rfl
    exact hi rest hplace
  · exact h.main.around rfl rfl (fun _ => rfl) hbeside
  · exact (h.frozen v hv).imp_left hbeside.paused

theorem pending_frame {i : Fin n} (hplace : s'.sum.place (some i) = s.sum.place (some i))
    (hret : s'.returned i = s.returned i) : s'.pending i = s.pending i := by
  unfold State.pending
  rw [hplace, hret]

/-- A step of s_incr() in the s_main() of worker `i`. -/
theorem Inv.of_incr (h : Inv ls s) {i : Fin n} {rest : List Pipeline.Pause.Proc}
    {sum : Sum (Option (Fin n))} {returned : Fin n → Bool}
    (hi : s.crew.place i = .executing .main rest) (hsum : sum.Inv)
    (hothers : ∀ u, u ≠ some i → sum.place u = s.sum.place u)
    (hret : ∀ j, j ≠ i → returned j = s.returned j)
    (hapart : returned i = true → sum.place (some i) = .idle)
    (hop : ∀ op, (sum.place (some i)).op = some op → op = .incr)
    (hcounts : (sum.s_sum = s.sum.s_sum ∧
        { s with sum := sum, returned := returned }.pending i = s.pending i) ∨
      (sum.s_sum = s.sum.s_sum + 1 ∧ s.pending i = false ∧
        { s with sum := sum, returned := returned }.pending i = true)) :
    Inv (ls ++ [.quiet]) { s with sum := sum, returned := returned } := by
  have hnot : ¬ IsPaused s.crew := by
    intro hp
    have hquiet := (h.crew.quiet hp i).2.2
    rw [hi] at hquiet
    exact absurd hquiet (by simp [Place.isExecuting])
  have hsome : ∀ {j : Fin n}, j ≠ i → some j ≠ some i := fun hj heq => hj (Option.some.inj heq)
  refine ⟨h.crew, hsum, fun j hj => ?_, fun j hj => ?_, fun j op hj => ?_, ?_, ?_, ?_⟩
  · by_cases hji : j = i
    · exact ⟨rest, hji ▸ hi⟩
    · refine h.busy j ?_
      rcases hj with hj | hj
      · exact .inl (hothers _ (hsome hji) ▸ hj)
      · exact .inr ((hret j hji).symm.trans hj)
  · by_cases hji : j = i
    · subst hji
      exact hapart hj
    · exact (hothers _ (hsome hji)).trans (h.apart j ((hret j hji).symm.trans hj))
  · by_cases hji : j = i
    · subst hji
      exact hop op hj
    · exact h.incr j op (hothers _ (hsome hji) ▸ hj)
  · refine h.main.around rfl (hothers _ (by simp)) (fun hp => absurd hp hnot) ⟨id, id, id⟩
  · have hframe : ∀ j, j ≠ i →
        { s with sum := sum, returned := returned }.pending j = s.pending j :=
      fun j hj => pending_frame (hothers _ (hsome hj)) (hret j hj)
    rw [processed_snoc]
    rcases hcounts with ⟨heq, hpending⟩ | ⟨heq, hold, hnew⟩
    · rw [numPending_at hpending hframe]
      exact heq.trans h.counts
    · rw [numPending_succ hold hnew hframe, UInt64.ofNat_add, ← UInt64.add_assoc]
      exact heq.trans (congrArg (· + 1) h.counts)
  · intro v hv
    rw [lastPaused_snoc] at hv
    exact absurd (h.frozen v hv).1 hnot

/-- s_main() returns: what it has counted is processed. -/
theorem Inv.of_processed (h : Inv ls s) {l : Pipeline.Pause.Label n} {crew : Crew n} {i : Fin n}
    (hstep : Pipeline.Pause.Step s.crew l crew) (he : Pipeline.Pause.WorkerEffect s.crew i crew)
    (hi : s.returned i = true) :
    Inv (ls ++ [.processed i])
      { s with crew := crew, returned := Function.update s.returned i false } := by
  have hbeside := he.beside h.crew hstep
  have hidle := h.apart i hi
  have hret : ∀ {j : Fin n}, j ≠ i → Function.update s.returned i false j = s.returned j :=
    fun hj => Function.update_of_ne hj ..
  have hnot : ¬ IsPaused s.crew := fun hp => h.not_busy hp i (.inr hi)
  have hold : s.pending i = true := by
    unfold State.pending
    rw [hi]
    rfl
  have hnew : State.pending { s with
      crew := crew, returned := Function.update s.returned i false } i = false := by
    show (Function.update s.returned i false i || (s.sum.place (some i)).isCounted) = false
    rw [hidle, Function.update_self]
    rfl
  refine ⟨h.crew.step hstep, h.sum, fun j hj => ?_, fun j hj => ?_, h.incr, ?_, ?_, ?_⟩
  · have hji : j ≠ i := by
      rintro rfl
      rcases hj with hj | hj
      · exact hj hidle
      · exact absurd (show Function.update s.returned j false j = true from hj) (by simp)
    have hbusy : s.Busy j := hj.imp_right fun hj => (hret hji).symm.trans hj
    obtain ⟨rest, hplace⟩ := h.busy j hbusy
    exact ⟨rest, (he.executing_stays hji (by rw [hplace]; rfl)).trans hplace⟩
  · have hji : j ≠ i := by
      rintro rfl
      exact absurd (show Function.update s.returned j false j = true from hj) (by simp)
    exact h.apart j ((hret hji).symm.trans hj)
  · exact h.main.around rfl rfl (fun _ => rfl) hbeside
  · have hsucc := numPending_succ hnew hold fun j hj => pending_frame rfl (hret hj).symm
    rw [processed_snoc]
    show s.sum.s_sum = processed ls + 1 + UInt64.ofNat _
    rw [h.counts, hsucc, UInt64.ofNat_add, UInt64.add_assoc, UInt64.add_comm 1]
    rfl
  · intro v hv
    rw [lastPaused_snoc] at hv
    exact absurd (h.frozen v hv).1 hnot

/-- A worker's step of the stage is one of that worker. -/
theorem onCrew_worker {i : Fin n} {ret : Result} {master : Fin n} {k : Crew n → Obs n × State n}
    {l : Obs n} (hnext : onCrew s (.worker i ret master) k = some (l, s')) :
    ∃ (crew : Crew n) (l' : Pipeline.Pause.Label n), Pipeline.Pause.Step s.crew l' crew ∧
      Pipeline.Pause.WorkerEffect s.crew i crew ∧ k crew = (l, s') := by
  obtain ⟨⟨l', crew⟩, hstep, hk⟩ := Option.map_eq_some_iff.mp hnext
  refine ⟨crew, l', ⟨_, hstep⟩, ?_, hk⟩
  obtain ⟨crew', hw, heq⟩ := Option.map_eq_some_iff.mp hstep
  injection heq with _ heq
  exact heq ▸ Pipeline.Pause.workerStep_cases hw

/-- **A step of s_main().** -/
theorem Inv.of_sMain (h : Inv ls s) {i : Fin n} {rest : List Pipeline.Pause.Proc}
    (hi : s.crew.place i = .executing .main rest) {n_evs : Result} {master : Fin n} {l : Obs n}
    (hnext : sMain s i n_evs master = some (l, s')) : Inv (ls ++ [l]) s' := by
  unfold sMain at hnext
  split at hnext
  next hret =>
    obtain ⟨crew, l', hstep, he, hk⟩ := onCrew_worker hnext
    injection hk with hl hs
    subst hl hs
    exact h.of_processed hstep he hret
  next hret =>
    have hfalse : s.returned i = false := by simpa using hret
    split at hnext
    next hidle =>
      obtain ⟨⟨e, sum⟩, hcall, heq⟩ := Option.map_eq_some_iff.mp hnext
      injection heq with hl hs
      subst hl hs
      obtain ⟨hinv, -, -, hsum, hplace⟩ := call_spec h.sum hcall
      have hself : sum.place (some i) = .locking .incr := by rw [hplace, Function.update_self]
      have hothers : ∀ u, u ≠ some i → sum.place u = s.sum.place u := fun u hu => by
        rw [hplace, Function.update_of_ne hu]
      refine h.of_incr hi hinv hothers (fun _ _ => rfl) ?_ ?_ ?_
      · exact fun ht => absurd (hfalse.symm.trans ht) (by decide)
      · intro op hop
        rw [hself] at hop
        exact (Option.some.inj hop).symm
      · refine .inl ⟨hsum, ?_⟩
        unfold State.pending
        rw [hself, hidle]
        rfl
    next hbusy =>
      obtain ⟨⟨e, sum⟩, hrun, heq⟩ := Option.map_eq_some_iff.mp hnext
      obtain ⟨hinv, heff⟩ := run_spec h.sum hrun
      cases heff with
      | quiet hsum hothers hop hcounted =>
        injection heq with hl hs
        subst hl hs
        refine h.of_incr hi hinv hothers (fun _ _ => rfl) ?_ (fun op ho => ?_) ?_
        · exact fun ht => absurd (hfalse.symm.trans ht) (by decide)
        · exact h.incr i op (hop ▸ ho)
        · refine .inl ⟨hsum, ?_⟩
          unfold State.pending
          rw [hcounted]
      | wrote op hsum hothers hop hcounted =>
        injection heq with hl hs
        subst hl hs
        obtain rfl := h.incr i op hop.1
        refine h.of_incr hi hinv hothers (fun _ _ => rfl) ?_ (fun op ho => ?_) ?_
        · exact fun ht => absurd (hfalse.symm.trans ht) (by decide)
        · exact (Option.some.inj (hop.2.symm.trans ho)).symm
        · refine .inr ⟨hsum, ?_, ?_⟩ <;> unfold State.pending
          · rw [hfalse, hcounted.1]
            rfl
          · rw [hcounted.2.mpr rfl, Bool.or_true]
      | returned op hsum hothers hop hcounted hset =>
        injection heq with hl hs
        subst hl hs
        obtain rfl := h.incr i op hop.1
        refine h.of_incr hi hinv hothers (fun j hj => Function.update_of_ne hj ..)
          (fun _ => hop.2) (fun op ho => ?_) ?_
        · rw [hop.2] at ho
          exact absurd ho (by simp [At.op])
        · refine .inl ⟨hsum, ?_⟩
          unfold State.pending
          rw [hcounted.mpr rfl, Bool.or_true]
          show (Function.update s.returned i true i || _) = true
          rw [Function.update_self, Bool.true_or]

/-- **A worker's step.** -/
theorem Inv.of_workerStep (h : Inv ls s) {i master : Fin n} {l : Obs n}
    (hnext : workerStep s i master = some (l, s')) : Inv (ls ++ [l]) s' := by
  -- the steps with which nothing is seen
  have hquiet : ∀ {ret : Result}, (∀ rest, s.crew.place i ≠ .executing .main rest) →
      onCrew s (.worker i ret master) (fun crew => (.quiet, { s with crew := crew })) =
        some (l, s') → Inv (ls ++ [l]) s' := by
    intro ret hi hnext
    obtain ⟨crew, l', hstep, he, hk⟩ := onCrew_worker hnext
    injection hk with hl hs
    subst hl hs
    exact h.of_worker hstep he hi
  unfold workerStep at hnext
  split at hnext
  next hi => exact hquiet (fun rest hrest => absurd (hi.symm.trans hrest) (by simp)) hnext
  next hi => exact h.of_sMain hi hnext
  next hi => exact hquiet (fun rest hrest => absurd (hi.symm.trans hrest) (by simp)) hnext
  next _ hi _ => exact hquiet (fun rest hrest => hi rest hrest) hnext

/-! ## §5. Steps of main(). -/

/-- A step of main() in s_set() or s_get(). -/
theorem Inv.of_sum (h : Inv ls s) {l : Obs n} {sum : Sum (Option (Fin n))} {main : Main}
    (hsum : sum.Inv) (hothers : ∀ u, u ≠ none → sum.place u = s.sum.place u)
    (hmain : MainFits { s with sum := sum, main := main })
    (hcounts : sum.s_sum = countUp (processed ls) l + UInt64.ofNat s.numPending)
    (hfrozen : ∀ v, pausedAfter (lastPaused ls) l = some v →
      IsPaused s.crew ∧ main.isOpen = true ∧ (main.isZeroing = false → sum.s_sum = v)) :
    Inv (ls ++ [l]) { s with sum := sum, main := main } where
  crew := h.crew
  sum := hsum
  busy i hi := h.busy i (hi.imp_left fun hi => hothers (some i) (by simp) ▸ hi)
  apart i hi := (hothers (some i) (by simp)).trans (h.apart i hi)
  incr i op hi := h.incr i op (hothers (some i) (by simp) ▸ hi)
  main := hmain
  counts := by
    have hpending : { s with sum := sum, main := main }.numPending = s.numPending :=
      numPending_congr fun i => pending_frame (hothers (some i) (by simp)) rfl
    rw [processed_snoc, hpending]
    exact hcounts
  frozen v hv := by
    rw [lastPaused_snoc] at hv
    exact hfrozen v hv

/-- main() enters a call on the stage. -/
theorem onCrew_call {c : Pipeline.Pause.Call} {k : Crew n → Obs n × State n} {l : Obs n}
    (hnext : onCrew s (.call c) k = some (l, s')) :
    k (s.crew.at c.entry) = (l, s') ∧
      ∃ l', Pipeline.Pause.Step s.crew l' (s.crew.at c.entry) := by
  obtain ⟨⟨l', crew⟩, hstep, hk⟩ := Option.map_eq_some_iff.mp hnext
  have hcrew : crew = s.crew.at c.entry := by
    simp only [Pipeline.Pause.next] at hstep
    split at hstep
    · exact (Prod.mk.inj (Option.some.inj hstep)).2.symm
    · exact absurd hstep (by simp)
  subst hcrew
  exact ⟨hk, l', _, hstep⟩

/-- The loop is over. -/
theorem Inv.of_leave (h : Inv ls s) (hidle : s.sum.place none = .idle) {l : Obs n}
    (hnext : leave s = some (l, s')) : Inv (ls ++ [l]) s' := by
  obtain ⟨hk, l', hstep⟩ := onCrew_call hnext
  injection hk with hl hs
  subst hl hs
  exact h.of_crew (h.crew.step hstep) (fun _ _ => rfl) hidle (fun _ => rfl)
    (fun v hv => absurd hv (by simp [pausedAfter]))

/-- **A line is read.** -/
theorem Inv.of_atPrompt (h : Inv ls s) (hm : s.main = .prompt) {line : Option (List Char)}
    {l : Obs n} (hnext : atPrompt s line = some (l, s')) : Inv (ls ++ [l]) s' := by
  have hmain := h.main
  unfold MainFits at hmain
  rw [hm] at hmain
  obtain ⟨hapi, hidle⟩ := hmain
  have hsum : ∀ v, lastPaused ls = some v → IsPaused s.crew ∧ s.sum.s_sum = v := by
    intro v hv
    obtain ⟨hp, -, hzero⟩ := h.frozen v hv
    exact ⟨hp, hzero (by rw [hm]; rfl)⟩
  unfold atPrompt at hnext
  split at hnext
  next => exact h.of_leave hidle hnext
  next buf =>
    split at hnext
    next => exact h.of_leave hidle hnext
    next =>
      split at hnext
      next =>
        cases hnext
        exact h.of_crew h.crew (fun _ _ => rfl) hidle (fun _ => rfl)
          (fun v hv => absurd hv (by simp [pausedAfter]))
      next cmd _ =>
        split at hnext
        next =>
          cases hnext
          exact h.of_crew h.crew (fun _ _ => rfl) h.main (fun _ => rfl) h.frozen
        next zero _ =>
          obtain ⟨hk, l', hstep⟩ := onCrew_call hnext
          injection hk with hl hs
          subst hl hs
          refine h.of_crew (h.crew.step hstep) (fun _ _ => rfl) ⟨rfl, hidle⟩ (fun _ => rfl) ?_
          intro v hv
          obtain ⟨hp, hv⟩ := hsum v hv
          exact ⟨hp, rfl, fun _ => hv⟩
        next =>
          obtain ⟨hk, l', hstep⟩ := onCrew_call hnext
          injection hk with hl hs
          subst hl hs
          exact h.of_crew (h.crew.step hstep) (fun _ _ => rfl) hidle (fun _ => rfl)
            (fun v hv => absurd hv (by simp [pausedAfter]))
        next =>
          cases hnext
          refine h.of_crew h.crew (fun _ _ => rfl) ?_ (fun _ => rfl) ?_
          · refine ⟨hapi, fun op hop => ?_, fun hne => absurd rfl hne, fun heq => ?_⟩
            · rw [hidle] at hop
              exact absurd hop (by simp [At.op])
            · exact absurd heq (by simp)
          · intro v hv
            obtain ⟨hp, hv⟩ := hsum v hv
            exact ⟨hp, rfl, fun _ => hv⟩

theorem At.op_eq_none {p : At} (h : p.op = none) : p = .idle := by
  cases p <;> simp_all [At.op]

/-- **A step of s_set(0), or of s_get()**, with `op` the one of them that main()
is in. -/
theorem onSum_spec (h : Inv ls s) {op : Op} (hne : op ≠ .incr)
    (hop : ∀ op', (s.sum.place none).op = some op' → op' = op)
    {k : UInt64 → Obs n × Main} {l : Obs n} (hnext : onSum s op k = some (l, s')) :
    ∃ sum : Sum (Option (Fin n)), sum.Inv ∧ (∀ u, u ≠ none → sum.place u = s.sum.place u) ∧
      ((s' = { s with sum := sum } ∧ l = .quiet ∧ sum.s_sum = s.sum.s_sum ∧
          (sum.place none).op = some op) ∨
        (∃ v, op = .set v ∧ s' = { s with sum := sum } ∧ l = .set v ∧ sum.s_sum = v ∧
          (sum.place none).op = some op) ∨
        (s' = { s with sum := sum, main := (k s.sum.s_sum).2 } ∧ l = (k s.sum.s_sum).1 ∧
          sum.s_sum = s.sum.s_sum ∧ sum.place none = .idle ∧
          ∀ v, op = .set v → s.sum.s_sum = v)) := by
  unfold onSum at hnext
  split at hnext
  next hidle =>
    obtain ⟨⟨e, sum⟩, hcall, heq⟩ := Option.map_eq_some_iff.mp hnext
    injection heq with hl hs
    subst hl hs
    obtain ⟨hinv, -, -, hsum, hplace⟩ := call_spec h.sum hcall
    refine ⟨sum, hinv, fun u hu => ?_, .inl ⟨rfl, rfl, hsum, ?_⟩⟩
    · rw [hplace, Function.update_of_ne hu]
    rw [hplace, Function.update_self]
    rfl
  next hbusy =>
    obtain ⟨⟨e, sum⟩, hrun, heq⟩ := Option.map_eq_some_iff.mp hnext
    obtain ⟨hinv, heff⟩ := run_spec h.sum hrun
    refine ⟨sum, hinv, ?_⟩
    cases heff with
    | quiet hsum hothers hop' hcounted =>
      injection heq with hl hs
      subst hl hs
      refine ⟨hothers, .inl ⟨rfl, rfl, hsum, ?_⟩⟩
      cases hp : (s.sum.place none).op with
      | none => exact absurd (At.op_eq_none hp) hbusy
      | some op' => rw [hop', hp, hop op' hp]
    | wrote op' hsum hothers hop' hcounted =>
      obtain rfl := hop op' hop'.1
      cases op' with
      | set v =>
        injection heq with hl hs
        subst hl hs
        exact ⟨hothers, .inr (.inl ⟨v, rfl, rfl, rfl, hsum, hop'.2⟩)⟩
      | incr => exact absurd rfl hne
      | get =>
        injection heq with hl hs
        subst hl hs
        exact ⟨hothers, .inl ⟨rfl, rfl, hsum, hop'.2⟩⟩
    | returned op' hsum hothers hop' hcounted hset =>
      injection heq with hl hs
      subst hl hs
      obtain rfl := hop op' hop'.1
      exact ⟨hothers, .inr (.inr ⟨rfl, rfl, hsum, hop'.2, hset⟩)⟩

/-- s_set(0) in a paused stage. -/
theorem Inv.of_setting (h : Inv ls s) (hm : s.main = .setting) {l : Obs n}
    (hnext : onSum s (.set 0) (fun _ => (.quiet, .showing (.paused true))) = some (l, s')) :
    Inv (ls ++ [l]) s' := by
  have hmain := h.main
  unfold MainFits at hmain
  rw [hm] at hmain
  obtain ⟨hidle, hpaused, hop⟩ := hmain
  have hopen : s.main.isOpen = true ∧ s.main.isZeroing = true := by
    rw [hm]
    exact ⟨rfl, rfl⟩
  have hfrozen : ∀ {x : UInt64} v, lastPaused ls = some v →
      IsPaused s.crew ∧ s.main.isOpen = true ∧ (s.main.isZeroing = false → x = v) :=
    fun v _ => ⟨hpaused, hopen.1, fun hz => absurd (hopen.2.symm.trans hz) (by decide)⟩
  have hfits : ∀ {sum : Sum (Option (Fin n))}, (sum.place none).op = some (.set 0) →
      MainFits { s with sum := sum } := by
    intro sum hsome
    unfold MainFits
    rw [hm]
    exact ⟨hidle, hpaused, fun op ho => Option.some.inj (ho.symm.trans hsome)⟩
  obtain ⟨sum, hinv, hothers, hcases⟩ := onSum_spec h (by simp) hop hnext
  rcases hcases with ⟨rfl, rfl, hsum, hsome⟩ | ⟨v, hv, rfl, rfl, hsum, hsome⟩ |
    ⟨rfl, rfl, hsum, hdone, hset⟩
  · exact h.of_sum hinv hothers (hfits hsome) (hsum.trans h.counts) hfrozen
  · obtain rfl := Op.set.inj hv
    refine h.of_sum hinv hothers (hfits hsome) ?_ hfrozen
    -- nobody is in s_main(), so that nothing more is to be counted
    rw [h.none_pending hpaused]
    exact hsum
  · refine h.of_sum hinv hothers ?_ (hsum.trans h.counts)
      (fun v _ => ⟨hpaused, rfl, fun hz => absurd hz (by simp [Main.isZeroing])⟩)
    refine ⟨hidle, fun op ho => ?_, fun _ => hpaused, fun _ => hsum.trans (hset 0 rfl)⟩
    rw [show sum.place none = .idle from hdone] at ho
    exact absurd ho (by simp [At.op])

/-- s_get(), and the printing. -/
theorem Inv.of_showing (h : Inv ls s) {how : Show} (hm : s.main = .showing how) {l : Obs n}
    (hnext : onSum s .get (fun v => (.shown how v, .prompt)) = some (l, s')) :
    Inv (ls ++ [l]) s' := by
  have hmain := h.main
  unfold MainFits at hmain
  rw [hm] at hmain
  obtain ⟨hidle, hop, hpaused, hzero⟩ := hmain
  obtain ⟨sum, hinv, hothers, hcases⟩ := onSum_spec h (by simp) hop hnext
  rcases hcases with ⟨rfl, rfl, hsum, hsome⟩ | ⟨v, hv, -⟩ | ⟨rfl, rfl, hsum, hdone, -⟩
  · refine h.of_sum hinv hothers ?_ (hsum.trans h.counts) fun v hv => ?_
    · unfold MainFits
      rw [hm]
      exact ⟨hidle, fun op ho => Option.some.inj (ho.symm.trans hsome), hpaused,
        fun heq => hsum.trans (hzero heq)⟩
    · obtain ⟨hp, hopen, hval⟩ := h.frozen v hv
      exact ⟨hp, hopen, fun hz => hsum.trans (hval hz)⟩
  · exact absurd hv (by simp)
  · refine h.of_sum hinv hothers ⟨hidle, hdone⟩ (hsum.trans h.counts) fun v hv => ?_
    cases how with
    | paused zero =>
      obtain rfl := Option.some.inj hv
      exact ⟨hpaused (by simp), rfl, fun _ => hsum⟩
    | got =>
      obtain ⟨hp, -, hval⟩ := h.frozen v hv
      exact ⟨hp, rfl, fun _ => hsum.trans (hval (by rw [hm]; rfl))⟩

/-- A step of main() in a call on the stage is a step of that call. -/
theorem inCall_spec {k : Pipeline.Pause.Outcome → Crew n → Obs n × State n} {l : Obs n}
    (hnext : inCall s k = some (l, s')) :
    ∃ o crew, Pipeline.Pause.apiStep s.crew = some (o, crew) ∧
      Pipeline.Pause.Step s.crew ⟨.api, o⟩ crew ∧ k o crew = (l, s') := by
  obtain ⟨⟨l', crew⟩, hstep, hk⟩ := Option.map_eq_some_iff.mp hnext
  obtain ⟨⟨o, crew'⟩, ha, heq⟩ := Option.map_eq_some_iff.mp hstep
  injection heq with hl hs
  subst hl hs
  exact ⟨o, crew', ha, ⟨.api, hstep⟩, hk⟩

/-- Who counts is not moved by a call. -/
theorem Inv.busy_stays (h : Inv ls s) {o : Pipeline.Pause.Outcome} {crew : Crew n}
    (ha : Pipeline.Pause.apiStep s.crew = some (o, crew)) (i : Fin n) (hi : s.Busy i) :
    crew.place i = s.crew.place i := by
  obtain ⟨rest, hplace⟩ := h.busy i hi
  exact (Pipeline.Pause.apiStep_cases h.crew ha).executing_stays (by rw [hplace]; rfl)

/-- main() in a pause. -/
theorem Inv.of_pausing (h : Inv ls s) {zero : Bool} (hm : s.main = .pausing zero) {l : Obs n}
    {line : Option (List Char)} (hnext : mainStep s line = some (l, s')) :
    Inv (ls ++ [l]) s' := by
  have hmain := h.main
  unfold MainFits at hmain
  rw [hm] at hmain
  obtain ⟨hpausing, hidle⟩ := hmain
  simp only [mainStep, hm] at hnext
  obtain ⟨o, crew, ha, hstep, hk⟩ := inCall_spec hnext
  have hfrozen : ∀ v, lastPaused ls = some v → IsPaused crew ∧ s.sum.s_sum = v := by
    intro v hv
    obtain ⟨hp, -, hval⟩ := h.frozen v hv
    exact ⟨Pipeline.Pause.apiStep_keeps h.crew ha hpausing hp, hval (by rw [hm]; rfl)⟩
  rcases Pipeline.Pause.apiStep_pausing ha hpausing with ⟨rfl, hapi⟩ | ⟨ret, rfl, hapi⟩
  · injection hk with hl hs
    subst hl hs
    refine h.of_crew (h.crew.step hstep) (h.busy_stays ha) ⟨hapi, hidle⟩ (fun _ => rfl) ?_
    intro v hv
    obtain ⟨hp, hval⟩ := hfrozen v hv
    exact ⟨hp, rfl, fun _ => hval⟩
  · injection hk with hl hs
    subst hl hs
    have hok : ret = .ok → IsPaused crew := by
      rintro rfl
      exact h.crew.pause_ok hstep rfl
    have hnone : ∀ op op' : Op, (s.sum.place none).op = some op → op = op' := by
      intro op op' ho
      rw [hidle] at ho
      exact absurd ho (by simp [At.op])
    refine h.of_crew (h.crew.step hstep) (h.busy_stays ha) ?_ (fun _ => rfl) fun v hv => ?_
    · unfold MainFits
      dsimp only
      by_cases hret : ret = .ok
      · rw [if_pos hret]
        cases zero with
        | true => exact ⟨hapi, hok hret, fun op => hnone op _⟩
        | false =>
          exact ⟨hapi, fun op => hnone op _, fun _ => hok hret, fun heq => absurd heq (by simp)⟩
      · rw [if_neg hret]
        exact ⟨hapi, hidle⟩
    · obtain ⟨hp, hval⟩ := hfrozen v hv
      refine ⟨hp, ?_, fun _ => hval⟩
      split
      · split <;> rfl
      · rfl

/-- main() in a resume, or in the shutdown: no number counts as printed. -/
theorem Inv.of_call (h : Inv ls s) (hclosed : s.main.isOpen = false)
    {o : Pipeline.Pause.Outcome} {crew : Crew n}
    (ha : Pipeline.Pause.apiStep s.crew = some (o, crew))
    (hstep : Pipeline.Pause.Step s.crew ⟨.api, o⟩ crew) {l : Obs n} {main : Main} {st : Result}
    (hmain : MainFits { s with crew := crew, main := main, st := st })
    (hl : ∀ v, countUp v l = v) (hl' : ∀ v, pausedAfter v l = v) :
    Inv (ls ++ [l]) { s with crew := crew, main := main, st := st } := by
  refine h.of_crew (h.crew.step hstep) (h.busy_stays ha) hmain hl fun v hv => ?_
  rw [hl'] at hv
  exact absurd (hclosed.symm.trans (h.frozen v hv).2.1) (by decide)

/-- **A step of main().** -/
theorem Inv.of_mainStep (h : Inv ls s) {line : Option (List Char)} {l : Obs n}
    (hnext : mainStep s line = some (l, s')) : Inv (ls ++ [l]) s' := by
  have hmain := h.main
  unfold MainFits at hmain
  cases hm : s.main with
  | prompt =>
    simp only [mainStep, hm] at hnext
    exact h.of_atPrompt hm hnext
  | pausing zero => exact h.of_pausing hm hnext
  | setting =>
    simp only [mainStep, hm] at hnext
    exact h.of_setting hm hnext
  | showing how =>
    simp only [mainStep, hm] at hnext
    exact h.of_showing hm hnext
  | resuming =>
    have hclosed : s.main.isOpen = false := by rw [hm]; rfl
    simp only [mainStep, hm] at hnext hmain
    obtain ⟨o, crew, ha, hstep, hk⟩ := inCall_spec hnext
    cases o with
    | resumed ret =>
      cases hk
      have hidle := Pipeline.Pause.apiStep_returns ha (by simp)
      exact h.of_call hclosed ha hstep ⟨hidle, hmain⟩ (fun _ => rfl) (fun _ => rfl)
    | quiet | paused ret | shutDown ret =>
      cases hk
      exact h.of_call hclosed ha hstep hmain (fun _ => rfl) (fun _ => rfl)
  | shuttingDown =>
    have hclosed : s.main.isOpen = false := by rw [hm]; rfl
    simp only [mainStep, hm] at hnext hmain
    obtain ⟨o, crew, ha, hstep, hk⟩ := inCall_spec hnext
    cases o with
    | shutDown ret =>
      cases hk
      refine h.of_call hclosed ha hstep ?_ (fun _ => rfl) (fun _ => rfl)
      unfold MainFits
      dsimp only
      by_cases hret : ret = .ok
      · rw [if_pos hret]
        exact hmain
      · rw [if_neg hret]
        exact hmain
    | quiet | paused ret | resumed ret =>
      cases hk
      exact h.of_call hclosed ha hstep hmain (fun _ => rfl) (fun _ => rfl)
  | stopping =>
    simp only [mainStep, hm] at hnext hmain
    cases hnext
    refine h.of_crew h.crew (fun _ _ => rfl) hmain (fun _ => rfl) fun v hv => ?_
    have hopen := (h.frozen v hv).2.1
    rw [hm] at hopen
    exact absurd hopen (by decide)
  | waiting | crashed =>
    simp only [mainStep, hm] at hnext
    exact absurd hnext (by simp)

/-! ## §6. The numbers. -/

/-- **The step lemma.** -/
theorem next_inv (h : Inv ls s) {l : Obs n} (hstep : Step n s l s') : Inv (ls ++ [l]) s' := by
  obtain ⟨a, ha⟩ := hstep
  cases a with
  | worker i master => exact h.of_workerStep ha
  | main line => exact h.of_mainStep ha
  | wakeWorker i =>
    obtain ⟨⟨l', crew⟩, hstep, hk⟩ := Option.map_eq_some_iff.mp ha
    cases hk
    have hstep' : Pipeline.Pause.Step s.crew l' crew := ⟨_, hstep⟩
    simp only [Pipeline.Pause.next] at hstep
    split at hstep
    next hi =>
      cases hstep
      refine h.of_worker (i := i) hstep'
        (.within (.inl rfl) (by rw [hi]; rfl) rfl (by simp [Place.isMaster])) ?_
      exact fun rest hrest => absurd (hi.symm.trans hrest) (by simp)
    next => exact absurd hstep (by simp)
  | wakeMain =>
    obtain ⟨⟨l', crew⟩, hstep, hk⟩ := Option.map_eq_some_iff.mp ha
    cases hk
    have hstep' : Pipeline.Pause.Step s.crew l' crew := ⟨_, hstep⟩
    obtain ⟨crew', hwake, heq⟩ := Option.map_eq_some_iff.mp hstep
    obtain ⟨nsec, hi, -, hs⟩ := Pipeline.Pause.wakeApi_some hwake
    cases heq
    subst hs
    refine h.of_crew (h.crew.step hstep') (fun _ _ => rfl) ?_ (fun _ => rfl) h.frozen
    refine h.main.around rfl rfl (fun _ => rfl) ⟨fun hidle => ?_, fun _ => rfl, id⟩
    exact absurd (hi.symm.trans hidle) (by simp)

theorem reachable_inv (hrun : Run (Step n) (State.initial n) ls s) : Inv ls s :=
  hrun.invariant_history Inv (fun _ _ _ _ _ h hstep => next_inv h hstep) Inv.initial

/-- **No increment is lost, and none is made twice**: whatever the workers do at
the same time, and whatever is typed, the sum is what they have processed since
it was last set, and in addition what those have counted whose s_main() has not
returned yet. -/
theorem sum_accounts (hrun : Run (Step n) (State.initial n) ls s) :
    s.sum.s_sum = processed ls + UInt64.ofNat s.numPending := (reachable_inv hrun).counts

/-- A worker has counted, and is still in its s_main(). -/
theorem sum_accounts_one : ∃ (ls : List (Obs 1)) (s : State 1),
    Run (Step 1) (State.initial 1) ls s ∧ s.pending 0 = true ∧
    s.sum.s_sum = processed ls + UInt64.ofNat s.numPending ∧ processed ls = 0 := by
  have hexec : (exec next (State.initial 1) (List.replicate 11 (.worker 0 0))).map
      (fun p => (p.2.pending 0, processed p.1)) = some (true, 0) := by decide +kernel
  obtain ⟨⟨ls, s⟩, hexec, hp⟩ := Option.map_eq_some_iff.mp hexec
  obtain ⟨hpending, hprocessed⟩ := Prod.mk.inj hp
  have hs := run_of_exec hexec
  exact ⟨ls, s, hs, hpending, sum_accounts hs, hprocessed⟩

/-- A worker's step prints nothing; it ends an s_main() that has counted. -/
theorem workerStep_seen {i master : Fin n} {l : Obs n}
    (hnext : workerStep s i master = some (l, s')) :
    l = .quiet ∨ (l = .processed i ∧ s.returned i = true) := by
  have hquiet : ∀ {ret : Result},
      onCrew s (.worker i ret master) (fun crew => (.quiet, { s with crew := crew })) =
        some (l, s') → l = .quiet := by
    intro ret h
    obtain ⟨crew, l', -, -, hk⟩ := onCrew_worker h
    exact (Prod.mk.inj hk).1.symm
  unfold workerStep at hnext
  split at hnext
  next => exact .inl (hquiet hnext)
  next =>
    unfold sMain at hnext
    split at hnext
    next hret =>
      obtain ⟨crew, l', -, -, hk⟩ := onCrew_worker hnext
      exact .inr ⟨(Prod.mk.inj hk).1.symm, hret⟩
    next =>
      split at hnext
      next =>
        obtain ⟨r, -, hk⟩ := Option.map_eq_some_iff.mp hnext
        exact .inl (Prod.mk.inj hk).1.symm
      next =>
        obtain ⟨r, -, hk⟩ := Option.map_eq_some_iff.mp hnext
        split at hk <;> exact .inl (Prod.mk.inj hk).1.symm
  next => exact .inl (hquiet hnext)
  next => exact .inl (hquiet hnext)

/-- What is seen of a step of main(): with a number, it is the sum. -/
def Told (s : State n) : Obs n → Prop
  | .processed _ => False
  | .shown how v => s.main = .showing how ∧ v = s.sum.s_sum
  | _ => True

theorem told_call {c : Pipeline.Pause.Call} {l₀ l : Obs n} {k : Crew n → State n}
    (hnext : onCrew s (.call c) (fun crew => (l₀, k crew)) = some (l, s')) (hl : Told s l₀) :
    Told s l := by
  obtain ⟨hk, -⟩ := onCrew_call hnext
  obtain rfl := (Prod.mk.inj hk).1
  exact hl

theorem mainStep_seen (h : Inv ls s) {line : Option (List Char)} {l : Obs n}
    (hnext : mainStep s line = some (l, s')) : Told s l := by
  have hmain := h.main
  unfold MainFits at hmain
  cases hm : s.main with
  | prompt =>
    simp only [mainStep, hm, atPrompt, leave] at hnext
    split at hnext
    · exact told_call hnext trivial
    · split at hnext
      · exact told_call hnext trivial
      · split at hnext
        · cases hnext
          trivial
        · split at hnext
          · cases hnext
            trivial
          · exact told_call hnext trivial
          · exact told_call hnext trivial
          · cases hnext
            trivial
  | pausing zero =>
    simp only [mainStep, hm] at hnext
    obtain ⟨o, crew, -, -, hk⟩ := inCall_spec hnext
    cases o <;> (cases hk; trivial)
  | setting =>
    simp only [mainStep, hm] at hnext hmain
    obtain ⟨sum, -, -, hcases⟩ := onSum_spec h (by simp) hmain.2.2 hnext
    rcases hcases with ⟨-, rfl, -⟩ | ⟨v, -, -, rfl, -⟩ | ⟨-, rfl, -⟩ <;> trivial
  | showing how =>
    simp only [mainStep, hm] at hnext hmain
    obtain ⟨sum, -, -, hcases⟩ := onSum_spec h (by simp) hmain.2.1 hnext
    rcases hcases with ⟨-, rfl, -⟩ | ⟨v, -, -, rfl, -⟩ | ⟨-, rfl, -⟩
    · trivial
    · trivial
    · exact ⟨hm, rfl⟩
  | resuming =>
    simp only [mainStep, hm] at hnext
    obtain ⟨o, crew, -, -, hk⟩ := inCall_spec hnext
    cases o <;> (cases hk; trivial)
  | shuttingDown =>
    simp only [mainStep, hm] at hnext
    obtain ⟨o, crew, -, -, hk⟩ := inCall_spec hnext
    cases o <;> (cases hk; trivial)
  | stopping =>
    simp only [mainStep, hm] at hnext
    cases hnext
    trivial
  | waiting | crashed =>
    simp only [mainStep, hm] at hnext
    exact absurd hnext (by simp)

/-- **What is seen of a step**: a number that is the sum, or a worker's event that
has been counted. -/
theorem step_seen (h : Inv ls s) {l : Obs n} (hstep : Step n s l s') :
    Told s l ∨ ∃ i, l = .processed i ∧ s.returned i = true := by
  have hquiet : ∀ {a : Pipeline.Pause.Action n} {k : Crew n → State n},
      onCrew s a (fun crew => (.quiet, k crew)) = some (l, s') → Told s l := by
    intro a k ha
    obtain ⟨r, -, hk⟩ := Option.map_eq_some_iff.mp ha
    obtain rfl := (Prod.mk.inj hk).1
    trivial
  obtain ⟨a, ha⟩ := hstep
  cases a with
  | worker i master =>
    rcases workerStep_seen ha with rfl | ⟨rfl, hret⟩
    · exact .inl trivial
    · exact .inr ⟨i, rfl, hret⟩
  | main line => exact .inl (mainStep_seen h ha)
  | wakeWorker i =>
    simp only [next] at ha
    exact .inl (hquiet ha)
  | wakeMain =>
    simp only [next] at ha
    exact .inl (hquiet ha)

/-- **The numbers of a paused stage.**  The number that is printed with a pause
is exactly what has been processed since the sum was last set; after `spause` it
is zero.  Until the stage is resumed nothing is processed, and every number that
is printed is the same, but for the zero of a later `spause`. -/
theorem paused_number_exact (hrun : Run (Step n) (State.initial n) ls s) :
    (∀ how v s', Step n s (.shown how v) s' →
      (∀ zero, how = .paused zero → v = processed ls ∧ (zero = true → v = 0)) ∧
      (∀ w, lastPaused ls = some w → how ≠ .paused true → v = w)) ∧
    (∀ w, lastPaused ls = some w → ∀ i s', ¬ Step n s (.processed i) s') := by
  have h := reachable_inv hrun
  refine ⟨fun how v s' hstep => ?_, fun w hw i s' hstep => ?_⟩
  · obtain ⟨hm, rfl⟩ : s.main = .showing how ∧ v = s.sum.s_sum := by
      rcases step_seen h hstep with htold | ⟨i, heq, -⟩
      · exact htold
      · exact absurd heq (by simp)
    have hmain := h.main
    unfold MainFits at hmain
    rw [hm] at hmain
    obtain ⟨-, -, hpaused, hzero⟩ := hmain
    refine ⟨?_, fun w hw hne => (h.frozen w hw).2.2 ?_⟩
    · rintro zero rfl
      exact ⟨h.exact (hpaused (by simp)), fun hz => hzero (by rw [hz])⟩
    · rw [hm]
      cases how with
      | got => rfl
      | paused zero =>
        cases zero with
        | true => exact absurd rfl hne
        | false => rfl
  · rcases step_seen h hstep with htold | ⟨j, heq, hret⟩
    · exact htold
    · exact h.not_busy (h.frozen w hw).1 j (.inr hret)

/-- One event is processed, and the stage is paused. -/
def untilShown : List (Action 1) :=
  let only : Fin 1 := Fin.last 0
  List.replicate 14 (.worker only only) ++ [.main (some "pause\n".toList)] ++
    List.replicate 4 (.main none) ++ List.replicate 8 (.worker only only) ++
    List.replicate 10 (.main none)

/-- The 1 is printed. -/
theorem paused_number_exact_one : ∃ (ls : List (Obs 1)) (s s' : State 1) (v : UInt64),
    Run (Step 1) (State.initial 1) ls s ∧ Step 1 s (.shown (.paused false) v) s' ∧
    v = processed ls ∧ processed ls = 1 := by
  have hexec : (exec next (State.initial 1) untilShown).map
      (fun p => (processed p.1, (next p.2 (.main none)).map Prod.fst)) =
      some (1, some (.shown (.paused false) 1)) := by decide +kernel
  obtain ⟨⟨ls, s⟩, hexec, hp⟩ := Option.map_eq_some_iff.mp hexec
  obtain ⟨hprocessed, hnext⟩ := Prod.mk.inj hp
  obtain ⟨⟨l, s'⟩, hnext, hl⟩ := Option.map_eq_some_iff.mp hnext
  obtain rfl : l = .shown (.paused false) 1 := hl
  have hs := run_of_exec hexec
  have hstep : Step 1 s (.shown (.paused false) 1) s' := ⟨_, hnext⟩
  have hexact := (((paused_number_exact hs).1 _ _ _ hstep).1 false rfl).1
  exact ⟨ls, s, s', 1, hs, hstep, hexact, hprocessed⟩

end Mccp.Counting
