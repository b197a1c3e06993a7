/-
  Mccp.Pipeline.PauseLock
  ───────────────────────
  **WHO UNLOCKS m_pause_lock.**

  s_worker_finalize() unlocks m_pause_lock for every worker that was canceled,
  because one that was canceled in its wait on m_resume_cond comes out of it
  with the lock.  One that was canceled in a fetch, main or throw procedure
  does not hold it.

      Inside              — in a region that m_pause_lock guards
      unlocks             — who unlocks it in a step
      Proper              — and holds it
      InWaitOnly          — no worker acts on its cancellation in a procedure
      unlocked_by_holder  — the one from the other
-/
import Mccp.Lib.Guarded
import Mccp.Pipeline.Stranded

namespace Mccp.Pipeline.Cancel

open Transition Pause Guarded

variable {n : Nat}

/-! ## §1. Regions, and who unlocks. -/

/-- In `s_worker_pause`, with `m_pause_lock` taken. -/
def inRegion : Place → Bool
  | .locked _ => true
  | .notifying => true
  | .recheck => true
  | .unlocking => true
  | _ => false

/-- In `mccp_pipeline_stage_pause` or `s_resume_stage`, with `m_pause_lock` taken. -/
def callInRegion : ApiPlace → Bool
  | .pauseSetting _ => true
  | .pauseRecheck _ => true
  | .pauseUnlocking _ => true
  | .clearSetting _ => true
  | .clearNotifying _ => true
  | .clearUnlocking _ => true
  | _ => false

/-- In the clean-up of a wait on `m_resume_cond`, which has taken `m_pause_lock` again. -/
def finalInRegion : Option Final → Bool
  | some (.locking .inWait) => true
  | some (.canceled .inWait) => true
  | some (.pauseUnlocking .inWait) => true
  | _ => false

/-- **In a region that `m_pause_lock` guards.** -/
def Inside (s : System n) : Holder n → Prop
  | .api => callInRegion s.crew.api = true
  | .worker i => inRegion (s.crew.place i) = true ∨ finalInRegion (s.final i) = true

/-- The call unlocks `m_pause_lock` in its next step, or waits on `m_pause_cond`. -/
def callUnlocks (s : Crew n) : Bool :=
  match s.api with
  | .pauseRecheck _ => decide (s.stage.m_status ≠ .paused)
  | .pauseUnlocking _ => true
  | .clearUnlocking _ => true
  | _ => false

/-- The worker unlocks `m_pause_lock` in its next step, or waits on `m_resume_cond`. -/
def workerUnlocks (s : Crew n) (i : Fin n) : Bool :=
  match s.place i with
  | .recheck => s.stage.m_pause_requested
  | .unlocking => true
  | _ => false

/-- `s_worker_finalize` unlocks `m_pause_lock` in its next step. -/
def finalUnlocks : Option Final → Bool
  | some (.pauseUnlocking _) => true
  | _ => false

/-- Who unlocks `m_pause_lock` in a step. -/
def unlocks (s : System n) : Action n → Option (Holder n)
  | .api _ => if s.cancel = .none ∧ callUnlocks s.crew = true then some .api else none
  | .worker i _ _ => if workerUnlocks s.crew i = true then some (.worker i) else none
  | .finalize i => if finalUnlocks (s.final i) = true then some (.worker i) else none
  | _ => none

/-- **Only the holder unlocks.** -/
def Proper (s : System n) (l : Label n) (_ : System n) : Prop :=
  ∀ h, unlocks s l.action = some h → s.crew.m_pause_lock = some h

/-- **No worker acts on its cancellation in a fetch, main or throw procedure.** -/
def InWaitOnly (s : System n) (l : Label n) (_ : System n) : Prop :=
  ∀ i, l.action = .act i → (s.crew.place i).isExecuting = false

instance InWaitOnly.decidable (s : System n) (l : Label n) (s' : System n) :
    Decidable (InWaitOnly s l s') := inferInstanceAs (Decidable (∀ _, _ → _))

/-! ## §2. What a step does to the lock. -/

section

variable {s s' : Crew n}

theorem go_place (s : Crew n) (i : Fin n) (p : Place) : (s.go i p).place i = p :=
  Function.update_self ..

/-- A worker moves and leaves the lock alone. -/
theorem use_keeps {s : Crew n} {i : Fin n} {before : Prop} {p : Place} (t : Crew n)
    (hlock : t.m_pause_lock = s.m_pause_lock) (hsame : inRegion p = true ↔ before) :
    Use (Holder.worker i) s.m_pause_lock (t.go i p).m_pause_lock before
      (inRegion ((t.go i p).place i) = true) false := by
  refine .keeps hlock ?_
  rw [go_place]
  exact hsame

/-- A worker takes the lock. -/
theorem use_takes {s s' : Crew n} {i : Fin n} {p : Place} {before : Prop}
    (hw : (if s.m_pause_lock = none then
      some ({ s with m_pause_lock := some (.worker i) }.go i p) else none) = some s')
    (hin : inRegion p = true) :
    Use (Holder.worker i) s.m_pause_lock s'.m_pause_lock before
      (inRegion (s'.place i) = true) false := by
  split at hw
  next hfree =>
    cases hw
    refine .takes hfree rfl ?_
    rw [go_place]
    exact hin
  next => exact absurd hw (by simp)

theorem inRegion_afterProc (ret : Result) (rest : List Proc) :
    inRegion (afterProc ret rest) = false := by
  rcases afterProc_cases ret rest with h | h | ⟨q, rest', h⟩ <;> rw [h] <;> rfl

/-- **A worker's step.** -/
theorem workerStep_use {i : Fin n} {ret : Result} {master : Fin n}
    (hw : workerStep s i ret master = some s') :
    Use (Holder.worker i) s.m_pause_lock s'.m_pause_lock (inRegion (s.place i) = true)
      (inRegion (s'.place i) = true) (workerUnlocks s i) := by
  unfold workerStep at hw
  unfold workerUnlocks
  cases hp : s.place i with
  | blocked | sleeping | exited =>
    rw [hp] at hw
    exact absurd hw (by simp)
  | head | level =>
    rw [hp] at hw
    cases hw
    apply use_keeps s rfl
    split <;> simp [inRegion]
  | test =>
    rw [hp] at hw
    dsimp only at hw
    split at hw
    · split at hw <;>
      · cases hw
        exact use_keeps s rfl (by simp [inRegion])
    · cases hw
      exact use_keeps s rfl (by simp [inRegion])
  | executing q rest =>
    rw [hp] at hw
    cases hw
    apply use_keeps { s with st := Function.update s.st i ret } rfl
    rw [inRegion_afterProc]
    simp [inRegion]
  | arriving =>
    rw [hp] at hw
    cases hw
    unfold arrive
    split
    · exact .keeps rfl (by simp [inRegion])
    · exact use_keeps s rfl (by simp [inRegion])
  | released m | relocking =>
    rw [hp] at hw
    exact use_takes hw rfl
  | locked m =>
    rw [hp] at hw
    cases m with
    | true =>
      cases hw
      exact use_keeps { s with stage := { s.stage with m_status := .paused } } rfl
        (by simp [inRegion])
    | false =>
      cases hw
      exact use_keeps s rfl (by simp [inRegion])
  | notifying =>
    rw [hp] at hw
    cases hw
    exact use_keeps { s with api := s.api.notified } rfl (by simp [inRegion])
  | recheck =>
    rw [hp] at hw
    dsimp only at hw ⊢
    split at hw
    next hr =>
      -- `pthread_cond_wait` unlocks
      cases hw
      rw [hr]
      refine .gives rfl ?_
      rw [go_place]
      simp [inRegion]
    next hr =>
      cases hw
      rw [show s.stage.m_pause_requested = false by simpa using hr]
      exact use_keeps s rfl (by simp [inRegion])
  | unlocking =>
    rw [hp] at hw
    cases hw
    refine .gives rfl ?_
    rw [go_place]
    simp [inRegion]

/-- What a worker's step leaves as it is: the regions of all others. -/
theorem workerStep_regions {i : Fin n} {ret : Result} {master : Fin n}
    (hw : workerStep s i ret master = some s') :
    callInRegion s'.api = callInRegion s.api ∧
      ∀ k, k ≠ i → inRegion (s'.place k) = inRegion (s.place k) := by
  have hcall : ∀ p : ApiPlace, callInRegion p.notified = callInRegion p := by
    intro p
    cases p <;> rfl
  have hgo : ∀ (p : Place) (k : Fin n), k ≠ i → Function.update s.place i p k = s.place k :=
    fun p k hk => Function.update_of_ne hk ..
  have he := workerStep_cases hw
  refine ⟨?_, fun k hk => ?_⟩
  · rcases he.frame.2 with ha | ha <;> rw [ha]
    exact hcall _
  · cases he with
    | go p hplace hstage hapi hepoch hpassed henter hleave hwaiting hmaster =>
      rw [hplace, hgo p k hk]
    | arrive master hi hs =>
      rw [hs]
      unfold arrive
      split
      next hall =>
        rw [hall k hk]
        rfl
      next => exact congrArg inRegion (hgo .blocked k hk)
    | setPaused hi hs =>
      rw [hs]
      exact congrArg inRegion (hgo .notifying k hk)

/-- The call takes the lock. -/
theorem lockFor_use {o : Pause.Outcome} {p : ApiPlace} {before : Prop}
    (ha : s.lockFor p = some (o, s')) (hin : callInRegion p = true) :
    Use Holder.api s.m_pause_lock s'.m_pause_lock before (callInRegion s'.api = true) false := by
  unfold Crew.lockFor at ha
  split at ha
  next hfree =>
    cases ha
    exact .takes hfree rfl hin
  next => exact absurd ha (by simp)

/-- **A step of the call.** -/
theorem apiStep_use {o : Pause.Outcome} (ha : Pause.apiStep s = some (o, s')) :
    Use Holder.api s.m_pause_lock s'.m_pause_lock (callInRegion s.api = true)
      (callInRegion s'.api = true) (callUnlocks s) := by
  unfold Pause.apiStep at ha
  unfold callUnlocks
  cases hp : s.api with
  | idle | pauseAsleep _ =>
    rw [hp] at ha
    exact absurd ha (by simp)
  | pauseLocking _ | clearLocking _ =>
    rw [hp] at ha
    exact lockFor_use ha rfl
  | pauseWoken nsec ret =>
    rw [hp] at ha
    apply lockFor_use ha
    split <;> rfl
  | pauseRecheck nsec =>
    rw [hp] at ha
    dsimp only at ha ⊢
    split at ha
    next hne =>
      -- `pthread_cond_wait` unlocks
      cases ha
      rw [decide_eq_true hne]
      exact .gives rfl (by simp [callInRegion, Crew.at])
    next heq =>
      cases ha
      rw [decide_eq_false heq]
      exact .keeps rfl (by simp [callInRegion, Crew.at])
  | pauseUnlocking _ | clearUnlocking _ =>
    rw [hp] at ha
    cases ha
    exact .gives rfl (by simp [callInRegion, Crew.at])
  | pauseElse | pauseDone _ | resumeElse | shutdownElse' =>
    rw [hp] at ha
    dsimp only at ha
    split at ha <;>
    · cases ha
      exact .keeps rfl (by simp [callInRegion, Crew.at])
  | startSetting k =>
    rw [hp] at ha
    cases k <;>
    · cases ha
      exact .keeps rfl (by simp [callInRegion, Crew.at])
  | pauseTest _ | resumeTest | shutdownTest | shutdownElse | shutdownBranch | shutdownBranch' =>
    rw [hp] at ha
    cases ha
    refine .keeps rfl ?_
    show callInRegion (if _ then _ else _) = true ↔ _
    split <;> simp [callInRegion]
  | pauseSetting _ | levelSetting | clearSetting _ | clearNotifying _ =>
    rw [hp] at ha
    cases ha
    exact .keeps rfl (by simp [callInRegion, Crew.at])

theorem inRegion_notified (p : Place) : inRegion p.notified = inRegion p := by
  cases p <;> rfl

end

variable {s s' : System n}

theorem ends_final (s : System n) (i : Fin n) (f : Final) : (s.ends i f).final i = some f :=
  Function.update_self ..

/-- A worker goes on with its end and leaves the lock alone. -/
theorem ends_keeps {i : Fin n} {f : Final} {f₀ : Option Final} (t : System n)
    (hlock : t.crew.m_pause_lock = s.crew.m_pause_lock)
    (hsame : finalInRegion (some f) = finalInRegion f₀) :
    Use (Holder.worker i) s.crew.m_pause_lock (t.ends i f).crew.m_pause_lock
      (finalInRegion f₀ = true) (finalInRegion ((t.ends i f).final i) = true) false := by
  refine .keeps hlock ?_
  rw [ends_final, hsame]

/-- **A step of `s_worker_finalize`**: it unlocks, whether the worker is inside or not. -/
theorem finalStep_use {i : Fin n} (hf : finalStep s i = some s') :
    Use (Holder.worker i) s.crew.m_pause_lock s'.crew.m_pause_lock
      (finalInRegion (s.final i) = true) (finalInRegion (s'.final i) = true)
      (finalUnlocks (s.final i)) := by
  unfold finalStep at hf
  cases hi : s.final i with
  | none =>
    rw [hi] at hf
    dsimp only at hf
    split at hf
    · cases hf
      exact ends_keeps s rfl rfl
    · exact absurd hf (by simp)
  | some f =>
    cases f with
    | gone =>
      rw [hi] at hf
      exact absurd hf (by simp)
    | relocking =>
      rw [hi] at hf
      dsimp only at hf
      split at hf
      next hfree =>
        cases hf
        refine .takes hfree rfl ?_
        rw [ends_final]
        rfl
      next => exact absurd hf (by simp)
    | locking e =>
      rw [hi] at hf
      dsimp only at hf
      split at hf
      · cases hf
        apply ends_keeps { s with m_final_lock := some i } rfl
        cases e <;> rfl
      · exact absurd hf (by simp)
    | canceled e =>
      rw [hi] at hf
      cases hf
      apply ends_keeps { s with crew := countCanceled s.crew } rfl
      cases e <;> rfl
    | pauseUnlocking e =>
      rw [hi] at hf
      cases hf
      refine .gives rfl ?_
      rw [ends_final]
      simp [finalInRegion]
    | shutdown e =>
      rw [hi] at hf
      cases hf
      exact ends_keeps { s with crew := countShutdown s.crew } rfl rfl
    | unlocking e =>
      rw [hi] at hf
      cases hf
      exact ends_keeps { s with m_final_lock := none } rfl rfl

/-! ## §3. Workers at their end. -/

variable {a : Action n}

/-- **Who comes on at its end**: one that acts on its cancellation, or one in
`s_worker_finalize`. -/
inductive FinalMoves (s : System n) (a : Action n) (s' : System n) : Prop
  | same (h : s'.final = s.final)
  | act (i : Fin n) (f : Final) (ha : a = .act i) (hf : Acts (s.crew.place i) f)
      (hs : s' = s.leave i f)
  | finalize (i : Fin n) (f : Final) (ha : a = .finalize i) (hf : Ends (s.final i) f)
      (hfinal : s'.final = Function.update s.final i (some f))
      (hplace : s'.crew.place = s.crew.place)
      (hout : s.final i = none → s.crew.place i = .exited)

theorem moves_final (hm : Moves s a s') : FinalMoves s a s' := by
  cases hm with
  | enter c hi => cases c <;> exact .same rfl
  | shutdown hc hl => exact .same (shutdownStep_frame s).1
  | cancel hc ha => exact .same (cancelStep_frame ha).1
  | act ha =>
    obtain ⟨f, hf, hs⟩ := act_cases ha
    exact .act _ f rfl hf hs
  | finalize hf =>
    obtain ⟨f, hends, hfinal, hout⟩ := finalStep_ends hf
    refine .finalize _ f rfl hends hfinal ?_ hout
    rcases finalStep_frame hf with hs | ⟨lock, hs⟩ | hs | hs <;> rw [hs] <;> rfl
  | _ => exact .same rfl

/-- A worker at its end is out of its loop, and one that has been counted as canceled
was canceled. -/
structure Ended (s : System n) : Prop where
  out : ∀ i, s.final i ≠ none → s.crew.place i = .exited
  canceled : ∀ i e, s.final i = some (.canceled e) ∨ s.final i = some (.pauseUnlocking e) →
    e.isCanceled = true

theorem Ended.started (n : Nat) (proc : WorkerProc) : Ended (System.started n proc) :=
  ⟨fun _ h => absurd rfl h, fun _ _ h => absurd h (by simp [System.started])⟩

theorem Ended.final_none (h : Ended s) {i : Fin n} (hi : s.crew.place i ≠ .exited) :
    s.final i = none := by
  by_contra hne
  exact hi (h.out i hne)

/-- **The step lemma.** -/
theorem Ended.step (h : Ended s) (hm : Moves s a s') : Ended s' := by
  cases moves_final hm with
  | same hs =>
    refine ⟨fun i hi => ?_, fun i e hi => ?_⟩
    · rw [hs] at hi
      have hout := h.out i hi
      exact (moves_kept hm hout (.inr hout)).trans hout
    · rw [hs] at hi
      exact h.canceled i e hi
  | act i f ha hf hs =>
    subst hs
    refine ⟨fun k hk => ?_, fun k e hk => ?_⟩
    · show Function.update s.crew.place i .exited k = .exited
      by_cases hki : k = i
      · rw [hki, Function.update_self]
      · rw [Function.update_of_ne hki]
        apply h.out k
        rw [s.leave_final_of_ne f hki] at hk
        exact hk
    · by_cases hki : k = i
      · subst hki
        rw [s.leave_final] at hk
        generalize s.crew.place k = p at hf
        cases hf <;> exact absurd hk (by simp)
      · rw [s.leave_final_of_ne f hki] at hk
        exact h.canceled k e hk
  | finalize i f ha hf hfinal hplace hout =>
    refine ⟨fun k hk => ?_, fun k e hk => ?_⟩
    · rw [hplace]
      by_cases hki : k = i
      · subst hki
        by_cases hnone : s.final k = none
        · exact hout hnone
        · exact h.out k hnone
      · rw [hfinal, Function.update_of_ne hki] at hk
        exact h.out k hk
    · by_cases hki : k = i
      · subst hki
        rw [hfinal, Function.update_self] at hk
        generalize hi : s.final k = g at hf
        cases hf with
        | canceled e' he =>
          obtain rfl : e' = e := by simpa using hk
          exact he
        | pauseUnlocking e' =>
          obtain rfl : e' = e := by simpa using hk
          exact h.canceled k e' (.inl hi)
        | _ => exact absurd hk (by simp)
      · rw [hfinal, Function.update_of_ne hki] at hk
        exact h.canceled k e hk

/-! ## §4. The holder is who is inside. -/

/-- **The invariant.** -/
structure LockInv (s : System n) : Prop where
  held : Held s.crew.m_pause_lock (Inside s)
  ended : Ended s

theorem LockInv.started (n : Nat) (proc : WorkerProc) : LockInv (System.started n proc) := by
  refine ⟨fun h => iff_of_false (by simp [System.started, Crew.started]) ?_, .started n proc⟩
  cases h with
  | api => simp [Inside, System.started, Crew.started, callInRegion]
  | worker i => simp [Inside, System.started, Crew.started, inRegion, finalInRegion]

/-- A worker in its loop is inside by its place. -/
theorem inside_place {i : Fin n} (hi : s.final i = none) :
    Inside s (.worker i) ↔ inRegion (s.crew.place i) = true := by
  simp [Inside, hi, finalInRegion]

/-- A worker out of it is inside by its end. -/
theorem inside_final {i : Fin n} (hi : s.crew.place i = .exited) :
    Inside s (.worker i) ↔ finalInRegion (s.final i) = true := by
  simp [Inside, hi, inRegion]

/-- Two states with the same regions. -/
theorem inside_congr (hapi : callInRegion s'.crew.api = callInRegion s.crew.api)
    (hplace : ∀ i, inRegion (s'.crew.place i) = inRegion (s.crew.place i))
    (hfinal : ∀ i, finalInRegion (s'.final i) = finalInRegion (s.final i)) (h : Holder n) :
    Inside s' h ↔ Inside s h := by
  cases h with
  | api => exact iff_of_eq (by rw [Inside, Inside, hapi])
  | worker i => exact iff_of_eq (by rw [Inside, Inside, hplace i, hfinal i])

/-- One worker has moved: for everyone else the regions are the same. -/
theorem inside_others {i : Fin n} (hapi : callInRegion s'.crew.api = callInRegion s.crew.api)
    (hplace : ∀ k, k ≠ i → inRegion (s'.crew.place k) = inRegion (s.crew.place k))
    (hfinal : ∀ k, k ≠ i → s'.final k = s.final k) (h : Holder n) (hne : h ≠ .worker i) :
    Inside s' h ↔ Inside s h := by
  cases h with
  | api => exact iff_of_eq (by rw [Inside, Inside, hapi])
  | worker k =>
    have hk : k ≠ i := fun hk => hne (by rw [hk])
    exact iff_of_eq (by rw [Inside, Inside, hplace k hk, hfinal k hk])

/-- A region stays the same where the one place that changes is in none before
and after, or in one. -/
theorem region_update {A : Type} {region : A → Bool} {place : Fin n → A} {i : Fin n} {p : A}
    (h : region p = region (place i)) (k : Fin n) :
    region (Function.update place i p k) = region (place k) := by
  by_cases hki : k = i
  · rw [hki, Function.update_self, h]
  · rw [Function.update_of_ne hki]

/-- A call that enters, wakes up or ends is in no region before and after. -/
theorem callInRegion_enter (c : Call) (hi : s.crew.api = .idle) :
    callInRegion (s.enter c).crew.api = callInRegion s.crew.api := by
  cases c with
  | cancel => rfl
  | _ =>
    rw [hi]
    rfl

/-- **The step lemma**: where the holder unlocks, the holder stays who is inside. -/
theorem LockInv.step (h : LockInv s) (hm : Moves s a s')
    (hown : ∀ t, unlocks s a = some t → s.crew.m_pause_lock = some t) : LockInv s' := by
  refine ⟨?_, h.ended.step hm⟩
  cases hm with
  | enter c hi =>
    have hcall := callInRegion_enter c hi
    cases c <;> exact h.held.same rfl (inside_congr hcall (fun _ => rfl) (fun _ => rfl))
  | @api ret o c hc hl ha =>
    refine h.held.step (t := .api) ?_ (apiStep_use ha) ?_
    · intro u hu
      cases u with
      | api => exact absurd rfl hu
      | worker i =>
        have hplace : inRegion (c.place i) = inRegion (s.crew.place i) := by
          rcases (apiStep_aside hl ha).2.2 with hp | hp <;> rw [hp]
          exact inRegion_notified _
        exact iff_of_eq (by rw [Inside, Inside, hplace])
    · intro hun
      exact hown .api (if_pos ⟨hc, hun⟩)
  | shutdown hc hl =>
    obtain ⟨hfinal, hcrew⟩ := shutdownStep_frame s
    refine h.held.same (by rw [hcrew]; rfl) (inside_congr ?_ ?_ ?_)
    · rw [hcrew, hl]
      rfl
    · intro i
      rw [hcrew]
      rfl
    · intro i
      rw [hfinal]
  | cancel hc ha =>
    obtain ⟨hfinal, hcrew⟩ := cancelStep_frame ha
    refine h.held.same ?_ (inside_congr ?_ ?_ (fun i => by rw [hfinal]))
    · rcases hcrew with hs | hs | hs <;> rw [hs] <;> rfl
    · rcases hcrew with hs | hs | hs <;> rw [hs] <;> rfl
    · rcases hcrew with hs | hs | hs <;> rw [hs] <;> exact fun _ => rfl
  | wakeApi ha =>
    obtain ⟨nsec, hi, -, rfl⟩ := wakeApi_some ha
    refine h.held.same rfl (inside_congr ?_ (fun _ => rfl) (fun _ => rfl))
    rw [hi]
    rfl
  | @worker i ret master c hw =>
    have hfinal := h.ended.final_none (workerStep_in hw)
    obtain ⟨hapi, hplace⟩ := workerStep_regions hw
    have hfinal' : ({ s with crew := c } : System n).final i = none := hfinal
    -- it is in its loop before and after, so its place says whether it is inside
    have huse := (workerStep_use hw).congr (inside_place hfinal) (inside_place hfinal')
    refine h.held.step ?_ huse fun hun => hown (.worker i) (if_pos hun)
    exact inside_others hapi hplace (fun _ _ => rfl)
  | @wakeWorker i hi =>
    refine h.held.same rfl (inside_congr rfl (fun k => ?_) (fun _ => rfl))
    show inRegion (Function.update s.crew.place i .relocking k) = _
    exact region_update (by rw [hi]; rfl) k
  | @act i s' ha =>
    obtain ⟨f, hf, rfl⟩ := act_cases ha
    -- no cancellation point is inside: the wait has given up the lock
    have hplace : inRegion (s.crew.place i) = false ∧ finalInRegion (some f) = false := by
      generalize s.crew.place i = p at hf
      cases hf <;> exact ⟨rfl, rfl⟩
    have hnone : s.final i = none := h.ended.final_none (by
      generalize s.crew.place i = p at hf
      cases hf <;> simp)
    refine h.held.same rfl (inside_congr rfl (fun k => ?_) (fun k => ?_))
    · show inRegion (Function.update s.crew.place i .exited k) = _
      exact region_update (by rw [hplace.1]; rfl) k
    · show finalInRegion (Function.update s.final i (some f) k) = _
      exact region_update (by rw [hplace.2, hnone]; rfl) k
  | @finalize i s' hf =>
    obtain ⟨f, hends, hfinal, hout⟩ := finalStep_ends hf
    have hcrew : s'.crew.place = s.crew.place ∧ s'.crew.api = s.crew.api := by
      rcases finalStep_frame hf with hs | ⟨lock, hs⟩ | hs | hs <;> rw [hs] <;> exact ⟨rfl, rfl⟩
    have hplace : s.crew.place i = .exited := by
      by_cases hnone : s.final i = none
      · exact hout hnone
      · exact h.ended.out i hnone
    have hplace' : s'.crew.place i = .exited := by
      rw [hcrew.1]
      exact hplace
    -- it is out of the loop, so its end says so
    have huse := (finalStep_use hf).congr (inside_final hplace) (inside_final hplace')
    refine h.held.step ?_ huse fun hun => hown (.worker i) (if_pos hun)
    refine inside_others (by rw [hcrew.2]) (fun k _ => by rw [hcrew.1]) (fun k hk => ?_)
    rw [hfinal, Function.update_of_ne hk]

/-! ## §5. Clean-ups of workers that were in a procedure. -/

/-- In the clean-up of a worker that was canceled in a procedure, before its unlock. -/
def isInProc : Option Final → Bool
  | some (.locking .inProc) => true
  | some (.canceled .inProc) => true
  | some (.pauseUnlocking .inProc) => true
  | _ => false

/-- Such a clean-up is under way. -/
def CleansUp (s : System n) : Prop := ∃ i, isInProc (s.final i) = true

theorem Acts.in_loop {p : Place} {f : Final} (h : Acts p f) : p ≠ .exited := by
  cases h <;> simp

/-- A clean-up does not change why it runs. -/
theorem Ends.isInProc_of {g : Option Final} {f : Final} (h : Ends g f)
    (hf : isInProc (some f) = true) : isInProc g = true := by
  cases h with
  | canceled e he => cases e <;> simp_all [isInProc]
  | pauseUnlocking e => cases e <;> simp_all [isInProc]
  | _ => exact absurd hf (by simp [isInProc])

/-- It ends with the unlock. -/
theorem Ends.isInProc {g : Option Final} {f : Final} (h : Ends g f)
    (hg : isInProc g = true) (hun : finalUnlocks g = false) : isInProc (some f) = true := by
  cases h with
  | canceled e he => cases e <;> simp_all [Cancel.isInProc]
  | plain e he => cases e <;> simp_all [Cancel.isInProc, Ending.isCanceled]
  | pauseUnlocking e => cases e <;> simp_all [Cancel.isInProc]
  | shutdown e => exact absurd hun (by simp [finalUnlocks])
  | _ => exact absurd hg (by simp [Cancel.isInProc])

theorem not_cleansUp_started (n : Nat) (proc : WorkerProc) :
    ¬ CleansUp (System.started n proc) := by
  rintro ⟨i, hi⟩
  exact absurd hi (by simp [System.started, isInProc])

/-- An act in a procedure begins one. -/
theorem cleansUp_of_act {l : Label n} (hstep : Step s l s') (h : ¬ InWaitOnly s l s') :
    CleansUp s' := by
  simp only [InWaitOnly, not_forall] at h
  obtain ⟨i, hl, hexec⟩ := h
  have hm := step_moves hstep
  rw [hl] at hm
  cases hm with
  | act ha =>
    obtain ⟨f, hf, rfl⟩ := act_cases ha
    refine ⟨i, ?_⟩
    rw [s.leave_final]
    generalize s.crew.place i = p at hf hexec
    cases hf with
    | executing p rest => rfl
    | _ => exact absurd rfl hexec

/-- No clean-up of the kind begins but by an act in a procedure. -/
theorem not_cleansUp_step {l : Label n} (h : ¬ CleansUp s) (hstep : Step s l s')
    (hin : InWaitOnly s l s') : ¬ CleansUp s' := by
  rintro ⟨k, hk⟩
  cases moves_final (step_moves hstep) with
  | same hs =>
    rw [hs] at hk
    exact h ⟨k, hk⟩
  | act i f ha hf hs =>
    subst hs
    by_cases hki : k = i
    · subst hki
      rw [s.leave_final] at hk
      have hexec := hin k ha
      generalize s.crew.place k = p at hf hexec
      cases hf with
      | executing p rest => exact absurd hexec (by simp [Place.isExecuting])
      | _ => exact absurd hk (by simp [isInProc])
    · rw [s.leave_final_of_ne f hki] at hk
      exact h ⟨k, hk⟩
  | finalize i f ha hf hfinal hplace hout =>
    by_cases hki : k = i
    · subst hki
      rw [hfinal, Function.update_self] at hk
      exact h ⟨k, hf.isInProc_of hk⟩
    · rw [hfinal, Function.update_of_ne hki] at hk
      exact h ⟨k, hk⟩

theorem callInRegion_of_unlocks {c : Crew n} (h : callUnlocks c = true) :
    callInRegion c.api = true := by
  unfold callUnlocks at h
  cases hp : c.api <;> rw [hp] at h <;> first | rfl | exact absurd h (by simp)

theorem inRegion_of_unlocks {c : Crew n} {i : Fin n} (h : workerUnlocks c i = true) :
    inRegion (c.place i) = true := by
  unfold workerUnlocks at h
  cases hp : c.place i <;> rw [hp] at h <;> first | rfl | exact absurd h (by simp)

/-- **Without such a clean-up, who unlocks is inside.** -/
theorem LockInv.proper (h : LockInv s) (hcalm : ¬ CleansUp s) (t : Holder n)
    (ht : unlocks s a = some t) : s.crew.m_pause_lock = some t := by
  refine (h.held t).mpr ?_
  cases a with
  | api ret =>
    obtain ⟨⟨-, hun⟩, hs⟩ := Option.ite_none_right_eq_some.mp ht
    cases hs
    exact callInRegion_of_unlocks hun
  | worker i ret master =>
    obtain ⟨hun, hs⟩ := Option.ite_none_right_eq_some.mp ht
    cases hs
    exact .inl (inRegion_of_unlocks hun)
  | finalize i =>
    obtain ⟨hun, hs⟩ := Option.ite_none_right_eq_some.mp ht
    cases hs
    refine .inr ?_
    cases hi : s.final i with
    | none =>
      rw [hi] at hun
      exact absurd hun (by decide)
    | some f =>
      rw [hi] at hun
      cases f with
      | pauseUnlocking e =>
        have hcanceled := h.ended.canceled i e (.inr hi)
        cases e with
        | finished => exact absurd hcanceled (by decide)
        -- of the two kinds of cancellation only this one is without the lock
        | inProc => exact absurd ⟨i, by rw [hi]; rfl⟩ hcalm
        | inWait => rfl
      | _ => exact absurd hun (by simp [finalUnlocks])
  | _ => exact absurd ht (by simp [unlocks])

/-- **With one, somebody will unlock who is not.** -/
theorem LockInv.cleansUp_step {l : Label n} (h : LockInv s) (hup : CleansUp s)
    (hstep : Step s l s') (hproper : Proper s l s') : CleansUp s' := by
  obtain ⟨k, hk⟩ := hup
  have hend : s.final k ≠ none := by
    intro hnone
    rw [hnone] at hk
    exact absurd hk (by decide)
  have hout := h.ended.out k hend
  refine ⟨k, ?_⟩
  cases moves_final (step_moves hstep) with
  | same hs =>
    rw [hs]
    exact hk
  | act i f ha hf hs =>
    subst hs
    -- who is in its clean-up does not act once more
    have hki : k ≠ i := by
      rintro rfl
      exact hf.in_loop hout
    rw [s.leave_final_of_ne f hki]
    exact hk
  | finalize i f ha hf hfinal hplace hout' =>
    by_cases hki : k = i
    · subst hki
      rw [hfinal, Function.update_self]
      refine hf.isInProc hk ?_
      by_contra hun
      -- it would hold the lock, and be inside
      have hlock := hproper (.worker k) (by rw [ha]; exact if_pos (by simpa using hun))
      have hin := (inside_final hout).mp ((h.held _).mp hlock)
      cases hi : s.final k with
      | none => exact hend hi
      | some g =>
        rw [hi] at hk hin hun
        cases g with
        | pauseUnlocking e => cases e <;> simp_all [isInProc, finalInRegion]
        | _ => exact hun rfl
    · rw [hfinal, Function.update_of_ne hki]
      exact hk

/-! ## §6. Whole runs. -/

/-- At most one thread is inside. -/
def Alone (s : System n) : Prop := ∀ t u, Inside s t → Inside s u → t = u

/-- Where the holder unlocks, at most one is inside. -/
theorem lockInv_of_run {proc : WorkerProc} {ls : List (Label n)}
    (hrun : Run (restrict Step Proper) (System.started n proc) ls s) : LockInv s :=
  hrun.invariant (fun _ _ _ h hstep => h.step (step_moves hstep.1) hstep.2) (.started n proc)

/-- **`m_pause_lock` is unlocked by its holder, and at most one thread is inside, in the
runs in which no worker acts on its cancellation in a procedure**, once the clean-ups
have come to their unlock. -/
theorem unlocked_by_holder {proc : WorkerProc} {ls : List (Label n)} :
    (Run (restrict Step InWaitOnly) (System.started n proc) ls s →
      Run (restrict Step Proper) (System.started n proc) ls s ∧ Alone s) ∧
    (¬ CleansUp s → Run (restrict Step Proper) (System.started n proc) ls s →
      Run (restrict Step InWaitOnly) (System.started n proc) ls s) := by
  constructor
  · intro hrun
    have hproper : Run (restrict Step Proper) (System.started n proc) ls s := by
      refine Run.restrict_of_inv (fun s => LockInv s ∧ ¬ CleansUp s) ?_
        ⟨.started n proc, not_cleansUp_started n proc⟩ hrun
      intro s l s' h hstep hin
      have hok : Proper s l s' := h.1.proper h.2
      exact ⟨hok, h.1.step (step_moves hstep) hok, not_cleansUp_step h.2 hstep hin⟩
    exact ⟨hproper, fun t u => (lockInv_of_run hproper).held.alone⟩
  · intro hend hrun
    refine Run.restrict_of_doomed LockInv CleansUp ?_ ?_ ?_ (.started n proc) hrun hend
    · intro s l s' h hstep hproper
      exact h.step (step_moves hstep) hproper
    · intro s l s' h hstep hproper hnot
      exact cleansUp_of_act hstep hnot
    · intro s l s' h hup hstep hproper
      exact h.cleansUp_step hup hstep hproper

/-- A stage is cancelled, and then paused: its worker acts in the wait, and its clean-up
unlocks what it holds. -/
def cancelAsleep : List (Action 1) :=
  [.worker 0 0 0, .worker 0 0 0,
    .call .cancel, .api 0, .api 0, .api 0, .api 0, .api 0,
    .call (.pause 5), .api 0, .api 0, .api 0, .api 0,
    .worker 0 0 0, .worker 0 0 0, .worker 0 0 0, .worker 0 0 0, .worker 0 0 0, .worker 0 0 0,
    .act 0, .api 0, .api 0, .api 0, .api 0,
    .finalize 0, .finalize 0, .finalize 0, .finalize 0]

/-- Its run, in which every unlock is the holder's. -/
theorem unlocked_by_holder_asleep :
    ∃ (ls : List (Label 1)) (s : System 1),
      Run (restrict Step InWaitOnly) (System.started 1 .m) ls s ∧ (∃ l ∈ ls, l.action = .act 0) ∧
      s.final 0 = some (.shutdown .inWait) ∧
      Run (restrict Step Proper) (System.started 1 .m) ls s ∧ Alone s := by
  have hrun : ∃ p, exec next (System.started 1 .m) cancelAsleep = some p ∧
      p.1.map Label.action = cancelAsleep ∧ p.2.final 0 = some (.shutdown .inWait) :=
    ⟨_, rfl, rfl, rfl⟩
  obtain ⟨⟨ls, s⟩, hexec, hacts, hfinal⟩ := hrun
  have hchecked : Checked next InWaitOnly (System.started 1 .m) cancelAsleep := by decide
  have hin := run_of_checked hexec hchecked
  have hact : Action.act 0 ∈ ls.map Label.action := by
    rw [show ls.map Label.action = _ from hacts]
    simp [cancelAsleep]
  obtain ⟨l, hl, hla⟩ := List.mem_map.mp hact
  exact ⟨ls, s, hin, ⟨l, hl, hla⟩, hfinal, unlocked_by_holder.1 hin⟩

/-- After a pause and a resume, worker 1 is canceled in its main procedure, while worker 0
has not got the lock yet.  The next pause takes it, the clean-up of worker 1 unlocks it, and
worker 0 comes in. -/
theorem unlocked_by_another :
    ∃ (ls ms : List (Label 2)) (l : Label 2) (s t u : System 2),
      Run Step (System.started 2 .m) ls s ∧ s.crew.m_pause_lock = some .api ∧
      Step s l t ∧ unlocks s l.action = some (.worker 1) ∧
      Run Step t ms u ∧ Inside u .api ∧ Inside u (.worker 0) := by
  have hrun : ∃ p q r, exec next (System.started 2 .m)
        [.call (.pause 5), .api 0, .api 0, .api 0, .api 0,
          .worker 0 0 0, .worker 0 0 0, .worker 0 0 0, .worker 0 0 0,
          .worker 1 0 0, .worker 1 0 0, .worker 1 0 0, .worker 1 0 1,
          .worker 1 0 0, .worker 1 0 0, .worker 1 0 0, .worker 1 0 0,
          .worker 0 0 0, .worker 0 0 0, .worker 0 0 0,
          .api 0, .api 0, .api 0, .api 0,
          .call .resume, .api 0, .api 0, .api 0, .api 0, .api 0, .api 0,
          .worker 1 0 0, .worker 1 0 0, .worker 1 0 0, .worker 1 0 0, .worker 1 0 0,
          .worker 1 0 0,
          .call .cancel, .api 0, .api 0, .api 0, .api 0, .api 0, .api 0,
          .call (.pause 5), .api 0, .api 0,
          .act 1, .finalize 1, .finalize 1] = some p ∧
      p.2.crew.m_pause_lock = some .api ∧ next p.2 (.finalize 1) = some q ∧
      unlocks p.2 q.1.action = some (.worker 1) ∧ exec next q.2 [.worker 0 0 0] = some r ∧
      r.2.crew.api = .pauseSetting 5 ∧ r.2.crew.place 0 = .recheck :=
    ⟨_, _, _, rfl, rfl, rfl, rfl, rfl, rfl, rfl⟩
  obtain ⟨⟨ls, s⟩, ⟨l, t⟩, ⟨ms, u⟩, hexec, hlock, hnext, hun, hexec', hapi, hplace⟩ := hrun
  refine ⟨ls, ms, l, s, t, u, run_of_exec hexec, hlock, ⟨_, hnext⟩, hun, run_of_exec hexec',
    ?_, .inl ?_⟩
  · rw [Inside, show u.crew.api = _ from hapi]
    rfl
  · rw [show u.crew.place 0 = _ from hplace]
    rfl

end Mccp.Pipeline.Cancel
