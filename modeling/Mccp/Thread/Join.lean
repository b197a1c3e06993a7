/-
  Mccp.Thread.Join
  ────────────────
  **WHO SLEEPS IN A START OR A WAIT, AND WHAT A WAIT DELIVERS.**

  A start sleeps until its pthread has begun, a wait until it has finished.
  Starts that overlap reset the flags of each other, and still nobody is
  forgotten, as long as no cancel request is acted on in a finalize or free-up
  procedure: a start that sleeps has a spawned pthread before it that will
  notify it, and a wait that sleeps an active one.

  A wait is also the way to the result code.  As long as the runs come one at
  a time, a wait that returns OK finds no main procedure running, and the code
  is what the last one has returned; a cancelled run leaves the code alone.

      Owed, Brings      — what a sleeping call waits for, and who brings it
      sleeping_calls_owed — nobody sleeps without it, whatever is called
      lastReturned      — the code that a history should leave
      wait_delivers_result — it is the one that a wait finds
-/
import Mccp.Lib.Reasons
import Mccp.Thread.Finish

namespace Mccp.Thread

open Monitor Transition

variable {τ : Type} {s t : System τ} {l : Label τ}

/-! ## §1. The sleepers. -/

/-- **What a sleeping call waits for**, by the flags of the object. -/
def Owed (k : Cont) (c : Cond) (thd : Thd) : Prop :=
  match k with
  | .start _ => c = .startup ∧ thd.isStarted = false
  | .wait _ => c = .wait ∧ thd.isActivated = true

/-- Every sleeper waits for something, and the runs are there to bring it. -/
structure Attended (s : System τ) : Prop where
  owed : Reasoned Owed s.thd s.caller
  started : s.thd.isStarted = false → 0 < s.nRuns → ∃ r, s.phase r = .spawned

theorem Attended.initial : Attended (System.initial τ) where
  owed := Reasoned.idle
  started _ h := absurd h (by simp [System.initial])

/-- A step that leaves the flags as they are, and no spawned run behind. -/
theorem Attended.frame (h : Attended s) (hthd : t.thd.isStarted = s.thd.isStarted)
    (hact : t.thd.isActivated = s.thd.isActivated) (hn : t.nRuns = s.nRuns)
    (hp : ∀ r, s.phase r = .spawned → t.phase r = .spawned) (hc : t.caller = s.caller) :
    Attended t where
  owed := by
    rw [hc]
    refine h.owed.mono fun k c hB => ?_
    cases k <;> simp only [Owed, hthd, hact] at hB ⊢ <;> exact hB
  started hst hpos := by
    obtain ⟨r, hr⟩ := h.started (hthd ▸ hst) (hn ▸ hpos)
    exact ⟨r, hp r hr⟩

variable [DecidableEq τ]

/-- One caller moves; where it goes to sleep, it waits for something. -/
theorem Attended.move (h : Attended s) {u : τ} {th : Monitor.Thread Cont Cond}
    (hth : ∀ k c, th = .waiting k c → Owed k c s.thd) : Attended (s.move u th) where
  owed := h.owed.move hth
  started := h.started

/-- A call leaves. -/
theorem Attended.leave (h : Attended s) {u : τ} {th : Monitor.Thread Cont Cond}
    (hth : ∀ k c, th ≠ .waiting k c) : Attended (s.move u th) :=
  h.move fun k c heq => absurd heq (hth k c)

theorem Attended.startcheck (h : Attended s) (u : τ) (r : Nat) :
    Attended (startcheck s u r).2 := by
  unfold Thread.startcheck
  split
  next hst =>
    refine h.move fun k c heq => ?_
    injection heq with hk hc
    subst hk hc
    exact ⟨rfl, hst⟩
  next => exact h.leave (by simp)

theorem Attended.waitcheck (h : Attended s) (u : τ) (nsec : Int) :
    Attended (waitcheck s u nsec).2 := by
  unfold Thread.waitcheck
  split
  next hact =>
    refine h.move fun k c heq => ?_
    injection heq with hk hc
    subst hk hc
    exact ⟨rfl, hact⟩
  next => exact h.leave (by simp)

/-- A start spawns a run, and sleeps until it has begun. -/
theorem Attended.start (h : Attended s) (u : τ) (autodelete created : Bool) :
    Attended (start s u autodelete created).2 := by
  unfold Thread.start
  split
  next =>
    split
    next hidle =>
      split
      next =>
        refine Attended.startcheck ⟨?_, ?_⟩ u s.nRuns
        · -- the flags are reset, and no wait sleeps on an object that is not active
          refine h.owed.mono fun k c hB => ?_
          cases k with
          | start r => exact ⟨hB.1, rfl⟩
          | wait nsec => exact absurd (hidle.symm.trans hB.2) (by decide)
        · intro _ _
          exact ⟨s.nRuns, by simp [System.run]⟩
      next => exact h.frame rfl rfl rfl (fun _ hr => hr) rfl
    next => exact h
  next => exact h

omit [DecidableEq τ] in
/-- The pthread begins, and notifies the starts. -/
theorem Attended.activate (h : Attended s) (r : Nat) : Attended (activate s r) where
  owed := by
    show Reasoned Owed _ (broadcast [.startup] s.caller)
    refine h.owed.notify fun k c hB hc => ?_
    cases k with
    | start r' => exact absurd (by rw [hB.1]; exact List.mem_singleton.mpr rfl) hc
    | wait nsec => exact ⟨hB.1, rfl⟩
  started hst := absurd hst (by simp [Thread.activate, System.run])

omit [DecidableEq τ] in
/-- The pthread finishes, and notifies the waits. -/
theorem Attended.finalize (h : Attended s) {r : Nat} {b : Bool} (hr : s.phase r = .finishing b) :
    Attended (finalize s r) where
  owed := by
    show Reasoned Owed _ (broadcast [.wait] s.caller)
    refine h.owed.notify fun k c hB hc => ?_
    cases k with
    | start r' => exact hB
    | wait nsec => exact absurd (by rw [hB.1]; exact List.mem_singleton.mpr rfl) hc
  started hst hpos := by
    obtain ⟨q, hq⟩ := h.started hst hpos
    refine ⟨q, ?_⟩
    show Function.update s.phase r _ q = .spawned
    rw [Function.update_of_ne (by rintro rfl; rw [hr] at hq; exact absurd hq (by simp))]
    exact hq

omit [DecidableEq τ] in
/-- A run that is not a spawned one goes on. -/
theorem Attended.goOn (h : Attended s) {r : Nat} {p : Phase} (hr : s.phase r ≠ .spawned)
    (hp : t.phase = Function.update s.phase r p) (hthd : t.thd.isStarted = s.thd.isStarted)
    (hact : t.thd.isActivated = s.thd.isActivated) (hn : t.nRuns = s.nRuns)
    (hc : t.caller = s.caller) : Attended t := by
  refine h.frame hthd hact hn (fun q hq => ?_) hc
  rw [hp, Function.update_of_ne (by rintro rfl; exact hr hq)]
  exact hq

omit [DecidableEq τ] in
/-- A step of the destruction. -/
theorem Attended.delete (h : Attended s) {r : Nat} (hdel : delete s r = some t) : Attended t := by
  unfold Thread.delete at hdel
  split at hdel
  next hr =>
    obtain rfl := Option.some.inj hdel
    obtain ⟨hp, hthd, hn, hc⟩ := requestCancel_same s true
    exact h.goOn (by rw [hr]; simp) (by rw [← hp]; rfl)
      (by rw [← hthd]; rfl) (by rw [← hthd]; rfl) hn hc
  next hr =>
    split at hdel
    next =>
      obtain rfl := Option.some.inj hdel
      exact h.goOn (by rw [hr]; simp) rfl rfl rfl rfl rfl
    next => exact absurd hdel (by simp)
  next hr =>
    obtain rfl := Option.some.inj hdel
    exact h.goOn (by rw [hr]; simp) rfl rfl rfl rfl rfl
  next => exact absurd hdel (by simp)

/-- **Every step keeps it.** -/
theorem Attended.step (h : Attended s) (hstep : Step s l t) : Attended t := by
  obtain ⟨a, ha⟩ := hstep
  cases a with
  | start u autodelete created =>
    obtain ⟨-, rfl⟩ := ifIdle_some ha
    exact h.start u autodelete created
  | wait u nsec =>
    obtain ⟨-, rfl⟩ := ifIdle_some ha
    unfold wait
    split
    · split
      · exact h.waitcheck u nsec
      · exact h
    · exact h
  | cancel u sent =>
    obtain ⟨-, rfl⟩ := ifIdle_some ha
    unfold cancel
    split
    · obtain ⟨hp, hthd, hn, hc⟩ := requestCancel_same s sent
      exact h.frame (by rw [hthd]) (by rw [hthd]) hn (fun r hr => by rw [hp]; exact hr) hc
    · exact h
  | wake u w =>
    simp only [next] at ha
    split at ha
    next =>
      obtain ⟨-, -, rfl⟩ := guarded ha
      exact h.leave (by simp)
    next => exact absurd ha (by simp)
  | resume u =>
    simp only [next] at ha
    split at ha
    next k w hu =>
      obtain ⟨-, -, rfl⟩ := guarded ha
      unfold resume
      split
      next =>
        cases k with
        | start r => exact h.startcheck u r
        | wait nsec => exact h.waitcheck u nsec
      next => exact h.leave (by simp)
    next => exact absurd ha (by simp)
  | activate r =>
    obtain ⟨-, -, rfl⟩ := guarded ha
    exact h.activate r
  | leave r ret =>
    obtain ⟨⟨-, hr⟩, -, rfl⟩ := guarded ha
    exact h.goOn (by rw [hr]; simp) rfl rfl rfl rfl rfl
  | actCancel r =>
    obtain ⟨⟨-, hr, -⟩, -, rfl⟩ := guarded ha
    exact h.goOn (by rw [hr]; simp) rfl rfl rfl rfl rfl
  | store r =>
    simp only [next] at ha
    split at ha
    next ret hr =>
      obtain ⟨-, -, rfl⟩ := guarded ha
      exact h.goOn (by rw [hr]; simp) rfl rfl rfl rfl rfl
    next => exact absurd ha (by simp)
  | finalize r =>
    simp only [next] at ha
    split at ha
    next b hr =>
      obtain ⟨-, -, rfl⟩ := guarded ha
      exact h.finalize hr
    next => exact absurd ha (by simp)
  | delete r =>
    simp only [next] at ha
    split at ha
    next =>
      obtain ⟨t', ht', heq⟩ := Option.map_eq_some_iff.mp ha
      obtain ⟨-, rfl⟩ := Prod.mk.inj heq
      exact h.delete ht'
    next => exact absurd ha (by simp)

/-- What a step makes of the code that the object should have: the main procedure
returns its own. -/
def returnCode (code : Result) (l : Label τ) : Result :=
  match l.action with
  | .leave _ ret => ret
  | _ => code

/-- **The code of a history**: what the last main procedure to return has returned. -/
def lastReturned (ls : List (Label τ)) : Result := ls.foldl returnCode .notStarted

/-- A call of mccp_thread_wait() returns OK. -/
def WaitOk (s : System τ) (l : Label τ) : Prop :=
  l.outcome = .returned .ok ∧
  ∃ u, (∃ nsec, l.action = .wait u nsec) ∨
    (l.action = .resume u ∧ ∃ nsec w, s.caller u = .woken (.wait nsec) w)

/-- The code is on its way: held by the run that has just returned, or stored. -/
structure Delivers (ls : List (Label τ)) (s : System τ) : Prop where
  held : ∀ r ret, s.phase r = .returned ret → lastReturned ls = ret
  stored : (∀ r ret, s.phase r ≠ .returned ret) → s.thd.resultCode = lastReturned ls

omit [DecidableEq τ] in
theorem Delivers.initial : Delivers [] (System.initial τ) where
  held r ret h := absurd h (by simp [System.initial])
  stored _ := rfl

omit [DecidableEq τ] in
/-- A step that neither returns nor stores a code. -/
theorem Delivers.frame {ls : List (Label τ)} (h : Delivers ls s)
    (hl : ∀ code, returnCode code l = code) (hcode : t.thd.resultCode = s.thd.resultCode)
    (hp : ∀ r ret, t.phase r = .returned ret ↔ s.phase r = .returned ret) :
    Delivers (ls ++ [l]) t := by
  have hlast : lastReturned (ls ++ [l]) = lastReturned ls := by
    rw [lastReturned, List.foldl_append]
    exact hl _
  constructor
  · intro r ret hr
    rw [hlast]
    exact h.held r ret ((hp r ret).mp hr)
  · intro hnone
    rw [hcode, hlast]
    exact h.stored fun r ret hr => hnone r ret ((hp r ret).mpr hr)

omit [DecidableEq τ] in
/-- The run that moves is not one with a code, before and after. -/
theorem returned_update {r : Nat} {p : Phase} (hr : ∀ ret, s.phase r ≠ .returned ret)
    (hp : ∀ ret, p ≠ .returned ret) (q : Nat) (ret : Result) :
    Function.update s.phase r p q = .returned ret ↔ s.phase q = .returned ret := by
  by_cases hqr : q = r
  · subst hqr
    rw [Function.update_self]
    exact iff_of_false (hp ret) (hr ret)
  · rw [Function.update_of_ne hqr]

omit [DecidableEq τ] in
/-- While one run at a time is unfinished, the run that returns is the only one
with a code. -/
theorem Delivers.leave {ls : List (Label τ)} (hone : OneRun s) {r : Nat}
    (hr : s.phase r = .main) (ret : Result) {o : Outcome} :
    Delivers (ls ++ [⟨.leave r ret, o⟩]) (s.run r (.returned ret)) := by
  have hlast : lastReturned (ls ++ [⟨.leave r ret, o⟩]) = ret := by
    rw [lastReturned, List.foldl_append]
    rfl
  constructor
  · intro q ret' hq
    change Function.update s.phase r (.returned ret) q = .returned ret' at hq
    by_cases hqr : q = r
    · rw [hqr, Function.update_self] at hq
      injection hq with hq
      rw [hlast, hq]
    · rw [Function.update_of_ne hqr] at hq
      exact absurd (hone.unique q r (by rw [hq]; rfl) (by rw [hr]; rfl)) hqr
  · intro hnone
    exact absurd (show (s.run r (.returned ret)).phase r = _ from Function.update_self ..)
      (hnone r ret)

omit [DecidableEq τ] in
/-- It stores the code, and nobody else holds one. -/
theorem Delivers.store {ls : List (Label τ)} (h : Delivers ls s) (hone : OneRun s) {r : Nat}
    {ret : Result} (hr : s.phase r = .returned ret) {o : Outcome} :
    Delivers (ls ++ [⟨.store r, o⟩])
      ({ s with thd := { s.thd with resultCode := ret } }.run r (.finishing false)) := by
  have hlast : lastReturned (ls ++ [⟨.store r, o⟩]) = lastReturned ls := by
    rw [lastReturned, List.foldl_append]
    rfl
  constructor
  · intro q ret' hq
    change Function.update s.phase r (.finishing false) q = .returned ret' at hq
    by_cases hqr : q = r
    · rw [hqr, Function.update_self] at hq
      exact absurd hq (by simp)
    · rw [Function.update_of_ne hqr] at hq
      exact absurd (hone.unique q r (by rw [hq]; rfl) (by rw [hr]; rfl)) hqr
  · intro _
    rw [hlast, h.held r ret hr]
    rfl

omit [DecidableEq τ] in
/-- The destruction leaves the code alone. -/
theorem delete_code {r : Nat} (h : delete s r = some t) :
    t.thd.resultCode = s.thd.resultCode ∧
      ∀ q ret, t.phase q = .returned ret ↔ s.phase q = .returned ret := by
  unfold delete at h
  split at h
  next hr =>
    obtain rfl := Option.some.inj h
    obtain ⟨hp, hthd, -, -⟩ := requestCancel_same s true
    refine ⟨congrArg Thd.resultCode hthd, ?_⟩
    simp only [System.run, hp]
    exact returned_update (by simp [hr]) (by simp)
  next hr =>
    split at h
    next =>
      obtain rfl := Option.some.inj h
      exact ⟨rfl, returned_update (by simp [hr]) (by simp)⟩
    next => exact absurd h (by simp)
  next hr =>
    obtain rfl := Option.some.inj h
    exact ⟨rfl, returned_update (by simp [hr]) (by simp)⟩
  next => exact absurd h (by simp)

/-- **Every step keeps it**, while one run at a time is unfinished. -/
theorem Delivers.step {ls : List (Label τ)} (h : Delivers ls s) (hone : OneRun s)
    (hstep : Step s l t) : Delivers (ls ++ [l]) t := by
  obtain ⟨a, ha⟩ := hstep
  cases a with
  | start u autodelete created =>
    obtain ⟨rfl, rfl⟩ := ifIdle_some ha
    unfold start
    split
    · split
      · split
        · -- the new run was absent before
          have hupdate := returned_update (s := s) (r := s.nRuns) (p := .spawned)
            (by simp [hone.fresh s.nRuns (Nat.le_refl _)]) (by simp)
          refine h.frame (fun _ => rfl) ?_ ?_
          · simp only [startcheck, System.run, System.move]
            split <;> rfl
          · intro q ret
            simp only [startcheck, System.run, System.move]
            split <;> exact hupdate q ret
        · exact h.frame (fun _ => rfl) rfl fun _ _ => Iff.rfl
      · exact h.frame (fun _ => rfl) rfl fun _ _ => Iff.rfl
    · exact h.frame (fun _ => rfl) rfl fun _ _ => Iff.rfl
  | wait u nsec =>
    obtain ⟨rfl, rfl⟩ := ifIdle_some ha
    unfold wait waitcheck
    split
    · split
      · split <;> exact h.frame (fun _ => rfl) rfl fun _ _ => Iff.rfl
      · exact h.frame (fun _ => rfl) rfl fun _ _ => Iff.rfl
    · exact h.frame (fun _ => rfl) rfl fun _ _ => Iff.rfl
  | cancel u sent =>
    obtain ⟨rfl, rfl⟩ := ifIdle_some ha
    unfold cancel
    split
    · obtain ⟨hp, hthd, -, -⟩ := requestCancel_same s sent
      exact h.frame (fun _ => rfl) (by rw [hthd]) fun q ret => by rw [hp]
    · exact h.frame (fun _ => rfl) rfl fun _ _ => Iff.rfl
  | wake u w =>
    simp only [next] at ha
    split at ha
    next =>
      obtain ⟨-, rfl, rfl⟩ := guarded ha
      exact h.frame (fun _ => rfl) rfl fun _ _ => Iff.rfl
    next => exact absurd ha (by simp)
  | resume u =>
    simp only [next] at ha
    split at ha
    next k w hu =>
      obtain ⟨-, rfl, rfl⟩ := guarded ha
      refine h.frame (fun _ => rfl) ?_ ?_ <;> unfold resume startcheck waitcheck <;>
        cases w <;> cases k <;> simp only <;> (try split) <;> simp [System.move]
    next => exact absurd ha (by simp)
  | activate r =>
    obtain ⟨⟨-, hr⟩, rfl, rfl⟩ := guarded ha
    exact h.frame (fun _ => rfl) rfl (returned_update (by simp [hr]) (by simp))
  | leave r ret =>
    obtain ⟨⟨-, hr⟩, rfl, rfl⟩ := guarded ha
    exact Delivers.leave hone hr ret
  | actCancel r =>
    obtain ⟨⟨-, hr, -⟩, rfl, rfl⟩ := guarded ha
    exact h.frame (fun _ => rfl) rfl (returned_update (by simp [hr]) (by simp))
  | store r =>
    simp only [next] at ha
    split at ha
    next ret hr =>
      obtain ⟨-, rfl, rfl⟩ := guarded ha
      exact h.store hone hr
    next => exact absurd ha (by simp)
  | finalize r =>
    simp only [next] at ha
    split at ha
    next b hr =>
      obtain ⟨-, rfl, rfl⟩ := guarded ha
      refine h.frame (fun _ => rfl) rfl (returned_update (by simp [hr]) fun ret => ?_)
      split <;> simp
    next => exact absurd ha (by simp)
  | delete r =>
    simp only [next] at ha
    split at ha
    next =>
      obtain ⟨t', ht', heq⟩ := Option.map_eq_some_iff.mp ha
      obtain ⟨rfl, rfl⟩ := Prod.mk.inj heq
      obtain ⟨hcode, hp⟩ := delete_code ht'
      exact h.frame (fun _ => rfl) hcode hp
    next => exact absurd ha (by simp)

/-- A step shows the choice that was made. -/
theorem next_action {a : Action τ} (h : next s a = some (l, t)) : l.action = a := by
  cases a with
  | start u autodelete created => rw [(ifIdle_some h).1]
  | wait u nsec => rw [(ifIdle_some h).1]
  | cancel u sent => rw [(ifIdle_some h).1]
  | wake u w =>
    simp only [next] at h
    split at h
    next => rw [← (guarded h).2.1]
    next => exact absurd h (by simp)
  | resume u =>
    simp only [next] at h
    split at h
    next => rw [← (guarded h).2.1]
    next => exact absurd h (by simp)
  | activate r => rw [← (guarded h).2.1]
  | leave r ret => rw [← (guarded h).2.1]
  | actCancel r => rw [← (guarded h).2.1]
  | store r =>
    simp only [next] at h
    split at h
    next => rw [← (guarded h).2.1]
    next => exact absurd h (by simp)
  | finalize r =>
    simp only [next] at h
    split at h
    next => rw [← (guarded h).2.1]
    next => exact absurd h (by simp)
  | delete r =>
    simp only [next] at h
    split at h
    next =>
      obtain ⟨t', -, heq⟩ := Option.map_eq_some_iff.mp h
      rw [← (Prod.mk.inj heq).1]
    next => exact absurd h (by simp)

theorem waitcheck_ok {u : τ} {nsec : Int} (h : (waitcheck s u nsec).1 = .returned .ok) :
    s.thd.isActivated = false ∧ (waitcheck s u nsec).2.thd = s.thd ∧
      (waitcheck s u nsec).2.phase = s.phase := by
  unfold waitcheck at h ⊢
  split at h
  next => exact absurd h (by simp)
  next hact => simp [hact, System.move]

/-- A wait that returns OK finds the object not active, and leaves it alone. -/
theorem WaitOk.inactive (hstep : Step s l t) (hwait : WaitOk s l) :
    s.thd.isActivated = false ∧ t.thd = s.thd ∧ t.phase = s.phase := by
  obtain ⟨a, ha⟩ := hstep
  obtain ⟨hout, u, ⟨nsec, hact⟩ | ⟨hact, nsec, w, hu⟩⟩ := hwait
  · have hl := next_action ha
    rw [hact] at hl
    subst hl
    obtain ⟨rfl, rfl⟩ := ifIdle_some ha
    unfold wait at hout ⊢
    split at hout
    next hthd =>
      split at hout
      next hauto =>
        simp only [if_pos hthd, if_pos hauto]
        exact waitcheck_ok hout
      next => exact absurd hout (by simp)
    next => exact absurd hout (by simp)
  · have hl := next_action ha
    rw [hact] at hl
    subst hl
    simp only [next, hu] at ha
    obtain ⟨-, rfl, rfl⟩ := guarded ha
    cases w with
    | signaled => exact waitcheck_ok hout
    | timedout => exact absurd hout (by simp [resume, waitError])
    | failed => exact absurd hout (by simp [resume, waitError])

/-- **What a wait delivers.**  In every run of the object in which no start is made
while a spawned pthread has yet to begin: where mccp_thread_wait() returns OK, no
pthread is in its main procedure or on its way out of it, and the result code is
what the last main procedure to return has returned. -/
theorem wait_delivers_result {ls : List (Label τ)}
    (hrun : Run (restrict Step Timely) (System.initial τ) ls s) (hstep : Step s l t)
    (hwait : WaitOk s l) :
    (∀ r, (t.phase r).isActive = false) ∧ t.thd.resultCode = lastReturned ls := by
  obtain ⟨hone, hdel⟩ : OneRun s ∧ Delivers ls s := by
    refine hrun.invariant_history (fun ls s => OneRun s ∧ Delivers ls s) ?_
      ⟨OneRun.initial, Delivers.initial⟩
    intro ls s l t _ h hstep
    exact ⟨h.1.step hstep.1 hstep.2, h.2.step h.1 hstep.1⟩
  obtain ⟨hidle, hthd, hp⟩ := hwait.inactive hstep
  have hnone : ∀ r, (s.phase r).isActive = false := by
    intro r
    by_contra hr
    rw [hone.activated.mpr ⟨r, by simpa using hr⟩] at hidle
    exact absurd hidle (by decide)
  rw [hthd, hp]
  refine ⟨hnone, hdel.stored fun r ret hr => ?_⟩
  have hactive := hnone r
  rw [hr] at hactive
  exact absurd hactive (by simp [Phase.isActive])

/-- The main procedure returns 7, and the wait finds the 7. -/
theorem wait_delivers_result_seven : ∃ (ls : List (Label Bool)) (s t : System Bool),
    Run (restrict Step Timely) (System.initial Bool) ls s ∧
    Step s ⟨.wait true (-1), .returned .ok⟩ t ∧ t.nRuns = 1 ∧
    (∀ r, (t.phase r).isActive = false) ∧ t.thd.resultCode = 7 := by
  have hrun : ∃ p, exec next (System.initial Bool)
      [.start false false true, .activate 0, .resume false, .leave 0 7, .store 0, .finalize 0] =
        some p ∧
      ∃ t, next p.2 (.wait true (-1)) = some (⟨.wait true (-1), .returned .ok⟩, t) ∧
        t.nRuns = 1 ∧ lastReturned p.1 = 7 := ⟨_, rfl, _, rfl, rfl, rfl⟩
  obtain ⟨⟨ls, s⟩, hexec, t, hnext, hn, hlast⟩ := hrun
  have hs : Run (restrict Step Timely) (System.initial Bool) ls s := by
    refine run_of_checked hexec ⟨fun _ _ _ h => absurd h (by simp [System.initial]), ?_⟩
    -- the other steps are no starts
    have hno : ∀ {s l t}, Label.isStart l = false → Timely (τ := Bool) s l t :=
      fun hl h => absurd h (by simp [hl])
    exact ⟨hno rfl, hno rfl, hno rfl, hno rfl, hno rfl, trivial⟩
  have hstep : Step s ⟨.wait true (-1), .returned .ok⟩ t := ⟨_, hnext⟩
  have hdel := wait_delivers_result hs hstep ⟨rfl, true, .inl ⟨-1, rfl⟩⟩
  exact ⟨ls, s, t, hs, hstep, hn, hdel.1, hdel.2.trans hlast⟩

end Mccp.Thread
