/-
  Mccp.Thread.OneRun
  ──────────────────
  **ONE RUN AT A TIME, AS LONG AS NO START IS TOO EARLY.**

  `m_is_activated` is what the check of a start looks at, but it is set by the
  spawned pthread.  Between the spawning and the pthread's first critical
  section the object looks as if nothing ran: a second start that gets the
  lock there spawns a second run.

      step_effects    — what each step does to runs, flag and starts
      OneRun          — at most one unfinished run, and the flag tells when it
                        is active; kept by every step but an early start
      OwnRuns         — a start that returns OK has a run of its own, always
-/
import Mccp.Thread.Object
import Mathlib.Data.List.Nodup

namespace Mccp.Thread

open Monitor Transition

variable {τ : Type} {s t : System τ} {l : Label τ}

/-! ## §1. What a step does to the runs. -/

/-- The step is a start. -/
def Label.isStart (l : Label τ) : Bool :=
  match l.action with
  | .start _ _ _ => true
  | _ => false

/-- **What a step can do to the runs**, to `m_is_activated` and to the numbering. -/
inductive Effect (s : System τ) (l : Label τ) (t : System τ) : Prop
  /-- Nothing; a start does nothing when it finds the object active or gone,
  or when no pthread can be created. -/
  | none (hp : t.phase = s.phase) (ha : t.thd.isActivated = s.thd.isActivated)
      (hn : t.nRuns = s.nRuns)
      (hs : l.isStart = true → s.isThd = true →
        (l.outcome = .returned .alreadyExists ↔ s.thd.isActivated = true))
  | spawn (hl : l.isStart = true) (hthd : s.isThd = true) (hidle : s.thd.isActivated = false)
      (hp : t.phase = Function.update s.phase s.nRuns .spawned)
      (ha : t.thd.isActivated = false) (hn : t.nRuns = s.nRuns + 1) (ho : l.outcome = .slept)
  | activate (r : Nat) (hr : s.phase r = .spawned)
      (hp : t.phase = Function.update s.phase r .main)
      (ha : t.thd.isActivated = true) (hn : t.nRuns = s.nRuns) (hl : l.isStart = false)
  /-- A run goes on and stays active. -/
  | goOn (r : Nat) (p : Phase) (hr : (s.phase r).isActive = true) (hpa : p.isActive = true)
      (hmain : p ≠ .main) (hp : t.phase = Function.update s.phase r p)
      (ha : t.thd.isActivated = s.thd.isActivated) (hn : t.nRuns = s.nRuns)
      (hl : l.isStart = false)
  | finalize (r : Nat) (p : Phase) (hr : (s.phase r).isActive = true)
      (hpu : p.isUnfinished = false) (hp : t.phase = Function.update s.phase r p)
      (ha : t.thd.isActivated = false) (hn : t.nRuns = s.nRuns) (hl : l.isStart = false)
  /-- A finished run deletes the object. -/
  | delete (r : Nat) (p : Phase) (hr : (s.phase r).isUnfinished = false)
      (hr' : s.phase r ≠ .absent) (hpu : p.isUnfinished = false)
      (hp : t.phase = Function.update s.phase r p)
      (ha : t.thd.isActivated = s.thd.isActivated) (hn : t.nRuns = s.nRuns)
      (hl : l.isStart = false)

/-- The thread is inside a start that spawned run `r`. -/
def Starting (s : System τ) (u : τ) (r : Nat) : Prop := (s.caller u).cont? = some (.start r)

/-- **What a step can do to the starts in progress.** -/
inductive StartEffect (s : System τ) (l : Label τ) (t : System τ) : Prop
  /-- No start begins or returns OK. -/
  | none (hs : ∀ u r, Starting t u r → Starting s u r) (hn : t.nRuns = s.nRuns)
      (ho : ∀ r, l.outcome ≠ .started r)
  | spawn (u : τ) (hu : ∀ v r, Starting t v r → Starting s v r ∨ (v = u ∧ r = s.nRuns))
      (hn : t.nRuns = s.nRuns + 1) (ho : l.outcome = .slept)
  | started (u : τ) (r : Nat) (hu : Starting s u r) (hu' : ∀ r', ¬ Starting t u r')
      (hs : ∀ v r, Starting t v r → Starting s v r) (hn : t.nRuns = s.nRuns)
      (ho : l.outcome = .started r)

theorem starting_update [DecidableEq τ] {u v : τ} {r : Nat} {th : Monitor.Thread Cont Cond}
    (h : Starting (s.move u th) v r) :
    (v = u ∧ th.cont? = some (.start r)) ∨ (v ≠ u ∧ Starting s v r) := by
  simp only [Starting, System.move] at h
  by_cases hv : v = u
  · subst hv
    rw [Function.update_self] at h
    exact .inl ⟨rfl, h⟩
  · rw [Function.update_of_ne hv] at h
    exact .inr ⟨hv, h⟩

/-- A thread that moves out of a start, or not into one. -/
theorem starting_of_move [DecidableEq τ] {u v : τ} {r : Nat} {th : Monitor.Thread Cont Cond}
    (hth : ∀ r, th.cont? ≠ some (.start r)) (h : Starting (s.move u th) v r) : Starting s v r := by
  rcases starting_update h with ⟨-, hr⟩ | ⟨-, hr⟩
  · exact absurd hr (hth r)
  · exact hr

theorem starting_of_caller (h : t.caller = s.caller) (u : τ) (r : Nat) (hr : Starting t u r) :
    Starting s u r := by
  unfold Starting at hr ⊢
  rw [← h]
  exact hr

theorem starting_of_broadcast (ns : List Cond) (h : t.caller = broadcast ns s.caller) (u : τ)
    (r : Nat) (hr : Starting t u r) : Starting s u r := by
  unfold Starting at hr ⊢
  rw [← broadcast_cont? ns, ← h]
  exact hr

/-- A waiter sleeps or returns, and leaves the runs alone. -/
theorem waitcheck_effects [DecidableEq τ] (u : τ) (nsec : Int) {a : Action τ}
    (ha : ∀ o, (⟨a, o⟩ : Label τ).isStart = false) :
    Effect s ⟨a, (waitcheck s u nsec).1⟩ (waitcheck s u nsec).2 ∧
      StartEffect s ⟨a, (waitcheck s u nsec).1⟩ (waitcheck s u nsec).2 := by
  unfold waitcheck
  split
  · exact ⟨.none rfl rfl rfl (fun h => absurd h (by rw [ha]; decide)),
      .none (fun _ _ => starting_of_move (by simp [Thread.cont?])) rfl (by simp)⟩
  · exact ⟨.none rfl rfl rfl (fun h => absurd h (by rw [ha]; decide)),
      .none (fun _ _ => starting_of_move (by simp [Thread.cont?])) rfl (by simp)⟩

theorem requestCancel_same (s : System τ) (sent : Bool) :
    (requestCancel s sent).2.phase = s.phase ∧ (requestCancel s sent).2.thd = s.thd ∧
      (requestCancel s sent).2.nRuns = s.nRuns ∧ (requestCancel s sent).2.caller = s.caller := by
  unfold requestCancel
  split
  · split
    · split
      · split <;> exact ⟨rfl, rfl, rfl, rfl⟩
      · exact ⟨rfl, rfl, rfl, rfl⟩
    · exact ⟨rfl, rfl, rfl, rfl⟩
  · exact ⟨rfl, rfl, rfl, rfl⟩

theorem ifIdle_some {u : τ} {a : Action τ} {f : Outcome × System τ}
    (h : ifIdle s u a f = some (l, t)) : l = ⟨a, f.1⟩ ∧ t = f.2 := by
  unfold ifIdle at h
  split at h
  next =>
    simp only [Option.some.injEq, Prod.mk.injEq] at h
    exact ⟨h.1.symm, h.2.symm⟩
  next => exact absurd h (by simp)

/-- A step that some condition guards. -/
theorem guarded {c : Prop} [Decidable c] {o : Label τ} {s' : System τ}
    (h : (if c then some (o, s') else none) = some (l, t)) : c ∧ o = l ∧ s' = t := by
  split at h
  next hc => exact ⟨hc, Prod.mk.inj (Option.some.inj h)⟩
  next => exact absurd h (by simp)

/-- A start spawns, or leaves the runs alone. -/
theorem start_effects [DecidableEq τ] (u : τ) (autodelete created : Bool) :
    Effect s ⟨.start u autodelete created, (start s u autodelete created).1⟩
        (start s u autodelete created).2 ∧
      StartEffect s ⟨.start u autodelete created, (start s u autodelete created).1⟩
        (start s u autodelete created).2 := by
  unfold start
  split
  next hthd =>
    split
    next hidle =>
      split
      next =>
        simp only [startcheck, System.run, if_true]
        refine ⟨.spawn rfl hthd hidle rfl rfl rfl rfl, .spawn u ?_ rfl rfl⟩
        intro v r hr
        rcases starting_update hr with ⟨hv, hr'⟩ | ⟨-, hr'⟩
        · simp only [Thread.cont?, Option.some.injEq, Cont.start.injEq] at hr'
          exact .inr ⟨hv, hr'.symm⟩
        · exact .inl hr'
      next =>
        exact ⟨.none rfl rfl rfl (fun _ _ => iff_of_false (by simp) (by simp [hidle])),
          .none (starting_of_caller rfl) rfl (by simp)⟩
    next hact =>
      exact ⟨.none rfl rfl rfl (fun _ _ => iff_of_true rfl (by simpa using hact)),
        .none (starting_of_caller rfl) rfl (by simp)⟩
  next hthd =>
    exact ⟨.none rfl rfl rfl (fun _ h => absurd h hthd),
      .none (starting_of_caller rfl) rfl (by simp)⟩

/-- A start that goes on after its sleep sleeps again or returns its run. -/
theorem startcheck_effects [DecidableEq τ] {u : τ} {r : Nat} (hu : Starting s u r) {a : Action τ}
    (ha : ∀ o, (⟨a, o⟩ : Label τ).isStart = false) :
    Effect s ⟨a, (startcheck s u r).1⟩ (startcheck s u r).2 ∧
      StartEffect s ⟨a, (startcheck s u r).1⟩ (startcheck s u r).2 := by
  unfold startcheck
  split
  · refine ⟨.none rfl rfl rfl (fun h => absurd h (by rw [ha]; decide)), .none ?_ rfl (by simp)⟩
    intro v r' hr
    rcases starting_update hr with ⟨hv, hr'⟩ | ⟨-, hr'⟩
    · simp only [Thread.cont?, Option.some.injEq, Cont.start.injEq] at hr'
      rw [hv, ← hr']
      exact hu
    · exact hr'
  · refine ⟨.none rfl rfl rfl (fun h => absurd h (by rw [ha]; decide)),
      .started u r hu ?_ (fun _ _ => starting_of_move (by simp [Thread.cont?])) rfl rfl⟩
    intro r' hr
    rcases starting_update hr with ⟨-, hr'⟩ | ⟨hne, -⟩
    · exact absurd hr' (by simp [Thread.cont?])
    · exact hne rfl

/-- A call after its sleep goes on, or returns an error. -/
theorem resume_effects [DecidableEq τ] {u : τ} {k : Cont} {w : Wakeup}
    (hu : s.caller u = .woken k w) :
    Effect s ⟨.resume u, (resume s u k w).1⟩ (resume s u k w).2 ∧
      StartEffect s ⟨.resume u, (resume s u k w).1⟩ (resume s u k w).2 := by
  have herror : ∀ ret, Effect s (⟨.resume u, .returned ret⟩ : Label τ) (s.move u .idle) ∧
      StartEffect s (⟨.resume u, .returned ret⟩ : Label τ) (s.move u .idle) := by
    intro ret
    exact ⟨.none rfl rfl rfl (by simp [Label.isStart]),
      .none (fun _ _ => starting_of_move (by simp [Thread.cont?])) rfl (by simp)⟩
  unfold resume
  cases w with
  | signaled =>
    cases k with
    | start r =>
      have hstarting : Starting s u r := by
        unfold Starting
        rw [hu]
        rfl
      exact startcheck_effects hstarting (fun _ => rfl)
    | wait nsec => exact waitcheck_effects u nsec (fun _ => rfl)
  | timedout => exact herror _
  | failed => exact herror _

/-- A run that is over deletes the object, and leaves the other runs alone. -/
theorem delete_effects {r : Nat} (h : delete s r = some t) :
    Effect s ⟨.delete r, .quiet⟩ t ∧ StartEffect s ⟨.delete r, .quiet⟩ t := by
  unfold delete at h
  split at h
  next hr =>
    obtain rfl := Option.some.inj h
    obtain ⟨hp, hthd, hn, hc⟩ := requestCancel_same s true
    exact ⟨.delete r .deletingWait (by rw [hr]; rfl) (by rw [hr]; simp) rfl
        (by simp [System.run, hp]) (by simp [System.run, hthd]) (by simp [System.run, hn]) rfl,
      .none (starting_of_caller hc) hn (by simp)⟩
  next hr =>
    split at h
    next =>
      obtain rfl := Option.some.inj h
      exact ⟨.delete r .deletingLast (by rw [hr]; rfl) (by rw [hr]; simp) rfl rfl rfl rfl rfl,
        .none (starting_of_caller rfl) rfl (by simp)⟩
    next => exact absurd h (by simp)
  next hr =>
    obtain rfl := Option.some.inj h
    exact ⟨.delete r .ended (by rw [hr]; rfl) (by rw [hr]; simp) rfl rfl rfl rfl rfl,
      .none (starting_of_caller rfl) rfl (by simp)⟩
  next => exact absurd h (by simp)

/-- **Every step has one of the effects on the runs, and one on the starts.** -/
theorem step_effects [DecidableEq τ] (h : Step s l t) : Effect s l t ∧ StartEffect s l t := by
  obtain ⟨a, ha⟩ := h
  cases a with
  | start u autodelete created =>
    obtain ⟨rfl, rfl⟩ := ifIdle_some ha
    exact start_effects u autodelete created
  | wait u nsec =>
    obtain ⟨rfl, rfl⟩ := ifIdle_some ha
    unfold wait
    split
    · split
      · exact waitcheck_effects u nsec (fun _ => rfl)
      · exact ⟨.none rfl rfl rfl (by simp [Label.isStart]),
          .none (starting_of_caller rfl) rfl (by simp)⟩
    · exact ⟨.none rfl rfl rfl (by simp [Label.isStart]),
        .none (starting_of_caller rfl) rfl (by simp)⟩
  | cancel u sent =>
    obtain ⟨rfl, rfl⟩ := ifIdle_some ha
    unfold cancel
    split
    · obtain ⟨hp, hthd, hn, hc⟩ := requestCancel_same s sent
      exact ⟨.none hp (by rw [hthd]) hn (by simp [Label.isStart]),
        .none (starting_of_caller hc) hn (by simp)⟩
    · exact ⟨.none rfl rfl rfl (by simp [Label.isStart]),
        .none (starting_of_caller rfl) rfl (by simp)⟩
  | wake u w =>
    simp only [next] at ha
    split at ha
    next k c hu =>
      obtain ⟨-, rfl, rfl⟩ := guarded ha
      refine ⟨.none rfl rfl rfl (by simp [Label.isStart]), .none ?_ rfl (by simp)⟩
      intro v r hr
      rcases starting_update hr with ⟨hv, hr'⟩ | ⟨-, hr'⟩
      · unfold Starting
        rw [hv, hu]
        exact hr'
      · exact hr'
    next => exact absurd ha (by simp)
  | resume u =>
    simp only [next] at ha
    split at ha
    next k w hu =>
      obtain ⟨-, rfl, rfl⟩ := guarded ha
      exact resume_effects hu
    next => exact absurd ha (by simp)
  | activate r =>
    obtain ⟨⟨-, hr⟩, rfl, rfl⟩ := guarded ha
    exact ⟨.activate r hr rfl rfl rfl rfl,
      .none (starting_of_broadcast [.startup] rfl) rfl (by simp)⟩
  | leave r ret =>
    obtain ⟨⟨-, hr⟩, rfl, rfl⟩ := guarded ha
    exact ⟨.goOn r _ (by rw [hr]; rfl) rfl (by simp) rfl rfl rfl rfl,
      .none (starting_of_caller rfl) rfl (by simp)⟩
  | actCancel r =>
    obtain ⟨⟨-, hr, -⟩, rfl, rfl⟩ := guarded ha
    exact ⟨.goOn r _ (by rw [hr]; rfl) rfl (by simp) rfl rfl rfl rfl,
      .none (starting_of_caller rfl) rfl (by simp)⟩
  | store r =>
    simp only [next] at ha
    split at ha
    next ret hr =>
      obtain ⟨-, rfl, rfl⟩ := guarded ha
      exact ⟨.goOn r _ (by rw [hr]; rfl) rfl (by simp) rfl rfl rfl rfl,
        .none (starting_of_caller rfl) rfl (by simp)⟩
    next => exact absurd ha (by simp)
  | finalize r =>
    simp only [next] at ha
    split at ha
    next c hr =>
      obtain ⟨-, rfl, rfl⟩ := guarded ha
      exact ⟨.finalize r _ (by rw [hr]; rfl) (by split <;> rfl) rfl rfl rfl rfl,
        .none (starting_of_broadcast [.wait] rfl) rfl (by simp)⟩
    next => exact absurd ha (by simp)
  | delete r =>
    simp only [next] at ha
    split at ha
    next =>
      obtain ⟨t', ht', heq⟩ := Option.map_eq_some_iff.mp ha
      obtain ⟨rfl, rfl⟩ := Prod.mk.inj heq
      exact delete_effects ht'
    next => exact absurd ha (by simp)

/-! ## §2. At most one unfinished run. -/

/-- **At most one run is unfinished, and the flag tells when it is active.** -/
structure OneRun (s : System τ) : Prop where
  unique : ∀ r r', (s.phase r).isUnfinished = true → (s.phase r').isUnfinished = true → r = r'
  activated : s.thd.isActivated = true ↔ ∃ r, (s.phase r).isActive = true
  fresh : ∀ r, s.nRuns ≤ r → s.phase r = .absent

theorem Phase.isUnfinished_of_isActive {p : Phase} (h : p.isActive = true) :
    p.isUnfinished = true := by
  simp [Phase.isUnfinished, h]

theorem Phase.isUnfinished_cases {p : Phase} (h : p.isUnfinished = true) :
    p = .spawned ∨ p.isActive = true := by
  simpa [Phase.isUnfinished] using h

theorem Phase.not_isActive {p : Phase} (h : p.isUnfinished = false) : p.isActive = false := by
  by_contra hact
  rw [Phase.isUnfinished_of_isActive (by simpa using hact)] at h
  exact absurd h (by decide)

theorem OneRun.initial : OneRun (System.initial τ) where
  unique := by
    intro r r' h
    exact absurd h (by simp [System.initial, Phase.isUnfinished, Phase.isActive])
  activated := by
    simp [System.initial, Thd.initial, Phase.isActive]
  fresh := fun _ _ => rfl

/-- No start that finds the object is made while a spawned run has yet to begin. -/
def Timely (s : System τ) (l : Label τ) (_ : System τ) : Prop :=
  l.isStart = true → s.isThd = true → ∀ r, s.phase r ≠ .spawned

/-- When the one unfinished run moves within its life. -/
theorem OneRun.move (h : OneRun s) {r : Nat} {p : Phase} {a : Bool}
    (hr : (s.phase r).isUnfinished = true) (hp : t.phase = Function.update s.phase r p)
    (ha : t.thd.isActivated = a) (hpa : a = p.isActive) (hn : t.nRuns = s.nRuns) : OneRun t where
  unique := by
    have honly : ∀ r', (t.phase r').isUnfinished = true → r' = r := by
      intro r' hr'
      by_contra hne
      rw [hp, Function.update_of_ne hne] at hr'
      exact hne (h.unique r' r hr' hr)
    intro r₁ r₂ h₁ h₂
    rw [honly r₁ h₁, honly r₂ h₂]
  activated := by
    rw [ha, hpa, hp]
    constructor
    · intro hact
      exact ⟨r, by rw [Function.update_self]; exact hact⟩
    · intro hex
      obtain ⟨r', hr'⟩ := hex
      by_cases hne : r' = r
      · subst hne
        rw [Function.update_self] at hr'
        exact hr'
      · rw [Function.update_of_ne hne] at hr'
        exact absurd (h.unique r' r (Phase.isUnfinished_of_isActive hr') hr) hne
  fresh := by
    intro r' hr'
    rw [hn] at hr'
    have hne : r' ≠ r := by
      intro heq
      subst heq
      rw [h.fresh r' hr'] at hr
      exact absurd hr (by decide)
    rw [hp, Function.update_of_ne hne]
    exact h.fresh r' hr'

/-- **Every step but an early start keeps it.** -/
theorem OneRun.step [DecidableEq τ] (h : OneRun s) (hstep : Step s l t)
    (htime : Timely s l t) : OneRun t := by
  cases (step_effects hstep).1 with
  | none hp ha hn =>
    exact ⟨by rw [hp]; exact h.unique, by rw [ha, hp]; exact h.activated, by
      rw [hn, hp]; exact h.fresh⟩
  | spawn hl hthd hidle hp ha hn =>
    -- no run is active, as the flag is down, and none is spawned, as the start is not early
    have hnone : ∀ r, (s.phase r).isUnfinished = false := by
      intro r
      by_contra hr
      rcases Phase.isUnfinished_cases (by simpa using hr) with hsp | hact
      · exact htime hl hthd r hsp
      · rw [h.activated.mpr ⟨r, hact⟩] at hidle
        exact absurd hidle (by decide)
    have honly : ∀ r, (t.phase r).isUnfinished = true → r = s.nRuns := by
      intro r hr
      by_contra hne
      rw [hp, Function.update_of_ne hne, hnone r] at hr
      exact absurd hr (by decide)
    refine ⟨?_, ?_, ?_⟩
    · intro r r' hr hr'
      rw [honly r hr, honly r' hr']
    · rw [ha]
      apply iff_of_false (by decide)
      intro hex
      obtain ⟨r, hr⟩ := hex
      have hrn := honly r (Phase.isUnfinished_of_isActive hr)
      subst hrn
      rw [hp, Function.update_self] at hr
      exact absurd hr (by decide)
    · intro r hr
      rw [hn] at hr
      rw [hp, Function.update_of_ne (by omega)]
      exact h.fresh r (by omega)
  | activate r hr hp ha hn => exact h.move (by rw [hr]; rfl) hp ha rfl hn
  | goOn r p hr hpa _ hp ha hn =>
    have hflag : s.thd.isActivated = true := h.activated.mpr ⟨r, hr⟩
    exact h.move (Phase.isUnfinished_of_isActive hr) hp (ha.trans hflag) hpa.symm hn
  | finalize r p hr hpu hp ha hn =>
    have hpa := Phase.not_isActive hpu
    exact h.move (Phase.isUnfinished_of_isActive hr) hp ha hpa.symm hn
  | delete r p hr hr' hpu hp ha hn =>
    have hsame : ∀ r', (t.phase r').isUnfinished = (s.phase r').isUnfinished := by
      intro r'
      by_cases hne : r' = r
      · subst hne
        rw [hp, Function.update_self, hpu, hr]
      · rw [hp, Function.update_of_ne hne]
    have hactive : ∀ r', (t.phase r').isActive = (s.phase r').isActive := by
      intro r'
      by_cases hne : r' = r
      · subst hne
        rw [hp, Function.update_self, Phase.not_isActive hpu, Phase.not_isActive hr]
      · rw [hp, Function.update_of_ne hne]
    refine ⟨?_, ?_, ?_⟩
    · intro r₁ r₂ h₁ h₂
      rw [hsame] at h₁ h₂
      exact h.unique r₁ r₂ h₁ h₂
    · rw [ha, h.activated]
      exact exists_congr (fun r' => by rw [hactive r'])
    · intro r₁ h₁
      rw [hn] at h₁
      have hne : r₁ ≠ r := by
        intro heq
        subst heq
        exact hr' (h.fresh r₁ h₁)
      rw [hp, Function.update_of_ne hne]
      exact h.fresh r₁ h₁

/-! ## §3. A run of one's own. -/

/-- The runs of the starts that returned OK. -/
def okRuns (ls : List (Label τ)) : List Nat :=
  ls.filterMap (fun l => match l.outcome with
    | .started r => some r
    | _ => none)

/-- What the starts in progress and those that returned OK have: runs that were
spawned, and no two the same. -/
structure OwnRuns (ls : List (Label τ)) (s : System τ) : Prop where
  starting_lt : ∀ u r, Starting s u r → r < s.nRuns
  starting_inj : ∀ u v r, Starting s u r → Starting s v r → u = v
  starting_new : ∀ u r, Starting s u r → r ∉ okRuns ls
  okRuns_lt : ∀ r ∈ okRuns ls, r < s.nRuns
  okRuns_nodup : (okRuns ls).Nodup

theorem okRuns_snoc (ls : List (Label τ)) (l : Label τ) :
    okRuns (ls ++ [l]) = okRuns ls ++ okRuns [l] :=
  List.filterMap_append

/-- **Every step keeps the runs of the starts apart.** -/
theorem OwnRuns.step [DecidableEq τ] {ls : List (Label τ)} (h : OwnRuns ls s)
    (hstep : Step s l t) : OwnRuns (ls ++ [l]) t := by
  cases (step_effects hstep).2 with
  | none hs hn ho =>
    have hok : okRuns (ls ++ [l]) = okRuns ls := by
      have hnil : okRuns [l] = [] := by
        cases hl : l.outcome with
        | started r => exact absurd hl (ho r)
        | quiet => simp [okRuns, hl]
        | slept => simp [okRuns, hl]
        | returned ret => simp [okRuns, hl]
      rw [okRuns_snoc, hnil, List.append_nil]
    refine ⟨?_, ?_, ?_, ?_, ?_⟩
    · intro u r hr
      rw [hn]
      exact h.starting_lt u r (hs u r hr)
    · intro u v r hu hv
      exact h.starting_inj u v r (hs u r hu) (hs v r hv)
    · intro u r hr
      rw [hok]
      exact h.starting_new u r (hs u r hr)
    · rw [hok, hn]
      exact h.okRuns_lt
    · rw [hok]
      exact h.okRuns_nodup
  | spawn u hu hn ho =>
    have hok : okRuns (ls ++ [l]) = okRuns ls := by
      rw [okRuns_snoc]
      simp [okRuns, ho]
    refine ⟨?_, ?_, ?_, ?_, ?_⟩
    · intro v r hr
      rcases hu v r hr with hr | ⟨-, hr⟩
      · have := h.starting_lt v r hr
        omega
      · omega
    · intro v w r hv hw
      -- an old start has an old run, and the new one the next number
      rcases hu v r hv with hv | ⟨hv, hr⟩
      · rcases hu w r hw with hw | ⟨-, hr⟩
        · exact h.starting_inj v w r hv hw
        · have := h.starting_lt v r hv
          omega
      · rcases hu w r hw with hw | ⟨hw, -⟩
        · have := h.starting_lt w r hw
          omega
        · rw [hv, hw]
    · intro v r hr
      rw [hok]
      rcases hu v r hr with hr | ⟨-, hr⟩
      · exact h.starting_new v r hr
      · intro hmem
        have := h.okRuns_lt r hmem
        omega
    · intro r hr
      rw [hok] at hr
      have := h.okRuns_lt r hr
      omega
    · rw [hok]
      exact h.okRuns_nodup
  | started u r hu hu' hs hn ho =>
    have hok : okRuns (ls ++ [l]) = okRuns ls ++ [r] := by
      rw [okRuns_snoc]
      simp [okRuns, ho]
    refine ⟨?_, ?_, ?_, ?_, ?_⟩
    · intro v r' hr
      rw [hn]
      exact h.starting_lt v r' (hs v r' hr)
    · intro v w r' hv hw
      exact h.starting_inj v w r' (hs v r' hv) (hs w r' hw)
    · intro v r' hr
      rw [hok, List.mem_append, List.mem_singleton]
      intro hcases
      rcases hcases with hmem | heq
      · exact h.starting_new v r' (hs v r' hr) hmem
      · subst heq
        have hvu : v = u := h.starting_inj v u r' (hs v r' hr) hu
        subst hvu
        exact hu' r' hr
    · intro r' hr'
      rw [hok, List.mem_append, List.mem_singleton] at hr'
      rw [hn]
      rcases hr' with hr' | rfl
      · exact h.okRuns_lt r' hr'
      · exact h.starting_lt u r' hu
    · rw [hok]
      apply List.Nodup.append h.okRuns_nodup (List.nodup_singleton r)
      intro r' hr' hmem
      rw [List.mem_singleton] at hmem
      subst hmem
      exact h.starting_new u r' hu hr'

/-- In every run, the starts that returned OK have runs of their own. -/
theorem reachable_ownRuns [DecidableEq τ] {ls : List (Label τ)}
    (hrun : Run Step (System.initial τ) ls s) : OwnRuns ls s := by
  refine Run.invariant_history OwnRuns (fun _ _ _ _ _ ih hstep => ih.step hstep) ?_ hrun
  refine ⟨?_, ?_, ?_, ?_, List.nodup_nil⟩
  · intro u r hr
    exact absurd hr (by simp [Starting, System.initial, Thread.cont?])
  · intro u v r hr
    exact absurd hr (by simp [Starting, System.initial, Thread.cont?])
  · intro u r hr
    exact absurd hr (by simp [Starting, System.initial, Thread.cont?])
  · intro r hr
    exact absurd hr (by simp [okRuns])

/-! ## §4. The runs in order. -/

/-- After the step no two pthreads execute `m_main_proc`, and if it was a start
made while a run was spawned and not finished, it returned ALREADY_EXISTS. -/
def Orderly (s : System τ) (l : Label τ) (t : System τ) : Prop :=
  (∀ r r', t.phase r = .main → t.phase r' = .main → r = r') ∧
  (l.isStart = true → s.isThd = true → (∃ r, (s.phase r).isUnfinished = true) →
    l.outcome = .returned .alreadyExists)

/-- Whether a start finds the object active is told by its result. -/
theorem start_alreadyExists_iff [DecidableEq τ] (hstep : Step s l t) (hl : l.isStart = true)
    (hthd : s.isThd = true) :
    l.outcome = .returned .alreadyExists ↔ s.thd.isActivated = true := by
  cases (step_effects hstep).1 with
  | none _ _ _ hs => exact hs hl hthd
  | spawn _ _ hidle _ _ _ ho => exact iff_of_false (by simp [ho]) (by simp [hidle])
  | activate _ _ _ _ _ hl' => exact absurd hl (by simp [hl'])
  | goOn _ _ _ _ _ _ _ _ hl' => exact absurd hl (by simp [hl'])
  | finalize _ _ _ _ _ _ _ hl' => exact absurd hl (by simp [hl'])
  | delete _ _ _ _ _ _ _ _ hl' => exact absurd hl (by simp [hl'])

/-- **While one run at a time is unfinished, a step is in order exactly when it
is not an early start.** -/
theorem OneRun.orderly_iff [DecidableEq τ] (h : OneRun s) (hstep : Step s l t) :
    Orderly s l t ↔ Timely s l t := by
  constructor
  · intro hboth hl hthd r hr
    obtain ⟨-, hstart⟩ := hboth
    have hunf : (s.phase r).isUnfinished = true := by
      rw [hr]
      rfl
    have hact := (start_alreadyExists_iff hstep hl hthd).mp (hstart hl hthd ⟨r, hunf⟩)
    -- the flag is up for an active run, but the one unfinished run has yet to begin
    obtain ⟨r', hr'⟩ := h.activated.mp hact
    rw [h.unique r' r (Phase.isUnfinished_of_isActive hr') hunf, hr] at hr'
    exact absurd hr' (by decide)
  · intro htime
    have ht := h.step hstep htime
    refine ⟨?_, ?_⟩
    · intro r r' hr hr'
      exact ht.unique r r' (by rw [hr]; rfl) (by rw [hr']; rfl)
    · intro hl hthd hex
      obtain ⟨r, hr⟩ := hex
      rw [start_alreadyExists_iff hstep hl hthd]
      rcases Phase.isUnfinished_cases hr with hsp | hact
      · exact absurd hsp (htime hl hthd r)
      · exact h.activated.mpr ⟨r, hact⟩

/-- **The runs in which no two pthreads ever execute the object's main procedure,
every start that returns OK has a run of its own, and every start during an
unfinished run returns ALREADY_EXISTS, are exactly the runs without an early
start.** -/
theorem orderly_runs_iff [DecidableEq τ] {ls : List (Label τ)} {s : System τ} :
    (Run (restrict Step Orderly) (System.initial τ) ls s ∧ (okRuns ls).Nodup) ↔
    Run (restrict Step Timely) (System.initial τ) ls s := by
  have hiff : Run (restrict Step Orderly) (System.initial τ) ls s ↔
      Run (restrict Step Timely) (System.initial τ) ls s :=
    Run.restrict_congr (fun _ _ _ h hstep => h.orderly_iff hstep)
      (fun _ _ _ h hstep htime => h.step hstep htime) OneRun.initial
  constructor
  · intro h
    exact hiff.mp h.1
  · intro h
    exact ⟨hiff.mpr h, (reachable_ownRuns h.of_restrict).okRuns_nodup⟩

/-- A second start that gets the lock before the first spawned pthread: both
return OK, and both pthreads execute the main procedure. -/
theorem two_runs_in_main :
    ∃ (ls : List (Label Bool)) (s : System Bool),
      Run Step (System.initial Bool) ls s ∧ s.phase 0 = .main ∧ s.phase 1 = .main ∧
      okRuns ls = [0, 1] ∧ ¬ Run (restrict Step Orderly) (System.initial Bool) ls s := by
  have hrun : ∃ p, exec next (System.initial Bool)
      [.start false false true, .start true false true, .activate 0, .activate 1,
        .resume false, .resume true] = some p ∧
      p.2.phase 0 = .main ∧ p.2.phase 1 = .main ∧ okRuns p.1 = [0, 1] :=
    ⟨_, rfl, rfl, rfl, rfl⟩
  obtain ⟨⟨ls, s⟩, hexec, h0, h1, hok⟩ := hrun
  refine ⟨ls, s, run_of_exec hexec, h0, h1, hok, ?_⟩
  intro hord
  have hmain : ∀ r r', s.phase r = .main → s.phase r' = .main → r = r' := by
    apply hord.invariant (fun _ _ _ _ hstep => hstep.2.1)
    intro r r' hr
    exact absurd hr (by simp [System.initial])
  exact absurd (hmain 0 1 h0 h1) (by decide)

end Mccp.Thread
