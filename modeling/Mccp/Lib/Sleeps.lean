/-
  Mccp.Lib.Sleeps
  ───────────────
  **THE SLEEPS OF A CALL ON A MONITOR.**

  A timed history of a monitor is what an observer sees, with the time of each
  step.  `sleeps` reads off it the waits of one thread: what each one is
  allowed, and how long it takes until the thread has the lock again.

      Restarts            — a call hands the same timeout to all its waits
      Restarts.sleeps_all — so they are all allowed the whole of it
      Restarts.within_iff — when they keep to it together all the same

  Nothing here knows of any particular program.
-/
import Mccp.Lib.Budget
import Mccp.Lib.Monitor

namespace Monitor

open Budget Transition

variable {τ σ Call K R C H T : Type}

/-! ## §1. Timed histories. -/

/-- What is seen of a step, and when. -/
structure Timed (τ Call K R C H T : Type) where
  time : T
  label : Label τ Call K R C H

/-- Time never goes back. -/
def Chronological [LE T] : T → List (Timed τ Call K R C H T) → Prop
  | _, [] => True
  | now, l :: h => now ≤ l.time ∧ Chronological l.time h

/-- The sleep that a segment leaves its thread in: what it is allowed, and when
it begins. -/
def Outcome.sleep (allowed : K → T) (now : T) : Outcome K R C H → Option (T × T)
  | .slept k _ => some (allowed k, now)
  | _ => none

/-- **The sleeps of thread `t`** in a history, where it is in sleep `cur` at its
beginning.  A sleep ends when the thread goes on; of one that has not ended, no
time is counted. -/
def sleeps [Sub T] [Zero T] [DecidableEq τ] (t : τ) (allowed : K → T) :
    Option (T × T) → List (Timed τ Call K R C H T) → List (Wait T)
  | none, [] => []
  | some (most, _), [] => [{ allowed := most, taken := 0 }]
  | cur, l :: h =>
      match l.label with
      | .seg u _ o =>
          if u = t then
            match cur with
            | some (most, since) =>
                { allowed := most, taken := l.time - since } ::
                  sleeps t allowed (o.sleep allowed l.time) h
            | none => sleeps t allowed (o.sleep allowed l.time) h
          else sleeps t allowed cur h
      | .wake _ _ => sleeps t allowed cur h

/-- No call of thread `t` begins in the history. -/
def NoCall (t : τ) (h : List (Timed τ Call K R C H T)) : Prop :=
  ∀ l ∈ h, ∀ c o, l.label ≠ .seg t (.enter c) o

/-! ## §2. Calls that hand on their timeout. -/

/-- A call hands the timeout it has got to each of its waits. -/
structure Restarts (code : Code σ Call K R C H) (allowed : K → T) (asked : Call → Option T) :
    Prop where
  enter : ∀ s c k cnd, (code.seg s (.enter c)).outcome = .slept k cnd → asked c = some (allowed k)
  resume : ∀ s k w k' cnd, (code.seg s (.resume k w)).outcome = .slept k' cnd →
    allowed k' = allowed k

variable [DecidableEq τ] [DecidableEq C] {code : Code σ Call K R C H} {allowed : K → T}
  {asked : Call → Option T} {t : τ}

/-- Thread `t` is outside, or in a call that was given this timeout. -/
def Thread.Given (allowed : K → T) (nsec : T) (th : Thread K C) : Prop :=
  ∀ k, th.cont? = some k → allowed k = nsec

/-- A step of the thread's own call, or of others, keeps the timeout of the call. -/
theorem Restarts.step (hr : Restarts code allowed asked) {nsec : T} {s s' : State τ σ K C}
    {l : Label τ Call K R C H} (hg : (s.thread t).Given allowed nsec) (hstep : Step code s l s')
    (hno : ∀ c o, l = .seg t (.enter c) o → asked c = some nsec) :
    (s'.thread t).Given allowed nsec ∧
    ∀ i o, l = .seg t i o → ∀ k cnd, o = .slept k cnd → allowed k = nsec := by
  obtain ⟨-, ⟨u, i, hi, hl, rfl⟩ | ⟨u, w, k, cnd, hu, -, hl, rfl⟩⟩ := step_cases hstep
  · -- what the segment of `t` itself leaves behind
    have hown : u = t → ∀ k cnd, (code.seg s.shared i).outcome = .slept k cnd →
        allowed k = nsec := by
      intro hut k cnd hout
      subst hut
      cases i with
      | enter c =>
        have hasked := hr.enter _ _ _ _ hout
        rw [hno c _ hl] at hasked
        exact (Option.some.inj hasked).symm
      | resume k₀ w =>
        rw [hr.resume _ _ _ _ _ hout]
        exact hg k₀ (by rw [show s.thread u = .woken k₀ w from hi]; rfl)
    refine ⟨?_, ?_⟩
    · intro k hk
      have hothers : ∀ ns, u ≠ t → (broadcast ns s.thread t).cont? = some k →
          allowed k = nsec := by
        intro ns _ hns
        rw [broadcast_cont?] at hns
        exact hg k hns
      by_cases hut : u = t
      · subst hut
        cases hseg : code.seg s.shared i with
        | ret s₁ r ns => simp [State.after, hseg, Thread.cont?] at hk
        | wait s₁ k₁ cnd ns =>
          simp only [State.after, hseg, Function.update_self, Thread.cont?,
            Option.some.injEq] at hk
          exact hown rfl k cnd (by rw [hseg, ← hk]; rfl)
        | halt e =>
          rw [hseg] at hk
          exact hg k hk
      · have htu : t ≠ u := fun h => hut h.symm
        cases hseg : code.seg s.shared i with
        | ret s₁ r ns =>
          simp only [State.after, hseg, Function.update_of_ne htu] at hk
          exact hothers ns hut hk
        | wait s₁ k₁ cnd ns =>
          simp only [State.after, hseg, Function.update_of_ne htu] at hk
          exact hothers ns hut hk
        | halt e =>
          rw [hseg] at hk
          exact hg k hk
    · intro i' o heq k cnd ho
      rw [hl] at heq
      injection heq with hut _ hout
      exact hown hut k cnd (by rw [hout, ho])
  · -- the end of a wait changes nothing of the call
    refine ⟨?_, ?_⟩
    · intro k' hk
      by_cases hut : t = u
      · subst hut
        simp only [Function.update_self] at hk
        exact hg k' (by rw [hu]; exact hk)
      · simp only [Function.update_of_ne hut] at hk
        exact hg k' hk
    · intro i o heq
      rw [hl] at heq
      exact absurd heq (by simp)

section

variable [AddCommGroup T] [LinearOrder T]

omit [LinearOrder T] in
/-- **All the sleeps of a call are allowed the whole of its timeout.** -/
theorem Restarts.sleeps_all (hr : Restarts code allowed asked) {nsec : T}
    {h : List (Timed τ Call K R C H T)} : ∀ {s s' : State τ σ K C} {cur : Option (T × T)},
    (s.thread t).Given allowed nsec → (∀ p ∈ cur, p.1 = nsec) →
    Run (Step code) s (h.map Timed.label) s' →
    (∀ l ∈ h, ∀ c o, l.label = .seg t (.enter c) o → asked c = some nsec) →
    ∀ w ∈ sleeps t allowed cur h, w.allowed = nsec := by
  induction h with
  | nil =>
    intro s s' cur hg hcur hrun hno w hw
    cases cur with
    | none => exact absurd hw (by simp [sleeps])
    | some p =>
      rw [sleeps, List.mem_singleton] at hw
      rw [hw]
      exact hcur p rfl
  | cons l h ih =>
    intro s s' cur hg hcur hrun hno w hw
    rw [List.map_cons] at hrun
    cases hrun with
    | cons hstep hrest =>
      obtain ⟨hg', hown⟩ := hr.step hg hstep (hno l List.mem_cons_self)
      have hno' := fun m hm => hno m (List.mem_cons_of_mem l hm)
      cases hl : l.label with
      | wake u w' =>
        simp only [sleeps, hl] at hw
        exact ih hg' hcur hrest hno' w hw
      | seg u i o =>
        simp only [sleeps, hl] at hw
        by_cases hut : u = t
        · rw [if_pos hut] at hw
          subst hut
          -- the sleep that begins here is allowed the same
          have hnext : ∀ p ∈ o.sleep allowed l.time, p.1 = nsec := by
            intro p hp
            cases o with
            | slept k cnd =>
              injection hp with hp
              rw [← hp]
              exact hown i _ hl k cnd rfl
            | returned r => exact absurd hp (by simp [Outcome.sleep])
            | halted e => exact absurd hp (by simp [Outcome.sleep])
          cases cur with
          | none => exact ih hg' hnext hrest hno' w hw
          | some p =>
            rcases List.mem_cons.mp hw with rfl | hw
            · exact hcur p rfl
            · exact ih hg' hnext hrest hno' w hw
        · rw [if_neg hut] at hw
          exact ih hg' hcur hrest hno' w hw

omit [DecidableEq C] in
/-- No sleep takes less than no time. -/
theorem sleeps_taken [IsOrderedAddMonoid T] {h : List (Timed τ Call K R C H T)} :
    ∀ {now : T} {cur : Option (T × T)}, Chronological now h → (∀ p ∈ cur, p.2 ≤ now) →
    ∀ w ∈ sleeps t allowed cur h, 0 ≤ w.taken := by
  induction h with
  | nil =>
    intro now cur _ _ w hw
    cases cur with
    | none => exact absurd hw (by simp [sleeps])
    | some p =>
      rw [sleeps, List.mem_singleton] at hw
      rw [hw]
  | cons l h ih =>
    intro now cur hchron hcur w hw
    obtain ⟨hle, hrest⟩ := hchron
    have hlater : ∀ p ∈ cur, p.2 ≤ l.time := fun p hp => (hcur p hp).trans hle
    cases hl : l.label with
    | wake u w' =>
      simp only [sleeps, hl] at hw
      exact ih hrest hlater w hw
    | seg u i o =>
      simp only [sleeps, hl] at hw
      have hnext : ∀ p ∈ o.sleep allowed l.time, p.2 ≤ l.time := by
        intro p hp
        cases o with
        | slept k cnd =>
          injection hp with hp
          rw [← hp]
        | returned r => exact absurd hp (by simp [Outcome.sleep])
        | halted e => exact absurd hp (by simp [Outcome.sleep])
      by_cases hut : u = t
      · rw [if_pos hut] at hw
        cases cur with
        | none => exact ih hrest hnext w hw
        | some p =>
          rcases List.mem_cons.mp hw with rfl | hw
          · exact sub_nonneg.mpr (hlater p rfl)
          · exact ih hrest hnext w hw
      · rw [if_neg hut] at hw
        exact ih hrest hlater w hw

/-- **The waits of a call keep to its timeout exactly when none but the last
takes any time.** -/
theorem Restarts.within_iff [IsOrderedAddMonoid T] (hr : Restarts code allowed asked) {nsec : T}
    {s s' : State τ σ K C} {c : Call} (hasked : asked c = some nsec)
    {l : Timed τ Call K R C H T} {h : List (Timed τ Call K R C H T)} {o : Outcome K R C H}
    (hl : l.label = .seg t (.enter c) o) (hrun : Run (Step code) s ((l :: h).map Timed.label) s')
    (hno : NoCall t h) (hchron : Chronological l.time h) :
    Within nsec (sleeps t allowed none (l :: h)) ↔ IdleBut 1 (sleeps t allowed none (l :: h)) := by
  have hidle : (s.thread t).Given allowed nsec := by
    cases hrun with
    | cons hstep _ =>
      obtain ⟨-, ⟨u, i, hi, heq, -⟩ | ⟨u, w, k, cnd, -, -, heq, -⟩⟩ := step_cases hstep
      · rw [hl] at heq
        injection heq with hut hi' _
        subst hut hi'
        intro k hk
        rw [show s.thread t = .idle from hi] at hk
        exact absurd hk (by simp [Thread.cont?])
      · rw [hl] at heq
        exact absurd heq (by simp)
  refine within_of_restarted ?_ ?_
  · refine hr.sleeps_all hidle (fun p hp => absurd hp (by simp)) hrun ?_
    intro m hm c' o' heq
    rcases List.mem_cons.mp hm with rfl | hm
    · rw [hl] at heq
      injection heq with _ hc _
      injection hc with hc
      rw [← hc]
      exact hasked
    · exact absurd heq (hno m hm c' o')
  · have hfrom : Chronological l.time (l :: h) := ⟨le_refl _, hchron⟩
    exact sleeps_taken hfrom (fun p hp => absurd hp (by simp))

end

end Monitor
