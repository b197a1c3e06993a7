/-
  Mccp.Lib.Transition
  ───────────────────
  **LABELLED RUNS, INVARIANTS AND MACHINES.**

  A system is a relation `step : S → L → S → Prop`; `Run step s ls t` says
  that the labels `ls`, in this order, lead from `s` to `t`.  Everything the
  protocol models need from runs is here, once:

      Run.append / Run.split   — runs compose and come apart
      Run.invariant            — what every step keeps, every run keeps
      Run.since                — since when a state of affairs has lasted
      Run.restrict_congr       — two conditions on steps with the same runs
      Run.restrict_of_inv      — one condition on steps from another
      Run.restrict_of_doomed   — the same, where a fault shows only later
      run_of_exec              — what an executable system executes is a run
      run_of_checked           — the same for a restricted system
      exec_answers             — an executable system that answers like a machine
      exec_follows             — where the machine is when such a system is done

  `restrict step ok` is the system whose steps also meet a condition.  Nothing
  here knows of any particular program.
-/
import Mathlib.Data.List.Induction

namespace Transition

variable {S T L : Type*}

/-! ## §1. Runs. -/

/-- A finite run: the labels, in order, lead from the first state to the last. -/
inductive Run (step : S → L → S → Prop) : S → List L → S → Prop
  | nil (s : S) : Run step s [] s
  | cons {s t u : S} {l : L} {ls : List L} :
      step s l t → Run step t ls u → Run step s (l :: ls) u

/-- The system whose steps additionally meet a condition. -/
def restrict (step ok : S → L → S → Prop) : S → L → S → Prop :=
  fun s l t => step s l t ∧ ok s l t

variable {step : S → L → S → Prop}

theorem Run.append {s t u : S} {ls ms : List L}
    (h : Run step s ls t) (h' : Run step t ms u) : Run step s (ls ++ ms) u := by
  induction h with
  | nil => exact h'
  | cons hs _ ih => exact .cons hs (ih h')

theorem Run.snoc {s t u : S} {ls : List L} {l : L}
    (h : Run step s ls t) (h' : step t l u) : Run step s (ls ++ [l]) u :=
  h.append (.cons h' (.nil u))

/-- A run over a concatenation passes through a state in the middle. -/
theorem Run.split {s u : S} {ls ms : List L} (h : Run step s (ls ++ ms) u) :
    ∃ t, Run step s ls t ∧ Run step t ms u := by
  induction ls generalizing s with
  | nil => exact ⟨s, .nil s, h⟩
  | cons l ls ih =>
    cases h with
    | cons hs hr =>
      obtain ⟨t, h₁, h₂⟩ := ih hr
      exact ⟨t, .cons hs h₁, h₂⟩

/-- The last step of a non-empty run. -/
theorem Run.last {s u : S} {ls : List L} {l : L} (h : Run step s (ls ++ [l]) u) :
    ∃ t, Run step s ls t ∧ step t l u := by
  obtain ⟨t, h₁, h₂⟩ := h.split
  cases h₂ with
  | cons hs hr =>
    cases hr
    exact ⟨t, h₁, hs⟩

theorem Run.mono {step' : S → L → S → Prop} (hm : ∀ s l t, step s l t → step' s l t)
    {s t : S} {ls : List L} (h : Run step s ls t) : Run step' s ls t := by
  induction h with
  | nil => exact .nil _
  | cons hs _ ih => exact .cons (hm _ _ _ hs) ih

/-! ## §2. Invariants. -/

/-- **The invariant rule**: what every step keeps, every run keeps. -/
theorem Run.invariant {Inv : S → Prop} (hstep : ∀ s l t, Inv s → step s l t → Inv t)
    {s t : S} {ls : List L} (h : Run step s ls t) (h0 : Inv s) : Inv t := by
  induction h with
  | nil => exact h0
  | cons hs _ ih => exact ih (hstep _ _ _ h0 hs)

/-- The invariant rule with a history: `Inv` may speak of the labels so far. -/
theorem Run.invariant_history (Inv : List L → S → Prop) {s : S}
    (hstep : ∀ ls t l u, Run step s ls t → Inv ls t → step t l u → Inv (ls ++ [l]) u)
    (h0 : Inv [] s) {ls : List L} {t : S} (h : Run step s ls t) : Inv ls t := by
  induction ls using List.reverseRecOn generalizing t with
  | nil =>
    cases h
    exact h0
  | append_singleton ls l ih =>
    obtain ⟨u, hu, hl⟩ := h.last
    exact hstep ls u l t hu (ih hu) hl

/-- The steps of a restricted run are steps. -/
theorem Run.of_restrict {ok : S → L → S → Prop} {s t : S} {ls : List L}
    (h : Run (restrict step ok) s ls t) : Run step s ls t :=
  h.mono (fun _ _ _ hs => hs.1)

/-- **What holds at the end and not at the beginning has a last step at which it
begins**, and holds in every state from then on. -/
theorem Run.since {P : S → Prop} {s t : S} {ls : List L} (h : Run step s ls t) (h0 : ¬ P s)
    (ht : P t) :
    ∃ ls₁ l ls₂ u v, ls = ls₁ ++ l :: ls₂ ∧ Run step s ls₁ u ∧ ¬ P u ∧ step u l v ∧ P v ∧
      Run (restrict step fun _ _ w => P w) v ls₂ t := by
  induction ls using List.reverseRecOn generalizing t with
  | nil =>
    cases h
    exact absurd ht h0
  | append_singleton ls l ih =>
    obtain ⟨u, hu, hl⟩ := h.last
    by_cases hP : P u
    · obtain ⟨ls₁, l₁, ls₂, u₁, v₁, rfl, hu₁, hnot, hstep, hv, hrest⟩ := ih hu hP
      exact ⟨ls₁, l₁, ls₂ ++ [l], u₁, v₁, by simp, hu₁, hnot, hstep, hv, hrest.snoc ⟨hl, ht⟩⟩
    · exact ⟨ls, l, [], u, t, rfl, hu, hP, hl, ht, .nil t⟩

/-- Where a condition on a step gives another one and keeps an invariant, it
does so along a run. -/
theorem Run.restrict_of_inv {ok ok' : S → L → S → Prop} (Inv : S → Prop)
    (hkeep : ∀ s l t, Inv s → step s l t → ok s l t → ok' s l t ∧ Inv t)
    {s t : S} {ls : List L} (h0 : Inv s) (h : Run (restrict step ok) s ls t) :
    Run (restrict step ok') s ls t := by
  induction h with
  | nil => exact .nil _
  | cons hs _ ih =>
    obtain ⟨hok, hinv⟩ := hkeep _ _ _ h0 hs.1 hs.2
    exact .cons ⟨hs.1, hok⟩ (ih hinv)

/-- **The rule of the late fault**: where a step that breaks `ok'` leaves the
system doomed, and `ok` never lets it out again, a run under `ok` that does not
end doomed is one under `ok'`. -/
theorem Run.restrict_of_doomed {ok ok' : S → L → S → Prop} (Inv Doomed : S → Prop)
    (hinv : ∀ s l t, Inv s → step s l t → ok s l t → Inv t)
    (hbreak : ∀ s l t, Inv s → step s l t → ok s l t → ¬ ok' s l t → Doomed t)
    (hkeep : ∀ s l t, Inv s → Doomed s → step s l t → ok s l t → Doomed t)
    {s t : S} {ls : List L} (h0 : Inv s) (h : Run (restrict step ok) s ls t) (hend : ¬ Doomed t) :
    Run (restrict step ok') s ls t := by
  have hboth : ∀ s l t, Inv s ∧ Doomed s → restrict step ok s l t → Inv t ∧ Doomed t :=
    fun s l t hs hst => ⟨hinv s l t hs.1 hst.1 hst.2, hkeep s l t hs.1 hs.2 hst.1 hst.2⟩
  induction h with
  | nil => exact .nil _
  | cons hs hrest ih =>
    have hnext := hinv _ _ _ h0 hs.1 hs.2
    refine .cons ⟨hs.1, ?_⟩ (ih hnext hend)
    by_contra hnot
    have hdoom := hbreak _ _ _ h0 hs.1 hs.2 hnot
    exact hend (hrest.invariant hboth ⟨hnext, hdoom⟩).2

/-- **The exchange rule**: where two conditions on a step agree as long as an
invariant holds, and the second one keeps the invariant, the runs whose steps
all meet the first are the runs whose steps all meet the second. -/
theorem Run.restrict_congr {ok ok' : S → L → S → Prop} {Inv : S → Prop}
    (hiff : ∀ s l t, Inv s → step s l t → (ok s l t ↔ ok' s l t))
    (hinv : ∀ s l t, Inv s → step s l t → ok' s l t → Inv t) {s t : S} {ls : List L}
    (h0 : Inv s) : Run (restrict step ok) s ls t ↔ Run (restrict step ok') s ls t := by
  constructor
  · refine Run.restrict_of_inv Inv (fun s l t hs hst hok => ?_) h0
    have hok' := (hiff s l t hs hst).mp hok
    exact ⟨hok', hinv s l t hs hst hok'⟩
  · refine Run.restrict_of_inv Inv (fun s l t hs hst hok' => ?_) h0
    exact ⟨(hiff s l t hs hst).mpr hok', hinv s l t hs hst hok'⟩

/-! ## §3. Executable systems. -/

variable {A : Type*}

/-- The system of an executable step function: a choice, taken in a state, is
open or not, and shows an observation. -/
def observed (next : S → A → Option (L × S)) : S → L → S → Prop :=
  fun s l t => ∃ a, next s a = some (l, t)

/-- Make the choices in order and collect what is observed. -/
def exec (next : S → A → Option (L × S)) (s : S) : List A → Option (List L × S)
  | [] => some ([], s)
  | a :: as => do
      let (l, t) ← next s a
      let (ls, u) ← exec next t as
      return (l :: ls, u)

/-- What is executed is a run. -/
theorem run_of_exec {next : S → A → Option (L × S)} {s t : S} {as : List A} {ls : List L}
    (h : exec next s as = some (ls, t)) : Run (observed next) s ls t := by
  induction as generalizing s ls with
  | nil =>
    simp only [exec, Option.some.injEq, Prod.mk.injEq] at h
    obtain ⟨rfl, rfl⟩ := h
    exact .nil s
  | cons a as ih =>
    simp only [exec, Option.bind_eq_bind, Option.bind_eq_some_iff] at h
    obtain ⟨⟨l, s'⟩, hn, ⟨ls', t'⟩, he, hr⟩ := h
    simp only [Option.pure_def, Option.some.injEq, Prod.mk.injEq] at hr
    obtain ⟨rfl, rfl⟩ := hr
    exact .cons ⟨a, hn⟩ (ih he)

/-- Every choice, in order, is open and its step meets the condition. -/
def Checked (next : S → A → Option (L × S)) (ok : S → L → S → Prop) (s : S) : List A → Prop
  | [] => True
  | a :: as =>
      match next s a with
      | some (l, t) => ok s l t ∧ Checked next ok t as
      | none => False

instance Checked.decidable (next : S → A → Option (L × S)) (ok : S → L → S → Prop)
    [∀ s l t, Decidable (ok s l t)] : (s : S) → (as : List A) → Decidable (Checked next ok s as)
  | _, [] => isTrue trivial
  | s, a :: as =>
      match h : next s a with
      | some (l, t) =>
          have := Checked.decidable next ok t as
          decidable_of_iff (ok s l t ∧ Checked next ok t as) (by simp [Checked, h])
      | none => isFalse (by simp [Checked, h])

/-- What is executed and checked is a run of the restricted system. -/
theorem run_of_checked {next : S → A → Option (L × S)} {ok : S → L → S → Prop} {s t : S}
    {as : List A} {ls : List L} (h : exec next s as = some (ls, t)) (hc : Checked next ok s as) :
    Run (restrict (observed next) ok) s ls t := by
  induction as generalizing s ls with
  | nil =>
    simp only [exec, Option.some.injEq, Prod.mk.injEq] at h
    obtain ⟨rfl, rfl⟩ := h
    exact .nil s
  | cons a as ih =>
    simp only [exec, Option.bind_eq_bind, Option.bind_eq_some_iff] at h
    obtain ⟨⟨l, s'⟩, hn, ⟨ls', t'⟩, he, hr⟩ := h
    simp only [Option.pure_def, Option.some.injEq, Prod.mk.injEq] at hr
    obtain ⟨rfl, rfl⟩ := hr
    simp only [Checked, hn] at hc
    exact .cons ⟨⟨a, hn⟩, hc.1⟩ (ih he hc.2)

/-! ## §4. Machines. -/

variable {B : Type*}

/-- What a machine, which has a next state and an answer for every choice,
answers to the choices in order. -/
def answers (f : T → A → B × T) : T → List A → List B
  | _, [] => []
  | t, a :: as => (f t a).1 :: answers f (f t a).2 as

/-- The property holds in every state of the machine, first and last included. -/
def Along (f : T → A → B × T) (P : T → Prop) : T → List A → Prop
  | t, [] => P t
  | t, a :: as => P t ∧ Along f P (f t a).2 as

instance Along.decidable (f : T → A → B × T) (P : T → Prop) [DecidablePred P] :
    (t : T) → (as : List A) → Decidable (Along f P t as)
  | t, [] => inferInstanceAs (Decidable (P t))
  | t, a :: as =>
      have := Along.decidable f P (f t a).2 as
      inferInstanceAs (Decidable (P t ∧ Along f P (f t a).2 as))

theorem Along.head {f : T → A → B × T} {P : T → Prop} {t : T} {as : List A}
    (h : Along f P t as) : P t := by
  cases as with
  | nil => exact h
  | cons a as => exact h.1

/-- **Refinement of a machine**: when every step succeeds and shows the answer
of the machine, all of an execution does. -/
theorem exec_answers {next : S → A → Option (L × S)} {f : T → A → B × T} (R : S → T → Prop)
    (shown : L → B) (ok : A → Prop) (P : T → Prop)
    (hstep : ∀ s t a, R s t → ok a → P t → P (f t a).2 →
      ∃ l s', next s a = some (l, s') ∧ shown l = (f t a).1 ∧ R s' (f t a).2)
    {s : S} {t : T} {as : List A} (h0 : R s t) (hok : ∀ a ∈ as, ok a) (hP : Along f P t as) :
    ∃ ls s', exec next s as = some (ls, s') ∧ ls.map shown = answers f t as := by
  induction as generalizing s t with
  | nil => exact ⟨[], s, rfl, rfl⟩
  | cons a as ih =>
    obtain ⟨hPt, hrest⟩ := hP
    obtain ⟨l, s', hn, hl, hR⟩ := hstep s t a h0 (hok a List.mem_cons_self) hPt hrest.head
    obtain ⟨ls, s'', he, hls⟩ := ih hR (fun b hb => hok b (List.mem_cons_of_mem a hb)) hrest
    refine ⟨l :: ls, s'', ?_, ?_⟩
    · simp only [exec, hn, he, Option.bind_eq_bind, Option.bind_some, Option.pure_def]
    · rw [List.map_cons, hl, hls]
      rfl

/-- Where an execution ends, the machine ends in a state that is related. -/
theorem exec_follows {next : S → A → Option (L × S)} {f : T → A → B × T} (R : S → T → Prop)
    (ok : A → Prop) (P : T → Prop)
    (hstep : ∀ s t a l s', R s t → ok a → P (f t a).2 → next s a = some (l, s') → R s' (f t a).2)
    {s s' : S} {t : T} {as : List A} {ls : List L} (h : exec next s as = some (ls, s'))
    (h0 : R s t) (hok : ∀ a ∈ as, ok a) (hP : Along f P t as) :
    R s' (as.foldl (fun t a => (f t a).2) t) := by
  induction as generalizing s t ls with
  | nil =>
    simp only [exec, Option.some.injEq, Prod.mk.injEq] at h
    obtain ⟨-, rfl⟩ := h
    exact h0
  | cons a as ih =>
    simp only [exec, Option.bind_eq_bind, Option.bind_eq_some_iff] at h
    obtain ⟨⟨l, s₁⟩, hn, ⟨ls₁, s₂⟩, he, hr⟩ := h
    simp only [Option.pure_def, Option.some.injEq, Prod.mk.injEq] at hr
    obtain ⟨-, rfl⟩ := hr
    have hR := hstep s t a l s₁ h0 (hok a List.mem_cons_self) hP.2.head hn
    exact ih he hR (fun b hb => hok b (List.mem_cons_of_mem a hb)) hP.2

end Transition
