/-
  Mccp.Lib.Budget
  ───────────────
  **WAITS THAT SHARE A BUDGET OF TIME.**

  A call that sleeps several times has one budget for all its sleeps.  A
  `Wait` is what a sleep is allowed and what it takes; `Paced r budget ws` says
  how what each one is allowed compares with what the ones before it have left
  over, and `Within` that it is never more.

      paced_iff             — the same, for a wait in the middle
      Within.spent_le       — waits that keep to what they are allowed never
                              take more than the budget together
      Exact.spent_eq        — waits that are allowed just what is left take the
                              budget, if the last one takes all it is allowed
      within_of_restarted   — when a policy that starts again with the whole
                              budget at each wait keeps to it
      within_of_last_only   — the same for a policy that remembers just the
                              wait before

  Time is any ordered group.  Nothing here knows of any particular program.
-/
import Mathlib.Algebra.BigOperators.Group.List.Basic
import Mathlib.Algebra.Order.Group.Defs
import Mathlib.Tactic.Abel

namespace Budget

/-- A wait: the time it is allowed, and the time it takes. -/
structure Wait (T : Type*) where
  allowed : T
  taken : T

variable {T : Type*} [AddCommGroup T] [LinearOrder T]

/-- The time that some waits take together. -/
def spent (ws : List (Wait T)) : T := (ws.map Wait.taken).sum

/-- What each wait is allowed, against what the ones before it have left over. -/
def Paced (r : T → T → Prop) (budget : T) : List (Wait T) → Prop
  | [] => True
  | w :: ws => r w.allowed budget ∧ Paced r (budget - w.taken) ws

/-- Each wait is allowed at most what the ones before it have left over. -/
abbrev Within (budget : T) : List (Wait T) → Prop := Paced (· ≤ ·) budget

/-- Each wait is allowed just what the ones before it have left over. -/
abbrev Exact (budget : T) : List (Wait T) → Prop := Paced (· = ·) budget

/-- Every wait takes some time, or none, and at most what it is allowed. -/
def Fair (ws : List (Wait T)) : Prop := ∀ w ∈ ws, 0 ≤ w.taken ∧ w.taken ≤ w.allowed

omit [LinearOrder T] in
@[simp] theorem spent_nil : spent ([] : List (Wait T)) = 0 := rfl

omit [LinearOrder T] in
@[simp] theorem spent_cons (w : Wait T) (ws : List (Wait T)) :
    spent (w :: ws) = w.taken + spent ws := by
  unfold spent
  rw [List.map_cons, List.sum_cons]

variable {budget : T} {w : Wait T} {ws : List (Wait T)}

omit [LinearOrder T] in
/-- The budget, at a wait in the middle. -/
theorem paced_iff {r : T → T → Prop} : Paced r budget ws ↔
    ∀ before w after, ws = before ++ w :: after → r w.allowed (budget - spent before) := by
  induction ws generalizing budget with
  | nil =>
    refine iff_of_true trivial ?_
    intro before w after heq
    exact absurd heq (by simp)
  | cons v ws ih =>
    constructor
    · intro h before w after heq
      cases before with
      | nil =>
        injection heq with hv _
        subst hv
        rw [spent_nil, sub_zero]
        exact h.1
      | cons b before =>
        injection heq with hb hrest
        subst hb
        have hw := ih.mp h.2 before w after hrest
        rwa [sub_sub, ← spent_cons] at hw
    · intro h
      refine ⟨?_, ih.mpr ?_⟩
      · have hv := h [] v ws rfl
        rwa [spent_nil, sub_zero] at hv
      · intro before w after heq
        have hw := h (v :: before) w after (by rw [heq, List.cons_append])
        rwa [spent_cons, ← sub_sub] at hw

omit [LinearOrder T] in
/-- **Waits that are allowed just what is left take the budget**, if the last one
takes all that it is allowed. -/
theorem Exact.spent_eq (h : Exact budget (ws ++ [w])) (hlast : w.taken = w.allowed) :
    spent (ws ++ [w]) = budget := by
  induction ws generalizing budget with
  | nil =>
    rw [List.nil_append, spent_cons, spent_nil, add_zero, hlast]
    exact h.1
  | cons v ws ih =>
    rw [List.cons_append, spent_cons, ih h.2]
    exact add_sub_cancel v.taken budget

variable [IsOrderedAddMonoid T]

/-- **Within the budget, the waits never take more than the budget together.** -/
theorem Within.spent_le (h : Within budget ws) (hfair : Fair ws) (h0 : 0 ≤ budget) :
    spent ws ≤ budget := by
  induction ws generalizing budget with
  | nil => exact h0
  | cons w ws ih =>
    obtain ⟨-, htaken⟩ := hfair w List.mem_cons_self
    have hleft : 0 ≤ budget - w.taken := sub_nonneg.mpr (htaken.trans h.1)
    have hrest := ih h.2 (fun v hv => hfair v (List.mem_cons_of_mem w hv)) hleft
    rw [spent_cons, add_comm]
    exact le_sub_iff_add_le.mp hrest

/-! ## §2. Starting again at each wait. -/

/-- No wait with `k` or more behind it takes any time. -/
def IdleBut (k : Nat) : List (Wait T) → Prop
  | [] => True
  | w :: ws => (k ≤ ws.length → w.taken = 0) ∧ IdleBut k ws

/-- **A policy that allows the whole budget at each wait keeps to the budget
exactly when no wait but the last takes any time.** -/
theorem within_of_restarted (hall : ∀ w ∈ ws, w.allowed = budget)
    (htaken : ∀ w ∈ ws, 0 ≤ w.taken) : Within budget ws ↔ IdleBut 1 ws := by
  induction ws with
  | nil => exact Iff.rfl
  | cons w ws ih =>
    have hw := hall w List.mem_cons_self
    have h0 := htaken w List.mem_cons_self
    have ih := ih (fun u hu => hall u (List.mem_cons_of_mem w hu))
      (fun u hu => htaken u (List.mem_cons_of_mem w hu))
    cases ws with
    | nil => exact iff_of_true ⟨hw.le, trivial⟩ ⟨fun h => absurd h (by simp), trivial⟩
    | cons v ws =>
      have hv := hall v (List.mem_cons_of_mem w List.mem_cons_self)
      constructor
      · intro h
        -- the second wait has the whole budget, so the first has left it all
        have hzero : w.taken = 0 := by
          refine le_antisymm ?_ h0
          have hle := h.2.1
          rw [hv] at hle
          exact sub_nonneg.mp (by simpa using hle)
        refine ⟨fun _ => hzero, ih.mp ?_⟩
        have hrest := h.2
        rwa [hzero, sub_zero] at hrest
      · intro h
        refine ⟨hw.le, ?_⟩
        rw [h.1 (by simp), sub_zero]
        exact ih.mpr h.2

/-! ## §3. Remembering just the wait before. -/

/-- Each wait is allowed what the one before it alone has left of the budget. -/
def FromLast (budget : T) : List (Wait T) → Prop
  | [] => True
  | [_] => True
  | w :: v :: ws => v.allowed = budget - w.taken ∧ FromLast budget (v :: ws)

/-- **A policy that remembers just the wait before keeps to the budget exactly
when no wait with at least two behind it takes any time.** -/
theorem within_of_last_only (hhead : ∀ w ∈ ws.head?, w.allowed ≤ budget)
    (hlast : FromLast budget ws) (htaken : ∀ w ∈ ws, 0 ≤ w.taken) :
    Within budget ws ↔ IdleBut 2 ws := by
  induction ws with
  | nil => exact Iff.rfl
  | cons w ws ih =>
    have hw : w.allowed ≤ budget := hhead w rfl
    have h0 := htaken w List.mem_cons_self
    match ws with
    | [] => exact iff_of_true ⟨hw, trivial⟩ ⟨fun h => absurd h (by simp), trivial⟩
    | [v] =>
      have hidle : IdleBut 2 [w, v] :=
        ⟨fun h => absurd h (by simp), fun h => absurd h (by simp), trivial⟩
      exact iff_of_true ⟨hw, hlast.1.le, trivial⟩ hidle
    | v :: u :: ws =>
      have hv := hlast.1
      have hu := hlast.2.1
      have hvle : v.allowed ≤ budget := by
        rw [hv]
        exact sub_le_self budget h0
      have ih := ih (fun x hx => by rwa [← Option.mem_some_iff.mp hx])
        hlast.2 (fun x hx => htaken x (List.mem_cons_of_mem w hx))
      constructor
      · intro h
        -- the third wait ignores the first, so the first has taken nothing
        have hzero : w.taken = 0 := by
          refine le_antisymm ?_ h0
          have hle := h.2.2.1
          rw [hu, sub_right_comm] at hle
          exact sub_nonneg.mp (by simpa using hle)
        refine ⟨fun _ => hzero, ih.mp ?_⟩
        have hrest := h.2
        rwa [hzero, sub_zero] at hrest
      · intro h
        refine ⟨hw, ?_⟩
        rw [h.1 (by simp), sub_zero]
        exact ih.mpr h.2

end Budget
