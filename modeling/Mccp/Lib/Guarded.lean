/-
  Mccp.Lib.Guarded
  ────────────────
  **ONE LOCK, AND WHO IS INSIDE WHAT IT GUARDS.**

  A lock is free or held by one thread, and an unlock makes it free whoever
  calls it.  As long as only its holder unlocks it, the holder is exactly the
  thread inside the regions that the lock guards.

      Held       — the holder is who is inside
      Use        — what a thread does to the lock in one step
      Held.step  — kept, where the holder unlocks
      Held.alone — at most one thread is inside

  Threads and regions are parameters.
-/
import Mathlib.Logic.Basic

namespace Guarded

variable {T : Type*} {lock lock' : Option T} {inside inside' : T → Prop} {t : T}

/-- The lock is held by the thread that is inside. -/
def Held (lock : Option T) (inside : T → Prop) : Prop := ∀ t, lock = some t ↔ inside t

theorem Held.alone (h : Held lock inside) {t u : T} (ht : inside t) (hu : inside u) : t = u :=
  Option.some.inj (((h t).mpr ht).symm.trans ((h u).mpr hu))

/-- **What a thread does to the lock**: whether it is inside before and after, and
whether it unlocks. -/
inductive Use (t : T) (lock lock' : Option T) (before after : Prop) : Bool → Prop
  | takes (hfree : lock = none) (hlock : lock' = some t) (hin : after) :
      Use t lock lock' before after false
  | gives (hlock : lock' = none) (hout : ¬ after) : Use t lock lock' before after true
  | keeps (hlock : lock' = lock) (hsame : after ↔ before) : Use t lock lock' before after false

theorem Use.congr {before before' after after' : Prop} {unlocks : Bool}
    (h : Use t lock lock' before after unlocks) (hbefore : before' ↔ before)
    (hafter : after' ↔ after) : Use t lock lock' before' after' unlocks := by
  cases h with
  | takes hfree hlock hin => exact .takes hfree hlock (hafter.mpr hin)
  | gives hlock hout => exact .gives hlock (fun h => hout (hafter.mp h))
  | keeps hlock hsame => exact .keeps hlock (hafter.trans (hsame.trans hbefore.symm))

/-- **The step rule**: one thread moves, and what it unlocks it holds. -/
theorem Held.step (h : Held lock inside) (hothers : ∀ u, u ≠ t → (inside' u ↔ inside u))
    {unlocks : Bool} (huse : Use t lock lock' (inside t) (inside' t) unlocks)
    (hown : unlocks = true → lock = some t) : Held lock' inside' := by
  intro u
  by_cases hu : u = t
  · subst hu
    cases huse with
    | takes hfree hlock hin => exact iff_of_true hlock hin
    | gives hlock hout => exact iff_of_false (by rw [hlock]; simp) hout
    | keeps hlock hsame =>
      rw [hlock, hsame]
      exact h u
  · rw [hothers u hu, ← h u]
    cases huse with
    | takes hfree hlock hin =>
      rw [hfree, hlock]
      exact iff_of_false (fun he => hu (Option.some.inj he).symm) (by simp)
    | gives hlock hout =>
      rw [hown rfl, hlock]
      exact iff_of_false (by simp) (fun he => hu (Option.some.inj he).symm)
    | keeps hlock hsame => rw [hlock]

/-- Nobody does anything to the lock. -/
theorem Held.same (h : Held lock inside) (hlock : lock' = lock)
    (hinside : ∀ u, inside' u ↔ inside u) : Held lock' inside' := by
  intro u
  rw [hlock, hinside u]
  exact h u

end Guarded
