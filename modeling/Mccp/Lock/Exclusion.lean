/-
  Mccp.Lock.Exclusion
  ───────────────────
  **WHOSE HOLDS OF ONE LOCK EXCLUDE EACH OTHER.**

      Apart           — the holds are compatible, each with all older ones
      Apart.step      — kept by every step, whatever the regions do
      Apart.compatible — so the holds of two threads are compatible
-/
import Mathlib.Data.List.Pairwise
import Mccp.Lock.Rwlock

namespace Mccp.Lock

open Transition

variable {τ M : Type} [DecidableEq τ] {L : PthreadLock M} {s s' : State τ M} {l : Label τ M}

/-! ## §1. The holds that a step changes. -/

/-- **What a step does to the holds.** -/
inductive Holds (L : PthreadLock M) (s : State τ M) : State τ M → Prop
  | keep {s' : State τ M} (h : s'.holds = s.holds) : Holds L s s'
  | take {s' : State τ M} (t : τ) (m : M) (hfree : s.free L m = true)
      (h : s'.holds = (t, m) :: s.holds) : Holds L s s'
  | drop {s' : State τ M} (t : τ) (h : s'.holds = (s.unlock t).holds) : Holds L s s'

theorem begin_holds {t : τ} {c : Call M} (h : begin L s t c = some s') : Holds L s s' := by
  unfold begin at h
  cases c with
  | acquire mode how =>
    injection h with h
    exact .keep (by rw [← h]; rfl)
  | enterCritical mode =>
    injection h with h
    exact .keep (by rw [← h]; rfl)
  | release kind =>
    dsimp only at h
    split at h
    · split at h
      · injection h with h
        exact .keep (by rw [← h]; rfl)
      · exact absurd h (by simp)
    · exact absurd h (by simp)
  | condWait nsec =>
    dsimp only at h
    split at h
    · split at h
      · injection h with h
        exact .drop t (by rw [← h]; rfl)
      · exact absurd h (by simp)
    · exact absurd h (by simp)

theorem step_holds {t : τ} {e : Event} (h : step L s t = some (e, s')) : Holds L s s' := by
  unfold step at h
  dsimp only at h
  split at h
  · exact absurd h (by simp)
  · split at h
    next hfree =>
      cases h
      exact .take t _ hfree rfl
    next => exact absurd h (by simp)
  · cases h
    exact .keep rfl
  · split at h <;> cases h <;> exact .keep rfl
  · split at h <;> cases h <;> exact .keep rfl
  · cases h
    exact .drop t rfl
  · cases h
    exact .drop t rfl
  · cases h
    exact .keep rfl
  · split at h
    next hfree =>
      cases h
      exact .take t _ hfree rfl
    next => exact absurd h (by simp)

theorem giveUp_holds {t : τ} {e : Event} (h : giveUp L s t = some (e, s')) : Holds L s s' := by
  unfold giveUp at h
  dsimp only at h
  split at h
  · cases h
    exact .keep rfl
  · split at h
    · cases h
      exact .keep rfl
    · exact absurd h (by simp)
  · split at h
    next hfree =>
      cases h
      exact .take t _ hfree.2 rfl
    next => exact absurd h (by simp)
  · exact absurd h (by simp)

theorem Step.holds (h : Step L s l s') : Holds L s s' := by
  obtain ⟨a, ha⟩ := h
  cases a with
  | setCancel t c =>
    simp only [next] at ha
    split at ha
    · injection ha with ha
      injection ha with _ hs
      exact .keep (by rw [← hs]; rfl)
    · exact absurd ha (by simp)
  | call t c =>
    simp only [next] at ha
    split at ha
    · obtain ⟨_, hb, he⟩ := Option.map_eq_some_iff.mp ha
      injection he with _ hs
      exact hs ▸ begin_holds hb
    · exact absurd ha (by simp)
  | run t =>
    obtain ⟨_, hb, he⟩ := Option.map_eq_some_iff.mp ha
    injection he with _ hs
    exact hs ▸ step_holds hb
  | giveUp t =>
    obtain ⟨_, hb, he⟩ := Option.map_eq_some_iff.mp ha
    injection he with _ hs
    exact hs ▸ giveUp_holds hb

/-! ## §2. Exclusion. -/

/-- Every hold is compatible with those that were there when it was taken. -/
def Apart (L : PthreadLock M) (s : State τ M) : Prop :=
  s.holds.Pairwise fun newer older => L.compatible older.2 newer.2 = true

omit [DecidableEq τ] in
theorem Apart.init (c : τ → CancelState) : Apart L (State.init M c) := List.Pairwise.nil

theorem Apart.step (h : Apart L s) (hstep : Step L s l s') : Apart L s' := by
  unfold Apart
  cases hstep.holds with
  | keep heq => exact heq ▸ h
  | take t m hfree heq =>
    rw [heq, List.pairwise_cons]
    exact ⟨fun g hg => List.all_eq_true.mp hfree g hg, h⟩
  | drop t heq =>
    rw [heq]
    exact List.Pairwise.sublist List.eraseP_sublist h

/-- **Two threads hold the lock in compatible modes only.** -/
theorem Apart.compatible (h : Apart L s) {t u : τ} (htu : t ≠ u) {m m' : M}
    (ht : m ∈ s.held t) (hu : m' ∈ s.held u) :
    L.compatible m m' = true ∨ L.compatible m' m = true := by
  have hmem : ∀ {v : τ} {k : M}, k ∈ s.held v → (v, k) ∈ s.holds := by
    intro v k hk
    obtain ⟨g, hg, rfl⟩ := List.mem_map.mp hk
    obtain ⟨hin, hv⟩ := List.mem_filter.mp hg
    obtain rfl := of_decide_eq_true hv
    exact hin
  have hne : (t, m) ≠ (u, m') := fun heq => htu (congrArg Prod.fst heq)
  have hboth : s.holds.Pairwise fun a b =>
      L.compatible a.2 b.2 = true ∨ L.compatible b.2 a.2 = true :=
    List.Pairwise.imp (fun hab => .inr hab) h
  have : Std.Symm fun a b : τ × M => L.compatible a.2 b.2 = true ∨ L.compatible b.2 a.2 = true :=
    ⟨fun _ _ => Or.symm⟩
  exact hboth.forall (hmem ht) (hmem hu) hne

/-- A writer of a read/write lock is alone with it. -/
theorem Apart.writer_alone {s : State τ RwMode} (h : Apart rwlock s) {t u : τ} (htu : t ≠ u)
    (ht : .writer ∈ s.held t) : s.held u = [] := by
  refine List.eq_nil_iff_forall_not_mem.mpr fun m hm => ?_
  rcases h.compatible htu ht hm with hc | hc <;> simp [rwlock] at hc

end Mccp.Lock
