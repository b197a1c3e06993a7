/-
  Mccp.Thread.Sound
  ─────────────────
  **ONE ADDRESS: WHAT ITS MEMORY IS USED FOR, WHO WORKS ON IT, AND WHAT THE
  TABLES SHOW OF IT.**

  A step is about one address.  What can happen there is of four kinds: a call
  takes the address, goes on with it, lets go of it, or something else happens
  to it while no call has it for its own.

      Sound          — the tables, the calls and the use of one address agree
      Sound.take, Sound.goOn, Sound.letGo, Sound.outside — the four kinds
      Inv.of_at      — the other addresses stay as they are
-/
import Mccp.Thread.Registry

namespace Mccp.Thread.Registry

open Hashmap Transition

variable {τ α : Type} {s s' : Tables τ α} {t : τ} {thd q : α}

/-! ## §1. The invariant of one address. -/

/-- **The tables, the calls and the use of one address agree.** -/
structure Sound [DecidableEq α] (s : Tables τ α) (q : α) : Prop where
  thd : ∀ b, s.life q = .live b → s.s_thd_tbl.lookup q = some true
  marked : s.life q = .live true → s.s_alloc_tbl.lookup q = some true
  unmarked : s.life q = .live false → s.s_alloc_tbl.lookup q = none
  adding : ∀ t, s.call t = .adding q true → s.s_alloc_tbl.lookup q = some true
  /-- Where a mark comes from. -/
  origin : s.s_alloc_tbl.lookup q ≠ none →
    s.s_alloc_tbl.lookup q = some true ∧
      (s.life q = .live true ∨ s.life q = .busy true ∨ ∃ t, (s.call t).stale? = some q)
  owns : ∀ t b, (s.call t).own? = some (q, b) → s.life q = .busy b
  owner : ∀ t u b b', (s.call t).own? = some (q, b) → (s.call u).own? = some (q, b') → t = u
  remarks : ∀ t, s.call t = .remarking q → ∃ b, s.life q = .live b

/-- Every address is sound. -/
def Inv [DecidableEq α] (s : Tables τ α) : Prop := ∀ q, Sound s q

theorem Inv.empty [DecidableEq α] : Inv (Tables.empty τ α) := by
  intro q
  refine ⟨?_, ?_, ?_, ?_, ?_, ?_, ?_, ?_⟩
  · intro b h
    exact absurd h (by simp [Tables.empty])
  · intro h
    exact absurd h (by simp [Tables.empty])
  · intro h
    exact absurd h (by simp [Tables.empty])
  · intro t h
    exact absurd h (by simp [Tables.empty])
  · intro h
    exact absurd (Finmap.lookup_empty q) h
  · intro t b h
    exact absurd h (by simp [Tables.empty, Call.own?])
  · intro t u b b' h
    exact absurd h (by simp [Tables.empty, Call.own?])
  · intro t h
    exact absurd h (by simp [Tables.empty])

theorem Call.obj?_of_own? {c : Call α} {b : Bool} (h : c.own? = some (q, b)) :
    c.obj? = some q := by
  cases c with
  | idle => exact absurd h (by simp [Call.own?])
  | allocating => exact absurd h (by simp [Call.own?])
  | allocMarking thd =>
    injection h with h
    injection h with h _
    exact congrArg some h
  | adding thd heap =>
    injection h with h
    injection h with h _
    exact congrArg some h
  | remarking thd => exact absurd h (by simp [Call.own?])
  | cleaning part thd heap why =>
    change (if part.isFreed = true then none else some (thd, heap)) = _ at h
    split at h
    · exact absurd h (by simp)
    · injection h with h
      injection h with h _
      exact congrArg some h

theorem Call.obj?_of_stale? {c : Call α} (h : c.stale? = some q) : c.obj? = some q := by
  cases c with
  | cleaning part thd heap why =>
    change (if part.isFreed = true then some thd else none) = _ at h
    split at h
    · exact h
    · exact absurd h (by simp)
  | _ => exact absurd h (by simp [Call.stale?])

/-- A call that has an object of its own has freed none. -/
theorem Call.stale?_of_own? {c : Call α} {x : α × Bool} (h : c.own? = some x) :
    c.stale? = none := by
  cases c with
  | cleaning part thd heap why =>
    change (if part.isFreed = true then none else some (thd, heap)) = _ at h
    split at h
    next => exact absurd h (by simp)
    next hfreed => exact if_neg hfreed
  | _ => rfl

section
variable [DecidableEq α]

/-- **An address that no call works on stays as it is.** -/
theorem Sound.frame (h : Sound s q) (hlife : s'.life q = s.life q)
    (hthd : s'.s_thd_tbl.lookup q = s.s_thd_tbl.lookup q)
    (halloc : s'.s_alloc_tbl.lookup q = s.s_alloc_tbl.lookup q)
    (hcall : ∀ u, (s.call u).obj? = some q ∨ (s'.call u).obj? = some q → s'.call u = s.call u) :
    Sound s' q := by
  -- who works on the address has not moved
  have hback : ∀ u, (s'.call u).obj? = some q → s'.call u = s.call u := fun u hu =>
    hcall u (.inr hu)
  refine ⟨?_, ?_, ?_, ?_, ?_, ?_, ?_, ?_⟩
  · intro b hb
    rw [hthd]
    exact h.thd b (hlife ▸ hb)
  · intro hb
    rw [halloc]
    exact h.marked (hlife ▸ hb)
  · intro hb
    rw [halloc]
    exact h.unmarked (hlife ▸ hb)
  · intro u hu
    rw [halloc]
    rw [hback u (by rw [hu]; rfl)] at hu
    exact h.adding u hu
  · rw [halloc, hlife]
    intro hne
    obtain ⟨htrue, hfrom⟩ := h.origin hne
    refine ⟨htrue, hfrom.imp_right (fun hfrom => hfrom.imp_right ?_)⟩
    intro hlate
    obtain ⟨u, hu⟩ := hlate
    exact ⟨u, by rw [hcall u (.inl (Call.obj?_of_stale? hu))]; exact hu⟩
  · intro u b hu
    rw [hback u (Call.obj?_of_own? hu)] at hu
    rw [hlife]
    exact h.owns u b hu
  · intro u v b b' hu hv
    rw [hback u (Call.obj?_of_own? hu)] at hu
    rw [hback v (Call.obj?_of_own? hv)] at hv
    exact h.owner u v b b' hu hv
  · intro u hu
    rw [hback u (by rw [hu]; rfl)] at hu
    rw [hlife]
    exact h.remarks u hu

omit [DecidableEq α] in
/-- One thread moves. -/
theorem call_cases [DecidableEq τ] {c : Call α} (h : s'.call = Function.update s.call t c)
    (u : τ) : (u = t ∧ s'.call u = c) ∨ (u ≠ t ∧ s'.call u = s.call u) := by
  rw [h]
  by_cases hu : u = t
  · left
    refine ⟨hu, ?_⟩
    rw [hu]
    exact Function.update_self ..
  · right
    exact ⟨hu, Function.update_of_ne hu ..⟩

/-- **One thread moves, and all is about one address.** -/
theorem Inv.of_at [DecidableEq τ] (h : Inv s) (thd : α) {c : Call α}
    (hcall : s'.call = Function.update s.call t c)
    (hold : ∀ q, (s.call t).obj? = some q → q = thd) (hnew : ∀ q, c.obj? = some q → q = thd)
    (hrest : ∀ q, q ≠ thd → s'.life q = s.life q ∧
      s'.s_thd_tbl.lookup q = s.s_thd_tbl.lookup q ∧
      s'.s_alloc_tbl.lookup q = s.s_alloc_tbl.lookup q)
    (hat : Sound s' thd) : Inv s' := by
  intro q
  by_cases hq : q = thd
  · rw [hq]
    exact hat
  · obtain ⟨hlife, hthd, halloc⟩ := hrest q hq
    refine (h q).frame hlife hthd halloc ?_
    intro u hu
    rcases call_cases hcall u with ⟨rfl, hcu⟩ | ⟨-, hcu⟩
    · rw [hcu] at hu
      rcases hu with hu | hu
      · exact absurd (hold q hu) hq
      · exact absurd (hnew q hu) hq
    · exact hcu

/-- A thread moves that works on no object before or after. -/
theorem Inv.of_stay [DecidableEq τ] (h : Inv s) {c : Call α} (hold : (s.call t).obj? = none)
    (hnew : c.obj? = none) : Inv (s.move t c) := by
  have hcall : (s.move t c).call = Function.update s.call t c := rfl
  intro q
  refine (h q).frame rfl rfl rfl ?_
  intro u hu
  rcases call_cases hcall u with ⟨rfl, hcu⟩ | ⟨-, hcu⟩
  · rw [hcu, hold, hnew] at hu
    simp at hu
  · exact hcu

/-! ## §2. What can happen at an address. -/

/-- **A call takes the address.** -/
theorem Sound.take [DecidableEq τ] (h : Sound s q) {c : Call α} {b : Bool}
    (hcall : s'.call = Function.update s.call t c) (hlife : s'.life q = .busy b)
    (halloc : s'.s_alloc_tbl = s.s_alloc_tbl) (hold : ∀ b, s.life q ≠ .busy b)
    (hmark : s.life q = .live true → b = true) (hrem : ∀ u, s.call u ≠ .remarking q)
    (hstale : (s.call t).stale? ≠ some q) (hown : c.own? = some (q, b))
    (hadd : c ≠ .adding q true) : Sound s' q := by
  -- nobody has had the address
  have hnone : ∀ u b, (s.call u).own? ≠ some (q, b) := fun u b hu => hold b (h.owns u b hu)
  have hmine : ∀ u b, (s'.call u).own? = some (q, b) → u = t := by
    intro u b' hu
    rcases call_cases hcall u with ⟨hut, -⟩ | ⟨-, hcu⟩
    · exact hut
    · rw [hcu] at hu
      exact absurd hu (hnone u b')
  refine ⟨?_, ?_, ?_, ?_, ?_, ?_, ?_, ?_⟩
  · intro b' hb
    rw [hlife] at hb
    exact absurd hb (by simp)
  · intro hb
    rw [hlife] at hb
    exact absurd hb (by simp)
  · intro hb
    rw [hlife] at hb
    exact absurd hb (by simp)
  · intro u hu
    rcases call_cases hcall u with ⟨-, hcu⟩ | ⟨-, hcu⟩
    · exact absurd (hcu.symm.trans hu) hadd
    · rw [hcu] at hu
      exact absurd (by rw [hu]; rfl) (hnone u true)
  -- a mark is that of a live object, which the call takes for its own, or a stale one
  · rw [halloc, hlife]
    intro hne
    obtain ⟨htrue, hlive | hbusy | ⟨u, hu⟩⟩ := h.origin hne
    · refine ⟨htrue, .inr (.inl ?_)⟩
      rw [hmark hlive]
    · exact absurd hbusy (hold true)
    · refine ⟨htrue, .inr (.inr ⟨u, ?_⟩)⟩
      rcases call_cases hcall u with ⟨rfl, -⟩ | ⟨-, hcu⟩
      · exact absurd hu hstale
      · rw [hcu]
        exact hu
  · intro u b' hu
    obtain rfl := hmine u b' hu
    rcases call_cases hcall u with ⟨-, hcu⟩ | ⟨hne, -⟩
    · rw [hcu, hown] at hu
      injection hu with hu
      injection hu with _ hb
      rw [hlife, hb]
    · exact absurd rfl hne
  · intro u v b' b'' hu hv
    rw [hmine u b' hu, hmine v b'' hv]
  · intro u hu
    rcases call_cases hcall u with ⟨-, hcu⟩ | ⟨-, hcu⟩
    · rw [hcu] at hu
      rw [hu] at hown
      exact absurd hown (by simp [Call.own?])
    · rw [hcu] at hu
      exact absurd hu (hrem u)

/-- Nobody marks an address that a call has for its own. -/
theorem Sound.not_remarking (h : Sound s q) {b : Bool} (hown : (s.call t).own? = some (q, b))
    (u : τ) : s.call u ≠ .remarking q := by
  intro hu
  obtain ⟨b', hb⟩ := h.remarks u hu
  rw [h.owns t b hown] at hb
  exact absurd hb (by simp)

/-- **A call goes on with an address of its own.** -/
theorem Sound.goOn [DecidableEq τ] (h : Sound s q) {c : Call α} {b : Bool}
    (hcall : s'.call = Function.update s.call t c) (hlife : s'.life q = s.life q)
    (hown : (s.call t).own? = some (q, b)) (hown' : c.own? = some (q, b))
    (hadd : c = .adding q true → s'.s_alloc_tbl.lookup q = some true)
    (halloc : s'.s_alloc_tbl.lookup q ≠ none → s'.s_alloc_tbl.lookup q = some true ∧
      (b = true ∨ s.s_alloc_tbl.lookup q ≠ none)) : Sound s' q := by
  have hbusy := h.owns t b hown
  -- who has the address has had it before
  have hmine : ∀ u b', (s'.call u).own? = some (q, b') → (s.call u).own? = some (q, b') := by
    intro u b' hu
    rcases call_cases hcall u with ⟨rfl, hcu⟩ | ⟨-, hcu⟩
    · rw [hcu, hown'] at hu
      rw [hown]
      exact hu
    · rw [← hcu]
      exact hu
  refine ⟨?_, ?_, ?_, ?_, ?_, ?_, ?_, ?_⟩
  · intro b' hb
    rw [hlife, hbusy] at hb
    exact absurd hb (by simp)
  · intro hb
    rw [hlife, hbusy] at hb
    exact absurd hb (by simp)
  · intro hb
    rw [hlife, hbusy] at hb
    exact absurd hb (by simp)
  · intro u hu
    rcases call_cases hcall u with ⟨-, hcu⟩ | ⟨hne, hcu⟩
    · exact hadd (hcu.symm.trans hu)
    · have hu' : (s.call u).own? = some (q, true) := by
        rw [← hcu, hu]
        rfl
      exact absurd (h.owner u t true b hu' hown) hne
  · intro hne
    obtain ⟨htrue, hfrom⟩ := halloc hne
    refine ⟨htrue, .inr ?_⟩
    rw [hlife, hbusy]
    rcases hfrom with rfl | hne'
    · exact .inl rfl
    · obtain ⟨-, hlive | hbusy' | ⟨u, hu⟩⟩ := h.origin hne'
      · rw [hbusy] at hlive
        exact absurd hlive (by simp)
      · rw [hbusy] at hbusy'
        exact .inl hbusy'
      · refine .inr ⟨u, ?_⟩
        rcases call_cases hcall u with ⟨rfl, -⟩ | ⟨-, hcu⟩
        · rw [Call.stale?_of_own? hown] at hu
          exact absurd hu (by simp)
        · rw [hcu]
          exact hu
  · intro u b' hu
    rw [hlife]
    exact h.owns u b' (hmine u b' hu)
  · intro u v b' b'' hu hv
    exact h.owner u v b' b'' (hmine u b' hu) (hmine v b'' hv)
  · intro u hu
    rcases call_cases hcall u with ⟨-, hcu⟩ | ⟨-, hcu⟩
    · rw [hcu] at hu
      rw [hu] at hown'
      exact absurd hown' (by simp [Call.own?])
    · rw [hcu] at hu
      exact absurd hu (h.not_remarking hown u)

/-- **A call lets go of an address of its own.** -/
theorem Sound.letGo [DecidableEq τ] (h : Sound s q) {c : Call α} {b : Bool}
    (hcall : s'.call = Function.update s.call t c) (hown : (s.call t).own? = some (q, b))
    (hown' : ∀ b, c.own? ≠ some (q, b)) (hrem : c ≠ .remarking q)
    (hthd : ∀ b, s'.life q = .live b → s'.s_thd_tbl.lookup q = some true)
    (hmarked : s'.life q = .live true → s'.s_alloc_tbl.lookup q = some true)
    (hunmarked : s'.life q = .live false → s'.s_alloc_tbl.lookup q = none)
    (horigin : s'.s_alloc_tbl.lookup q ≠ none → s'.s_alloc_tbl.lookup q = some true ∧
      (s'.life q = .live true ∨ s'.life q = .busy true ∨ ∃ u, (s'.call u).stale? = some q)) :
    Sound s' q := by
  have hnone : ∀ u b, (s'.call u).own? ≠ some (q, b) := by
    intro u b' hu
    rcases call_cases hcall u with ⟨-, hcu⟩ | ⟨hne, hcu⟩
    · rw [hcu] at hu
      exact hown' b' hu
    · rw [hcu] at hu
      exact hne (h.owner u t b' b hu hown)
  refine ⟨hthd, hmarked, hunmarked, ?_, horigin, ?_, ?_, ?_⟩
  · intro u hu
    exact absurd (by rw [hu]; rfl) (hnone u true)
  · intro u b' hu
    exact absurd hu (hnone u b')
  · intro u v b' b'' hu
    exact absurd hu (hnone u b')
  · intro u hu
    rcases call_cases hcall u with ⟨-, hcu⟩ | ⟨-, hcu⟩
    · exact absurd (hcu.symm.trans hu) hrem
    · rw [hcu] at hu
      exact absurd hu (h.not_remarking hown u)

/-- **Something else happens at the address**, or to it while no call has it. -/
theorem Sound.outside [DecidableEq τ] (h : Sound s q) {c : Call α}
    (hcall : s'.call = Function.update s.call t c) (hown : ∀ b, c.own? ≠ some (q, b))
    (hrem : c = .remarking q → ∃ b, s'.life q = .live b)
    (hbusy : ∀ b, s.life q = .busy b → s'.life q = .busy b)
    (hlive : ∀ b, s.life q = .live b → ∃ b, s'.life q = .live b)
    (hthd : ∀ b, s'.life q = .live b → s'.s_thd_tbl.lookup q = some true)
    (hmarked : s'.life q = .live true → s'.s_alloc_tbl.lookup q = some true)
    (hunmarked : s'.life q = .live false → s'.s_alloc_tbl.lookup q = none)
    (hadding : ∀ u, s.call u = .adding q true → s'.s_alloc_tbl.lookup q = some true)
    (horigin : s'.s_alloc_tbl.lookup q ≠ none → s'.s_alloc_tbl.lookup q = some true ∧
      (s'.life q = .live true ∨ s'.life q = .busy true ∨ ∃ u, (s'.call u).stale? = some q)) :
    Sound s' q := by
  -- the moving thread does not have it, and the others have it as before
  have hback : ∀ u b, (s'.call u).own? = some (q, b) → (s.call u).own? = some (q, b) := by
    intro u b hu
    rcases call_cases hcall u with ⟨-, hcu⟩ | ⟨-, hcu⟩
    · rw [hcu] at hu
      exact absurd hu (hown b)
    · rw [← hcu]
      exact hu
  refine ⟨hthd, hmarked, hunmarked, ?_, horigin, ?_, ?_, ?_⟩
  · intro u hu
    rcases call_cases hcall u with ⟨-, hcu⟩ | ⟨-, hcu⟩
    · rw [hcu] at hu
      exact absurd (by rw [hu]; rfl) (hown true)
    · rw [hcu] at hu
      exact hadding u hu
  · intro u b hu
    exact hbusy b (h.owns u b (hback u b hu))
  · intro u v b b' hu hv
    exact h.owner u v b b' (hback u b hu) (hback v b' hv)
  · intro u hu
    rcases call_cases hcall u with ⟨-, hcu⟩ | ⟨-, hcu⟩
    · exact hrem (hcu.symm.trans hu)
    · rw [hcu] at hu
      obtain ⟨b, hb⟩ := h.remarks u hu
      exact hlive b hb

end

end Mccp.Thread.Registry
