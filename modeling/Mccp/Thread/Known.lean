/-
  Mccp.Thread.Known
  ─────────────────
  **THE REGISTRY KNOWS EVERY LIVE THREAD, AS LONG AS NO DELETION COMES TOO LATE.**

  s_delete() frees the memory of an object first and deletes the address from
  the two tables afterwards.  In between malloc() may hand out the address
  again: what a create has entered for the new object is then deleted, and a
  mark that is still to be deleted shows for an object that has none.

      Harmless      — no late deletion, and no add that fails
      Inv.step      — kept by every proper and harmless step
      known_broken  — a step that is not harmless can end in a lost object
-/
import Mccp.Thread.Sound

namespace Mccp.Thread.Registry

open Hashmap Transition

variable {τ α : Type} {s s' : Tables τ α} {l : Label τ α} {t : τ} {thd q : α}

/-! ## §1. What is asked of the tables, and two conditions on a step. -/

section
variable [DecidableEq α]

/-- **The registry knows the live objects**: each is in `s_thd_tbl` and valid,
and in `s_alloc_tbl` exactly if a destroy is to free it. -/
def Known (s : Tables τ α) : Prop :=
  ∀ thd heap, s.life thd = .live heap →
    s.isThd thd = true ∧ isValid s (some (some thd)) true = (.ok, some true) ∧
      (s.isAllocMarked thd = true ↔ heap = true)

/-- A live object that no call works on. -/
def Tables.IsFree (s : Tables τ α) (thd : α) : Prop :=
  (∃ heap, s.life thd = .live heap) ∧ ∀ u, s.call u ≠ .remarking thd

/-- What callers owe: a create is given memory of their own without an object, a
destroy and a mark an object that no other call is working on. -/
def Proper (s : Tables τ α) (l : Label τ α) (_ : Tables τ α) : Prop :=
  match l.action with
  | .create _ (some (some thd)) _ => s.life thd = .held
  | .destroy _ (some (some thd)) => s.IsFree thd
  | .freeWhenDestroy _ (some (some thd)) => s.IsFree thd
  | _ => True

/-- A mark that is still to be deleted, after the memory has been freed. -/
def Tables.StaleMark (s : Tables τ α) (thd : α) : Prop :=
  s.isAllocMarked thd = true ∧ ∃ u, (s.call u).stale? = some thd

/-- **The condition**: a deletion after the free hits no entry that was made
since; a create does not return while the mark of a freed object is left at the
address of its own, which has none; and the adds find memory. -/
def Harmless (s : Tables τ α) (l : Label τ α) (_ : Tables τ α) : Prop :=
  match l.action, s.call l.action.thread with
  | .allocMark _ room, .allocMarking thd => (s.s_alloc_tbl.add thd true true room).1 = .ok
  | .add _ room ret, .adding thd heap => ret = .ok →
      (s.s_thd_tbl.add thd true true room).1 = .ok ∧ (heap = false → ¬ s.StaleMark thd)
  | .remark _ room, .remarking thd => (s.s_alloc_tbl.add thd true true room).1 = .ok
  | .clean _, .cleaning (.deleteThd true) thd _ _ => ∀ b, s.life thd ≠ .live b
  | .clean _, .cleaning (.deleteAlloc true) thd _ _ =>
      s.life thd ≠ .live true ∧ ∀ u, s.call u ≠ .adding thd true
  | _, _ => True

/-! ## §2. Each step. -/

/-- A thread takes an address that nobody has. -/
theorem Inv.of_take [DecidableEq τ] (h : Inv s) {c : Call α} {b : Bool}
    (ht : (s.call t).obj? = none) (hold : ∀ b, s.life thd ≠ .busy b)
    (hmark : s.life thd = .live true → b = true) (hrem : ∀ u, s.call u ≠ .remarking thd)
    (hown : c.own? = some (thd, b)) (hadd : c ≠ .adding thd true) :
    Inv ((s.lead thd (.busy b)).move t c) := by
  have hlife : ((s.lead thd (.busy b)).move t c).life thd = .busy b := Function.update_self ..
  have hstale : (s.call t).stale? ≠ some thd := by
    intro hst
    rw [Call.obj?_of_stale? hst] at ht
    exact absurd ht (by simp)
  refine h.of_at thd rfl ?_ ?_ ?_
    ((h thd).take rfl hlife rfl hold hmark hrem hstale hown hadd)
  · intro q hq
    rw [ht] at hq
    exact absurd hq (by simp)
  · intro q hq
    rw [Call.obj?_of_own? hown] at hq
    exact (Option.some.inj hq).symm
  · intro q hq
    exact ⟨Function.update_of_ne hq .., rfl, rfl⟩

/-- Memory without an object is nobody's. -/
theorem Sound.vacant (h : Sound s q) (hlife : s.life q = .unused ∨ s.life q = .held) :
    (∀ b, s.life q ≠ .busy b) ∧ (∀ b, s.life q ≠ .live b) ∧ ∀ u, s.call u ≠ .remarking q := by
  have hlive : ∀ b, s.life q ≠ .live b := by
    intro b hb
    rw [hb] at hlife
    exact absurd hlife (by simp)
  refine ⟨?_, hlive, ?_⟩
  · intro b hb
    rw [hb] at hlife
    exact absurd hlife (by simp)
  · intro u hu
    obtain ⟨b, hb⟩ := h.remarks u hu
    exact hlive b hb

theorem Inv.of_create [DecidableEq τ] (h : Inv s) (ht : s.call t = .idle)
    (thdptr : Option (Option α)) (mainproc : Bool)
    (hproper : ∀ thd, thdptr = some (some thd) → s.life thd = .held) :
    Inv (create s t thdptr mainproc).2 := by
  have hidle : (s.call t).obj? = none := by
    rw [ht]
    rfl
  unfold create
  split
  next old =>
    split
    next =>
      split
      next thd =>
        obtain ⟨hbusy, hlive, hrem⟩ := (h thd).vacant (.inr (hproper thd rfl))
        exact h.of_take hidle hbusy (fun hl => absurd hl (hlive true)) hrem rfl (by simp)
      next => exact h.of_stay hidle rfl
    next => exact h
  next => exact h

theorem Inv.of_malloc [DecidableEq τ] (h : Inv s) (ht : s.call t = .allocating)
    {mem : Option α} {o : Outcome α} (hs : malloc s t mem = some (o, s')) : Inv s' := by
  have hidle : (s.call t).obj? = none := by
    rw [ht]
    rfl
  unfold malloc at hs
  split at hs
  next thd =>
    split at hs
    next hunused =>
      obtain rfl : (s.lead thd (.busy true)).move t (.allocMarking thd) = s' :=
        (Prod.mk.inj (Option.some.inj hs)).2
      obtain ⟨hbusy, -, hrem⟩ := (h thd).vacant (.inl hunused)
      exact h.of_take hidle hbusy (fun _ => rfl) hrem rfl (by simp)
    next => exact absurd hs (by simp)
  next =>
    obtain rfl : s.move t .idle = s' := (Prod.mk.inj (Option.some.inj hs)).2
    exact h.of_stay hidle rfl

theorem Inv.of_destroy [DecidableEq τ] (h : Inv s) (ht : s.call t = .idle)
    (thdptr : Option (Option α)) (hproper : ∀ thd, thdptr = some (some thd) → s.IsFree thd) :
    Inv (destroy s t thdptr).2 := by
  unfold destroy
  split
  next thd =>
    split
    next =>
      obtain ⟨⟨heap, hlive⟩, hrem⟩ := hproper thd rfl
      have hidle : (s.call t).obj? = none := by
        rw [ht]
        rfl
      rw [hlive]
      -- what was to be freed stays so
      refine h.of_take hidle ?_ ?_ hrem rfl (by simp)
      · intro b hb
        rw [hlive] at hb
        exact absurd hb (by simp)
      · intro hl
        rw [hlive] at hl
        injection hl
    next => exact h
  next => exact h

/-- **A step of a call about its own address** leaves the others as they are. -/
theorem Inv.of_own [DecidableEq τ] (h : Inv s) {c : Call α} {b : Bool}
    (hcall : s'.call = Function.update s.call t c) (hown : (s.call t).own? = some (thd, b))
    (hnew : ∀ q, c.obj? = some q → q = thd)
    (hrest : ∀ q, q ≠ thd → s'.life q = s.life q ∧
      s'.s_thd_tbl.lookup q = s.s_thd_tbl.lookup q ∧
      s'.s_alloc_tbl.lookup q = s.s_alloc_tbl.lookup q)
    (hat : Sound s' thd) : Inv s' := by
  refine h.of_at thd hcall ?_ hnew hrest hat
  intro q hq
  rw [Call.obj?_of_own? hown] at hq
  exact (Option.some.inj hq).symm

theorem Inv.of_allocMark [DecidableEq τ] (h : Inv s) (ht : s.call t = .allocMarking thd)
    {room : Bool} (hroom : (s.s_alloc_tbl.add thd true true room).1 = .ok) :
    Inv ((allocMarkThd s thd room).move t (.adding thd true)) := by
  have hown : (s.call t).own? = some (thd, true) := by
    rw [ht]
    rfl
  have hmark := Map.lookup_add_of_ok hroom
  -- an add that overwrites leaves the mark there in any case
  refine h.of_own rfl hown (fun q hq => (Option.some.inj hq).symm) ?_
    ((h thd).goOn rfl rfl hown rfl (fun _ => hmark) (fun _ => ⟨hmark, .inl rfl⟩))
  intro q hq
  exact ⟨rfl, rfl, Map.lookup_add_of_ne hq⟩

/-- A mark for memory that is not to be freed is one that is still to be deleted. -/
theorem Sound.staleMark (h : Sound s q) (hbusy : s.life q = .busy false)
    (hne : s.s_alloc_tbl.lookup q ≠ none) : s.StaleMark q := by
  obtain ⟨htrue, hfrom⟩ := h.origin hne
  refine ⟨by simp [Tables.isAllocMarked, Map.find, htrue], ?_⟩
  rw [hbusy] at hfrom
  simpa using hfrom

theorem Inv.of_add [DecidableEq τ] (h : Inv s) {heap : Bool} (ht : s.call t = .adding thd heap)
    {room : Bool} {ret : Result}
    (hok : ret = .ok → (s.s_thd_tbl.add thd true true room).1 = .ok ∧
      (heap = false → ¬ s.StaleMark thd)) : Inv (add s t thd heap room ret).2 := by
  have hown : (s.call t).own? = some (thd, heap) := by
    rw [ht]
    rfl
  have hbusy := (h thd).owns t heap hown
  unfold add
  dsimp only
  split
  next hret =>
    obtain ⟨hroom, hstale⟩ := hok hret
    have hlife : (((addThd s thd room).lead thd (.live heap)).move t .idle).life thd =
        .live heap := Function.update_self ..
    refine h.of_own rfl hown (fun q hq => absurd hq (by simp [Call.obj?])) ?_
      ((h thd).letGo rfl hown (fun _ => by simp [Call.own?]) (by simp) ?_ ?_ ?_ ?_)
    · intro q hq
      exact ⟨Function.update_of_ne hq .., Map.lookup_add_of_ne hq, rfl⟩
    · intro b _
      exact Map.lookup_add_of_ok hroom
    · intro hl
      rw [hlife] at hl
      injection hl with hheap
      exact (h thd).adding t (by rw [ht, hheap])
    · intro hl
      rw [hlife] at hl
      injection hl with hheap
      rw [hheap] at hbusy
      -- a mark could only be one of a destroy that is late
      by_contra hne
      exact hstale hheap ((h thd).staleMark hbusy hne)
    · intro hne
      refine ⟨((h thd).origin hne).1, .inl ?_⟩
      rw [hlife]
      cases heap with
      | true => rfl
      | false => exact absurd ((h thd).staleMark hbusy hne) (hstale rfl)
  next =>
    refine h.of_own rfl hown (fun q hq => (Option.some.inj hq).symm) ?_
      ((h thd).goOn rfl rfl hown rfl (by simp) ?_)
    · intro q hq
      exact ⟨rfl, Map.lookup_add_of_ne hq, rfl⟩
    · intro hne
      exact ⟨((h thd).origin hne).1, .inr hne⟩

/-- `s_destroy` goes on and has freed nothing. -/
theorem Inv.of_goOn [DecidableEq τ] (h : Inv s) {c : Call α} {heap : Bool}
    (hown : (s.call t).own? = some (thd, heap)) (hown' : c.own? = some (thd, heap))
    (hadd : c ≠ .adding thd true) : Inv (s.move t c) := by
  refine h.of_own rfl hown ?_ (fun _ _ => ⟨rfl, rfl, rfl⟩)
    ((h thd).goOn rfl rfl hown hown' (fun hc => absurd hc hadd) ?_)
  · intro q hq
    rw [Call.obj?_of_own? hown'] at hq
    exact (Option.some.inj hq).symm
  · intro hne
    exact ⟨((h thd).origin hne).1, .inr hne⟩

/-- `s_destroy` ends and has not freed the memory. -/
theorem Inv.of_keep [DecidableEq τ] (h : Inv s) {heap : Bool}
    (hown : (s.call t).own? = some (thd, heap)) : Inv (keep s t thd heap) := by
  have hbusy := (h thd).owns t heap hown
  have hlife : (keep s t thd heap).life thd = if heap then .busy true else .held :=
    Function.update_self ..
  have hdead : ∀ b, (keep s t thd heap).life thd ≠ .live b := by
    intro b
    rw [hlife]
    cases heap with
    | true => simp
    | false => simp
  refine h.of_own rfl hown (fun q hq => absurd hq (by simp [Call.obj?])) ?_
    ((h thd).letGo rfl hown (fun _ => by simp [Call.own?]) (by simp)
      (fun b hb => absurd hb (hdead b)) (fun hb => absurd hb (hdead true))
      (fun hb => absurd hb (hdead false)) ?_)
  · intro q hq
    exact ⟨Function.update_of_ne hq .., rfl, rfl⟩
  · intro hne
    refine ⟨((h thd).origin hne).1, .inr ?_⟩
    rw [hlife]
    cases heap with
    | true => exact .inl rfl
    | false =>
      -- the destroy that is late is another call
      obtain ⟨-, u, hu⟩ := (h thd).staleMark hbusy hne
      have hut : u ≠ t := by
        intro hut
        rw [hut, Call.stale?_of_own? hown] at hu
        exact absurd hu (by simp)
      refine .inr ⟨u, ?_⟩
      show (Function.update s.call t .idle u).stale? = _
      rw [Function.update_of_ne hut]
      exact hu

/-- A call deletes the mark of an object of its own. -/
theorem Inv.of_eraseMark [DecidableEq τ] (h : Inv s) {heap : Bool}
    (hown : (s.call t).own? = some (thd, heap)) (hadd : s.call t ≠ .adding thd true) :
    Inv { s with s_alloc_tbl := (s.s_alloc_tbl.delete thd).2.2 } := by
  -- the call does not move here, it does so in `keep`
  have hgone : (s.s_alloc_tbl.delete thd).2.2.lookup thd = none := Finmap.lookup_erase ..
  have hcall : ({ s with s_alloc_tbl := (s.s_alloc_tbl.delete thd).2.2 } : Tables τ α).call =
      Function.update s.call t (s.call t) := (Function.update_eq_self ..).symm
  refine h.of_own hcall hown ?_ ?_ ((h thd).goOn hcall rfl hown hown (fun hc => absurd hc hadd)
    (fun hne => absurd hgone hne))
  · intro q hq
    rw [Call.obj?_of_own? hown] at hq
    exact (Option.some.inj hq).symm
  · intro q hq
    exact ⟨rfl, rfl, Finmap.lookup_erase_ne hq⟩

/-- The memory is freed. -/
theorem Inv.of_free [DecidableEq τ] (h : Inv s) {heap : Bool} {why : Cleanup}
    (hown : (s.call t).own? = some (thd, heap)) :
    Inv ((s.lead thd .unused).move t (.cleaning (.deleteThd true) thd heap why)) := by
  have hlife : ((s.lead thd .unused).move t (.cleaning (.deleteThd true) thd heap why)).life thd =
      .unused := Function.update_self ..
  have hdead : ∀ b, ((s.lead thd .unused).move t
      (.cleaning (.deleteThd true) thd heap why)).life thd ≠ .live b := by
    intro b
    rw [hlife]
    simp
  refine h.of_own rfl hown (fun q hq => (Option.some.inj hq).symm) ?_
    ((h thd).letGo rfl hown (fun _ => by simp [Call.own?, Part.isFreed]) (by simp)
      (fun b hb => absurd hb (hdead b)) (fun hb => absurd hb (hdead true))
      (fun hb => absurd hb (hdead false)) ?_)
  · intro q hq
    exact ⟨Function.update_of_ne hq .., rfl, rfl⟩
  · intro hne
    refine ⟨((h thd).origin hne).1, .inr (.inr ⟨t, ?_⟩)⟩
    show (Function.update s.call t _ t).stale? = _
    rw [Function.update_self]
    rfl

/-- **A late deletion from `s_thd_tbl`.** -/
theorem Inv.of_lateThd [DecidableEq τ] (h : Inv s) {heap : Bool} {why : Cleanup}
    (ht : s.call t = .cleaning (.deleteThd true) thd heap why)
    (hharmless : ∀ b, s.life thd ≠ .live b) :
    Inv ({ s with s_thd_tbl := (s.s_thd_tbl.delete thd).2.2 }.move t
      (.cleaning (.deleteAlloc true) thd heap why)) := by
  -- nothing live is at the address, so no entry is missed
  refine h.of_at thd rfl ?_ (fun q hq => (Option.some.inj hq).symm) ?_
    ((h thd).outside rfl (fun _ => by simp [Call.own?, Part.isFreed]) (by simp) (fun _ hb => hb)
      (fun b hb => absurd hb (hharmless b)) (fun b hb => absurd hb (hharmless b)) (h thd).marked
      (h thd).unmarked (h thd).adding ?_)
  · intro q hq
    rw [ht] at hq
    exact (Option.some.inj hq).symm
  · intro q hq
    exact ⟨rfl, Finmap.lookup_erase_ne hq, rfl⟩
  · intro hne
    refine ⟨((h thd).origin hne).1, .inr (.inr ⟨t, ?_⟩)⟩
    show (Function.update s.call t _ t).stale? = _
    rw [Function.update_self]
    rfl

/-- **A late deletion from `s_alloc_tbl`.** -/
theorem Inv.of_lateAlloc [DecidableEq τ] (h : Inv s) {heap : Bool} {why : Cleanup}
    (ht : s.call t = .cleaning (.deleteAlloc true) thd heap why)
    (hlive : s.life thd ≠ .live true) (hadding : ∀ u, s.call u ≠ .adding thd true) :
    Inv ({ s with s_alloc_tbl := (s.s_alloc_tbl.delete thd).2.2 }.move t .idle) := by
  have hgone : (s.s_alloc_tbl.delete thd).2.2.lookup thd = none := Finmap.lookup_erase ..
  refine h.of_at thd rfl ?_ (fun q hq => absurd hq (by simp [Call.obj?])) ?_
    ((h thd).outside rfl (fun _ => by simp [Call.own?]) (by simp) (fun _ hb => hb)
      (fun b hb => ⟨b, hb⟩) (h thd).thd (fun hb => absurd hb hlive) (fun _ => hgone)
      (fun u hu => absurd hu (hadding u)) (fun hne => absurd hgone hne))
  · intro q hq
    rw [ht] at hq
    exact (Option.some.inj hq).symm
  · intro q hq
    exact ⟨rfl, rfl, Finmap.lookup_erase_ne hq⟩

theorem Inv.of_clean [DecidableEq τ] (h : Inv s) {part : Part} {heap : Bool} {why : Cleanup}
    (ht : s.call t = .cleaning part thd heap why)
    (hthd : part = .deleteThd true → ∀ b, s.life thd ≠ .live b)
    (halloc : part = .deleteAlloc true →
      s.life thd ≠ .live true ∧ ∀ u, s.call u ≠ .adding thd true) :
    Inv (clean s t part thd heap why).2 := by
  have hown : part.isFreed = false → (s.call t).own? = some (thd, heap) := by
    intro hpart
    rw [ht]
    simp [Call.own?, hpart]
  have hadd : s.call t ≠ .adding thd true := by
    rw [ht]
    simp
  cases part with
  | isThd =>
    unfold clean
    dsimp only
    split
    · exact h.of_goOn (hown rfl) rfl (by simp)
    · exact h.of_keep (hown rfl)
  | isThdAgain =>
    unfold clean
    dsimp only
    split
    · exact h.of_goOn (hown rfl) rfl (by simp)
    · exact h.of_keep (hown rfl)
  | isAllocMarked =>
    unfold clean
    dsimp only
    split
    · exact h.of_goOn (hown rfl) rfl (by simp)
    · exact h.of_goOn (hown rfl) rfl (by simp)
  | free => exact h.of_free (hown rfl)
  | deleteThd freed =>
    cases freed with
    | true =>
      -- the address may have a new owner by now
      exact h.of_lateThd ht (hthd rfl)
    | false =>
      refine h.of_own rfl (hown rfl) (fun q hq => (Option.some.inj hq).symm) ?_
        ((h thd).goOn rfl rfl (hown rfl) rfl (by simp) ?_)
      · intro q hq
        exact ⟨rfl, Finmap.lookup_erase_ne hq, rfl⟩
      · intro hne
        exact ⟨((h thd).origin hne).1, .inr hne⟩
  | deleteAlloc freed =>
    cases freed with
    | true =>
      obtain ⟨hlive, hadding⟩ := halloc rfl
      exact h.of_lateAlloc ht hlive hadding
    | false => exact (h.of_eraseMark (hown rfl) hadd).of_keep (hown rfl)

theorem Inv.of_freeWhenDestroy [DecidableEq τ] (h : Inv s) (ht : s.call t = .idle)
    (thdptr : Option (Option α)) (hproper : ∀ thd, thdptr = some (some thd) → s.IsFree thd) :
    Inv (freeWhenDestroy s t thdptr).2 := by
  unfold freeWhenDestroy
  split
  next thd =>
    split
    next =>
      obtain ⟨hlive, -⟩ := hproper thd rfl
      refine h.of_at thd rfl ?_ (fun q hq => (Option.some.inj hq).symm) (fun _ _ => ⟨rfl, rfl, rfl⟩)
        ((h thd).outside rfl (fun _ => by simp [Call.own?]) (fun _ => hlive) (fun _ hb => hb)
          (fun b hb => ⟨b, hb⟩) (h thd).thd (h thd).marked (h thd).unmarked (h thd).adding ?_)
      · intro q hq
        rw [ht] at hq
        exact absurd hq (by simp [Call.obj?])
      · intro hne
        obtain ⟨htrue, hfrom⟩ := (h thd).origin hne
        refine ⟨htrue, hfrom.imp_right (fun hfrom => hfrom.imp_right ?_)⟩
        intro hlate
        obtain ⟨u, hu⟩ := hlate
        have hut : u ≠ t := by
          intro hut
          rw [hut, ht] at hu
          exact absurd hu (by simp [Call.stale?])
        refine ⟨u, ?_⟩
        show (Function.update s.call t _ u).stale? = _
        rw [Function.update_of_ne hut]
        exact hu
    next => exact h
  next => exact h

theorem Inv.of_remark [DecidableEq τ] (h : Inv s) (ht : s.call t = .remarking thd) {room : Bool}
    (hroom : (s.s_alloc_tbl.add thd true true room).1 = .ok) : Inv (remark s t thd room).2 := by
  have hmark := Map.lookup_add_of_ok hroom
  -- nobody destroys an object while it is being marked
  obtain ⟨b, hb⟩ := (h thd).remarks t ht
  have hlife : (remark s t thd room).2.life thd = .live true := by
    show Function.update s.life thd (s.life thd).mark thd = _
    rw [Function.update_self, hb]
    rfl
  refine h.of_at thd rfl ?_ (fun q hq => absurd hq (by simp [Call.obj?])) ?_
    ((h thd).outside rfl (fun _ => by simp [Call.own?]) (by simp) ?_ (fun _ _ => ⟨true, hlife⟩)
      (fun _ _ => (h thd).thd b hb) (fun _ => hmark) ?_ (fun _ _ => hmark)
      (fun _ => ⟨hmark, .inl hlife⟩))
  · intro q hq
    rw [ht] at hq
    exact (Option.some.inj hq).symm
  · intro q hq
    exact ⟨Function.update_of_ne hq .., rfl, Map.lookup_add_of_ne hq⟩
  · intro b' hbusy
    rw [hb] at hbusy
    exact absurd hbusy (by simp)
  · intro hfalse
    rw [hlife] at hfalse
    exact absurd hfalse (by simp)

/-- Memory that no object is in changes hands. -/
theorem Inv.of_vacant [DecidableEq τ] (h : Inv s) (ht : s.call t = .idle)
    (hold : s.life thd = .unused ∨ s.life thd = .held) {k : Life}
    (hnew : k = .unused ∨ k = .held) : Inv (s.lead thd k) := by
  have hcall : (s.lead thd k).call = Function.update s.call t .idle := by
    rw [← ht]
    exact (Function.update_eq_self ..).symm
  have hlife : (s.lead thd k).life thd = k := Function.update_self ..
  obtain ⟨hbusy, hlive, -⟩ := (h thd).vacant hold
  have hdead : ∀ b, (s.lead thd k).life thd ≠ .live b := by
    intro b hb
    rw [← hlife, hb] at hnew
    exact absurd hnew (by simp)
  refine h.of_at thd hcall ?_ (fun q hq => absurd hq (by simp [Call.obj?])) ?_
    ((h thd).outside hcall (fun _ => by simp [Call.own?]) (by simp)
      (fun b hb => absurd hb (hbusy b)) (fun b hb => absurd hb (hlive b))
      (fun b hb => absurd hb (hdead b)) (fun hb => absurd hb (hdead true))
      (fun hb => absurd hb (hdead false)) (h thd).adding ?_)
  · intro q hq
    rw [ht] at hq
    exact absurd hq (by simp [Call.obj?])
  · intro q hq
    exact ⟨Function.update_of_ne hq .., rfl, rfl⟩
  · intro hne
    obtain ⟨htrue, hl | hb | hfrom⟩ := (h thd).origin hne
    · exact absurd hl (hlive true)
    · exact absurd hb (hbusy true)
    · exact ⟨htrue, .inr (.inr hfrom)⟩

/-- **Every proper and harmless step keeps the invariant.** -/
theorem Inv.step [DecidableEq τ] (h : Inv s) (hstep : Step s l s') (hproper : Proper s l s')
    (hharmless : Harmless s l s') : Inv s' := by
  unfold Proper at hproper
  unfold Harmless at hharmless
  cases step_cases hstep with
  | create t thdptr mainproc ha ht hs =>
    rw [hs]
    apply h.of_create ht thdptr mainproc
    intro thd hptr
    rw [ha, hptr] at hproper
    exact hproper
  | malloc t mem ha ht hs => exact h.of_malloc ht hs
  | allocMark t room thd ha ht hs =>
    simp only [ha, Action.thread, ht] at hharmless
    rw [hs]
    exact h.of_allocMark ht hharmless
  | add t room ret thd heap ha ht hs =>
    simp only [ha, Action.thread, ht] at hharmless
    rw [hs]
    exact h.of_add ht hharmless
  | destroy t thdptr ha ht hs =>
    rw [hs]
    apply h.of_destroy ht thdptr
    intro thd hptr
    rw [ha, hptr] at hproper
    exact hproper
  | clean t part thd heap why ha ht hs =>
    rw [hs]
    refine h.of_clean ht ?_ ?_
    · intro hpart
      simp only [ha, Action.thread, ht, hpart] at hharmless
      exact hharmless
    · intro hpart
      simp only [ha, Action.thread, ht, hpart] at hharmless
      exact hharmless
  | freeWhenDestroy t thdptr ha ht hs =>
    rw [hs]
    apply h.of_freeWhenDestroy ht thdptr
    intro thd hptr
    rw [ha, hptr] at hproper
    exact hproper
  | remark t room thd ha ht hs =>
    simp only [ha, Action.thread, ht] at hharmless
    rw [hs]
    exact h.of_remark ht hharmless
  | acquire t mem ha ht hmem hs =>
    rw [hs]
    exact h.of_vacant ht (.inl hmem) (.inr rfl)
  | release t mem ha ht hmem hs =>
    rw [hs]
    exact h.of_vacant ht (.inr hmem) (.inl rfl)

/-! ## §3. What the invariant tells, and what breaks it. -/

theorem Inv.known (h : Inv s) : Known s := by
  intro thd heap hlive
  have hthd : s.isThd thd = true := by
    simp [Tables.isThd, Map.find, (h thd).thd heap hlive]
  refine ⟨hthd, ?_, ?_⟩
  · unfold isValid
    dsimp only
    rw [if_pos rfl, if_pos hthd]
  · cases heap with
    | true => simp [Tables.isAllocMarked, Map.find, (h thd).marked hlive]
    | false => simp [Tables.isAllocMarked, Map.find, (h thd).unmarked hlive]

/-- A live object that is not in `s_thd_tbl`. -/
theorem not_known_of_thd (thd : α) {heap : Bool} (hlive : s.life thd = .live heap)
    (hnone : s.s_thd_tbl.lookup thd = none) : ¬ Known s := by
  intro h
  have hthd := (h thd heap hlive).1
  simp [Tables.isThd, Map.find, hnone] at hthd

/-- A live object that is to be freed and has no mark. -/
theorem not_known_of_mark (thd : α) (hlive : s.life thd = .live true)
    (hnone : s.s_alloc_tbl.lookup thd = none) : ¬ Known s := by
  intro h
  have hmark := (h thd true hlive).2.2.mpr rfl
  simp [Tables.isAllocMarked, Map.find, hnone] at hmark

/-- A create whose mark is gone, and which succeeds. -/
theorem known_broken_by_add [DecidableEq τ] (thd : α) (ht : s.call t = .adding thd true)
    (hnone : s.s_alloc_tbl.lookup thd = none) :
    ∃ ms u, Run (restrict Step Proper) s ms u ∧ ¬ Known u := by
  have hstep : Step s ⟨.add t true .ok, (add s t thd true true .ok).1⟩
      (add s t thd true true .ok).2 := by
    refine ⟨.add t true .ok, ?_⟩
    simp [next, Action.thread, ht]
  refine ⟨_, _, .cons ⟨hstep, trivial⟩ (.nil _), ?_⟩
  exact not_known_of_mark thd (Function.update_self ..) hnone

/-- A late deletion from `s_alloc_tbl` that hits a mark. -/
theorem known_broken_by_lateAlloc [DecidableEq τ] {heap : Bool} {why : Cleanup}
    (ht : s.call t = .cleaning (.deleteAlloc true) thd heap why)
    (hhit : s.life thd = .live true ∨ ∃ u, s.call u = .adding thd true) :
    ∃ ms u, Run (restrict Step Proper) (clean s t (.deleteAlloc true) thd heap why).2 ms u ∧
      ¬ Known u := by
  have hgone : (clean s t (.deleteAlloc true) thd heap why).2.s_alloc_tbl.lookup thd = none :=
    Finmap.lookup_erase ..
  rcases hhit with hlive | ⟨u, hu⟩
  · exact ⟨[], _, .nil _, not_known_of_mark thd hlive hgone⟩
  · -- the create has marked the address, and returns without the mark
    have hut : u ≠ t := by
      intro hut
      rw [hut, ht] at hu
      exact absurd hu (by simp)
    refine known_broken_by_add (t := u) thd ?_ hgone
    show Function.update s.call t .idle u = _
    rw [Function.update_of_ne hut]
    exact hu

/-- **After a step that is not harmless the registry can lose an object.** -/
theorem known_broken [DecidableEq τ] (h : Inv s) (hstep : Step s l s')
    (hbreak : ¬ Harmless s l s') : ∃ ms u, Run (restrict Step Proper) s' ms u ∧ ¬ Known u := by
  unfold Harmless at hbreak
  cases step_cases hstep with
  | allocMark t room thd ha ht hs =>
    simp only [ha, Action.thread, ht] at hbreak
    have hnone := Map.lookup_add_of_not_ok hbreak
    rw [hs]
    refine known_broken_by_add (t := t) thd ?_ hnone
    exact Function.update_self ..
  | add t room ret thd heap ha ht hs =>
    simp only [ha, Action.thread, ht, Classical.not_imp, not_and_or, not_not] at hbreak
    obtain ⟨rfl, hbreak⟩ := hbreak
    refine ⟨[], s', .nil s', ?_⟩
    have hlive : s'.life thd = .live heap := by
      rw [hs]
      exact Function.update_self ..
    rcases hbreak with hroom | ⟨rfl, hstale⟩
    · apply not_known_of_thd thd hlive
      rw [hs]
      exact Map.lookup_add_of_not_ok hroom
    · intro h
      have hmark : s'.isAllocMarked thd = true := by
        rw [hs]
        exact hstale.1
      exact absurd ((h thd false hlive).2.2.mp hmark) (by decide)
  | remark t room thd ha ht hs =>
    simp only [ha, Action.thread, ht] at hbreak
    obtain ⟨b, hb⟩ := (h thd).remarks t ht
    refine ⟨[], s', .nil s', not_known_of_mark thd ?_ ?_⟩
    · rw [hs]
      show Function.update s.life thd (s.life thd).mark thd = _
      rw [Function.update_self, hb]
      rfl
    · rw [hs]
      exact Map.lookup_add_of_not_ok hbreak
  | clean t part thd heap why ha ht hs =>
    -- only the deletions after the free can do harm
    have hlate : part = .deleteThd true ∨ part = .deleteAlloc true := by
      by_contra hpart
      rw [not_or] at hpart
      apply hbreak
      simp only [ha, Action.thread, ht]
      split
      all_goals simp_all
    rcases hlate with rfl | rfl
    · simp only [ha, Action.thread, ht, not_forall, not_not] at hbreak
      obtain ⟨b, hb⟩ := hbreak
      refine ⟨[], s', .nil s', not_known_of_thd thd (hs ▸ hb : s'.life thd = .live b) ?_⟩
      rw [hs]
      exact Finmap.lookup_erase ..
    · simp only [ha, Action.thread, ht, not_and_or, not_forall, not_not] at hbreak
      rw [hs]
      exact known_broken_by_lateAlloc ht hbreak
  | create t thdptr mainproc ha ht hs =>
    simp only [ha, Action.thread, ht] at hbreak
    exact absurd trivial hbreak
  | malloc t mem ha ht hs =>
    simp only [ha, Action.thread, ht] at hbreak
    exact absurd trivial hbreak
  | destroy t thdptr ha ht hs =>
    simp only [ha, Action.thread, ht] at hbreak
    exact absurd trivial hbreak
  | freeWhenDestroy t thdptr ha ht hs =>
    simp only [ha, Action.thread, ht] at hbreak
    exact absurd trivial hbreak
  | acquire t mem ha ht hmem hs =>
    simp only [ha, Action.thread, ht] at hbreak
    exact absurd trivial hbreak
  | release t mem ha ht hmem hs =>
    simp only [ha, Action.thread, ht] at hbreak
    exact absurd trivial hbreak

end

/-! ## §4. All runs. -/

/-- Two threads between two calls. -/
theorem not_remarking_of_idle {s : Tables Bool Nat} {thd : Nat} (hf : s.call false = .idle)
    (ht : s.call true = .idle) (u : Bool) : s.call u ≠ .remarking thd := by
  cases u with
  | false =>
    rw [hf]
    simp
  | true =>
    rw [ht]
    simp

/-- **In every run without a late deletion and without a failing add the
registry knows all live objects**; and where the next step of such a run is one
of these, the registry can lose an object. -/
theorem live_objects_known [DecidableEq τ] [DecidableEq α] {ls : List (Label τ α)}
    {s : Tables τ α}
    (hrun : Run (restrict (restrict Step Proper) Harmless) (Tables.empty τ α) ls s) :
    Known s ∧ ∀ l s', restrict Step Proper s l s' → ¬ Harmless s l s' →
      ∃ ms u, Run (restrict Step Proper) s' ms u ∧ ¬ Known u := by
  -- the invariant carries the run, and says more than is asked
  have hinv : Inv s := hrun.invariant
    (fun s l u h hst => h.step hst.1.1 hst.1.2 hst.2) Inv.empty
  exact ⟨hinv.known, fun l s' hst hbreak => known_broken hinv hst.1 hbreak⟩

/-- One object in new memory, and one in the application's own, which is to be
freed as well; the first one is destroyed. -/
theorem live_objects_known_two :
    ∃ (ls : List (Label Bool Nat)) (s : Tables Bool Nat),
      Run (restrict Step Proper) (Tables.empty Bool Nat) ls s ∧
      ls.map (fun l => l.outcome) = [.quiet, .quiet, .quiet, .created .ok (some 0), .quiet, .quiet,
        .created .ok (some 1), .quiet, .marked .ok, .quiet, .quiet, .quiet, .quiet, .quiet, .quiet,
        .destroyed] ∧
      s.life 0 = .unused ∧ s.life 1 = .live true ∧ Known s := by
  have hrun : ∃ p, exec next (Tables.empty Bool Nat)
      [.create false (some none) true, .malloc false (some 0), .allocMark false true,
        .add false true .ok, .acquire true 1, .create true (some (some 1)) true,
        .add true true .ok, .freeWhenDestroy true (some (some 1)), .remark true true,
        .destroy false (some (some 0)), .clean false, .clean false, .clean false, .clean false,
        .clean false, .clean false] = some p ∧
      p.1.map (fun l => l.outcome) = [.quiet, .quiet, .quiet, .created .ok (some 0), .quiet,
        .quiet, .created .ok (some 1), .quiet, .marked .ok, .quiet, .quiet, .quiet, .quiet, .quiet,
        .quiet, .destroyed] ∧
      p.2.life 0 = .unused ∧ p.2.life 1 = .live true := ⟨_, rfl, rfl, rfl, rfl⟩
  obtain ⟨⟨ls, s⟩, hexec, hout, h0, h1⟩ := hrun
  have hchecked : Run (restrict Step (fun s l s' => Proper s l s' ∧ Harmless s l s'))
      (Tables.empty Bool Nat) ls s := by
    apply run_of_checked hexec
    have hfresh : ∀ {s : Tables Bool Nat} {thd : Nat} {heap : Bool}, heap = true →
        heap = false → ¬ s.StaleMark thd := by
      intro s thd heap h1 h2
      rw [h1] at h2
      exact absurd h2 (by decide)
    have hunused : ∀ {s : Tables Bool Nat} {thd : Nat}, s.life thd = .unused →
        ∀ b, s.life thd ≠ .live b := by
      intro s thd h b hb
      rw [h] at hb
      exact absurd hb (by simp)
    have hadding : ∀ {s : Tables Bool Nat} {thd : Nat}, (s.call false).own? = none →
        (s.call true).own? = none → ∀ u, s.call u ≠ .adding thd true := by
      intro s thd hf ht u hu
      cases u with
      | false =>
        rw [hu] at hf
        exact absurd hf (by simp [Call.own?])
      | true =>
        rw [hu] at ht
        exact absurd ht (by simp [Call.own?])
    exact ⟨⟨trivial, trivial⟩, ⟨trivial, trivial⟩, ⟨trivial, rfl⟩,
      ⟨trivial, fun _ => ⟨rfl, hfresh rfl⟩⟩, ⟨trivial, trivial⟩, ⟨rfl, trivial⟩,
      ⟨trivial, fun _ => ⟨rfl, fun _ h => Bool.false_ne_true h.1⟩⟩,
      ⟨⟨⟨false, rfl⟩, not_remarking_of_idle rfl rfl⟩, trivial⟩, ⟨trivial, rfl⟩,
      ⟨⟨⟨true, rfl⟩, not_remarking_of_idle rfl rfl⟩, trivial⟩, ⟨trivial, trivial⟩,
      ⟨trivial, trivial⟩, ⟨trivial, trivial⟩, ⟨trivial, trivial⟩,
      ⟨trivial, hunused rfl⟩, ⟨trivial, hunused rfl true, hadding rfl rfl⟩, trivial⟩
  have hboth : Run (restrict (restrict Step Proper) Harmless) (Tables.empty Bool Nat) ls s :=
    hchecked.mono (fun _ _ _ hst => ⟨⟨hst.1, hst.2.1⟩, hst.2.2⟩)
  exact ⟨ls, s, hboth.of_restrict, hout, h0, h1, (live_objects_known hboth).1⟩

/-- An address that malloc() hands out again between free() and the two
deletions: they take the entries of the new object. -/
theorem new_object_forgotten :
    ∃ (ls : List (Label Bool Nat)) (s : Tables Bool Nat),
      Run (restrict Step Proper) (Tables.empty Bool Nat) ls s ∧
      ls.map (fun l => l.outcome) = [.quiet, .quiet, .quiet, .created .ok (some 0), .quiet, .quiet,
        .quiet, .quiet, .quiet, .quiet, .quiet, .quiet, .created .ok (some 0), .quiet,
        .destroyed] ∧
      (∀ t, s.call t = .idle) ∧ s.life 0 = .live true ∧ s.isThd 0 = false ∧
      isValid s (some (some 0)) true = (.invalidObject, some false) ∧
      s.isAllocMarked 0 = false ∧ ¬ Known s := by
  have hrun : ∃ p, exec next (Tables.empty Bool Nat)
      [.create false (some none) true, .malloc false (some 0), .allocMark false true,
        .add false true .ok, .destroy false (some (some 0)), .clean false, .clean false,
        .clean false, .clean false, .create true (some none) true, .malloc true (some 0),
        .allocMark true true, .add true true .ok, .clean false, .clean false] = some p ∧
      p.1.map (fun l => l.outcome) = [.quiet, .quiet, .quiet, .created .ok (some 0), .quiet,
        .quiet, .quiet, .quiet, .quiet, .quiet, .quiet, .quiet, .created .ok (some 0), .quiet,
        .destroyed] ∧
      (p.2.call false = .idle ∧ p.2.call true = .idle) ∧ p.2.life 0 = .live true ∧
      p.2.isThd 0 = false ∧ p.2.isAllocMarked 0 = false :=
    ⟨_, rfl, rfl, ⟨rfl, rfl⟩, rfl, rfl, rfl⟩
  obtain ⟨⟨ls, s⟩, hexec, hout, ⟨hf, ht⟩, hlive, hthd, hmark⟩ := hrun
  refine ⟨ls, s, run_of_checked hexec ?_, hout, ?_, hlive, hthd, ?_, hmark, ?_⟩
  · exact ⟨trivial, trivial, trivial, trivial, ⟨⟨true, rfl⟩, not_remarking_of_idle rfl rfl⟩,
      trivial, trivial, trivial, trivial, trivial, trivial, trivial, trivial, trivial, trivial,
      trivial⟩
  · intro t
    cases t
    · exact hf
    · exact ht
  · unfold isValid
    dsimp only
    rw [hthd]
    rfl
  · intro h
    have htrue := (h 0 true hlive).1
    rw [hthd] at htrue
    exact absurd htrue (by decide)

end Mccp.Thread.Registry
