/-
  Mccp.Qmuxer.Sleepers
  ────────────────────
  **WHAT A SLEEPING POLLER CAN COUNT ON.**

  A poller that sleeps has registered its muxer with every queue of its array,
  in the visit of its pre-wait pass.  A queue has room for one registration
  only, and the passes of other polls write it too: from the visit on, the
  registration is the sleeper's until the next meeting of any pass with the
  queue, and then it is what that meeting leaves.

      Own                     — the visit of a poll, and what came after it
      Carried.step            — every queue of a sleeper's array has been visited
      sleeper_registered_iff  — when the muxer is registered, and what it is for
-/
import Mccp.Qmuxer.Registration

namespace Mccp.Qmuxer

open Cbuffer Monitor Transition

variable {τ Q : Type}

/-! ## §1. A visit, and what came after it. -/

theorem visit_bbq (cb : Record) (qmx : Qmuxer) (mp : Poll Q) (isPre : Bool) :
    (visit cb qmx mp isPre).2.2.bbq = mp.bbq := by
  unfold visit
  simp only []
  split <;> rfl

/-- A queue that is not operational is left as it is. -/
theorem visit_down {cb : Record} (hdown : cb.isOperational = false) (qmx : Qmuxer) (mp : Poll Q)
    (isPre : Bool) : visit cb qmx mp isPre = (cb, .notOperational, mp) := by
  unfold visit setupForQmuxer
  rw [hdown]
  rfl

/-- A pre-wait visit that counts no event and no error has registered the muxer. -/
theorem visit_registers {cb : Record} {qmx : Qmuxer} {mp : Poll Q}
    (hpos : ¬ (visit cb qmx mp true).2.1 < 0) (hne : (visit cb qmx mp true).2.1 ≠ 0) :
    cb.isOperational = true ∧ needWait cb mp.type ≠ .unknown ∧
      (visit cb qmx mp true).1.qmuxer = some qmx ∧
      (visit cb qmx mp true).1.type = needWait cb mp.type := by
  cases hop : cb.isOperational with
  | false =>
    rw [visit_down hop] at hpos
    exact absurd (show Result.notOperational < 0 by decide) hpos
  | true =>
    unfold visit setupForQmuxer at hne ⊢
    simp only [hop, if_true] at hne ⊢
    have hneed : needWait cb mp.type ≠ .unknown := by
      intro hunknown
      apply hne
      rw [hunknown]
      rfl
    have hbits : 0 < (needWait cb mp.type).bits := by
      cases h : needWait cb mp.type with
      | unknown => exact absurd h hneed
      | readable => decide
      | writable => decide
      | both => decide
    refine ⟨trivial, hneed, ?_⟩
    simp [hbits]

variable [DecidableEq Q]

/-- The step is a visit that the thread makes to the queue. -/
def VisitOf (t : τ) (q : Q) (l : Label τ Q) : Prop :=
  ∃ qmx isPre operational need, l = .visit t qmx isPre q operational need

/-- The thread's last visit to the queue was one of a pre-wait pass for the
muxer, and found that the queue lacked `need`; `after` is what came then. -/
structure Own (ls : List (Label τ Q)) (t : τ) (qmx : Qmuxer) (q : Q) (need : PollEvent)
    (after : List (Label τ Q)) : Prop where
  split : ∃ before, ls = before ++ .visit t qmx true q true need :: after
  last : ∀ l ∈ after, ¬ VisitOf t q l
  lacks : need ≠ .unknown

/-- The registration of the queue is the one that the visit made. -/
def Registered (s : System τ Q) (q : Q) (qmx : Qmuxer) (need : PollEvent) : Prop :=
  (s.queue q).qmuxer = some qmx ∧ (s.queue q).type = need

/-- The queue was visited, and as long as no pass meets it the registration stands. -/
def Visited (ls : List (Label τ Q)) (s : System τ Q) (t : τ) (qmx : Qmuxer) (q : Q) : Prop :=
  ∃ need after, Own ls t qmx q need after ∧
    (lastMeeting q after = none → Registered s q qmx need)

/-- The registration after the visit. -/
theorem Own.registration_iff {ls after : List (Label τ Q)} {t : τ} {qmx : Qmuxer} {q : Q}
    {need : PollEvent} (h : Own ls t qmx q need after) :
    (lastMeeting q ls).bind Meeting.registration = some qmx ↔
      ∀ m, lastMeeting q after = some m → m.registration = some qmx := by
  obtain ⟨⟨before, rfl⟩, -, hlacks⟩ := h
  have hvisit : meeting q (.visit t qmx true q true need : Label τ Q) = some ⟨qmx, true, need⟩ := by
    unfold meeting
    simp
  have hcons : lastMeeting q ((.visit t qmx true q true need : Label τ Q) :: after) =
      (lastMeeting q after).or (some ⟨qmx, true, need⟩) := by
    rw [← List.singleton_append, lastMeeting_append, ← List.nil_append [_], lastMeeting_snoc,
      hvisit]
    rfl
  rw [lastMeeting_append, hcons]
  cases lastMeeting q after with
  | none =>
    refine iff_of_true ?_ (fun m hm => absurd hm (by simp))
    exact Meeting.registration_eq_some.mpr ⟨rfl, rfl, hlacks⟩
  | some m =>
    refine ⟨fun hm m' hm' => ?_, fun hall => hall m rfl⟩
    obtain rfl := Option.some.inj hm'
    exact hm

/-! ## §2. What a step does to a registration, and to a sleeper. -/

variable [DecidableEq τ]

/-- A step that is no meeting with the queue leaves its registration alone. -/
theorem step_frame {s s' : System τ Q} {l : Label τ Q} (h : Step s l s') {q : Q}
    (hm : meeting q l = none) :
    (s'.queue q).qmuxer = (s.queue q).qmuxer ∧ (s'.queue q).type = (s.queue q).type := by
  cases step_moves h with
  | refused t args => exact ⟨rfl, rfl⟩
  | called args c hat => exact ⟨rfl, rfl⟩
  | passed hat htodo => exact ⟨rfl, rfl⟩
  | nullPoll hat c' => exact ⟨rfl, rfl⟩
  | skipped hat x' htodo hx hpre hseen htodo' hnev => exact ⟨rfl, rfl⟩
  | slept hat => exact ⟨rfl, rfl⟩
  | awoke hat => exact ⟨rfl, rfl⟩
  | returned hat => exact ⟨rfl, rfl⟩
  | wake w hat => exact ⟨rfl, rfl⟩
  | @visited t c p hat mp todo htodo q' hq place hplace =>
    show (Function.update s.queue q' _ q).qmuxer = _ ∧ (Function.update s.queue q' _ q).type = _
    by_cases hqq : q = q'
    · subst hqq
      -- a visit that is no meeting has found the queue down
      have hdown : (s.queue q).isOperational = false := by
        cases hop : (s.queue q).isOperational with
        | false => rfl
        | true =>
          unfold meeting at hm
          simp [hop] at hm
      rw [Function.update_self, visit_down hdown]
      exact ⟨rfl, rfl⟩
    · rw [Function.update_of_ne hqq]
      exact ⟨rfl, rfl⟩
  | op q' i hi =>
    show (Function.update s.queue q' _ q).qmuxer = _ ∧ (Function.update s.queue q' _ q).type = _
    by_cases hqq : q = q'
    · subst hqq
      rw [Function.update_self]
      exact seg_registration (s.queue q) hi
    · rw [Function.update_of_ne hqq]
      exact ⟨rfl, rfl⟩

/-- **An operation that is no clear tells the registered muxer of its event**,
and a poller that sleeps on the muxer wakes up. -/
theorem event_wakes {s s' : System τ Q} {t : τ} {c : PollCall Q} {q : Q} {i : Input Call Cont}
    {o : Outcome Cont Ret Cond Stop} (h : Step s (.op q i o) s') (hsleep : s.place t = .sleeping c)
    (hqmx : (s.queue q).qmuxer = some c.qmx)
    (hevent : EventHappens (s.queue q).view (s'.queue q).view) (hi : ∀ f, i ≠ .enter (.clear f)) :
    s'.place t = .woken c .signaled := by
  have hmoves := step_moves h
  cases hmoves with
  | op _ _ hsetup =>
    have hplace : notify (notifiedBySeg (code.seg (s.queue q) i)) s.place t =
        if c.qmx ∈ notifiedBySeg (code.seg (s.queue q) i) then .woken c .signaled
        else .sleeping c := by
      unfold notify
      rw [hsleep]
    show notify (notifiedBySeg (code.seg (s.queue q) i)) s.place t = _
    rw [hplace]
    apply if_pos
    have heff := seg_effect (s.queue q) i
    replace hevent : EventHappens (s.queue q).view (Function.update s.queue q
      ((code.seg (s.queue q) i).stateOr (s.queue q)) q).view := hevent
    rw [Function.update_self] at hevent
    generalize code.seg (s.queue q) i = sg at heff hevent ⊢
    have hqmx' : (s.queue q).view.qmuxer = some c.qmx := hqmx
    have hsame : ∀ {cb : Record}, cb.view = (s.queue q).view →
        ¬ EventHappens (s.queue q).view cb.view := by
      intro cb hv
      rw [hv]
      exact not_eventHappens rfl rfl rfl
    -- the event of a put or a get is what the registration asks for
    cases heff with
    | halt => exact absurd hevent (hsame rfl)
    | quiet cb r hv => exact absurd hevent (hsame hv)
    | sleepPut cb k _ _ hv => exact absurd hevent (hsame hv)
    | sleepGet cb k _ _ hv => exact absurd hevent (hsame hv)
    | clear cb r f _ _ hc => exact absurd hc (hi f)
    | setup cb r _ _ _ _ hc =>
      obtain ⟨x, y, z, rfl⟩ := hc
      exact absurd hsetup (by simp [isSetup])
    | shutdown cb r hv hr =>
      show c.qmx ∈ r.notified
      rw [hr, hqmx']
      simp
    | put cb r hopen hroom hv hr =>
      show c.qmx ∈ r.notified
      rw [hr, View.mem_notifyIf hqmx']
      replace hevent : EventHappens (s.queue q).view cb.view := hevent
      rw [hv] at hevent
      rcases hevent with ⟨htype, -, -⟩ | ⟨-, hfull, -⟩ | ⟨_, hdown⟩
      · rw [htype]
        decide
      · omega
      · exact absurd (hopen.symm.trans hdown) (by decide)
    | get cb r hopen hsome hv hr =>
      show c.qmx ∈ r.notified
      rw [hr, View.mem_notifyIf hqmx']
      replace hevent : EventHappens (s.queue q).view cb.view := hevent
      rw [hv] at hevent
      rcases hevent with ⟨-, hempty, -⟩ | ⟨htype, -, -⟩ | ⟨_, hdown⟩
      · omega
      · rw [htype]
        decide
      · exact absurd (hopen.symm.trans hdown) (by decide)

/-! ## §3. The queues of a sleeper's array. -/

/-- A visit stays the last one, until the thread makes another one. -/
theorem Visited.snoc {ls : List (Label τ Q)} {s s' : System τ Q} {l : Label τ Q} {t : τ}
    {qmx : Qmuxer} {q : Q} (h : Visited ls s t qmx q) (hstep : Step s l s')
    (hl : ¬ VisitOf t q l) : Visited (ls ++ [l]) s' t qmx q := by
  obtain ⟨need, after, ⟨⟨before, rfl⟩, hlast, hlacks⟩, hreg⟩ := h
  refine ⟨need, after ++ [l], ⟨⟨before, by simp⟩, ?_, hlacks⟩, ?_⟩
  · intro x hx
    rcases List.mem_append.mp hx with hx | hx
    · exact hlast x hx
    · rwa [List.mem_singleton.mp hx]
  · intro hnone
    rw [lastMeeting_snoc, Option.or_eq_none_iff] at hnone
    obtain ⟨hqmx, htype⟩ := step_frame hstep hnone.1
    obtain ⟨hqmx', htype'⟩ := hreg hnone.2
    exact ⟨hqmx.trans hqmx', htype.trans htype'⟩

/-- All queues of the objects were visited. -/
def Covered (ls : List (Label τ Q)) (s : System τ Q) (t : τ) (qmx : Qmuxer)
    (polls : List (Option (Poll Q))) : Prop :=
  ∀ x ∈ polls, ∀ q, x.bind Poll.bbq = some q → Visited ls s t qmx q

/-- What is known of a thread at a place. -/
def PlaceOk (ls : List (Label τ Q)) (s : System τ Q) (t : τ) : Place Q → Prop
  | .passing c p => p.isPre = true → 0 ≤ p.nev ∧ (p.nev = 0 → Covered ls s t c.qmx p.seen)
  | .locking c => Covered ls s t c.qmx c.polls
  | .sleeping c => Covered ls s t c.qmx c.polls
  | _ => True

/-- **What a run carries along.** -/
def Carried (ls : List (Label τ Q)) (s : System τ Q) : Prop := ∀ t, PlaceOk ls s t (s.place t)

theorem Covered.snoc {ls : List (Label τ Q)} {s s' : System τ Q} {l : Label τ Q} {t : τ}
    {qmx : Qmuxer} {polls : List (Option (Poll Q))} (h : Covered ls s t qmx polls)
    (hstep : Step s l s') (hl : ∀ q, ¬ VisitOf t q l) : Covered (ls ++ [l]) s' t qmx polls :=
  fun x hx q hq => (h x hx q hq).snoc hstep (hl q)

theorem PlaceOk.snoc {ls : List (Label τ Q)} {s s' : System τ Q} {l : Label τ Q} {t : τ}
    {place : Place Q} (h : PlaceOk ls s t place) (hstep : Step s l s')
    (hl : ∀ q, ¬ VisitOf t q l) : PlaceOk (ls ++ [l]) s' t place := by
  cases place with
  | idle => trivial
  | woken c w => trivial
  | returning c r => trivial
  | locking c => exact Covered.snoc h hstep hl
  | sleeping c => exact Covered.snoc h hstep hl
  | passing c p =>
    intro hpre
    obtain ⟨hpos, hcov⟩ := h hpre
    exact ⟨hpos, fun hnev => (hcov hnev).snoc hstep hl⟩

omit [DecidableEq τ] in
/-- After its last object, a pre-wait pass that has counted no event has visited all. -/
theorem PlaceOk.afterPass {ls : List (Label τ Q)} {s : System τ Q} {t : τ} {c : PollCall Q}
    {p : Pass Q} (h : PlaceOk ls s t (.passing c p)) (htodo : p.todo = []) :
    PlaceOk ls s t (afterPass { c with polls := p.polls } p.isPre p.result) := by
  unfold Qmuxer.afterPass
  by_cases hres : p.result = 0
  · rw [if_pos hres]
    cases hpre : p.isPre with
    | false => exact fun _ => ⟨Int.le_refl 0, fun _ x hx => absurd hx (by simp [Pass.start])⟩
    | true =>
      have hnev : p.nev = 0 := by
        unfold Pass.result at hres
        split at hres
        next => exact absurd hres (by decide)
        next => exact hres
      have hcov := (h hpre).2 hnev
      intro x hx
      apply hcov x
      -- all objects of the pass have been seen
      have hpolls : p.polls = p.seen.reverse := by
        unfold Pass.polls
        rw [htodo, List.append_nil]
      have hx' : x ∈ p.polls := hx
      rw [hpolls] at hx'
      exact List.mem_reverse.mp hx'
  · rw [if_neg hres]
    trivial

omit [DecidableEq τ] [DecidableEq Q] in
theorem not_visit {l : Label τ Q} {t : τ}
    (hl : ∀ t' qmx isPre q operational need, l ≠ .visit t' qmx isPre q operational need) :
    ∀ q, ¬ VisitOf t q l := by
  intro q hvisit
  obtain ⟨qmx, isPre, operational, need, rfl⟩ := hvisit
  exact hl t qmx isPre q operational need rfl

omit [DecidableEq τ] [DecidableEq Q] in
theorem visitOf_visit {t u : τ} {q q' : Q} {qmx : Qmuxer} {isPre operational : Bool}
    {need : PollEvent} (h : VisitOf u q' (.visit t qmx isPre q operational need)) :
    u = t ∧ q' = q := by
  obtain ⟨_, _, _, _, heq⟩ := h
  injection heq with ht _ _ hq
  exact ⟨ht.symm, hq.symm⟩

/-- An object without a queue has nothing to be visited. -/
theorem PlaceOk.skipped {ls : List (Label τ Q)} {s s' : System τ Q} {t : τ} {c : PollCall Q}
    {p p' : Pass Q} (h : PlaceOk ls s t (.passing c p)) (hstep : Step s (.skip t) s')
    {x : Option (Poll Q)} (hx : x.bind Poll.bbq = none) (hpre : p'.isPre = p.isPre)
    (hseen : p'.seen = x :: p.seen) (hnev : p'.nev = p.nev) :
    PlaceOk (ls ++ [.skip t]) s' t (.passing c p') := by
  intro hpre'
  obtain ⟨hpos, hcov⟩ := h (hpre.symm.trans hpre')
  refine ⟨by rwa [hnev], fun hzero => ?_⟩
  have hcov' := (hcov (hnev.symm.trans hzero)).snoc hstep (not_visit (by simp))
  intro y hy q hq
  rw [hseen] at hy
  rcases List.mem_cons.mp hy with rfl | hy
  · exact absurd (hx.symm.trans hq) (by simp)
  · exact hcov' y hy q hq

omit [DecidableEq τ] in
/-- A visit of a pre-wait pass that found the queue lacking. -/
theorem Visited.now {ls : List (Label τ Q)} {s s' : System τ Q} {t : τ} {qmx : Qmuxer} {q : Q}
    {mp : Poll Q} (hpos : ¬ (visit (s.queue q) qmx mp true).2.1 < 0)
    (hne : (visit (s.queue q) qmx mp true).2.1 ≠ 0)
    (hqueue : s'.queue q = (visit (s.queue q) qmx mp true).1) :
    Visited (ls ++ [.visit t qmx true q (s.queue q).isOperational (needWait (s.queue q) mp.type)])
      s' t qmx q := by
  obtain ⟨hop, hneed, hqmx, htype⟩ := visit_registers hpos hne
  rw [hop]
  refine ⟨_, [], ⟨⟨ls, rfl⟩, fun x hx => absurd hx (by simp), hneed⟩, fun _ => ?_⟩
  show (s'.queue q).qmuxer = _ ∧ (s'.queue q).type = _
  rw [hqueue]
  exact ⟨hqmx, htype⟩

/-- A pass goes on behind a visit: an event was counted, or the queue lacks what is
asked for. -/
theorem PlaceOk.visited {ls : List (Label τ Q)} {s s' : System τ Q} {t : τ} {c : PollCall Q}
    {p : Pass Q} (h : PlaceOk ls s t (.passing c p)) {mp : Poll Q} (todo : List (Option (Poll Q)))
    {q : Q} (hq : mp.bbq = some q)
    (hgood : ¬ (p.isPre = true ∧ (visit (s.queue q) c.qmx mp p.isPre).2.1 < 0))
    (hstep : Step s (.visit t c.qmx p.isPre q (s.queue q).isOperational
      (needWait (s.queue q) mp.type)) s')
    (hqueue : s'.queue q = (visit (s.queue q) c.qmx mp p.isPre).1) :
    PlaceOk (ls ++ [.visit t c.qmx p.isPre q (s.queue q).isOperational
        (needWait (s.queue q) mp.type)]) s' t (.passing c { p with
      seen := some (visit (s.queue q) c.qmx mp p.isPre).2.2 :: p.seen
      todo := todo
      nev := if (visit (s.queue q) c.qmx mp p.isPre).2.1 = 0 then p.nev + 1 else p.nev }) := by
  intro hpre
  replace hpre : p.isPre = true := hpre
  obtain ⟨hpos, hcov⟩ := h hpre
  rw [hpre] at hgood hstep hqueue ⊢
  simp only []
  by_cases hst : (visit (s.queue q) c.qmx mp true).2.1 = 0
  · rw [if_pos hst]
    exact ⟨by omega, fun hzero => by omega⟩
  · rw [if_neg hst]
    refine ⟨hpos, fun hzero y hy q' hq' => ?_⟩
    by_cases hsame : q' = q
    · subst hsame
      exact Visited.now (fun hlt => hgood ⟨rfl, hlt⟩) hst hqueue
    · -- another queue, of an object before this one
      have hbefore : y ∈ p.seen := by
        rcases List.mem_cons.mp hy with rfl | hy
        · have hbbq := (visit_bbq (s.queue q) c.qmx mp true).trans hq
          exact absurd (Option.some.inj (hq'.symm.trans hbbq)) hsame
        · exact hy
      exact (hcov hzero y hbefore q' hq').snoc hstep (fun hvisit => hsame (visitOf_visit hvisit).2)

/-- **The step lemma.** -/
theorem Carried.step {ls : List (Label τ Q)} {s s' : System τ Q} {l : Label τ Q}
    (h : Carried ls s) (hstep : Step s l s') : Carried (ls ++ [l]) s' := by
  -- a thread that is moved, and all others, by a step that is no visit
  have hmove : ∀ (t : τ) (place : Place Q), s' = s.move t place → (∀ u q, ¬ VisitOf u q l) →
      PlaceOk (ls ++ [l]) s' t place → Carried (ls ++ [l]) s' := by
    intro t place hs' hl hok u
    by_cases hu : u = t
    · subst hu
      rw [hs'] at hok ⊢
      show PlaceOk _ _ u (Function.update s.place u place u)
      rwa [Function.update_self]
    · have hsame : s'.place u = s.place u := by
        rw [hs']
        exact Function.update_of_ne hu _ _
      rw [hsame]
      exact (h u).snoc hstep (hl u)
  cases step_moves hstep with
  | refused t args => exact fun u => (h u).snoc hstep (not_visit (by simp))
  | called args c hat =>
    exact hmove _ _ rfl (fun _ => not_visit (by simp))
      (fun _ => ⟨Int.le_refl 0, fun _ x hx => absurd hx (by simp [Pass.start])⟩)
  | @passed t c p hat htodo =>
    have hok := h t
    rw [hat] at hok
    exact hmove _ _ rfl (fun _ => not_visit (by simp))
      ((hok.afterPass htodo).snoc hstep (not_visit (by simp)))
  | nullPoll hat c' => exact hmove _ _ rfl (fun _ => not_visit (by simp)) trivial
  | @skipped t c p p' hat _ x' todo htodo hx hpre hseen htodo' hnev =>
    have hok := h t
    rw [hat] at hok
    exact hmove _ _ rfl (fun _ => not_visit (by simp)) (hok.skipped hstep hx hpre hseen hnev)
  | @slept t c hat =>
    have hok := h t
    rw [hat] at hok
    have hcov : Covered ls s t c.qmx c.polls := hok
    exact hmove _ _ rfl (fun _ => not_visit (by simp)) (hcov.snoc hstep (not_visit (by simp)))
  | @awoke t c w hat =>
    apply hmove _ _ rfl (fun _ => not_visit (by simp))
    cases w with
    | signaled => exact fun hpre => absurd hpre (by simp [Pass.start])
    | timedout => trivial
    | failed => trivial
  | returned hat => exact hmove _ _ rfl (fun _ => not_visit (by simp)) trivial
  | wake w hat => exact hmove _ _ rfl (fun _ => not_visit (by simp)) trivial
  | @visited t c p hat mp todo htodo q hq place hplace =>
    intro u
    by_cases hu : u = t
    · subst hu
      have hok := h u
      rw [hat] at hok
      show PlaceOk _ _ u (Function.update s.place u place u)
      rw [Function.update_self]
      simp only [] at hplace
      by_cases hbad : p.isPre = true ∧ (visit (s.queue q) c.qmx mp p.isPre).2.1 < 0
      · rw [hplace, if_pos hbad]
        trivial
      · rw [if_neg hbad] at hplace
        subst hplace
        exact hok.visited todo hq hbad hstep (Function.update_self _ _ _)
    · show PlaceOk _ _ u (Function.update s.place t place u)
      rw [Function.update_of_ne hu]
      exact (h u).snoc hstep (fun q' hvisit => hu (visitOf_visit hvisit).1)
  | op q i hi =>
    intro u
    have hok := (h u).snoc hstep (not_visit (by simp))
    show PlaceOk _ _ u (notify (notifiedBySeg (code.seg (s.queue q) i)) s.place u)
    unfold notify
    cases hu : s.place u with
    | idle => trivial
    | woken c w => trivial
    | returning c r => trivial
    | passing c p => rwa [hu] at hok
    | locking c => rwa [hu] at hok
    | sleeping c =>
      rw [hu] at hok
      simp only []
      split
      next => trivial
      next => exact hok

/-- **In every state in which a thread sleeps in a poll**, its last visit to each
queue of its array was the one of its pre-wait pass, which found the queue
lacking and registered the thread's muxer.  The muxer is registered there now
exactly when the last pass that has met the queue since, if any, was a pre-wait
pass for the same muxer that found the queue lacking.  As long as no pass has met
it, the event of the registration is what was lacking, and the operation in which
it happens wakes the thread, unless it is a clear. -/
theorem sleeper_registered_iff {s₀ s : System τ Q} {ls : List (Label τ Q)} (h0 : s₀.Fresh)
    (hrun : Run Step s₀ ls s) {t : τ} {c : PollCall Q} (hsleep : s.place t = .sleeping c) {q : Q}
    (hq : q ∈ c.queues) :
    ∃ need after, Own ls t c.qmx q need after ∧
      ((s.queue q).qmuxer = some c.qmx ↔
        ∀ m, lastMeeting q after = some m → m.registration = some c.qmx) ∧
      (lastMeeting q after = none → (s.queue q).type = need ∧
        ∀ s' i o, Step s (.op q i o) s' → EventHappens (s.queue q).view (s'.queue q).view →
          (∀ f, i ≠ .enter (.clear f)) → s'.place t = .woken c .signaled) := by
  have hcarried : Carried ls s := by
    refine Run.invariant_history Carried (fun ls s l s' _ h hstep => h.step hstep) ?_ hrun
    intro t
    rw [h0.idle t]
    trivial
  have hcov := hcarried t
  rw [hsleep] at hcov
  obtain ⟨x, hx, hbbq⟩ := List.mem_filterMap.mp hq
  obtain ⟨need, after, hown, hreg⟩ := hcov x hx q hbbq
  refine ⟨need, after, hown, ?_, fun hnone => ⟨(hreg hnone).2, fun s' i o hstep hevent hi => ?_⟩⟩
  · rw [reachable_qmuxer h0 hrun q]
    exact hown.registration_iff
  · exact event_wakes hstep hsleep (hreg hnone).1 hevent hi

/-- An empty buffer, which two threads poll. -/
def oneQueue : System Bool Unit where
  queue _ := oneByte
  place _ := .idle

/-- A poll object that asks the queue for a value. -/
def forValue : Option (Poll Unit) :=
  some { bbq := some (), type := .readable, qSize := 0, qRemCapacity := 0 }

/-- Two threads poll the queue one after the other, and both sleep: the second
one's muxer is registered, the first one's was overwritten by a meeting since. -/
theorem sleeper_registered_two :
    ∃ (s : System Bool Unit) (ls : List (Label Bool Unit)) (c c' : PollCall Unit),
      Run Step oneQueue ls s ∧ s.place true = .sleeping c ∧ s.place false = .sleeping c' ∧
      c.qmx = 7 ∧ c'.qmx = 9 ∧ (s.queue ()).qmuxer = some 9 ∧
      (∃ need after, Own ls true 7 () need after ∧
        ∃ m, lastMeeting () after = some m ∧ m.registration ≠ some 7) ∧
      ∃ need after, Own ls false 9 () need after ∧
        ∀ m, lastMeeting () after = some m → m.registration = some 9 := by
  have hrun : ∃ p c c', exec next oneQueue
        [.call true ⟨some 7, some [forValue], -1⟩, .go true, .go true, .go true,
          .call false ⟨some 9, some [forValue], -1⟩, .go false, .go false, .go false] = some p ∧
      p.2.place true = .sleeping c ∧ p.2.place false = .sleeping c' ∧ c.qmx = 7 ∧ c'.qmx = 9 ∧
      () ∈ c.queues ∧ () ∈ c'.queues ∧ (p.2.queue ()).qmuxer = some 9 :=
    ⟨_, _, _, rfl, rfl, rfl, rfl, rfl, List.mem_cons_self, List.mem_cons_self, rfl⟩
  obtain ⟨⟨ls, s⟩, c, c', hexec, hfirst, hsecond, hqmx, hqmx', hq, hq', hreg⟩ := hrun
  have hs := run_of_exec hexec
  have hreg : (s.queue ()).qmuxer = some 9 := hreg
  have hfresh : oneQueue.Fresh := ⟨fun _ => rfl, fun _ => rfl⟩
  obtain ⟨need, after, hown, hiff, -⟩ := sleeper_registered_iff hfresh hs hfirst hq
  obtain ⟨need', after', hown', hiff', -⟩ := sleeper_registered_iff hfresh hs hsecond hq'
  -- the registration is the second one's
  rw [hqmx, hreg] at hiff
  rw [hqmx', hreg] at hiff'
  rw [hqmx] at hown
  rw [hqmx'] at hown'
  have hover : ¬ ∀ m, lastMeeting () after = some m → m.registration = some 7 :=
    fun hall => absurd (hiff.mpr hall) (by decide)
  push Not at hover
  exact ⟨s, ls, c, c', hs, hfirst, hsecond, hqmx, hqmx', hreg, ⟨need, after, hown, hover⟩, need',
    after', hown', hiff'.mp rfl⟩

/-- A second poll of the queue, with a muxer of its own, takes the place of the
first one, and a put then wakes the second poller only. -/
theorem sleeper_overwritten :
    ∃ (s s' : System Bool Unit) (ls : List (Label Bool Unit)) (c c' : PollCall Unit),
      oneQueue.Fresh ∧ Run Step oneQueue ls s ∧ s.place true = .sleeping c ∧ () ∈ c.queues ∧
      needWait (s.queue ()) .readable = .readable ∧ (s.queue ()).qmuxer ≠ some c.qmx ∧
      Step s (.op () (.enter (.put (some [8]) 5))
        (.returned { result := .ok, notified := [9] })) s' ∧
      s'.place true = .sleeping c ∧ s'.place false = .woken c' .signaled := by
  have hrun : ∃ p q c c', exec next oneQueue
        [.call true ⟨some 7, some [forValue], -1⟩, .go true, .go true, .go true,
          .call false ⟨some 9, some [forValue], -1⟩, .go false, .go false, .go false] = some p ∧
      p.2.place true = .sleeping c ∧ () ∈ c.queues ∧
      needWait (p.2.queue ()) .readable = .readable ∧ (p.2.queue ()).qmuxer = some 9 ∧
      c.qmx = 7 ∧ next p.2 (.op () (.enter (.put (some [8]) 5))) = some q ∧
      q.1 = .op () (.enter (.put (some [8]) 5)) (.returned { result := .ok, notified := [9] }) ∧
      q.2.place true = .sleeping c ∧ q.2.place false = .woken c' .signaled :=
    ⟨_, _, _, _, rfl, rfl, List.mem_cons_self, rfl, rfl, rfl, rfl, rfl, rfl, rfl⟩
  obtain ⟨⟨ls, s⟩, ⟨l, s'⟩, c, c', hexec, hsleep, hq, hlacks, hreg, hqmx, hnext, rfl, hstill,
    hother⟩ := hrun
  have hfresh : oneQueue.Fresh := ⟨fun _ => rfl, fun _ => rfl⟩
  have hne : (s.queue ()).qmuxer ≠ some c.qmx := by
    rw [hqmx, show (s.queue ()).qmuxer = _ from hreg]
    decide
  exact ⟨s, s', ls, c, c', hfresh, run_of_exec hexec, hsleep, hq, hlacks, hne, ⟨_, hnext⟩, hstill,
    hother⟩

end Mccp.Qmuxer
