/-
  Mccp.Qmuxer.Flow
  ────────────────
  **WHAT GOES THROUGH A QUEUE THAT IS POLLED.**

  Any number of threads put values into the queues and get them out again, while
  others poll.  A queue that is never cleared hands out what was put into it,
  oldest first: as long as it is open, what it has not handed out yet is what it
  holds.  Polls change nothing of that, for they write registrations only.

      putBy / gotBy   — the values that a call has moved
      Fifo.seg_flow   — one call of the bounded list
      Carries         — a queue, with what went in and out
      Carries.step    — one step of pollers and of everybody else
-/
import Mccp.Cbuffer.Fate
import Mccp.Qmuxer.Registration

namespace Mccp.Cbuffer

open Monitor

/-! ## §1. The values that a call moves. -/

/-- What a call that returned has put in. -/
def putBy (i : Input Call Cont) (r : Seen) : List Value :=
  if r.result = .ok then (putValue i).toList else []

/-- What a call that returned has taken out. -/
def gotBy (i : Input Call Cont) (r : Seen) : List Value :=
  if isGet i then r.val.toList else []

namespace Fifo

variable {es cap : Nat} {delProc : Bool} {q q' : Fifo cap} {i : Input Call Cont} {r : Seen}
  {ns : List Cond}

/-- What a segment that returned has done to the list. -/
structure Flow (i : Input Call Cont) (q : Fifo cap) (r : Seen) (q' : Fifo cap) : Prop where
  opened : q'.isOpen = true →
    q.isOpen = true ∧ q.items ++ putBy i r = gotBy i r ++ q'.items
  closed : q'.isOpen = false → putBy i r = [] ∧ gotBy i r = []
  closes : q.isOpen = true → q'.isOpen = false → ∃ b, i = .enter (.shutdown b)

/-- A call that moves nothing, and leaves the list as it is. -/
theorem Flow.idle (hp : putBy i r = []) (hg : gotBy i r = []) : Flow i q r q := by
  refine ⟨fun h => ⟨h, ?_⟩, fun _ => ⟨hp, hg⟩, fun ho hc => absurd (ho.symm.trans hc) (by decide)⟩
  rw [hp, hg, List.append_nil, List.nil_append]

theorem put_flow {val : Value} {nsec : Int} (hi : putValue i = some val) (hg : isGet i = false)
    (hseg : q.put val nsec = .ret q' r ns) : Flow i q r q' := by
  have hgot : gotBy i r = [] := by simp [gotBy, hg]
  unfold put at hseg
  split at hseg
  next hopen =>
    split at hseg
    next hroom =>
      injection hseg with hq hr
      subst hq hr
      refine ⟨fun _ => ⟨hopen, ?_⟩, fun h => absurd (h.symm.trans hopen) (by decide),
        fun _ h => absurd (h.symm.trans hopen) (by decide)⟩
      simp [putBy, gotBy, hi, hg, push]
    next => exact absurd hseg (by simp)
  next =>
    injection hseg with hq hr
    subst hq hr
    exact .idle (by simp [putBy, Result.notOperational, Result.ok]) hgot

theorem get_flow {nsec : Int} (hi : putValue i = none) (hg : isGet i = true)
    (hseg : q.get nsec = .ret q' r ns) : Flow i q r q' := by
  have hput : putBy i r = [] := by simp [putBy, hi]
  unfold get at hseg
  split at hseg
  next hopen =>
    split at hseg
    next v vs hitems =>
      injection hseg with hq hr
      subst hq hr
      refine ⟨fun _ => ⟨hopen, ?_⟩, fun h => absurd (h.symm.trans hopen) (by decide),
        fun _ h => absurd (h.symm.trans hopen) (by decide)⟩
      simp [putBy, gotBy, hi, hg, pop, hitems]
    next => exact absurd hseg (by simp)
  next =>
    injection hseg with hq hr
    subst hq hr
    exact .idle hput (by simp [gotBy])

/-- A call that neither puts nor gets, and leaves the list as it is or closes it. -/
theorem other_flow (hi : putValue i = none) (hg : isGet i = false)
    (hq : q' = q ∨ q'.isOpen = false ∧ ∃ b, i = .enter (.shutdown b)) : Flow i q r q' := by
  have hput : putBy i r = [] := by simp [putBy, hi]
  have hgot : gotBy i r = [] := by simp [gotBy, hg]
  rcases hq with rfl | ⟨hclosed, hdown⟩
  · exact .idle hput hgot
  · exact ⟨fun h => absurd (h.symm.trans hclosed) (by decide), fun _ => ⟨hput, hgot⟩,
      fun _ _ => hdown⟩

theorem peek_frame {nsec : Int} (hseg : q.peek nsec = .ret q' r ns) : q' = q := by
  unfold peek at hseg
  split at hseg
  · split at hseg
    · injection hseg with hq
      exact hq.symm
    · exact absurd hseg (by simp)
  · injection hseg with hq
    exact hq.symm

/-- A call with wrong arguments. -/
theorem bad_flow (hseg : (.ret q { result := .invalidArgs } [] : Segment cap) = .ret q' r ns) :
    Flow i q r q' := by
  injection hseg with hq hr
  subst hq hr
  exact .idle (by simp [putBy, Result.invalidArgs, Result.ok]) (by simp [gotBy])

/-- The end of a wait that did not succeed. -/
theorem failed_flow {w : Wakeup} (hw : w ≠ .signaled)
    (hseg : (.ret q { result := waitError w } [] : Segment cap) = .ret q' r ns) :
    Flow i q r q' := by
  injection hseg with hq hr
  subst hq hr
  have hne : waitError w ≠ .ok := by
    cases w with
    | signaled => exact absurd rfl hw
    | timedout => decide
    | failed => decide
  exact .idle (by simp [putBy, hne]) (by simp [gotBy])

/-- A new call. -/
theorem enter_flow {c : Call} (hclear : ∀ f, c ≠ .clear f)
    (hseg : q.enter es delProc c = .ret q' r ns) : Flow (.enter c) q r q' := by
  -- a query returns the list itself
  have hsame : ∀ {q'' : Fifo cap} {r' : Seen} {ns' : List Cond}, putValue (.enter c) = none →
      isGet (.enter c) = false → (.ret q r' ns' : Segment cap) = .ret q'' r ns →
      Flow (.enter c) q r q'' := by
    intro q'' r' ns' hp hg h
    injection h with hq
    exact other_flow hp hg (.inl hq.symm)
  cases c with
  | put val nsec =>
    cases val with
    | none => exact bad_flow hseg
    | some v =>
      simp only [enter] at hseg
      split at hseg
      · exact put_flow rfl rfl hseg
      · exact bad_flow hseg
  | get dst nsec =>
    simp only [enter] at hseg
    split at hseg
    · exact get_flow rfl rfl hseg
    · exact bad_flow hseg
  | peek dst nsec =>
    simp only [enter] at hseg
    split at hseg
    · exact other_flow rfl rfl (.inl (peek_frame hseg))
    · exact bad_flow hseg
  | clear f => exact absurd rfl (hclear f)
  | shutdown f =>
    simp only [enter] at hseg
    split at hseg
    · injection hseg with hq
      exact other_flow rfl rfl (.inr ⟨by rw [← hq]; rfl, f, rfl⟩)
    · exact hsame rfl rfl hseg
  | size => exact hsame rfl rfl hseg
  | remainingCapacity => exact hsame rfl rfl hseg
  | maxCapacity => exact hsame rfl rfl hseg
  | isFull retptr =>
    simp only [enter, flagQuery] at hseg
    split at hseg
    · split at hseg <;> exact hsame rfl rfl hseg
    · exact bad_flow hseg
  | isEmpty retptr =>
    simp only [enter, flagQuery] at hseg
    split at hseg
    · split at hseg <;> exact hsame rfl rfl hseg
    · exact bad_flow hseg
  | isOperational retptr =>
    simp only [enter] at hseg
    split at hseg
    · exact hsame rfl rfl hseg
    · exact bad_flow hseg
  | setupForQmuxer qmx type isPre =>
    simp only [enter, pollEvent] at hseg
    split at hseg
    · split at hseg <;> exact hsame rfl rfl hseg
    · exact bad_flow hseg

/-- **Every call but a clear moves its values in order.** -/
theorem seg_flow (hclear : ∀ f, i ≠ .enter (.clear f))
    (hseg : (code es cap delProc).seg q i = .ret q' r ns) : Flow i q r q' := by
  cases i with
  | enter c => exact enter_flow (fun f hc => hclear f (by rw [hc])) hseg
  | resume k w =>
    replace hseg : q.resume k w = .ret q' r ns := hseg
    cases w with
    | signaled =>
      cases k with
      | put val nsec => exact put_flow rfl rfl hseg
      | get nsec => exact get_flow rfl rfl hseg
      | peek nsec => exact other_flow rfl rfl (.inl (peek_frame hseg))
    | timedout => exact failed_flow (by decide) hseg
    | failed => exact failed_flow (by decide) hseg

/-- A call that goes to sleep leaves the list as it is. -/
theorem seg_wait {k : Cont} {c : Cond} (hseg : (code es cap delProc).seg q i = .wait q' k c ns) :
    q' = q := by
  have hput : ∀ {v : Value} {nsec : Int}, q.put v nsec = .wait q' k c ns → q' = q := by
    grind [put]
  have hget : ∀ {nsec : Int}, q.get nsec = .wait q' k c ns → q' = q := by
    grind [get]
  have hpeek : ∀ {nsec : Int}, q.peek nsec = .wait q' k c ns → q' = q := by
    grind [peek]
  cases i with
  | enter call =>
    replace hseg : q.enter es delProc call = .wait q' k c ns := hseg
    cases call <;> simp only [enter, query, flagQuery, pollEvent] at hseg
    all_goals grind
  | resume k' w =>
    replace hseg : q.resume k' w = .wait q' k c ns := hseg
    cases w with
    | signaled =>
      cases k' with
      | put v nsec => exact hput hseg
      | get nsec => exact hget hseg
      | peek nsec => exact hpeek hseg
    | timedout => exact absurd hseg (by simp [resume])
    | failed => exact absurd hseg (by simp [resume])

end Fifo

end Mccp.Cbuffer

namespace Mccp.Qmuxer

open Cbuffer Monitor Transition

variable {τ Q : Type} {es cap : Nat} {delProc : Bool}

/-! ## §2. The record. -/

/-- What an outcome of a call on a queue has moved, by `f`. -/
def movedBy (f : Input Call Cont → Seen → List Value) (i : Input Call Cont) :
    Outcome Cont Ret Cond Stop → List Value
  | .returned r => f i r.toSeen
  | _ => []

/-- The write index grows by what is put in. -/
theorem wIdx_le_puts (hz : Sizes es cap) {cb : Record} {f : Fifo cap}
    (h : Holds es cap delProc cb f) (hend : cb.wIdx < 2 ^ 63 - 1) {i : Input Call Cont}
    (hclear : ∀ b, i ≠ .enter (.clear b)) {n : Nat} (hn : cb.wIdx ≤ n) :
    ((code.seg cb i).stateOr cb).wIdx ≤
      (n + (movedBy putBy i (code.seg cb i).outcome).length : Nat) := by
  refine (wIdx_le_countPut hz h hend hn () i).trans ?_
  have hok : ∀ (v : Value) (o : Outcome Cont Ret Cond Stop), putValue i = some v →
      countOk n o ≤ n + (movedBy putBy i o).length := by
    intro v o hi
    cases o with
    | returned r =>
      simp only [countOk, movedBy, putBy, hi]
      split <;> simp
    | slept k c => exact Nat.le_add_right n _
    | halted x => exact Nat.le_add_right n _
  rw [Int.ofNat_le]
  cases i with
  | enter c =>
    cases c with
    | put val nsec =>
      cases val with
      | some v => exact hok v _ rfl
      | none => exact Nat.le_add_right n _
    | clear b => exact absurd rfl (hclear b)
    | _ => exact Nat.le_add_right n _
  | resume k w =>
    cases k with
    | put v nsec => exact hok v _ rfl
    | _ => exact Nat.le_add_right n _

/-- A pass writes the registration only. -/
theorem visit_holds {cb : Record} {f : Fifo cap} (h : Holds es cap delProc cb f) (qmx : Qmuxer)
    (mp : Poll Q) (isPre : Bool) : Holds es cap delProc (visit cb qmx mp isPre).1 f := by
  have hreg : ∀ x t, Holds es cap delProc { cb with qmuxer := x, type := t } f := by
    intro x t
    exact { h with }
  unfold visit setupForQmuxer
  simp only []
  split
  · split <;> exact hreg _ _
  · exact h

theorem visit_wIdx (cb : Record) (qmx : Qmuxer) (mp : Poll Q) (isPre : Bool) :
    (visit cb qmx mp isPre).1.wIdx = cb.wIdx :=
  setupForQmuxer_wIdx cb (some qmx) mp.type isPre

variable [DecidableEq Q]

/-! ## §3. Runs. -/

/-- What a step has moved in or out of the queue. -/
def moved (f : Input Call Cont → Seen → List Value) (q : Q) : Label τ Q → List Value
  | .op q' i o => if q' = q then movedBy f i o else []
  | _ => []

/-- The values that were put into the queue, in order. -/
def sent (q : Q) (ls : List (Label τ Q)) : List Value := ls.flatMap (moved putBy q)

/-- The values that were handed out, in order. -/
def received (q : Q) (ls : List (Label τ Q)) : List Value := ls.flatMap (moved gotBy q)

theorem sent_snoc (q : Q) (ls : List (Label τ Q)) (l : Label τ Q) :
    sent q (ls ++ [l]) = sent q ls ++ moved putBy q l := by
  simp [sent]

theorem received_snoc (q : Q) (ls : List (Label τ Q)) (l : Label τ Q) :
    received q (ls ++ [l]) = received q ls ++ moved gotBy q l := by
  simp [received]

/-- **A queue, and what went through it.** -/
structure Carries (es cap : Nat) (delProc : Bool) (q : Q) (ls : List (Label τ Q))
    (s : System τ Q) (f : Fifo cap) : Prop where
  holds : Holds es cap delProc (s.queue q) f
  wIdx_le : (s.queue q).wIdx ≤ (sent q ls).length
  opened : f.isOpen = true → sent q ls = received q ls ++ f.items
  inOrder : received q ls <+: sent q ls

variable {s s' : System τ Q} {ls : List (Label τ Q)} {l : Label τ Q} {q : Q} {f : Fifo cap}

/-- A step that leaves the queue's list alone, and moves nothing. -/
theorem Carries.keep (h : Carries es cap delProc q ls s f)
    (hholds : Holds es cap delProc (s'.queue q) f) (hw : (s'.queue q).wIdx ≤ (sent q ls).length)
    (hput : moved putBy q l = []) (hgot : moved gotBy q l = []) :
    Carries es cap delProc q (ls ++ [l]) s' f := by
  refine ⟨hholds, ?_, ?_, ?_⟩
  · rw [sent_snoc, hput, List.append_nil]
    exact hw
  · rw [sent_snoc, received_snoc, hput, hgot, List.append_nil, List.append_nil]
    exact h.opened
  · rw [sent_snoc, received_snoc, hput, hgot, List.append_nil, List.append_nil]
    exact h.inOrder

/-- A call on the queue that has returned. -/
theorem Carries.returned (h : Carries es cap delProc q ls s f)
    {i : Input Call Cont} {cb : Record} {r : Ret} {f' : Fifo cap} (hqueue : s'.queue q = cb)
    (hholds : Holds es cap delProc cb f') (hflow : Fifo.Flow i f r.toSeen f')
    (hw : cb.wIdx ≤ ((sent q ls).length + (putBy i r.toSeen).length : Nat)) :
    Carries es cap delProc q (ls ++ [.op q i (.returned r)]) s' f' := by
  have hput : moved putBy q (.op q i (.returned r) : Label τ Q) = putBy i r.toSeen := if_pos rfl
  have hgot : moved gotBy q (.op q i (.returned r) : Label τ Q) = gotBy i r.toSeen := if_pos rfl
  refine ⟨hqueue ▸ hholds, ?_, ?_, ?_⟩
  · rw [sent_snoc, hput, List.length_append, hqueue]
    exact hw
  · intro hopen
    obtain ⟨hopen₀, hitems⟩ := hflow.opened hopen
    rw [sent_snoc, received_snoc, hput, hgot, h.opened hopen₀, List.append_assoc, hitems,
      List.append_assoc]
  · rw [sent_snoc, received_snoc, hput, hgot]
    cases hopen : f'.isOpen with
    | true =>
      obtain ⟨hopen₀, hitems⟩ := hflow.opened hopen
      rw [h.opened hopen₀, List.append_assoc, hitems, ← List.append_assoc]
      exact List.prefix_append _ _
    | false =>
      obtain ⟨hp, hg⟩ := hflow.closed hopen
      rw [hp, hg, List.append_nil, List.append_nil]
      exact h.inOrder

/-- What a call on a queue does, next to what it does to the list. -/
theorem Carries.call (hz : Sizes es cap) (h : Carries es cap delProc q ls s f)
    (hb : (sent q ls).length < 2 ^ 63 - 1) {i : Input Call Cont}
    (hk : ∀ k w, i = .resume k w → ContOk es k) :
    (code.seg (s.queue q) i).Sim (Holds es cap delProc) (ContOk es) Ret.toSeen
      ((Fifo.code es cap delProc).seg f i) := by
  have hend : (s.queue q).wIdx < 2 ^ 63 - 1 := by
    have := h.wIdx_le
    omega
  exact h.holds.seg hz hend i hk

/-- **No call stops the process.** -/
theorem Carries.not_halted (hz : Sizes es cap) (h : Carries es cap delProc q ls s f)
    (hb : (sent q ls).length < 2 ^ 63 - 1) {i : Input Call Cont}
    (hk : ∀ k w, i = .resume k w → ContOk es k) (x : Stop) : code.seg (s.queue q) i ≠ .halt x := by
  intro hx
  have hsim := h.call hz hb hk
  have hne := Fifo.seg_ne_halt es delProc f i
  rw [hx] at hsim
  cases ha : (Fifo.code es cap delProc).seg f i with
  | halt y => exact hne y ha
  | ret _ _ _ =>
    rw [ha] at hsim
    exact hsim
  | wait _ _ _ _ =>
    rw [ha] at hsim
    exact hsim

variable [DecidableEq τ]

/-- **One step of any thread**, that does not clear the queue. -/
theorem Carries.step (hz : Sizes es cap) (h : Carries es cap delProc q ls s f)
    (hb : (sent q ls).length < 2 ^ 63 - 1) (hstep : Step s l s')
    (hk : ∀ k w o, l = .op q (.resume k w) o → ContOk es k)
    (hclear : ∀ b o, l ≠ .op q (.enter (.clear b)) o) :
    ∃ f' : Fifo cap, Carries es cap delProc q (ls ++ [l]) s' f' ∧
      (f'.isOpen = false → f.isOpen = true → ∃ b o, l = .op q (.enter (.shutdown b)) o) := by
  -- a step that does not touch the queue
  have hkeep : s'.queue q = s.queue q → moved putBy q l = [] → moved gotBy q l = [] →
      ∃ f' : Fifo cap, Carries es cap delProc q (ls ++ [l]) s' f' ∧
        (f'.isOpen = false → f.isOpen = true → ∃ b o, l = .op q (.enter (.shutdown b)) o) := by
    intro hsame hput hgot
    refine ⟨f, h.keep (hsame ▸ h.holds) (hsame ▸ h.wIdx_le) hput hgot, fun hc ho => ?_⟩
    exact absurd (hc.symm.trans ho) (by decide)
  cases step_moves hstep with
  | refused t args => exact hkeep rfl rfl rfl
  | called args c hat => exact hkeep rfl rfl rfl
  | passed hat htodo => exact hkeep rfl rfl rfl
  | nullPoll hat c' => exact hkeep rfl rfl rfl
  | skipped hat x' htodo hx hpre hseen htodo' hnev => exact hkeep rfl rfl rfl
  | slept hat => exact hkeep rfl rfl rfl
  | awoke hat => exact hkeep rfl rfl rfl
  | returned hat => exact hkeep rfl rfl rfl
  | wake w hat => exact hkeep rfl rfl rfl
  | @visited t c p hat mp todo htodo q' hq place hplace =>
    by_cases hqq : q' = q
    · subst hqq
      refine ⟨f, h.keep ?_ ?_ rfl rfl, fun hc ho => absurd (hc.symm.trans ho) (by decide)⟩
      · show Holds es cap delProc (Function.update s.queue q' _ q') f
        rw [Function.update_self]
        exact visit_holds h.holds c.qmx mp p.isPre
      · show (Function.update s.queue q' _ q').wIdx ≤ _
        rw [Function.update_self]
        exact (visit_wIdx _ c.qmx mp p.isPre).trans_le h.wIdx_le
    · exact hkeep (Function.update_of_ne (Ne.symm hqq) ..) rfl rfl
  | op q' i hi =>
    by_cases hqq : q' = q
    · subst hqq
      have hno : ∀ b, i ≠ .enter (.clear b) :=
        fun b hib => hclear b (code.seg (s.queue q') i).outcome (by rw [← hib])
      have hcont : ∀ k w, i = .resume k w → ContOk es k :=
        fun k w hiw => hk k w (code.seg (s.queue q') i).outcome (by rw [← hiw])
      have hend : (s.queue q').wIdx < 2 ^ 63 - 1 := by
        have := h.wIdx_le
        omega
      have hw := wIdx_le_puts hz h.holds hend hno h.wIdx_le
      have hsim := h.call hz hb hcont
      have hnot := h.not_halted hz hb hcont
      have hself : ∀ cb, Function.update s.queue q' cb q' = cb := fun cb => Function.update_self ..
      generalize code.seg (s.queue q') i = sg at hsim hw hnot ⊢
      generalize ha : (Fifo.code es cap delProc).seg f i = sa at hsim
      cases sg with
      | ret cb r ns =>
        cases sa with
        | ret f' r' ns' =>
          obtain ⟨hholds, rfl, -⟩ := hsim
          have hflow := Fifo.seg_flow hno ha
          refine ⟨f', h.returned (hself cb) hholds hflow hw, fun hc ho => ?_⟩
          obtain ⟨b, rfl⟩ := hflow.closes ho hc
          exact ⟨b, _, rfl⟩
        | _ => exact hsim.elim
      | wait cb k c ns =>
        cases sa with
        | wait f' k' c' ns' =>
          obtain rfl := Fifo.seg_wait ha
          refine ⟨f', h.keep ?_ ?_ (if_pos rfl) (if_pos rfl), fun hc ho => ?_⟩
          · show Holds es cap delProc (Function.update s.queue q' cb q') f'
            rw [hself]
            exact hsim.1
          · show (Function.update s.queue q' cb q').wIdx ≤ _
            rw [hself]
            exact hw
          · exact absurd (hc.symm.trans ho) (by decide)
        | _ => exact hsim.elim
      | halt x => exact absurd rfl (hnot x)
    · exact hkeep (Function.update_of_ne (Ne.symm hqq) ..) (if_neg hqq) (if_neg hqq)

/-- The outcome of a call is that of its segment. -/
theorem step_outcome {i : Input Call Cont} {o : Outcome Cont Ret Cond Stop}
    (hstep : Step s (.op q i o) s') : o = (code.seg (s.queue q) i).outcome := by
  cases step_moves hstep with
  | op _ _ hi => rfl

/-- The size of a queue is the number of values that it still has to hand out. -/
theorem Carries.size (hz : Sizes es cap) (h : Carries es cap delProc q ls s f)
    (hb : (sent q ls).length < 2 ^ 63 - 1) {o : Outcome Cont Ret Cond Stop}
    (hstep : Step s (.op q (.enter .size) o) s') :
    ∃ r, o = .returned r ∧
      r.result = if f.isOpen then (f.items.length : Int) else Result.notOperational := by
  have hsim := h.call hz hb (i := .enter .size) (by simp)
  rw [step_outcome hstep]
  obtain ⟨-, hr, -⟩ := hsim
  exact ⟨_, rfl, congrArg Seen.result hr⟩

/-- **A get from a queue that has something to hand out** does not sleep. -/
theorem Carries.get (hz : Sizes es cap) (h : Carries es cap delProc q ls s f)
    (hb : (sent q ls).length < 2 ^ 63 - 1) {nsec : Int} {o : Outcome Cont Ret Cond Stop}
    (hstep : Step s (.op q (.enter (.get (some es) nsec)) o) s')
    (hsome : f.isOpen = true → (received q ls).length < (sent q ls).length) :
    ∃ r, o = .returned r ∧ ((f.isOpen = true ∧ r.result = .ok ∧ ∃ v, r.val = some v) ∨
      (f.isOpen = false ∧ r.result ≠ .ok ∧ r.val = none)) := by
  have hsim := h.call hz hb (i := .enter (.get (some es) nsec)) (by simp)
  rw [step_outcome hstep]
  have hseg : (Fifo.code es cap delProc).seg f (.enter (.get (some es) nsec)) = f.get nsec :=
    if_pos rfl
  rw [hseg] at hsim
  unfold Fifo.get at hsim
  generalize code.seg (s.queue q) (.enter (.get (some es) nsec)) = sg at hsim ⊢
  cases hopen : f.isOpen with
  | true =>
    rw [if_pos hopen] at hsim
    cases hitems : f.items with
    | nil =>
      have hall := h.opened hopen
      have hlt := hsome hopen
      rw [hall, hitems, List.append_nil] at hlt
      exact absurd hlt (Nat.lt_irrefl _)
    | cons v vs =>
      rw [hitems] at hsim
      cases sg with
      | ret cb r ns =>
        exact ⟨r, rfl, .inl ⟨rfl, congrArg Seen.result hsim.2.1, v, congrArg Seen.val hsim.2.1⟩⟩
      | _ => exact hsim.elim
  | false =>
    rw [if_neg (by simp [hopen])] at hsim
    cases sg with
    | ret cb r ns =>
      have hres : r.result = .notOperational := congrArg Seen.result hsim.2.1
      exact ⟨r, rfl, .inr ⟨rfl, by rw [hres]; decide, congrArg Seen.val hsim.2.1⟩⟩
    | _ => exact hsim.elim

/-- A put that goes to sleep wakes up with the value that it was called with. -/
theorem slept_put {i : Input Call Cont} {v : Value} {nsec : Int} {k : Cont} {c : Cond}
    (hi : i = .enter (.put (some v) nsec) ∨ ∃ w, i = .resume (.put v nsec) w)
    (hstep : Step s (.op q i (.slept k c)) s') : k = .put v nsec := by
  have hout := step_outcome hstep
  have hput : ∀ {cb : Record}, (putRecheck cb v nsec).outcome = .slept k c → k = .put v nsec := by
    intro cb h
    unfold putRecheck at h
    grind [Seg.outcome]
  rcases hi with rfl | ⟨w, rfl⟩
  · simp only [code, enter] at hout
    split at hout
    · exact hput hout.symm
    · exact absurd hout (by simp [Seg.outcome])
  · cases w with
    | signaled => exact hput hout.symm
    | timedout => exact absurd hout (by simp [code, resume, Seg.outcome])
    | failed => exact absurd hout (by simp [code, resume, Seg.outcome])

end Mccp.Qmuxer
