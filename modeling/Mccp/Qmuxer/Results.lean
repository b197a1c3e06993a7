/-
  Mccp.Qmuxer.Results
  ───────────────────
  **WHAT THE RESULT OF A POLL MEANS.**

  A poll alternates two passes with different rules: the pre-wait pass returns
  the first error it meets, the post-wait pass forgets its errors and goes on
  counting.  So a queue that was shut down is reported by the next pre-wait
  pass only, which is why a poll that it has woken does not sleep again.

      Does                  — what a thread does, whatever queues it meets
      Story                 — what it has done so far, told from where it is
      Aftermath             — the same, from the shutdown of a queue on
      poll_result_meaning   — every run, from the call to its return
-/
import Mathlib.Data.List.Forall2
import Mccp.Qmuxer.Sleepers

namespace Mccp.Qmuxer

open Cbuffer Monitor Transition

variable {τ Q : Type}

/-! ## §1. One thread by itself. -/

/-- The thread that makes the step. -/
def Label.thread : Label τ Q → Option τ
  | .call t _ => some t
  | .visit t _ _ _ _ _ => some t
  | .skip t => some t
  | .passed t _ _ => some t
  | .sleep t => some t
  | .wake t _ => some t
  | .awake t _ => some t
  | .ret t _ _ => some t
  | .op _ _ _ => none

/-- The step begins or ends a call of the thread. -/
def Bounds (t : τ) : Label τ Q → Prop
  | .call u _ => u = t
  | .ret u _ _ => u = t
  | _ => False

instance [DecidableEq τ] (t : τ) : DecidablePred (Bounds t : Label τ Q → Prop)
  | .call u _ => inferInstanceAs (Decidable (u = t))
  | .ret u _ _ => inferInstanceAs (Decidable (u = t))
  | .visit .. => inferInstanceAs (Decidable False)
  | .skip .. => inferInstanceAs (Decidable False)
  | .passed .. => inferInstanceAs (Decidable False)
  | .sleep .. => inferInstanceAs (Decidable False)
  | .wake .. => inferInstanceAs (Decidable False)
  | .awake .. => inferInstanceAs (Decidable False)
  | .op .. => inferInstanceAs (Decidable False)

/-- **What a thread does in a poll**, whatever it learns of the queues: those can
change between any two steps. -/
inductive Does (t : τ) : Place Q → Label τ Q → Place Q → Prop
  | passed {c : PollCall Q} {p : Pass Q} (htodo : p.todo = []) :
      Does t (.passing c p) (.passed t p.isPre p.result)
        (afterPass { c with polls := p.polls } p.isPre p.result)
  | nullPoll {c : PollCall Q} {p : Pass Q} (c' : PollCall Q) (hpre : p.isPre = true) :
      Does t (.passing c p) (.skip t) (.returning c' .invalidArgs)
  | skipped {c : PollCall Q} {p : Pass Q} {x x' : Option (Poll Q)} {todo : List (Option (Poll Q))}
      {nNulls : Nat} (htodo : p.todo = x :: todo) (hx : x.bind Poll.bbq = none)
      (hx' : x'.bind Poll.bbq = none) (hnulls : nNulls ≤ p.nNulls + 1) :
      Does t (.passing c p) (.skip t)
        (.passing c { p with seen := x' :: p.seen, todo := todo, nNulls := nNulls })
  | visited {c : PollCall Q} {p : Pass Q} {mp mp' : Poll Q} {todo : List (Option (Poll Q))} {q : Q}
      (operational : Bool) (need : PollEvent) (htodo : p.todo = some mp :: todo)
      (hq : mp.bbq = some q) (hq' : mp'.bbq = some q) (hgo : p.isPre = true → operational = true) :
      Does t (.passing c p) (.visit t c.qmx p.isPre q operational need)
        (.passing c { p with
          seen := some mp' :: p.seen
          todo := todo
          nev := if operational ∧ need = .unknown then p.nev + 1 else p.nev })
  /-- A pre-wait pass meets a queue that was shut down. -/
  | aborted {c : PollCall Q} {p : Pass Q} (q : Q) (need : PollEvent) (c' : PollCall Q)
      (hpre : p.isPre = true) :
      Does t (.passing c p) (.visit t c.qmx p.isPre q false need) (.returning c' .notOperational)
  | slept (c : PollCall Q) : Does t (.locking c) (.sleep t) (.sleeping c)
  | wake (c : PollCall Q) (w : Wakeup) : Does t (.sleeping c) (.wake t w) (.woken c w)
  | checks (c : PollCall Q) :
      Does t (.woken c .signaled) (.awake t .signaled) (.passing c (Pass.start false c.polls))
  | gaveUp (c : PollCall Q) {w : Wakeup} (hw : w ≠ .signaled) :
      Does t (.woken c w) (.awake t w) (.returning c (waitError w))

/-- What a visit returns. -/
theorem visit_result (cb : Record) (qmx : Qmuxer) (mp : Poll Q) (isPre : Bool) :
    (visit cb qmx mp isPre).2.1 =
      if cb.isOperational then ((needWait cb mp.type).bits : Int) else Result.notOperational := by
  unfold visit setupForQmuxer
  simp only []
  split
  next => split <;> rfl
  next => rfl

/-- It fails if and only if the queue was shut down. -/
theorem visit_neg (cb : Record) (qmx : Qmuxer) (mp : Poll Q) (isPre : Bool) :
    (visit cb qmx mp isPre).2.1 < 0 ↔ cb.isOperational = false := by
  rw [visit_result]
  cases cb.isOperational with
  | false =>
    rw [if_neg Bool.false_ne_true]
    exact iff_of_true (by decide) rfl
  | true =>
    rw [if_pos rfl]
    exact iff_of_false (Int.not_lt.mpr (Int.natCast_nonneg _)) (by decide)

/-- It counts if and only if the queue is there and lacks nothing. -/
theorem visit_zero (cb : Record) (qmx : Qmuxer) (mp : Poll Q) (isPre : Bool) :
    (visit cb qmx mp isPre).2.1 = 0 ↔ cb.isOperational = true ∧ needWait cb mp.type = .unknown := by
  rw [visit_result]
  cases cb.isOperational with
  | false =>
    rw [if_neg Bool.false_ne_true]
    exact iff_of_false (by decide) (by simp)
  | true =>
    rw [if_pos rfl]
    cases needWait cb mp.type <;> decide

variable [DecidableEq τ] [DecidableEq Q] {s s' : System τ Q} {l : Label τ Q} {t : τ}

/-- One step of a pass. -/
theorem passStep_does (s : System τ Q) (t : τ) (c : PollCall Q) (p : Pass Q) :
    (passStep s t c p).1.thread = some t ∧
      Does t (.passing c p) (passStep s t c p).1 ((passStep s t c p).2.place t) := by
  unfold passStep
  split
  next htodo =>
    refine ⟨rfl, ?_⟩
    simp only [System.move, Function.update_self]
    exact .passed htodo
  next todo htodo =>
    split
    next hpre =>
      refine ⟨rfl, ?_⟩
      simp only [System.move, Function.update_self]
      exact .nullPoll _ hpre
    next =>
      refine ⟨rfl, ?_⟩
      simp only [System.move, Function.update_self]
      exact .skipped htodo rfl rfl (Nat.le_succ _)
  next mp todo htodo =>
    split
    next hbbq =>
      refine ⟨rfl, ?_⟩
      simp only [System.move, Function.update_self]
      have hbbq' : (some { mp with qSize := 0, qRemCapacity := 0 }).bind Poll.bbq = none := hbbq
      exact .skipped htodo hbbq hbbq' (Nat.le_refl _)
    next q hbbq =>
      have hbbq' := (visit_bbq (s.queue q) c.qmx mp p.isPre).trans hbbq
      simp only []
      split
      next hbad =>
        refine ⟨rfl, ?_⟩
        simp only [System.move, Function.update_self]
        have hdown := (visit_neg _ _ _ _).mp hbad.2
        rw [visit_result, hdown]
        exact .aborted q _ _ hbad.1
      next hgood =>
        refine ⟨rfl, ?_⟩
        simp only [System.move, Function.update_self]
        have hgo : p.isPre = true → (s.queue q).isOperational = true := by
          intro hpre
          by_contra hdown
          exact hgood ⟨hpre, (visit_neg _ _ _ _).mpr (Bool.eq_false_of_not_eq_true hdown)⟩
        have hdoes := Does.visited (t := t) (c := c) (s.queue q).isOperational
          (needWait (s.queue q) mp.type) htodo hbbq hbbq' hgo
        simp only [visit_zero]
        exact hdoes

/-- The thread that an action is for. -/
def Action.thread : Action τ Q → Option τ
  | .call t _ => some t
  | .go t => some t
  | .wake t _ => some t
  | .op _ _ => none

theorem next_thread {a : Action τ Q} (h : next s a = some (l, s')) : l.thread = a.thread := by
  cases a with
  | call u args =>
    simp only [next] at h
    split at h
    next =>
      split at h <;>
      · obtain ⟨rfl, -⟩ := Prod.mk.inj (Option.some.inj h)
        rfl
    next => exact absurd h (by simp)
  | go u =>
    simp only [next] at h
    split at h
    next => exact absurd h (by simp)
    next c p hat =>
      have hthread := (passStep_does s u c p).1
      rwa [Option.some.inj h] at hthread
    next =>
      obtain ⟨rfl, -⟩ := Prod.mk.inj (Option.some.inj h)
      rfl
    next => exact absurd h (by simp)
    next c w hat =>
      cases w <;>
      · obtain ⟨rfl, -⟩ := Prod.mk.inj (Option.some.inj h)
        rfl
    next =>
      obtain ⟨rfl, -⟩ := Prod.mk.inj (Option.some.inj h)
      rfl
  | wake u w =>
    simp only [next] at h
    split at h
    next =>
      split at h
      next =>
        obtain ⟨rfl, -⟩ := Prod.mk.inj (Option.some.inj h)
        rfl
      next => exact absurd h (by simp)
    next => exact absurd h (by simp)
  | op q i =>
    simp only [next] at h
    split at h
    next => exact absurd h (by simp)
    next =>
      split at h
      next =>
        obtain ⟨rfl, -⟩ := Prod.mk.inj (Option.some.inj h)
        rfl
      next =>
        obtain ⟨rfl, -⟩ := Prod.mk.inj (Option.some.inj h)
        rfl
      next => exact absurd h (by simp)

/-- A step of a thread is a call, one step on, or the end of its sleep. -/
theorem step_own (h : Step s l s') (hl : l.thread = some t) :
    (∃ args, next s (.call t args) = some (l, s')) ∨ next s (.go t) = some (l, s') ∨
      ∃ w, next s (.wake t w) = some (l, s') := by
  obtain ⟨a, ha⟩ := h
  rw [next_thread ha] at hl
  cases a with
  | call u args =>
    obtain rfl := Option.some.inj hl
    exact .inl ⟨args, ha⟩
  | go u =>
    obtain rfl := Option.some.inj hl
    exact .inr (.inl ha)
  | wake u w =>
    obtain rfl := Option.some.inj hl
    exact .inr (.inr ⟨w, ha⟩)
  | op q i => exact absurd hl (by simp [Action.thread])

/-- A step of a thread, between its calls and returns. -/
theorem step_does (h : Step s l s') (hl : l.thread = some t) (hin : ¬ Bounds t l) :
    Does t (s.place t) l (s'.place t) := by
  rcases step_own h hl with ⟨args, ha⟩ | ha | ⟨w, ha⟩
  · refine absurd ?_ hin
    simp only [next] at ha
    split at ha
    next =>
      split at ha <;>
      · obtain ⟨rfl, -⟩ := Prod.mk.inj (Option.some.inj ha)
        exact Option.some.inj hl
    next => exact absurd ha (by simp)
  · have hmoved : ∀ {place : Place Q} {l' : Label τ Q}, Does t (s.place t) l' place →
        some (l', s.move t place) = some (l, s') → Does t (s.place t) l (s'.place t) := by
      intro place l' hdoes heq
      obtain ⟨rfl, rfl⟩ := Prod.mk.inj (Option.some.inj heq)
      simp only [System.move, Function.update_self]
      exact hdoes
    simp only [next] at ha
    split at ha
    next => exact absurd ha (by simp)
    next c p hat =>
      have hdoes := (passStep_does s t c p).2
      rw [Option.some.inj ha] at hdoes
      rw [hat]
      exact hdoes
    next c hat => exact hmoved (hat ▸ .slept c) ha
    next => exact absurd ha (by simp)
    next c w hat =>
      cases w with
      | signaled => exact hmoved (hat ▸ .checks c) ha
      | timedout => exact hmoved (hat ▸ .gaveUp c (by decide)) ha
      | failed => exact hmoved (hat ▸ .gaveUp c (by decide)) ha
    next c r hat =>
      obtain ⟨rfl, -⟩ := Prod.mk.inj (Option.some.inj ha)
      exact absurd (Option.some.inj hl) hin
  · simp only [next] at ha
    split at ha
    next c hat =>
      split at ha
      next =>
        obtain ⟨rfl, rfl⟩ := Prod.mk.inj (Option.some.inj ha)
        rw [hat]
        simp only [System.move, Function.update_self]
        exact .wake c w
      next => exact absurd ha (by simp)
    next => exact absurd ha (by simp)

/-- A step of no thread, or of another one, can only wake this one. -/
theorem step_other (h : Step s l s') (hl : l.thread ≠ some t) :
    s'.place t = s.place t ∨ ∃ c, s.place t = .sleeping c ∧ s'.place t = .woken c .signaled := by
  have hmove : ∀ {u : τ} (place : Place Q), some u ≠ some t →
      Function.update s.place u place t = s.place t := by
    intro u place hne
    exact Function.update_of_ne (fun heq => hne (congrArg some heq.symm)) _ _
  cases step_moves h with
  | refused u args => exact .inl rfl
  | called args c hat => exact .inl (hmove _ hl)
  | passed hat htodo => exact .inl (hmove _ hl)
  | nullPoll hat c' => exact .inl (hmove _ hl)
  | skipped hat x' htodo hx hpre hseen htodo' hnev => exact .inl (hmove _ hl)
  | visited hat htodo hq hplace => exact .inl (hmove _ hl)
  | slept hat => exact .inl (hmove _ hl)
  | awoke hat => exact .inl (hmove _ hl)
  | returned hat => exact .inl (hmove _ hl)
  | wake w hat => exact .inl (hmove _ hl)
  | op q i hi =>
    show notify (notifiedBySeg (code.seg (s.queue q) i)) s.place t = _ ∨
      ∃ c, _ ∧ notify (notifiedBySeg (code.seg (s.queue q) i)) s.place t = _
    unfold notify
    cases hat : s.place t with
    | sleeping c =>
      simp only []
      split
      next => exact .inr ⟨c, rfl, rfl⟩
      next => exact .inl rfl
    | idle => exact .inl rfl
    | passing c p => exact .inl rfl
    | locking c => exact .inl rfl
    | woken c w => exact .inl rfl
    | returning c r => exact .inl rfl

/-- No segment makes a queue operational again. -/
theorem seg_down {cb : Record} (hdown : cb.isOperational = false) (i : Input Call Cont) :
    ((code.seg cb i).stateOr cb).isOperational = false := by
  have hview : ∀ {cb' : Record} {v : View}, cb'.view = v → v.operational = false →
      cb'.isOperational = false := by
    intro cb' v hv hop
    rw [← hv] at hop
    exact hop
  have hopen : ¬ cb.view.operational = true := fun hop => absurd (hdown.symm.trans hop) (by decide)
  have heff := seg_effect cb i
  generalize code.seg cb i = sg at heff ⊢
  cases heff with
  | halt h => exact hdown
  | quiet cb' r hv => exact hview hv hdown
  | put cb' r hop => exact absurd hop hopen
  | get cb' r hop => exact absurd hop hopen
  | clear cb' r f hv => exact hview hv hdown
  | shutdown cb' r hv => exact hview hv rfl
  | setup cb' r x y hv => exact hview hv hdown
  | sleepPut cb' k hop => exact absurd hop hopen
  | sleepGet cb' k hop => exact absurd hop hopen

/-- A queue that was shut down stays so. -/
theorem step_down (h : Step s l s') {q : Q} (hdown : (s.queue q).isOperational = false) :
    (s'.queue q).isOperational = false := by
  cases step_moves h with
  | refused u args => exact hdown
  | called args c hat => exact hdown
  | passed hat htodo => exact hdown
  | nullPoll hat c' => exact hdown
  | skipped hat x' htodo hx hpre hseen htodo' hnev => exact hdown
  | slept hat => exact hdown
  | awoke hat => exact hdown
  | returned hat => exact hdown
  | wake w hat => exact hdown
  | @visited u c p hat mp todo htodo q' hq place hplace =>
    show (Function.update s.queue q' _ q).isOperational = false
    by_cases hqq : q = q'
    · subst hqq
      rw [Function.update_self, visit_down hdown]
      exact hdown
    · rw [Function.update_of_ne hqq]
      exact hdown
  | op q' i hi =>
    show (Function.update s.queue q' _ q).isOperational = false
    by_cases hqq : q = q'
    · subst hqq
      rw [Function.update_self]
      exact seg_down hdown i
    · rw [Function.update_of_ne hqq]
      exact hdown

/-! ## §2. What a call shows. -/

/-- The thread's own steps. -/
def own (t : τ) (ls : List (Label τ Q)) : List (Label τ Q) := ls.filter (fun l => l.thread = some t)

/-- The queues of an array, object by object. -/
def slots (polls : List (Option (Poll Q))) : List (Option Q) :=
  polls.map (fun x => x.bind Poll.bbq)

/-- What a pass shows at an object. -/
def Meets (t : τ) (isPre : Bool) (slot : Option Q) (l : Label τ Q) : Prop :=
  match slot with
  | some q => ∃ qmx operational need, l = .visit t qmx isPre q operational need
  | none => l = .skip t

/-- The object was found ready. -/
def found : Label τ Q → Bool
  | .visit _ _ _ _ operational need => operational && need = .unknown
  | _ => false

/-- What the result of a poll means, told from the thread's own steps. -/
structure Returned (t : τ) (qmx : Qmuxer) (polls : List (Option (Poll Q)))
    (os : List (Label τ Q)) (ret : Result) : Prop where
  nonzero : ret ≠ 0
  /-- A positive result is what the last pass has counted. -/
  counted : 0 < ret → ∃ before isPre pass, os = before ++ pass ++ [.passed t isPre ret] ∧
    List.Forall₂ (Meets t isPre) (slots polls) pass ∧ ret = pass.countP found
  /-- The result of a wait comes from the last one, which was the last step. -/
  waited : ret = .timedout ∨ ret = .posixApiError →
    ∃ before w, os = before ++ [.awake t w] ∧ ret = waitError w
  /-- A pre-wait pass that meets a queue that was shut down is the end. -/
  aborted : ∀ before after q need, os = before ++ .visit t qmx true q false need :: after →
    after = [] ∧ ret < 0

/-- **What the result of a poll means**, told from the steps of all threads between
the call and the return. -/
structure Meaning (t : τ) (qmx : Qmuxer) (polls : List (Option (Poll Q))) (ls : List (Label τ Q))
    (ret : Result) : Prop extends Returned t qmx polls (own t ls) ret where
  /-- After a wake-up by the shutdown of a queue of the array there is no sleep. -/
  shutdown : ∀ before after q free r,
    ls = before ++ .op q (.enter (.shutdown free)) (.returned r) :: after →
    some q ∈ slots polls → qmx ∈ r.notified → (own t before).getLast? = some (.sleep t) →
    ∃ (pass : List (Label τ Q)) (n : Result) (rest : List (Label τ Q)),
      own t after = .awake t .signaled :: pass ++ .passed t false n :: rest ∧
      List.Forall₂ (Meets t false) (slots polls) pass ∧ n = pass.countP found ∧
      (0 < n → rest = [] ∧ ret = n) ∧ (n = 0 → ret < 0 ∧ .sleep t ∉ rest)

/-! ## §3. A pass, object by object. -/

omit [DecidableEq τ] [DecidableEq Q] in
theorem slots_append (xs ys : List (Option (Poll Q))) : slots (xs ++ ys) = slots xs ++ slots ys :=
  List.map_append

/-- **What a pass has shown**, up to where it is. -/
structure InPass (t : τ) (polls : List (Option (Poll Q))) (p : Pass Q) (pass : List (Label τ Q)) :
    Prop where
  meets : List.Forall₂ (Meets t p.isPre) (slots p.seen.reverse) pass
  nev : p.nev = pass.countP found
  array : slots p.polls = slots polls
  nulls : p.nNulls ≤ (slots p.seen).count none

variable {polls : List (Option (Poll Q))} {p : Pass Q} {pass : List (Label τ Q)}

omit [DecidableEq τ] in
theorem InPass.start (t : τ) {ps : List (Option (Poll Q))} (h : slots ps = slots polls)
    (isPre : Bool) : InPass t polls (Pass.start isPre ps) [] :=
  ⟨.nil, rfl, h, Nat.le_refl 0⟩

omit [DecidableEq τ] in
/-- One object more. -/
theorem InPass.snoc (h : InPass t polls p pass) {x : Option (Poll Q)} (x' : Option (Poll Q))
    {todo : List (Option (Poll Q))} (htodo : p.todo = x :: todo)
    (hslot : x'.bind Poll.bbq = x.bind Poll.bbq) {l : Label τ Q}
    (hl : Meets t p.isPre (x.bind Poll.bbq) l) (nev : Int) {nNulls : Nat}
    (hnev : nev = if found l then p.nev + 1 else p.nev)
    (hnulls : nNulls ≤ p.nNulls + if x.bind Poll.bbq = none then 1 else 0) :
    InPass t polls { p with seen := x' :: p.seen, todo := todo, nev := nev, nNulls := nNulls }
      (pass ++ [l]) := by
  refine ⟨?_, ?_, ?_, ?_⟩
  · show List.Forall₂ (Meets t p.isPre) (slots (x' :: p.seen).reverse) _
    rw [List.reverse_cons, slots_append]
    refine List.rel_append h.meets (.cons ?_ .nil)
    show Meets t p.isPre (x'.bind Poll.bbq) l
    rw [hslot]
    exact hl
  · -- the object counts if it was found ready
    show nev = _
    rw [hnev, h.nev, List.countP_append, List.countP_singleton]
    split <;> simp
  · rw [← h.array]
    unfold Pass.polls
    rw [htodo]
    simp [slots, hslot]
  · show nNulls ≤ (slots (x' :: p.seen)).count none
    have hnulls' := h.nulls
    have hcons : slots (x' :: p.seen) = x'.bind Poll.bbq :: slots p.seen := rfl
    rw [hcons, List.count_cons, hslot]
    simp only [beq_iff_eq]
    omega

omit [DecidableEq τ] in
/-- One object more, without a queue. -/
theorem InPass.skipped (h : InPass t polls p pass) {x x' : Option (Poll Q)}
    {todo : List (Option (Poll Q))} (htodo : p.todo = x :: todo) (hx : x.bind Poll.bbq = none)
    (hx' : x'.bind Poll.bbq = none) {nNulls : Nat} (hnulls : nNulls ≤ p.nNulls + 1) :
    InPass t polls { p with seen := x' :: p.seen, todo := todo, nNulls := nNulls }
      (pass ++ [.skip t]) := by
  have hl : Meets t p.isPre (x.bind Poll.bbq) (.skip t : Label τ Q) := by
    rw [hx]
    rfl
  have hnulls' : nNulls ≤ p.nNulls + if x.bind Poll.bbq = none then 1 else 0 := by
    rw [if_pos hx]
    exact hnulls
  exact h.snoc x' htodo (hx'.trans hx.symm) hl p.nev rfl hnulls'

omit [DecidableEq τ] in
/-- One object more, with a queue, which counts if it lacks nothing. -/
theorem InPass.visited (h : InPass t polls p pass) {mp mp' : Poll Q}
    {todo : List (Option (Poll Q))} {q : Q} (htodo : p.todo = some mp :: todo)
    (hq : mp.bbq = some q) (hq' : mp'.bbq = some q) (qmx : Qmuxer) (operational : Bool)
    (need : PollEvent) :
    InPass t polls { p with
        seen := some mp' :: p.seen
        todo := todo
        nev := if operational ∧ need = .unknown then p.nev + 1 else p.nev }
      (pass ++ [.visit t qmx p.isPre q operational need]) := by
  have hl : Meets t p.isPre ((some mp).bind Poll.bbq)
      (.visit t qmx p.isPre q operational need : Label τ Q) := by
    rw [show (some mp).bind Poll.bbq = some q from hq]
    exact ⟨_, _, _, rfl⟩
  exact h.snoc (some mp') htodo (hq'.trans hq.symm) hl _ (by simp [found]) (Nat.le_add_right _ _)

omit [DecidableEq τ] in
/-- After its last object a pass has met all of them. -/
theorem InPass.all (h : InPass t polls p pass) (htodo : p.todo = []) :
    slots p.seen.reverse = slots polls := by
  rw [← h.array]
  unfold Pass.polls
  rw [htodo, List.append_nil]

omit [DecidableEq τ] in
/-- The result of a pass, which is an error only when there is no queue at all. -/
theorem InPass.result (h : InPass t polls p pass) (htodo : p.todo = []) :
    (p.result = .invalidArgs ∧ ∀ q, some q ∉ slots polls) ∨ p.result = pass.countP found := by
  unfold Pass.result
  split
  next heq =>
    refine .inl ⟨rfl, fun q hq => ?_⟩
    have hall := h.all htodo
    have hlen : (slots p.seen).length = p.polls.length := by
      unfold slots Pass.polls
      rw [htodo]
      simp
    have hle : (slots p.seen).count none ≤ (slots p.seen).length := List.count_le_length
    have hnulls := h.nulls
    have hcount : (slots p.seen).count none = (slots p.seen).length := by omega
    -- no object had a queue
    have hmem : some q ∈ slots p.seen := by
      rw [← hall] at hq
      simpa [slots] using hq
    have hnone := List.count_eq_length.mp hcount (some q) hmem
    exact absurd hnone (by simp)
  next => exact .inr h.nev

/-! ## §4. The story of a call. -/

/-- No pre-wait pass has met a queue that was shut down. -/
def Calm (t : τ) (qmx : Qmuxer) (os : List (Label τ Q)) : Prop :=
  ∀ q need, .visit t qmx true q false need ∉ os

/-- **What a thread has done in its call**, told from where it is. -/
inductive Story (t : τ) (qmx : Qmuxer) (polls : List (Option (Poll Q))) (os : List (Label τ Q)) :
    Place Q → Prop
  | passing {c : PollCall Q} {p : Pass Q} {before pass : List (Label τ Q)}
      (hos : os = before ++ pass) (hin : InPass t polls p pass) (hqmx : c.qmx = qmx)
      (hcalm : Calm t qmx os) (hlast : os.getLast? ≠ some (.sleep t)) :
      Story t qmx polls os (.passing c p)
  | locking {c : PollCall Q} (hqmx : c.qmx = qmx) (harray : slots c.polls = slots polls)
      (hcalm : Calm t qmx os) (hlast : os.getLast? ≠ some (.sleep t)) :
      Story t qmx polls os (.locking c)
  | sleeping {c : PollCall Q} (hqmx : c.qmx = qmx) (harray : slots c.polls = slots polls)
      (hcalm : Calm t qmx os) : Story t qmx polls os (.sleeping c)
  | woken {c : PollCall Q} {w : Wakeup} (hqmx : c.qmx = qmx) (harray : slots c.polls = slots polls)
      (hcalm : Calm t qmx os) (hlast : w ≠ .signaled → os.getLast? ≠ some (.sleep t)) :
      Story t qmx polls os (.woken c w)
  | returning {c : PollCall Q} {ret : Result} (hret : Returned t qmx polls os ret)
      (hlast : os.getLast? ≠ some (.sleep t)) : Story t qmx polls os (.returning c ret)

variable {qmx : Qmuxer} {os : List (Label τ Q)} {place place' : Place Q} {q : Q}

omit [DecidableEq τ] [DecidableEq Q] in
theorem Calm.snoc (h : Calm t qmx os) (hl : ∀ q need, l ≠ .visit t qmx true q false need) :
    Calm t qmx (os ++ [l]) := by
  intro q need hmem
  rcases List.mem_append.mp hmem with hmem | hmem
  · exact h q need hmem
  · exact hl q need (List.mem_singleton.mp hmem).symm

omit [DecidableEq τ] [DecidableEq Q] in
theorem getLast?_snoc_ne (hl : l ≠ .sleep t) : (os ++ [l]).getLast? ≠ some (.sleep t) := by
  rw [List.getLast?_append, List.getLast?_singleton]
  simpa using hl

omit [DecidableEq τ] [DecidableEq Q] in
/-- The first visit of its kind, when it is the last step. -/
theorem Calm.first (h : Calm t qmx os) {before after : List (Label τ Q)} {q : Q} {need : PollEvent}
    (heq : os ++ [l] = before ++ .visit t qmx true q false need :: after) : after = [] := by
  rcases List.eq_nil_or_concat' after with hnil | ⟨after, z, rfl⟩
  · exact hnil
  · have hsplit : os ++ [l] = (before ++ .visit t qmx true q false need :: after) ++ [z] := by
      rw [heq]
      simp
    have hos := List.append_inj_left' hsplit rfl
    exact absurd (by rw [hos]; simp) (h q need)

theorem waitError_neg {w : Wakeup} (hw : w ≠ .signaled) : waitError w < 0 := by
  cases w with
  | signaled => exact absurd rfl hw
  | timedout => decide
  | failed => decide

omit [DecidableEq τ] [DecidableEq Q] in
/-- An error of a pass that met no queue that was shut down. -/
theorem Calm.returned (h : Calm t qmx os) {ret : Result} (hneg : ret < 0)
    (hwait : ret ≠ .timedout ∧ ret ≠ .posixApiError) : Returned t qmx polls os ret where
  nonzero := Int.ne_of_lt hneg
  counted := fun hpos => absurd hpos (Int.not_lt.mpr (Int.le_of_lt hneg))
  waited := fun hw => absurd hw (not_or.mpr hwait)
  aborted := fun before after q need hos => absurd (by rw [hos]; simp) (h q need)

omit [DecidableEq τ] in
/-- A pass comes to its end. -/
theorem Story.passed {before : List (Label τ Q)} (hin : InPass t polls p pass) (htodo : p.todo = [])
    {c : PollCall Q} (hqmx : c.qmx = qmx) (hcalm : Calm t qmx (before ++ pass)) :
    Story t qmx polls (before ++ pass ++ [.passed t p.isPre p.result])
      (afterPass { c with polls := p.polls } p.isPre p.result) := by
  have hcalm' := hcalm.snoc (l := .passed t p.isPre p.result) (by simp)
  have hlast : (before ++ pass ++ [Label.passed t p.isPre p.result]).getLast? ≠ some (.sleep t) :=
    getLast?_snoc_ne (by simp)
  unfold afterPass
  by_cases hzero : p.result = 0
  · rw [if_pos hzero]
    split
    next => exact .locking hqmx hin.array hcalm' hlast
    next => exact .passing (List.append_nil _).symm (.start t hin.array true) hqmx hcalm' hlast
  · rw [if_neg hzero]
    refine .returning ?_ hlast
    rcases hin.result htodo with ⟨hinvalid, -⟩ | hcount
    · exact hcalm'.returned (by rw [hinvalid]; decide) (by rw [hinvalid]; decide)
    · refine ⟨hzero, fun _ => ⟨before, p.isPre, pass, rfl, ?_, hcount⟩, fun hwait => ?_,
        fun b a q need hos => absurd (by rw [hos]; simp) (hcalm' q need)⟩
      · rw [← hin.all htodo]
        exact hin.meets
      · -- a count is no error
        rw [hcount] at hwait
        rcases hwait with hwait | hwait <;>
        · have hneg := Int.natCast_nonneg (pass.countP found)
          rw [hwait] at hneg
          exact absurd hneg (by decide)

omit [DecidableEq τ] in
/-- **The step lemma of the story.** -/
theorem Story.step (h : Story t qmx polls os place) (hdoes : Does t place l place') :
    Story t qmx polls (os ++ [l]) place' := by
  cases hdoes with
  | @passed c p htodo =>
    cases h with
    | passing hos hin hqmx hcalm hlast =>
      subst hos
      exact .passed hin htodo hqmx hcalm
  | nullPoll c' hpre =>
    cases h with
    | passing hos hin hqmx hcalm hlast =>
      have hcalm' := hcalm.snoc (l := .skip t) (by simp)
      exact .returning (hcalm'.returned (by decide) (by decide)) (getLast?_snoc_ne (by simp))
  | @skipped c p x x' todo nNulls htodo hx hx' hnulls =>
    cases h with
    | passing hos hin hqmx hcalm hlast =>
      subst hos
      exact .passing (List.append_assoc _ _ _) (hin.skipped htodo hx hx' hnulls) hqmx
        (hcalm.snoc (by simp)) (getLast?_snoc_ne (by simp))
  | @visited c p mp mp' todo q operational need htodo hq hq' hgo =>
    cases h with
    | passing hos hin hqmx hcalm hlast =>
      subst hos
      have hin' := hin.visited htodo hq hq' c.qmx operational need
      refine .passing (List.append_assoc _ _ _) hin' hqmx (hcalm.snoc ?_)
        (getLast?_snoc_ne (by simp))
      -- a pre-wait pass goes on at an operational queue only
      intro q' need' heq
      injection heq with _ _ hpre _ hop
      exact absurd (hop.symm.trans (hgo hpre)) (by decide)
  | @aborted c p q need c' hpre =>
    cases h with
    | passing hos hin hqmx hcalm hlast =>
      refine .returning ⟨by decide, fun hpos => absurd hpos (by decide),
        fun hwait => absurd hwait (by decide), ?_⟩ (getLast?_snoc_ne (by simp))
      exact fun b a q' need' heq => ⟨hcalm.first heq, by decide⟩
  | slept c =>
    cases h with
    | locking hqmx harray hcalm hlast =>
      exact .sleeping hqmx harray (hcalm.snoc (by simp))
  | wake c w =>
    cases h with
    | sleeping hqmx harray hcalm =>
      exact .woken hqmx harray (hcalm.snoc (by simp)) (fun _ => getLast?_snoc_ne (by simp))
  | checks c =>
    cases h with
    | woken hqmx harray hcalm hlast =>
      exact .passing (List.append_nil _).symm (.start t harray false) hqmx (hcalm.snoc (by simp))
        (getLast?_snoc_ne (by simp))
  | @gaveUp c w hw =>
    cases h with
    | woken hqmx harray hcalm hlast =>
      have hcalm' := hcalm.snoc (l := .awake t w) (by simp)
      refine .returning ⟨?_, ?_, fun _ => ⟨os, w, rfl, rfl⟩, ?_⟩ (getLast?_snoc_ne (by simp))
      · exact Int.ne_of_lt (waitError_neg hw)
      · exact fun hpos => absurd hpos (Int.not_lt.mpr (Int.le_of_lt (waitError_neg hw)))
      · exact fun b a q need hos => absurd (by rw [hos]; simp) (hcalm' q need)

/-! ## §5. After the shutdown of a queue. -/

/-- **What a thread has done since it was woken by the shutdown of queue `q`**, told
from where it is: it looks at the queues once more, and then goes on to the pass
that meets `q`. -/
inductive Aftermath (t : τ) (qmx : Qmuxer) (polls : List (Option (Poll Q))) (q : Q)
    (os : List (Label τ Q)) : Place Q → Prop
  | woken {c : PollCall Q} (hos : os = []) (harray : slots c.polls = slots polls) :
      Aftermath t qmx polls q os (.woken c .signaled)
  | checking {c : PollCall Q} {p : Pass Q} {pass : List (Label τ Q)}
      (hos : os = .awake t .signaled :: pass) (hin : InPass t polls p pass)
      (hpost : p.isPre = false) : Aftermath t qmx polls q os (.passing c p)
  | rechecking {c : PollCall Q} {p : Pass Q} {pass rest : List (Label τ Q)}
      (hos : os = .awake t .signaled :: pass ++ .passed t false 0 :: rest)
      (hall : List.Forall₂ (Meets t false) (slots polls) pass) (hzero : pass.countP found = 0)
      (hsleep : .sleep t ∉ rest) (hpre : p.isPre = true) (harray : slots p.polls = slots polls)
      (hnot : some q ∉ slots p.seen) : Aftermath t qmx polls q os (.passing c p)
  | returning {c : PollCall Q} {ret n : Result} {pass rest : List (Label τ Q)}
      (hos : os = .awake t .signaled :: pass ++ .passed t false n :: rest)
      (hall : List.Forall₂ (Meets t false) (slots polls) pass) (hn : n = pass.countP found)
      (hpos : 0 < n → rest = [] ∧ ret = n) (hzero : n = 0 → ret < 0 ∧ .sleep t ∉ rest) :
      Aftermath t qmx polls q os (.returning c ret)

omit [DecidableEq τ] in
/-- The pre-wait pass after the shutdown returns an error. -/
theorem Aftermath.fails {rest : List (Label τ Q)}
    (hall : List.Forall₂ (Meets t false) (slots polls) pass) (hzero : pass.countP found = 0)
    (hsleep : .sleep t ∉ rest) (hl : l ≠ .sleep t) {ret : Result} (hneg : ret < 0)
    (c : PollCall Q) : Aftermath t qmx polls q
      (.awake t .signaled :: pass ++ .passed t false 0 :: rest ++ [l]) (.returning c ret) := by
  have hos : .awake t .signaled :: pass ++ .passed t false 0 :: rest ++ [l] =
      .awake t .signaled :: pass ++ .passed t false 0 :: (rest ++ [l]) := by simp
  refine .returning hos hall (by rw [hzero]; rfl) (fun hpos => absurd hpos (by decide))
    (fun _ => ⟨hneg, fun hmem => ?_⟩)
  rcases List.mem_append.mp hmem with hmem | hmem
  · exact hsleep hmem
  · exact hl (List.mem_singleton.mp hmem).symm

omit [DecidableEq τ] in
/-- The pre-wait pass after the shutdown goes on. -/
theorem Aftermath.goesOn {rest : List (Label τ Q)} {x : Option (Poll Q)} (x' : Option (Poll Q))
    {todo : List (Option (Poll Q))}
    (hall : List.Forall₂ (Meets t false) (slots polls) pass) (hzero : pass.countP found = 0)
    (hsleep : .sleep t ∉ rest) (hl : l ≠ .sleep t) (hpre : p.isPre = true)
    (harray : slots p.polls = slots polls) (hnot : some q ∉ slots p.seen)
    (htodo : p.todo = x :: todo) (hslot : x'.bind Poll.bbq = x.bind Poll.bbq)
    (hother : x.bind Poll.bbq ≠ some q) (c : PollCall Q) (nev : Int) (nNulls : Nat) :
    Aftermath t qmx polls q (.awake t .signaled :: pass ++ .passed t false 0 :: rest ++ [l])
      (.passing c { p with seen := x' :: p.seen, todo := todo, nev := nev, nNulls := nNulls }) := by
  have hos : .awake t .signaled :: pass ++ .passed t false 0 :: rest ++ [l] =
      .awake t .signaled :: pass ++ .passed t false 0 :: (rest ++ [l]) := by simp
  refine .rechecking hos hall hzero (fun hmem => ?_) hpre ?_ ?_
  · rcases List.mem_append.mp hmem with hmem | hmem
    · exact hsleep hmem
    · exact hl (List.mem_singleton.mp hmem).symm
  · rw [← harray]
    unfold Pass.polls
    rw [htodo]
    simp [slots, hslot]
  · intro hmem
    rcases List.mem_cons.mp hmem with heq | hmem
    · exact hother (hslot.symm.trans heq.symm)
    · exact hnot hmem

omit [DecidableEq τ] in
/-- **The step lemma of the aftermath**, as long as the queue stays down. -/
theorem Aftermath.step (h : Aftermath t qmx polls q os place) (hdoes : Does t place l place')
    (hq : some q ∈ slots polls)
    (hdown : ∀ qmx isPre operational need, l = .visit t qmx isPre q operational need →
      operational = false) : Aftermath t qmx polls q (os ++ [l]) place' := by
  cases h with
  | @woken c hos harray =>
    subst hos
    cases hdoes with
    | checks c => exact .checking rfl (.start t harray false) rfl
    | gaveUp c hw => exact absurd rfl hw
  | @checking c p pass hos hin hpost =>
    subst hos
    cases hdoes with
    | passed htodo =>
      have hmeets := hin.meets
      rw [hin.all htodo, hpost] at hmeets
      rcases hin.result htodo with ⟨-, hnone⟩ | hcount
      · exact absurd hq (hnone q)
      · unfold afterPass
        rw [hpost]
        by_cases hzero : p.result = 0
        · rw [if_pos hzero, hzero]
          -- nothing was ready, so the poll starts all over again
          have hnone : pass.countP found = 0 := by
            rw [hzero] at hcount
            exact Int.natCast_eq_zero.mp hcount.symm
          exact .rechecking rfl hmeets hnone (by simp) rfl hin.array (by simp [Pass.start, slots])
        · rw [if_neg hzero]
          exact .returning rfl hmeets hcount (fun _ => ⟨rfl, rfl⟩) (fun hz => absurd hz hzero)
    | nullPoll c' hpre => exact absurd (hpre.symm.trans hpost) (by decide)
    | @skipped _ _ x x' todo nNulls htodo hx hx' hnulls =>
      exact .checking rfl (hin.skipped htodo hx hx' hnulls) hpost
    | @visited _ _ mp mp' todo q' operational need htodo hq hq' hgo =>
      exact .checking rfl (hin.visited htodo hq hq' c.qmx operational need) hpost
    | aborted q' need c' hpre => exact absurd (hpre.symm.trans hpost) (by decide)
  | @rechecking c p pass rest hos hall hzero hsleep hpre harray hnot =>
    subst hos
    cases hdoes with
    | passed htodo =>
      -- the pass cannot end before it has met the queue
      refine absurd ?_ hnot
      rw [← harray] at hq
      unfold Pass.polls at hq
      rw [htodo, List.append_nil] at hq
      simpa [slots] using hq
    | nullPoll c' hpre => exact .fails hall hzero hsleep (by simp) (by decide) c'
    | @skipped _ _ x x' todo nNulls htodo hx hx' hnulls =>
      exact .goesOn x' hall hzero hsleep (by simp) hpre harray hnot htodo (hx'.trans hx.symm)
        (by rw [hx]; simp) c p.nev nNulls
    | @visited _ _ mp mp' todo q' operational need htodo hq hq' hgo =>
      have hother : (some mp).bind Poll.bbq ≠ some q := by
        intro heq
        obtain rfl : q' = q := Option.some.inj (hq.symm.trans heq)
        exact absurd ((hgo hpre).symm.trans (hdown _ _ _ _ rfl)) (by decide)
      exact .goesOn (some mp') hall hzero hsleep (by simp) hpre harray hnot htodo
        (hq'.trans hq.symm) hother c _ p.nNulls
    | aborted q' need c' hpre => exact .fails hall hzero hsleep (by simp) (by decide) c'
  | returning hos hall hn hpos hzero => cases hdoes

/-! ## §6. All runs. -/

omit [DecidableEq Q] in
theorem own_snoc (t : τ) (ls : List (Label τ Q)) (l : Label τ Q) :
    own t (ls ++ [l]) = own t ls ++ if l.thread = some t then [l] else [] := by
  unfold own
  rw [List.filter_append, List.filter_singleton]
  simp

/-- The visit of a step shows what the queue is. -/
theorem step_visit {isPre operational : Bool} {need : PollEvent}
    (h : Step s (.visit t qmx isPre q operational need) s') :
    operational = (s.queue q).isOperational := by
  cases step_moves h with
  | visited hat htodo hq hplace => rfl

/-- A shutdown leaves its queue down. -/
theorem step_shutdown {free : Bool} {r : Ret}
    (h : Step s (.op q (.enter (.shutdown free)) (.returned r)) s') :
    (s'.queue q).isOperational = false := by
  -- a shutdown that returns has cleaned the queue, or found it down
  have hseg : ∀ {cb : Record}, (Cbuffer.shutdown cb free).outcome = .returned r →
      ((Cbuffer.shutdown cb free).stateOr cb).isOperational = false := by
    intro cb hout
    unfold Cbuffer.shutdown at hout ⊢
    split
    next hop =>
      rw [if_pos hop] at hout
      cases hclean : sClean { cb with isOperational := false } free with
      | error stop =>
        rw [hclean] at hout
        exact absurd hout (by simp [Seg.outcome])
      | ok cleaned =>
        obtain ⟨cb', freed⟩ := cleaned
        exact congrArg View.operational (sClean_view hclean)
    next hop => exact Bool.eq_false_of_not_eq_true hop
  generalize ho : (Outcome.returned r : Outcome Cont Ret Cond Stop) = o at h
  cases step_moves h with
  | op _ _ hi =>
    show (Function.update s.queue q _ q).isOperational = false
    rw [Function.update_self]
    exact hseg ho.symm

/-- Where the thread is after a step of the others. -/
theorem Story.other (h : Story t qmx polls os (s.place t)) (hstep : Step s l s')
    (hl : l.thread ≠ some t) : Story t qmx polls os (s'.place t) := by
  rcases step_other hstep hl with hsame | ⟨c, hsleep, hwoken⟩
  · rw [hsame]
    exact h
  · rw [hsleep] at h
    rw [hwoken]
    cases h with
    | sleeping hqmx harray hcalm =>
      exact .woken hqmx harray hcalm (fun hw => absurd rfl hw)

/-- **The run lemma of the story.** -/
theorem story_run {s₁ : System τ Q} {c : PollCall Q} {ls : List (Label τ Q)}
    (hat : s₁.place t = .passing c (Pass.start true c.polls)) (hrun : Run Step s₁ ls s)
    (hin : ∀ l ∈ ls, ¬ Bounds t l) : Story t c.qmx c.polls (own t ls) (s.place t) := by
  have hall := Run.invariant_history (fun ls s => (∀ l ∈ ls, ¬ Bounds t l) →
    Story t c.qmx c.polls (own t ls) (s.place t)) ?_ ?_ hrun
  · exact hall hin
  · intro ls s l s' _ ih hstep hin
    have hstory := ih (fun x hx => hin x (List.mem_append_left _ hx))
    rw [own_snoc]
    split
    next hl => exact hstory.step (step_does hstep hl (hin l (by simp)))
    next hl =>
      rw [List.append_nil]
      exact hstory.other hstep hl
  · intro _
    have hown : own t ([] : List (Label τ Q)) = [] ++ [] := rfl
    rw [hat]
    exact .passing hown (.start t rfl true) rfl (fun q need hmem => absurd hmem (by simp [own]))
      (by simp [own])

/-- **The run lemma of the aftermath.** -/
theorem aftermath_run {s₁ : System τ Q} {ls : List (Label τ Q)}
    (h : Aftermath t qmx polls q [] (s₁.place t)) (hdown : (s₁.queue q).isOperational = false)
    (hq : some q ∈ slots polls) (hrun : Run Step s₁ ls s) (hin : ∀ l ∈ ls, ¬ Bounds t l) :
    Aftermath t qmx polls q (own t ls) (s.place t) := by
  have hall := Run.invariant_history (fun ls s => (∀ l ∈ ls, ¬ Bounds t l) →
    (s.queue q).isOperational = false ∧ Aftermath t qmx polls q (own t ls) (s.place t)) ?_ ?_ hrun
  · exact (hall hin).2
  · intro ls s l s' _ ih hstep hin
    obtain ⟨hqueue, hafter⟩ := ih (fun x hx => hin x (List.mem_append_left _ hx))
    refine ⟨step_down hstep hqueue, ?_⟩
    rw [own_snoc]
    split
    next hl =>
      refine hafter.step (step_does hstep hl (hin l (by simp))) hq ?_
      intro qmx isPre operational need heq
      rw [heq] at hstep
      exact (step_visit hstep).trans hqueue
    next hl =>
      rw [List.append_nil]
      rcases step_other hstep hl with hsame | ⟨c, hsleep, hwoken⟩
      · rw [hsame]
        exact hafter
      · -- after the shutdown the thread does not sleep
        rw [hsleep] at hafter
        cases hafter
  · exact fun _ => ⟨hdown, h⟩

/-- A call begins a pre-wait pass over its array; it is refused at once when there is
no object. -/
theorem step_call {nsec : Int} (h : Step s (.call t ⟨some qmx, some polls, nsec⟩) s') :
    s'.place t = .passing ⟨qmx, polls, nsec⟩ (Pass.start true polls) ∨ s'.place t = .idle := by
  rcases step_own h rfl with ⟨args, ha⟩ | ha | ⟨w, ha⟩
  · simp only [next] at ha
    split at ha
    next hidle =>
      split at ha
      next qmx' x xs hq hp =>
        simp only [Option.some.injEq, Prod.mk.injEq, Label.call.injEq, true_and] at ha
        obtain ⟨rfl, rfl⟩ := ha
        obtain rfl := Option.some.inj hq
        obtain rfl := Option.some.inj hp
        exact .inl (Function.update_self _ _ _)
      next =>
        obtain ⟨-, rfl⟩ := Prod.mk.inj (Option.some.inj ha)
        exact .inr hidle
    next => exact absurd ha (by simp)
  · simp only [next] at ha
    split at ha
    next => exact absurd ha (by simp)
    next c p hat =>
      have hdoes := (passStep_does s t c p).2
      rw [Option.some.inj ha] at hdoes
      cases hdoes
    next => exact absurd ha (by simp)
    next => exact absurd ha (by simp)
    next c w hat => cases w <;> exact absurd ha (by simp)
    next => exact absurd ha (by simp)
  · simp only [next] at ha
    split at ha
    next =>
      split at ha
      next => exact absurd ha (by simp)
      next => exact absurd ha (by simp)
    next => exact absurd ha (by simp)

/-- A thread that is in no call stays so until the next one. -/
theorem idle_run {s₁ : System τ Q} {ls : List (Label τ Q)} (hat : s₁.place t = .idle)
    (hrun : Run Step s₁ ls s) (hin : ∀ l ∈ ls, ¬ Bounds t l) : s.place t = .idle := by
  have hall := Run.invariant_history (fun ls s => (∀ l ∈ ls, ¬ Bounds t l) →
    s.place t = .idle) ?_ ?_ hrun
  · exact hall hin
  · intro ls s l s' _ ih hstep hin
    have hidle := ih (fun x hx => hin x (List.mem_append_left _ hx))
    by_cases hl : l.thread = some t
    · have hdoes := step_does hstep hl (hin l (by simp))
      rw [hidle] at hdoes
      cases hdoes
    · rcases step_other hstep hl with hsame | ⟨c, hsleep, -⟩
      · rw [hsame, hidle]
      · rw [hidle] at hsleep
        cases hsleep
  · exact fun _ => hat

/-- What an operation that returns does to the threads. -/
theorem step_notify {i : Input Call Cont} {r : Ret} (h : Step s (.op q i (.returned r)) s') :
    s'.place = notify r.notified s.place := by
  generalize ho : (Outcome.returned r : Outcome Cont Ret Cond Stop) = o at h
  cases step_moves h with
  | op _ _ hi =>
    generalize code.seg (s.queue q) i = sg at ho
    cases sg with
    | ret cb r' ns =>
      obtain rfl : r = r' := Outcome.returned.inj ho
      rfl
    | wait cb k cd ns => exact absurd ho (by simp [Seg.outcome])
    | halt stop => exact absurd ho (by simp [Seg.outcome])

/-- A thread whose last step was to fall asleep, at the shutdown of a queue. -/
theorem Story.woken_by {r : Ret} {i : Input Call Cont} (h : Story t qmx polls os (s.place t))
    (hlast : os.getLast? = some (.sleep t)) (hstep : Step s (.op q i (.returned r)) s')
    (hnotified : qmx ∈ r.notified) : Aftermath t qmx polls q [] (s'.place t) := by
  rw [step_notify hstep]
  unfold notify
  cases hat : s.place t with
  | idle =>
    rw [hat] at h
    cases h
  | passing c p =>
    rw [hat] at h
    cases h with
    | passing hos hin hqmx hcalm hne => exact absurd hlast hne
  | locking c =>
    rw [hat] at h
    cases h with
    | locking hqmx harray hcalm hne => exact absurd hlast hne
  | sleeping c =>
    rw [hat] at h
    cases h with
    | sleeping hqmx harray hcalm =>
      rw [← hqmx] at hnotified
      simp only [if_pos hnotified]
      exact .woken rfl harray
  | woken c w =>
    rw [hat] at h
    cases h with
    | woken hqmx harray hcalm hne =>
      -- it was woken before, by a notification too
      by_cases hw : w = .signaled
      · subst hw
        exact .woken rfl harray
      · exact absurd hlast (hne hw)
  | returning c ret =>
    rw [hat] at h
    cases h with
    | returning hret hne => exact absurd hlast hne

/-- **The result of a poll is meaningful**, in every run of any number of threads,
from the call of a poll to its return. -/
theorem poll_result_meaning {s₀ s₁ s₂ s₃ : System τ Q} {polls : List (Option (Poll Q))}
    {nsec : Int} {c : PollCall Q} {ret : Result} {ls : List (Label τ Q)}
    (hcall : Step s₀ (.call t ⟨some qmx, some polls, nsec⟩) s₁) (hrun : Run Step s₁ ls s₂)
    (hin : ∀ l ∈ ls, ¬ Bounds t l) (hret : Step s₂ (.ret t c ret) s₃) :
    Meaning t qmx polls ls ret := by
  have hplace : s₂.place t = .returning c ret := by
    cases step_moves hret with
    | returned hat => exact hat
  have hat : s₁.place t = .passing ⟨qmx, polls, nsec⟩ (Pass.start true polls) := by
    refine (step_call hcall).resolve_right (fun hidle => ?_)
    have hnone := idle_run hidle hrun hin
    rw [hplace] at hnone
    cases hnone
  have hstory := story_run hat hrun hin
  rw [hplace] at hstory
  cases hstory with
  | returning hreturned hlast =>
    refine ⟨hreturned, ?_⟩
    intro before after q free r hls hq hnotified hsleeping
    subst hls
    obtain ⟨u, hbefore, hrest⟩ := hrun.split
    cases hrest with
    | @cons _ v _ _ _ hshutdown hafter =>
      -- the story up to the shutdown, and the aftermath from there on
      have hthen := story_run hat hbefore (fun l hl => hin l (by simp [hl]))
      have hwoken := hthen.woken_by hsleeping hshutdown hnotified
      have hend := aftermath_run hwoken (step_shutdown hshutdown) hq hafter
        (fun l hl => hin l (by simp [hl]))
      rw [hplace] at hend
      cases hend with
      | @returning _ _ n pass rest hos hall hn hpos hzero =>
        exact ⟨pass, n, rest, hos, hall, hn, hpos, hzero⟩

/-- Two objects that ask for a value. -/
def bothReadable : List (Option (Poll Bool)) := [readable true, readable false]

/-- A poll sleeps on two empty queues, one of which is shut down: it looks at both
again, begins once more, and reports the shutdown. -/
theorem poll_result_meaning_shutdown :
    ∃ (s₁ s₂ s₃ : System Unit Bool) (ls : List (Label Unit Bool)) (c : PollCall Bool),
      Step twoQueues (.call () ⟨some 7, some bothReadable, -1⟩) s₁ ∧ Run Step s₁ ls s₂ ∧
      Step s₂ (.ret () c .notOperational) s₃ ∧ Meaning () 7 bothReadable ls .notOperational := by
  have hrun : ∃ a p q c,
      next twoQueues (.call () ⟨some 7, some bothReadable, -1⟩) =
        some (.call () ⟨some 7, some bothReadable, -1⟩, a) ∧
      exec next a [.go (), .go (), .go (), .go (), .op true (.enter (.shutdown false)), .go (),
        .go (), .go (), .go (), .go ()] = some p ∧
      next p.2 (.go ()) = some q ∧ q.1 = .ret () c .notOperational ∧
      p.1.all (fun l => !decide (Bounds () l)) = true := ⟨_, _, _, _, rfl, rfl, rfl, rfl, rfl⟩
  obtain ⟨s₁, ⟨ls, s₂⟩, ⟨l, s₃⟩, c, hcall, hexec, hnext, rfl, hbounds⟩ := hrun
  have hin : ∀ l ∈ ls, ¬ Bounds () l := by
    intro l hl
    have hnot := List.all_eq_true.mp hbounds l hl
    simpa using hnot
  have hs := run_of_exec hexec
  exact ⟨s₁, s₂, s₃, ls, c, ⟨_, hcall⟩, hs, ⟨_, hnext⟩,
    poll_result_meaning ⟨_, hcall⟩ hs hin ⟨_, hnext⟩⟩

end Mccp.Qmuxer
