/-
  Mccp.Qmuxer.Registration
  ────────────────────────
  **WHAT A FINISHED POLL LEAVES BEHIND.**

  Only the passes of polls write a registration, and only on a queue they meet
  operational: a pre-wait pass that finds the queue lacking registers its
  muxer, every other meeting clears the registration.  So the registration of
  a queue is that of its LAST MEETING (`reachable_qmuxer`), over every run of
  any number of pollers with any calls on the queues in between.

  A poll clears what its pre-wait pass registered in its post-wait pass only.
  The four other ways out (an event found at once, an error midway, a sleep
  that times out or fails, a queue shut down meanwhile) leave it.
-/
import Mccp.Cbuffer.Waiting
import Mccp.Qmuxer.Poll

namespace Mccp.Qmuxer

open Cbuffer Monitor Transition

variable {τ Q : Type}

/-! ## §1. Meetings. -/

/-- A pass that met a queue while it was operational. -/
structure Meeting where
  qmx : Qmuxer
  isPre : Bool
  /-- What the queue lacked of what was asked for. -/
  need : PollEvent
  deriving DecidableEq, Repr

/-- The meeting of a step with a queue. -/
def meeting [DecidableEq Q] (q : Q) : Label τ Q → Option Meeting
  | .visit _ qmx isPre q' operational need =>
      if q' = q ∧ operational then some ⟨qmx, isPre, need⟩ else none
  | _ => none

/-- The last pass of any poll that met the queue while it was operational. -/
def lastMeeting [DecidableEq Q] (q : Q) (ls : List (Label τ Q)) : Option Meeting :=
  ls.foldl (fun last l => (meeting q l).or last) none

/-- The registration that a meeting leaves. -/
def Meeting.registration (m : Meeting) : Option Qmuxer :=
  if m.isPre ∧ 0 < m.need.bits then some m.qmx else none

theorem lastMeeting_snoc [DecidableEq Q] (q : Q) (ls : List (Label τ Q)) (l : Label τ Q) :
    lastMeeting q (ls ++ [l]) = (meeting q l).or (lastMeeting q ls) := by
  unfold lastMeeting
  rw [List.foldl_append]
  rfl

theorem lastMeeting_append [DecidableEq Q] (q : Q) (ls ms : List (Label τ Q)) :
    lastMeeting q (ls ++ ms) = (lastMeeting q ms).or (lastMeeting q ls) := by
  induction ms using List.reverseRecOn with
  | nil =>
    rw [List.append_nil]
    rfl
  | append_singleton ms l ih =>
    rw [← List.append_assoc, lastMeeting_snoc, lastMeeting_snoc, ih]
    cases meeting q l <;> rfl

theorem Meeting.registration_eq_some {m : Meeting} {qmx : Qmuxer} :
    m.registration = some qmx ↔ m.qmx = qmx ∧ m.isPre = true ∧ m.need ≠ .unknown := by
  have hbits : 0 < m.need.bits ↔ m.need ≠ .unknown := by
    cases m.need <;> decide
  unfold Meeting.registration
  simp only [hbits]
  split
  next h => simp [h]
  next h =>
    constructor
    · intro h'
      exact absurd h' (by simp)
    · intro h'
      exact absurd h'.2 h

/-! ## §2. Who writes a registration. -/

/-- The setup registers on an operational queue only. -/
theorem visit_qmuxer (cb : Record) (qmx : Qmuxer) (mp : Poll Q) (isPre : Bool) :
    (visit cb qmx mp isPre).1.qmuxer =
      if cb.isOperational then (⟨qmx, isPre, needWait cb mp.type⟩ : Meeting).registration
      else cb.qmuxer := by
  unfold visit setupForQmuxer Meeting.registration
  simp only []
  split
  · split <;> rfl
  · rfl

/-- A call other than the setup leaves the registration alone, with its type. -/
theorem seg_registration (cb : Record) {i : Input Call Cont} (hi : isSetup i = false) :
    ((code.seg cb i).stateOr cb).qmuxer = cb.qmuxer ∧
      ((code.seg cb i).stateOr cb).type = cb.type := by
  have hview : ∀ {v v' : View}, v = v' → v.qmuxer = v'.qmuxer ∧ v.type = v'.type := by
    intro v v' hv
    rw [hv]
    exact ⟨rfl, rfl⟩
  have heff := seg_effect cb i
  generalize code.seg cb i = sg at heff ⊢
  cases heff with
  | halt => exact ⟨rfl, rfl⟩
  | quiet cb' r hv => exact hview hv
  | put cb' r _ _ hv => exact hview hv
  | get cb' r _ _ hv => exact hview hv
  | clear cb' r f hv => exact hview hv
  | shutdown cb' r hv => exact hview hv
  | setup cb' r _ _ _ _ hsetup =>
    obtain ⟨x, y, z, rfl⟩ := hsetup
    exact absurd hi (by simp [isSetup])
  | sleepPut cb' k _ _ hv => exact hview hv
  | sleepGet cb' k _ _ hv => exact hview hv

variable [DecidableEq τ] [DecidableEq Q]

/-- What a step does to the registration of a queue. -/
def WritesBy (s s' : System τ Q) (l : Label τ Q) (q : Q) : Prop :=
  (s'.queue q).qmuxer = match meeting q l with
    | some m => m.registration
    | none => (s.queue q).qmuxer

/-- **One step writes the registration of a queue only by meeting it.** -/
theorem step_qmuxer {s s' : System τ Q} {l : Label τ Q} (h : Step s l s') (q : Q) :
    WritesBy s s' l q := by
  cases step_moves h with
  | refused t args => rfl
  | called args c hat => rfl
  | passed hat htodo => rfl
  | nullPoll hat c' => rfl
  | skipped hat x' htodo hx hpre hseen htodo' hnev => rfl
  | slept hat => rfl
  | awoke hat => rfl
  | returned hat => rfl
  | wake w hat => rfl
  | @visited t c p hat mp todo htodo q' hq place hplace =>
    have hvisit := visit_qmuxer (s.queue q') c.qmx mp p.isPre
    unfold WritesBy meeting
    simp only []
    by_cases hq : q' = q
    · subst hq
      rw [Function.update_self, hvisit]
      cases (s.queue q').isOperational <;> simp
    · rw [Function.update_of_ne (Ne.symm hq)]
      simp [hq]
  | op q' i hi =>
    -- an operation keeps the registration of its own queue, and the other queues
    show (Function.update s.queue q' _ q).qmuxer = (s.queue q).qmuxer
    by_cases hq : q = q'
    · subst hq
      rw [Function.update_self, (seg_registration (s.queue q) hi).1]
    · rw [Function.update_of_ne hq]

/-- **In every reachable state, the registration of a queue is that of its
last meeting.** -/
theorem reachable_qmuxer {s₀ s : System τ Q} {ls : List (Label τ Q)} (h0 : s₀.Fresh)
    (hrun : Run Step s₀ ls s) (q : Q) :
    (s.queue q).qmuxer = (lastMeeting q ls).bind Meeting.registration := by
  refine Run.invariant_history
    (fun ls s => (s.queue q).qmuxer = (lastMeeting q ls).bind Meeting.registration) ?_ ?_ hrun
  · intro ls t l u _ ih hstep
    rw [step_qmuxer hstep q, lastMeeting_snoc]
    cases meeting q l with
    | some m => rfl
    | none => exact ih
  · exact h0.qmuxer q

/-! ## §3. What is left. -/

/-- **A finished poll leaves no registration behind exactly when no queue of
its array was last met by a pre-wait pass of its muxer that found it lacking.** -/
theorem poll_leaves_nothing_iff {s₀ s s' : System τ Q} {ls : List (Label τ Q)} {t : τ}
    {c : PollCall Q} {r : Result} (h0 : s₀.Fresh) (hrun : Run Step s₀ ls s)
    (hret : Step s (.ret t c r) s') :
    (∀ q ∈ c.queues, (s'.queue q).qmuxer ≠ some c.qmx) ↔
    ∀ q ∈ c.queues, ∀ m, lastMeeting q ls = some m → m.qmx = c.qmx → m.isPre = true →
      m.need = .unknown := by
  have hq : ∀ q, (s'.queue q).qmuxer = (lastMeeting q ls).bind Meeting.registration := by
    intro q
    rw [step_qmuxer hret q]
    exact reachable_qmuxer h0 hrun q
  apply forall₂_congr
  intro q _
  rw [hq q]
  constructor
  · intro hne m hm hqmx hpre
    by_contra hneed
    exact hne (by rw [hm]; exact Meeting.registration_eq_some.mpr ⟨hqmx, hpre, hneed⟩)
  · intro hall heq
    obtain ⟨m, hm, hreg⟩ := Option.bind_eq_some_iff.mp heq
    obtain ⟨hqmx, hpre, hneed⟩ := Meeting.registration_eq_some.mp hreg
    exact hneed (hall m hm hqmx hpre)

/-- Two empty buffers of one byte, and nobody polling. -/
def twoQueues : System Unit Bool where
  queue _ := oneByte
  place _ := .idle

/-- A poll object that asks for a value. -/
def readable (q : Bool) : Option (Poll Bool) :=
  some { bbq := some q, type := .readable, qSize := 0, qRemCapacity := 0 }

/-- A poll of an empty queue registers its muxer there and sleeps.  A put wakes
it, and its pass after the wait takes the registration away. -/
theorem poll_leaves_nothing_woken :
    ∃ (s s' : System Unit Bool) (ls : List (Label Unit Bool)) (c : PollCall Bool),
      Run Step twoQueues ls s ∧ Step s (.ret () c 1) s' ∧ c.qmx = 7 ∧ c.queues = [true] ∧
      ls[1]? = some (.visit () 7 true true true .readable) ∧ ls[3]? = some (.sleep ()) ∧
      ls[4]? = some (.op true (.enter (.put (some [8]) 5))
        (.returned { result := .ok, notified := [7] })) ∧
      ∀ q ∈ c.queues, (s'.queue q).qmuxer ≠ some c.qmx := by
  have hrun : ∃ p q c, exec next twoQueues
        [.call () ⟨some 7, some [readable true], -1⟩, .go (), .go (), .go (),
          .op true (.enter (.put (some [8]) 5)), .go (), .go (), .go ()] = some p ∧
      next p.2 (.go ()) = some q ∧ q.1 = .ret () c 1 ∧ c.qmx = 7 ∧ c.queues = [true] ∧
      p.1[1]? = some (.visit () 7 true true true .readable) ∧ p.1[3]? = some (.sleep ()) ∧
      p.1[4]? = some (.op true (.enter (.put (some [8]) 5))
        (.returned { result := .ok, notified := [7] })) ∧
      lastMeeting true p.1 = some ⟨7, false, .unknown⟩ :=
    ⟨_, _, _, rfl, rfl, rfl, rfl, rfl, rfl, rfl, rfl, rfl⟩
  obtain ⟨⟨ls, s⟩, ⟨l, s'⟩, c, hexec, hnext, rfl, hqmx, hqueues, hvisit, hsleep, hput, hlast⟩ :=
    hrun
  have hs := run_of_exec hexec
  have hfresh : twoQueues.Fresh := ⟨fun _ => rfl, fun _ => rfl⟩
  refine ⟨s, s', ls, c, hs, ⟨_, hnext⟩, hqmx, hqueues, hvisit, hsleep, hput,
    (poll_leaves_nothing_iff hfresh hs ⟨_, hnext⟩).mpr ?_⟩
  -- the pass after the wait was the last to meet the queue, and found nothing lacking
  intro q hq m hm _ _
  rw [hqueues, List.mem_singleton] at hq
  rw [hq, hlast] at hm
  injection hm with hm
  rw [← hm]

/-- A poll of an empty queue and one with a value returns at once, and its
muxer stays registered with the empty one. -/
theorem poll_leaves_registration :
    ∃ (s s' : System Unit Bool) (ls : List (Label Unit Bool)) (c : PollCall Bool),
      twoQueues.Fresh ∧ Run Step twoQueues ls s ∧ Step s (.ret () c 1) s' ∧
      (∀ t, s'.place t = .idle) ∧ false ∈ c.queues ∧ (s'.queue false).qmuxer = some c.qmx := by
  have hrun : ∃ p q c, exec next twoQueues
        [.op true (.enter (.put (some [8]) 5)),
          .call () ⟨some 7, some [readable false, readable true], -1⟩,
          .go (), .go (), .go ()] = some p ∧
      next p.2 (.go ()) = some q ∧ q.1 = .ret () c 1 ∧ (∀ t, q.2.place t = .idle) ∧
      c.queues = [false, true] ∧ (q.2.queue false).qmuxer = some c.qmx :=
    ⟨_, _, _, rfl, rfl, rfl, fun _ => rfl, rfl, rfl⟩
  obtain ⟨⟨ls, s⟩, ⟨l, s'⟩, c, hexec, hnext, rfl, hidle, hqueues, hleft⟩ := hrun
  have hfresh : twoQueues.Fresh := ⟨fun _ => rfl, fun _ => rfl⟩
  exact ⟨s, s', ls, c, hfresh, run_of_exec hexec, ⟨_, hnext⟩, hidle, by rw [hqueues]; simp, hleft⟩

end Mccp.Qmuxer
