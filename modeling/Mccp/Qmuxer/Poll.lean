/-
  Mccp.Qmuxer.Poll
  ────────────────
  **POLLING SEVERAL QUEUES: qmuxer.c, AS THE CODE COMPUTES IT.**

  A poll goes over its array twice: a PRE-WAIT PASS, which registers its muxer
  with every queue that lacks what is asked for, and, after a sleep that was
  ended by a notification, a POST-WAIT PASS, which looks again.  A pass holds
  one queue's lock at a time, so between two of its visits anything may happen
  to the queues.

      visit     — the loop body of s_qmx_setup_for_poll() on one queue
      next      — one step of any number of pollers (executable), with the
                  calls of all other threads on the queues in between
      Moves     — what a step can do (`step_moves`)

  The muxer's own lock is held only around mccp_cond_wait(), so a notification
  that comes between the pre-wait pass and the sleep finds nobody asleep.
-/
import Mccp.Cbuffer.Record

namespace Mccp.Qmuxer

open Cbuffer Monitor Transition

/-! ## §1. Poll objects and passes. -/

/-- `mccp_qmuxer_poll_record`. -/
structure Poll (Q : Type) where
  bbq : Option Q
  type : PollEvent
  qSize : Int
  qRemCapacity : Int

/-- The arguments of a poll that passed their checks; none is a NULL object. -/
structure PollCall (Q : Type) where
  qmx : Qmuxer
  polls : List (Option (Poll Q))
  nsec : Int

/-- A pass of s_qmx_setup_for_poll(), between two objects. -/
structure Pass (Q : Type) where
  isPre : Bool
  /-- The objects done, the last one first. -/
  seen : List (Option (Poll Q))
  todo : List (Option (Poll Q))
  nev : Int
  nNulls : Nat

variable {τ Q : Type}

/-- A pass before its first object. -/
def Pass.start (isPre : Bool) (polls : List (Option (Poll Q))) : Pass Q where
  isPre := isPre
  seen := []
  todo := polls
  nev := 0
  nNulls := 0

/-- The array, as the pass leaves it. -/
def Pass.polls (p : Pass Q) : List (Option (Poll Q)) := p.seen.reverse ++ p.todo

/-- The result of a pass that came to its end. -/
def Pass.result (p : Pass Q) : Result :=
  if p.nNulls = p.polls.length then .invalidArgs else p.nev

/-- An object with a queue: the queue after the setup, its result, and the
object with the sizes it stored. -/
def visit (cb : Record) (qmx : Qmuxer) (mp : Poll Q) (isPre : Bool) : Record × Result × Poll Q :=
  let (cb, r) := setupForQmuxer cb (some qmx) mp.type isPre
  let mp := match r.sizes with
    | some (size, rem) => { mp with qSize := size, qRemCapacity := rem }
    | none => mp
  (cb, r.result, mp)

/-! ## §2. Pollers. -/

/-- Where a thread is in mccp_qmuxer_poll(). -/
inductive Place (Q : Type) where
  | idle
  | passing (c : PollCall Q) (p : Pass Q)
  /-- The pre-wait pass found no event; the muxer's lock is next. -/
  | locking (c : PollCall Q)
  | sleeping (c : PollCall Q)
  | woken (c : PollCall Q) (w : Wakeup)
  | returning (c : PollCall Q) (ret : Result)

/-- The queues, and the threads that poll. -/
structure System (τ Q : Type) where
  queue : Q → Record
  place : τ → Place Q

/-- The arguments of mccp_qmuxer_poll(); none is a NULL pointer. -/
structure PollArgs (Q : Type) where
  qmx : Option Qmuxer
  polls : Option (List (Option (Poll Q)))
  nsec : Int

/-- What a scheduler can choose. -/
inductive Action (τ Q : Type) where
  | call (t : τ) (args : PollArgs Q)
  /-- A poller goes on. -/
  | go (t : τ)
  /-- A sleep ends without a notification. -/
  | wake (t : τ) (w : Wakeup)
  /-- A segment of any other call on a queue. -/
  | op (q : Q) (i : Input Call Cont)

/-- What an observer sees of a step. -/
inductive Label (τ Q : Type) where
  | call (t : τ) (args : PollArgs Q)
  /-- A pass of muxer `qmx` met queue `q`: whether it was operational then,
  and what it lacked of what was asked for. -/
  | visit (t : τ) (qmx : Qmuxer) (isPre : Bool) (q : Q) (operational : Bool) (need : PollEvent)
  /-- A pass went over an object without a queue. -/
  | skip (t : τ)
  | passed (t : τ) (isPre : Bool) (ret : Result)
  | sleep (t : τ)
  | wake (t : τ) (w : Wakeup)
  | awake (t : τ) (w : Wakeup)
  | ret (t : τ) (c : PollCall Q) (r : Result)
  | op (q : Q) (i : Input Call Cont) (o : Outcome Cont Ret Cond Stop)

/-- The place after a pass. -/
def afterPass (c : PollCall Q) (isPre : Bool) (ret : Result) : Place Q :=
  if ret = 0 then
    if isPre then .locking c
    -- woken for nothing: start all over again
    else .passing c (Pass.start true c.polls)
  else .returning c ret

/-- Notifying muxers wakes the threads that sleep on them. -/
def notify (qmxs : List Qmuxer) (place : τ → Place Q) : τ → Place Q :=
  fun u => match place u with
    | .sleeping c => if c.qmx ∈ qmxs then .woken c .signaled else .sleeping c
    | p => p

/-- A setup for a muxer is made by pollers only. -/
def isSetup : Input Call Cont → Bool
  | .enter (.setupForQmuxer _ _ _) => true
  | _ => false

variable [DecidableEq τ] [DecidableEq Q]

/-- The system with a thread moved. -/
def System.move (s : System τ Q) (t : τ) (p : Place Q) : System τ Q :=
  { s with place := Function.update s.place t p }

/-- One object of a pass. -/
def passStep (s : System τ Q) (t : τ) (c : PollCall Q) (p : Pass Q) : Label τ Q × System τ Q :=
  match p.todo with
  | [] =>
      let c := { c with polls := p.polls }
      (.passed t p.isPre p.result, s.move t (afterPass c p.isPre p.result))
  | none :: todo =>
      if p.isPre then (.skip t, s.move t (.returning { c with polls := p.polls } .invalidArgs))
      else (.skip t, s.move t (.passing c { p with seen := none :: p.seen, todo := todo }))
  | some mp :: todo =>
      match mp.bbq with
      | none =>
          let mp := { mp with qSize := 0, qRemCapacity := 0 }
          let p := { p with seen := some mp :: p.seen, todo := todo, nNulls := p.nNulls + 1 }
          (.skip t, s.move t (.passing c p))
      | some q =>
          let cb := s.queue q
          let (cb', st, mp') := visit cb c.qmx mp p.isPre
          let s := { s with queue := Function.update s.queue q cb' }
          let p := { p with
            seen := some mp' :: p.seen
            todo := todo
            nev := if st = 0 then p.nev + 1 else p.nev }
          let l := .visit t c.qmx p.isPre q cb.isOperational (needWait cb mp.type)
          if p.isPre ∧ st < 0 then (l, s.move t (.returning { c with polls := p.polls } st))
          else (l, s.move t (.passing c p))

/-- **One step**, with what an observer sees of it; `none` when the choice is
not open, and when the call stops the process. -/
def next (s : System τ Q) : Action τ Q → Option (Label τ Q × System τ Q)
  | .call t args =>
      match s.place t with
      | .idle =>
          match args.qmx, args.polls with
          | some qmx, some (p :: ps) =>
              let c := { qmx := qmx, polls := p :: ps, nsec := args.nsec }
              some (.call t args, s.move t (.passing c (Pass.start true c.polls)))
          -- MCCP_RESULT_INVALID_ARGS at once
          | _, _ => some (.call t args, s)
      | _ => none
  | .go t =>
      match s.place t with
      | .idle => none
      | .passing c p => some (passStep s t c p)
      | .locking c => some (.sleep t, s.move t (.sleeping c))
      | .sleeping _ => none
      | .woken c w =>
          match w with
          | .signaled => some (.awake t w, s.move t (.passing c (Pass.start false c.polls)))
          | w => some (.awake t w, s.move t (.returning c (waitError w)))
      | .returning c r => some (.ret t c r, s.move t .idle)
  | .wake t w =>
      match s.place t with
      | .sleeping c =>
          if w ≠ .timedout ∨ 0 ≤ c.nsec then some (.wake t w, s.move t (.woken c w)) else none
      | _ => none
  | .op q i =>
      if isSetup i then none else
      let sg := code.seg (s.queue q) i
      match sg with
      | .ret cb r _ =>
          some (.op q i sg.outcome,
            { queue := Function.update s.queue q cb, place := notify r.notified s.place })
      | .wait cb _ _ _ =>
          some (.op q i sg.outcome, { s with queue := Function.update s.queue q cb })
      | .halt _ => none

/-- The transition relation over observations. -/
abbrev Step : System τ Q → Label τ Q → System τ Q → Prop := observed next

/-! ## §3. What a step does. -/

omit [DecidableEq τ] [DecidableEq Q] in
theorem notify_nil (place : τ → Place Q) : notify [] place = place := by
  funext u
  unfold notify
  cases place u with
  | sleeping c => rfl
  | idle => rfl
  | passing c p => rfl
  | locking c => rfl
  | woken c w => rfl
  | returning c r => rfl

/-- The muxers that a segment notifies. -/
def notifiedBySeg : Segment → List Qmuxer
  | .ret _ r _ => r.notified
  | _ => []

/-- **What each step is**: the place it begins at, and what becomes of the
thread and of the queue. -/
inductive Moves (s : System τ Q) : Label τ Q → System τ Q → Prop
  | refused (t : τ) (args : PollArgs Q) : Moves s (.call t args) s
  | called {t : τ} (args : PollArgs Q) (c : PollCall Q) (hat : s.place t = .idle) :
      Moves s (.call t args) (s.move t (.passing c (Pass.start true c.polls)))
  | passed {t : τ} {c : PollCall Q} {p : Pass Q} (hat : s.place t = .passing c p)
      (htodo : p.todo = []) :
      Moves s (.passed t p.isPre p.result)
        (s.move t (afterPass { c with polls := p.polls } p.isPre p.result))
  | nullPoll {t : τ} {c : PollCall Q} {p : Pass Q} (hat : s.place t = .passing c p)
      (c' : PollCall Q) : Moves s (.skip t) (s.move t (.returning c' .invalidArgs))
  /-- An object without a queue. -/
  | skipped {t : τ} {c : PollCall Q} {p p' : Pass Q} (hat : s.place t = .passing c p)
      {x : Option (Poll Q)} (x' : Option (Poll Q)) {todo : List (Option (Poll Q))}
      (htodo : p.todo = x :: todo) (hx : x'.bind Poll.bbq = none) (hpre : p'.isPre = p.isPre)
      (hseen : p'.seen = x' :: p.seen) (htodo' : p'.todo = todo) (hnev : p'.nev = p.nev) :
      Moves s (.skip t) (s.move t (.passing c p'))
  | visited {t : τ} {c : PollCall Q} {p : Pass Q} (hat : s.place t = .passing c p) {mp : Poll Q}
      {todo : List (Option (Poll Q))} (htodo : p.todo = some mp :: todo) {q : Q}
      (hq : mp.bbq = some q) {place : Place Q}
      (hplace : let (_, st, mp') := visit (s.queue q) c.qmx mp p.isPre
        place = if p.isPre ∧ st < 0 then
            .returning { c with polls := { p with
              seen := some mp' :: p.seen
              todo := todo
              nev := if st = 0 then p.nev + 1 else p.nev : Pass Q }.polls } st
          else .passing c { p with
            seen := some mp' :: p.seen
            todo := todo
            nev := if st = 0 then p.nev + 1 else p.nev }) :
      Moves s (.visit t c.qmx p.isPre q (s.queue q).isOperational (needWait (s.queue q) mp.type))
        { queue := Function.update s.queue q (visit (s.queue q) c.qmx mp p.isPre).1
          place := Function.update s.place t place }
  | slept {t : τ} {c : PollCall Q} (hat : s.place t = .locking c) :
      Moves s (.sleep t) (s.move t (.sleeping c))
  | awoke {t : τ} {c : PollCall Q} {w : Wakeup} (hat : s.place t = .woken c w) :
      Moves s (.awake t w) (s.move t (match w with
        | .signaled => .passing c (Pass.start false c.polls)
        | w => .returning c (waitError w)))
  | returned {t : τ} {c : PollCall Q} {r : Result} (hat : s.place t = .returning c r) :
      Moves s (.ret t c r) (s.move t .idle)
  | wake {t : τ} {c : PollCall Q} (w : Wakeup) (hat : s.place t = .sleeping c) :
      Moves s (.wake t w) (s.move t (.woken c w))
  | op (q : Q) (i : Input Call Cont) (hi : isSetup i = false) :
      Moves s (.op q i (code.seg (s.queue q) i).outcome)
        { queue := Function.update s.queue q ((code.seg (s.queue q) i).stateOr (s.queue q))
          place := notify (notifiedBySeg (code.seg (s.queue q) i)) s.place }

theorem passStep_moves {s : System τ Q} {t : τ} {c : PollCall Q} {p : Pass Q}
    (hat : s.place t = .passing c p) :
    Moves s (passStep s t c p).1 (passStep s t c p).2 := by
  unfold passStep
  split
  next htodo => exact .passed hat htodo
  next todo htodo =>
    split
    next => exact .nullPoll hat _
    next => exact .skipped hat none htodo rfl rfl rfl rfl rfl
  next mp todo htodo =>
    split
    next hbbq =>
      exact .skipped hat (some { mp with qSize := 0, qRemCapacity := 0 }) htodo hbbq rfl rfl rfl rfl
    next q hbbq =>
      simp only []
      split
      next hbad => exact .visited hat htodo hbbq (by simp only []; rw [if_pos hbad])
      next hgood => exact .visited hat htodo hbbq (by simp only []; rw [if_neg hgood])

/-- **The inversion lemma.** -/
theorem step_moves {s s' : System τ Q} {l : Label τ Q} (h : Step s l s') : Moves s l s' := by
  obtain ⟨a, ha⟩ := h
  cases a with
  | call t args =>
    simp only [next] at ha
    split at ha
    next hat =>
      split at ha
      · simp only [Option.some.injEq, Prod.mk.injEq] at ha
        obtain ⟨rfl, rfl⟩ := ha
        exact .called args _ hat
      · simp only [Option.some.injEq, Prod.mk.injEq] at ha
        obtain ⟨rfl, rfl⟩ := ha
        exact .refused t args
    next => exact absurd ha (by simp)
  | go t =>
    simp only [next] at ha
    split at ha
    next => exact absurd ha (by simp)
    next c p hat =>
      have hpass := passStep_moves hat
      injection ha with ha
      rw [ha] at hpass
      exact hpass
    next c hat =>
      simp only [Option.some.injEq, Prod.mk.injEq] at ha
      obtain ⟨rfl, rfl⟩ := ha
      exact .slept hat
    next => exact absurd ha (by simp)
    next c w hat =>
      have hawoke := Moves.awoke hat
      cases w <;>
      · simp only [Option.some.injEq, Prod.mk.injEq] at ha
        obtain ⟨rfl, rfl⟩ := ha
        exact hawoke
    next c r hat =>
      simp only [Option.some.injEq, Prod.mk.injEq] at ha
      obtain ⟨rfl, rfl⟩ := ha
      exact .returned hat
  | wake t w =>
    simp only [next] at ha
    split at ha
    next c hat =>
      split at ha
      · simp only [Option.some.injEq, Prod.mk.injEq] at ha
        obtain ⟨rfl, rfl⟩ := ha
        exact .wake w hat
      · exact absurd ha (by simp)
    next => exact absurd ha (by simp)
  | op q i =>
    simp only [next] at ha
    split at ha
    next => exact absurd ha (by simp)
    next hi =>
      have hop := Moves.op (s := s) q i (by simpa using hi)
      split at ha
      next cb r ns hsg =>
        rw [hsg] at hop
        simp only [Option.some.injEq, Prod.mk.injEq] at ha
        obtain ⟨rfl, rfl⟩ := ha
        rw [hsg]
        exact hop
      next cb k cd ns hsg =>
        rw [hsg] at hop
        simp only [Option.some.injEq, Prod.mk.injEq] at ha
        obtain ⟨rfl, rfl⟩ := ha
        rw [hsg]
        have hnone : notifiedBySeg (.wait cb k cd ns) = [] := rfl
        rwa [hnone, notify_nil] at hop
      next => exact absurd ha (by simp)

/-! ## §4. Beginnings. -/

/-- The queues of an array. -/
def PollCall.queues (c : PollCall Q) : List Q :=
  c.polls.filterMap (fun p => p.bind Poll.bbq)

/-- A beginning: no muxer is registered anywhere, and nobody polls. -/
structure System.Fresh (s : System τ Q) : Prop where
  qmuxer : ∀ q, (s.queue q).qmuxer = none
  idle : ∀ t, s.place t = .idle

end Mccp.Qmuxer
