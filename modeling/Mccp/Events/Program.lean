/-
  Mccp.Events.Program
  ───────────────────
  **A PROGRAM WITH A THREAD FOR EVERY QUEUE: check5.c.**

  Each of `n` threads puts a number of dates into a queue of its own, and -1
  after them.  The main thread polls all queues, and gets what they hold until
  it has got the -1 of each.  SIGINT shuts the queues down, one after the other,
  at any time.

      putStep, putterAfter — s_test_thread_main()
      mainStep             — the loop of do_run()
      interruptStep        — s_stop_all(), in the signal handler
      next                 — one step of any of them (executable)

  The queues and the poll are those of `Mccp.Qmuxer.Poll`.  A thread that sleeps
  on a queue may wake up at any time.
-/
import Mccp.Qmuxer.Results

namespace Mccp.Events

open Cbuffer Transition
open Monitor (Input Outcome Wakeup)
open Qmuxer (System Poll)

/-! ## §1. Threads. -/

/-- The bytes of -1, which stands for the end. -/
def eof : Value := List.replicate 8 255

/-- A date, as its eight bytes; the clock never shows -1. -/
structure Date where
  bytes : Value
  size : bytes.length = 8
  ne_eof : bytes ≠ eof

/-- A thread in `s_test_thread_main`: what it has put, the -1 included, the put
it sleeps in, and what it has returned. -/
structure Putter where
  i : Nat
  asleep : Option Cont
  ret : Option Result

/-- Where the main thread is in do_run(). -/
inductive Pc where
  /-- At the top of the loop. -/
  | top
  | polling
  /-- About to ask for the size of queue `i`. -/
  | sizing (i : Nat)
  /-- In the loop over the `qsz` values of queue `i`. -/
  | getting (i j qsz : Nat)
  | getAsleep (i j qsz : Nat) (k : Cont)
  | done (ret : Nat)
  deriving DecidableEq, Repr

variable {n : Nat}

/-- The variables of do_run(). -/
structure Loop (n : Nat) where
  pc : Pc
  polls : List (Option (Poll (Fin n)))
  n_gets : Nat

/-- The whole program; `stopAll` is the next queue of a loop of s_stop_all(), if
it was called. -/
structure State (n : Nat) where
  sys : System Unit (Fin n)
  putter : Fin n → Putter
  main : Loop n
  stopAll : Option Nat

/-- What an observer sees of a step. -/
inductive Label (n : Nat) where
  | queues (l : Qmuxer.Label Unit (Fin n))
  /-- The main thread goes on by itself. -/
  | loop
  /-- SIGINT has come. -/
  | interrupted

/-- What a scheduler can choose. -/
inductive Action (n : Nat) where
  /-- A thread puts its next value; it has read the clock for it. -/
  | put (q : Fin n) (now : Date)
  /-- The sleep of a thread in a put is over. -/
  | putWakes (q : Fin n) (w : Wakeup)
  /-- The main thread goes on; `w` is how its sleep in a get ended. -/
  | main (w : Wakeup)
  /-- The main thread's sleep in its poll ends without a notification. -/
  | pollWakes (w : Wakeup)
  | interrupt

/-- The capacity of every queue. -/
def capacity : Nat := 1000 * 1000

/-- The address of the muxer. -/
def qmx : Qmuxer := 1

/-- The time that a poll waits. -/
def pollNsec : Int := 100 * 1000 * 1000

/-- The program once all threads are started; `cb` are the new queues. -/
def State.initial (cb : Fin n → Record) : State n where
  sys := { queue := cb, place := fun _ => .idle }
  putter := fun _ => { i := 0, asleep := none, ret := none }
  main := {
    pc := .top
    polls := List.ofFn fun q =>
      some { bbq := some q, type := .readable, qSize := 0, qRemCapacity := 0 }
    n_gets := 0 }
  stopAll := none

/-! ## §2. The steps. -/

/-- A choice on the queues, after which the caller goes on by `k`. -/
def onQueues (s : State n) (a : Qmuxer.Action Unit (Fin n))
    (k : Qmuxer.Label Unit (Fin n) → State n → State n) : Option (Label n × State n) :=
  match Qmuxer.next s.sys a with
  | some (l, sys) => some (.queues l, k l { s with sys := sys })
  | none => none

/-- The outcome of a call on a queue. -/
def outcome : Qmuxer.Label Unit (Fin n) → Option (Outcome Cont Ret Cond Stop)
  | .op _ _ o => some o
  | _ => none

/-- A thread behind a put of `s_test_thread_main`; `m_n_puts` dates are put, and
then -1. -/
def putterAfter (m_n_puts : Nat) (p : Putter) (l : Qmuxer.Label Unit (Fin n)) : Putter :=
  match outcome l with
  | some (.returned r) =>
      if r.result = .ok then
        { i := p.i + 1
          asleep := none
          ret := if p.i = m_n_puts then some m_n_puts else none }
      else { p with asleep := none, ret := some .anyFailures }
  | some (.slept k _) => { p with asleep := some k }
  | _ => p

/-- The step of a thread. -/
def putStep (m_n_puts : Nat) (s : State n) (q : Fin n) (i : Input Call Cont) :
    Option (Label n × State n) :=
  onQueues s (.op q i) fun l s =>
    { s with putter := Function.update s.putter q (putterAfter m_n_puts (s.putter q) l) }

/-- `mccp_qmuxer_poll_reset`. -/
def pollReset (mp : Poll (Fin n)) : Poll (Fin n) := { mp with qSize := 0, qRemCapacity := 0 }

/-- `mccp_qmuxer_poll_set_queue` with NULL, for the object of queue `i`. -/
def nullify (polls : List (Option (Poll (Fin n)))) (i : Nat) : List (Option (Poll (Fin n))) :=
  polls.modify i (Option.map fun mp => { mp with bbq := none })

/-- `n_valid_polls`. -/
def nValidPolls (polls : List (Option (Poll (Fin n)))) : Nat :=
  polls.countP fun mp => (mp.bind Poll.bbq).isSome

/-- What the main thread does with the outcome of the `j`-th get from queue `i`. -/
def afterGet (i j qsz : Nat) (l : Qmuxer.Label Unit (Fin n)) (s : State n) : State n :=
  match outcome l with
  | some (.returned r) =>
      if r.result = .ok ∧ r.val ≠ some eof then
        { s with main := { s.main with pc := .getting i (j + 1) qsz, n_gets := s.main.n_gets + 1 } }
      -- an end or an error: the queue is not looked at again
      else { s with main := { s.main with
        pc := .sizing (i + 1)
        polls := nullify s.main.polls i } }
  | some (.slept k _) => { s with main := { s.main with pc := .getAsleep i j qsz k } }
  | _ => s

/-- What the main thread does when its poll has returned. -/
def afterPoll (l : Qmuxer.Label Unit (Fin n)) (s : State n) : State n :=
  match l with
  | .ret _ _ r =>
      -- what the poll has stored in the objects is reset before it is looked at
      { s with main := { s.main with
        pc := if 0 < r then .sizing 0 else if r = .timedout then .top else .done 1 } }
  | _ => s

/-- What the main thread does with the size of queue `i`. -/
def afterSize (i : Nat) (l : Qmuxer.Label Unit (Fin n)) (s : State n) : State n :=
  match outcome l with
  | some (.returned r) =>
      { s with main := { s.main with
        pc := if 0 < r.result then .getting i 0 r.result.toNat else .sizing (i + 1) } }
  | _ => s

/-- The main thread goes on by itself. -/
def goTo (s : State n) (pc : Pc) : Option (Label n × State n) :=
  some (.loop, { s with main := { s.main with pc := pc } })

/-- **The next step of do_run()**, in its loop. -/
def mainStep (s : State n) (w : Wakeup) : Option (Label n × State n) :=
  match s.main.pc with
  | .top =>
      let polls := s.main.polls.map (Option.map pollReset)
      let s := { s with main := { s.main with polls := polls } }
      if nValidPolls polls = 0 then goTo s (.done 0)
      else onQueues s (.call () ⟨some qmx, some polls, pollNsec⟩) fun _ s =>
        { s with main := { s.main with pc := .polling } }
  | .polling => onQueues s (.go ()) afterPoll
  | .sizing i =>
      if h : i < n then onQueues s (.op ⟨i, h⟩ (.enter .size)) (afterSize i) else goTo s .top
  | .getting i j qsz =>
      if h : i < n then
        if j < qsz then
          onQueues s (.op ⟨i, h⟩ (.enter (.get (some 8) (-1)))) (afterGet i j qsz)
        else goTo s (.sizing (i + 1))
      else none
  | .getAsleep i j qsz k =>
      if h : i < n then onQueues s (.op ⟨i, h⟩ (.resume k w)) (afterGet i j qsz) else none
  | .done _ => none

/-- SIGINT comes, or the loop of `s_stop_all` goes on. -/
def interruptStep (s : State n) : Option (Label n × State n) :=
  match s.stopAll with
  | none => some (.interrupted, { s with stopAll := some 0 })
  | some i =>
      if h : i < n then
        onQueues s (.op ⟨i, h⟩ (.enter (.shutdown true))) fun _ s =>
          { s with stopAll := some (i + 1) }
      -- it is done once only
      else none

/-- **One step** of the program. -/
def next (m_n_puts : Nat) (s : State n) : Action n → Option (Label n × State n)
  | .put q now =>
      let p := s.putter q
      if p.ret = none ∧ p.asleep = none then
        let val := if p.i < m_n_puts then now.bytes else eof
        putStep m_n_puts s q (.enter (.put (some val) (-1)))
      else none
  | .putWakes q w =>
      match (s.putter q).asleep with
      | some k => if w ≠ .timedout then putStep m_n_puts s q (.resume k w) else none
      | none => none
  | .main w => if w ≠ .timedout then mainStep s w else none
  | .pollWakes w => onQueues s (.wake () w) fun _ s => s
  | .interrupt => interruptStep s

/-- The transition relation. -/
abbrev Step (m_n_puts : Nat) : State n → Label n → State n → Prop := observed (next m_n_puts)

/-- What was seen of the queues. -/
def seen (ls : List (Label n)) : List (Qmuxer.Label Unit (Fin n)) :=
  ls.filterMap fun
    | .queues l => some l
    | _ => none

/-! ## §3. What a step does. -/

/-- The call of a thread in `s_test_thread_main`, or the end of its sleep. -/
inductive PutterRuns (m_n_puts : Nat) (p : Putter) : Input Call Cont → Prop
  | put (now : Date) (hret : p.ret = none) (hasleep : p.asleep = none) :
      PutterRuns m_n_puts p (.enter (.put (some (if p.i < m_n_puts then now.bytes else eof)) (-1)))
  | wakes {k : Cont} (hk : p.asleep = some k) (w : Wakeup) : PutterRuns m_n_puts p (.resume k w)

/-- The call of the main thread, and how it goes on. -/
inductive MainRuns (s : State n) : Fin n → Input Call Cont →
    (Qmuxer.Label Unit (Fin n) → State n → State n) → Prop
  | size {q : Fin n} (hpc : s.main.pc = .sizing q) : MainRuns s q (.enter .size) (afterSize q)
  | get {q : Fin n} {j qsz : Nat} (hpc : s.main.pc = .getting q j qsz) (hj : j < qsz) :
      MainRuns s q (.enter (.get (some 8) (-1))) (afterGet q j qsz)
  | wakes {q : Fin n} {j qsz : Nat} {k : Cont} (hpc : s.main.pc = .getAsleep q j qsz k)
      (w : Wakeup) : MainRuns s q (.resume k w) (afterGet q j qsz)

/-- **What each step is.** -/
inductive Moves (m_n_puts : Nat) (s : State n) : Label n → State n → Prop
  | putter {q : Fin n} {i : Input Call Cont} (hruns : PutterRuns m_n_puts (s.putter q) i)
      {o : Outcome Cont Ret Cond Stop} {sys : System Unit (Fin n)}
      (hstep : Qmuxer.Step s.sys (.op q i o) sys) :
      Moves m_n_puts s (.queues (.op q i o)) { s with
        sys := sys
        putter := Function.update s.putter q (putterAfter m_n_puts (s.putter q) (.op q i o)) }
  | main {q : Fin n} {i : Input Call Cont} {k : Qmuxer.Label Unit (Fin n) → State n → State n}
      (hruns : MainRuns s q i k) {o : Outcome Cont Ret Cond Stop} {sys : System Unit (Fin n)}
      (hstep : Qmuxer.Step s.sys (.op q i o) sys) :
      Moves m_n_puts s (.queues (.op q i o)) (k (.op q i o) { s with sys := sys })
  /-- The main thread goes on in its poll, or enters it. -/
  | poll {l : Qmuxer.Label Unit (Fin n)} (hl : ∀ q i o, l ≠ .op q i o)
      {sys : System Unit (Fin n)} (hstep : Qmuxer.Step s.sys l sys) (pc : Pc)
      (hpc : pc = s.main.pc ∨ pc = .polling ∨ pc = .sizing 0 ∨ pc = .top ∨ pc = .done 1)
      (polls : List (Option (Poll (Fin n))))
      (hpolls : polls = s.main.polls ∨ polls = s.main.polls.map (Option.map pollReset)) :
      Moves m_n_puts s (.queues l) { s with
        sys := sys
        main := { s.main with pc := pc, polls := polls } }
  | ended (hnone : nValidPolls (s.main.polls.map (Option.map pollReset)) = 0) :
      Moves m_n_puts s .loop { s with main := { s.main with
        pc := .done 0
        polls := s.main.polls.map (Option.map pollReset) } }
  | goesOn (pc : Pc) (hpc : pc = .top ∨ ∃ i, pc = .sizing i) :
      Moves m_n_puts s .loop { s with main := { s.main with pc := pc } }
  | interrupted (hnone : s.stopAll = none) :
      Moves m_n_puts s .interrupted { s with stopAll := some 0 }
  | shutdown {q : Fin n} (hat : s.stopAll = some q) {o : Outcome Cont Ret Cond Stop}
      {sys : System Unit (Fin n)}
      (hstep : Qmuxer.Step s.sys (.op q (.enter (.shutdown true)) o) sys) :
      Moves m_n_puts s (.queues (.op q (.enter (.shutdown true)) o))
        { s with sys := sys, stopAll := some (q + 1) }

variable {m_n_puts : Nat} {s s' : State n} {l : Label n}

/-- What a choice on the queues has done. -/
theorem onQueues_some {a : Qmuxer.Action Unit (Fin n)}
    {k : Qmuxer.Label Unit (Fin n) → State n → State n} (h : onQueues s a k = some (l, s')) :
    ∃ ql sys, Qmuxer.next s.sys a = some (ql, sys) ∧ l = .queues ql ∧
      s' = k ql { s with sys := sys } := by
  unfold onQueues at h
  split at h
  next ql sys hnext =>
    simp only [Option.some.injEq, Prod.mk.injEq] at h
    exact ⟨ql, sys, hnext, h.1.symm, h.2.symm⟩
  next => exact absurd h (by simp)

/-- A call on a queue is seen as one. -/
theorem next_op {sys sys' : System Unit (Fin n)} {q : Fin n} {i : Input Call Cont}
    {ql : Qmuxer.Label Unit (Fin n)} (h : Qmuxer.next sys (.op q i) = some (ql, sys')) :
    ∃ o, ql = .op q i o ∧ Qmuxer.Step sys (.op q i o) sys' := by
  have hstep : Qmuxer.Step sys ql sys' := ⟨_, h⟩
  simp only [Qmuxer.next] at h
  split at h
  next => exact absurd h (by simp)
  next =>
    split at h
    next =>
      simp only [Option.some.injEq, Prod.mk.injEq] at h
      obtain ⟨rfl, -⟩ := h
      exact ⟨_, rfl, hstep⟩
    next =>
      simp only [Option.some.injEq, Prod.mk.injEq] at h
      obtain ⟨rfl, -⟩ := h
      exact ⟨_, rfl, hstep⟩
    next => exact absurd h (by simp)

/-- A choice of a poller is not seen as a call on a queue. -/
theorem next_poller {sys sys' : System Unit (Fin n)} {a : Qmuxer.Action Unit (Fin n)}
    (ha : a.thread = some ()) {ql : Qmuxer.Label Unit (Fin n)}
    (h : Qmuxer.next sys a = some (ql, sys')) : ∀ q i o, ql ≠ .op q i o := by
  rintro q i o rfl
  have hthread := Qmuxer.next_thread h
  rw [ha] at hthread
  exact absurd hthread (by simp [Qmuxer.Label.thread])

theorem mainStep_moves {w : Wakeup} (h : mainStep s w = some (l, s')) : Moves m_n_puts s l s' := by
  unfold mainStep at h
  split at h
  next hpc =>
    simp only [] at h
    split at h
    next hnone =>
      simp only [goTo, Option.some.injEq, Prod.mk.injEq] at h
      obtain ⟨rfl, rfl⟩ := h
      exact .ended hnone
    next =>
      obtain ⟨ql, sys, hnext, rfl, rfl⟩ := onQueues_some h
      have hstep : Qmuxer.Step s.sys ql sys := ⟨_, hnext⟩
      exact .poll (next_poller rfl hnext) hstep .polling (.inr (.inl rfl))
        (s.main.polls.map (Option.map pollReset)) (.inr rfl)
  next hpc =>
    obtain ⟨ql, sys, hnext, rfl, rfl⟩ := onQueues_some h
    have hmoves := fun pc hpc => (Moves.poll (next_poller rfl hnext) ⟨_, hnext⟩ pc hpc s.main.polls
      (.inl rfl) : Moves m_n_puts s (.queues ql) _)
    unfold afterPoll
    split
    next r =>
      refine hmoves _ ?_
      split
      · exact .inr (.inr (.inl rfl))
      · split
        · exact .inr (.inr (.inr (.inl rfl)))
        · exact .inr (.inr (.inr (.inr rfl)))
    next => exact hmoves s.main.pc (.inl rfl)
  next i hpc =>
    split at h
    next hi =>
      obtain ⟨ql, sys, hnext, rfl, rfl⟩ := onQueues_some h
      obtain ⟨o, rfl, hstep⟩ := next_op hnext
      exact .main (.size (q := ⟨i, hi⟩) hpc) hstep
    next =>
      simp only [goTo, Option.some.injEq, Prod.mk.injEq] at h
      obtain ⟨rfl, rfl⟩ := h
      exact .goesOn .top (.inl rfl)
  next i j qsz hpc =>
    split at h
    next hi =>
      split at h
      next hj =>
        obtain ⟨ql, sys, hnext, rfl, rfl⟩ := onQueues_some h
        obtain ⟨o, rfl, hstep⟩ := next_op hnext
        exact .main (.get (q := ⟨i, hi⟩) hpc hj) hstep
      next =>
        simp only [goTo, Option.some.injEq, Prod.mk.injEq] at h
        obtain ⟨rfl, rfl⟩ := h
        exact .goesOn _ (.inr ⟨i + 1, rfl⟩)
    next => exact absurd h (by simp)
  next i j qsz k hpc =>
    split at h
    next hi =>
      obtain ⟨ql, sys, hnext, rfl, rfl⟩ := onQueues_some h
      obtain ⟨o, rfl, hstep⟩ := next_op hnext
      exact .main (.wakes (q := ⟨i, hi⟩) hpc w) hstep
    next => exact absurd h (by simp)
  next => exact absurd h (by simp)

/-- **The inversion lemma.** -/
theorem step_moves (h : Step m_n_puts s l s') : Moves m_n_puts s l s' := by
  obtain ⟨a, ha⟩ := h
  cases a with
  | put q now =>
    simp only [next] at ha
    split at ha
    next hp =>
      obtain ⟨ql, sys, hnext, rfl, rfl⟩ := onQueues_some ha
      obtain ⟨o, rfl, hstep⟩ := next_op hnext
      exact .putter (.put now hp.1 hp.2) hstep
    next => exact absurd ha (by simp)
  | putWakes q w =>
    simp only [next] at ha
    split at ha
    next k hk =>
      split at ha
      next =>
        obtain ⟨ql, sys, hnext, rfl, rfl⟩ := onQueues_some ha
        obtain ⟨o, rfl, hstep⟩ := next_op hnext
        exact .putter (.wakes hk w) hstep
      next => exact absurd ha (by simp)
    next => exact absurd ha (by simp)
  | main w =>
    simp only [next] at ha
    split at ha
    · exact mainStep_moves ha
    · exact absurd ha (by simp)
  | pollWakes w =>
    simp only [next] at ha
    obtain ⟨ql, sys, hnext, rfl, rfl⟩ := onQueues_some ha
    exact .poll (next_poller rfl hnext) ⟨_, hnext⟩ s.main.pc (.inl rfl) s.main.polls (.inl rfl)
  | interrupt =>
    simp only [next, interruptStep] at ha
    split at ha
    next hnone =>
      simp only [Option.some.injEq, Prod.mk.injEq] at ha
      obtain ⟨rfl, rfl⟩ := ha
      exact .interrupted hnone
    next i hi =>
      split at ha
      next hlt =>
        obtain ⟨ql, sys, hnext, rfl, rfl⟩ := onQueues_some ha
        obtain ⟨o, rfl, hstep⟩ := next_op hnext
        exact .shutdown (q := ⟨i, hlt⟩) hi hstep
      next => exact absurd ha (by simp)

end Mccp.Events
