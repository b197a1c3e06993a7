/-
  Mccp.Qmuxer.PollObject
  ──────────────────────
  **THE LIFE OF A POLL OBJECT: qpoll.c.**

  A poll object holds a queue and the event it polls for, and each is set by a
  call of its own.  A type that is set while there is no queue is not kept, and
  nothing sets it when a queue comes back: the object then polls for no event,
  and a pass counts it every time.

      pollCreate … pollReset  — the calls
      next                    — one call on one variable (executable)
      PollsForSomething       — what a pass must be able to rely on
      Forgotten               — a type was given while there was no queue
      polls_for_something_iff — when no call sequence breaks it
-/
import Mccp.Lib.History
import Mccp.Qmuxer.Ready

namespace Mccp.Qmuxer

open Cbuffer History Transition

/-! ## §1. The calls. -/

/-- `IS_VALID_POLL_TYPE`. -/
def isValidPollType (type : PollEvent) : Bool :=
  PollEvent.unknown.bits < type.bits ∧ type.bits ≤ PollEvent.both.bits

/-- What `*mpptr` is: NULL, freed, or an object. -/
inductive PollPtr (Q : Type) where
  | null
  | dangling
  | object (mp : Poll Q)

variable {Q : Type}

/-- `s_poll_initialize`: the result, and the object it leaves. -/
def sPollInitialize (bbq : Option Q) (type : PollEvent) : Result × Option (Poll Q) :=
  match bbq with
  | some q =>
      if isValidPollType type then
        (.ok, some { bbq := some q, type := type, qSize := 0, qRemCapacity := 0 })
      else (.invalidArgs, none)
  | none => (.invalidArgs, none)

/-- `mccp_qmuxer_poll_create`; `malloc` tells whether there is memory.  The
pointer to an object that could not be initialised stays, and the object does
not. -/
def pollCreate (malloc : Bool) (bbq : Option Q) (type : PollEvent) : Result × PollPtr Q :=
  if malloc then
    match sPollInitialize bbq type with
    | (ret, some mp) => (ret, .object mp)
    | (ret, none) => (ret, .dangling)
  else (.noMemory, .null)

/-- `mccp_qmuxer_poll_set_queue` on an object; the queues are found as `queue`
has them. -/
def pollSetQueue (queue : Q → Record) (mp : Poll Q) (bbq : Option Q) : Result × Poll Q :=
  let mp := { mp with bbq := bbq }
  match bbq with
  | some q => if (queue q).isOperational then (.ok, mp) else (.notOperational, mp)
  | none => (.ok, mp)

/-- `mccp_qmuxer_poll_set_type` on an object. -/
def pollSetType (mp : Poll Q) (type : PollEvent) : Result × Poll Q :=
  if isValidPollType type then
    match mp.bbq with
    | some _ => (.ok, { mp with type := type })
    -- without a queue the type is not kept
    | none => (.ok, { mp with type := .unknown })
  else (.invalidArgs, mp)

/-- `mccp_qmuxer_poll_reset` on an object. -/
def pollReset (mp : Poll Q) : Result × Poll Q := (.ok, { mp with qSize := 0, qRemCapacity := 0 })

/-! ## §2. Call sequences. -/

/-- The calls that set up a poll object. -/
inductive PollOp (Q : Type) where
  | create (bbq : Option Q) (type : PollEvent)
  | setQueue (bbq : Option Q)
  | setType (type : PollEvent)
  | reset
  deriving DecidableEq, Repr

/-- What the outside decides during a call: the memory, and the queues. -/
structure PollEnv (Q : Type) where
  malloc : Bool
  queue : Q → Record

/-- A call, and its result. -/
structure PollLabel (Q : Type) where
  op : PollOp Q
  ret : Result
  deriving DecidableEq, Repr

/-- A call on a pointer that `create` has not just set: on NULL it is refused, and
on what has been freed it is not defined. -/
def onObject (s : PollPtr Q) (op : PollOp Q) (f : Poll Q → Result × Poll Q) :
    Option (PollLabel Q × PollPtr Q) :=
  match s with
  | .null => some (⟨op, .invalidArgs⟩, .null)
  | .dangling => none
  | .object mp => some (⟨op, (f mp).1⟩, .object (f mp).2)

/-- **One call** on the variable. -/
def nextPollOp (s : PollPtr Q) (a : PollOp Q × PollEnv Q) :
    Option (PollLabel Q × PollPtr Q) :=
  match a.1 with
  | .create bbq type =>
      let (ret, s') := pollCreate a.2.malloc bbq type
      some (⟨a.1, ret⟩, s')
  | .setQueue bbq => onObject s a.1 fun mp => pollSetQueue a.2.queue mp bbq
  | .setType type => onObject s a.1 fun mp => pollSetType mp type
  | .reset => onObject s a.1 pollReset

/-- The calls that succeed. -/
abbrev PollStep : PollPtr Q → PollLabel Q → PollPtr Q → Prop :=
  restrict (observed nextPollOp) fun _ l _ => l.ret = .ok

/-! ## §3. What a call does to an object. -/

/-- **What a successful call can do.** -/
inductive PollEffect (s : PollPtr Q) : PollOp Q → PollPtr Q → Prop
  | create (q : Q) (type : PollEvent) (htype : type ≠ .unknown) :
      PollEffect s (.create (some q) type)
        (.object { bbq := some q, type := type, qSize := 0, qRemCapacity := 0 })
  | setQueue (mp : Poll Q) (hs : s = .object mp) (bbq : Option Q) :
      PollEffect s (.setQueue bbq) (.object { mp with bbq := bbq })
  | setType (mp : Poll Q) (hs : s = .object mp) (type type' : PollEvent)
      (hkept : type' = .unknown ↔ mp.bbq = none) :
      PollEffect s (.setType type) (.object { mp with type := type' })
  | reset (mp : Poll Q) (hs : s = .object mp) :
      PollEffect s .reset (.object { mp with qSize := 0, qRemCapacity := 0 })

theorem isValidPollType_iff {type : PollEvent} : isValidPollType type = true ↔ type ≠ .unknown := by
  cases type <;> decide

/-- A call that succeeds had an object to work on. -/
theorem onObject_ok {s s' : PollPtr Q} {op : PollOp Q} {f : Poll Q → Result × Poll Q}
    {l : PollLabel Q} (h : onObject s op f = some (l, s')) (hret : l.ret = .ok) :
    ∃ mp, s = .object mp ∧ (f mp).1 = .ok ∧ l.op = op ∧ s' = .object (f mp).2 := by
  cases s with
  | null =>
    simp only [onObject, Option.some.injEq, Prod.mk.injEq] at h
    have hcode : Result.invalidArgs = Result.ok := by
      rw [← h.1] at hret
      exact hret
    exact absurd hcode (by decide)
  | dangling => exact absurd h (by simp [onObject])
  | object mp =>
    simp only [onObject, Option.some.injEq, Prod.mk.injEq] at h
    obtain ⟨rfl, rfl⟩ := h
    exact ⟨mp, rfl, hret, rfl, rfl⟩

theorem pollStep_effect {s s' : PollPtr Q} {l : PollLabel Q} (h : PollStep s l s') :
    PollEffect s l.op s' := by
  obtain ⟨⟨⟨op, env⟩, ha⟩, hret⟩ := h
  cases op with
  | create bbq type =>
    simp only [nextPollOp, Option.some.injEq, Prod.mk.injEq] at ha
    obtain ⟨rfl, rfl⟩ := ha
    unfold pollCreate sPollInitialize at hret ⊢
    cases hm : env.malloc with
    | false => simp [hm, Result.ok, Result.noMemory] at hret
    | true =>
      cases bbq with
      | none => simp [hm, Result.ok, Result.invalidArgs] at hret
      | some q =>
        by_cases htype : isValidPollType type = true
        · simp only [if_true, htype]
          exact .create q type (isValidPollType_iff.mp htype)
        · simp [hm, htype, Result.ok, Result.invalidArgs] at hret
  | setQueue bbq =>
    obtain ⟨mp, rfl, -, hop, rfl⟩ := onObject_ok ha hret
    rw [show l.op = .setQueue bbq from hop]
    have hmp : (pollSetQueue env.queue mp bbq).2 = { mp with bbq := bbq } := by
      unfold pollSetQueue
      cases bbq with
      | none => rfl
      | some q =>
        dsimp only
        split <;> rfl
    rw [hmp]
    exact .setQueue mp rfl bbq
  | setType type =>
    obtain ⟨mp, rfl, hok, hop, rfl⟩ := onObject_ok ha hret
    rw [show l.op = .setType type from hop]
    unfold pollSetType at hok ⊢
    split at hok
    next htype =>
      rw [if_pos htype]
      split
      next q hq =>
        refine .setType mp rfl type type ?_
        rw [hq]
        exact iff_of_false (isValidPollType_iff.mp htype) (by simp)
      next hq =>
        refine .setType mp rfl type .unknown ?_
        exact iff_of_true rfl hq
    next => exact absurd (show Result.invalidArgs = Result.ok from hok) (by decide)
  | reset =>
    obtain ⟨mp, rfl, -, hop, rfl⟩ := onObject_ok ha hret
    rw [show l.op = .reset from hop]
    exact .reset mp rfl

/-! ## §4. Polling for something. -/

/-- **The object polls for something**: whenever a pass counts an operational
queue as ready for it, an event that the object asks for has happened. -/
def PollsForSomething (mp : Poll Q) : Prop :=
  isValidPollType mp.type = true ∧
  ∀ (cb : Record) (qmx : Qmuxer) (isPre : Bool), cb.isOperational = true → Counted cb.view →
    (visit cb qmx mp isPre).2.1 = 0 → AnyEvent mp.type cb

theorem pollsForSomething_iff {mp : Poll Q} : PollsForSomething mp ↔ mp.type ≠ .unknown := by
  constructor
  · intro h
    exact isValidPollType_iff.mp h.1
  · intro htype
    refine ⟨isValidPollType_iff.mpr htype, fun cb qmx isPre hop hcount hready => ?_⟩
    rw [visit_operational hop hcount] at hready
    exact anyEvent_of_lacksNothing htype hcount (bits_eq_zero.mp hready)

/-- The queue that a sequence of calls leaves in the object. -/
def queueAfter : List (PollOp Q) → Option Q → Option Q
  | [], bbq => bbq
  | .create bbq _ :: ops, _ => queueAfter ops bbq
  | .setQueue bbq :: ops, _ => queueAfter ops bbq
  | .setType _ :: ops, bbq => queueAfter ops bbq
  | .reset :: ops, bbq => queueAfter ops bbq

/-- A call that gives the object a type. -/
def PollOp.types : PollOp Q → Bool
  | .create _ _ => true
  | .setType _ => true
  | .setQueue _ => false
  | .reset => false

/-- **The last type was given while there was no queue.** -/
def Forgotten (ops : List (PollOp Q)) : Prop :=
  ∃ before type after, ops = before ++ .setType type :: after ∧
    queueAfter before none = none ∧ ∀ op ∈ after, op.types = false

/-- No queue is set when the last type was given while there was none. -/
def TypeFirst (ops : List (PollOp Q)) (op : PollOp Q) : Prop :=
  ∀ q, op = .setQueue (some q) → ¬ Forgotten ops

variable {ops : List (PollOp Q)} {op : PollOp Q}

theorem queueAfter_snoc (bbq : Option Q) :
    queueAfter (ops ++ [op]) bbq = queueAfter [op] (queueAfter ops bbq) := by
  induction ops generalizing bbq with
  | nil => rfl
  | cons o ops ih => cases o <;> exact ih _

theorem forgotten_snoc_types (h : op.types = true) :
    Forgotten (ops ++ [op]) ↔ (∃ type, op = .setType type) ∧ queueAfter ops none = none := by
  constructor
  · intro hf
    obtain ⟨before, type, after, heq, hqueue, hafter⟩ := hf
    rcases List.eq_nil_or_concat after with rfl | ⟨mid, o, rfl⟩
    · obtain ⟨rfl, hop⟩ := List.append_inj' heq rfl
      injection hop with hop
      exact ⟨⟨type, hop⟩, hqueue⟩
    · rw [List.concat_eq_append, ← List.cons_append, ← List.append_assoc] at heq
      obtain ⟨-, hop⟩ := List.append_inj' heq rfl
      injection hop with hop
      have hfalse := hafter o (by simp)
      rw [← hop, h] at hfalse
      exact absurd hfalse (by simp)
  · intro hboth
    obtain ⟨⟨type, rfl⟩, hqueue⟩ := hboth
    exact ⟨ops, type, [], rfl, hqueue, fun o ho => absurd ho (by simp)⟩

theorem forgotten_snoc_other (h : op.types = false) : Forgotten (ops ++ [op]) ↔ Forgotten ops := by
  constructor
  · intro hf
    obtain ⟨before, type, after, heq, hqueue, hafter⟩ := hf
    rcases List.eq_nil_or_concat after with rfl | ⟨mid, o, rfl⟩
    · obtain ⟨-, hop⟩ := List.append_inj' heq rfl
      injection hop with hop
      rw [hop] at h
      exact absurd h (by simp [PollOp.types])
    · rw [List.concat_eq_append, ← List.cons_append, ← List.append_assoc] at heq
      obtain ⟨hops, -⟩ := List.append_inj' heq rfl
      exact ⟨before, type, mid, hops, hqueue, fun x hx => hafter x (by simp [hx])⟩
  · intro hf
    obtain ⟨before, type, after, rfl, hqueue, hafter⟩ := hf
    refine ⟨before, type, after ++ [op], by simp, hqueue, fun x hx => ?_⟩
    rcases List.mem_append.mp hx with hx | hx
    · exact hafter x hx
    · rw [List.mem_singleton.mp hx]
      exact h

/-! ## §5. Sequences of successful calls. -/

/-- What the calls so far say of the variable. -/
inductive Tracks (ops : List (PollOp Q)) : PollPtr Q → Prop
  | null (h : ops = []) : Tracks ops .null
  | object (mp : Poll Q) (hqueue : mp.bbq = queueAfter ops none)
      (htype : mp.type = .unknown ↔ Forgotten ops) : Tracks ops (.object mp)

theorem Tracks.step {s s' : PollPtr Q} (ht : Tracks ops s) (h : PollEffect s op s') :
    Tracks (ops ++ [op]) s' := by
  cases h with
  | create q type htype =>
    refine .object _ (by rw [queueAfter_snoc]; rfl) ?_
    rw [forgotten_snoc_types rfl]
    exact iff_of_false htype fun h => absurd h.1 (by simp)
  | setQueue mp hs bbq =>
    subst hs
    cases ht with
    | object _ hqueue htype =>
      refine .object _ (by rw [queueAfter_snoc]; rfl) ?_
      rw [forgotten_snoc_other rfl]
      exact htype
  | setType mp hs type type' hkept =>
    subst hs
    cases ht with
    | object _ hqueue htype =>
      refine .object _ (by rw [queueAfter_snoc]; exact hqueue) ?_
      rw [forgotten_snoc_types rfl, ← hqueue]
      exact hkept.trans ⟨fun h => ⟨⟨type, rfl⟩, h⟩, And.right⟩
  | reset mp hs =>
    subst hs
    cases ht with
    | object _ hqueue htype =>
      refine .object _ (by rw [queueAfter_snoc]; exact hqueue) ?_
      rw [forgotten_snoc_other rfl]
      exact htype

theorem Tracks.run {ls : List (PollLabel Q)} {s : PollPtr Q} (hrun : Run PollStep .null ls s) :
    Tracks (ls.map PollLabel.op) s := by
  refine hrun.invariant_history (fun ls s => Tracks (ls.map PollLabel.op) s) ?_ (.null rfl)
  intro ls s l s' _ ht hstep
  rw [List.map_append]
  exact ht.step (pollStep_effect hstep)

/-- Whenever the object has a queue, it polls for something. -/
def PollPtr.Polls (s : PollPtr Q) : Prop :=
  ∀ mp, s = .object mp → mp.bbq ≠ none → PollsForSomething mp

/-- What the calls so far say of it. -/
theorem Tracks.polls_iff {s : PollPtr Q} (ht : Tracks ops s) :
    s.Polls ↔ (queueAfter ops none ≠ none → ¬ Forgotten ops) := by
  cases ht with
  | null h =>
    refine iff_of_true (fun mp hmp => absurd hmp (by simp)) ?_
    rw [h]
    exact fun hne => absurd rfl hne
  | object mp hqueue htype =>
    rw [← hqueue, ← htype]
    constructor
    · intro h hne
      exact pollsForSomething_iff.mp (h mp rfl hne)
    · intro h mp' heq hne
      injection heq with heq
      subst heq
      exact pollsForSomething_iff.mpr (h hne)

/-- One more call, after calls that left the object polling. -/
theorem typeFirst_iff (hbefore : queueAfter ops none ≠ none → ¬ Forgotten ops) :
    (queueAfter (ops ++ [op]) none ≠ none → ¬ Forgotten (ops ++ [op])) ↔ TypeFirst ops op := by
  unfold TypeFirst
  rw [queueAfter_snoc]
  cases op with
  | create bbq type =>
    rw [forgotten_snoc_types rfl]
    exact iff_of_true (fun _ h => absurd h.1 (by simp)) fun q h => absurd h (by simp)
  | setType type =>
    rw [forgotten_snoc_types rfl]
    exact iff_of_true (fun hne h => hne h.2) fun q h => absurd h (by simp)
  | reset =>
    rw [forgotten_snoc_other rfl]
    exact iff_of_true hbefore fun q h => absurd h (by simp)
  | setQueue bbq =>
    rw [forgotten_snoc_other rfl]
    cases bbq with
    | none => exact iff_of_true (fun hne => absurd rfl hne) fun q h => absurd h (by simp)
    | some q =>
      constructor
      · intro h _ _
        exact h (by simp [queueAfter])
      · intro h _
        exact h q rfl

/-- **A poll object with a queue polls for something, all along a sequence of
successful calls, exactly when no queue is ever set after the last type was
given while there was none.** -/
theorem polls_for_something_iff {ls : List (PollLabel Q)} {s : PollPtr Q}
    (hrun : Run PollStep .null ls s) :
    (∀ pre, pre <+: ls → ∀ t, Run PollStep .null pre t → t.Polls) ↔
      Obeys TypeFirst [] (ls.map PollLabel.op) := by
  induction ls using List.reverseRecOn generalizing s with
  | nil =>
    refine iff_of_true ?_ trivial
    intro pre hpre t ht
    rw [List.prefix_nil.mp hpre] at ht
    exact (Tracks.run ht).polls_iff.mpr fun hne => absurd rfl hne
  | append_singleton ls l ih =>
    obtain ⟨u, hu, hl⟩ := hrun.last
    rw [List.map_append, List.map_singleton, obeys_snoc, ← ih hu, List.nil_append]
    constructor
    · intro h
      have hls := fun pre hpre t ht =>
        h pre (List.IsPrefix.trans hpre (List.prefix_append ls [l])) t ht
      have hu' := (Tracks.run hu).polls_iff.mp (hls ls (List.prefix_refl ls) u hu)
      have hs := (Tracks.run hrun).polls_iff.mp (h _ (List.prefix_refl _) s hrun)
      rw [List.map_append, List.map_singleton, typeFirst_iff hu'] at hs
      exact ⟨hls, hs⟩
    · intro h pre hpre t ht
      obtain ⟨hls, hop⟩ := h
      rcases List.prefix_concat_iff.mp hpre with rfl | hpre
      · have hu' := (Tracks.run hu).polls_iff.mp (hls ls (List.prefix_refl ls) u hu)
        refine (Tracks.run ht).polls_iff.mpr ?_
        rw [List.map_append, List.map_singleton, typeFirst_iff hu']
        exact hop
      · exact hls pre hpre t ht

/-- Memory, and an operational queue of one byte. -/
def PollEnv.fine : PollEnv Unit := { malloc := true, queue := fun _ => oneByte }

/-- A queue is taken away and comes back, and then the type is changed. -/
def queueThenType : List (PollLabel Unit) :=
  [⟨.create (some ()) .readable, .ok⟩, ⟨.setQueue none, .ok⟩, ⟨.setQueue (some ()), .ok⟩,
    ⟨.setType .writable, .ok⟩, ⟨.reset, .ok⟩]

theorem polls_for_something_queue_then_type :
    Run PollStep .null queueThenType
      (.object { bbq := some (), type := .writable, qSize := 0, qRemCapacity := 0 }) ∧
    ∀ pre, pre <+: queueThenType → ∀ t, Run PollStep .null pre t → t.Polls := by
  have hrun : Run PollStep .null queueThenType
      (.object { bbq := some (), type := .writable, qSize := 0, qRemCapacity := 0 }) := by
    have hchecked : Checked nextPollOp (fun _ l _ => l.ret = .ok) .null
        [(.create (some ()) .readable, .fine), (.setQueue none, .fine),
          (.setQueue (some ()), .fine), (.setType .writable, .fine), (.reset, .fine)] :=
      ⟨rfl, rfl, rfl, rfl, rfl, trivial⟩
    exact run_of_checked rfl hchecked
  refine ⟨hrun, (polls_for_something_iff hrun).mpr ?_⟩
  have hkept : ¬ Forgotten [PollOp.create (some ()) .readable, .setQueue none] := by
    intro h
    have hcreate : Forgotten ([] ++ [PollOp.create (some ()) .readable]) :=
      (forgotten_snoc_other rfl).mp h
    have hnone := (forgotten_snoc_types rfl).mp hcreate
    exact absurd hnone.1 (by simp)
  refine ⟨?_, ?_, fun _ _ => hkept, ?_, ?_, trivial⟩
  all_goals exact fun q h => absurd h (by simp)

/-- The type is changed while the queue is away: when it is back, the object
polls for no event, and every pass counts it as ready. -/
theorem type_without_queue_is_forgotten :
    Run PollStep .null
      [⟨.create (some ()) .readable, .ok⟩, ⟨.setQueue none, .ok⟩, ⟨.setType .writable, .ok⟩,
        ⟨.setQueue (some ()), .ok⟩]
      (.object { bbq := some (), type := .unknown, qSize := 0, qRemCapacity := 0 }) ∧
    ¬ (PollPtr.object
      { bbq := some (), type := .unknown, qSize := 0, qRemCapacity := 0 }).Polls ∧
    ∀ (cb : Record) (qmx : Qmuxer) (isPre : Bool), cb.isOperational = true → Counted cb.view →
      (visit cb qmx
        ({ bbq := some (), type := .unknown, qSize := 0, qRemCapacity := 0 } : Poll Unit)
        isPre).2.1 = 0 := by
  refine ⟨?_, ?_, ?_⟩
  · have hchecked : Checked nextPollOp (fun _ l _ => l.ret = .ok) .null
        [(.create (some ()) .readable, .fine), (.setQueue none, .fine),
          (.setType .writable, .fine), (.setQueue (some ()), .fine)] :=
      ⟨rfl, rfl, rfl, rfl, trivial⟩
    exact run_of_checked rfl hchecked
  · intro h
    exact pollsForSomething_iff.mp (h _ rfl (by simp)) rfl
  · intro cb qmx isPre hop hcount
    rw [visit_operational hop hcount]
    rfl

end Mccp.Qmuxer
