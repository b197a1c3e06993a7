/-
  Mccp.Cbuffer.Cancelled
  ──────────────────────
  **A QUEUE WHOSE USERS ARE CANCELLED WHILE THEY WAIT.**

  The buffer with its lock as a mutex.  Who is cancelled in a put, a get or a peek
  has the lock again when its clean-up handler runs, and the handler calls
  mccp_cbuffer_cancel_janitor(), whatever the thread was doing: that is right as
  long as there is no cancellation point but the waits.

      cancelled_behaves_as_fifo — then the buffer is still the list, and a call
                                  that was cancelled has not happened
-/
import Mccp.Cbuffer.Behaviour
import Mccp.Lib.Locked

namespace Mccp.Cbuffer

open Memory Monitor Transition

/-- The buffer and its mutex. -/
abbrev LockedState (τ : Type) := Locked.State τ Record Call Cont Ret Cond

/-- What is seen of a step at the mutex. -/
abbrev LockedSeen (τ : Type) := Locked.Seen τ Call Cont Ret Cond Stop

variable {es cap : Nat} {delProc : Bool} {cb : Record} {τ : Type} [DecidableEq τ]

/-- What the users of the buffer can rely on in a state that a run has reached. -/
structure StaysFifo (es cap : Nat) (delProc : Bool) (ls : List (LockedSeen τ))
    (s : LockedState τ) (a : State τ (Fifo cap) Cont Cond) : Prop where
  run : Run (Step (Fifo.code es cap delProc)) (State.init τ (Fifo.empty cap))
    ((ls.filterMap Locked.Seen.view).map (Label.map Ret.toSeen)) a
  isOperational : s.shared.isOperational = a.shared.isOpen
  nElements : s.shared.nElements = a.shared.items.length
  /-- The lock is with the one thread that is past it. -/
  holder : ∀ t, s.mutex = some t ↔ (s.place t).holds = true
  /-- Who has been cancelled in a wait has not come out of it. -/
  cancelled : ∀ t k, s.place t = .ended (some k) → a.thread t = .woken k .failed

/-- **Cancelled users leave the list as it is.** -/
theorem BehavesAsFifo.stays (h : BehavesAsFifo es cap delProc cb) {ls : List (LockedSeen τ)}
    {s : LockedState τ}
    (hrun : Run (restrict (Locked.Step code) Locked.InWaits) (Locked.State.init τ cb) ls s)
    (hb : PutsBounded (ls.filterMap Locked.Seen.view)) :
    ∃ a, StaysFifo es cap delProc ls s a := by
  have hright := Locked.right_of_inWaits hrun
  have hmonitor := Locked.refines_run (fun _ => rfl) hright
  obtain ⟨a, ha, hthread, -, hopen, hcount⟩ := h τ _ _ hmonitor hb
  refine ⟨a, ha, hopen, hcount, (Locked.inv_run hright).holder, fun t k hp => ?_⟩
  rw [← hthread]
  show (s.place t).thread = .woken k .failed
  rw [hp]
  rfl

/-- **A created buffer stays a bounded FIFO list when its users are cancelled in
their waits**, unless the size of its block wraps. -/
theorem cancelled_behaves_as_fifo (env : CreateEnv) (elemsize : UInt64) (maxelems : Int64)
    (proc : Bool) (hes : 0 < elemsize.toNat) (hmx : 0 < maxelems.toInt)
    (hmem : (env.malloc (allocSize elemsize maxelems)).isSome) (hlocks : env.locks = .ok)
    (hfits : sizeofRecord + elemsize.toNat * (maxelems.toInt.toNat + 1) < 2 ^ 64) :
    ∃ cb, createWithSize env elemsize maxelems proc = .ok (.ok, some cb) ∧
      ∀ (τ : Type) [DecidableEq τ] (ls : List (LockedSeen τ)) (s : LockedState τ),
        Run (restrict (Locked.Step code) Locked.InWaits) (Locked.State.init τ cb) ls s →
        PutsBounded (ls.filterMap Locked.Seen.view) →
        ∃ a, StaysFifo elemsize.toNat maxelems.toInt.toNat proc ls s a := by
  obtain ⟨-, cb, hcreate, hw, hz, hholds⟩ | ⟨hwrap, -⟩ :=
    create_outcomes env elemsize maxelems proc hes hmx hmem hlocks
  · exact ⟨cb, hcreate, fun τ _ ls s hrun hb => (hholds.behavesAsFifo hz hw).stays hrun hb⟩
  · exact absurd hfits (Nat.not_lt.mpr hwrap)

/-- A getter waits and is cancelled, and another thread puts a byte. -/
def cancelledGetter : List (Locked.Action Bool Call) :=
  [.call true (.get (some 1) (-1)), .lock true, .look true, .write true, .cancel true,
    .lock true, .clean true true, .call false (.put (some [7]) (-1)), .lock false, .look false,
    .write false, .unlock false]

/-- A getter is cancelled on an empty buffer of one byte, which another thread fills. -/
theorem cancelled_behaves_as_fifo_getter :
    ∃ (cb : Record) (ls : List (LockedSeen Bool)) (s : LockedState Bool)
      (a : State Bool (Fifo 1) Cont Cond),
      Run (restrict (Locked.Step code) Locked.InWaits) (Locked.State.init Bool cb) ls s ∧
      s.place true = .ended (some (.get (-1))) ∧ s.shared.nElements = 1 ∧
      StaysFifo 1 1 false ls s a := by
  obtain ⟨cb, hcreate, hall⟩ :=
    cancelled_behaves_as_fifo roomy 1 1 false (by decide) (by decide) rfl rfl (by decide)
  obtain rfl : newRecord 1 1 false ⟨106, fun _ => 0⟩ = cb := by
    have hcb : createWithSize roomy 1 1 false =
        .ok (.ok, some (newRecord 1 1 false ⟨106, fun _ => 0⟩)) := rfl
    rw [hcb] at hcreate
    simpa using hcreate
  obtain ⟨⟨ls, s⟩, hexec, hlength, hended, hcount⟩ : ∃ p, exec (Locked.next code)
      (Locked.State.init Bool (newRecord 1 1 false ⟨106, fun _ => 0⟩)) cancelledGetter = some p ∧
      p.1.length = 12 ∧ p.2.place true = .ended (some (.get (-1))) ∧ p.2.shared.nElements = 1 := by
    refine ⟨_, rfl, ?_⟩
    exact ⟨rfl, rfl, rfl⟩
  have hchecked : Checked (Locked.next code) Locked.InWaits
      (Locked.State.init Bool (newRecord 1 1 false ⟨106, fun _ => 0⟩)) cancelledGetter :=
    ⟨trivial, trivial, trivial, trivial, rfl, trivial, rfl, trivial, trivial, trivial, trivial,
      trivial, trivial⟩
  have hs := run_of_checked hexec hchecked
  obtain ⟨a, ha⟩ := hall Bool ls s hs fun ms hms => by
    have hle := (putsSince_le_length ms).trans
      (hms.length_le.trans (List.length_filterMap_le Locked.Seen.view ls))
    rw [hlength] at hle
    omega
  exact ⟨_, ls, s, a, hs, hended, hcount, ha⟩

end Mccp.Cbuffer
