/-
  Mccp.Qmuxer.Ready
  ─────────────────
  **WHICH POLL OBJECTS A PASS COUNTS.**

  A pass counts an object when its queue lacks nothing of what is asked for.
  The header promises another thing: an object has an event when anything of
  what is asked for is there.  For one event this is the same; for both it is
  not, as a queue that is empty, or full, always has the other one.

      setupForPoll — s_qmx_setup_for_poll(), on any queues that it may meet
      AnyEvent     — what the header says an object waits for
      setupLoop_eq — what a pass counts, and what it stores
-/
import Mccp.Cbuffer.Waiting
import Mccp.Qmuxer.Poll

namespace Mccp.Qmuxer

open Cbuffer

variable {Q : Type}

/-! ## §1. One pass. -/

/-- The loop of `s_qmx_setup_for_poll`, from the `i`-th object on: the result of
the function, and the objects.  Other threads use the queues meanwhile: `met i`
is what the queues are when the loop comes to the `i`-th object. -/
def setupLoop (met : Nat → Q → Record) (qmx : Qmuxer) (isPre : Bool) :
    Nat → Int → Nat → List (Option (Poll Q)) → Result × List (Option (Poll Q))
  | npolls, nev, nNulls, [] => (if nNulls = npolls then .invalidArgs else nev, [])
  | i, nev, nNulls, none :: polls =>
      if isPre then (.invalidArgs, none :: polls)
      else
        let (ret, polls) := setupLoop met qmx isPre (i + 1) nev nNulls polls
        (ret, none :: polls)
  | i, nev, nNulls, some mp :: polls =>
      match mp.bbq with
      | some q =>
          let (_, st, mp) := visit (met i q) qmx mp isPre
          if isPre ∧ st < 0 then (st, some mp :: polls)
          else
            let nev := if st = 0 then nev + 1 else nev
            let (ret, polls) := setupLoop met qmx isPre (i + 1) nev nNulls polls
            (ret, some mp :: polls)
      | none =>
          let mp := { mp with qSize := 0, qRemCapacity := 0 }
          let (ret, polls) := setupLoop met qmx isPre (i + 1) nev (nNulls + 1) polls
          (ret, some mp :: polls)

/-- `s_qmx_setup_for_poll`, with its check of the arguments. -/
def setupForPoll (met : Nat → Q → Record) (qmx : Option Qmuxer)
    (polls : Option (List (Option (Poll Q)))) (isPre : Bool) :
    Result × Option (List (Option (Poll Q))) :=
  match qmx, polls with
  | some qmx, some (p :: ps) =>
      let (ret, polls) := setupLoop met qmx isPre 0 0 0 (p :: ps)
      (ret, some polls)
  | _, polls => (.invalidArgs, polls)

/-! ## §2. What a pass is for. -/

/-- A requested event holds: there is a value to read, there is room to write, or,
for both, one of the two. -/
def AnyEvent : PollEvent → Record → Prop
  | .readable, cb => 0 < cb.nElements
  | .writable, cb => cb.nElements < cb.nMaxElements
  | .both, cb => 0 < cb.nElements ∨ cb.nElements < cb.nMaxElements
  | .unknown, _ => False

instance : (type : PollEvent) → (cb : Record) → Decidable (AnyEvent type cb)
  | .readable, cb => inferInstanceAs (Decidable (0 < cb.nElements))
  | .writable, cb => inferInstanceAs (Decidable (cb.nElements < cb.nMaxElements))
  | .both, cb => inferInstanceAs (Decidable (0 < cb.nElements ∨ cb.nElements < cb.nMaxElements))
  | .unknown, _ => inferInstanceAs (Decidable False)

/-- The object has a queue, of which `P` holds when the loop comes to it. -/
def onQueue (P : PollEvent → Record → Prop) [∀ type cb, Decidable (P type cb)]
    (met : Nat → Q → Record) (x : Poll Q × Nat) : Bool :=
  match x.1.bbq with
  | some q => P x.1.type (met x.2 q)
  | none => false

/-- The object, with the sizes of the queue that it has. -/
def recorded (met : Nat → Q → Record) (x : Poll Q × Nat) : Option (Poll Q) :=
  match x.1.bbq with
  | some q => some { x.1 with
      qSize := (met x.2 q).nElements
      qRemCapacity := (met x.2 q).nMaxElements - (met x.2 q).nElements }
  | none => some { x.1 with qSize := 0, qRemCapacity := 0 }

/-! ## §3. What a pass counts. -/

/-- The queue lacks nothing of what is asked for. -/
def LacksNothing (type : PollEvent) (cb : Record) : Prop := needWait cb type = .unknown

instance (type : PollEvent) (cb : Record) : Decidable (LacksNothing type cb) :=
  inferInstanceAs (Decidable (needWait cb type = .unknown))

variable {met : Nat → Q → Record}

theorem remaining_eq {cb : Record} (h : Counted cb.view) :
    remaining cb = cb.nMaxElements - cb.nElements := by
  have h0 : 0 ≤ cb.nElements := h.held_nonneg
  have hle : cb.nElements ≤ cb.nMaxElements := h.held_le
  have hlt : cb.nMaxElements < 2 ^ 63 := h.max_lt
  exact Memory.int64_of_range (by omega) (by omega)

/-- A visit of an operational queue. -/
theorem visit_operational {cb : Record} (hop : cb.isOperational = true) (hcount : Counted cb.view)
    (qmx : Qmuxer) (mp : Poll Q) (isPre : Bool) : (visit cb qmx mp isPre).2 =
      (((needWait cb mp.type).bits : Int),
        { mp with qSize := cb.nElements, qRemCapacity := cb.nMaxElements - cb.nElements }) := by
  unfold visit setupForQmuxer
  simp only []
  rw [if_pos hop, remaining_eq hcount]
  split <;> rfl

theorem bits_eq_zero {type : PollEvent} : (type.bits : Int) = 0 ↔ type = .unknown := by
  cases type <;> decide

/-- **What a pass over operational queues counts, and what it stores.** -/
theorem setupLoop_eq (qmx : Qmuxer) (isPre : Bool) (i : Nat) (nev : Int) (nNulls : Nat)
    (mps : List (Poll Q))
    (hmet : ∀ x ∈ mps.zipIdx i, ∀ q, x.1.bbq = some q →
      (met x.2 q).isOperational = true ∧ Counted (met x.2 q).view) :
    setupLoop met qmx isPre i nev nNulls (mps.map some) =
      (if nNulls + mps.countP (fun mp => mp.bbq = none) = i + mps.length then Result.invalidArgs
        else nev + (mps.zipIdx i).countP (onQueue LacksNothing met),
      (mps.zipIdx i).map (recorded met)) := by
  induction mps generalizing i nev nNulls with
  | nil => simp [setupLoop]
  | cons mp mps ih =>
    have hmet' : ∀ x ∈ mps.zipIdx (i + 1), ∀ q, x.1.bbq = some q →
        (met x.2 q).isOperational = true ∧ Counted (met x.2 q).view :=
      fun x hx => hmet x (by rw [List.zipIdx_cons]; exact List.mem_cons_of_mem _ hx)
    have hlength : i + (mp :: mps).length = i + 1 + mps.length := by
      rw [List.length_cons]
      omega
    rw [hlength, List.map_cons, List.zipIdx_cons, List.map_cons, List.countP_cons,
      List.countP_cons]
    unfold setupLoop
    cases hbbq : mp.bbq with
    | none =>
      -- an object without a queue is none that is ready
      have hready : onQueue LacksNothing met (mp, i) = false := by
        unfold onQueue
        simp only [hbbq]
      have hrecord : recorded met (mp, i) = some { mp with qSize := 0, qRemCapacity := 0 } := by
        unfold recorded
        simp only [hbbq]
      simp only []
      rw [ih (i + 1) nev (nNulls + 1) hmet', hready, hrecord]
      simp [hbbq, Nat.add_assoc, Nat.add_comm 1]
    | some q =>
      have hhead : (mp, i) ∈ (mp :: mps).zipIdx i := by
        rw [List.zipIdx_cons]
        exact List.mem_cons_self
      obtain ⟨hop, hcount⟩ := hmet (mp, i) hhead q hbbq
      have hvisit := visit_operational hop hcount qmx mp isPre
      have hready : onQueue LacksNothing met (mp, i) =
          decide (needWait (met i q) mp.type = .unknown) := by
        unfold onQueue
        simp only [hbbq]
        rfl
      have hrecord : recorded met (mp, i) = some { mp with
          qSize := (met i q).nElements
          qRemCapacity := (met i q).nMaxElements - (met i q).nElements } := by
        unfold recorded
        simp only [hbbq]
      simp only []
      generalize visit (met i q) qmx mp isPre = v at hvisit ⊢
      obtain ⟨cb, st, mp'⟩ := v
      obtain ⟨rfl, rfl⟩ := Prod.mk.inj hvisit
      have hpos : ¬ (isPre = true ∧ ((needWait (met i q) mp.type).bits : Int) < 0) := by omega
      simp only []
      rw [if_neg hpos, ih (i + 1) _ nNulls hmet', hready, hrecord]
      by_cases hneed : needWait (met i q) mp.type = .unknown
      · rw [if_pos (bits_eq_zero.mpr hneed)]
        simp [hneed, Int.add_assoc, Int.add_comm 1]
      · rw [if_neg (fun hzero => hneed (bits_eq_zero.mp hzero))]
        simp [hneed]

/-! ## §4. What a pass should count. -/

theorem lacksNothing_iff {type : PollEvent} {cb : Record} (hcount : Counted cb.view) :
    LacksNothing type cb ↔ (needWaitReadable type = true → cb.nElements ≠ 0) ∧
      (needWaitWritable type = true → cb.nElements ≠ cb.nMaxElements) := by
  have hremaining := remaining_eq hcount
  unfold LacksNothing needWait
  constructor
  · intro h
    split at h
    next => exact absurd h (by decide)
    next hread =>
      split at h
      next => exact absurd h (by decide)
      next hwrite =>
        refine ⟨fun htype hempty => hread ⟨htype, hempty⟩, fun htype hfull => hwrite ⟨htype, ?_⟩⟩
        omega
  · rintro ⟨hread, hwrite⟩
    rw [if_neg (fun h => hread h.1 h.2), if_neg]
    rintro ⟨htype, hfull⟩
    apply hwrite htype
    omega

/-- A queue that lacks nothing has any event. -/
theorem anyEvent_of_lacksNothing {type : PollEvent} {cb : Record} (htype : type ≠ .unknown)
    (hcount : Counted cb.view) (h : LacksNothing type cb) : AnyEvent type cb := by
  have h0 : 0 ≤ cb.nElements := hcount.held_nonneg
  have hle : cb.nElements ≤ cb.nMaxElements := hcount.held_le
  obtain ⟨hread, hwrite⟩ := (lacksNothing_iff hcount).mp h
  cases type with
  | unknown => exact absurd rfl htype
  | readable =>
    have hne := hread rfl
    show 0 < cb.nElements
    omega
  | writable =>
    have hne := hwrite rfl
    show cb.nElements < cb.nMaxElements
    omega
  | both =>
    have hne := hread rfl
    have hpos : 0 < cb.nElements := by omega
    exact .inl hpos

theorem anyEvent_both {cb : Record} (hcount : Counted cb.view) : AnyEvent .both cb := by
  have hpos : 0 < cb.nMaxElements := hcount.max_pos
  show 0 < cb.nElements ∨ cb.nElements < cb.nMaxElements
  omega

/-- The converse fails for both events only, on a queue that is empty, or full. -/
theorem lacksNothing_iff_of_anyEvent {type : PollEvent} {cb : Record} (hcount : Counted cb.view)
    (h : AnyEvent type cb) : LacksNothing type cb ↔
      (type = .both → 0 < cb.nElements ∧ cb.nElements < cb.nMaxElements) := by
  have h0 : 0 ≤ cb.nElements := hcount.held_nonneg
  have hle : cb.nElements ≤ cb.nMaxElements := hcount.held_le
  rw [lacksNothing_iff hcount]
  cases type with
  | unknown => exact absurd h id
  | readable =>
    have hpos : 0 < cb.nElements := h
    exact iff_of_true ⟨fun _ => by omega, fun hw => absurd hw (by decide)⟩ (by simp)
  | writable =>
    have hroom : cb.nElements < cb.nMaxElements := h
    exact iff_of_true ⟨fun hr => absurd hr (by decide), fun _ => by omega⟩ (by simp)
  | both =>
    constructor
    · rintro ⟨hread, hwrite⟩ -
      have hne := hread rfl
      have hne' := hwrite rfl
      omega
    · intro hboth
      have hbetween := hboth rfl
      exact ⟨fun _ => by omega, fun _ => by omega⟩

/-- Two counts, one of which counts whatever the other one does. -/
theorem countP_eq_countP_iff {α : Type} {p q : α → Bool} {l : List α}
    (h : ∀ x ∈ l, p x = true → q x = true) :
    l.countP p = l.countP q ↔ ∀ x ∈ l, q x = true → p x = true := by
  constructor
  · intro heq
    induction l with
    | nil => exact fun x hx => absurd hx (by simp)
    | cons y ys ih =>
      have hrest : ∀ x ∈ ys, p x = true → q x = true := fun x hx => h x (List.mem_cons_of_mem y hx)
      have hle : ys.countP p ≤ ys.countP q := List.countP_mono_left hrest
      have hhead := h y List.mem_cons_self
      rw [List.countP_cons, List.countP_cons] at heq
      -- what the head does not add the rest cannot make up for
      have hsame : (q y = true → p y = true) ∧ ys.countP p = ys.countP q := by
        cases hp : p y with
        | true =>
          rw [hp, hhead hp] at heq
          exact ⟨fun _ => rfl, by omega⟩
        | false =>
          rw [hp] at heq
          cases hq : q y with
          | true =>
            rw [hq] at heq
            simp at heq
            omega
          | false =>
            rw [hq] at heq
            exact ⟨fun hfalse => absurd hfalse (by decide), by omega⟩
      intro x hx
      rcases List.mem_cons.mp hx with rfl | hx
      · exact hsame.1
      · exact ih hrest hsame.2 x hx
  · intro hback
    exact List.countP_congr (fun x hx => ⟨h x hx, hback x hx⟩)

/-- **A pass over operational queues returns the number of objects with any event
exactly when no object that asks for both events has a queue that is empty, or
full.**  The sizes that it stores are right in any case. -/
theorem setup_counts_any_event_iff (met : Nat → Q → Record) (qmx : Qmuxer) (isPre : Bool)
    (mps : List (Poll Q)) (htypes : ∀ mp ∈ mps, mp.type ≠ .unknown)
    (hmet : ∀ x ∈ mps.zipIdx, ∀ q, x.1.bbq = some q →
      (met x.2 q).isOperational = true ∧ Counted (met x.2 q).view)
    (hqueue : ∃ mp ∈ mps, mp.bbq ≠ none) :
    ∃ ret, setupForPoll met (some qmx) (some (mps.map some)) isPre =
        (ret, some (mps.zipIdx.map (recorded met))) ∧
      (ret = mps.zipIdx.countP (onQueue AnyEvent met) ↔
        ∀ x ∈ mps.zipIdx, ∀ q, x.1.bbq = some q → x.1.type = .both →
          0 < (met x.2 q).nElements ∧ (met x.2 q).nElements < (met x.2 q).nMaxElements) := by
  have hloop := setupLoop_eq qmx isPre 0 0 0 mps hmet
  -- not all queues are NULL
  have hsome : mps.countP (fun mp => mp.bbq = none) ≠ mps.length := by
    obtain ⟨mp, hmp, hbbq⟩ := hqueue
    intro hall
    have hnone := List.countP_eq_length.mp hall mp hmp
    exact hbbq (by simpa using hnone)
  rw [Nat.zero_add, Nat.zero_add, if_neg hsome, Int.zero_add] at hloop
  have hsetup : setupForPoll met (some qmx) (some (mps.map some)) isPre =
      ((mps.zipIdx.countP (onQueue LacksNothing met) : Int),
        some (mps.zipIdx.map (recorded met))) := by
    cases mps with
    | nil => exact absurd rfl hsome
    | cons mp mps =>
      unfold setupForPoll
      rw [List.map_cons] at hloop ⊢
      simp only [hloop]
  refine ⟨_, hsetup, ?_⟩
  have htype : ∀ x ∈ mps.zipIdx, x.1.type ≠ .unknown := by
    intro x hx
    exact htypes x.1 (List.fst_mem_of_mem_zipIdx hx)
  have hforth : ∀ x ∈ mps.zipIdx, onQueue LacksNothing met x = true →
      onQueue AnyEvent met x = true := by
    intro x hx
    unfold onQueue
    cases hbbq : x.1.bbq with
    | none => exact id
    | some q =>
      intro hlacks
      have hany := anyEvent_of_lacksNothing (htype x hx) (hmet x hx q hbbq).2
        (of_decide_eq_true hlacks)
      exact decide_eq_true hany
  rw [Int.ofNat_inj, countP_eq_countP_iff hforth]
  apply forall₂_congr
  intro x hx
  unfold onQueue
  cases hbbq : x.1.bbq with
  | none => simp
  | some q =>
    have hcount := (hmet x hx q hbbq).2
    simp only [decide_eq_true_eq, Option.some.injEq, forall_eq']
    by_cases hany : AnyEvent x.1.type (met x.2 q)
    · rw [imp_iff_right hany]
      exact lacksNothing_iff_of_anyEvent hcount hany
    · -- of both events one holds always
      have hboth : x.1.type ≠ .both := fun hboth => hany (hboth ▸ anyEvent_both hcount)
      exact iff_of_true (fun h => absurd h hany) (fun h => absurd h hboth)

/-- An object that asks for a value, one for room, and one without a queue, over
two buffers of one byte, the first of which is full. -/
def threePolls : List (Poll Bool) :=
  [{ bbq := some true, type := .readable, qSize := 0, qRemCapacity := 0 },
    { bbq := some false, type := .writable, qSize := 0, qRemCapacity := 0 },
    { bbq := none, type := .both, qSize := 5, qRemCapacity := 5 }]

/-- A buffer of one byte with a value in it. -/
def fullByte : Record := { oneByte with nElements := 1 }

/-- The first buffer is full, the second one empty. -/
def fullAndEmpty (_ : Nat) (q : Bool) : Record := if q then fullByte else oneByte

theorem fullAndEmpty_counted (i : Nat) (q : Bool) :
    (fullAndEmpty i q).isOperational = true ∧ Counted (fullAndEmpty i q).view := by
  have hfull : Counted fullByte.view := ⟨by decide, by decide, by decide, by decide⟩
  have hempty : Counted oneByte.view := ⟨by decide, by decide, by decide, by decide⟩
  cases q with
  | true => exact ⟨rfl, hfull⟩
  | false => exact ⟨rfl, hempty⟩

/-- A pass over the three objects counts both that have a queue. -/
theorem setup_counts_any_event_three : ∃ ret,
    setupForPoll fullAndEmpty (some 7) (some (threePolls.map some)) true =
      (ret, some (threePolls.zipIdx.map (recorded fullAndEmpty))) ∧
    ret = threePolls.zipIdx.countP (onQueue AnyEvent fullAndEmpty) ∧ ret = 2 := by
  obtain ⟨ret, hsetup, hiff⟩ := setup_counts_any_event_iff fullAndEmpty 7 true threePolls
    (by decide) (fun x _ q _ => fullAndEmpty_counted x.2 q) ⟨_, List.mem_cons_self, by decide⟩
  have hcount := hiff.mpr ?_
  · exact ⟨ret, hsetup, hcount, by rw [hcount]; decide⟩
  · decide

/-- An object that asks for both events of an empty buffer is not counted, though
the buffer has room. -/
theorem setup_misses_room :
    (∀ i q, (fullAndEmpty i q).isOperational = true ∧ Counted (fullAndEmpty i q).view) ∧
    (setupForPoll fullAndEmpty (some 7) (some [some ⟨some false, .both, 0, 0⟩]) true).1 = 0 ∧
    [((⟨some false, .both, 0, 0⟩ : Poll Bool), 0)].countP (onQueue AnyEvent fullAndEmpty) = 1 :=
  ⟨fullAndEmpty_counted, rfl, rfl⟩

end Mccp.Qmuxer
