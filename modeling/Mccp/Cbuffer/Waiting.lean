/-
  Mccp.Cbuffer.Waiting
  ────────────────────
  **WHO WAITS, AND WHO IS TOLD.**

  Waiting depends on little of the record: how many values it holds, how many
  it may hold, whether it is operational, and which muxer is registered for
  what (`View`).  `Effect` says once what each segment can do to the view and
  whom it notifies; nothing below looks at slots or indices.

      seg_effect        — every segment has one of the effects
      Counted.run       — 0 ≤ held ≤ max, in every reachable state
      code_signals      — the conditions are notified when they must be
      HiddenClear       — the one step that keeps an event from a muxer

  No bound on the number of puts is needed here, and none on the size of the
  block: a call that leaves the block stops the process.
-/
import Mccp.Cbuffer.Record

namespace Mccp.Cbuffer

open Memory Monitor Transition

/-! ## §1. What a segment does to the view. -/

/-- What waiting depends on. -/
structure View where
  held : Int
  max : Int
  operational : Bool
  qmuxer : Option Qmuxer
  type : PollEvent

/-- The view of a record. -/
def Record.view (cb : Record) : View where
  held := cb.nElements
  max := cb.nMaxElements
  operational := cb.isOperational
  qmuxer := cb.qmuxer
  type := cb.type

/-- The muxer of a view, when its type passes the test. -/
def View.notifyIf (v : View) (test : PollEvent → Bool) : List Qmuxer :=
  match v.qmuxer with
  | some qmx => if test v.type then [qmx] else []
  | none => []

/-- **What a segment can do**, from view `v` on input `i`. -/
inductive Effect (v : View) (i : Input Call Cont) : Segment → Prop
  /-- The process stops. -/
  | halt (h : Stop) : Effect v i (.halt h)
  /-- Queries, errors, peeks, and shutdowns of what is shut down. -/
  | quiet (cb : Record) (r : Ret) (hv : cb.view = v) (hr : r.notified = [])
      (hi : ∀ f, i ≠ .enter (.clear f)) : Effect v i (.ret cb r [])
  | put (cb : Record) (r : Ret) (hopen : v.operational = true) (hroom : v.held < v.max)
      (hv : cb.view = { v with held := int64 (v.held + 1) })
      (hr : r.notified = v.notifyIf needWaitReadable)
      (hi : ∀ f, i ≠ .enter (.clear f)) : Effect v i (.ret cb r [.get])
  | get (cb : Record) (r : Ret) (hopen : v.operational = true) (hsome : 0 < v.held)
      (hv : cb.view = { v with held := int64 (v.held - 1) })
      (hr : r.notified = v.notifyIf needWaitWritable)
      (hi : ∀ f, i ≠ .enter (.clear f)) : Effect v i (.ret cb r [.put])
  | clear (cb : Record) (r : Ret) (f : Bool) (hv : cb.view = { v with held := 0 })
      (hr : r.notified = v.notifyIf needWaitReadable)
      (hi : i = .enter (.clear f)) : Effect v i (.ret cb r [.put])
  | shutdown (cb : Record) (r : Ret) (hv : cb.view = { v with held := 0, operational := false })
      (hr : r.notified = v.qmuxer.toList)
      (hi : ∀ f, i ≠ .enter (.clear f)) : Effect v i (.ret cb r [.get, .put])
  /-- The setup changes the registration only. -/
  | setup (cb : Record) (r : Ret) (qmuxer : Option Qmuxer) (type : PollEvent)
      (hv : cb.view = { v with qmuxer := qmuxer, type := type }) (hr : r.notified = [])
      (hi : ∃ x y z, i = .enter (.setupForQmuxer x y z)) : Effect v i (.ret cb r [])
  | sleepPut (cb : Record) (k : Cont) (hopen : v.operational = true) (hfull : v.max ≤ v.held)
      (hv : cb.view = v) : Effect v i (.wait cb k .put [])
  | sleepGet (cb : Record) (k : Cont) (hopen : v.operational = true) (hnone : v.held ≤ 0)
      (hv : cb.view = v) : Effect v i (.wait cb k .get [])

variable {cb : Record} {i : Input Call Cont}

theorem sAdjustIndices_view (cb : Record) : (sAdjustIndices cb).view = cb.view := by
  unfold sAdjustIndices
  split <;> rfl

theorem sFreeupAllValues_view {cb' : Record} {freed : List Value}
    (h : sFreeupAllValues cb = .ok (cb', freed)) : cb'.view = cb.view := by
  unfold sFreeupAllValues at h
  split at h
  next =>
    cases hl : sFreeupLoop (sAdjustIndices cb)
        ((sAdjustIndices cb).wIdx - (sAdjustIndices cb).rIdx).toNat (sAdjustIndices cb).rIdx with
    | error e => simp [hl, Except.map] at h
    | ok vs =>
      simp only [hl, Except.map, Except.ok.injEq, Prod.mk.injEq] at h
      rw [← h.1]
      exact sAdjustIndices_view cb
  next =>
    simp only [Except.ok.injEq, Prod.mk.injEq] at h
    rw [h.1]

/-- Emptying changes nothing of the view but the number of values. -/
theorem sClean_view {cb' : Record} {freeValues : Bool} {freed : List Value}
    (h : sClean cb freeValues = .ok (cb', freed)) : cb'.view = { cb.view with held := 0 } := by
  unfold sClean at h
  cases freeValues with
  | true =>
    simp only [if_true, bind, Except.bind, pure, Except.pure] at h
    cases hf : sFreeupAllValues cb with
    | error e => simp [hf] at h
    | ok p =>
      simp only [hf] at h
      split at h
      next =>
        simp only [Except.ok.injEq, Prod.mk.injEq] at h
        rw [← h.1, ← sFreeupAllValues_view hf]
        rfl
      next => exact absurd h (by simp)
  | false =>
    simp only [Bool.false_eq_true, if_false, bind, Except.bind, pure, Except.pure] at h
    split at h
    next =>
      simp only [Except.ok.injEq, Prod.mk.injEq] at h
      rw [← h.1]
      rfl
    next => exact absurd h (by simp)

theorem putRecheck_effect (hi : ∀ f, i ≠ .enter (.clear f)) (v : Value) (nsec : Int) :
    Effect cb.view i (putRecheck cb v nsec) := by
  have hview := sAdjustIndices_view cb
  unfold putRecheck
  split
  next hopen =>
    simp only []
    split
    next hroom =>
      have hroom' : cb.view.held < cb.view.max := hview ▸ hroom
      split
      next =>
        split
        next =>
          refine .put _ _ hopen hroom' ?_ ?_ hi
          · rw [← hview]
            rfl
          · rw [← hview]
            rfl
        next => exact .halt _
      next => exact .halt _
    next hfull =>
      have hfull' : cb.view.max ≤ cb.view.held := by
        rw [← hview]
        exact Int.not_lt.mp hfull
      exact .sleepPut _ _ hopen hfull' hview
  next => exact .quiet _ _ rfl rfl hi

theorem getRecheck_effect (hi : ∀ f, i ≠ .enter (.clear f)) (nsec : Int) :
    Effect cb.view i (getRecheck cb nsec) := by
  have hview := sAdjustIndices_view cb
  unfold getRecheck
  split
  next hopen =>
    simp only []
    split
    next hsome =>
      have hsome' : 0 < cb.view.held := hview ▸ hsome
      split
      next =>
        split
        next =>
          refine .get _ _ hopen hsome' ?_ ?_ hi
          · rw [← hview]
            rfl
          · rw [← hview]
            rfl
        next => exact .halt _
      next => exact .halt _
    next hnone =>
      have hnone' : cb.view.held ≤ 0 := by
        rw [← hview]
        exact Int.not_lt.mp hnone
      exact .sleepGet _ _ hopen hnone' hview
  next => exact .quiet _ _ rfl rfl hi

theorem peekRecheck_effect (hi : ∀ f, i ≠ .enter (.clear f)) (nsec : Int) :
    Effect cb.view i (peekRecheck cb nsec) := by
  have hview := sAdjustIndices_view cb
  unfold peekRecheck
  split
  next hopen =>
    simp only []
    split
    next hsome =>
      split
      next =>
        split
        next => exact .quiet _ _ hview rfl hi
        next => exact .halt _
      next => exact .halt _
    next hnone =>
      have hnone' : cb.view.held ≤ 0 := by
        rw [← hview]
        exact Int.not_lt.mp hnone
      exact .sleepGet _ _ hopen hnone' hview
  next => exact .quiet _ _ rfl rfl hi

theorem flagQuery_effect (hi : ∀ f, i ≠ .enter (.clear f)) (retptr b : Bool) :
    Effect cb.view i (flagQuery cb retptr b) := by
  unfold flagQuery
  split
  · split
    · exact .quiet _ _ rfl rfl hi
    · exact .quiet _ _ rfl rfl hi
  · exact .quiet _ _ rfl rfl hi

theorem setupForQmuxer_effect (cb : Record) (qmx : Option Qmuxer) (type : PollEvent)
    (isPre : Bool) :
    Effect cb.view (.enter (.setupForQmuxer qmx type isPre))
      (.ret (setupForQmuxer cb qmx type isPre).1 (setupForQmuxer cb qmx type isPre).2 []) := by
  unfold setupForQmuxer
  split
  next qmx =>
    split
    next =>
      simp only []
      split
      · exact .setup _ _ (some qmx) (needWait cb type) rfl rfl ⟨_, _, _, rfl⟩
      · exact .setup _ _ none .unknown rfl rfl ⟨_, _, _, rfl⟩
    next => exact .quiet _ _ rfl rfl (by simp)
  next => exact .quiet _ _ rfl rfl (by simp)

theorem enter_effect (cb : Record) (c : Call) : Effect cb.view (.enter c) (enter cb c) := by
  cases c with
  | put val nsec =>
    have hi : ∀ f, (.enter (.put val nsec) : Input Call Cont) ≠ .enter (.clear f) := by simp
    cases val with
    | none => exact .quiet _ _ rfl rfl hi
    | some v =>
      simp only [enter]
      split
      · exact putRecheck_effect hi v nsec
      · exact .quiet _ _ rfl rfl hi
  | get dst nsec =>
    have hi : ∀ f, (.enter (.get dst nsec) : Input Call Cont) ≠ .enter (.clear f) := by simp
    simp only [enter]
    split
    · exact getRecheck_effect hi nsec
    · exact .quiet _ _ rfl rfl hi
  | peek dst nsec =>
    have hi : ∀ f, (.enter (.peek dst nsec) : Input Call Cont) ≠ .enter (.clear f) := by simp
    simp only [enter]
    split
    · exact peekRecheck_effect hi nsec
    · exact .quiet _ _ rfl rfl hi
  | clear freeValues =>
    simp only [enter, clear]
    split
    next cb' freed h =>
      have hview := sClean_view h
      refine .clear _ _ freeValues hview ?_ rfl
      show notifyIf cb' needWaitReadable = _
      have hq : cb'.qmuxer = cb.qmuxer := congrArg View.qmuxer hview
      have ht : cb'.type = cb.type := congrArg View.type hview
      unfold notifyIf
      rw [hq, ht]
      rfl
    next => exact .halt _
  | shutdown freeValues =>
    have hi : ∀ f, (.enter (.shutdown freeValues) : Input Call Cont) ≠ .enter (.clear f) := by simp
    simp only [enter, shutdown]
    split
    next =>
      split
      next cb' freed h =>
        have hview := sClean_view h
        refine .shutdown _ _ hview ?_ hi
        show cb'.qmuxer.toList = _
        rw [show cb'.qmuxer = cb.qmuxer from congrArg View.qmuxer hview]
        rfl
      next => exact .halt _
    next => exact .quiet _ _ rfl rfl hi
  | size => exact .quiet _ _ rfl rfl (by simp)
  | remainingCapacity => exact .quiet _ _ rfl rfl (by simp)
  | maxCapacity => exact .quiet _ _ rfl rfl (by simp)
  | isFull retptr => exact flagQuery_effect (by simp) retptr _
  | isEmpty retptr => exact flagQuery_effect (by simp) retptr _
  | isOperational retptr =>
    simp only [enter]
    split
    · exact .quiet _ _ rfl rfl (by simp)
    · exact .quiet _ _ rfl rfl (by simp)
  | setupForQmuxer qmx type isPre => exact setupForQmuxer_effect cb qmx type isPre

/-- **Every segment has one of the effects.** -/
theorem seg_effect (cb : Record) (i : Input Call Cont) : Effect cb.view i (code.seg cb i) := by
  cases i with
  | enter c => exact enter_effect cb c
  | resume k w =>
    have hi : ∀ f, (.resume k w : Input Call Cont) ≠ .enter (.clear f) := by simp
    show Effect cb.view (.resume k w) (resume cb k w)
    cases w with
    | signaled =>
      cases k with
      | put v nsec => exact putRecheck_effect hi v nsec
      | get nsec => exact getRecheck_effect hi nsec
      | peek nsec => exact peekRecheck_effect hi nsec
    | timedout => exact .quiet _ _ rfl rfl hi
    | failed => exact .quiet _ _ rfl rfl hi

/-! ## §2. Nobody waits without a reason. -/

/-- The number of values is within its bounds. -/
structure Counted (v : View) : Prop where
  held_nonneg : 0 ≤ v.held
  held_le : v.held ≤ v.max
  max_pos : 0 < v.max
  max_lt : v.max < 2 ^ 63

/-- The reason to wait on a condition: an operational buffer that is empty, or
full. -/
def Waits (c : Cond) (v : View) : Prop :=
  match c with
  | .get => v.operational = true ∧ v.held = 0
  | .put => v.operational = true ∧ v.held = v.max

theorem Counted.of_held {v : View} (h : Counted v) {n : Int} (h0 : 0 ≤ n) (hn : n ≤ v.max) :
    Counted { v with held := n } :=
  ⟨h0, hn, h.max_pos, h.max_lt⟩

/-- Every effect keeps the count and the reasons to wait. -/
theorem Effect.keeps {sg : Segment} (h : Counted cb.view) (he : Effect cb.view i sg) :
    sg.Keeps (fun cb => Counted cb.view) (fun _ => True) (fun c cb => Waits c cb.view) cb := by
  have h0 := h.held_nonneg
  have hle := h.held_le
  have hpos := h.max_pos
  have hlt := h.max_lt
  cases he with
  | halt => trivial
  | quiet cb' r hv =>
    simp only [Seg.Keeps, hv]
    exact ⟨h, fun _ hd _ => hd⟩
  | put cb' r hopen hroom hv =>
    have hn : int64 (cb.view.held + 1) = cb.view.held + 1 :=
      int64_of_range (by omega) (by omega)
    simp only [Seg.Keeps, hv, hn]
    refine ⟨h.of_held (by omega) (by omega), ?_⟩
    intro d hd hnot
    cases d with
    | get => exact absurd (List.mem_singleton_self _) hnot
    | put => exact absurd hd.2 (by omega)
  | get cb' r hopen hsome hv =>
    have hn : int64 (cb.view.held - 1) = cb.view.held - 1 :=
      int64_of_range (by omega) (by omega)
    simp only [Seg.Keeps, hv, hn]
    refine ⟨h.of_held (by omega) (by omega), ?_⟩
    intro d hd hnot
    cases d with
    | get => exact absurd hd.2 (by omega)
    | put => exact absurd (List.mem_singleton_self _) hnot
  | clear cb' r f hv =>
    simp only [Seg.Keeps, hv]
    refine ⟨h.of_held (Int.le_refl 0) (Int.le_of_lt hpos), ?_⟩
    intro d hd hnot
    cases d with
    | get => exact ⟨hd.1, rfl⟩
    | put => exact absurd (List.mem_singleton_self _) hnot
  | shutdown cb' r hv =>
    simp only [Seg.Keeps, hv]
    refine ⟨⟨Int.le_refl 0, Int.le_of_lt hpos, hpos, hlt⟩, ?_⟩
    intro d _ hnot
    cases d <;> exact absurd (by simp) hnot
  | setup cb' r qmuxer type hv =>
    simp only [Seg.Keeps, hv]
    refine ⟨⟨h0, hle, hpos, hlt⟩, ?_⟩
    intro d hd _
    cases d <;> exact hd
  | sleepPut cb' k hopen hfull hv =>
    simp only [Seg.Keeps, hv]
    exact ⟨h, trivial, ⟨hopen, by omega⟩, fun _ hd _ => hd⟩
  | sleepGet cb' k hopen hnone hv =>
    simp only [Seg.Keeps, hv]
    exact ⟨h, trivial, ⟨hopen, by omega⟩, fun _ hd _ => hd⟩

/-- **The conditions are notified when they must be.** -/
theorem code_signals :
    Signals code (fun cb => Counted cb.view) (fun _ => True) (fun c cb => Waits c cb.view) where
  enter cb c h := (seg_effect cb (.enter c)).keeps h
  resume cb k w h _ := (seg_effect cb (.resume k w)).keeps h

/-- A created buffer is empty and has room. -/
theorem createWithSize_counted {env : CreateEnv} {elemsize : UInt64} {maxelems : Int64}
    {proc : Bool} {cb : Record}
    (h : createWithSize env elemsize maxelems proc = .ok (.ok, some cb)) : Counted cb.view := by
  unfold createWithSize at h
  split at h
  next hargs =>
    simp only [] at h
    split at h
    next =>
      split at h
      next => exact absurd h (by simp)
      next =>
        split at h
        next =>
          simp only [Except.ok.injEq, Prod.mk.injEq, Option.some.injEq, true_and] at h
          rw [← h]
          exact ⟨Int.le_refl 0, Int.le_of_lt hargs.2, hargs.2, maxelems.toInt_lt⟩
        next => exact absurd h (by simp)
    next => exact absurd h (by simp)
  next => exact absurd h (by simp)

variable {τ : Type} {env : CreateEnv} {elemsize : UInt64} {maxelems : Int64}
  {proc : Bool}

/-- What holds in every reachable state of a created buffer. -/
theorem reachable_waitInv [DecidableEq τ]
    (h : createWithSize env elemsize maxelems proc = .ok (.ok, some cb))
    {ls : List (Obs τ)} {s : State τ Record Cont Cond}
    (hrun : Run (Step code) (State.init τ cb) ls s) :
    WaitInv (fun cb => Counted cb.view) (fun _ => True) (fun c cb => Waits c cb.view) s :=
  code_signals.run (createWithSize_counted h) hrun

/-- **No lost wake-up**: in every reachable state, a thread in the wait set of
`m_cond_get` has an operational, empty buffer before it, and one in the wait
set of `m_cond_put` an operational, full one. -/
theorem waiting_thread_has_reason [DecidableEq τ]
    (h : createWithSize env elemsize maxelems proc = .ok (.ok, some cb))
    {ls : List (Obs τ)} {s : State τ Record Cont Cond}
    (hrun : Run (Step code) (State.init τ cb) ls s) (t : τ) (k : Cont) :
    (s.thread t = .waiting k .get →
      s.shared.isOperational = true ∧ s.shared.nElements = 0) ∧
    (s.thread t = .waiting k .put →
      s.shared.isOperational = true ∧ s.shared.nElements = s.shared.nMaxElements) := by
  have hinv := reachable_waitInv h hrun
  constructor
  · intro hw
    exact hinv.reason t k .get hw
  · intro hw
    exact hinv.reason t k .put hw

/-- A buffer of one byte. -/
def oneByte : Record := newRecord 1 1 false ⟨106, fun _ => 0⟩

/-- One thread puts, and a second one waits for room. -/
theorem waiting_thread_full :
    ∃ s : State Bool Record Cont Cond, ∃ ls, Run (Step code) (State.init Bool oneByte) ls s ∧
      s.thread true = .waiting (.put [8] 5) .put ∧
      s.shared.isOperational = true ∧ s.shared.nElements = s.shared.nMaxElements := by
  have hrun : ∃ p, exec (next code) (State.init Bool oneByte)
      [.call false (.put (some [7]) 5), .call true (.put (some [8]) 5)] = some p ∧
      p.2.thread true = .waiting (.put [8] 5) .put := ⟨_, rfl, rfl⟩
  obtain ⟨⟨ls, s⟩, hexec, hwait⟩ := hrun
  have hs := run_of_exec hexec
  have hcreate : createWithSize roomy 1 1 false = .ok (.ok, some oneByte) := rfl
  exact ⟨s, ls, hs, hwait, (waiting_thread_has_reason hcreate hs true (.put [8] 5)).2 hwait⟩

/-! ## §3. What a registered muxer is told. -/

/-- The muxers an observed step notifies. -/
def notifiedBy : Obs τ → List Qmuxer
  | .seg _ _ (.returned r) => r.notified
  | _ => []

/-- The event of a registration happens between two views: the first value
comes, the first room is made, or the buffer ceases to be operational. -/
def EventHappens (v v' : View) : Prop :=
  (v.type = .readable ∧ v.held = 0 ∧ 0 < v'.held) ∨
  (v.type = .writable ∧ v.held = v.max ∧ v'.held < v'.max) ∨
  (v.operational = true ∧ v'.operational = false)

/-- The step tells the registered muxer of its event. -/
def Announced (v v' : View) (l : Obs τ) : Prop :=
  ∀ qmx, v.qmuxer = some qmx → EventHappens v v' → qmx ∈ notifiedBy l

/-- A clear of a full buffer with a muxer registered for room: clear tests for
the other type. -/
def HiddenClear (v : View) (l : Obs τ) : Prop :=
  v.qmuxer.isSome ∧ v.type = .writable ∧ v.held = v.max ∧
  ∃ t f r, l = .seg t (.enter (.clear f)) (.returned r)

theorem View.mem_notifyIf {v : View} {test : PollEvent → Bool} {qmx : Qmuxer}
    (hq : v.qmuxer = some qmx) : qmx ∈ v.notifyIf test ↔ test v.type = true := by
  unfold View.notifyIf
  rw [hq]
  simp only []
  split <;> simp_all

/-- Nothing happens between two views with the same count and flag. -/
theorem not_eventHappens {v v' : View} (hheld : v'.held = v.held) (hmax : v'.max = v.max)
    (hop : v'.operational = v.operational) : ¬ EventHappens v v' := by
  intro hcases
  rcases hcases with ⟨-, h, h'⟩ | ⟨-, h, h'⟩ | ⟨h, h'⟩
  · omega
  · omega
  · rw [hop, h] at h'
    exact absurd h' (by decide)

/-- Where nothing happens, there is nothing to announce. -/
theorem announced_of_same {v v' : View} (l : Obs τ) (hheld : v'.held = v.held)
    (hmax : v'.max = v.max) (hop : v'.operational = v.operational) : Announced v v' l := by
  intro qmx _ he
  exact absurd he (not_eventHappens hheld hmax hop)

theorem announced_of_eq {v v' : View} (l : Obs τ) (h : v' = v) : Announced v v' l := by
  rw [h]
  exact announced_of_same l rfl rfl rfl

/-- Only a step that returns from a clear can be a hidden clear. -/
theorem not_hiddenClear {v : View} {t : τ} {i : Input Call Cont} {o : Outcome Cont Ret Cond Stop}
    (h : (∀ f, i ≠ .enter (.clear f)) ∨ ∀ r, o ≠ .returned r) :
    ¬ HiddenClear v (.seg t i o : Obs τ) := by
  intro hboth
  obtain ⟨-, -, -, t', f, r, hl⟩ := hboth
  injection hl with _ hi ho
  rcases h with h | h
  · exact h f hi
  · exact h r ho

/-- **One segment announces its event, unless it is a hidden clear.** -/
theorem Effect.announced_iff {sg : Segment} (h : Counted cb.view) (he : Effect cb.view i sg)
    (t : τ) :
    Announced cb.view (sg.stateOr cb).view (.seg t i sg.outcome : Obs τ)
      ↔ ¬ HiddenClear cb.view (.seg t i sg.outcome : Obs τ) := by
  have hle := h.held_le
  have hpos := h.max_pos
  have hlt := h.max_lt
  cases he with
  | halt st =>
    exact iff_of_true (announced_of_eq _ rfl) (not_hiddenClear (.inr (by simp [Seg.outcome])))
  | quiet cb' r hv hr hi =>
    exact iff_of_true (announced_of_eq _ hv) (not_hiddenClear (.inl hi))
  | put cb' r hopen hroom hv hr hi =>
    refine iff_of_true ?_ (not_hiddenClear (.inl hi))
    intro qmx hq he
    show qmx ∈ r.notified
    rw [hr, View.mem_notifyIf hq]
    simp only [Seg.stateOr, hv] at he
    -- there was room, so the event is the first value
    rcases he with ⟨hty, -, -⟩ | ⟨-, hfull, -⟩ | ⟨hop, hop'⟩
    · rw [hty]
      decide
    · omega
    · exact absurd (hop.symm.trans hop') (by decide)
  | get cb' r hopen hsome hv hr hi =>
    refine iff_of_true ?_ (not_hiddenClear (.inl hi))
    intro qmx hq he
    show qmx ∈ r.notified
    rw [hr, View.mem_notifyIf hq]
    simp only [Seg.stateOr, hv] at he
    -- there was a value, so the event is the first room
    rcases he with ⟨-, hnone, -⟩ | ⟨hty, -, -⟩ | ⟨hop, hop'⟩
    · omega
    · rw [hty]
      decide
    · exact absurd (hop.symm.trans hop') (by decide)
  | clear cb' r f hv hr hi =>
    subst hi
    constructor
    · -- room was made for a muxer that waits for room, but the test is for the other type
      intro hann hboth
      obtain ⟨hsome, hty, hfull, -⟩ := hboth
      obtain ⟨qmx, hq⟩ := Option.isSome_iff_exists.mp hsome
      have hroom : EventHappens cb.view (Seg.stateOr cb (.ret cb' r [.put] : Segment)).view := by
        simp only [Seg.stateOr, hv]
        exact .inr (.inl ⟨hty, hfull, hpos⟩)
      have hmem : qmx ∈ cb.view.notifyIf needWaitReadable := hr ▸ hann qmx hq hroom
      rw [View.mem_notifyIf hq, hty] at hmem
      exact absurd hmem (by decide)
    · intro hhid qmx hq he
      simp only [Seg.stateOr, hv] at he
      rcases he with ⟨-, -, hpos'⟩ | ⟨hty, hfull, -⟩ | ⟨hop, hop'⟩
      · exact absurd hpos' (Int.lt_irrefl 0)
      · exact absurd ⟨by rw [hq]; rfl, hty, hfull, t, f, r, rfl⟩ hhid
      · exact absurd (hop.symm.trans hop') (by decide)
  | shutdown cb' r hv hr hi =>
    refine iff_of_true ?_ (not_hiddenClear (.inl hi))
    intro qmx hq _
    show qmx ∈ r.notified
    rw [hr, hq]
    exact List.mem_singleton_self qmx
  | setup cb' r qmuxer type hv hr hi =>
    obtain ⟨_, _, _, rfl⟩ := hi
    refine iff_of_true (announced_of_same _ ?_ ?_ ?_) (not_hiddenClear (.inl (by simp)))
    · exact (congrArg View.held hv : cb'.view.held = _)
    · exact (congrArg View.max hv : cb'.view.max = _)
    · exact (congrArg View.operational hv : cb'.view.operational = _)
  | sleepPut cb' k _ _ hv =>
    exact iff_of_true (announced_of_eq _ hv) (not_hiddenClear (.inr (by simp [Seg.outcome])))
  | sleepGet cb' k _ _ hv =>
    exact iff_of_true (announced_of_eq _ hv) (not_hiddenClear (.inr (by simp [Seg.outcome])))

/-- **In every reachable state, a step tells the registered muxer of its event
exactly when it is not a clear of a full buffer with a muxer waiting for room.** -/
theorem step_announced_iff [DecidableEq τ]
    (h : createWithSize env elemsize maxelems proc = .ok (.ok, some cb))
    {ls : List (Obs τ)} {s s' : State τ Record Cont Cond} {l : Obs τ}
    (hrun : Run (Step code) (State.init τ cb) ls s) (hstep : Step code s l s') :
    Announced s.shared.view s'.shared.view l ↔ ¬ HiddenClear s.shared.view l := by
  have hcounted : Counted s.shared.view := (reachable_waitInv h hrun).shared
  obtain ⟨-, ⟨t, i, -, rfl, rfl⟩ | ⟨t, w, k, c, -, -, rfl, rfl⟩⟩ := step_cases hstep
  · rw [State.after_shared]
    exact (seg_effect s.shared i).announced_iff hcounted t
  · apply iff_of_true (announced_of_eq _ rfl)
    intro hboth
    obtain ⟨-, -, -, t', f, r, hl⟩ := hboth
    exact absurd hl (by simp)

/-- A put tells the muxer that waits for a value. -/
theorem put_announced :
    ∃ (s s' : State Unit Record Cont Cond) (ls : List (Obs Unit)) (l : Obs Unit),
      Run (Step code) (State.init Unit oneByte) ls s ∧ Step code s l s' ∧
      notifiedBy l = [7] ∧ Announced s.shared.view s'.shared.view l := by
  have hrun : ∃ p q, exec (next code) (State.init Unit oneByte)
        [.call () (.setupForQmuxer (some 7) .readable true)] = some p ∧
      next code p.2 (.call () (.put (some [8]) 5)) = some q ∧ notifiedBy q.1 = [7] ∧
      q.1 = .seg () (.enter (.put (some [8]) 5)) (.returned { result := .ok, notified := [7] }) :=
    ⟨_, _, rfl, rfl, rfl, rfl⟩
  obtain ⟨⟨ls, s⟩, ⟨l, s'⟩, hexec, hnext, hnotified, rfl⟩ := hrun
  have hs := run_of_exec hexec
  have hcreate : createWithSize roomy 1 1 false = .ok (.ok, some oneByte) := rfl
  exact ⟨s, s', ls, _, hs, ⟨_, hnext⟩, hnotified,
    (step_announced_iff hcreate hs ⟨_, hnext⟩).mpr (not_hiddenClear (.inl (by simp)))⟩

/-- A clear does not tell the muxer that waits for room. -/
theorem clear_hides_room :
    ∃ (s s' : State Unit Record Cont Cond) (ls : List (Obs Unit)) (l : Obs Unit),
      createWithSize roomy 1 1 false = .ok (.ok, some oneByte) ∧
      Run (Step code) (State.init Unit oneByte) ls s ∧ Step code s l s' ∧
      s.shared.view.qmuxer = some 7 ∧ s.shared.view.type = .writable ∧
      EventHappens s.shared.view s'.shared.view ∧ notifiedBy l = [] ∧
      ¬ Announced s.shared.view s'.shared.view l := by
  have hrun : ∃ p q, exec (next code) (State.init Unit oneByte)
        [.call () (.put (some [8]) 5),
          .call () (.setupForQmuxer (some 7) .writable true)] = some p ∧
      next code p.2 (.call () (.clear false)) = some q ∧ notifiedBy q.1 = [] ∧
      p.2.shared.view = ⟨1, 1, true, some 7, .writable⟩ ∧ q.2.shared.view.held = 0 ∧
      q.2.shared.view.max = 1 :=
    ⟨_, _, rfl, rfl, rfl, rfl, rfl, rfl⟩
  obtain ⟨⟨ls, s⟩, ⟨l, s'⟩, hexec, hnext, hnotified, hv, hheld, hmax⟩ := hrun
  have hevent : EventHappens s.shared.view s'.shared.view := by
    right
    left
    rw [hv]
    refine ⟨rfl, rfl, ?_⟩
    show s'.shared.view.held < s'.shared.view.max
    rw [show s'.shared.view.held = 0 from hheld, show s'.shared.view.max = 1 from hmax]
    decide
  refine ⟨s, s', ls, l, rfl, run_of_exec hexec, ⟨_, hnext⟩, by rw [hv], by rw [hv], hevent,
    hnotified, ?_⟩
  intro hann
  have hmem := hann 7 (by rw [hv]) hevent
  rw [hnotified] at hmem
  exact absurd hmem (by simp)

end Mccp.Cbuffer
