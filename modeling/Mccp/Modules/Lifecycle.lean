/-
  Mccp.Modules.Lifecycle
  ──────────────────────
  **THE LIFE OF THE MODULES: module.c FROM INITIALIZE TO FINALIZE.**

  Six calls go over all modules, two of them forward and up to the first
  error, four of them backward and on past every error.  A module's state
  decides which of its procedures is called.  What the procedures, the threads
  and the clock answer is told by `Env`; what a call does is told by the
  events it causes, the settings of `m_status` among them.

      initializeModule, …, finalizeModule — what each call does to one module
      untilError, carryOn                 — the two kinds of loop
      next                                — the calls (executable)
      Effect                              — what can happen to a module
      module_lifecycle                    — the law of their lives
-/
import Mccp.Gstate.Tracker
import Mccp.Lib.History
import Mccp.Modules.Registry

namespace Mccp.Modules

open Gstate (GraceLevel)
open History Transition

/-! ## §1. One module. -/

/-- What the procedures and threads of the modules, by index, and the clock
answer during one call. -/
structure Env where
  /-- The result of an initialize procedure, and whether `*thdptr` is set then. -/
  init : Nat → Result × Bool
  start : Nat → Result
  shutdown : Nat → Result
  stop : Nat → Result
  /-- mccp_thread_cancel(), mccp_thread_wait() and mccp_thread_is_canceled(). -/
  cancel : Nat → Result
  wait : Nat → Result
  isCanceled : Nat → Bool
  /-- The clock before and after the wait for a module. -/
  w_begin : Nat → Int
  w_end : Nat → Int

/-- What happens to the module of an index. -/
inductive Event where
  /-- Its procedure is called and returns. -/
  | init (i arg : Nat) (ret : Result)
  | start (i : Nat) (ret : Result)
  | shutdown (i : Nat) (level : GraceLevel) (ret : Result)
  | stop (i : Nat) (ret : Result)
  | finalize (i : Nat)
  /-- Its thread is cancelled, or waited for. -/
  | cancel (i : Nat) (ret : Result)
  | wait (i : Nat) (nsec : Int) (ret : Result)
  /-- Its `m_status` is set. -/
  | enter (i : Nat) (st : ModuleState)
  deriving DecidableEq, Repr

/-- The module that an event is about. -/
def Event.idx : Event → Nat
  | .init i _ _ => i
  | .start i _ => i
  | .shutdown i _ _ => i
  | .stop i _ => i
  | .finalize i => i
  | .cancel i _ => i
  | .wait i _ _ => i
  | .enter i _ => i

/-- A call that tells a module to end. -/
def Event.isEnding : Event → Bool
  | .shutdown _ _ _ => true
  | .stop _ _ => true
  | .cancel _ _ => true
  | _ => false

/-- A call at the end of a module: it is told to end, or waited for. -/
def Event.isAtEnd : Event → Bool
  | .wait _ _ _ => true
  | e => e.isEnding

/-- What a call does to one module: its result, the events, and the module. -/
abbrev Done := Result × List Event × AModule

/-- `s_initialize_module`. -/
def initializeModule (env : Env) (i : Nat) (m : AModule) : Done :=
  if m.m_init_proc then
    if m.m_status = .registered then
      let (ret, thd) := env.init i
      let e := Event.init i m.m_init_arg ret
      if ret = .ok then
        (ret, [e, .enter i .initialized], { m with m_thdptr := thd, m_status := .initialized })
      else (ret, [e], { m with m_thdptr := thd })
    else (.invalidStateTransition, [], m)
  else (.invalidArgs, [], m)

/-- `s_start_module`. -/
def startModule (env : Env) (i : Nat) (m : AModule) : Done :=
  if m.m_start_proc then
    if m.m_status = .initialized then
      let ret := env.start i
      if ret = .ok then
        (ret, [.start i ret, .enter i .started], { m with m_status := .started })
      else (ret, [.start i ret], m)
    else if m.m_status = .started then (.ok, [], m)
    else (.invalidStateTransition, [], m)
  else (.invalidArgs, [], m)

/-- `s_shutdown_module`. -/
def shutdownModule (level : GraceLevel) (env : Env) (i : Nat) (m : AModule) : Done :=
  if m.m_shutdown_proc ∧ level.isValid then
    if m.m_status = .started then
      let ret := env.shutdown i
      -- a module without a thread is over, whatever its procedure has returned
      if m.m_thdptr = false then
        (ret, [.shutdown i level ret, .enter i .shutdown], { m with m_status := .shutdown })
      else (ret, [.shutdown i level ret], m)
    else if m.m_status = .shutdown ∨ m.m_status = .stopped then (.ok, [], m)
    else (.invalidStateTransition, [], m)
  else (.invalidArgs, [], m)

/-- The end of `s_stop_module`, where `ret` is what the stop procedure or
mccp_thread_cancel() has returned, and `e` that call. -/
def stopped (i : Nat) (m : AModule) (ret : Result) (e : Event) : Done :=
  if ret = .ok then
    let st : ModuleState := if m.m_thdptr then .cancelling else .shutdown
    (ret, [e, .enter i st], { m with m_status := st })
  else (ret, [e], m)

/-- `s_stop_module`. -/
def stopModule (env : Env) (i : Nat) (m : AModule) : Done :=
  if m.m_status = .started then
    if m.m_stop_proc then stopped i m (env.stop i) (.stop i (env.stop i))
    else if m.m_thdptr then stopped i m (env.cancel i) (.cancel i (env.cancel i))
    -- neither a stop procedure nor a thread: nothing is done
    else (.ok, [], m)
  else if m.m_status = .cancelling ∨ m.m_status = .shutdown ∨ m.m_status = .stopped then
    (.ok, [], m)
  else (.invalidStateTransition, [], m)

/-- `s_wait_module`. -/
def waitModule (nsec : Int) (env : Env) (i : Nat) (m : AModule) : Done :=
  if (m.m_status = .cancelling ∨ m.m_status = .started) ∧ m.m_thdptr then
    let ret := env.wait i
    if ret = .ok then
      let st : ModuleState := if env.isCanceled i then .stopped else .shutdown
      (ret, [.wait i nsec ret, .enter i st], { m with m_status := st })
    else (ret, [.wait i nsec ret], m)
  else if m.m_status = .shutdown ∨ m.m_status = .stopped then (.ok, [], m)
  else (.invalidStateTransition, [], m)

/-- `s_finalize_module`, which returns nothing. -/
def finalizeModule (i : Nat) (m : AModule) : Done :=
  if m.m_finalize_proc then
    if m.m_status ≠ .started ∧ m.m_status ≠ .cancelling then (.ok, [.finalize i], m)
    -- still running: not finalized, for safety
    else (.ok, [], m)
  else (.ok, [], m)

/-! ## §2. All modules. -/

/-- One round of a loop: the module of an index. -/
def round (f : Nat → AModule → Done) (i : Nat) (ms : List AModule) :
    Result × List Event × List AModule :=
  match ms[i]? with
  | some m =>
      let (ret, es, m) := f i m
      (ret, es, ms.set i m)
  | none => (.ok, [], ms)

/-- A loop that ends at the first error. -/
def untilError (f : Nat → AModule → Done) : List Nat → List AModule →
    Result × List Event × List AModule
  | [], ms => (.ok, [], ms)
  | i :: is, ms =>
      let (ret, es, ms) := round f i ms
      if ret = .ok then
        let (ret, es', ms) := untilError f is ms
        (ret, es ++ es', ms)
      else (ret, es, ms)

/-- A loop that carries on no matter what kind of errors occur, and returns the
first of them; `w` goes from round to round. -/
def carryOn {σ : Type} (f : σ → Nat → AModule → Done) (w' : σ → Nat → σ) :
    List Nat → σ → Result → List AModule → Result × List Event × List AModule
  | [], _, first_err, ms => (first_err, [], ms)
  | i :: is, w, first_err, ms =>
      let (ret, es, ms) := round (f w) i ms
      let first_err := if ret ≠ .ok ∧ first_err = .ok then ret else first_err
      let (ret, es', ms) := carryOn f w' is (w' w i) first_err ms
      (ret, es ++ es', ms)

/-- The reverse order of the modules. -/
def backward (ms : List AModule) : List Nat := (List.range ms.length).reverse

/-- `mccp_module_initialize_all`. -/
def initializeAll (env : Env) (ms : List AModule) : Result × List Event × List AModule :=
  untilError (initializeModule env) (List.range ms.length) ms

/-- `mccp_module_start_all`. -/
def startAll (env : Env) (ms : List AModule) : Result × List Event × List AModule :=
  untilError (startModule env) (List.range ms.length) ms

/-- `mccp_module_shutdown_all`. -/
def shutdownAll (level : GraceLevel) (env : Env) (ms : List AModule) :
    Result × List Event × List AModule :=
  if level.isValid then
    carryOn (fun _ => shutdownModule level env) (fun w _ => w) (backward ms) () .ok ms
  else (.invalidArgs, [], ms)

/-- `mccp_module_stop_all`. -/
def stopAll (env : Env) (ms : List AModule) : Result × List Event × List AModule :=
  carryOn (fun _ => stopModule env) (fun w _ => w) (backward ms) () .ok ms

/-- `mccp_module_wait_all`: with a deadline, each wait gets what `nsec` leaves
after the time of the wait before it. -/
def waitAll (nsec : Int) (env : Env) (ms : List AModule) : Result × List Event × List AModule :=
  if nsec < 0 then carryOn (fun _ => waitModule (-1) env) (fun w _ => w) (backward ms) () .ok ms
  else
    carryOn (fun w => waitModule w env)
      (fun _ i =>
        let w := nsec - (env.w_end i - env.w_begin i)
        if w < 0 then 0 else w)
      (backward ms) nsec .ok ms

/-- `mccp_module_finalize_all`. -/
def finalizeAll (ms : List AModule) : Result × List Event × List AModule :=
  carryOn (fun _ => finalizeModule) (fun w _ => w) (backward ms) () .ok ms

/-- The calls. -/
inductive Call where
  | initializeAll
  | startAll
  | shutdownAll (level : GraceLevel)
  | stopAll
  | waitAll (nsec : Int)
  | finalizeAll
  deriving DecidableEq, Repr

/-- A call, and what is seen of it. -/
structure Label where
  call : Call
  ret : Result
  events : List Event
  deriving DecidableEq, Repr

/-- What a call does. -/
def Call.run (env : Env) (ms : List AModule) : Call → Result × List Event × List AModule
  | .initializeAll => Modules.initializeAll env ms
  | .startAll => Modules.startAll env ms
  | .shutdownAll level => Modules.shutdownAll level env ms
  | .stopAll => Modules.stopAll env ms
  | .waitAll nsec => Modules.waitAll nsec env ms
  | .finalizeAll => Modules.finalizeAll ms

/-- **One call**, with the answers of the outside during it. -/
def next (ms : List AModule) (a : Call × Env) : Option (Label × List AModule) :=
  let (ret, events, ms) := a.1.run a.2 ms
  some (⟨a.1, ret, events⟩, ms)

/-- The transition relation. -/
abbrev Step : List AModule → Label → List AModule → Prop := observed next

/-- What has happened in some calls, in order. -/
def history (ls : List Label) : List Event := ls.flatMap Label.events

/-! ## §3. What can happen to a module. -/

/-- **What a call can do to one module.** -/
inductive Effect (i : Nat) (m : AModule) : Done → Prop
  | quiet (ret : Result) : Effect i m (ret, [], m)
  | init (hst : m.m_status = .registered) (thd : Bool) :
      Effect i m (.ok, [.init i m.m_init_arg .ok, .enter i .initialized],
        { m with m_thdptr := thd, m_status := .initialized })
  | initFails (hst : m.m_status = .registered) (thd : Bool) (ret : Result) (hret : ret ≠ .ok) :
      Effect i m (ret, [.init i m.m_init_arg ret], { m with m_thdptr := thd })
  | start (hst : m.m_status = .initialized) :
      Effect i m (.ok, [.start i .ok, .enter i .started], { m with m_status := .started })
  | startFails (hst : m.m_status = .initialized) (ret : Result) (hret : ret ≠ .ok) :
      Effect i m (ret, [.start i ret], m)
  /-- A started module is told to end. -/
  | told (hst : m.m_status = .started) (e : Event) (he : e.idx = i) (hend : e.isEnding = true)
      (ret : Result) : Effect i m (ret, [e], m)
  | toldAt (hst : m.m_status = .started) (e : Event) (he : e.idx = i) (hend : e.isEnding = true)
      (ret : Result) (st : ModuleState) (hst' : st = .shutdown ∨ st = .cancelling) :
      Effect i m (ret, [e, .enter i st], { m with m_status := st })
  /-- It is waited for. -/
  | waitFails (hst : m.m_status = .started ∨ m.m_status = .cancelling) (nsec : Int)
      (ret : Result) (hret : ret ≠ .ok) : Effect i m (ret, [.wait i nsec ret], m)
  | wait (hst : m.m_status = .started ∨ m.m_status = .cancelling) (nsec : Int)
      (st : ModuleState) (hst' : st = .shutdown ∨ st = .stopped) :
      Effect i m (.ok, [.wait i nsec .ok, .enter i st], { m with m_status := st })
  | finalize (hst : m.m_status ≠ .started ∧ m.m_status ≠ .cancelling) :
      Effect i m (.ok, [.finalize i], m)

variable {env : Env} {i : Nat} {m : AModule}

theorem initializeModule_effect : Effect i m (initializeModule env i m) := by
  unfold initializeModule
  split
  next =>
    split
    next hst =>
      dsimp only
      split
      next hret =>
        rw [hret]
        exact .init hst _
      next hret => exact .initFails hst _ _ hret
    next => exact .quiet _
  next => exact .quiet _

theorem startModule_effect : Effect i m (startModule env i m) := by
  unfold startModule
  split
  next =>
    split
    next hst =>
      dsimp only
      split
      next hret =>
        rw [hret]
        exact .start hst
      next hret => exact .startFails hst _ hret
    next =>
      split
      next => exact .quiet _
      next => exact .quiet _
  next => exact .quiet _

theorem shutdownModule_effect {level : GraceLevel} :
    Effect i m (shutdownModule level env i m) := by
  unfold shutdownModule
  split
  next =>
    split
    next hst =>
      dsimp only
      split
      next => exact .toldAt hst (.shutdown i level _) rfl rfl _ _ (.inl rfl)
      next => exact .told hst (.shutdown i level _) rfl rfl _
    next =>
      split
      next => exact .quiet _
      next => exact .quiet _
  next => exact .quiet _

theorem stopped_effect (hst : m.m_status = .started) (e : Event) (he : e.idx = i)
    (hend : e.isEnding = true) (ret : Result) : Effect i m (stopped i m ret e) := by
  unfold stopped
  split
  next =>
    refine .toldAt hst e he hend _ _ ?_
    split
    next => exact .inr rfl
    next => exact .inl rfl
  next => exact .told hst e he hend _

theorem stopModule_effect : Effect i m (stopModule env i m) := by
  unfold stopModule
  split
  next hst =>
    split
    next => exact stopped_effect hst (.stop i _) rfl rfl _
    next =>
      split
      next => exact stopped_effect hst (.cancel i _) rfl rfl _
      next => exact .quiet _
  next =>
    split
    next => exact .quiet _
    next => exact .quiet _

theorem waitModule_effect {nsec : Int} : Effect i m (waitModule nsec env i m) := by
  unfold waitModule
  split
  next hst =>
    dsimp only
    split
    next hret =>
      rw [hret]
      refine .wait hst.1.symm nsec _ ?_
      split
      next => exact .inr rfl
      next => exact .inl rfl
    next hret => exact .waitFails hst.1.symm nsec _ hret
  next =>
    split
    next => exact .quiet _
    next => exact .quiet _

theorem finalizeModule_effect : Effect i m (finalizeModule i m) := by
  unfold finalizeModule
  split
  next =>
    split
    next hst => exact .finalize hst
    next => exact .quiet _
  next => exact .quiet _

/-! ## §4. The law. -/

/-- The last state that a module has entered. -/
def statusOf (i : Nat) (h : List Event) : ModuleState :=
  h.foldl (fun st e =>
    match e with
    | .enter j st' => if j = i then st' else st
    | _ => st) .registered

/-- The module's initialize procedure has returned OK. -/
def Initialized (i : Nat) (h : List Event) : Prop := ∃ arg, .init i arg .ok ∈ h

/-- The module's start procedure has returned OK. -/
def Started (i : Nat) (h : List Event) : Prop := .start i .ok ∈ h

/-- The module has come to its end. -/
def Ended (i : Nat) (h : List Event) : Prop := .enter i .shutdown ∈ h ∨ .enter i .stopped ∈ h

/-- **The law**: what must have happened, and what must not, before a procedure
of a module is called. -/
def Law (h : List Event) : Event → Prop
  | .start i _ => Initialized i h ∧ ¬ Started i h
  | .shutdown i _ _ => Started i h ∧ ¬ Ended i h
  | .stop i _ => Started i h ∧ ¬ Ended i h
  | .finalize i => statusOf i h ≠ .started ∧ statusOf i h ≠ .cancelling
  | _ => True

/-- What the state of a module tells of its history. -/
structure Tracks (i : Nat) (h : List Event) (m : AModule) : Prop where
  status : m.m_status = statusOf i h
  initialized : m.m_status ≠ .registered → Initialized i h
  started : Started i h ↔ m.m_status = .started ∨ m.m_status = .cancelling ∨
    m.m_status = .shutdown ∨ m.m_status = .stopped
  ended : Ended i h → m.m_status = .shutdown ∨ m.m_status = .stopped

theorem statusOf_append (i : Nat) (h es : List Event) :
    statusOf i (h ++ es) = es.foldl (fun st e =>
      match e with
      | .enter j st' => if j = i then st' else st
      | _ => st) (statusOf i h) := by
  unfold statusOf
  rw [List.foldl_append]

/-- What happens to another module changes nothing. -/
theorem Tracks.frame {h es : List Event} (ht : Tracks i h m) (hes : ∀ e ∈ es, e.idx ≠ i) :
    Tracks i (h ++ es) m := by
  have hnot : ∀ e : Event, e.idx = i → (e ∈ h ++ es ↔ e ∈ h) := by
    intro e he
    rw [List.mem_append]
    constructor
    · intro hmem
      rcases hmem with hmem | hmem
      · exact hmem
      · exact absurd he (hes e hmem)
    · exact .inl
  have hstatus : statusOf i (h ++ es) = statusOf i h := by
    rw [statusOf_append]
    clear hnot
    induction es with
    | nil => rfl
    | cons e es ih =>
      rw [List.foldl_cons]
      have hrest := ih fun e' he' => hes e' (List.mem_cons_of_mem e he')
      -- only the settings of `m_status` of module `i` count
      have hne := hes e List.mem_cons_self
      cases e with
      | enter j st =>
        have hj : ¬ j = i := hne
        simp only [hj, if_false]
        exact hrest
      | _ => exact hrest
  refine ⟨by rw [hstatus]; exact ht.status, ?_, ?_, ?_⟩
  · intro hne
    obtain ⟨arg, harg⟩ := ht.initialized hne
    exact ⟨arg, List.mem_append_left es harg⟩
  · unfold Started
    rw [hnot _ rfl]
    exact ht.started
  · intro hend
    unfold Ended at hend
    rw [hnot _ rfl, hnot _ rfl] at hend
    exact ht.ended hend

/-- The state of the module is not set by this event. -/
def Event.isCall : Event → Bool
  | .enter _ _ => false
  | _ => true

/-- A call that does not bring the module on. -/
theorem Tracks.call {h : List Event} (ht : Tracks i h m) {e : Event} (he : e.isCall = true)
    (hstart : e ≠ .start i .ok) {m' : AModule} (hm' : m'.m_status = m.m_status) :
    Tracks i (h ++ [e]) m' := by
  have hstatus : statusOf i (h ++ [e]) = statusOf i h := by
    rw [statusOf_append]
    cases e with
    | enter j st => exact absurd he (by simp [Event.isCall])
    | _ => rfl
  have hmem : ∀ e' : Event, e' ∈ h → e' ∈ h ++ [e] := fun e' hin => List.mem_append_left [e] hin
  -- what is new is the call, which neither starts the module nor ends it
  have hold : ∀ e' : Event, e' ≠ e → e' ∈ h ++ [e] → e' ∈ h := by
    intro e' hne hin
    rcases List.mem_append.mp hin with hin | hin
    · exact hin
    · exact absurd (List.mem_singleton.mp hin) hne
  have henter : ∀ st, Event.enter i st ≠ e := by
    intro st heq
    rw [← heq] at he
    exact absurd he (by simp [Event.isCall])
  refine ⟨by rw [hm', hstatus]; exact ht.status, ?_, ?_, ?_⟩
  · intro hne
    obtain ⟨arg, harg⟩ := ht.initialized (by rwa [hm'] at hne)
    exact ⟨arg, hmem _ harg⟩
  · rw [hm', ← ht.started]
    exact ⟨hold _ (Ne.symm hstart), hmem _⟩
  · intro hend
    rw [hm']
    rcases hend with hend | hend
    · exact ht.ended (.inl (hold _ (henter _) hend))
    · exact ht.ended (.inr (hold _ (henter _) hend))

/-- A call, after which the module enters a state. -/
theorem Tracks.enter {h : List Event} (ht : Tracks i h m) {e : Event} (he : e.isCall = true)
    {st : ModuleState} {m' : AModule} (hm' : m'.m_status = st)
    (hinit : st ≠ .registered → Initialized i (h ++ [e]))
    (hstart : Started i (h ++ [e]) ↔ st = .started ∨ st = .cancelling ∨ st = .shutdown ∨
      st = .stopped)
    (hend : m.m_status ≠ .shutdown ∧ m.m_status ≠ .stopped) :
    Tracks i (h ++ [e, .enter i st]) m' := by
  have hsplit : h ++ [e, .enter i st] = h ++ [e] ++ [.enter i st] := by simp
  have hmem : ∀ e' : Event, e' ∈ h ++ [e] → e' ∈ h ++ [e] ++ [.enter i st] :=
    fun e' hin => List.mem_append_left _ hin
  have hnot : ∀ st', Event.enter i st' ∈ h ++ [e] → Event.enter i st' ∈ h := by
    intro st' hin
    rcases List.mem_append.mp hin with hin | hin
    · exact hin
    · rw [← List.mem_singleton.mp hin] at he
      exact absurd he (by simp [Event.isCall])
  rw [hsplit]
  refine ⟨?_, ?_, ?_, ?_⟩
  · rw [hm', statusOf_append]
    simp
  · intro hne
    obtain ⟨arg, harg⟩ := hinit (by rwa [hm'] at hne)
    exact ⟨arg, hmem _ harg⟩
  · rw [hm', ← hstart]
    constructor
    · intro hin
      rcases List.mem_append.mp hin with hin | hin
      · exact hin
      · exact absurd (List.mem_singleton.mp hin) (by simp)
    · exact hmem _
  · -- a module that had come to its end would be there already
    intro hend'
    have hlast : ∀ st', Event.enter i st' ∈ h ++ [e] ++ [.enter i st] →
        Event.enter i st' ∈ h ∨ st' = st := by
      intro st' hin
      rcases List.mem_append.mp hin with hin | hin
      · exact .inl (hnot st' hin)
      · have heq := List.mem_singleton.mp hin
        injection heq with _ hst
        exact .inr hst
    have hold : ¬ Ended i h := fun hin => by
      rcases ht.ended hin with hst | hst
      · exact hend.1 hst
      · exact hend.2 hst
    rw [hm']
    rcases hend' with hin | hin
    · rcases hlast _ hin with hin | hst
      · exact absurd (.inl hin) hold
      · exact .inl hst.symm
    · rcases hlast _ hin with hin | hst
      · exact absurd (.inr hin) hold
      · exact .inr hst.symm

/-- A call that tells a started module to end is in time. -/
theorem Tracks.law_told {h : List Event} (ht : Tracks i h m) (hst : m.m_status = .started)
    {e : Event} (he : e.idx = i) (hend : e.isEnding = true) : Law h e := by
  have hstarted : Started i h := ht.started.mpr (.inl hst)
  have hnot : ¬ Ended i h := by
    intro hin
    rcases ht.ended hin with h' | h'
    · exact absurd (hst.symm.trans h') (by decide)
    · exact absurd (hst.symm.trans h') (by decide)
  cases e with
  | shutdown j level ret =>
    obtain rfl : j = i := he
    exact ⟨hstarted, hnot⟩
  | stop j ret =>
    obtain rfl : j = i := he
    exact ⟨hstarted, hnot⟩
  | cancel j ret => trivial
  | init => exact absurd hend (by simp [Event.isEnding])
  | start => exact absurd hend (by simp [Event.isEnding])
  | finalize => exact absurd hend (by simp [Event.isEnding])
  | wait => exact absurd hend (by simp [Event.isEnding])
  | enter => exact absurd hend (by simp [Event.isEnding])

theorem Event.isEnding_call {e : Event} (h : e.isEnding = true) :
    e.isCall = true ∧ e ≠ .start i .ok := by
  cases e with
  | shutdown => exact ⟨rfl, by simp⟩
  | stop => exact ⟨rfl, by simp⟩
  | cancel => exact ⟨rfl, by simp⟩
  | init => exact absurd h (by simp [Event.isEnding])
  | start => exact absurd h (by simp [Event.isEnding])
  | finalize => exact absurd h (by simp [Event.isEnding])
  | wait => exact absurd h (by simp [Event.isEnding])
  | enter => exact absurd h (by simp [Event.isEnding])

/-- A call other than a start does not start the module. -/
theorem started_append {h : List Event} {e : Event} (he : e ≠ .start i .ok) :
    Started i (h ++ [e]) ↔ Started i h := by
  unfold Started
  rw [List.mem_append, List.mem_singleton]
  constructor
  · intro hin
    exact hin.resolve_right fun heq => he heq.symm
  · exact .inl

theorem Initialized.append {h es : List Event} (hi : Initialized i h) :
    Initialized i (h ++ es) := by
  obtain ⟨arg, harg⟩ := hi
  exact ⟨arg, List.mem_append_left es harg⟩

/-- **What a call does to one module obeys the law**, and its history goes on
telling its state. -/
theorem Effect.law {d : Done} (h : Effect i m d) {hist : List Event} (ht : Tracks i hist m) :
    Obeys Law hist d.2.1 ∧ Tracks i (hist ++ d.2.1) d.2.2 ∧ ∀ e ∈ d.2.1, e.idx = i := by
  cases h with
  | quiet ret => exact ⟨trivial, by rw [List.append_nil]; exact ht, by simp⟩
  | init hst thd =>
    refine ⟨⟨trivial, trivial, trivial⟩, ?_, by simp [Event.idx]⟩
    refine ht.enter rfl rfl (fun _ => ⟨_, List.mem_append_right _ (List.mem_singleton.mpr rfl)⟩) ?_
      (by rw [hst]; decide)
    -- a registered module has not been started
    rw [started_append (by simp), ht.started, hst]
    simp
  | initFails hst thd ret hret =>
    exact ⟨⟨trivial, trivial⟩, ht.call rfl (by simp) rfl, by simp [Event.idx]⟩
  | start hst =>
    have hinit := ht.initialized (by rw [hst]; decide)
    have hnot : ¬ Started i hist := by
      rw [ht.started, hst]
      decide
    refine ⟨⟨⟨hinit, hnot⟩, trivial, trivial⟩, ?_, by simp [Event.idx]⟩
    refine ht.enter rfl rfl (fun _ => hinit.append) ?_ (by rw [hst]; decide)
    exact iff_of_true (List.mem_append_right _ (List.mem_singleton.mpr rfl)) (.inl rfl)
  | startFails hst ret hret =>
    have hinit := ht.initialized (by rw [hst]; decide)
    have hnot : ¬ Started i hist := by
      rw [ht.started, hst]
      decide
    refine ⟨⟨⟨hinit, hnot⟩, trivial⟩, ht.call rfl ?_ rfl, by simp [Event.idx]⟩
    intro heq
    injection heq with _ hok
    exact hret hok
  | told hst e he hend ret =>
    obtain ⟨hcall, hne⟩ := Event.isEnding_call hend
    exact ⟨⟨ht.law_told hst he hend, trivial⟩, ht.call hcall hne rfl, by simp [he]⟩
  | toldAt hst e he hend ret st hst' =>
    obtain ⟨hcall, hne⟩ := Event.isEnding_call hend
    refine ⟨⟨ht.law_told hst he hend, trivial, trivial⟩, ?_, ?_⟩
    · -- it has been started, and both states it can enter say so
      refine ht.enter hcall rfl (fun _ => (ht.initialized (by rw [hst]; decide)).append) ?_
        (by rw [hst]; decide)
      rw [started_append hne, ht.started, hst]
      rcases hst' with rfl | rfl
      · simp
      · simp
    · intro e' hin
      rcases List.mem_cons.mp hin with rfl | hin
      · exact he
      · rw [List.mem_singleton.mp hin]
        rfl
  | waitFails hst nsec ret hret =>
    exact ⟨⟨trivial, trivial⟩, ht.call rfl (by simp) rfl, by simp [Event.idx]⟩
  | wait hst nsec st hst' =>
    refine ⟨⟨trivial, trivial, trivial⟩, ?_, by simp [Event.idx]⟩
    -- STARTED and CANCELLING, from which a wait takes it to its end
    refine ht.enter rfl rfl (fun _ => (ht.initialized ?_).append) ?_ ?_
    · rcases hst with hst | hst <;> rw [hst] <;> decide
    · rw [started_append (by simp), ht.started]
      rcases hst' with rfl | rfl <;> rcases hst with hst | hst <;> simp [hst]
    · rcases hst with hst | hst <;> rw [hst] <;> decide
  | finalize hst =>
    refine ⟨⟨?_, trivial⟩, ht.call rfl (by simp) rfl, by simp [Event.idx]⟩
    rw [ht.status] at hst
    exact hst

theorem Effect.finalize_proc {d : Done} (h : Effect i m d) :
    d.2.2.m_finalize_proc = m.m_finalize_proc := by
  cases h <;> rfl

/-! ## §5. The loops. -/

/-- All modules have histories that tell their states, and a finalize procedure. -/
structure Lives (h : List Event) (ms : List AModule) : Prop where
  tracks : ∀ (i : Nat) (m : AModule), ms[i]? = some m → Tracks i h m
  finalize_proc : ∀ (i : Nat) (m : AModule), ms[i]? = some m → m.m_finalize_proc = true

/-- What a call has done to all modules obeys the law. -/
structure Lawful (h : List Event) (ms : List AModule) (r : Result × List Event × List AModule) :
    Prop where
  obeys : Obeys Law h r.2.1
  lives : Lives (h ++ r.2.1) r.2.2
  length : r.2.2.length = ms.length

variable {ms : List AModule} {h : List Event}

theorem Lawful.none (hl : Lives h ms) (ret : Result) : Lawful h ms (ret, [], ms) where
  obeys := trivial
  lives := by
    rw [List.append_nil]
    exact hl
  length := rfl

theorem Lives.round {f : Nat → AModule → Done} (hl : Lives h ms)
    (hf : ∀ i m, Effect i m (f i m)) (i : Nat) : Lawful h ms (round f i ms) := by
  unfold Modules.round
  cases hm : ms[i]? with
  | none => exact .none hl _
  | some m =>
    obtain ⟨hobeys, htracks, hidx⟩ := (hf i m).law (hl.tracks i m hm)
    refine ⟨hobeys, ⟨?_, ?_⟩, List.length_set⟩
    · intro j m' hj
      by_cases hji : i = j
      · subst hji
        rw [List.getElem?_set_self (List.getElem?_eq_some_iff.mp hm).1] at hj
        rw [← Option.some.inj hj]
        exact htracks
      · rw [List.getElem?_set_ne hji] at hj
        refine (hl.tracks j m' hj).frame fun e he => ?_
        rw [hidx e he]
        exact hji
    · intro j m' hj
      by_cases hji : i = j
      · subst hji
        rw [List.getElem?_set_self (List.getElem?_eq_some_iff.mp hm).1] at hj
        rw [← Option.some.inj hj, (hf i m).finalize_proc]
        exact hl.finalize_proc i m hm
      · rw [List.getElem?_set_ne hji] at hj
        exact hl.finalize_proc j m' hj

/-- Two parts of a call, one after the other. -/
theorem Lawful.append {r r' : Result × List Event × List AModule} (hr : Lawful h ms r)
    (hr' : Lawful (h ++ r.2.1) r.2.2 r') (ret : Result) :
    Lawful h ms (ret, r.2.1 ++ r'.2.1, r'.2.2) where
  obeys := hr.obeys.append hr'.obeys
  lives := by
    rw [← List.append_assoc]
    exact hr'.lives
  length := hr'.length.trans hr.length

theorem Lives.untilError {f : Nat → AModule → Done} (hf : ∀ i m, Effect i m (f i m))
    (is : List Nat) : ∀ {h : List Event} {ms : List AModule}, Lives h ms →
      Lawful h ms (untilError f is ms) := by
  induction is with
  | nil => exact fun hl => .none hl _
  | cons i is ih =>
    intro h ms hl
    have hround := hl.round hf i
    unfold Modules.untilError
    dsimp only
    split
    next => exact hround.append (ih hround.lives) _
    next => exact hround

theorem Lives.carryOn {σ : Type} {f : σ → Nat → AModule → Done}
    (hf : ∀ w i m, Effect i m (f w i m)) (w' : σ → Nat → σ) (is : List Nat) :
    ∀ {h : List Event} {ms : List AModule} (w : σ) (first_err : Result), Lives h ms →
      Lawful h ms (carryOn f w' is w first_err ms) := by
  induction is with
  | nil => exact fun _ _ hl => .none hl _
  | cons i is ih =>
    intro h ms w first_err hl
    have hround := hl.round (hf w) i
    exact hround.append (ih (w' w i) _ hround.lives) _

/-- **Every call obeys the law.** -/
theorem Lives.run (hl : Lives h ms) (env : Env) (c : Call) : Lawful h ms (c.run env ms) := by
  cases c with
  | initializeAll => exact hl.untilError (fun _ _ => initializeModule_effect) _
  | startAll => exact hl.untilError (fun _ _ => startModule_effect) _
  | shutdownAll level =>
    show Lawful h ms (shutdownAll level env ms)
    unfold shutdownAll
    split
    next => exact hl.carryOn (fun _ _ _ => shutdownModule_effect) _ _ _ _
    next => exact .none hl _
  | stopAll => exact hl.carryOn (fun _ _ _ => stopModule_effect) _ _ _ _
  | waitAll nsec =>
    show Lawful h ms (waitAll nsec env ms)
    unfold waitAll
    split
    next => exact hl.carryOn (fun _ _ _ => waitModule_effect) _ _ _ _
    next => exact hl.carryOn (fun _ _ _ => waitModule_effect) _ _ _ _
  | finalizeAll => exact hl.carryOn (fun _ _ _ => finalizeModule_effect) _ _ _ _

/-! ## §6. Modules that are over. -/

/-- The module is SHUTDOWN or STOPPED. -/
def AModule.Over (m : AModule) : Prop := m.m_status = .shutdown ∨ m.m_status = .stopped

/-- Nothing brings a module back that is over. -/
theorem Effect.over {d : Done} (h : Effect i m d) (hm : m.Over) : d.2.2.Over := by
  cases h with
  | quiet ret => exact hm
  | told => exact hm
  | waitFails => exact hm
  | finalize => exact hm
  | startFails => exact hm
  | initFails => exact hm
  | init hst => rcases hm with hm | hm <;> exact absurd (hm.symm.trans hst) (by decide)
  | start hst => rcases hm with hm | hm <;> exact absurd (hm.symm.trans hst) (by decide)
  | toldAt hst => rcases hm with hm | hm <;> exact absurd (hm.symm.trans hst) (by decide)
  | wait hst nsec st hst' => exact hst'

/-- A wait that returns OK leaves the module over. -/
theorem waitModule_over {nsec : Int} (h : (waitModule nsec env i m).1 = .ok) :
    (waitModule nsec env i m).2.2.Over := by
  revert h
  unfold waitModule
  split
  next =>
    dsimp only
    split
    next =>
      intro _
      show (if env.isCanceled i then ModuleState.stopped else .shutdown) = .shutdown ∨
        (if env.isCanceled i then ModuleState.stopped else .shutdown) = .stopped
      cases env.isCanceled i with
      | true => exact .inr rfl
      | false => exact .inl rfl
    next hret => exact fun hok => absurd hok hret
  next =>
    split
    next hm => exact fun _ => hm
    next => exact fun hok => absurd hok (show Result.invalidStateTransition ≠ .ok by decide)

/-- The module of index `i` is over, if there is one. -/
def OverAt (i : Nat) (ms : List AModule) : Prop := ∀ m, ms[i]? = some m → m.Over

theorem round_over {f : Nat → AModule → Done} (hf : ∀ i m, Effect i m (f i m)) {i j : Nat}
    (hj : OverAt j ms) : OverAt j (round f i ms).2.2 := by
  unfold Modules.round
  cases hm : ms[i]? with
  | none => exact hj
  | some m =>
    intro m' hm'
    by_cases hji : i = j
    · subst hji
      rw [List.getElem?_set_self (List.getElem?_eq_some_iff.mp hm).1] at hm'
      rw [← Option.some.inj hm']
      exact (hf i m).over (hj m hm)
    · rw [List.getElem?_set_ne hji] at hm'
      exact hj m' hm'

theorem untilError_over {f : Nat → AModule → Done} (hf : ∀ i m, Effect i m (f i m)) {j : Nat}
    (is : List Nat) : ∀ {ms : List AModule}, OverAt j ms → OverAt j (untilError f is ms).2.2 := by
  induction is with
  | nil => exact fun hj => hj
  | cons i is ih =>
    intro ms hj
    have hround := round_over hf (i := i) hj
    unfold Modules.untilError
    dsimp only
    split
    next => exact ih hround
    next => exact hround

variable {σ : Type} {f : σ → Nat → AModule → Done} {w' : σ → Nat → σ}

theorem carryOn_cons (i : Nat) (is : List Nat) (w : σ) (first_err : Result) (ms : List AModule) :
    carryOn f w' (i :: is) w first_err ms =
      let r := round (f w) i ms
      let r' := carryOn f w' is (w' w i)
        (if r.1 ≠ .ok ∧ first_err = .ok then r.1 else first_err) r.2.2
      (r'.1, r.2.1 ++ r'.2.1, r'.2.2) :=
  rfl

theorem carryOn_over (hf : ∀ w i m, Effect i m (f w i m)) {j : Nat} (is : List Nat) :
    ∀ {ms : List AModule} (w : σ) (first_err : Result), OverAt j ms →
      OverAt j (carryOn f w' is w first_err ms).2.2 := by
  induction is with
  | nil => exact fun _ _ hj => hj
  | cons i is ih => exact fun w first_err hj => ih _ _ (round_over (hf w) hj)

/-- A module that is over stays so, whatever is called. -/
theorem run_over {j : Nat} (hj : OverAt j ms) (env : Env) (c : Call) :
    OverAt j (c.run env ms).2.2 := by
  cases c with
  | initializeAll => exact untilError_over (fun _ _ => initializeModule_effect) _ hj
  | startAll => exact untilError_over (fun _ _ => startModule_effect) _ hj
  | shutdownAll level =>
    show OverAt j (shutdownAll level env ms).2.2
    unfold shutdownAll
    split
    next => exact carryOn_over (fun _ _ _ => shutdownModule_effect) _ _ _ hj
    next => exact hj
  | stopAll => exact carryOn_over (fun _ _ _ => stopModule_effect) _ _ _ hj
  | waitAll nsec =>
    show OverAt j (waitAll nsec env ms).2.2
    unfold waitAll
    split
    next => exact carryOn_over (fun _ _ _ => waitModule_effect) _ _ _ hj
    next => exact carryOn_over (fun _ _ _ => waitModule_effect) _ _ _ hj
  | finalizeAll => exact carryOn_over (fun _ _ _ => finalizeModule_effect) _ _ _ hj

/-- A loop that carries on returns OK only if no round has failed, and then each
of its modules is over if a round that returns OK leaves its module so. -/
theorem carryOn_ok (hf : ∀ w i m, Effect i m (f w i m))
    (hok : ∀ w i m, (f w i m).1 = .ok → (f w i m).2.2.Over) (is : List Nat) :
    ∀ {ms : List AModule} (w : σ) (first_err : Result),
      (carryOn f w' is w first_err ms).1 = .ok →
      first_err = .ok ∧ ∀ j ∈ is, OverAt j (carryOn f w' is w first_err ms).2.2 := by
  induction is with
  | nil => exact fun _ _ h => ⟨h, by simp⟩
  | cons i is ih =>
    intro ms w first_err h
    rw [carryOn_cons] at h ⊢
    obtain ⟨hfirst, hrest⟩ := ih _ _ h
    have hround : first_err = .ok ∧ (round (f w) i ms).1 = .ok := by
      by_cases hret : (round (f w) i ms).1 = .ok
      · rw [if_neg (by simp [hret])] at hfirst
        exact ⟨hfirst, hret⟩
      · by_cases herr : first_err = .ok
        · rw [if_pos ⟨hret, herr⟩] at hfirst
          exact absurd hfirst hret
        · rw [if_neg (by simp [herr])] at hfirst
          exact absurd hfirst herr
    refine ⟨hround.1, ?_⟩
    intro j hj
    rcases List.mem_cons.mp hj with rfl | hj
    · -- the rounds after it leave the module over
      apply carryOn_over hf is _ _
      intro m' hm'
      have hret := hround.2
      revert hret hm'
      unfold Modules.round
      cases hm : ms[j]? with
      | none => exact fun hm' => absurd (hm.symm.trans hm') (by simp)
      | some m =>
        intro hm' hret
        rw [List.getElem?_set_self (List.getElem?_eq_some_iff.mp hm).1] at hm'
        rw [← Option.some.inj hm']
        exact hok w j m hret
    · exact hrest j hj

/-- **A wait for all modules that returns OK leaves all of them over.** -/
theorem waitAll_over {nsec : Int} (h : (waitAll nsec env ms).1 = .ok) {j : Nat}
    (hj : j < ms.length) : OverAt j (waitAll nsec env ms).2.2 := by
  have hmem : j ∈ backward ms := by simp [backward, hj]
  revert h
  unfold waitAll
  split
  next =>
    exact fun h => (carryOn_ok (fun _ _ _ => waitModule_effect)
      (fun _ _ _ => waitModule_over) _ _ _ h).2 j hmem
  next =>
    exact fun h => (carryOn_ok (fun _ _ _ => waitModule_effect)
      (fun _ _ _ => waitModule_over) _ _ _ h).2 j hmem

/-- The finalize procedures of modules that are not running are called in the
order of the loop. -/
theorem finalize_events (is : List Nat)
    (h : ∀ i ∈ is, ∃ m, ms[i]? = some m ∧ m.Over ∧ m.m_finalize_proc = true) :
    ∀ first_err, (carryOn (fun _ : Unit => finalizeModule) (fun w _ => w) is () first_err ms).2.1 =
      is.map .finalize := by
  induction is with
  | nil => exact fun _ => rfl
  | cons i is ih =>
    intro first_err
    obtain ⟨m, hm, hover, hproc⟩ := h i List.mem_cons_self
    have hnot : m.m_status ≠ .started ∧ m.m_status ≠ .cancelling := by
      rcases hover with hst | hst <;> rw [hst] <;> decide
    obtain ⟨hlt, hget⟩ := List.getElem?_eq_some_iff.mp hm
    have hround : round finalizeModule i ms = (.ok, [.finalize i], ms) := by
      have hone : finalizeModule i m = (.ok, [.finalize i], m) := by
        unfold finalizeModule
        rw [if_pos hproc, if_pos hnot]
      have hset : ms.set i m = ms := by rw [← hget, List.set_getElem_self]
      unfold Modules.round
      rw [hm]
      dsimp only
      rw [hone]
      exact congrArg (fun ms => (Result.ok, [Event.finalize i], ms)) hset
    have hrest := ih fun j hj => h j (List.mem_cons_of_mem i hj)
    rw [carryOn_cons, hround]
    exact congrArg (Event.finalize i :: ·) (hrest _)

/-! ## §7. Runs. -/

/-- A table of modules that have only been registered. -/
def Registered (ms : List AModule) : Prop :=
  ∀ m ∈ ms, m.m_status = .registered ∧ m.m_finalize_proc = true

theorem registerAll_registered (calls : List RegisterArgs) : Registered (registerAll calls) := by
  have hfold : ∀ ms, Registered ms →
      Registered (calls.foldl (fun ms a => (register ms a).2) ms) := by
    induction calls with
    | nil => exact fun ms hms => hms
    | cons a calls ih =>
      intro ms hms
      apply ih _
      show Registered (register ms a).2
      unfold register
      split
      next =>
        split
        next hvalid =>
          split
          next =>
            intro m hm
            rcases List.mem_append.mp hm with hm | hm
            · exact hms m hm
            · rw [List.mem_singleton.mp hm]
              exact ⟨rfl, hvalid.2.2.2.2⟩
          next => exact hms
        next => exact hms
      next => exact hms
  exact hfold [] (by simp [Registered])

theorem Registered.lives (h : Registered ms) : Lives [] ms where
  tracks i m hm := by
    obtain ⟨hst, -⟩ := h m (List.mem_of_getElem? hm)
    refine ⟨hst, fun hne => absurd hst hne, ?_, ?_⟩
    · simp [Started, hst]
    · simp [Ended]
  finalize_proc i m hm := (h m (List.mem_of_getElem? hm)).2

theorem Step.run_eq {s s' : List AModule} {l : Label} (h : Step s l s') :
    ∃ env, l.call.run env s = (l.ret, l.events, s') := by
  obtain ⟨⟨c, env⟩, hnext⟩ := h
  unfold next at hnext
  injection hnext with hnext
  injection hnext with hl hs
  refine ⟨env, ?_⟩
  subst hl hs
  rfl

/-- **The modules live by the law** in every run. -/
theorem lives_run {s t : List AModule} {ls : List Label} (hrun : Run Step s ls t)
    (hl : Lives h s) :
    Obeys Law h (history ls) ∧ Lives (h ++ history ls) t ∧ t.length = s.length := by
  induction hrun generalizing h with
  | nil => exact ⟨trivial, by simpa [history] using hl, rfl⟩
  | @cons s t u l ls hstep hrest ih =>
    obtain ⟨env, henv⟩ := hstep.run_eq
    have hone := hl.run env l.call
    rw [henv] at hone
    obtain ⟨hobeys, hlives, hlen⟩ := ih hone.lives
    refine ⟨hone.obeys.append hobeys, ?_, hlen.trans hone.length⟩
    rw [List.append_assoc] at hlives
    exact hlives

/-- The modules that are over stay so in every run. -/
theorem over_run {s t : List AModule} {ls : List Label} (hrun : Run Step s ls t) {j : Nat}
    (hj : OverAt j s) : OverAt j t := by
  refine Run.invariant ?_ hrun hj
  intro s l t hs hstep
  obtain ⟨env, henv⟩ := hstep.run_eq
  have hone := run_over hs env l.call
  rwa [henv] at hone

/-- **The life of the modules.**  Whatever is called, and whatever the procedures
and threads answer: each procedure is called when its time has come; and once a
wait for all modules has returned OK, all of them are over, and finalize_all()
calls every finalize procedure once, in reverse order of registration. -/
theorem module_lifecycle {calls : List RegisterArgs} {ls : List Label} {s : List AModule}
    (hrun : Run Step (registerAll calls) ls s) :
    (∀ before e after, history ls = before ++ e :: after → Law before e) ∧
    (∀ i m, s[i]? = some m → m.m_status = statusOf i (history ls)) ∧
    ∀ l s', Step s l s' → (∃ nsec, l.call = .waitAll nsec) → l.ret = .ok →
      (∀ m ∈ s', m.Over) ∧
      ∀ later t l' t', Run Step s' later t → Step t l' t' → l'.call = .finalizeAll →
        l'.events = (List.range (registerAll calls).length).reverse.map .finalize := by
  obtain ⟨hobeys, hlives, hlen⟩ := lives_run hrun (registerAll_registered calls).lives
  refine ⟨?_, ?_, ?_⟩
  · intro before e after hsplit
    exact hobeys.at_split hsplit
  · intro i m hm
    exact (hlives.tracks i m hm).status
  · rintro l s' hstep ⟨nsec, hcall⟩ hret
    obtain ⟨env, henv⟩ := hstep.run_eq
    have hone := hlives.run env l.call
    rw [henv] at hone
    have hlen' : s'.length = (registerAll calls).length := hone.length.trans hlen
    have hover : ∀ j, OverAt j s' := by
      intro j
      by_cases hj : j < s.length
      · rw [hcall] at henv
        have hok : (waitAll nsec env s).1 = .ok := by
          rw [show waitAll nsec env s = _ from henv]
          exact hret
        have hwait := waitAll_over hok hj
        rwa [show waitAll nsec env s = _ from henv] at hwait
      · intro m hm
        have hlt := (List.getElem?_eq_some_iff.mp hm).1
        exact absurd hlt (by rw [hone.length]; exact hj)
    refine ⟨?_, ?_⟩
    · intro m hm
      obtain ⟨j, hj⟩ := List.mem_iff_getElem?.mp hm
      exact hover j m hj
    · intro later t l' t' hlater hstep' hcall'
      obtain ⟨-, hlives', hlen''⟩ := lives_run hlater hone.lives
      obtain ⟨env', henv'⟩ := hstep'.run_eq
      rw [hcall'] at henv'
      have hevents : l'.events = (finalizeAll t).2.1 := by
        rw [show finalizeAll t = _ from henv']
      rw [hevents, ← hlen', ← hlen'']
      refine finalize_events _ ?_ _
      intro i hi
      have hlt : i < t.length := by simpa [backward] using hi
      refine ⟨t[i], List.getElem?_eq_getElem hlt, ?_, ?_⟩
      · exact over_run hlater (hover i) _ (List.getElem?_eq_getElem hlt)
      · exact hlives'.finalize_proc i _ (List.getElem?_eq_getElem hlt)

/-- Everything answers OK, and each module has a thread. -/
def Env.fine : Env where
  init _ := (.ok, true)
  start _ := .ok
  shutdown _ := .ok
  stop _ := .ok
  cancel _ := .ok
  wait _ := .ok
  isCanceled _ := true
  w_begin _ := 0
  w_end _ := 0

/-- Two modules are started, cancelled, waited for and finalized. -/
theorem module_lifecycle_two :
    ∃ ls s l s', Run Step (registerAll [.of ['a'], .of ['b']]) ls s ∧
      (∀ before e after, history ls = before ++ e :: after → Law before e) ∧
      Step s l s' ∧ l.call = .waitAll (-1) ∧ l.ret = .ok ∧ (∀ m ∈ s', m.Over) ∧
      ∀ l' t', Step s' l' t' → l'.call = .finalizeAll →
        l'.events = [.finalize 1, .finalize 0] := by
  have hrun : ∃ p, exec next (registerAll [.of ['a'], .of ['b']])
      [(.initializeAll, .fine), (.startAll, .fine), (.stopAll, .fine)] = some p ∧
      ∃ q, next p.2 (.waitAll (-1), .fine) = some q ∧ q.1.call = .waitAll (-1) ∧ q.1.ret = .ok :=
    ⟨_, rfl, _, rfl, rfl, rfl⟩
  obtain ⟨⟨ls, s⟩, hexec, ⟨l, s'⟩, hwait, hcall, hret⟩ := hrun
  have hstep : Step s l s' := ⟨_, hwait⟩
  obtain ⟨hlaw, -, hover⟩ := module_lifecycle (run_of_exec hexec)
  obtain ⟨hall, hfinal⟩ := hover l s' hstep ⟨-1, hcall⟩ hret
  refine ⟨ls, s, l, s', run_of_exec hexec, hlaw, hstep, hcall, hret, hall, ?_⟩
  intro l' t' hstep' hcall'
  exact hfinal [] s' l' t' (.nil s') hstep' hcall'

end Mccp.Modules
