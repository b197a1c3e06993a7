/-
  Mccp.Main.Program
  ─────────────────
  **THE MAIN PROGRAM OF dummy-main.c: MODULES UNDER THE GLOBAL STATE.**

  The main thread takes the modules from initialize_all() to finalize_all()
  and the global state from INITIALIZING to ACCEPT_SHUTDOWN.  Beside it any
  number of threads use the global state tracker: those of the modules, and
  those that run s_term_handler(), which reads the state and then either
  requests the shutdown or leaves a note for the main thread.

      Pc        — where main() is
      Program   — the tracker, the modules and what main() knows
      mainStep  — the next step of main()
      next      — one step of all threads (executable)
      Moves     — what a step can do
-/
import Mccp.Gstate.Tracker
import Mccp.Modules.Lifecycle

namespace Mccp.Main

open Gstate (Tracker Cont Cond GlobalState GraceLevel Ret)
open Modules (AModule Env)
open Monitor Transition

/-! ## §1. The program. -/

/-- `REQ_TIMEDOUT`. -/
def reqTimedout : Int := 1000 * 1000 * 1000

/-- The signals that s_term_handler() is installed for. -/
inductive Sig where
  | int
  | term
  | quit
  deriving DecidableEq, Repr

/-- The grace level that s_term_handler() requests. -/
def Sig.level : Sig → GraceLevel
  | .int => .gracefully
  | .term => .gracefully
  | .quit => .rightNow

/-- The call that main() makes next. -/
inductive Pc where
  | setInitializing
  | initializeAll
  | setStarting
  | startAll
  | setStarted
  /-- The loop around mccp_global_state_wait_for_shutdown_request(). -/
  | waitRequest
  | setAccept
  | shutdownAll
  /-- The first wait for all modules, or the one after stop_all(). -/
  | waitAll (forced : Bool)
  | stopAll
  | finalizeAll
  | done
  deriving DecidableEq, Repr

/-- The program: the tracker, where the main thread is `none`; the threads in
s_term_handler() that have read the state; and main() with its variables. -/
structure Program (τ : Type) where
  tracker : Monitor.State (Option τ) Tracker Cont Cond
  handler : τ → Option (Sig × GlobalState)
  s_got_term_sig : Bool
  modules : List AModule
  pc : Pc
  st : Result
  func : Option String
  l : GraceLevel

/-- The program at the beginning of main(), with its modules registered. -/
def Program.initial (τ : Type) (modules : List AModule) : Program τ where
  tracker := State.init (Option τ) Tracker.initial
  handler := fun _ => none
  s_got_term_sig := false
  modules := modules
  pc := .setInitializing
  st := .anyFailures
  func := none
  l := .unknown

/-- The exit code of main(). -/
def Program.exitCode {τ : Type} (p : Program τ) : Nat := if p.st = .ok then 0 else 1

/-- What a scheduler can choose. -/
inductive Action (τ : Type) where
  /-- main() goes on; `env` answers for the modules. -/
  | main (env : Env)
  /-- A thread uses the tracker. -/
  | call (t : τ) (c : Gstate.Call)
  /-- A thread enters s_term_handler() and reads the state. -/
  | signal (t : τ) (sig : Sig)
  /-- It goes on with what it has read. -/
  | handle (t : τ)
  | wake (t : Option τ) (w : Wakeup)
  | resume (t : τ)

/-- What an observer sees of a step. -/
inductive Obs (τ : Type) where
  | tracker (l : Gstate.Obs (Option τ))
  | modules (l : Modules.Label)
  /-- s_term_handler() sets `s_got_term_sig`. -/
  | noted (t : τ)
  deriving DecidableEq, Repr

/-! ## §2. The steps. -/

variable {τ : Type} [DecidableEq τ]

/-- A choice on the tracker, after which the caller goes on by `k`. -/
def onTracker (p : Program τ) (a : Monitor.Action (Option τ) Gstate.Call)
    (k : Gstate.Obs (Option τ) → Program τ → Program τ) : Option (Obs τ × Program τ) :=
  match Monitor.next Gstate.code p.tracker a with
  | some (l, g) => some (.tracker l, k l { p with tracker := g })
  | none => none

/-- A call for all modules, after which main() goes on by `k`. -/
def onModules (p : Program τ) (env : Env) (c : Modules.Call)
    (k : Result → Program τ → Program τ) : Option (Obs τ × Program τ) :=
  let (ret, events, ms) := c.run env p.modules
  some (.modules ⟨c, ret, events⟩, k ret { p with modules := ms })

/-- What a call on the tracker has returned. -/
def returned : Gstate.Obs (Option τ) → Option Ret
  | .seg _ _ (.returned r) => some r
  | _ => none

omit [DecidableEq τ] in
/-- main() keeps the result of `func`, and goes on at `pc` where it is OK. -/
def Program.goOn (p : Program τ) (func : String) (st : Result) (pc : Pc) : Program τ :=
  { p with func := some func, st := st, pc := if st = .ok then pc else .finalizeAll }

/-- main() sets the state, and goes on whatever that returns. -/
def setAnyway (p : Program τ) (s : GlobalState) (pc : Pc) : Option (Obs τ × Program τ) :=
  onTracker p (.call none (.set s)) fun _ p => { p with pc := pc }

/-- main() sets the state, and gives up where that fails. -/
def setOrQuit (p : Program τ) (s : GlobalState) (pc : Pc) : Option (Obs τ × Program τ) :=
  onTracker p (.call none (.set s)) fun l p =>
    match returned l with
    | some r => p.goOn "mccp_global_state_set()" r.result pc
    | none => p

/-- What main() does when its wait for the request has returned. -/
def afterWait (l : Gstate.Obs (Option τ)) (p : Program τ) : Program τ :=
  match returned l with
  | some r =>
      let func := "mccp_global_state_wait_for_shutdown_request()"
      let p := { p with l := r.curG.getD p.l }
      -- the loop goes round where the time is up
      if r.result = .timedout then { p with func := some func, st := r.result }
      else p.goOn func r.result .setAccept
  | none => p

/-- **The next step of main().** -/
def mainStep (s_to : Int) (p : Program τ) (env : Env) : Option (Obs τ × Program τ) :=
  match p.pc with
  | .setInitializing => setAnyway p .initializing .initializeAll
  | .initializeAll =>
      onModules p env .initializeAll fun ret p =>
        p.goOn "mccp_module_initialize_all()" ret
          (if p.s_got_term_sig = false then .setStarting else .finalizeAll)
  | .setStarting => setAnyway p .starting .startAll
  | .startAll =>
      onModules p env .startAll fun ret p =>
        p.goOn "mccp_module_start_all()" ret
          (if p.s_got_term_sig = false then .setStarted else .finalizeAll)
  | .setStarted => setOrQuit p .started .waitRequest
  | .waitRequest =>
      match p.tracker.thread none with
      | .idle => onTracker p (.call none (.waitForShutdownRequest true reqTimedout)) afterWait
      | _ => onTracker p (.resume none) afterWait
  | .setAccept => setOrQuit p .acceptShutdown .shutdownAll
  | .shutdownAll =>
      onModules p env (.shutdownAll p.l) fun ret p =>
        p.goOn "mccp_module_shutdown_all()" ret (.waitAll false)
  | .waitAll forced =>
      onModules p env (.waitAll s_to) fun ret p =>
        let p := p.goOn "mccp_module_wait_all()" ret .finalizeAll
        -- only the first wait is followed by a forcible stop
        if forced = false ∧ ret = .timedout then { p with pc := .stopAll } else p
  | .stopAll =>
      onModules p env .stopAll fun ret p => p.goOn "mccp_module_stop_all()" ret (.waitAll true)
  | .finalizeAll => onModules p env .finalizeAll fun _ p => { p with pc := .done }
  | .done => none

/-- The calls that the other threads leave to main(). -/
def isMains : Gstate.Call → Bool
  | .set _ => true
  | .reset => true
  | _ => false

/-- `s_term_handler`, once it has read the state. -/
def handle (p : Program τ) (t : τ) (sig : Sig) (gs : GlobalState) : Option (Obs τ × Program τ) :=
  let p := { p with handler := Function.update p.handler t none }
  if GlobalState.started.num ≤ gs.num then
    onTracker p (.call (some t) (.requestShutdown sig.level)) fun _ p => p
  else some (.noted t, { p with s_got_term_sig := true })

/-- **One step**, with what an observer sees of it; `s_to` is the timeout given on
the command line. -/
def next (s_to : Int) (p : Program τ) : Action τ → Option (Obs τ × Program τ)
  | .main env => mainStep s_to p env
  | .call t c =>
      if isMains c = false ∧ p.handler t = none then
        onTracker p (.call (some t) c) fun _ p => p
      else none
  | .signal t sig =>
      if p.handler t = none then
        onTracker p (.call (some t) (.get true)) fun l p =>
          { p with
            handler := Function.update p.handler t
              (((returned l).bind Ret.curS).map fun gs => (sig, gs)) }
      else none
  | .handle t =>
      match p.handler t with
      | some (sig, gs) => handle p t sig gs
      | none => none
  | .wake t w => onTracker p (.wake t w) fun _ p => p
  | .resume t => onTracker p (.resume (some t)) fun _ p => p

/-- The transition relation. -/
abbrev Step (s_to : Int) : Program τ → Obs τ → Program τ → Prop := observed (next s_to)

/-! ## §3. What a step can do. -/

/-- The tracker's part of what is seen. -/
def trackerObs (ls : List (Obs τ)) : List (Gstate.Obs (Option τ)) :=
  ls.filterMap fun
    | .tracker l => some l
    | _ => none

/-- The modules' part of what is seen. -/
def modulesObs (ls : List (Obs τ)) : List Modules.Label :=
  ls.filterMap fun
    | .modules l => some l
    | _ => none

theorem onTracker_some {p p' : Program τ} {a : Monitor.Action (Option τ) Gstate.Call}
    {k : Gstate.Obs (Option τ) → Program τ → Program τ} {o : Obs τ}
    (h : onTracker p a k = some (o, p')) :
    ∃ l g, Monitor.next Gstate.code p.tracker a = some (l, g) ∧ o = .tracker l ∧
      p' = k l { p with tracker := g } := by
  unfold onTracker at h
  split at h
  next l g hn =>
    simp only [Option.some.injEq, Prod.mk.injEq] at h
    exact ⟨l, g, hn, h.1.symm, h.2.symm⟩
  next => exact absurd h (by simp)

omit [DecidableEq τ] in
theorem onModules_some {p p' : Program τ} {env : Env} {c : Modules.Call}
    {k : Result → Program τ → Program τ} {o : Obs τ} (h : onModules p env c k = some (o, p')) :
    o = .modules ⟨c, (c.run env p.modules).1, (c.run env p.modules).2.1⟩ ∧
      p' = k (c.run env p.modules).1 { p with modules := (c.run env p.modules).2.2 } := by
  simp only [onModules, Option.some.injEq, Prod.mk.injEq] at h
  exact ⟨h.1.symm, h.2.symm⟩

/-- A step on the tracker that is not a segment of main(). -/
def Beside (l : Gstate.Obs (Option τ)) : Prop :=
  (∃ t i o, l = .seg (some t) i o ∧ i ≠ .enter .reset ∧ ∀ s, i ≠ .enter (.set s)) ∨
  ∃ t w, l = .wake t w

/-- **What a step can do.** -/
inductive Moves (s_to : Int) (p : Program τ) : Obs τ → Program τ → Prop
  | main (env : Env) {o : Obs τ} {p' : Program τ} (h : mainStep s_to p env = some (o, p')) :
      Moves s_to p o p'
  | noted (t : τ) (handler : τ → Option (Sig × GlobalState)) :
      Moves s_to p (.noted t) { p with handler := handler, s_got_term_sig := true }
  | beside {l : Gstate.Obs (Option τ)} {g : Monitor.State (Option τ) Tracker Cont Cond}
      (hstep : Monitor.Step Gstate.code p.tracker l g) (hl : Beside l)
      (handler : τ → Option (Sig × GlobalState)) :
      Moves s_to p (.tracker l) { p with tracker := g, handler := handler }

/-- A call of another thread than main(). -/
theorem onTracker_call_moves {s_to : Int} {p p' : Program τ} {t : τ} {c : Gstate.Call}
    (hc : isMains c = false) {k : Gstate.Obs (Option τ) → Program τ → Program τ}
    (hk : ∀ l g, ∃ handler, k l { p with tracker := g } =
      { p with tracker := g, handler := handler })
    {o : Obs τ} (h : onTracker p (.call (some t) c) k = some (o, p')) : Moves s_to p o p' := by
  obtain ⟨l, g, hn, rfl, rfl⟩ := onTracker_some h
  obtain ⟨handler, hk⟩ := hk l g
  rw [hk]
  refine .beside ⟨_, hn⟩ ?_ handler
  obtain ⟨-, hl, -⟩ := next_call hn
  refine .inl ⟨t, .enter c, _, hl, ?_, ?_⟩
  · intro heq
    injection heq with heq
    subst heq
    exact absurd hc (by simp [isMains])
  · intro s heq
    injection heq with heq
    subst heq
    exact absurd hc (by simp [isMains])

/-- **Inversion.** -/
theorem step_moves {s_to : Int} {p p' : Program τ} {o : Obs τ} (h : Step s_to p o p') :
    Moves s_to p o p' := by
  obtain ⟨a, ha⟩ := h
  cases a with
  | main env => exact .main env ha
  | call t c =>
    simp only [next] at ha
    split at ha
    next hc => exact onTracker_call_moves hc.1 (fun _ _ => ⟨p.handler, rfl⟩) ha
    next => exact absurd ha (by simp)
  | signal t sig =>
    simp only [next] at ha
    split at ha
    next => exact onTracker_call_moves rfl (fun _ _ => ⟨_, rfl⟩) ha
    next => exact absurd ha (by simp)
  | handle t =>
    simp only [next] at ha
    split at ha
    next sig gs _ =>
      simp only [handle] at ha
      split at ha
      next =>
        obtain ⟨l, g, hn, rfl, rfl⟩ := onTracker_some ha
        obtain ⟨-, hl, -⟩ := next_call hn
        have hstep : Monitor.Step Gstate.code p.tracker l g := ⟨_, hn⟩
        refine .beside hstep (.inl ⟨t, _, _, hl, ?_, ?_⟩) _
        · simp
        · simp
      next =>
        simp only [Option.some.injEq, Prod.mk.injEq] at ha
        obtain ⟨rfl, rfl⟩ := ha
        exact .noted t _
    next => exact absurd ha (by simp)
  | wake t w =>
    simp only [next] at ha
    obtain ⟨l, g, hn, rfl, rfl⟩ := onTracker_some ha
    obtain ⟨rfl, -⟩ := next_wake hn
    exact .beside ⟨_, hn⟩ (.inr ⟨t, w, rfl⟩) p.handler
  | resume t =>
    simp only [next] at ha
    obtain ⟨l, g, hn, rfl, rfl⟩ := onTracker_some ha
    obtain ⟨k, w, -, hl, -⟩ := next_resume hn
    refine .beside ⟨_, hn⟩ (.inl ⟨t, .resume k w, _, hl, ?_, ?_⟩) p.handler
    · simp
    · simp

/-- The call for all modules that main() makes at a place. -/
def Program.modulesCall (s_to : Int) (p : Program τ) : Option Modules.Call :=
  match p.pc with
  | .initializeAll => some .initializeAll
  | .startAll => some .startAll
  | .shutdownAll => some (.shutdownAll p.l)
  | .waitAll _ => some (.waitAll s_to)
  | .stopAll => some .stopAll
  | .finalizeAll => some .finalizeAll
  | _ => none

/-- Where main() goes on after a call for all modules that has returned `ret`. -/
def Pc.after (s_got_term_sig : Bool) (ret : Result) : Pc → Pc
  | .initializeAll => if ret = .ok ∧ s_got_term_sig = false then .setStarting else .finalizeAll
  | .startAll => if ret = .ok ∧ s_got_term_sig = false then .setStarted else .finalizeAll
  | .shutdownAll => if ret = .ok then .waitAll false else .finalizeAll
  | .waitAll forced => if forced = false ∧ ret = .timedout then .stopAll else .finalizeAll
  | .stopAll => if ret = .ok then .waitAll true else .finalizeAll
  | _ => .done

/-- Where a call for all modules can lead. -/
theorem Pc.after_cases (b : Bool) (ret : Result) (pc : Pc) :
    pc.after b ret = .finalizeAll ∨ pc.after b ret = .done ∨
    (pc = .initializeAll ∧ pc.after b ret = .setStarting) ∨
    (pc = .startAll ∧ pc.after b ret = .setStarted) ∨
    (pc = .shutdownAll ∧ pc.after b ret = .waitAll false) ∨
    (∃ forced, pc = .waitAll forced ∧ pc.after b ret = .stopAll) ∨
    (pc = .stopAll ∧ pc.after b ret = .waitAll true) := by
  cases pc <;> simp only [Pc.after] <;> (try split) <;> simp

/-- **main() calls for all modules**: the tracker is left alone. -/
theorem mainStep_modules {s_to : Int} {p p' : Program τ} {env : Env} {o : Obs τ}
    {c : Modules.Call} (hc : p.modulesCall s_to = some c)
    (h : mainStep s_to p env = some (o, p')) :
    o = .modules ⟨c, (c.run env p.modules).1, (c.run env p.modules).2.1⟩ ∧
    ∃ func, p' = { p with
      modules := (c.run env p.modules).2.2
      pc := p.pc.after p.s_got_term_sig (c.run env p.modules).1
      st := if p.pc = .finalizeAll then p.st else (c.run env p.modules).1
      func := func } := by
  unfold Program.modulesCall at hc
  unfold mainStep at h
  split at hc
  next hpc =>
    obtain rfl := Option.some.inj hc
    simp only [hpc] at h
    obtain ⟨rfl, rfl⟩ := onModules_some h
    refine ⟨rfl, some "mccp_module_initialize_all()", ?_⟩
    simp only [Program.goOn, Pc.after, hpc, reduceCtorEq, if_false]
    split <;> simp_all
  next hpc =>
    obtain rfl := Option.some.inj hc
    simp only [hpc] at h
    obtain ⟨rfl, rfl⟩ := onModules_some h
    refine ⟨rfl, some "mccp_module_start_all()", ?_⟩
    simp only [Program.goOn, Pc.after, hpc, reduceCtorEq, if_false]
    split <;> simp_all
  next hpc =>
    obtain rfl := Option.some.inj hc
    simp only [hpc] at h
    obtain ⟨rfl, rfl⟩ := onModules_some h
    refine ⟨rfl, some "mccp_module_shutdown_all()", ?_⟩
    simp only [Program.goOn, Pc.after, hpc, reduceCtorEq, if_false]
  next forced hpc =>
    obtain rfl := Option.some.inj hc
    simp only [hpc] at h
    obtain ⟨rfl, rfl⟩ := onModules_some h
    refine ⟨rfl, some "mccp_module_wait_all()", ?_⟩
    simp only [Program.goOn, Pc.after, hpc, reduceCtorEq, if_false, ite_self]
    split <;> rfl
  next hpc =>
    obtain rfl := Option.some.inj hc
    simp only [hpc] at h
    obtain ⟨rfl, rfl⟩ := onModules_some h
    refine ⟨rfl, some "mccp_module_stop_all()", ?_⟩
    simp only [Program.goOn, Pc.after, hpc, reduceCtorEq, if_false]
  next hpc =>
    obtain rfl := Option.some.inj hc
    simp only [hpc] at h
    obtain ⟨rfl, rfl⟩ := onModules_some h
    refine ⟨rfl, p.func, ?_⟩
    simp only [Pc.after, hpc, if_true]
  next => exact absurd hc (by simp)

/-- At its other places main() uses the tracker, and leaves the modules alone. -/
theorem mainStep_tracker {s_to : Int} {p p' : Program τ} {env : Env} {o : Obs τ}
    (hc : p.modulesCall s_to = none) (h : mainStep s_to p env = some (o, p')) :
    (∃ l, o = .tracker l) ∧ p'.modules = p.modules ∧ p'.s_got_term_sig = p.s_got_term_sig := by
  have hkeeps : ∀ {a : Monitor.Action (Option τ) Gstate.Call}
      {k : Gstate.Obs (Option τ) → Program τ → Program τ},
      (∀ l q, (k l q).modules = q.modules ∧ (k l q).s_got_term_sig = q.s_got_term_sig) →
      onTracker p a k = some (o, p') →
      (∃ l, o = .tracker l) ∧ p'.modules = p.modules ∧ p'.s_got_term_sig = p.s_got_term_sig := by
    intro a k hk h
    obtain ⟨l, g, -, rfl, rfl⟩ := onTracker_some h
    exact ⟨⟨l, rfl⟩, hk l _⟩
  have hany : ∀ (s : GlobalState) (pc : Pc), setAnyway p s pc = some (o, p') →
      (∃ l, o = .tracker l) ∧ p'.modules = p.modules ∧ p'.s_got_term_sig = p.s_got_term_sig := by
    intro s pc h
    exact hkeeps (k := fun _ q => { q with pc := pc }) (fun _ _ => ⟨rfl, rfl⟩) h
  have hquit : ∀ (s : GlobalState) (pc : Pc), setOrQuit p s pc = some (o, p') →
      (∃ l, o = .tracker l) ∧ p'.modules = p.modules ∧ p'.s_got_term_sig = p.s_got_term_sig := by
    intro s pc h
    refine hkeeps (fun l q => ?_) h
    cases returned l <;> exact ⟨rfl, rfl⟩
  have hwait : ∀ (l : Gstate.Obs (Option τ)) (q : Program τ),
      (afterWait l q).modules = q.modules ∧ (afterWait l q).s_got_term_sig = q.s_got_term_sig := by
    intro l q
    unfold afterWait
    split
    · simp only
      split <;> exact ⟨rfl, rfl⟩
    · exact ⟨rfl, rfl⟩
  unfold Program.modulesCall at hc
  unfold mainStep at h
  split at h
  next => exact hany _ _ h
  next hpc => exact absurd hc (by simp [hpc])
  next => exact hany _ _ h
  next hpc => exact absurd hc (by simp [hpc])
  next => exact hquit _ _ h
  next =>
    split at h
    · exact hkeeps hwait h
    · exact hkeeps hwait h
  next => exact hquit _ _ h
  next hpc => exact absurd hc (by simp [hpc])
  next forced hpc => exact absurd hc (by simp [hpc])
  next hpc => exact absurd hc (by simp [hpc])
  next hpc => exact absurd hc (by simp [hpc])
  next => exact absurd h (by simp)

end Mccp.Main
