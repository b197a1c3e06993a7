/-
  Mccp.Main.Exit
  ──────────────
  **HOW THE PROGRAM ENDS.**

  Every way through main() leads to one finalize_all(), its last call for the
  modules.  A wait for all modules that succeeds leaves all of them over, so
  that each finalize procedure is called.  But main() also gives up, with the
  OK of the call before, where it finds the note of a termination signal that
  came before STARTED: then it exits with 0 too, and no module has been told
  to end.

      Untold        — main() has not come to the shutdown of its modules
      Ends          — the invariant
      exits_clean   — what an exit code of 0 means
-/
import Mccp.Main.Program

namespace Mccp.Main

open Gstate (Tracker Cont Cond GlobalState)
open Modules (AModule Env RegisterArgs registerAll)
open Monitor Transition

variable {τ : Type}

/-! ## §1. Before the end. -/

/-- Modules have been initialized and started only. -/
def Untold (ls : List (Obs τ)) : Prop :=
  ∀ l ∈ modulesObs ls, l.call = .initializeAll ∨ l.call = .startAll

/-- main() has not called finalize_all(). -/
def Unfinalized (ls : List Modules.Label) : Prop := ∀ l ∈ ls, l.call ≠ .finalizeAll

/-- main() is on its way to STARTED. -/
def Pc.isStarting : Pc → Bool
  | .setInitializing => true
  | .initializeAll => true
  | .setStarting => true
  | .startAll => true
  | .setStarted => true
  | .waitRequest => true
  | .setAccept => true
  | .shutdownAll => true
  | _ => false

/-- Why the result may be OK where main() has come to finalize_all(). -/
def Excused (ls : List (Obs τ)) (p : Program τ) : Prop :=
  (∀ j, Modules.OverAt j p.modules) ∨ (p.s_got_term_sig = true ∧ Untold ls)

/-- **What holds in every state of the program**, of the modules `ms` at the
beginning. -/
structure Ends (ms : List AModule) (ls : List (Obs τ)) (p : Program τ) : Prop where
  run : Run Modules.Step ms (modulesObs ls) p.modules
  unfinalized : p.pc ≠ .done → Unfinalized (modulesObs ls)
  untold : p.pc.isStarting = true → Untold ls
  excused : p.pc = .finalizeAll → p.st = .ok → Excused ls p
  done : p.pc = .done → ∃ before l s, modulesObs ls = before ++ [l] ∧ Unfinalized before ∧
    Run Modules.Step ms before s ∧ Modules.Step s l p.modules ∧ l.call = .finalizeAll ∧
    (p.st = .ok → (∀ j, Modules.OverAt j s) ∨ (p.s_got_term_sig = true ∧
      ∀ l' ∈ before, l'.call = .initializeAll ∨ l'.call = .startAll))

theorem modulesObs_snoc (ls : List (Obs τ)) (l : Modules.Label) :
    modulesObs (ls ++ [.modules l]) = modulesObs ls ++ [l] := by
  simp [modulesObs]

theorem modulesObs_tracker (ls : List (Obs τ)) (l : Gstate.Obs (Option τ)) :
    modulesObs (ls ++ [.tracker l]) = modulesObs ls := by
  simp [modulesObs]

theorem modulesObs_noted (ls : List (Obs τ)) (t : τ) :
    modulesObs (ls ++ [.noted t]) = modulesObs ls := by
  simp [modulesObs]

theorem Ends.initial (ms : List AModule) : Ends ms [] (Program.initial τ ms) where
  run := .nil ms
  unfinalized _ l hl := absurd hl (by simp [modulesObs])
  untold _ l hl := absurd hl (by simp [modulesObs])
  excused h := absurd h (by simp [Program.initial])
  done h := absurd h (by simp [Program.initial])

variable {ms : List AModule} {p p' : Program τ} {ls : List (Obs τ)}

/-- A step that leaves the modules alone, and is not one into the end. -/
theorem Ends.quiet (h : Ends ms ls p) {o : Obs τ} (hobs : modulesObs (ls ++ [o]) = modulesObs ls)
    (hmods : p'.modules = p.modules) (hterm : p.s_got_term_sig = true → p'.s_got_term_sig = true)
    (hstart : p'.pc.isStarting = true → p.pc.isStarting = true)
    (hdone : p'.pc = .done → p.pc = .done ∧ p'.st = p.st)
    (hnot : p.pc = .done → p'.pc = .done)
    (hfinal : p'.pc = .finalizeAll → p'.st = .ok → p.pc = .finalizeAll ∧ p.st = .ok) :
    Ends ms (ls ++ [o]) p' where
  run := by
    rw [hobs, hmods]
    exact h.run
  unfinalized hpc := by
    rw [hobs]
    exact h.unfinalized fun heq => hpc (hnot heq)
  untold hpc := by
    unfold Untold
    rw [hobs]
    exact h.untold (hstart hpc)
  excused hpc hst := by
    obtain ⟨hpc', hst'⟩ := hfinal hpc hst
    unfold Excused Untold
    rw [hobs, hmods]
    exact (h.excused hpc' hst').imp_right fun ⟨hgot, hun⟩ => ⟨hterm hgot, hun⟩
  done hpc := by
    obtain ⟨hpc', hst⟩ := hdone hpc
    obtain ⟨before, l, s, hl, hbefore, hrun, hstep, hcall, hok⟩ := h.done hpc'
    rw [hobs, hmods, hst]
    refine ⟨before, l, s, hl, hbefore, hrun, hstep, hcall, fun hst => ?_⟩
    exact (hok hst).imp_right fun ⟨hgot, hun⟩ => ⟨hterm hgot, hun⟩

/-! ## §2. The steps. -/

/-- A call for all modules is a step of theirs. -/
theorem call_step (c : Modules.Call) (env : Env) (s : List AModule) :
    Modules.Step s ⟨c, (c.run env s).1, (c.run env s).2.1⟩ (c.run env s).2.2 :=
  ⟨(c, env), rfl⟩

/-- A successful wait for all modules leaves all of them over. -/
theorem over_all {calls : List RegisterArgs} {us : List Modules.Label} {s : List AModule}
    (hrun : Run Modules.Step (registerAll calls) us s) {nsec : Int} {env : Env}
    (hret : (Modules.waitAll nsec env s).1 = .ok) (j : Nat) :
    Modules.OverAt j (Modules.waitAll nsec env s).2.2 := by
  obtain ⟨-, hlives, -⟩ := Modules.lives_run hrun (Modules.registerAll_registered calls).lives
  have hlen := (hlives.run env (.waitAll nsec)).length
  by_cases hj : j < s.length
  · exact Modules.waitAll_over hret hj
  · intro m hm
    exact absurd (hlen ▸ (List.getElem?_eq_some_iff.mp hm).1) hj

/-- The places of the calls for all modules. -/
theorem modulesCall_cases {s_to : Int} {c : Modules.Call} (hc : p.modulesCall s_to = some c) :
    (p.pc = .initializeAll ∧ c = .initializeAll) ∨ (p.pc = .startAll ∧ c = .startAll) ∨
    (p.pc = .shutdownAll ∧ c = .shutdownAll p.l) ∨
    (∃ forced, p.pc = .waitAll forced ∧ c = .waitAll s_to) ∨
    (p.pc = .stopAll ∧ c = .stopAll) ∨ (p.pc = .finalizeAll ∧ c = .finalizeAll) := by
  unfold Program.modulesCall at hc
  split at hc <;> simp_all

theorem Untold.snoc (h : Untold ls) {l : Modules.Label}
    (hl : l.call = .initializeAll ∨ l.call = .startAll) : Untold (ls ++ [.modules l]) := by
  intro l' hl'
  rw [modulesObs_snoc] at hl'
  rcases List.mem_append.mp hl' with hmem | hmem
  · exact h l' hmem
  · rw [List.mem_singleton.mp hmem]
    exact hl

/-- Where main() gives up, or has waited for all modules, its OK is excused. -/
theorem Ends.excused_after {calls : List RegisterArgs} (h : Ends (registerAll calls) ls p)
    {s_to : Int} {c : Modules.Call} (hc : p.modulesCall s_to = some c) (env : Env)
    (hpc : p.pc.after p.s_got_term_sig (c.run env p.modules).1 = .finalizeAll)
    (hst : (c.run env p.modules).1 = .ok) :
    (∀ j, Modules.OverAt j (c.run env p.modules).2.2) ∨
      (p.s_got_term_sig = true ∧
        Untold (ls ++ [.modules ⟨c, (c.run env p.modules).1, (c.run env p.modules).2.1⟩])) := by
  rcases modulesCall_cases hc with ⟨hp, rfl⟩ | ⟨hp, rfl⟩ | ⟨hp, rfl⟩ | ⟨forced, hp, rfl⟩ |
    ⟨hp, rfl⟩ | ⟨hp, rfl⟩
  · right
    refine ⟨?_, (h.untold (by rw [hp]; rfl)).snoc (.inl rfl)⟩
    simpa [hp, Pc.after, hst] using hpc
  · right
    refine ⟨?_, (h.untold (by rw [hp]; rfl)).snoc (.inr rfl)⟩
    simpa [hp, Pc.after, hst] using hpc
  · simp [hp, Pc.after, hst] at hpc
  · exact .inl (over_all h.run hst)
  · simp [hp, Pc.after, hst] at hpc
  · simp [hp, Pc.after] at hpc

/-- **A call for all modules keeps the invariant.** -/
theorem Ends.modules {calls : List RegisterArgs} (h : Ends (registerAll calls) ls p) {s_to : Int}
    {c : Modules.Call} (hc : p.modulesCall s_to = some c) (env : Env) (func : Option String) :
    Ends (registerAll calls)
      (ls ++ [.modules ⟨c, (c.run env p.modules).1, (c.run env p.modules).2.1⟩])
      { p with
        modules := (c.run env p.modules).2.2
        pc := p.pc.after p.s_got_term_sig (c.run env p.modules).1
        st := if p.pc = .finalizeAll then p.st else (c.run env p.modules).1
        func := func } := by
  have hcases := modulesCall_cases hc
  have hnotDone : p.pc ≠ .done := by
    rcases hcases with ⟨hp, -⟩ | ⟨hp, -⟩ | ⟨hp, -⟩ | ⟨_, hp, -⟩ | ⟨hp, -⟩ | ⟨hp, -⟩ <;> simp [hp]
  have hfinal : p.pc ≠ .finalizeAll →
      p.pc.after p.s_got_term_sig (c.run env p.modules).1 ≠ .done := by
    intro hne
    rcases hcases with ⟨hp, -⟩ | ⟨hp, -⟩ | ⟨hp, -⟩ | ⟨_, hp, -⟩ | ⟨hp, -⟩ | ⟨hp, -⟩
    all_goals first
      | exact absurd hp hne
      | rw [hp]; simp only [Pc.after]; split <;> simp
  refine {
    run := ?_
    unfinalized := ?_
    untold := ?_
    excused := ?_
    done := ?_ }
  · rw [modulesObs_snoc]
    exact h.run.snoc (call_step c env p.modules)
  · intro hpc l hl
    rw [modulesObs_snoc] at hl
    rcases List.mem_append.mp hl with hl | hl
    · exact h.unfinalized hnotDone l hl
    · rw [List.mem_singleton.mp hl]
      intro (hcall : c = .finalizeAll)
      rcases hcases with ⟨-, hc⟩ | ⟨-, hc⟩ | ⟨-, hc⟩ | ⟨_, -, hc⟩ | ⟨-, hc⟩ | ⟨hp, -⟩
      all_goals first
        | exact absurd (hc.symm.trans hcall) (by simp)
        | exact hpc (by rw [hp]; rfl)
  · intro (hpc : (p.pc.after p.s_got_term_sig (c.run env p.modules).1).isStarting = true)
    rcases hcases with ⟨hp, hc⟩ | ⟨hp, hc⟩ | ⟨hp, -⟩ | ⟨_, hp, -⟩ | ⟨hp, -⟩ | ⟨hp, -⟩
    · exact (h.untold (by rw [hp]; rfl)).snoc (.inl hc)
    · exact (h.untold (by rw [hp]; rfl)).snoc (.inr hc)
    all_goals
      rw [hp] at hpc
      simp only [Pc.after] at hpc
      first
        | split at hpc <;> exact absurd hpc (by decide)
        | exact absurd hpc (by decide)
  · intro hpc hst
    have hne : p.pc ≠ .finalizeAll := by
      intro hp
      change p.pc.after p.s_got_term_sig (c.run env p.modules).1 = _ at hpc
      rw [hp] at hpc
      exact absurd hpc (by simp [Pc.after])
    exact h.excused_after hc env hpc (by simpa [hne] using hst)
  · intro hpc
    have hp : p.pc = .finalizeAll := by
      by_contra hne
      exact hfinal hne hpc
    have hcall : c = .finalizeAll := by
      rw [Program.modulesCall, hp] at hc
      exact (Option.some.inj hc).symm
    refine ⟨modulesObs ls, _, p.modules, modulesObs_snoc _ _, h.unfinalized hnotDone, h.run,
      call_step c env p.modules, hcall, ?_⟩
    intro hst
    exact h.excused hp (by simpa [hp] using hst)

/-- Where main() goes on by `goOn`, it gives up only with an error. -/
theorem goOn_pc (q : Program τ) (func : String) (st : Result) {pc : Pc} (hpc : pc ≠ .done)
    (hpc' : pc ≠ .finalizeAll) : (q.goOn func st pc).pc ≠ .done ∧
      ((q.goOn func st pc).pc = .finalizeAll → (q.goOn func st pc).st ≠ .ok) := by
  unfold Program.goOn
  by_cases hst : st = .ok
  · simp only [if_pos hst]
    exact ⟨hpc, fun h => absurd h hpc'⟩
  · simp only [if_neg hst]
    exact ⟨by simp, fun _ => hst⟩

variable [DecidableEq τ]

/-- main() uses the tracker only before the shutdown of its modules, and gives up
there only with an error. -/
theorem mainStep_tracker_pc {s_to : Int} {env : Env} {o : Obs τ}
    (hc : p.modulesCall s_to = none) (h : mainStep s_to p env = some (o, p')) :
    p.pc.isStarting = true ∧ p'.pc ≠ .done ∧ (p'.pc = .finalizeAll → p'.st ≠ .ok) := by
  have hquit : ∀ (s : GlobalState) (pc : Pc), setOrQuit p s pc = some (o, p') →
      p.pc ≠ .done ∧ p.pc ≠ .finalizeAll → pc ≠ .done → pc ≠ .finalizeAll →
      p'.pc ≠ .done ∧ (p'.pc = .finalizeAll → p'.st ≠ .ok) := by
    intro s pc h hp hpc hpc'
    obtain ⟨l, g, -, rfl, rfl⟩ := onTracker_some h
    split
    next r _ => exact goOn_pc _ _ _ hpc hpc'
    next => exact ⟨hp.1, fun heq => absurd heq hp.2⟩
  have hwait : ∀ (l : Gstate.Obs (Option τ)) (q : Program τ), q.pc = .waitRequest →
      (afterWait l q).pc ≠ .done ∧
        ((afterWait l q).pc = .finalizeAll → (afterWait l q).st ≠ .ok) := by
    intro l q hq
    unfold afterWait
    split
    next r _ =>
      simp only
      split
      next => simp [hq]
      next => exact goOn_pc _ _ _ (by simp) (by simp)
    next => simp [hq]
  unfold Program.modulesCall at hc
  unfold mainStep at h
  split at h
  next hpc =>
    obtain ⟨l, g, -, rfl, rfl⟩ := onTracker_some h
    simp [hpc, Pc.isStarting]
  next hpc => exact absurd hc (by simp [hpc])
  next hpc =>
    obtain ⟨l, g, -, rfl, rfl⟩ := onTracker_some h
    simp [hpc, Pc.isStarting]
  next hpc => exact absurd hc (by simp [hpc])
  next hpc => exact ⟨by rw [hpc]; rfl, hquit _ _ h (by simp [hpc]) (by simp) (by simp)⟩
  next hpc =>
    refine ⟨by rw [hpc]; rfl, ?_⟩
    split at h
    · obtain ⟨l, g, -, rfl, rfl⟩ := onTracker_some h
      exact hwait l _ hpc
    · obtain ⟨l, g, -, rfl, rfl⟩ := onTracker_some h
      exact hwait l _ hpc
  next hpc => exact ⟨by rw [hpc]; rfl, hquit _ _ h (by simp [hpc]) (by simp) (by simp)⟩
  next hpc => exact absurd hc (by simp [hpc])
  next forced hpc => exact absurd hc (by simp [hpc])
  next hpc => exact absurd hc (by simp [hpc])
  next hpc => exact absurd hc (by simp [hpc])
  next => exact absurd h (by simp)

/-- **The invariant holds in every reachable state.** -/
theorem reachable_ends {s_to : Int} {calls : List RegisterArgs}
    (hrun : Run (Step s_to) (Program.initial τ (registerAll calls)) ls p) :
    Ends (registerAll calls) ls p := by
  refine hrun.invariant_history (Ends (registerAll calls)) ?_ (Ends.initial _)
  intro ls p o p' _ h hstep
  cases step_moves hstep with
  | main env hmain =>
    cases hc : p.modulesCall s_to with
    | some c =>
      obtain ⟨rfl, func, rfl⟩ := mainStep_modules hc hmain
      exact h.modules hc env func
    | none =>
      obtain ⟨⟨l, rfl⟩, hmods, hterm⟩ := mainStep_tracker hc hmain
      obtain ⟨hstart, hnot, hfinal⟩ := mainStep_tracker_pc hc hmain
      refine h.quiet (modulesObs_tracker ls l) hmods (fun hgot => hterm ▸ hgot) (fun _ => hstart)
        (fun hpc => absurd hpc hnot) (fun hpc => ?_) (fun hpc hst => absurd hst (hfinal hpc))
      rw [hpc] at hstart
      exact absurd hstart (by decide)
  | noted t handler =>
    exact h.quiet (modulesObs_noted ls t) rfl (fun _ => rfl) id (fun hpc => ⟨hpc, rfl⟩) id
      (fun hpc hst => ⟨hpc, hst⟩)
  | beside _ _ handler =>
    exact h.quiet (modulesObs_tracker ls _) rfl id id (fun hpc => ⟨hpc, rfl⟩) id
      (fun hpc hst => ⟨hpc, hst⟩)

/-! ## §3. The end. -/

/-- **How the program ends.**  Its last call for the modules, and the only one of
its kind, is finalize_all().  Where it exits with 0, all modules are over and
every finalize procedure has been called, in reverse order of registration; or
a termination signal came before STARTED, and modules have been initialized and
started only. -/
theorem exits_clean {s_to : Int} {calls : List RegisterArgs}
    (hrun : Run (Step s_to) (Program.initial τ (registerAll calls)) ls p) (hdone : p.pc = .done) :
    ∃ before l, modulesObs ls = before ++ [l] ∧ l.call = .finalizeAll ∧
      (∀ l' ∈ before, l'.call ≠ .finalizeAll) ∧
      (p.exitCode = 0 →
        ((∀ m ∈ p.modules, m.Over) ∧
          l.events = (List.range (registerAll calls).length).reverse.map .finalize) ∨
        (p.s_got_term_sig = true ∧
          ∀ l' ∈ before, l'.call = .initializeAll ∨ l'.call = .startAll)) := by
  obtain ⟨before, l, s, hl, hbefore, hbrun, hstep, hcall, hok⟩ := (reachable_ends hrun).done hdone
  refine ⟨before, l, hl, hcall, hbefore, fun hexit => ?_⟩
  have hst : p.st = .ok := by
    unfold Program.exitCode at hexit
    by_contra hst
    rw [if_neg hst] at hexit
    exact absurd hexit (by decide)
  refine (hok hst).imp_left fun hover => ?_
  obtain ⟨env, henv⟩ := hstep.run_eq
  rw [hcall] at henv
  obtain ⟨-, hlives, hlen⟩ := Modules.lives_run hbrun (Modules.registerAll_registered calls).lives
  constructor
  · intro m hm
    obtain ⟨j, hj⟩ := List.mem_iff_getElem?.mp hm
    exact Modules.over_run (.cons hstep (.nil _)) (hover j) m hj
  · have hevents : l.events = (Modules.finalizeAll s).2.1 := by
      rw [show Modules.finalizeAll s = _ from henv]
    rw [hevents, ← hlen]
    refine Modules.finalize_events _ ?_ _
    intro i hi
    have hlt : i < s.length := by simpa [Modules.backward] using hi
    exact ⟨s[i], List.getElem?_eq_getElem hlt, hover i _ (List.getElem?_eq_getElem hlt),
      hlives.finalize_proc i _ (List.getElem?_eq_getElem hlt)⟩

/-- SIGTERM arrives once the only module is started, and the program ends. -/
def untilExit : List (Action Unit) :=
  [.main .fine, .main .fine, .main .fine, .main .fine, .main .fine, .main .fine,
    .signal () .term, .handle (), .main .fine, .main .fine, .main .fine, .main .fine, .main .fine]

/-- It exits with 0, its module over and finalized. -/
theorem exits_clean_term : ∃ (ls : List (Obs Unit)) (p : Program Unit),
    Run (Step (-1)) (Program.initial Unit (registerAll [.of ['a']])) ls p ∧ p.exitCode = 0 ∧
    p.s_got_term_sig = false ∧ (∀ m ∈ p.modules, m.Over) ∧
    ∃ before l, modulesObs ls = before ++ [l] ∧ l.events = [.finalize 0] := by
  have hrun : ∃ q, exec (next (-1)) (Program.initial Unit (registerAll [.of ['a']]))
      untilExit = some q ∧ q.2.pc = .done ∧ q.2.exitCode = 0 ∧ q.2.s_got_term_sig = false :=
    ⟨_, rfl, rfl, rfl, rfl⟩
  obtain ⟨⟨ls, p⟩, hexec, hdone, hexit, hterm⟩ := hrun
  have hp := run_of_exec hexec
  obtain ⟨before, l, hl, -, -, hend⟩ := exits_clean hp hdone
  rcases hend hexit with ⟨hover, hevents⟩ | ⟨hgot, -⟩
  · exact ⟨ls, p, hp, hexit, hterm, hover, before, l, hl, hevents⟩
  · rw [show p.s_got_term_sig = false from hterm] at hgot
    exact absurd hgot (by decide)

end Mccp.Main
