/-
  Mccp.Main.Shutdown
  ──────────────────
  **MODULES ARE TOLD TO END, AND WAITED FOR, ONLY ON REQUEST.**

  The global state is main()'s program counter for everybody else: as long as
  nobody has requested the shutdown it is the last one that main() has set,
  and a request, which any thread can make at any time, is what main() cannot
  set anything earlier over.  So main() comes to the shutdown of its modules
  only where STARTED was set before the request.  The other threads leave the
  setting of the state to main().

      InPhase     — the state against the place of main()
      Follows     — the invariant
      next_follows — every step keeps it
      modules_end_on_request — when a module is told to end or waited for, and
                               how gracefully it is shut down
-/
import Mccp.Gstate.Handshake
import Mccp.Main.Program

namespace Mccp.Main

open Gstate (Tracker Cont Cond GlobalState GraceLevel Ret Agrees recordedLevels recorded)
open Modules (AModule Env)
open Monitor Transition

variable {τ : Type}

/-! ## §1. The place of main() and the global state. -/

/-- The state that main() has set, where it comes to `pc` before any request. -/
def Pc.opened : Pc → GlobalState
  | .setInitializing => .unknown
  | .initializeAll => .initializing
  | .setStarting => .initializing
  | .startAll => .starting
  | .setStarted => .starting
  | _ => .started

/-- main() has got its request. -/
def Pc.isEnding : Pc → Bool
  | .setAccept => true
  | .shutdownAll => true
  | .waitAll _ => true
  | .stopAll => true
  | _ => false

/-- The request has been accepted. -/
def Pc.isAccepted : Pc → Bool
  | .shutdownAll => true
  | .waitAll _ => true
  | .stopAll => true
  | _ => false

/-- The state is `a`, or REQUEST_SHUTDOWN where something has been recorded. -/
def Opened (gs a : GlobalState) (rs : List GraceLevel) : Prop :=
  (rs = [] → gs = a) ∧ (rs ≠ [] → gs = .requestShutdown)

/-- **The global state against the place of main()**, where `rs` has been recorded. -/
def InPhase (p : Program τ) (rs : List GraceLevel) : Prop :=
  match p.pc with
  | .finalizeAll => True
  | .done => True
  | .setAccept => rs = [p.l] ∧ p.tracker.shared.gs = .requestShutdown
  | .shutdownAll => rs = [p.l]
  | .waitAll _ => rs = [p.l]
  | .stopAll => rs = [p.l]
  | pc => Opened p.tracker.shared.gs pc.opened rs

/-- The levels recorded in a history. -/
def levels (ls : List (Obs τ)) : List GraceLevel := recordedLevels (trackerObs ls)

/-- main() has set the state `s`. -/
def HasSet (s : GlobalState) (ls : List (Obs τ)) : Prop :=
  .tracker (.seg none (.enter (.set s)) (.returned { result := .ok })) ∈ ls

/-- STARTED was set while nothing had been requested. -/
def StartedFirst (ls : List (Obs τ)) : Prop :=
  ∃ before after, ls = before ++ after ∧ HasSet .started before ∧ levels before = []

/-- ACCEPT_SHUTDOWN was set after STARTED, when `level` and nothing else had been
requested. -/
def AcceptedAfter (level : GraceLevel) (ls : List (Obs τ)) : Prop :=
  ∃ before after, ls = before ++ after ∧ StartedFirst before ∧ levels before = [level] ∧
    HasSet .acceptShutdown after

/-- **What holds in every state of the program.** -/
structure Follows (ls : List (Obs τ)) (p : Program τ) : Prop where
  agrees : Agrees p.tracker.shared (levels ls)
  inPhase : InPhase p (levels ls)
  started : p.pc = .waitRequest ∨ p.pc.isEnding = true → StartedFirst ls
  accepted : p.pc.isAccepted = true → AcceptedAfter p.l ls
  waits : ∀ k, (p.tracker.thread none).cont? = some k →
    p.pc = .waitRequest ∧ k = .waitFor (Gstate.requestWait true reqTimedout)

theorem trackerObs_snoc (ls : List (Obs τ)) (l : Gstate.Obs (Option τ)) :
    trackerObs (ls ++ [.tracker l]) = trackerObs ls ++ [l] := by
  simp [trackerObs]

theorem levels_tracker (ls : List (Obs τ)) (l : Gstate.Obs (Option τ)) :
    levels (ls ++ [.tracker l]) = levels ls ++ (recorded l).toList := by
  simp only [levels, trackerObs_snoc, recordedLevels, List.filterMap_append]
  cases h : recorded l <;> simp [h]

theorem levels_modules (ls : List (Obs τ)) (l : Modules.Label) :
    levels (ls ++ [.modules l]) = levels ls := by
  simp [levels, trackerObs]

theorem levels_noted (ls : List (Obs τ)) (t : τ) : levels (ls ++ [.noted t]) = levels ls := by
  simp [levels, trackerObs]

theorem StartedFirst.append {ls : List (Obs τ)} (h : StartedFirst ls) (o : Obs τ) :
    StartedFirst (ls ++ [o]) := by
  obtain ⟨before, after, rfl, hset, hnone⟩ := h
  exact ⟨before, after ++ [o], List.append_assoc _ _ _, hset, hnone⟩

theorem AcceptedAfter.append {level : GraceLevel} {ls : List (Obs τ)}
    (h : AcceptedAfter level ls) (o : Obs τ) : AcceptedAfter level (ls ++ [o]) := by
  obtain ⟨before, after, rfl, hstarted, hlevel, hset⟩ := h
  exact ⟨before, after ++ [o], List.append_assoc _ _ _, hstarted, hlevel,
    List.mem_append_left _ hset⟩

theorem Follows.initial (modules : List AModule) : Follows [] (Program.initial τ modules) where
  agrees := by
    show GlobalState.unknown.num < GlobalState.requestShutdown.num
    decide
  inPhase := ⟨fun _ => rfl, fun h => absurd rfl h⟩
  started h := absurd h (by simp [Program.initial, Pc.isEnding])
  accepted h := absurd h (by simp [Program.initial, Pc.isAccepted])
  waits k hk := absurd hk (by simp [Program.initial, State.init, Thread.cont?])

/-! ## §2. The steps of the other threads. -/

variable {p p' : Program τ} {ls : List (Obs τ)}

/-- Where main() has not got its request, what is recorded leaves REQUEST_SHUTDOWN. -/
theorem InPhase.record {l : GraceLevel} {g : Monitor.State (Option τ) Tracker Cont Cond}
    {handler : τ → Option (Sig × GlobalState)} (h : InPhase p [])
    (hg : g.shared.gs = .requestShutdown) :
    InPhase { p with tracker := g, handler := handler } [l] := by
  unfold InPhase at h ⊢
  cases hpc : p.pc <;> simp only [hpc] at h ⊢ <;> simp_all [Opened]

/-- A step that neither moves the state nor records anything. -/
theorem InPhase.same {rs : List GraceLevel} {g : Monitor.State (Option τ) Tracker Cont Cond}
    {handler : τ → Option (Sig × GlobalState)} {b : Bool} (h : InPhase p rs)
    (hg : g.shared = p.tracker.shared) :
    InPhase { p with tracker := g, handler := handler, s_got_term_sig := b } rs := by
  unfold InPhase at h ⊢
  rw [hg]
  exact h

variable [DecidableEq τ]

/-- What a step beside main() does to the tracker: nothing, or the first request. -/
theorem beside_cases {g g' : Monitor.State (Option τ) Tracker Cont Cond}
    {l : Gstate.Obs (Option τ)} (hstep : Monitor.Step Gstate.code g l g') (hl : Beside l) :
    (g'.thread none).cont? = (g.thread none).cont? ∧
    ((g'.shared = g.shared ∧ recorded l = none) ∨
      ∃ level, recorded l = some level ∧ level.isValid = true ∧
        g.shared.gs.num < GlobalState.requestShutdown.num ∧
        g'.shared = { gs := .requestShutdown, gl := level }) := by
  obtain ⟨-, ⟨u, i, hi, hlu, rfl⟩ | ⟨u, w, k, c, hu, -, hlu, rfl⟩⟩ := step_cases hstep
  · obtain ⟨t, i', o, heq, hreset, hset⟩ | ⟨t, w, heq⟩ := hl
    · rw [hlu] at heq
      injection heq with hu hi' ho
      subst hu hi'
      refine ⟨State.after_cont? (by simp) _, ?_⟩
      rw [State.after_shared, hlu]
      obtain ⟨hsame, hrec, -⟩ | ⟨s, hs, -⟩ | ⟨level, rfl, hv, hlt, hreq, hout⟩ :=
        Gstate.seg_cases (g := g.shared) hreset (some t)
      · exact .inl ⟨hsame, hrec⟩
      · exact absurd hs (hset s)
      · refine .inr ⟨level, ?_, hv, hlt, hreq⟩
        rw [hout]
        rfl
    · rw [hlu] at heq
      exact absurd heq (by simp)
  · refine ⟨?_, .inl ⟨rfl, hlu ▸ rfl⟩⟩
    by_cases hut : u = none
    · subst hut
      simp [Thread.cont?, hu]
    · simp [Function.update_of_ne (Ne.symm hut)]

/-- **A step beside main() keeps the invariant.** -/
theorem Follows.beside (h : Follows ls p) {g : Monitor.State (Option τ) Tracker Cont Cond}
    {l : Gstate.Obs (Option τ)} (hstep : Monitor.Step Gstate.code p.tracker l g) (hl : Beside l)
    (handler : τ → Option (Sig × GlobalState)) :
    Follows (ls ++ [.tracker l]) { p with tracker := g, handler := handler } := by
  obtain ⟨hmain, hcases⟩ := beside_cases hstep hl
  have hstarted := fun hpc => (h.started hpc).append (.tracker l)
  have haccepted := fun hpc => (h.accepted hpc).append (.tracker l)
  have hwaits : ∀ k, (g.thread none).cont? = some k →
      p.pc = .waitRequest ∧ k = .waitFor (Gstate.requestWait true reqTimedout) := by
    intro k hk
    exact h.waits k (hmain ▸ hk)
  rcases hcases with ⟨hsame, hrec⟩ | ⟨level, hrec, hv, hlt, hg⟩
  · have hlevels : levels (ls ++ [.tracker l]) = levels ls := by
      rw [levels_tracker, hrec]
      exact List.append_nil _
    exact {
      agrees := by
        rw [hlevels]
        show Agrees g.shared _
        exact hsame ▸ h.agrees
      inPhase := hlevels ▸ h.inPhase.same hsame
      started := hstarted
      accepted := haccepted
      waits := hwaits }
  · have hnone : levels ls = [] := h.agrees.nothing hlt
    have hlevels : levels (ls ++ [.tracker l]) = [level] := by
      rw [levels_tracker, hrec, hnone]
      rfl
    exact {
      agrees := by
        rw [hlevels]
        show Agrees g.shared _
        rw [hg]
        exact ⟨hv, rfl, Nat.le_refl _⟩
      inPhase := by
        rw [hlevels]
        exact InPhase.record (hnone ▸ h.inPhase) (by rw [hg])
      started := hstarted
      accepted := haccepted
      waits := hwaits }

/-! ## §3. The steps of main(). -/

omit [DecidableEq τ] in
/-- The segment of a set. -/
theorem set_seg (g : Tracker) {s : GlobalState} (hs : s.isValid = true) :
    Gstate.code.seg g (.enter (.set s)) =
      if g.gs.num ≤ s.num then .ret { g with gs := s } { result := .ok } [.cond]
      else .ret g { result := .invalidStateTransition } [] := by
  show Gstate.set g s = _
  simp only [Gstate.set, if_pos hs, Gstate.sIsValidState, decide_eq_true_eq]

/-- **What main() sees of a set**: it is OK or changes nothing. -/
theorem onTracker_set {s : GlobalState} (hs : s.isValid = true)
    {k : Gstate.Obs (Option τ) → Program τ → Program τ} {o : Obs τ}
    (h : onTracker p (.call none (.set s)) k = some (o, p')) :
    ∃ r g, o = .tracker (.seg none (.enter (.set s)) (.returned r)) ∧
      p' = k (.seg none (.enter (.set s)) (.returned r)) { p with tracker := g } ∧
      g.thread none = .idle ∧
      (r = { result := .ok } ∧ p.tracker.shared.gs.num ≤ s.num ∧
          g.shared = { p.tracker.shared with gs := s } ∨
        r = { result := .invalidStateTransition } ∧ s.num < p.tracker.shared.gs.num ∧
          g.shared = p.tracker.shared) := by
  obtain ⟨l, g, hn, rfl, rfl⟩ := onTracker_some h
  obtain ⟨-, rfl, rfl⟩ := next_call hn
  rw [set_seg _ hs]
  by_cases hle : p.tracker.shared.gs.num ≤ s.num
  · simp only [if_pos hle]
    refine ⟨_, _, rfl, rfl, by simp [State.after], .inl ⟨rfl, hle, rfl⟩⟩
  · simp only [if_neg hle]
    refine ⟨_, _, rfl, rfl, by simp [State.after], .inr ⟨rfl, Nat.not_le.mp hle, rfl⟩⟩

omit [DecidableEq τ] in
theorem levels_set (ls : List (Obs τ)) (s : GlobalState) (r : Ret) :
    levels (ls ++ [.tracker (.seg none (.enter (.set s)) (.returned r))]) = levels ls := by
  rw [levels_tracker]
  exact List.append_nil _

/-- Before the request is got, a set moves the state on or finds it requested. -/
theorem Opened.set {g g' : Tracker} {a s : GlobalState} {rs : List GraceLevel} {r : Ret}
    (h : Opened g.gs a rs) (hag : Agrees g rs) (has : a.num ≤ s.num)
    (hs : s.num < GlobalState.requestShutdown.num)
    (hset : r = { result := .ok } ∧ g.gs.num ≤ s.num ∧ g' = { g with gs := s } ∨
      r = { result := .invalidStateTransition } ∧ s.num < g.gs.num ∧ g' = g) :
    Opened g'.gs s rs ∧ Agrees g' rs ∧ (r.result = .ok → rs = [] ∧ r = { result := .ok }) := by
  rcases hset with ⟨rfl, hle, rfl⟩ | ⟨rfl, hlt, rfl⟩
  · have hnone : rs = [] := by
      by_contra hne
      rw [h.2 hne] at hle
      omega
    subst hnone
    exact ⟨⟨fun _ => rfl, fun hne => absurd rfl hne⟩, hs, fun _ => ⟨rfl, rfl⟩⟩
  · have hne : rs ≠ [] := by
      intro hnone
      rw [h.1 hnone] at hlt
      omega
    refine ⟨⟨fun hnone => absurd hnone hne, h.2⟩, hag, ?_⟩
    intro hok
    exact absurd hok (by decide)

/-- main() sets INITIALIZING or STARTING. -/
theorem Follows.setAnyway (h : Follows ls p) {s : GlobalState} {pc : Pc} {o : Obs τ}
    (hphase : Opened p.tracker.shared.gs p.pc.opened (levels ls))
    (hle : p.pc.opened.num ≤ s.num) (hlt : s.num < GlobalState.requestShutdown.num)
    (hv : s.isValid = true)
    (hpc : pc = .initializeAll ∧ s = .initializing ∨ pc = .startAll ∧ s = .starting)
    (hstep : setAnyway p s pc = some (o, p')) : Follows (ls ++ [o]) p' := by
  obtain ⟨r, g, rfl, rfl, hidle, hset⟩ := onTracker_set hv hstep
  obtain ⟨hopened, hag, -⟩ := hphase.set h.agrees hle hlt hset
  exact {
    agrees := by
      rw [levels_set]
      exact hag
    inPhase := by
      rw [levels_set]
      rcases hpc with ⟨rfl, rfl⟩ | ⟨rfl, rfl⟩ <;> exact hopened
    started := by
      rcases hpc with ⟨rfl, rfl⟩ | ⟨rfl, rfl⟩ <;> simp [Pc.isEnding]
    accepted := by
      rcases hpc with ⟨rfl, rfl⟩ | ⟨rfl, rfl⟩ <;> simp [Pc.isAccepted]
    waits := by
      intro k hk
      rw [show ({ p with tracker := g, pc := pc } : Program τ).tracker.thread none = _ from hidle]
        at hk
      exact absurd hk (by simp [Thread.cont?]) }

/-- main() sets STARTED, and waits for the request where that has succeeded. -/
theorem Follows.setStarted (h : Follows ls p) (hpc : p.pc = .setStarted) {o : Obs τ}
    (hstep : setOrQuit p .started .waitRequest = some (o, p')) : Follows (ls ++ [o]) p' := by
  have hphase : Opened p.tracker.shared.gs .starting (levels ls) := by
    have hin := h.inPhase
    unfold InPhase at hin
    simpa only [hpc, Pc.opened] using hin
  obtain ⟨r, g, rfl, rfl, hidle, hset⟩ := onTracker_set rfl hstep
  obtain ⟨hopened, hag, hok⟩ := hphase.set h.agrees (by decide) (by decide) hset
  have hret : returned (τ := τ) (.seg none (.enter (.set .started)) (.returned r)) = some r := rfl
  simp only [hret, Program.goOn]
  by_cases hr : r.result = .ok
  · obtain ⟨hnone, rfl⟩ := hok hr
    refine {
      agrees := by
        rw [levels_set]
        exact hag
      inPhase := by
        rw [levels_set, if_pos hr]
        exact hopened
      started := fun _ => ⟨_, [], (List.append_nil _).symm, ?_, by rw [levels_set, hnone]⟩
      accepted := by simp [Pc.isAccepted]
      waits := ?_ }
    · exact List.mem_append_right _ (List.mem_singleton.mpr rfl)
    · intro k hk
      exact absurd hk (by simp [hidle, Thread.cont?])
  · refine {
      agrees := by
        rw [levels_set]
        exact hag
      inPhase := by
        rw [if_neg hr]
        trivial
      started := by simp [hr, Pc.isEnding]
      accepted := by simp [hr, Pc.isAccepted]
      waits := ?_ }
    intro k hk
    exact absurd hk (by simp [hidle, Thread.cont?])

/-- main() accepts the request it has got. -/
theorem Follows.setAccept (h : Follows ls p) (hpc : p.pc = .setAccept) {o : Obs τ}
    (hstep : setOrQuit p .acceptShutdown .shutdownAll = some (o, p')) :
    Follows (ls ++ [o]) p' := by
  have hphase : levels ls = [p.l] ∧ p.tracker.shared.gs = .requestShutdown := by
    have hin := h.inPhase
    unfold InPhase at hin
    simpa only [hpc] using hin
  have hag := h.agrees
  rw [hphase.1] at hag
  obtain ⟨r, g, rfl, rfl, hidle, hset⟩ := onTracker_set rfl hstep
  have hok : r = { result := .ok } ∧
      g.shared = { p.tracker.shared with gs := .acceptShutdown } := by
    rcases hset with ⟨rfl, -, hg⟩ | ⟨-, hlt, -⟩
    · exact ⟨rfl, hg⟩
    · rw [hphase.2] at hlt
      exact absurd hlt (by decide)
  obtain ⟨rfl, hg⟩ := hok
  have hret : returned (τ := τ) (.seg none (.enter (.set .acceptShutdown))
    (.returned { result := .ok })) = some { result := .ok } := rfl
  simp only [hret, Program.goOn, if_true]
  exact {
    agrees := by
      rw [levels_set, hphase.1]
      show Agrees g.shared _
      rw [hg]
      exact ⟨hag.1, hag.2.1, show GlobalState.requestShutdown.num ≤
        GlobalState.acceptShutdown.num by decide⟩
    inPhase := by
      rw [levels_set]
      exact hphase.1
    started := fun _ => (h.started (.inr (by rw [hpc]; rfl))).append _
    accepted := fun _ => ⟨ls, _, rfl, h.started (.inr (by rw [hpc]; rfl)), hphase.1,
      List.mem_singleton.mpr rfl⟩
    waits := by
      intro k hk
      exact absurd hk (by simp [hidle, Thread.cont?]) }

omit [DecidableEq τ] in
/-- **The segment of the wait for the request**: it sleeps, or returns; where it
returns OK, the request has been recorded and its level is given. -/
theorem wait_seg (g : Tracker) {i : Input Gstate.Call Cont}
    (hi : Gstate.WaitInput true reqTimedout i) :
    (Gstate.code.seg g i =
        .wait g (.waitFor (Gstate.requestWait true reqTimedout)) .cond []) ∨
      ∃ r, Gstate.code.seg g i = .ret g r [] ∧
        (r.result = .ok → GlobalState.requestShutdown.num ≤ g.gs.num ∧ r.curG = some g.gl) := by
  have hwait : ∀ r, Gstate.code.seg g i = .ret g r [] → r.result = .ok →
      GlobalState.requestShutdown.num ≤ g.gs.num ∧ r.curG = some g.gl := by
    intro r hseg hr
    exact Gstate.wait_ok hi (congrArg Seg.outcome hseg) hr
  have hrecheck : ∀ w : Gstate.WaitFor,
      (Gstate.waitForRecheck g w = .wait g (.waitFor w) .cond []) ∨
      ∃ r, Gstate.waitForRecheck g w = .ret g r [] := by
    intro w
    unfold Gstate.waitForRecheck
    split
    · exact .inl rfl
    · exact .inr ⟨_, rfl⟩
  have hends : (Gstate.code.seg g i =
        .wait g (.waitFor (Gstate.requestWait true reqTimedout)) .cond []) ∨
      ∃ r, Gstate.code.seg g i = .ret g r [] := by
    rcases hi with rfl | ⟨w, rfl⟩
    · exact hrecheck _
    · cases w with
      | signaled => exact hrecheck _
      | timedout => exact .inr ⟨_, rfl⟩
      | failed => exact .inr ⟨_, rfl⟩
  rcases hends with hsleeps | ⟨r, hret⟩
  · exact .inl hsleeps
  · exact .inr ⟨r, hret, hwait r hret⟩

omit [DecidableEq τ] in
/-- main() waits on. -/
theorem Follows.waitsOn {ls' : List (Obs τ)} {p' : Program τ} (h : Follows ls p)
    (hpc : p.pc = .waitRequest) (hpc' : p'.pc = .waitRequest)
    (hshared : p'.tracker.shared = p.tracker.shared) (hlevels : levels ls' = levels ls)
    (hstarted : StartedFirst ls')
    (hwaits : ∀ k, (p'.tracker.thread none).cont? = some k →
      k = .waitFor (Gstate.requestWait true reqTimedout)) : Follows ls' p' where
  agrees := by
    rw [hshared, hlevels]
    exact h.agrees
  inPhase := by
    have hin := h.inPhase
    unfold InPhase at hin ⊢
    simp only [hpc] at hin
    simp only [hpc', hshared, hlevels]
    exact hin
  started _ := hstarted
  accepted := by simp [hpc', Pc.isAccepted]
  waits k hk := ⟨hpc', hwaits k hk⟩

/-- A segment of main()'s wait for the request. -/
theorem Follows.waitRequest (h : Follows ls p) (hpc : p.pc = .waitRequest)
    {i : Input Gstate.Call Cont} (hi : Gstate.WaitInput true reqTimedout i) :
    Follows (ls ++ [.tracker (.seg none i (Gstate.code.seg p.tracker.shared i).outcome)])
      (afterWait (.seg none i (Gstate.code.seg p.tracker.shared i).outcome)
        { p with tracker := p.tracker.after none (Gstate.code.seg p.tracker.shared i) }) := by
  have hlevels : ∀ o, levels (ls ++ [.tracker (.seg none i o)]) = levels ls := by
    intro o
    have hrec : recorded (τ := Option τ) (.seg none i o) = none := by
      rcases hi with rfl | ⟨w, rfl⟩ <;> rfl
    rw [levels_tracker, hrec]
    exact List.append_nil _
  have hstarted : ∀ o, StartedFirst (ls ++ [.tracker (.seg none i o)]) :=
    fun o => (h.started (.inl hpc)).append _
  rcases wait_seg p.tracker.shared hi with hseg | ⟨r, hseg, hok⟩
  · -- asleep, still at the same place
    rw [hseg]
    refine h.waitsOn hpc hpc rfl (hlevels _) (hstarted _) fun k hk => ?_
    have hown : ((p.tracker.after none (.wait p.tracker.shared
      (.waitFor (Gstate.requestWait true reqTimedout)) .cond [] : Gstate.Segment)).thread
        none).cont? = some k := hk
    obtain ⟨s', c, ns, heq⟩ := State.after_own (by simp) hown
    injection heq with _ hk'
    exact hk'.symm
  · rw [hseg]
    have hidle : ∀ k, ((p.tracker.after none
        (.ret p.tracker.shared r [] : Gstate.Segment)).thread none).cont? ≠ some k := by
      intro k
      simp [State.after, Thread.cont?]
    have hret : returned (τ := τ) (.seg none i
      (Seg.outcome (.ret p.tracker.shared r [] : Gstate.Segment))) = some r := rfl
    simp only [afterWait, hret, Program.goOn]
    by_cases htime : r.result = .timedout
    · -- once more around the loop
      simp only [if_pos htime]
      exact h.waitsOn hpc hpc rfl (hlevels _) (hstarted _) fun k hk => absurd hk (hidle k)
    · simp only [if_neg htime]
      by_cases hr : r.result = .ok
      · have hphase : Opened p.tracker.shared.gs .started (levels ls) := by
          have hin := h.inPhase
          unfold InPhase at hin
          simpa only [hpc, Pc.opened] using hin
        obtain ⟨hge, hgl⟩ := hok hr
        obtain ⟨hlev, -⟩ := h.agrees.level hge
        refine {
          agrees := by
            rw [hlevels]
            exact h.agrees
          inPhase := by
            rw [hlevels, if_pos hr]
            refine ⟨?_, hphase.2 (by rw [hlev]; simp)⟩
            simp only [hgl, Option.getD_some]
            exact hlev
          started := fun _ => hstarted _
          accepted := by simp [hr, Pc.isAccepted]
          waits := fun k hk => absurd hk (hidle k) }
      · refine {
          agrees := by
            rw [hlevels]
            exact h.agrees
          inPhase := by
            rw [if_neg hr]
            trivial
          started := by simp [hr, Pc.isEnding]
          accepted := by simp [hr, Pc.isAccepted]
          waits := fun k hk => absurd hk (hidle k) }

omit [DecidableEq τ] in
/-- **A call for all modules keeps the invariant.** -/
theorem Follows.modules (h : Follows ls p) (hpc : p.pc ≠ .waitRequest) (ret : Result)
    (l : Modules.Label) {ms : List AModule} {st : Result} {func : Option String} :
    Follows (ls ++ [.modules l])
      { p with modules := ms, pc := p.pc.after p.s_got_term_sig ret, st := st, func := func } := by
  have hin := h.inPhase
  unfold InPhase at hin
  have hpassed : p.pc.isEnding = true → StartedFirst (ls ++ [.modules l]) :=
    fun hend => (h.started (.inr hend)).append _
  have hset : p.pc.isAccepted = true → AcceptedAfter p.l (ls ++ [.modules l]) :=
    fun hacc => (h.accepted hacc).append _
  refine {
    agrees := by
      rw [levels_modules]
      exact h.agrees
    inPhase := ?_
    started := ?_
    accepted := ?_
    waits := fun k hk => absurd (h.waits k hk).1 hpc }
  · rw [levels_modules]
    unfold InPhase
    rcases Pc.after_cases p.s_got_term_sig ret p.pc with heq | heq | ⟨hp, heq⟩ | ⟨hp, heq⟩ |
      ⟨hp, heq⟩ | ⟨forced, hp, heq⟩ | ⟨hp, heq⟩ <;>
      simp only [heq] <;> rw [hp] at hin <;> exact hin
  · show p.pc.after p.s_got_term_sig ret = .waitRequest ∨ _ → _
    rcases Pc.after_cases p.s_got_term_sig ret p.pc with heq | heq | ⟨hp, heq⟩ | ⟨hp, heq⟩ |
      ⟨hp, heq⟩ | ⟨forced, hp, heq⟩ | ⟨hp, heq⟩ <;> rw [heq]
    · simp [Pc.isEnding]
    · simp [Pc.isEnding]
    · simp [Pc.isEnding]
    · simp [Pc.isEnding]
    · exact fun _ => hpassed (by rw [hp]; rfl)
    · exact fun _ => hpassed (by rw [hp]; rfl)
    · exact fun _ => hpassed (by rw [hp]; rfl)
  · show (p.pc.after p.s_got_term_sig ret).isAccepted = true → _
    rcases Pc.after_cases p.s_got_term_sig ret p.pc with heq | heq | ⟨hp, heq⟩ | ⟨hp, heq⟩ |
      ⟨hp, heq⟩ | ⟨forced, hp, heq⟩ | ⟨hp, heq⟩ <;> rw [heq]
    · simp [Pc.isAccepted]
    · simp [Pc.isAccepted]
    · simp [Pc.isAccepted]
    · simp [Pc.isAccepted]
    · exact fun _ => hset (by rw [hp]; rfl)
    · exact fun _ => hset (by rw [hp]; rfl)
    · exact fun _ => hset (by rw [hp]; rfl)

/-- **Every step of main() keeps the invariant.** -/
theorem Follows.main (h : Follows ls p) {s_to : Int} {env : Env} {o : Obs τ}
    (hstep : mainStep s_to p env = some (o, p')) : Follows (ls ++ [o]) p' := by
  cases hc : p.modulesCall s_to with
  | some c =>
    obtain ⟨rfl, func, rfl⟩ := mainStep_modules hc hstep
    refine h.modules ?_ _ _
    intro hpc
    rw [Program.modulesCall, hpc] at hc
    exact absurd hc (by simp)
  | none =>
    have hin := h.inPhase
    unfold InPhase at hin
    unfold Program.modulesCall at hc
    unfold mainStep at hstep
    split at hstep
    next hpc =>
      rw [hpc] at hin
      exact h.setAnyway (hpc ▸ hin) (by rw [hpc]; decide) (by decide) rfl (.inl ⟨rfl, rfl⟩) hstep
    next hpc => exact absurd hc (by simp [hpc])
    next hpc =>
      rw [hpc] at hin
      exact h.setAnyway (hpc ▸ hin) (by rw [hpc]; decide) (by decide) rfl (.inr ⟨rfl, rfl⟩) hstep
    next hpc => exact absurd hc (by simp [hpc])
    next hpc => exact h.setStarted hpc hstep
    next hpc =>
      split at hstep
      next =>
        obtain ⟨l, g, hn, rfl, rfl⟩ := onTracker_some hstep
        obtain ⟨-, rfl, rfl⟩ := next_call hn
        exact h.waitRequest hpc (.inl rfl)
      next =>
        obtain ⟨l, g, hn, rfl, rfl⟩ := onTracker_some hstep
        obtain ⟨k, w, hk, rfl, rfl⟩ := next_resume hn
        obtain ⟨-, rfl⟩ := h.waits k (by rw [hk]; rfl)
        exact h.waitRequest hpc (.inr ⟨w, rfl⟩)
    next hpc => exact h.setAccept hpc hstep
    next hpc => exact absurd hc (by simp [hpc])
    next forced hpc => exact absurd hc (by simp [hpc])
    next hpc => exact absurd hc (by simp [hpc])
    next hpc => exact absurd hc (by simp [hpc])
    next hpc => exact absurd hstep (by simp)

/-- **The invariant holds in every reachable state.** -/
theorem reachable_follows {s_to : Int} {modules : List AModule}
    (hrun : Run (Step s_to) (Program.initial τ modules) ls p) : Follows ls p := by
  refine hrun.invariant_history Follows ?_ (Follows.initial modules)
  intro ls p o p' _ h hstep
  cases step_moves hstep with
  | main env hmain => exact h.main hmain
  | noted t handler =>
    exact {
      agrees := by
        rw [levels_noted]
        exact h.agrees
      inPhase := by
        rw [levels_noted]
        exact h.inPhase.same rfl
      started := fun hpc => (h.started hpc).append _
      accepted := fun hpc => (h.accepted hpc).append _
      waits := h.waits }
  | beside htracker hl handler => exact h.beside htracker hl handler

/-! ## §4. Who tells a module to end. -/

section Events

variable {P : Modules.Event → Prop} {env : Env}

/-- What holds of every event of one module, holds of every event of a round. -/
theorem round_events {f : Nat → AModule → Modules.Done} (hf : ∀ i m, ∀ e ∈ (f i m).2.1, P e)
    (i : Nat) (ms : List AModule) : ∀ e ∈ (Modules.round f i ms).2.1, P e := by
  unfold Modules.round
  split
  next m _ => exact hf i m
  next => simp

theorem untilError_events {f : Nat → AModule → Modules.Done} (hf : ∀ i m, ∀ e ∈ (f i m).2.1, P e)
    (is : List Nat) : ∀ ms, ∀ e ∈ (Modules.untilError f is ms).2.1, P e := by
  induction is with
  | nil => simp [Modules.untilError]
  | cons i is ih =>
    intro ms e he
    simp only [Modules.untilError] at he
    split at he
    next =>
      rcases List.mem_append.mp he with he | he
      · exact round_events hf i ms e he
      · exact ih _ e he
    next => exact round_events hf i ms e he

theorem carryOn_events {σ : Type} {f : σ → Nat → AModule → Modules.Done} {w' : σ → Nat → σ}
    (hf : ∀ w i m, ∀ e ∈ (f w i m).2.1, P e) (is : List Nat) :
    ∀ w first_err ms, ∀ e ∈ (Modules.carryOn f w' is w first_err ms).2.1, P e := by
  induction is with
  | nil => simp [Modules.carryOn]
  | cons i is ih =>
    intro w first_err ms e he
    simp only [Modules.carryOn] at he
    rcases List.mem_append.mp he with he | he
    · exact round_events (hf w) i ms e he
    · exact ih _ _ _ e he

/-- The other calls tell no module to end, and wait for none. -/
theorem quiet_events {c : Modules.Call} (hc : c ≠ .stopAll) (hc' : ∀ level, c ≠ .shutdownAll level)
    (hc'' : ∀ nsec, c ≠ .waitAll nsec) (ms : List AModule) :
    ∀ e ∈ (c.run env ms).2.1, e.isAtEnd = false := by
  cases c with
  | initializeAll =>
    refine untilError_events (fun i m => ?_) _ _
    unfold Modules.initializeModule
    split
    · split
      · simp only
        split <;> simp [Modules.Event.isAtEnd, Modules.Event.isEnding]
      · simp
    · simp
  | startAll =>
    refine untilError_events (fun i m => ?_) _ _
    unfold Modules.startModule
    split
    · split
      · simp only
        split <;> simp [Modules.Event.isAtEnd, Modules.Event.isEnding]
      · split <;> simp
    · simp
  | shutdownAll level => exact absurd rfl (hc' level)
  | stopAll => exact absurd rfl hc
  | waitAll nsec => exact absurd rfl (hc'' nsec)
  | finalizeAll =>
    refine carryOn_events (fun _ i m => ?_) _ _ _ _
    unfold Modules.finalizeModule
    split
    · split <;> simp [Modules.Event.isAtEnd, Modules.Event.isEnding]
    · simp

/-- shutdown_all() hands its own level to the shutdown procedures. -/
theorem shutdownAll_level (level : GraceLevel) (ms : List AModule) :
    ∀ e ∈ (Modules.shutdownAll level env ms).2.1, ∀ i level' ret,
      e = .shutdown i level' ret → level' = level := by
  unfold Modules.shutdownAll
  split
  · refine carryOn_events (fun _ i m => ?_) _ _ _ _
    unfold Modules.shutdownModule
    split
    · split
      · simp only
        split <;> simp +contextual [eq_comm]
      · split <;> simp
    · simp
  · simp

/-- stop_all() calls no shutdown procedure. -/
theorem stopAll_level (ms : List AModule) :
    ∀ e ∈ (Modules.stopAll env ms).2.1, ∀ i level ret, e ≠ .shutdown i level ret := by
  refine carryOn_events (fun _ i m => ?_) _ _ _ _
  have hstopped : ∀ ret e, (∀ i level ret, e ≠ Modules.Event.shutdown i level ret) →
      ∀ e' ∈ (Modules.stopped i m ret e).2.1, ∀ i level ret, e' ≠ .shutdown i level ret := by
    intro ret e he
    unfold Modules.stopped
    split <;> simpa using he
  unfold Modules.stopModule
  split
  · split
    · exact hstopped _ _ (by simp)
    · split
      · exact hstopped _ _ (by simp)
      · simp
  · split <;> simp

/-- Nor does wait_all(). -/
theorem waitAll_level (nsec : Int) (ms : List AModule) :
    ∀ e ∈ (Modules.waitAll nsec env ms).2.1, ∀ i level ret, e ≠ .shutdown i level ret := by
  have hwait : ∀ w i m, ∀ e ∈ (Modules.waitModule w env i m).2.1,
      ∀ j level ret, e ≠ Modules.Event.shutdown j level ret := by
    intro w i m
    unfold Modules.waitModule
    split
    · simp only
      split <;> simp
    · split <;> simp
  unfold Modules.waitAll
  split
  · exact carryOn_events (fun _ => hwait (-1)) _ _ _ _
  · exact carryOn_events hwait _ _ _ _

end Events

omit [DecidableEq τ] in
/-- A call of main() in which a module is told to end, or waited for, comes after
the acceptance. -/
theorem ending_call (h : Follows ls p) {s_to : Int} {c : Modules.Call}
    (hc : p.modulesCall s_to = some c) {env : Env} {e : Modules.Event}
    (he : e ∈ (c.run env p.modules).2.1) (hend : e.isAtEnd = true) :
    p.pc.isAccepted = true ∧ p.l.isValid = true ∧ levels ls = [p.l] ∧
      ∀ i level' ret, e = .shutdown i level' ret → level' = p.l := by
  have hquiet : c ≠ .stopAll → (∀ level, c ≠ .shutdownAll level) → (∀ nsec, c ≠ .waitAll nsec) →
      False := by
    intro hstop hdown hwait
    rw [quiet_events hstop hdown hwait p.modules e he] at hend
    exact absurd hend (by simp)
  have hlevel : levels ls = [p.l] → p.l.isValid = true := by
    intro hl
    have hag := h.agrees
    rw [hl] at hag
    exact hag.1
  have hin := h.inPhase
  unfold InPhase at hin
  unfold Program.modulesCall at hc
  -- the place of main() decides which call it makes, and what has been recorded by then
  split at hc
  next =>
    obtain rfl := Option.some.inj hc
    exact absurd (hquiet (by simp) (by simp) (by simp)) id
  next =>
    obtain rfl := Option.some.inj hc
    exact absurd (hquiet (by simp) (by simp) (by simp)) id
  next hpc =>
    obtain rfl := Option.some.inj hc
    rw [hpc] at hin
    exact ⟨by rw [hpc]; rfl, hlevel hin, hin, shutdownAll_level p.l p.modules e he⟩
  next forced hpc =>
    obtain rfl := Option.some.inj hc
    rw [hpc] at hin
    refine ⟨by rw [hpc]; rfl, hlevel hin, hin, ?_⟩
    intro i level' ret heq
    exact absurd heq (waitAll_level s_to p.modules e he i level' ret)
  next hpc =>
    obtain rfl := Option.some.inj hc
    rw [hpc] at hin
    refine ⟨by rw [hpc]; rfl, hlevel hin, hin, ?_⟩
    intro i level' ret heq
    exact absurd heq (stopAll_level p.modules e he i level' ret)
  next =>
    obtain rfl := Option.some.inj hc
    exact absurd (hquiet (by simp) (by simp) (by simp)) id
  next => exact absurd hc (by simp)

/-- **Modules end only on request.**  Where the program calls a shutdown or stop
procedure, or cancels the thread of a module, or waits for a module, STARTED was
set first, then one shutdown was requested, and then ACCEPT_SHUTDOWN was set; no
other has been requested since, and the shutdown procedures get the level of
that request. -/
theorem modules_end_on_request {s_to : Int} {modules : List AModule}
    (hrun : Run (Step s_to) (Program.initial τ modules) ls p) {before after : List (Obs τ)}
    {l : Modules.Label} (hls : ls = before ++ .modules l :: after) {e : Modules.Event}
    (he : e ∈ l.events) (hend : e.isAtEnd = true) :
    ∃ level, level.isValid = true ∧ AcceptedAfter level before ∧ levels before = [level] ∧
      ∀ i level' ret, e = .shutdown i level' ret → level' = level := by
  subst hls
  obtain ⟨q, hq, hrest⟩ := hrun.split
  have h := reachable_follows hq
  cases hrest with
  | cons hstep _ =>
    cases step_moves hstep with
    | main env hmain =>
      cases hc : q.modulesCall s_to with
      | none =>
        obtain ⟨⟨l', heq⟩, -⟩ := mainStep_tracker hc hmain
        exact absurd heq (by simp)
      | some c =>
        -- the event is one of this call, made in a state of the invariant
        obtain ⟨heq, -⟩ := mainStep_modules hc hmain
        injection heq with heq
        subst heq
        obtain ⟨hacc, hvalid, hlevel, hshutdown⟩ := ending_call h hc he hend
        exact ⟨q.l, hvalid, h.accepted hacc, hlevel, hshutdown⟩

/-- One module is started; SIGTERM arrives, and the module is shut down gracefully. -/
def untilShutdown : List (Action Unit) :=
  [.main .fine, .main .fine, .main .fine, .main .fine, .main .fine, .main .fine,
    .signal () .term, .handle (), .main .fine, .main .fine, .main .fine]

/-- The module's shutdown procedure is called with the level of SIGTERM. -/
theorem modules_end_on_request_term : ∃ (ls before : List (Obs Unit)) (p : Program Unit),
    Run (Step (-1)) (Program.initial Unit (Modules.registerAll [.of ['a']])) ls p ∧
    ls = before ++ [.modules ⟨.shutdownAll .gracefully, .ok, [.shutdown 0 .gracefully .ok]⟩] ∧
    ∃ level, level.isValid = true ∧ AcceptedAfter level before ∧ levels before = [level] ∧
      ∀ i level' ret, Modules.Event.shutdown 0 .gracefully .ok = .shutdown i level' ret →
        level' = level := by
  have hrun : ∃ q, exec (next (-1)) (Program.initial Unit (Modules.registerAll [.of ['a']]))
      untilShutdown = some q ∧ ∃ before, q.1 = before ++
        [.modules ⟨.shutdownAll .gracefully, .ok, [.shutdown 0 .gracefully .ok]⟩] := by
    refine ⟨_, rfl, ?_⟩
    exact ⟨_, (List.dropLast_append_getLast (by simp)).symm⟩
  obtain ⟨⟨ls, p⟩, hexec, before, hls⟩ := hrun
  have hp := run_of_exec hexec
  exact ⟨ls, before, p, hp, hls, modules_end_on_request hp hls List.mem_cons_self rfl⟩

end Mccp.Main
