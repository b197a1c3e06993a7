/-
  Mccp.Gstate.Janitor
  ───────────────────
  **WHO GIVES THE LOCK BACK WHEN A WORKER IS CANCELLED.**

      Fate            — the lock is with one thread as long as nobody has
                        forgotten it, and lost from then on
      lock_lost_iff   — in any run, the lock is lost exactly by a worker that is
                        cancelled in its wait with the flag of an earlier start
      Timely          — who has passed the gala opening has passed it at STARTED
      janitors_right  — without a reset, every handler does what it should, and
                        the tracker is its monitor
-/
import Mccp.Gstate.Workers

namespace Mccp.Gstate.Janitor

open Monitor Transition

variable {τ W : Type} [DecidableEq τ] [DecidableEq W]
variable {role : τ → Option W} {s s' : Workers τ W} {l : Label τ} {t u : τ} {w : W}

/-! ## §1. Who loses the lock. -/

/-- A worker that has been cancelled in its wait runs its handler, and has the flag
of an earlier start. -/
def Forgets (role : τ → Option W) (s : Workers τ W) (t : τ) : Prop :=
  ∃ w k, role t = some w ∧ s.gs.place t = .cleaning k ∧ s.started w = true

/-- The handler of a worker calls the janitor unless the flag is set. -/
theorem clean_janitor {asleep janitor : Bool}
    (hstep : Step role s (.gs (.clean t asleep janitor)) s') :
    ∃ w, role t = some w ∧ s.phase t = .finalizing ∧ janitor = !s.started w := by
  obtain ⟨-, hmoves⟩ := step_moves hstep
  cases hmoves with
  | other l gs hrole hgs hl => exact Bool.noConfusion hl
  | worker w l gs hrole hgs hl =>
    refine ⟨w, hrole, ?_⟩
    replace hl : (s.phase t).permits (s.running w).isNone (s.started w)
        (.clean t asleep janitor) = true := hl
    cases hphase : s.phase t with
    | finalizing =>
      rw [hphase] at hl
      exact ⟨rfl, of_decide_eq_true hl⟩
    | _ =>
      rw [hphase] at hl
      exact Bool.noConfusion hl

/-- **A handler does what it should, or forgets the lock.** -/
theorem Shape.right (h : Shape role s) {l : Seen τ} (hstep : Step role s (.gs l) s') :
    Locked.Right s.gs l s'.gs ∨ ∃ t, l = .clean t true false ∧ Forgets role s t := by
  have hgs := (step_moves hstep).2.gs_step
  generalize s'.gs = gs at hgs ⊢
  obtain ⟨-, hchanges⟩ := Locked.step_changes hgs
  cases l with
  | clean t asleep janitor =>
    obtain ⟨w, hrole, hphase, hjanitor⟩ := clean_janitor hstep
    have hfits := h.worker t w hrole
    rw [hphase] at hfits
    cases hchanges with
    | cleaned t k janitor hp =>
      cases hflag : s.started w with
      | false =>
        left
        show janitor = true
        rw [hjanitor, hflag]
        rfl
      | true =>
        rw [hflag] at hjanitor
        exact .inr ⟨t, congrArg _ hjanitor, w, k, hrole, hp, hflag⟩
    | left t janitor hp =>
      -- it was in the main loop, so the flag is set
      rw [hp] at hfits
      left
      show janitor = false
      rw [hjanitor, show s.started w = true from hfits]
      rfl
  | _ => exact .inl trivial

/-- The tracker does not see what a worker does on its own. -/
theorem own_gs (hstep : Step role s (.own t) s') : s'.gs = s.gs := by
  obtain ⟨-, hmoves⟩ := step_moves hstep
  cases hmoves with
  | passes w t r hrole hphase =>
    unfold Workers.passed
    split <;> rfl
  | finishes w t hrole hphase => rfl

/-- **A lock that is lost stays lost**, and who is about to take it stays there. -/
theorem Shape.stuck (h : Shape role s) (hstuck : Locked.Stuck t s.gs) (hstep : Step role s l s') :
    Locked.Stuck t s'.gs ∧ ∀ u i, s.gs.place u = .locking i → s'.gs.place u = .locking i := by
  cases l with
  | own u =>
    rw [own_gs hstep]
    exact ⟨hstuck, fun _ _ hu => hu⟩
  | gs l =>
    obtain hright | ⟨u, -, w, k, -, hp, -⟩ := h.right hstep
    · exact hstuck.step (step_moves hstep).2.gs_step hright
    · -- nobody has got to the lock since
      have hout := hstuck.outside u
      rw [hp] at hout
      exact Bool.noConfusion hout

theorem Shape.stuck_run {ls : List (Label τ)} (h : Shape role s) (hstuck : Locked.Stuck t s.gs)
    (hrun : Run (Step role) s ls s') :
    Locked.Stuck t s'.gs ∧ ∀ u i, s.gs.place u = .locking i → s'.gs.place u = .locking i := by
  induction hrun with
  | nil => exact ⟨hstuck, fun _ _ hu => hu⟩
  | cons hstep _ ih =>
    obtain ⟨hnext, hsame⟩ := h.stuck hstuck hstep
    obtain ⟨hend, hrest⟩ := ih (h.step hstep) hnext
    exact ⟨hend, fun u i hu => hrest u i (hsame u i hu)⟩

/-- The lock is forgotten in the run: a handler has it and calls no janitor. -/
def Lost (ls : List (Label τ)) : Prop := ∃ t, .gs (.clean t true false) ∈ ls

/-- **The lock is with one thread as long as nobody has forgotten it**, and from
then on it is kept. -/
structure Fate (role : τ → Option W) (ls : List (Label τ)) (s : Workers τ W) : Prop where
  shape : Shape role s
  sound : ¬ Lost ls → Locked.Inv s.gs
  lost : Lost ls → ∃ t, Locked.Stuck t s.gs

theorem Fate.step {ls : List (Label τ)} (h : Fate role ls s) (hstep : Step role s l s') :
    Fate role (ls ++ [l]) s' := by
  have hlost : Lost (ls ++ [l]) ↔ Lost ls ∨ ∃ t, l = .gs (.clean t true false) := by
    simp only [Lost, List.mem_append, List.mem_singleton, exists_or]
    simp only [eq_comm]
  refine ⟨h.shape.step hstep, fun hnot => ?_, fun hl => ?_⟩
  · have hinv := h.sound fun hl => hnot (hlost.mpr (.inl hl))
    cases l with
    | own t =>
      rw [own_gs hstep]
      exact hinv
    | gs l =>
      obtain hright | ⟨t, rfl, -⟩ := h.shape.right hstep
      · exact hinv.step (step_moves hstep).2.gs_step hright
      · exact (hnot (hlost.mpr (.inr ⟨t, rfl⟩))).elim
  · by_cases hbefore : Lost ls
    · obtain ⟨t, ht⟩ := h.lost hbefore
      exact ⟨t, (h.shape.stuck ht hstep).1⟩
    · obtain ⟨t, rfl⟩ := (hlost.mp hl).resolve_left hbefore
      exact ⟨t, (h.sound hbefore).stuck (step_moves hstep).2.gs_step⟩

theorem fate_run {ls : List (Label τ)} (hrun : Run (Step role) (Workers.init τ W) ls s) :
    Fate role ls s := by
  refine hrun.invariant_history (Fate role) (fun _ _ _ _ _ h hstep => h.step hstep) ?_
  refine ⟨Shape.init, fun _ => Locked.Inv.init Tracker.initial, fun hl => ?_⟩
  obtain ⟨t, ht⟩ := hl
  exact absurd ht (by simp)

/-- **The lock of the tracker is lost exactly by a worker that is cancelled in its
wait with the flag of an earlier start.**  From then on nobody gets it, and whoever
is about to take it stays there. -/
theorem lock_lost_iff {ls : List (Label τ)} (hrun : Run (Step role) (Workers.init τ W) ls s) :
    ((∃ t, Locked.Stuck t s.gs) ↔
      ∃ ms rest t janitor w v, ls = ms ++ .gs (.clean t true janitor) :: rest ∧
        Run (Step role) (Workers.init τ W) ms v ∧
        Run (Step role) v (.gs (.clean t true janitor) :: rest) s ∧
        role t = some w ∧ v.started w = true) ∧
    ∀ t ls' s', Locked.Stuck t s.gs → Run (Step role) s ls' s' →
      Locked.Stuck t s'.gs ∧ ∀ u i, s.gs.place u = .locking i → s'.gs.place u = .locking i := by
  have hfate := fate_run hrun
  refine ⟨⟨fun hstuck => ?_, fun hforgot => ?_⟩, fun t ls' s' hstuck hrest =>
    hfate.shape.stuck_run hstuck hrest⟩
  · obtain ⟨t, ht⟩ := hstuck
    by_cases hl : Lost ls
    · obtain ⟨u, hu⟩ := hl
      obtain ⟨ms, rest, rfl⟩ := List.append_of_mem hu
      obtain ⟨v, hv, hrest⟩ := hrun.split
      have hbegin := hrest
      cases hrest with
      | cons hstep _ =>
        obtain hright | ⟨u', heq, w, k, hrole, -, hflag⟩ := (fate_run hv).shape.right hstep
        · exact absurd hright (by simp [Locked.Right])
        · injection heq with hu'
          subst hu'
          exact ⟨ms, rest, u, false, w, v, rfl, hv, hbegin, hrole, hflag⟩
    · exact absurd ht (hfate.sound hl).not_stuck
  · obtain ⟨ms, rest, t, janitor, w, v, rfl, -, hrest, hrole, hflag⟩ := hforgot
    cases hrest with
    | cons hstep _ =>
      -- with the flag set, the handler leaves the janitor out
      obtain ⟨w', hrole', -, hjanitor⟩ := clean_janitor hstep
      obtain rfl : w = w' := Option.some.inj (hrole.symm.trans hrole')
      rw [hflag] at hjanitor
      obtain rfl : janitor = false := hjanitor
      exact hfate.lost ⟨t, List.mem_append_right _ (List.mem_cons_self)⟩

/-- Two pthreads of one worker, one after the other, beside other threads. -/
def twoStarts (t : Nat) : Option Unit := if t < 2 then some () else none

/-- What a thread chooses in a call that does not sleep. -/
def callActions (t : Nat) (c : Call) : List (Action Nat) :=
  [.gs (.call t c), .gs (.lock t), .gs (.look t), .gs (.write t), .gs (.unlock t)]

/-- A worker runs, the state is reset, and the worker is started once more and
cancelled while it waits. -/
theorem lock_lost_iff_restarted :
    ∃ (ls : List (Label Nat)) (s : Workers Nat Unit),
      Run (Step twoStarts) (Workers.init Nat Unit) ls s ∧ ∃ t, Locked.Stuck t s.gs := by
  have hrun : ∃ p q, exec (nextWorkers twoStarts) (Workers.init Nat Unit)
      (callActions 2 (.set .started) ++ callActions 0 (.waitFor openingWait) ++
        [.pass 0, .finish 0] ++ callActions 2 .reset ++
        [.gs (.call 1 (.waitFor openingWait)), .gs (.lock 1), .gs (.look 1), .gs (.write 1),
          .gs (.cancel 1), .gs (.lock 1)]) = some p ∧ p.2.started () = true ∧
      nextWorkers twoStarts p.2 (.gs (.clean 1 false)) = some q ∧
      q.1 = .gs (.clean 1 true false) := ⟨_, _, rfl, rfl, rfl, rfl⟩
  obtain ⟨⟨ms, v⟩, ⟨l, s⟩, hexec, hflag, hlast, rfl⟩ := hrun
  have hv := run_of_exec hexec
  have hrest : Run (Step twoStarts) v [.gs (.clean 1 true false)] s :=
    .cons ⟨.gs (.clean 1 false), hlast⟩ (.nil s)
  have hs := hv.append hrest
  exact ⟨_, s, hs, (lock_lost_iff hs).1.mpr ⟨ms, [], 1, false, (), v, rfl, hv, hrest, rfl, hflag⟩⟩

/-! ## §2. Without a reset. -/

/-- The state is never reset. -/
def NoReset (ls : List (Label τ)) : Prop := ∀ t o, .gs (.seg t (.enter .reset) o) ∉ ls

/-- The thread sleeps, or has been cancelled in its sleep. -/
def Asleep : Place → Prop
  | .waiting _ _ => True
  | .dying _ => True
  | .cleaning _ => True
  | _ => False

/-- **Who has passed the gala opening has passed it at STARTED or later**, and who
sleeps has not passed it. -/
structure Timely (role : τ → Option W) (s : Workers τ W) : Prop where
  opened : ∀ w, s.started w = true → GlobalState.started.num ≤ s.gs.shared.gs.num
  asleep : ∀ t w, role t = some w → Asleep (s.gs.place t) → s.started w = false
  passing : ∀ t w r, role t = some w → (s.gs.place t = .unlocking r ∨ s.phase t = .passing r) →
    sWorkerMain r = .mainLoop → GlobalState.started.num ≤ s.gs.shared.gs.num

omit [DecidableEq τ] [DecidableEq W] in
theorem Timely.init : Timely role (Workers.init τ W) where
  opened _ h := absurd h (by simp [Workers.init])
  asleep _ _ _ h := h.elim
  passing _ _ _ _ h := absurd h (by simp [Workers.init, Locked.State.init])

/-- The state moves forward. -/
theorem gs_forward {m m' : Tracked τ} {l : Seen τ} (hinv : Locked.Inv m)
    (hstep : Locked.Step code m l m') (hreset : ∀ t o, l ≠ .seg t (.enter .reset) o) :
    m.shared.gs.num ≤ m'.shared.gs.num := by
  obtain hsame | ⟨t, i, o, rfl, hseg⟩ := hinv.step_shared hstep
  · exact Nat.le_of_eq (congrArg (fun g => g.gs.num) hsame.symm)
  · rw [hseg]
    refine seg_forward fun hi => ?_
    subst hi
    exact hreset t o rfl

omit [DecidableEq τ] in
/-- A notification puts nobody to sleep, and returns from no call. -/
theorem asleep_broadcast {ns : List Cond} {place : τ → Place}
    (h : Asleep (Locked.broadcast ns place u)) : Asleep (place u) := by
  obtain hsame | ⟨k, c, -, hwoken⟩ := Locked.broadcast_cases ns place u
  · rwa [hsame] at h
  · rw [hwoken] at h
    exact h.elim

omit [DecidableEq τ] in
theorem unlocking_broadcast {ns : List Cond} {place : τ → Place} {r : Ret}
    (h : Locked.broadcast ns place u = .unlocking r) : place u = .unlocking r := by
  obtain hsame | ⟨k, c, -, hwoken⟩ := Locked.broadcast_cases ns place u
  · exact hsame.symm.trans h
  · exact absurd (hwoken.symm.trans h) (by simp)

/-- What a worker writes. -/
theorem worker_writes {flag : Bool} {p : Phase} {m : Tracked τ} {g : Tracker} {i : Input Call Cont}
    (hfits : Fits flag p (.looked i g)) :
    p = .opening ∧
      ((g.gs.num < GlobalState.started.num ∧
          (m.after t (code.seg g i)).place t = .waiting (.waitFor openingWait) .cond) ∨
        ∃ r, (m.after t (code.seg g i)).place t = .unlocking r ∧
          (sWorkerMain r = .mainLoop → GlobalState.started.num ≤ g.gs.num)) := by
  cases p with
  | opening =>
    refine ⟨rfl, ?_⟩
    obtain ⟨hlt, hseg⟩ | ⟨r, hseg, hr⟩ := opening_seg (g := g) hfits
    · rw [hseg]
      exact .inl ⟨hlt, Function.update_self t _ _⟩
    · rw [hseg]
      exact .inr ⟨r, Function.update_self t _ _, hr⟩
  | _ => exact hfits.elim

/-- **A worker falls asleep before STARTED.** -/
theorem asleep_step {m m' : Tracked τ} {l : Seen τ} {p : Phase} {flag : Bool}
    (hinv : Locked.Inv m) (hstep : Locked.Step code m l m') (hfits : Fits flag p (m.place l.thread))
    (hasleep : Asleep (m'.place l.thread)) :
    Asleep (m.place l.thread) ∨ m.shared.gs.num < GlobalState.started.num := by
  obtain ⟨-, hchanges⟩ := Locked.step_changes hstep
  have hput : ∀ {t : τ} {q : Place} {mutex : Option τ},
      Asleep ((m.put t q mutex).place t) → Asleep q := by
    intro t q mutex hput
    rwa [Locked.put_self] at hput
  cases hchanges with
  | called t c hp => exact absurd (hput hasleep) (fun h => h)
  | locked t i hp hm => exact absurd (hput hasleep) (fun h => h)
  | lockedToDie t k hp hm =>
    show Asleep (m.place t) ∨ _
    rw [hp]
    exact .inl trivial
  | looks t i hp => exact absurd (hput hasleep) (fun h => h)
  | writes t i v hp =>
    obtain rfl := hinv.fresh t i v hp
    replace hfits : Fits flag p (m.place t) := hfits
    rw [hp] at hfits
    obtain ⟨-, ⟨hlt, -⟩ | ⟨r, hr, -⟩⟩ := worker_writes (t := t) (m := m) hfits
    · exact .inr hlt
    · replace hasleep : Asleep ((m.after t (code.seg m.shared i)).place t) := hasleep
      rw [hr] at hasleep
      exact hasleep.elim
  | unlocked t r hp => exact absurd (hput hasleep) (fun h => h)
  | woken t w k c hp hw => exact absurd (hput hasleep) (fun h => h)
  | cancelled t k c hp =>
    show Asleep (m.place t) ∨ _
    rw [hp]
    exact .inl trivial
  | quits t hp => exact absurd (hput hasleep) (fun h => h)
  | cleaned t k janitor hp => exact absurd (hput hasleep) (fun h => h)
  | left t janitor hp => exact absurd (hput hasleep) (fun h => h)

/-- **A worker finds the way to the main loop at STARTED or later.** -/
theorem passing_step {m m' : Tracked τ} {l : Seen τ} {p : Phase} {flag : Bool} {r : Ret}
    (hinv : Locked.Inv m) (hstep : Locked.Step code m l m') (hfits : Fits flag p (m.place l.thread))
    (hr : m'.place l.thread = .unlocking r ∨ p.after l = .passing r)
    (hmain : sWorkerMain r = .mainLoop) :
    (m.place l.thread = .unlocking r ∨ p = .passing r) ∨
      GlobalState.started.num ≤ m.shared.gs.num := by
  obtain ⟨-, hchanges⟩ := Locked.step_changes hstep
  have hput : ∀ {t : τ} {q : Place} {mutex : Option τ} {P : Prop}, q ≠ .unlocking r →
      (m.put t q mutex).place t = .unlocking r ∨ P → P := by
    intro t q mutex P hq hor
    refine hor.resolve_left fun heq => hq ?_
    rwa [Locked.put_self] at heq
  cases hchanges with
  | called t c hp => exact absurd (hput (by simp) hr) (by simp [Phase.after])
  | locked t i hp hm => exact .inl (.inr (hput (by simp) hr))
  | lockedToDie t k hp hm => exact .inl (.inr (hput (by simp) hr))
  | looks t i hp => exact .inl (.inr (hput (by simp) hr))
  | writes t i v hp =>
    obtain rfl := hinv.fresh t i v hp
    replace hfits : Fits flag p (m.place t) := hfits
    replace hr : (m.after t (code.seg m.shared i)).place t = .unlocking r ∨ p = .passing r := hr
    rw [hp] at hfits
    obtain ⟨rfl, ⟨-, hwait⟩ | ⟨r', hret, hle⟩⟩ := worker_writes (t := t) (m := m) hfits
    · rw [hwait] at hr
      exact absurd hr (by simp)
    · rw [hret] at hr
      obtain rfl : r' = r := by simpa using hr
      exact .inr (hle hmain)
  | unlocked t r' hp =>
    have hpass : Phase.passing r' = .passing r := hput (by simp) hr
    obtain rfl := Phase.passing.inj hpass
    exact .inl (.inl hp)
  | woken t w k c hp hw => exact .inl (.inr (hput (by simp) hr))
  | cancelled t k c hp => exact absurd (hput (by simp) hr) (by simp [Phase.after])
  | quits t hp => exact absurd (hput (by simp) hr) (by simp [Phase.after])
  | cleaned t k janitor hp => exact absurd (hput (by simp) hr) (by simp [Phase.after])
  | left t janitor hp => exact absurd (hput (by simp) hr) (by simp [Phase.after])

omit [DecidableEq W] in
/-- Nothing changes for the pthreads that do not take the step. -/
theorem Timely.elsewhere (h : Timely role s) {l : Seen τ} {gs : Tracked τ}
    (hgs : Locked.Step code s.gs l gs) (hu : role u = some w) (hne : u ≠ l.thread) :
    (Asleep (gs.place u) → s.started w = false) ∧
    ∀ r, (gs.place u = .unlocking r ∨ s.phase u = .passing r) → sWorkerMain r = .mainLoop →
      GlobalState.started.num ≤ s.gs.shared.gs.num := by
  obtain ⟨ns, hns⟩ := Locked.step_others hgs hne
  rw [hns]
  exact ⟨fun hasleep => h.asleep u w hu (asleep_broadcast hasleep),
    fun r hor => h.passing u w r hu (hor.imp unlocking_broadcast id)⟩

omit [DecidableEq τ] [DecidableEq W] in
/-- A worker that sleeps has not ended. -/
theorem Shape.asleep_live (h : Shape role s) (hu : role u = some w)
    (hasleep : Asleep (s.gs.place u)) :
    (s.phase u).live = true := by
  have hfits := h.worker u w hu
  cases hp : s.phase u with
  | fresh | finished =>
    rw [hp] at hfits
    cases hplace : s.gs.place u <;> rw [hplace] at hfits hasleep <;>
      first | exact hfits.elim | exact hasleep.elim
  | _ => rfl

/-- A pthread returns. -/
theorem Timely.returned (h : Timely role s) : Timely role (s.returned w t) where
  opened := h.opened
  asleep := h.asleep
  passing u w' r hu hor := by
    refine h.passing u w' r hu (hor.imp id fun hphase => ?_)
    replace hphase : Function.update s.phase t .finished u = .passing r := hphase
    by_cases hut : u = t
    · rw [hut, Function.update_self] at hphase
      exact absurd hphase (by simp)
    · rwa [Function.update_of_ne hut] at hphase

/-- A worker's pthread takes a step at the tracker. -/
theorem Timely.moved (h : Timely role s) (hshape : Shape role s) (hinv : Locked.Inv s.gs)
    {l : Seen τ} {gs : Tracked τ} (hgs : Locked.Step code s.gs l gs)
    (hforward : s.gs.shared.gs.num ≤ gs.shared.gs.num) : Timely role (s.moved w l gs) where
  opened w hw := Nat.le_trans (h.opened w hw) hforward
  asleep u w' hu hasleep := by
    show s.started w' = false
    by_cases hut : u = l.thread
    · subst hut
      obtain hbefore | hlt := asleep_step hinv hgs (hshape.worker _ w' hu) hasleep
      · exact h.asleep _ w' hu hbefore
      · -- before STARTED no worker has passed
        cases hflag : s.started w' with
        | false => rfl
        | true => exact absurd (h.opened w' hflag) (Nat.not_le.mpr hlt)
    · exact (h.elsewhere hgs hu hut).1 hasleep
  passing u w' r hu hor hmain := by
    refine Nat.le_trans ?_ hforward
    replace hor : gs.place u = .unlocking r ∨
        Function.update s.phase l.thread ((s.phase l.thread).after l) u = .passing r := hor
    by_cases hut : u = l.thread
    · subst hut
      rw [Function.update_self] at hor
      obtain hbefore | hle := passing_step hinv hgs (hshape.worker _ w' hu) hor hmain
      · exact h.passing _ w' r hu hbefore hmain
      · exact hle
    · rw [Function.update_of_ne hut] at hor
      exact (h.elsewhere hgs hu hut).2 r hor hmain

/-- A worker acts on what its wait has returned. -/
theorem Timely.passed (h : Timely role s) (hshape : Shape role s) {r : Ret}
    (hrole : role t = some w) (hphase : s.phase t = .passing r) : Timely role (s.passed w t r) := by
  unfold Workers.passed
  split
  next hmain =>
    refine ⟨fun w' hw' => ?_, fun u w' hu hasleep => ?_, fun u w' r' hu hor => ?_⟩
    · replace hw' : Function.update s.started w true w' = true := hw'
      by_cases hw : w' = w
      · exact h.passing t w r hrole (.inr hphase) hmain
      · rw [Function.update_of_ne hw] at hw'
        exact h.opened w' hw'
    · show Function.update s.started w true w' = false
      by_cases hw : w' = w
      · -- a worker has one pthread, and this one does not sleep
        subst hw
        have hlive := hshape.asleep_live hu hasleep
        have hut : u = t := by
          by_contra hne
          have hend := hshape.alone hrole hu hne (by rw [hphase]; rfl)
          exact absurd hlive (by simp [hend])
        subst hut
        have hfits := hshape.worker u w' hrole
        rw [hphase] at hfits
        replace hasleep : Asleep (s.gs.place u) := hasleep
        rw [hfits.idle (.inl ⟨r, rfl⟩)] at hasleep
        exact hasleep.elim
      · rw [Function.update_of_ne hw]
        exact h.asleep u w' hu hasleep
    · refine h.passing u w' r' hu (hor.imp id fun hnext => ?_)
      replace hnext : Function.update s.phase t .looping u = .passing r' := hnext
      by_cases hut : u = t
      · rw [hut, Function.update_self] at hnext
        exact absurd hnext (by simp)
      · rwa [Function.update_of_ne hut] at hnext
  next => exact ⟨h.opened, h.asleep, h.passing⟩
  next => exact h.returned

/-- **Every step but a reset keeps it.** -/
theorem Timely.step (h : Timely role s) (hshape : Shape role s) (hinv : Locked.Inv s.gs)
    (hstep : Step role s l s') (hreset : ∀ t o, l ≠ .gs (.seg t (.enter .reset) o)) :
    Timely role s' := by
  obtain ⟨-, hmoves⟩ := step_moves hstep
  cases hmoves with
  | other l gs hrole hgs hl =>
    have hforward := gs_forward hinv hgs fun t o heq => hreset t o (congrArg Label.gs heq)
    have hne : ∀ {u w}, role u = some w → u ≠ l.thread := by
      rintro u w hu rfl
      exact absurd (hrole.symm.trans hu) (by simp)
    refine ⟨fun w hw => Nat.le_trans (h.opened w hw) hforward, fun u w hu => ?_,
      fun u w r hu hor hmain => ?_⟩
    · exact (h.elsewhere hgs hu (hne hu)).1
    · exact Nat.le_trans ((h.elsewhere hgs hu (hne hu)).2 r hor hmain) hforward
  | worker w l gs hrole hgs hl =>
    exact h.moved hshape hinv hgs
      (gs_forward hinv hgs fun t o heq => hreset t o (congrArg Label.gs heq))
  | passes w t r hrole hphase => exact h.passed hshape hrole hphase
  | finishes w t hrole hphase => exact h.returned

/-- Without a reset nobody forgets the lock. -/
theorem timely_run {ls : List (Label τ)} (hrun : Run (Step role) (Workers.init τ W) ls s)
    (hreset : NoReset ls) : Timely role s ∧ ¬ Lost ls := by
  refine hrun.invariant_history
    (fun ls s => NoReset ls → Timely role s ∧ ¬ Lost ls) ?_ ?_ hreset
  · intro ls s l s' hrun ih hstep hreset
    obtain ⟨htimely, hlost⟩ := ih fun t o hmem => hreset t o (List.mem_append_left _ hmem)
    have hfate := fate_run hrun
    have hinv := hfate.sound hlost
    refine ⟨htimely.step hfate.shape hinv hstep ?_, ?_⟩
    · rintro t o rfl
      exact hreset t o (List.mem_append_right _ (List.mem_singleton_self _))
    · intro hl
      obtain ⟨t, ht⟩ := hl
      obtain hmem | hmem := List.mem_append.mp ht
      · exact hlost ⟨t, hmem⟩
      · obtain rfl := List.mem_singleton.mp hmem
        obtain hright | ⟨u, -, w, k, hrole, hplace, hflag⟩ := hfate.shape.right hstep
        · exact absurd hright (by simp [Locked.Right])
        · have hasleep := htimely.asleep u w hrole (by rw [hplace]; trivial)
          exact absurd (hasleep.symm.trans hflag) (by simp)
  · intro _
    refine ⟨Timely.init, fun hl => ?_⟩
    obtain ⟨t, ht⟩ := hl
    exact absurd ht (by simp)

/-- A step at the tracker is open when the thread's program takes it. -/
theorem step_gs {l : Seen τ} {gs : Tracked τ} (hexit : s.exited = false)
    (hgs : Locked.Step code s.gs l gs) (hother : role l.thread = none → uncancelled l = true)
    (hworker : ∀ w, role l.thread = some w → s.permits w l = true) :
    ∃ s', Step role s (.gs l) s' ∧ s'.gs = gs ∧ s'.exited = false := by
  obtain ⟨a, ha⟩ := hgs
  have hnot : ¬ s.exited = true := by simp [hexit]
  cases hrole : role l.thread with
  | none =>
    refine ⟨{ s with gs := gs }, ⟨.gs a, ?_⟩, rfl, hexit⟩
    simp only [nextWorkers, if_neg hnot, ha, hrole, if_pos (hother hrole)]
  | some w =>
    refine ⟨s.moved w l gs, ⟨.gs a, ?_⟩, rfl, hexit⟩
    simp only [nextWorkers, if_neg hnot, ha, hrole, if_pos (hworker w hrole)]

/-- With the lock, a worker is in its call, or in the handler. -/
theorem Fits.opening {flag : Bool} {p : Phase} {place : Place} (h : Fits flag p place)
    (hholds : place.holds = true) (hclean : ∀ k, place ≠ .cleaning k) : p = .opening := by
  cases p with
  | opening => rfl
  | finalizing =>
    cases place with
    | cleaning k => exact absurd rfl (hclean k)
    | _ => first | exact h.elim | exact Bool.noConfusion hholds
  | _ => cases place <;> first | exact h.elim | exact Bool.noConfusion hholds

theorem Fits.finalizing {flag : Bool} {p : Phase} {k : Cont} (h : Fits flag p (.cleaning k)) :
    p = .finalizing := by
  cases p with
  | finalizing => rfl
  | _ => exact h.elim

omit [DecidableEq W] in
/-- What the holder of the lock does next is in its program. -/
theorem holder_permits (h : Shape role s) {l : Seen τ} {gs : Tracked τ}
    (hgs : Locked.Step code s.gs l gs) (hright : Locked.Right s.gs l gs)
    (hholds : (s.gs.place l.thread).holds = true) (hforgets : ¬ Forgets role s l.thread) :
    (role l.thread = none → uncancelled l = true) ∧
      ∀ w, role l.thread = some w → s.permits w l = true := by
  have hno : ∀ {p : Place} {P : Prop}, s.gs.place l.thread = p → p.holds = false → P := by
    intro p P hp hfree
    rw [hp, hfree] at hholds
    exact Bool.noConfusion hholds
  have hinside : ∀ {w}, role l.thread = some w → (∀ k, s.gs.place l.thread ≠ .cleaning k) →
      s.phase l.thread = .opening :=
    fun hrole hclean => (h.worker _ _ hrole).opening hholds hclean
  obtain ⟨-, hchanges⟩ := Locked.step_changes hgs
  cases hchanges with
  | looks t i hp =>
    refine ⟨fun _ => rfl, fun w hrole => ?_⟩
    have hphase : s.phase t = .opening :=
      hinside hrole fun k hk => absurd (hp.symm.trans hk) (by simp)
    show (s.phase t).permits _ _ (.quiet t) = true
    rw [hphase]
    rfl
  | writes t i v hp =>
    refine ⟨fun _ => rfl, fun w hrole => ?_⟩
    have hphase : s.phase t = .opening :=
      hinside hrole fun k hk => absurd (hp.symm.trans hk) (by simp)
    show (s.phase t).permits _ _ (.seg t i (code.seg v i).outcome) = true
    rw [hphase]
    rfl
  | unlocked t r hp =>
    refine ⟨fun _ => rfl, fun w hrole => ?_⟩
    have hphase : s.phase t = .opening :=
      hinside hrole fun k hk => absurd (hp.symm.trans hk) (by simp)
    show (s.phase t).permits _ _ (.unlock t r) = true
    rw [hphase]
    rfl
  | cleaned t k janitor hp =>
    refine ⟨fun hrole => ?_, fun w hrole => ?_⟩
    · have huncancelled := h.other t hrole
      rw [hp] at huncancelled
      exact huncancelled.elim
    · have hfits := h.worker t w hrole
      rw [hp] at hfits
      have hflag : s.started w = false := by
        by_contra hnot
        exact hforgets ⟨w, k, hrole, hp, by simpa using hnot⟩
      show (s.phase t).permits _ (s.started w) (.clean t true janitor) = true
      rw [hfits.finalizing, hflag, show janitor = true from hright]
      rfl
  | called t c hp => exact hno hp rfl
  | locked t i hp hm => exact hno hp rfl
  | lockedToDie t k hp hm => exact hno hp rfl
  | woken t w k c hp hw => exact hno hp rfl
  | cancelled t k c hp => exact hno hp rfl
  | quits t hp => exact hno hp rfl
  | left t janitor hp => exact hno hp rfl

/-- **Who holds the lock can go on.** -/
theorem holder_step (h : Shape role s) (hinv : Locked.Inv s.gs) (hexit : s.exited = false)
    (ht : s.gs.mutex = some t) (hforgets : ¬ Forgets role s t) :
    ∃ l s', l.thread = t ∧ Step role s (.gs l) s' ∧ s'.exited = false ∧ Locked.Inv s'.gs ∧
      (s'.gs.mutex = none ∨ (s'.gs.mutex = some t ∧
        (s'.gs.place t).left < (s.gs.place t).left ∧ ¬ Forgets role s' t)) := by
  have hholds := (hinv.holder t).mp ht
  obtain ⟨l, gs, hl, hgs, hright, hprogress⟩ := Locked.holder_steps code hinv h.going ht
  rw [← hl] at hholds hforgets
  obtain ⟨hother, hworker⟩ := holder_permits h hgs hright hholds hforgets
  obtain ⟨s', hstep, rfl, hexit'⟩ := step_gs hexit hgs hother hworker
  refine ⟨l, s', hl, hstep, hexit', hinv.step hgs hright, ?_⟩
  obtain hnone | hhalted | ⟨hsome, hless, hclean⟩ := hprogress
  · exact .inl hnone
  · exact absurd (step_going hgs h.going) (by simp [hhalted])
  · refine .inr ⟨hsome, hless, fun hforgets => ?_⟩
    obtain ⟨w, k, -, hp, -⟩ := hforgets
    exact hclean k hp

/-- **Who holds the lock gives it back.** -/
theorem holder_run (h : Shape role s) (hinv : Locked.Inv s.gs) (hexit : s.exited = false)
    (ht : s.gs.mutex = some t) (hforgets : ¬ Forgets role s t) :
    ∃ ls s', Run (Step role) s ls s' ∧ s'.gs.mutex = none ∧ ∀ l ∈ ls, l.thread = t := by
  induction hn : (s.gs.place t).left using Nat.strongRecOn generalizing s with
  | ind n ih =>
    subst hn
    obtain ⟨l, s', hl, hstep, hexit', hinv', hnone | ⟨hsome, hless, hforgets'⟩⟩ :=
      holder_step h hinv hexit ht hforgets
    · refine ⟨[.gs l], s', .cons hstep (.nil _), hnone, fun l' hl' => ?_⟩
      obtain rfl := List.mem_singleton.mp hl'
      exact hl
    · obtain ⟨ls, s'', hrun, hnone, hthread⟩ :=
        ih _ hless (h.step hstep) hinv' hexit' hsome hforgets' rfl
      refine ⟨.gs l :: ls, s'', .cons hstep hrun, hnone, fun l' hl' => ?_⟩
      obtain rfl | hmem := List.mem_cons.mp hl'
      · exact hl
      · exact hthread l' hmem

/-- **As long as the lock is not lost, every handler has done what it should.** -/
theorem right_run {ls : List (Label τ)} (hrun : Run (Step role) (Workers.init τ W) ls s)
    (hlost : ¬ Lost ls) :
    (∀ t asleep janitor, .gs (.clean t asleep janitor) ∈ ls → janitor = asleep) ∧
      Run (restrict (Locked.Step code) Locked.Right) (Locked.State.init τ Tracker.initial)
        (ls.filterMap Label.gs?) s.gs := by
  refine hrun.invariant_history (fun ls s => ¬ Lost ls →
    (∀ t asleep janitor, .gs (.clean t asleep janitor) ∈ ls → janitor = asleep) ∧
      Run (restrict (Locked.Step code) Locked.Right) (Locked.State.init τ Tracker.initial)
        (ls.filterMap Label.gs?) s.gs) ?_ ?_ hlost
  · intro ls s l s' hrun ih hstep hlost
    obtain ⟨hclean, hgs⟩ := ih fun ⟨t, ht⟩ => hlost ⟨t, List.mem_append_left _ ht⟩
    rw [List.filterMap_append]
    cases l with
    | own t =>
      rw [own_gs hstep, List.filterMap_cons_none rfl, List.filterMap_nil, List.append_nil]
      refine ⟨fun u asleep janitor hmem => ?_, hgs⟩
      exact hclean u asleep janitor (by simpa using hmem)
    | gs l =>
      rw [List.filterMap_cons_some (show Label.gs? (.gs l) = some l from rfl), List.filterMap_nil]
      obtain hright | ⟨t, rfl, -⟩ := (fate_run hrun).shape.right hstep
      · refine ⟨fun u asleep janitor hmem => ?_, hgs.snoc ⟨(step_moves hstep).2.gs_step, hright⟩⟩
        obtain hmem | hmem := List.mem_append.mp hmem
        · exact hclean u asleep janitor hmem
        · obtain rfl := Label.gs.inj (List.mem_singleton.mp hmem)
          exact hright
      · exact (hlost ⟨t, List.mem_append_right _ (List.mem_singleton_self _)⟩).elim
  · exact fun _ => ⟨fun _ _ _ h => absurd h (by simp), .nil _⟩

/-- **Without a reset every handler does what it should**: it calls the janitor
exactly when it has the lock.  The tracker behaves as its monitor, where a
cancellation is a wait that fails, and whoever holds the lock gives it back. -/
theorem janitors_right {ls : List (Label τ)} (hrun : Run (Step role) (Workers.init τ W) ls s)
    (hreset : NoReset ls) :
    (∀ t asleep janitor, .gs (.clean t asleep janitor) ∈ ls → janitor = asleep) ∧
    Run (Monitor.Step code) (State.init τ Tracker.initial)
      ((ls.filterMap Label.gs?).filterMap Locked.Seen.view) s.gs.view ∧
    (s.exited = false → ∃ ls' s', Run (Step role) s ls' s' ∧ s'.gs.mutex = none ∧
      ∀ l ∈ ls', s.gs.mutex = some l.thread) := by
  obtain ⟨htimely, hlost⟩ := timely_run hrun hreset
  obtain ⟨hclean, hgs⟩ := right_run hrun hlost
  have hfate := fate_run hrun
  refine ⟨hclean, Locked.refines_run (fun _ => rfl) hgs, fun hexit => ?_⟩
  cases hmutex : s.gs.mutex with
  | none => exact ⟨[], s, .nil s, hmutex, fun _ h => absurd h (by simp)⟩
  | some t =>
    have hkeeps : ¬ Forgets role s t := by
      intro hforgets
      obtain ⟨w, k, hrole, hp, hflag⟩ := hforgets
      have hasleep := htimely.asleep t w hrole (by rw [hp]; trivial)
      exact absurd (hasleep.symm.trans hflag) (by simp)
    obtain ⟨ls', s', hrest, hfree, hthread⟩ :=
      holder_run hfate.shape (hfate.sound hlost) hexit hmutex hkeeps
    exact ⟨ls', s', hrest, hfree, fun l hl => congrArg some (hthread l hl).symm⟩

/-- A worker is cancelled in its wait, and the state goes on. -/
theorem janitors_right_cancelled :
    ∃ (ls : List (Label Nat)) (s : Workers Nat Unit),
      Run (Step twoStarts) (Workers.init Nat Unit) ls s ∧ s.gs.shared.gs = .started ∧
      Run (Monitor.Step code) (State.init Nat Tracker.initial)
        ((ls.filterMap Label.gs?).filterMap Locked.Seen.view) s.gs.view := by
  have hrun : ∃ p, exec (nextWorkers twoStarts) (Workers.init Nat Unit)
      ([.gs (.call 0 (.waitFor openingWait)), .gs (.lock 0), .gs (.look 0), .gs (.write 0),
        .gs (.cancel 0), .gs (.lock 0), .gs (.clean 0 true)] ++
        callActions 2 (.set .started)) = some p ∧ p.2.gs.shared.gs = .started ∧
      p.1 = [.gs (.call 0 (.waitFor openingWait)), .gs (.quiet 0), .gs (.quiet 0),
        .gs (.seg 0 (.enter (.waitFor openingWait)) (.slept (.waitFor openingWait) .cond)),
        .gs (.cancel 0 true), .gs (.quiet 0), .gs (.clean 0 true true),
        .gs (.call 2 (.set .started)), .gs (.quiet 2), .gs (.quiet 2),
        .gs (.seg 2 (.enter (.set .started)) (.returned { result := .ok })),
        .gs (.unlock 2 { result := .ok })] := ⟨_, rfl, rfl, rfl⟩
  obtain ⟨⟨ls, s⟩, hexec, hstarted, rfl⟩ := hrun
  have hs := run_of_exec hexec
  refine ⟨_, s, hs, hstarted, (janitors_right hs ?_).2.1⟩
  intro t o hmem
  exact absurd hmem (by simp)

end Mccp.Gstate.Janitor
