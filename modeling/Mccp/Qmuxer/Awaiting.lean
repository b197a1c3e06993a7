/-
  Mccp.Qmuxer.Awaiting
  ────────────────────
  **WHICH EVENTS A SLEEPING POLLER CAN MISS.**

  A poll looks at its queues one by one and only then goes to sleep, without a
  lock that would keep the queues as they were found.  What is put into a queue
  between the visit and the sleep is not waited for.  But what comes later is:
  as long as no other pass takes the registration of a queue away, a poller that
  is still asleep has missed nothing in it since it fell asleep, but the room
  that a clear makes.

      Lacks          — the queue still lacks what the poller waits for
      op_keeps       — what an operation does to a queue under a sleeper
      sleeper_awaits — what a sleeper has missed, in every reachable state
-/
import Mccp.Qmuxer.Sleepers

namespace Mccp.Qmuxer

open Cbuffer Monitor Transition

variable {τ Q : Type}

/-! ## §1. Steps under a sleeper. -/

/-- A queue in use that lacks what is waited for. -/
structure Lacks (need : PollEvent) (v : View) : Prop where
  operational : v.operational = true
  readable : need = .readable → v.held = 0
  writable : need = .writable → v.max ≤ v.held

theorem lastMeeting_eq_none [DecidableEq Q] {q : Q} {ls : List (Label τ Q)} :
    lastMeeting q ls = none ↔ ∀ l ∈ ls, meeting q l = none := by
  induction ls using List.reverseRecOn with
  | nil => simp [lastMeeting]
  | append_singleton ls l ih =>
    rw [lastMeeting_snoc, Option.or_eq_none_iff, ih]
    simp only [List.mem_append, List.mem_singleton]
    constructor
    · rintro ⟨hl, hls⟩ x (hx | rfl)
      · exact hls x hx
      · exact hl
    · exact fun h => ⟨h l (.inr rfl), fun x hx => h x (.inl hx)⟩

variable [DecidableEq τ] [DecidableEq Q]

/-- Only its own step sends a poller to sleep. -/
theorem step_sleeps {s s' : System τ Q} {l : Label τ Q} (h : Step s l s') {t : τ} {c : PollCall Q}
    (hnot : s.place t ≠ .sleeping c) (hsleep : s'.place t = .sleeping c) :
    l = .sleep t ∧ s.place t = .locking c ∧ s'.queue = s.queue := by
  -- a step that moves one thread, to a place where it does not sleep
  have hmove : ∀ (u : τ) (place : Place Q), s' = s.move u place → (∀ c', place ≠ .sleeping c') →
      l = .sleep t ∧ s.place t = .locking c ∧ s'.queue = s.queue := by
    intro u place hs' hplace
    rw [hs'] at hsleep
    by_cases hu : t = u
    · subst hu
      exact absurd ((Function.update_self ..).symm.trans hsleep) (hplace c)
    · exact absurd ((Function.update_of_ne hu ..).symm.trans hsleep) hnot
  cases step_moves h with
  | refused u args => exact absurd hsleep hnot
  | called args c' hat => exact hmove _ _ rfl (by simp)
  | @passed u c' p hat htodo =>
    refine hmove _ _ rfl fun d => ?_
    unfold afterPass
    split
    · split <;> simp
    · simp
  | nullPoll hat c' => exact hmove _ _ rfl (by simp)
  | skipped hat x' htodo hx hpre hseen htodo' hnev => exact hmove _ _ rfl (by simp)
  | @slept u c' hat =>
    by_cases hu : t = u
    · subst hu
      have hplace : (s.move t (.sleeping c')).place t = .sleeping c' := Function.update_self ..
      obtain rfl : c' = c := by
        rw [hsleep] at hplace
        injection hplace with hc
        exact hc.symm
      exact ⟨rfl, hat, rfl⟩
    · exact absurd ((Function.update_of_ne hu ..).symm.trans hsleep) hnot
  | @awoke u c' w hat =>
    refine hmove _ _ rfl fun d => ?_
    cases w <;> simp
  | returned hat => exact hmove _ _ rfl (by simp)
  | wake w hat => exact hmove _ _ rfl (by simp)
  | @visited u c' p hat mp todo htodo q hq place hplace =>
    by_cases hu : t = u
    · subst hu
      have hself : Function.update s.place t place t = .sleeping c := hsleep
      rw [Function.update_self] at hself
      rw [hself] at hplace
      simp only [] at hplace
      split at hplace <;> exact absurd hplace (by simp)
    · exact absurd ((Function.update_of_ne hu ..).symm.trans hsleep) hnot
  | op q i hi =>
    -- a notification only wakes
    replace hsleep : notify (notifiedBySeg (code.seg (s.queue q) i)) s.place t = .sleeping c :=
      hsleep
    unfold notify at hsleep
    cases hp : s.place t <;> rw [hp] at hsleep hnot <;> simp only [] at hsleep
    case sleeping c' =>
      split at hsleep
      · exact absurd hsleep (by simp)
      · exact absurd hsleep hnot
    all_goals exact absurd hsleep hnot

/-- A queue changes by an operation on it, or by a pass that meets it. -/
theorem step_queue {s s' : System τ Q} {l : Label τ Q} (h : Step s l s') {q : Q}
    (hm : meeting q l = none) (hop : ∀ i o, l ≠ .op q i o) : s'.queue q = s.queue q := by
  cases step_moves h with
  | refused t args => rfl
  | called args c hat => rfl
  | passed hat htodo => rfl
  | nullPoll hat c' => rfl
  | skipped hat x' htodo hx hpre hseen htodo' hnev => rfl
  | slept hat => rfl
  | awoke hat => rfl
  | returned hat => rfl
  | wake w hat => rfl
  | @visited t c p hat mp todo htodo q' hq place hplace =>
    show Function.update s.queue q' _ q = s.queue q
    by_cases hqq : q = q'
    · subst hqq
      have hdown : (s.queue q).isOperational = false := by
        simpa [meeting] using hm
      rw [Function.update_self, visit_down hdown]
    · exact Function.update_of_ne hqq ..
  | op q' i hi =>
    have hqq : q ≠ q' := by
      rintro rfl
      exact hop i _ rfl
    exact Function.update_of_ne hqq ..

/-- **What an operation can do to a queue while a poller sleeps on**, that is
registered with it: a put would wake one that waits for a value, a get one that
waits for room, and a shutdown any. -/
theorem op_keeps {s s' : System τ Q} {t : τ} {c : PollCall Q} {q : Q} {i : Input Call Cont}
    {o : Outcome Cont Ret Cond Stop} (h : Step s (.op q i o) s') (hsleep : s.place t = .sleeping c)
    (hstill : s'.place t = .sleeping c) {need : PollEvent} (hreg : Registered s q c.qmx need)
    (hlacks : Lacks need (s.queue q).view)
    (hclear : need = .writable → ∀ f, i ≠ .enter (.clear f)) : Lacks need (s'.queue q).view := by
  cases step_moves h with
  | op _ _ hsetup =>
    have hqmx : (s.queue q).view.qmuxer = some c.qmx := hreg.1
    have htype : (s.queue q).view.type = need := hreg.2
    have hnot : c.qmx ∉ notifiedBySeg (code.seg (s.queue q) i) := by
      intro hmem
      replace hstill : notify (notifiedBySeg (code.seg (s.queue q) i)) s.place t = .sleeping c :=
        hstill
      unfold notify at hstill
      rw [hsleep] at hstill
      simp only [if_pos hmem] at hstill
      exact absurd hstill (by simp)
    show Lacks need
      (Function.update s.queue q ((code.seg (s.queue q) i).stateOr (s.queue q)) q).view
    rw [Function.update_self]
    have heff := seg_effect (s.queue q) i
    generalize code.seg (s.queue q) i = sg at heff hnot ⊢
    cases heff with
    | halt => exact hlacks
    | quiet cb r hv =>
      show Lacks need cb.view
      rwa [hv]
    | sleepPut cb k _ _ hv =>
      show Lacks need cb.view
      rwa [hv]
    | sleepGet cb k _ _ hv =>
      show Lacks need cb.view
      rwa [hv]
    | clear cb r f hv _ hc =>
      show Lacks need cb.view
      rw [hv]
      exact ⟨hlacks.operational, fun _ => rfl, fun hw => absurd hc (hclear hw f)⟩
    | setup cb r _ _ _ _ hc =>
      obtain ⟨x, y, z, rfl⟩ := hc
      exact absurd hsetup (by simp [isSetup])
    | shutdown cb r hv hr =>
      replace hnot : c.qmx ∉ r.notified := hnot
      rw [hr, hqmx] at hnot
      exact absurd (by simp) hnot
    | put cb r hopen hroom hv hr =>
      replace hnot : c.qmx ∉ r.notified := hnot
      rw [hr, View.mem_notifyIf hqmx, htype] at hnot
      show Lacks need cb.view
      rw [hv]
      refine ⟨hlacks.operational, fun hread => ?_, fun hw => ?_⟩
      · exact absurd (by rw [hread]; decide) hnot
      · exact absurd (hlacks.writable hw) (Int.not_le.mpr hroom)
    | get cb r hopen hsome hv hr =>
      replace hnot : c.qmx ∉ r.notified := hnot
      rw [hr, View.mem_notifyIf hqmx, htype] at hnot
      show Lacks need cb.view
      rw [hv]
      refine ⟨hlacks.operational, fun hread => ?_, fun hw => ?_⟩
      · exact absurd (hlacks.readable hread) (by omega)
      · exact absurd (by rw [hw]; decide) hnot

/-! ## §2. While the poller sleeps. -/

/-- **As long as no pass meets the queue**, its registration stands, and it lacks
what it lacked when the poller fell asleep. -/
theorem sleep_keeps {s s' : System τ Q} {ls : List (Label τ Q)} {t : τ} {c : PollCall Q} {q : Q}
    {need : PollEvent} (hrun : Run (restrict Step fun _ _ w => w.place t = .sleeping c) s ls s')
    (hsleep : s.place t = .sleeping c) (hm : ∀ l ∈ ls, meeting q l = none)
    (hclear : need = .writable → ∀ f o, Label.op q (.enter (.clear f)) o ∉ ls)
    (hreg : Registered s q c.qmx need) (hlacks : Lacks need (s.queue q).view) :
    Lacks need (s'.queue q).view := by
  induction hrun with
  | nil => exact hlacks
  | @cons s v u l ls hs _ ih =>
    have hframe := step_frame hs.1 (hm l List.mem_cons_self)
    refine ih hs.2 (fun x hx => hm x (List.mem_cons_of_mem l hx))
      (fun hw f o hmem => hclear hw f o (List.mem_cons_of_mem l hmem))
      ⟨hframe.1.trans hreg.1, hframe.2.trans hreg.2⟩ ?_
    by_cases hop : ∃ i o, l = .op q i o
    · obtain ⟨i, o, rfl⟩ := hop
      refine op_keeps hs.1 hsleep hs.2 hreg hlacks fun hw f hi => ?_
      exact hclear hw f o (by rw [hi]; exact List.mem_cons_self)
    · have hsame := step_queue hs.1 (hm l List.mem_cons_self) fun i o hl => hop ⟨i, o, hl⟩
      rwa [hsame]

/-- **What a sleeping poller can have missed**, in every reachable state.  There is
a moment at which it fell asleep, after it had visited every queue of its array.
A queue that no pass has met since that visit still lacks what it lacked when
the poller fell asleep, unless the poller waits for room and the queue was
cleared while it slept. -/
theorem sleeper_awaits {s₀ s : System τ Q} {ls : List (Label τ Q)} (h0 : s₀.Fresh)
    (hrun : Run Step s₀ ls s) {t : τ} {c : PollCall Q} (hsleep : s.place t = .sleeping c) :
    ∃ ls₁ ls₂ s₁, ls = ls₁ ++ .sleep t :: ls₂ ∧ Run Step s₀ ls₁ s₁ ∧ s₁.place t = .locking c ∧
      ∀ q ∈ c.queues, ∃ need after, Own ls₁ t c.qmx q need after ∧
        (lastMeeting q (after ++ ls₂) = none → Lacks need (s₁.queue q).view →
          (need = .writable → ∀ f o, Label.op q (.enter (.clear f)) o ∉ ls₂) →
          Lacks need (s.queue q).view) := by
  have hidle : s₀.place t ≠ .sleeping c := by simp [h0.idle t]
  obtain ⟨ls₁, l, ls₂, s₁, s₂, rfl, hrun₁, hnot, hstep, hs₂, hrest⟩ :=
    hrun.since (P := fun w => w.place t = .sleeping c) hidle hsleep
  obtain ⟨rfl, hlocking, hqueue⟩ := step_sleeps hstep hnot hs₂
  have hcarried : Carried ls₁ s₁ := by
    refine Run.invariant_history Carried (fun ls s l s' _ h hstep => h.step hstep) ?_ hrun₁
    intro u
    rw [h0.idle u]
    trivial
  have hcov : Covered ls₁ s₁ t c.qmx c.polls := by
    have hok := hcarried t
    rwa [hlocking] at hok
  refine ⟨ls₁, ls₂, s₁, rfl, hrun₁, hlocking, fun q hq => ?_⟩
  obtain ⟨x, hx, hbbq⟩ := List.mem_filterMap.mp hq
  obtain ⟨need, after, hown, hreg⟩ := hcov x hx q hbbq
  refine ⟨need, after, hown, fun hmeet hlacks hclear => ?_⟩
  rw [lastMeeting_append, Option.or_eq_none_iff] at hmeet
  refine sleep_keeps hrest hs₂ (lastMeeting_eq_none.mp hmeet.1) hclear ?_ ?_
  · unfold Registered
    rw [hqueue]
    exact hreg hmeet.2
  · rwa [hqueue]

/-- A poller of an empty buffer, while another thread asks for a value as well. -/
theorem sleeper_awaits_get : ∃ (s : System Bool Unit) (ls : List (Label Bool Unit))
    (c : PollCall Unit), Run Step oneQueue ls s ∧ s.place true = .sleeping c ∧ c.queues = [()] ∧
    ∃ ls₁ ls₂ s₁, ls = ls₁ ++ .sleep true :: ls₂ ∧ Run Step oneQueue ls₁ s₁ ∧
      s₁.place true = .locking c ∧
      ∀ q ∈ c.queues, ∃ need after, Own ls₁ true c.qmx q need after ∧
        (lastMeeting q (after ++ ls₂) = none → Lacks need (s₁.queue q).view →
          (need = .writable → ∀ f o, Label.op q (.enter (.clear f)) o ∉ ls₂) →
          Lacks need (s.queue q).view) := by
  have hrun : ∃ p c, exec next oneQueue
        [.call true ⟨some 7, some [forValue], -1⟩, .go true, .go true, .go true,
          .op () (.enter (.get (some 1) (-1)))] = some p ∧
      p.2.place true = .sleeping c ∧ c.queues = [()] := ⟨_, _, rfl, rfl, rfl⟩
  obtain ⟨⟨ls, s⟩, c, hexec, hsleep, hqueues⟩ := hrun
  have hfresh : oneQueue.Fresh := ⟨fun _ => rfl, fun _ => rfl⟩
  have hs := run_of_exec hexec
  exact ⟨s, ls, c, hs, hsleep, hqueues, sleeper_awaits hfresh hs hsleep⟩

end Mccp.Qmuxer
