/-
  Mccp.Gstate.Handshake
  ─────────────────────
  **THE SHUTDOWN HANDSHAKE: ONE REQUEST, ONE GRACE LEVEL.**

  Somebody requests the shutdown and sleeps, the main thread waits for the
  request, reads its grace level and sets ACCEPT_SHUTDOWN, and the requester
  returns.  Any number of threads may request, wait and set at once; the first
  request that finds the state before REQUEST_SHUTDOWN records its level, and
  s_gs and s_gl agree from then on.

      Orderly      — nobody resets, and only a recorded request opens the
                     states from REQUEST_SHUTDOWN on
      Agrees       — s_gs and s_gl against the levels recorded so far
      seg_agrees   — every segment keeps it
      shutdown_handshake — what requesters and waiters can rely on
-/
import Mccp.Gstate.Tracker
import Mathlib.Data.List.Basic

namespace Mccp.Gstate

open Monitor Transition

/-! ## §1. Orderly runs. -/

/-- The grace levels recorded, in order. -/
def recordedLevels {τ : Type} (ls : List (Obs τ)) : List GraceLevel := ls.filterMap recorded

/-- No reset; REQUEST_SHUTDOWN is left to the requests, and later states are
set only after one has been recorded. -/
structure Orderly {τ : Type} (ls : List (Obs τ)) : Prop where
  noReset : NoReset ls
  noSet : ∀ t o, .seg t (.enter (.set .requestShutdown)) o ∉ ls
  later : ∀ ms t s o, ms ++ [.seg t (.enter (.set s)) o] <+: ls →
    GlobalState.requestShutdown.num < s.num → recordedLevels ms ≠ []

variable {τ : Type} {g : Tracker} {i : Input Call Cont}

/-- What came first in an orderly run was orderly. -/
theorem Orderly.left {ls ms : List (Obs τ)} (h : Orderly (ls ++ ms)) : Orderly ls where
  noReset t o hmem := h.noReset t o (List.mem_append_left _ hmem)
  noSet t o hmem := h.noSet t o (List.mem_append_left _ hmem)
  later us t s o hpre := h.later us t s o (hpre.trans (List.prefix_append _ _))

/-- The inputs that an orderly run allows where `rs` has been recorded. -/
def Allowed (rs : List GraceLevel) (i : Input Call Cont) : Prop :=
  i ≠ .enter .reset ∧
  ∀ s, i = .enter (.set s) →
    s ≠ .requestShutdown ∧ (GlobalState.requestShutdown.num < s.num → rs ≠ [])

/-- The last step of an orderly run is allowed. -/
theorem Orderly.allowed {ls : List (Obs τ)} {t : τ} {o : Outcome Cont Ret Cond Empty}
    (h : Orderly (ls ++ [.seg t i o])) : Allowed (recordedLevels ls) i := by
  have hmem : (.seg t i o : Obs τ) ∈ ls ++ [.seg t i o] := by simp
  constructor
  · intro heq
    subst heq
    exact h.noReset t o hmem
  · intro s heq
    subst heq
    constructor
    · intro heq
      subst heq
      exact h.noSet t o hmem
    · exact h.later ls t s o (List.prefix_refl _)

/-! ## §2. The agreement of s_gs and s_gl. -/

/-- The tracker agrees with the levels recorded so far: before the first
request the state is an earlier one, and after it the level is that of the
only request recorded. -/
def Agrees (g : Tracker) : List GraceLevel → Prop
  | [] => g.gs.num < GlobalState.requestShutdown.num
  | [l] => l.isValid = true ∧ g.gl = l ∧ GlobalState.requestShutdown.num ≤ g.gs.num
  | _ => False

/-- From REQUEST_SHUTDOWN on there is one recorded level, valid and stored. -/
theorem Agrees.level {rs : List GraceLevel} (h : Agrees g rs)
    (hge : GlobalState.requestShutdown.num ≤ g.gs.num) :
    rs = [g.gl] ∧ g.gl.isValid = true := by
  match rs, h with
  | [], h => exact absurd hge (Nat.not_le.mpr h)
  | [l], ⟨hv, hl, _⟩ =>
    subst hl
    exact ⟨rfl, hv⟩

theorem Agrees.length_le {rs : List GraceLevel} (h : Agrees g rs) : rs.length ≤ 1 := by
  match rs, h with
  | [], _ => exact Nat.zero_le 1
  | [_], _ => exact Nat.le_refl 1

/-- Before REQUEST_SHUTDOWN nothing is recorded. -/
theorem Agrees.nothing {rs : List GraceLevel} (h : Agrees g rs)
    (hlt : g.gs.num < GlobalState.requestShutdown.num) : rs = [] := by
  match rs, h with
  | [], _ => rfl
  | [_], ⟨_, _, hge⟩ => exact absurd hge (Nat.not_le.mpr hlt)

/-- **Every segment keeps the agreement**, with the level it records. -/
theorem seg_agrees {rs : List GraceLevel} (h : Agrees g rs) (hi : Allowed rs i) (t : τ) :
    Agrees ((code.seg g i).stateOr g)
      (rs ++ (recorded (.seg t i (code.seg g i).outcome : Obs τ)).toList) := by
  obtain ⟨hreset, hset⟩ := hi
  obtain ⟨hsame, hrec, -⟩ | ⟨s, rfl, hle, hs, hout⟩ | ⟨l, rfl, hv, hlt, hreq, hout⟩ :=
    seg_cases (g := g) hreset t
  · rw [hsame, hrec]
    simpa using h
  · obtain ⟨hne, hlater⟩ := hset s rfl
    rw [hs, hout]
    show Agrees { g with gs := s } (rs ++ [])
    rw [List.append_nil]
    match rs, h with
    | [], _ =>
      -- nothing recorded: neither REQUEST_SHUTDOWN nor a later state
      have hnot : ¬ GlobalState.requestShutdown.num < s.num := fun hgt => hlater hgt rfl
      show s.num < GlobalState.requestShutdown.num
      revert hne hnot
      cases s <;> decide
    | [l], ⟨hv, hl, hge⟩ => exact ⟨hv, hl, Nat.le_trans hge hle⟩
  · rw [hreq, hout, h.nothing hlt]
    exact ⟨hv, rfl, Nat.le_refl _⟩

variable [DecidableEq τ]

/-- **In every state an orderly run reaches, s_gs and s_gl agree with what was
recorded.** -/
theorem reachable_agrees {ls : List (Obs τ)} {s : State τ Tracker Cont Cond}
    (hrun : Run (Step code) (State.init τ Tracker.initial) ls s) (hls : Orderly ls) :
    Agrees s.shared (recordedLevels ls) := by
  refine Run.invariant_history (fun ls s => Orderly ls → Agrees s.shared (recordedLevels ls))
    ?_ ?_ hrun hls
  · intro ls s l s' _ ih hstep hls
    have hih := ih hls.left
    have hsnoc : recordedLevels (ls ++ [l]) = recordedLevels ls ++ (recorded l).toList := by
      rw [recordedLevels, List.filterMap_append, recordedLevels, List.filterMap_cons]
      cases recorded l <;> rfl
    rw [hsnoc]
    obtain ⟨-, ⟨t, i, -, rfl, rfl⟩ | ⟨t, w, k, c, -, -, rfl, rfl⟩⟩ := step_cases hstep
    · rw [State.after_shared]
      exact seg_agrees hih hls.allowed t
    · show Agrees s.shared (recordedLevels ls ++ [])
      rw [List.append_nil]
      exact hih
  · intro _
    show GlobalState.unknown.num < GlobalState.requestShutdown.num
    decide

/-! ## §3. What requesters and waiters see. -/

/-- The inputs of a shutdown request. -/
def RequestInput (i : Input Call Cont) : Prop :=
  (∃ l, i = .enter (.requestShutdown l)) ∨ ∃ w, i = .resume .requestShutdown w

/-- What mccp_global_state_wait_for_shutdown_request() waits for. -/
def requestWait (curG : Bool) (nsec : Int) : WaitFor where
  waitFor := .requestShutdown
  curS := false
  curG := curG
  nsec := nsec

/-- The inputs of a wait for the shutdown request. -/
def WaitInput (curG : Bool) (nsec : Int) (i : Input Call Cont) : Prop :=
  i = .enter (.waitForShutdownRequest curG nsec) ∨
  ∃ w, i = .resume (.waitFor (requestWait curG nsec)) w

omit [DecidableEq τ] in
/-- A request that returns OK has seen the shutdown accepted. -/
theorem request_ok {r : Ret} (hi : RequestInput i) (ho : (code.seg g i).outcome = .returned r)
    (hr : r.result = .ok) : ((code.seg g i).stateOr g).gs.isShutdown = true := by
  have hrecheck : ∀ (g : Tracker) (ret : Result) (ns : List Cond),
      (requestRecheck g ret ns).outcome = .returned r → g.gs.isShutdown = true := by
    intro g ret ns h
    by_cases hopen : g.gs.isShutdown = false
    · rw [requestRecheck, if_pos hopen] at h
      exact absurd h (by simp [Seg.outcome])
    · simpa using hopen
  have hfail : ∀ {ret : Result}, ret ≠ .ok →
      (Outcome.returned { result := ret } : Outcome Cont Ret Cond Empty) ≠ .returned r := by
    intro ret hne h
    injection h with h
    subst h
    exact hne hr
  rcases hi with ⟨l, rfl⟩ | ⟨w, rfl⟩
  · -- the first segment sleeps, or is refused
    change (requestShutdown g l).outcome = .returned r at ho
    unfold requestShutdown at ho
    split at ho
    · split at ho
      · split at ho
        · exact absurd (hrecheck _ _ _ ho) Bool.false_ne_true
        · exact absurd ho (hfail (by decide))
      · exact absurd ho (hfail (by decide))
    · exact absurd ho (hfail (by decide))
  · cases w with
    | signaled =>
      have hseg : (requestRecheck g .ok []).stateOr g = g := by
        unfold requestRecheck
        split <;> rfl
      show ((requestRecheck g .ok []).stateOr g).gs.isShutdown = true
      rw [hseg]
      exact hrecheck g .ok [] ho
    | timedout => exact absurd ho (hfail (by decide))
    | failed => exact absurd ho (hfail (by decide))

omit [DecidableEq τ] in
/-- A wait for the request that returns OK reports the level stored. -/
theorem wait_ok {curG : Bool} {nsec : Int} {r : Ret} (hi : WaitInput curG nsec i)
    (ho : (code.seg g i).outcome = .returned r) (hr : r.result = .ok) :
    GlobalState.requestShutdown.num ≤ g.gs.num ∧ r.curG = if curG then some g.gl else none := by
  have hrecheck : (waitForRecheck g (requestWait curG nsec)).outcome = .returned r →
      GlobalState.requestShutdown.num ≤ g.gs.num ∧
        r.curG = if curG then some g.gl else none := by
    intro h
    unfold waitForRecheck at h
    split at h
    next => exact absurd h (by simp [Seg.outcome])
    next hle =>
      injection h with h
      subst h
      refine ⟨?_, rfl⟩
      -- beyond ACCEPT_SHUTDOWN, or at least at the state waited for
      by_contra hlt
      refine hle ⟨Nat.not_le.mp hlt, GlobalState.isShutdown_eq_false.mpr ?_⟩
      have : GlobalState.requestShutdown.num < GlobalState.acceptShutdown.num := by decide
      omega
  rcases hi with rfl | ⟨w, rfl⟩
  · exact hrecheck ho
  · cases w with
    | signaled => exact hrecheck ho
    | timedout =>
      injection ho with h
      subst h
      exact absurd hr (by decide)
    | failed =>
      injection ho with h
      subst h
      exact absurd hr (by decide)

/-- **The shutdown handshake.**  In an orderly run the state never decreases,
one request at most is recorded, a request returns OK only where the shutdown
is accepted, and every wait for the request that returns OK reports the valid
level of the one request recorded, which came before. -/
theorem shutdown_handshake {ls : List (Obs τ)} {s : State τ Tracker Cont Cond}
    (hrun : Run (Step code) (State.init τ Tracker.initial) ls s) (hls : Orderly ls) :
    (recordedLevels ls).length ≤ 1 ∧
    ∀ ms l ns u v, ls = ms ++ l :: ns → Run (Step code) (State.init τ Tracker.initial) ms u →
      Step code u l v → Run (Step code) v ns s →
      u.shared.gs.num ≤ v.shared.gs.num ∧
      (∀ t i r, l = .seg t i (.returned r) → RequestInput i → r.result = .ok →
        v.shared.gs.isShutdown = true) ∧
      (∀ t i r curG nsec, l = .seg t i (.returned r) → WaitInput curG nsec i → r.result = .ok →
        ∃ level, level.isValid = true ∧ recordedLevels ms = [level] ∧
          recordedLevels ls = [level] ∧ r.curG = if curG then some level else none) := by
  have hlen := (reachable_agrees hrun hls).length_le
  refine ⟨hlen, ?_⟩
  intro ms l ns u v heq hu hstep _
  subst heq
  have hms : Orderly (ms ++ [l]) := by
    have : Orderly ((ms ++ [l]) ++ ns) := by simpa using hls
    exact this.left
  have hagree := reachable_agrees hu hms.left
  obtain ⟨-, ⟨t, i, -, rfl, rfl⟩ | ⟨t, w, k, c, -, -, rfl, rfl⟩⟩ := step_cases hstep
  · rw [State.after_shared]
    refine ⟨seg_forward hms.allowed.1, ?_, ?_⟩
    · intro t' i' r hl hi hr
      injection hl with _ hi' ho
      subst hi'
      exact request_ok hi ho hr
    · intro t' i' r curG nsec hl hi hr
      injection hl with _ hi' ho
      subst hi'
      obtain ⟨hge, hcur⟩ := wait_ok hi ho hr
      obtain ⟨hrec, hv⟩ := hagree.level hge
      refine ⟨u.shared.gl, hv, hrec, ?_, hcur⟩
      -- nothing else is recorded after it
      rw [recordedLevels, List.filterMap_append, ← recordedLevels, hrec] at hlen ⊢
      rw [List.length_append, List.length_singleton] at hlen
      have hrest := List.eq_nil_of_length_eq_zero (Nat.le_zero.mp (Nat.le_of_add_le_add_left hlen))
      rw [hrest, List.append_nil]
  · -- a wait that ends leaves the tracker alone
    refine ⟨Nat.le_refl _, ?_, ?_⟩
    · intro t' i' r hl
      exact absurd hl (by simp)
    · intro t' i' r curG nsec hl
      exact absurd hl (by simp)

/-- Two requests, of which the first is recorded; the waiter reads its level
and accepts, and the requester returns OK. -/
theorem shutdown_handshake_accepted :
    ∃ (ls : List (Obs Nat)) (s : State Nat Tracker Cont Cond),
      Run (Step code) (State.init Nat Tracker.initial) ls s ∧ Orderly ls ∧
      recordedLevels ls = [.gracefully] ∧
      ls.getLast? =
        some (.seg 1 (.resume .requestShutdown .signaled) (.returned { result := .ok })) ∧
      s.shared.gs.isShutdown = true := by
  have hrun : ∃ p, exec (next code) (State.init Nat Tracker.initial)
      [.call 1 (.requestShutdown .gracefully), .call 2 (.requestShutdown .rightNow),
        .call 0 (.waitForShutdownRequest true (-1)), .call 0 (.set .acceptShutdown),
        .resume 1] = some p ∧
      p.1 = [.seg 1 (.enter (.requestShutdown .gracefully)) (.slept .requestShutdown .cond),
        .seg 2 (.enter (.requestShutdown .rightNow)) (.returned { result := .anyFailures }),
        .seg 0 (.enter (.waitForShutdownRequest true (-1)))
          (.returned { result := .ok, curG := some .gracefully }),
        .seg 0 (.enter (.set .acceptShutdown)) (.returned { result := .ok })] ++
        [.seg 1 (.resume .requestShutdown .signaled) (.returned { result := .ok })] :=
    ⟨_, rfl, rfl⟩
  obtain ⟨⟨ls, s⟩, hexec, hshape⟩ := hrun
  change ls = _ at hshape
  have hs := run_of_exec hexec
  have hls : Orderly ls := by
    refine ⟨?_, ?_, ?_⟩
    · intro t o hmem
      rw [hshape] at hmem
      exact absurd hmem (by simp [Call.waitForShutdownRequest])
    · intro t o hmem
      rw [hshape] at hmem
      exact absurd hmem (by simp [Call.waitForShutdownRequest])
    · -- the request is the first step of all
      intro ms t s o ⟨rest, hrest⟩ _
      rw [hshape] at hrest
      cases ms with
      | nil => exact absurd hrest (by simp)
      | cons l ms =>
        injection hrest with hl _
        subst hl
        exact List.cons_ne_nil _ _
  subst hshape
  obtain ⟨u, hu, hstep⟩ := hs.last
  obtain ⟨-, hsteps⟩ := shutdown_handshake hs hls
  obtain ⟨-, hrequest, -⟩ := hsteps _ _ [] u s rfl hu hstep (.nil s)
  exact ⟨_, s, hs, hls, rfl, rfl, hrequest 1 _ _ rfl (.inr ⟨_, rfl⟩) rfl⟩

end Mccp.Gstate
