/-
  Mccp.Modules.WaitAll
  ────────────────────
  **WAITING FOR ALL MODULES: WHOSE TIME IS COUNTED.**

  mccp_module_wait_all() goes over the modules backward and gives each wait
  what is left of `nsec`.  What it takes off is the time of the one wait just
  made, so the waits before that one are forgotten, and from the third module
  on the sum can pass the deadline.

      rounds               — the value that each round of a loop gets
      waits                — the waits of mccp_module_wait_all(), in order
      waitAll_rounds       — they are the ones the call makes
      wait_all_budget_iff  — when they keep to the budget
-/
import Mathlib.Algebra.Order.Group.Int
import Mccp.Lib.Budget
import Mccp.Modules.Lifecycle

namespace Mccp.Modules

open Budget

/-! ## §1. The rounds of a loop. -/

section Rounds

variable {σ : Type}

/-- What each round of `carryOn` gets. -/
def rounds (w' : σ → Nat → σ) : List Nat → σ → List (σ × Nat)
  | [], _ => []
  | i :: is, w => (w, i) :: rounds w' is (w' w i)

/-- `carryOn`, over its rounds. -/
def overRounds (f : σ → Nat → AModule → Done) : List (σ × Nat) → Result → List AModule →
    Result × List Event × List AModule
  | [], first_err, ms => (first_err, [], ms)
  | (w, i) :: rs, first_err, ms =>
      let (ret, es, ms) := round (f w) i ms
      let first_err := if ret ≠ .ok ∧ first_err = .ok then ret else first_err
      let (ret, es', ms) := overRounds f rs first_err ms
      (ret, es ++ es', ms)

theorem carryOn_rounds {f : σ → Nat → AModule → Done} {w' : σ → Nat → σ} (is : List Nat) :
    ∀ (w : σ) (first_err : Result) (ms : List AModule),
      carryOn f w' is w first_err ms = overRounds f (rounds w' is w) first_err ms := by
  induction is with
  | nil =>
    intro w first_err ms
    rfl
  | cons i is ih =>
    intro w first_err ms
    simp only [carryOn, rounds, overRounds, ih]

end Rounds

/-! ## §2. The waits. -/

/-- The `w` for the next module, after the wait for module `i`. -/
def nextWait (nsec : Int) (env : Env) (i : Nat) : Int :=
  let w := nsec - (env.w_end i - env.w_begin i)
  if w < 0 then 0 else w

/-- The timeout for each module, in the order of the waits. -/
def timeouts (nsec : Int) (env : Env) (ms : List AModule) : List (Int × Nat) :=
  rounds (fun _ i => nextWait nsec env i) (backward ms) nsec

/-- The time that the wait for a module takes, on the clock. -/
def Env.elapsed (env : Env) (i : Nat) : Int := env.w_end i - env.w_begin i

/-- The waits for the modules `is`, the first one with timeout `w`: what
s_wait_module() is given, and the time that goes by. -/
def waitsFrom (nsec : Int) (env : Env) (is : List Nat) (w : Int) : List (Wait Int) :=
  (rounds (fun _ i => nextWait nsec env i) is w).map fun (w, i) =>
    { allowed := w, taken := env.elapsed i }

/-- **The waits of mccp_module_wait_all()**, in order. -/
def waits (nsec : Int) (env : Env) (ms : List AModule) : List (Wait Int) :=
  waitsFrom nsec env (backward ms) nsec

variable {nsec : Int} {env : Env} {ms : List AModule}

/-- The call with a deadline waits with these timeouts. -/
theorem waitAll_rounds (hnsec : 0 ≤ nsec) :
    waitAll nsec env ms =
      overRounds (fun w => waitModule w env) (timeouts nsec env ms) .ok ms := by
  unfold waitAll timeouts
  rw [if_neg (by omega), carryOn_rounds]
  rfl

/-! ## §3. The budget. -/

theorem waitsFrom_cons (i : Nat) (is : List Nat) (w : Int) :
    waitsFrom nsec env (i :: is) w =
      { allowed := w, taken := env.elapsed i } ::
        waitsFrom nsec env is (nextWait nsec env i) := rfl

/-- As long as no wait takes longer than it may, what is left is never negative
and the timeout is what the last wait has left. -/
theorem nextWait_eq {i : Nat} (h : env.elapsed i ≤ nsec) :
    nextWait nsec env i = nsec - env.elapsed i := by
  unfold nextWait
  unfold Env.elapsed at h ⊢
  dsimp only
  rw [if_neg (by omega)]

theorem waitsFrom_fromLast (is : List Nat) : ∀ (w : Int), w ≤ nsec →
    Fair (waitsFrom nsec env is w) → FromLast nsec (waitsFrom nsec env is w) := by
  induction is with
  | nil =>
    intro w _ _
    trivial
  | cons i is ih =>
    intro w hw hfair
    rw [waitsFrom_cons] at hfair ⊢
    obtain ⟨h0, htaken⟩ := hfair _ List.mem_cons_self
    have hnext := nextWait_eq (le_trans htaken hw)
    have hrest := ih (nextWait nsec env i) (by rw [hnext]; exact sub_le_self nsec h0)
      fun v hv => hfair v (List.mem_cons_of_mem _ hv)
    cases is with
    | nil => trivial
    | cons j is =>
      rw [waitsFrom_cons] at hrest ⊢
      exact ⟨hnext, hrest⟩

theorem waitsFrom_head (is : List Nat) (w : Int) :
    ∀ v ∈ (waitsFrom nsec env is w).head?, v.allowed ≤ w := by
  intro v hv
  cases is with
  | nil => exact absurd hv (by simp [waitsFrom, rounds])
  | cons i is =>
    rw [waitsFrom_cons] at hv
    injection hv with hv
    rw [← hv]

theorem waitsFrom_length (is : List Nat) : ∀ (w : Int),
    (waitsFrom nsec env is w).length = is.length := by
  induction is with
  | nil =>
    intro w
    rfl
  | cons i is ih =>
    intro w
    rw [waitsFrom_cons, List.length_cons, List.length_cons, ih]

/-- Going backward, module `i` has `i` modules behind it. -/
theorem waitsFrom_idleBut {k : Nat} (n : Nat) : ∀ (w : Int),
    IdleBut k (waitsFrom nsec env (List.range n).reverse w) ↔
      ∀ i, k ≤ i → i < n → env.elapsed i = 0 := by
  induction n with
  | zero =>
    intro w
    exact iff_of_true trivial fun i _ hi => absurd hi (by omega)
  | succ n ih =>
    intro w
    rw [List.range_succ, List.reverse_append, List.reverse_singleton, List.singleton_append,
      waitsFrom_cons]
    unfold IdleBut
    rw [waitsFrom_length, List.length_reverse, List.length_range, ih]
    constructor
    · intro h i hk hi
      by_cases hin : i = n
      · rw [hin]
        exact h.1 (by omega)
      · exact h.2 i hk (by omega)
    · intro h
      exact ⟨fun hk => h n hk (by omega), fun i hk hi => h i hk (by omega)⟩

/-- **The timeouts never let the sum of the waits pass the deadline exactly when
no module before the last two in the order of the waits takes any time.** -/
theorem wait_all_budget_iff (hnsec : 0 ≤ nsec) (hfair : Fair (waits nsec env ms)) :
    (Within nsec (waits nsec env ms) ∧ spent (waits nsec env ms) ≤ nsec) ↔
      ∀ i, 2 ≤ i → i < ms.length → env.elapsed i = 0 := by
  have hiff : Within nsec (waits nsec env ms) ↔ IdleBut 2 (waits nsec env ms) :=
    within_of_last_only (waitsFrom_head _ nsec)
      (waitsFrom_fromLast _ nsec (le_refl nsec) hfair) fun v hv => (hfair v hv).1
  have hidle : IdleBut 2 (waits nsec env ms) ↔ ∀ i, 2 ≤ i → i < ms.length → env.elapsed i = 0 :=
    waitsFrom_idleBut ms.length nsec
  rw [← hidle, ← hiff]
  exact ⟨And.left, fun h => ⟨h, h.spent_le hfair hnsec⟩⟩

/-- A started module with a thread. -/
def AModule.running (name : List Char) : AModule where
  m_name := name
  m_init_proc := true
  m_init_arg := 0
  m_thdptr := true
  m_start_proc := true
  m_shutdown_proc := true
  m_stop_proc := false
  m_finalize_proc := true
  m_status := .started

/-- Threads that all end, and the clock before and after the wait for each. -/
def Env.clocked (w_begin w_end : Nat → Int) : Env where
  init _ := (.ok, true)
  start _ := .ok
  shutdown _ := .ok
  stop _ := .ok
  cancel _ := .ok
  wait _ := .ok
  isCanceled _ := false
  w_begin := w_begin
  w_end := w_end

/-- Three modules, the first one waited for over already: the other two take 5
each, of 10. -/
theorem wait_all_two_take :
    Within 10 (waits 10 (Env.clocked (fun i => if i = 0 then 5 else 0) fun i => 10 - 5 * i)
      [.running ['a'], .running ['b'], .running ['c']]) := by
  have hfair : Fair (waits 10
      (Env.clocked (fun i => if i = 0 then 5 else 0) fun i => 10 - 5 * i)
      [.running ['a'], .running ['b'], .running ['c']]) := by
    unfold Fair
    decide
  refine ((wait_all_budget_iff (by omega) hfair).mpr ?_).1
  intro i h2 hi
  have hi2 : i = 2 := by
    have hlen : i < 3 := hi
    omega
  rw [hi2]
  rfl

/-- Three modules that take 6, 4 and 6 of 10, on a clock that never goes back:
the third wait has forgotten the first one, and they take 16 together. -/
theorem third_wait_overruns : ∃ (env : Env) (ms : List AModule),
    (∀ i, i < 3 → env.w_begin i ≤ env.w_end i) ∧
    (∀ i, i < 2 → env.w_end (i + 1) ≤ env.w_begin i) ∧
    Fair (waits 10 env ms) ∧ spent (waits 10 env ms) = 16 ∧ ¬ Within 10 (waits 10 env ms) ∧
    (waitAll 10 env ms).2.1 =
      [.wait 2 10 .ok, .enter 2 .shutdown, .wait 1 4 .ok, .enter 1 .shutdown,
        .wait 0 6 .ok, .enter 0 .shutdown] := by
  refine ⟨.clocked (fun i => if i = 0 then 10 else if i = 1 then 6 else 0)
    (fun i => if i = 0 then 16 else if i = 1 then 10 else 6),
    [.running ['a'], .running ['b'], .running ['c']], by decide, by decide, ?_, rfl, ?_, rfl⟩
  · unfold Fair
    decide
  · intro h
    have hthird : (6 : Int) ≤ 10 - 6 - 4 := h.2.2.1
    omega

end Mccp.Modules
