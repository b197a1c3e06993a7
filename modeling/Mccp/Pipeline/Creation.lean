/-
  Mccp.Pipeline.Creation
  ──────────────────────
  **WHAT A CREATE THAT IS REFUSED TELLS ITS CALLER.**

  mccp_pipeline_stage_create() checks its arguments and looks the name up in
  one condition.  When the condition fails, the code that is returned depends
  on whether a stage was found, and the common exit clears `*sptr`.  The number
  of workers is not checked there: mccp_barrier_create() refuses a zero, when
  the stage has its memory already.

      Reports             — the right code, and nothing touched
      create_proceeds     — the three ways out of the check
      OnWay.run           — a call with valid arguments, to its end
      Failing.run         — a call that cleans up, to its end
      create_reports_iff  — which calls report the right reason
-/
import Mccp.Pipeline.Consistency

namespace Mccp.Pipeline

open Hashmap Transition

variable {τ α : Type} {s s' : Registry τ α} {t : τ} {a : Args α} {mem : Option α} {env : InitEnv}
  {ret : Result} {sptr : Option α}

/-! ## §1. What a create should report. -/

section
variable [DecidableEq α]

/-- The tables list the live stages, each under a proper name, and nothing else. -/
structure ListsLive (s : Registry τ α) : Prop where
  tables : Consistent s
  valid : ∀ ps n, s.life ps = .live n → isValidString (some n) = true

end

/-- The name of a live stage. -/
def NameLive (s : Registry τ α) (name : Option String) : Prop :=
  ∃ n ps, name = some n ∧ s.life ps = .live n

/-- What the check asks of the arguments but the name. -/
structure Args.Passes (a : Args α) : Prop where
  sptr : a.sptr ≠ none
  event_size : 0 < a.event_size
  max_batch_size : 0 < a.max_batch_size
  sched_proc : a.sched_proc = true
  main_proc : a.main_proc = true

/-- Every argument but the name is valid; that there are workers is for
mccp_barrier_create() to check. -/
def Args.OthersValid (a : Args α) : Prop := a.Passes ∧ 0 < a.n_workers

/-- No argument is invalid. -/
def Args.Valid (a : Args α) : Prop := a.OthersValid ∧ isValidString a.name = true

/-- No argument is invalid but the number of workers. -/
def Args.OnlyNoWorkers (a : Args α) : Prop :=
  a.Passes ∧ a.n_workers = 0 ∧ isValidString a.name = true

/-- The tables and the live stages are what they were. -/
structure Untouched (s s' : Registry τ α) : Prop where
  names : s'.s_ps_name_tbl = s.s_ps_name_tbl
  objs : s'.s_ps_obj_tbl = s.s_ps_obj_tbl
  stages : ∀ ps n, s.life ps = .live n → s'.life ps = .live n ∧ s'.record ps = s.record ps

theorem Untouched.refl (s : Registry τ α) : Untouched s s := ⟨rfl, rfl, fun _ _ h => ⟨h, rfl⟩⟩

/-- **The right reason, and nothing touched**: `ret` and `*sptr` are what the
caller has after the call, which took the registry from `s` to `s'`. -/
structure Reports (s : Registry τ α) (a : Args α) (ret : Result) (sptr : Option α)
    (s' : Registry τ α) : Prop where
  alreadyExists : ret = .alreadyExists ↔ a.OthersValid ∧ NameLive s a.name
  invalidArgs : ¬ a.Valid → ret = .invalidArgs
  untouched : (a.OthersValid ∧ NameLive s a.name) ∨ ¬ a.Valid →
    Untouched s s' ∧ ∀ p, a.sptr = some p → sptr = p

/-! ## §2. The check. -/

section
variable [DecidableEq α]

theorem ListsLive.isValidString (h : ListsLive s) {name : Option String} (hn : NameLive s name) :
    isValidString name = true := by
  obtain ⟨n, ps, hname, hlive⟩ := hn
  rw [hname]
  exact h.valid ps n hlive

/-- `s_find_stage` finds the live stages. -/
theorem ListsLive.findStage_iff (h : ListsLive s) {name : Option String} :
    s.findStage name ≠ none ↔ NameLive s name := by
  have hfind : ∀ n, (s.s_ps_name_tbl.find n).2 = s.s_ps_name_tbl.lookup n := by
    intro n
    unfold Map.find
    cases hl : s.s_ps_name_tbl.lookup n <;> rfl
  constructor
  · intro hne
    unfold Registry.findStage at hne
    cases name with
    | none => exact absurd rfl hne
    | some n =>
      dsimp only at hne
      split at hne
      next =>
        rw [hfind] at hne
        obtain ⟨ps, hps⟩ := Option.ne_none_iff_exists'.mp hne
        exact ⟨n, ps, rfl, (h.tables.1 n ps).mp hps⟩
      next => exact absurd rfl hne
  · intro hn
    have hvalid := h.isValidString hn
    obtain ⟨n, ps, rfl, hlive⟩ := hn
    unfold Registry.findStage
    dsimp only
    rw [if_pos hvalid, hfind, (h.tables.1 n ps).mpr hlive]
    simp

/-- What the look-up in the check has found: nothing where `sptr` is NULL, for
then it was not made. -/
theorem ListsLive.checked_iff (h : ListsLive s) :
    (if a.sptr ≠ none ∧ Pipeline.isValidString a.name then s.findStage a.name else none) ≠ none ↔
      a.sptr ≠ none ∧ NameLive s a.name := by
  constructor
  · intro hne
    split at hne
    next hc => exact ⟨hc.1, h.findStage_iff.mp hne⟩
    next => exact absurd rfl hne
  · intro hc
    rw [if_pos ⟨hc.1, h.isValidString hc.2⟩]
    exact h.findStage_iff.mpr hc.2

variable [DecidableEq τ]

/-- Arguments that pass and a new name: the call goes on. -/
theorem create_proceeds (h : ListsLive s) (hp : a.Passes) (hname : Pipeline.isValidString a.name)
    (hn : ¬ NameLive s a.name) : create s t a = (.quiet, s.move t (.allocating a)) := by
  have hchecked := not_not.mp (mt h.checked_iff.mp fun hc => hn hc.2)
  unfold create
  dsimp only
  rw [hchecked, if_pos ⟨hp.sptr, hname, rfl, hp.event_size, hp.max_batch_size, hp.sched_proc,
    .inl hp.main_proc⟩]

/-- A stage was found: whatever else is wrong, the arguments are called invalid. -/
theorem create_found (h : ListsLive s) (hs : a.sptr ≠ none) (hn : NameLive s a.name) :
    create s t a = (.created .invalidArgs none, s) := by
  have hchecked := h.checked_iff.mpr ⟨hs, hn⟩
  unfold create
  dsimp only
  rw [if_neg (fun hc => hchecked hc.2.2.1), if_pos hchecked]

/-- No stage was found: whatever is wrong, the stage is said to exist. -/
theorem create_unfound (h : ListsLive s) (hp : ¬ (a.Passes ∧ Pipeline.isValidString a.name))
    (hn : ¬ (a.sptr ≠ none ∧ NameLive s a.name)) :
    create s t a = (.created .alreadyExists none, s) := by
  have hchecked := not_not.mp (mt h.checked_iff.mp hn)
  unfold create
  dsimp only
  rw [hchecked, if_neg, if_neg (by simp)]
  intro hc
  obtain ⟨hsptr, hname, -, hevent, hbatch, hsched, hproc⟩ := hc
  have hmain : a.main_proc = true := by
    rcases hproc with h | ⟨-, h⟩ | ⟨h, -⟩ | ⟨-, h, -⟩ <;> exact h
  exact hp ⟨⟨hsptr, hevent, hbatch, hsched, hmain⟩, hname⟩

end

/-! ## §3. From the check to the return. -/

/-- What the outside owes: no creation says that something exists, and none of
the first locks that its argument is NULL. -/
structure InitEnv.Usual (env : InitEnv) : Prop where
  locks : ∀ r ∈ env.locks, r ≠ .alreadyExists ∧ r ≠ .invalidArgs
  barrier : env.barrier ≠ .alreadyExists
  pauseLocks : ∀ r ∈ env.pauseLocks, r ≠ .alreadyExists
  workerCreate : ∀ i, env.workerCreate i ≠ .alreadyExists

/-- What the call is given: `mem` by malloc(), `env` by the creations. -/
def Given (mem : Option α) (env : InitEnv) (_ : Registry τ α) (l : Label τ α)
    (_ : Registry τ α) : Prop :=
  ∀ u m e, l.action = .make u m e → m = mem ∧ e = env

/-- **A whole create of `t`**, in which nobody else takes a step: what it
returns, and what `*sptr` is then. -/
def Returns [DecidableEq τ] [DecidableEq α] (s : Registry τ α) (t : τ) (a : Args α)
    (mem : Option α) (env : InitEnv) (ret : Result) (sptr : Option α) (s' : Registry τ α) : Prop :=
  ∃ ls l, Run (restrict Step (Given mem env)) s (ls ++ [l]) s' ∧
    (ls ++ [l]).head?.map Label.action = some (.create t a) ∧
    (∀ m ∈ ls, m.action.thread = t ∧ m.outcome = .quiet) ∧
    l.action.thread = t ∧ l.outcome = .created ret sptr

/-- Why a create cleans up: not because something exists. -/
def Cleanup.NotExisting (why : Cleanup) : Prop := ∃ ret, why = .failed ret ∧ ret ≠ .alreadyExists

/-- A create of `n` between its check and its return, with the name still free. -/
def OnWay (n : String) (s : Registry τ α) : Call α → Prop
  | .idle => False
  | .allocating a => a.name = some n ∧ s.s_ps_name_tbl.lookup n = none
  | .addingName ps => (s.record ps).m_name = some n ∧ s.s_ps_name_tbl.lookup n = none
  | .addingObj _ => True
  | .deletingObj _ why => why.NotExisting
  | .deletingName _ why => why.NotExisting
  | .freeing _ why => why.NotExisting

theorem InitEnv.Usual.creations (h : env.Usual) (n : Nat) :
    ∀ r ∈ env.creations n, r ≠ .alreadyExists := by
  intro r hr
  rcases List.mem_append.mp hr with hr | hr
  · exact (h.locks r hr).1
  · rcases List.mem_cons.mp hr with rfl | hr
    · unfold barrierCreate
      split
      next => exact h.barrier
      next => decide
    · exact h.pauseLocks r hr

/-- The first failure is one of the list. -/
theorem firstFailure_ne {r₀ : Result} (hok : r₀ ≠ .ok) {rs : List Result} (h : ∀ r ∈ rs, r ≠ r₀) :
    firstFailure rs ≠ r₀ := by
  induction rs with
  | nil => exact hok.symm
  | cons r rs ih =>
    unfold firstFailure
    split
    next => exact ih fun x hx => h x (List.mem_cons_of_mem r hx)
    next => exact h r List.mem_cons_self

/-- An initialisation does not find that something exists. -/
theorem initStage_ne (henv : env.Usual) (heap : Bool) (old : StageRecord) :
    (initStage env a heap old).1 ≠ .alreadyExists := by
  unfold initStage
  split
  next =>
    dsimp only
    split
    next =>
      split
      next =>
        split
        next =>
          show Result.ok ≠ .alreadyExists
          decide
        next =>
          apply firstFailure_ne (by decide)
          intro r hr
          obtain ⟨i, -, rfl⟩ := List.mem_map.mp hr
          exact henv.workerCreate i
      next => decide
    next => exact firstFailure_ne (by decide) (henv.creations _)
  next =>
    show Result.invalidArgs ≠ .alreadyExists
    decide

section
variable [DecidableEq τ] [DecidableEq α] {l : Label τ α} {n : String} {ps : α}

omit [DecidableEq α] in
theorem move_call_self (s : Registry τ α) (t : τ) (c : Call α) : (s.move t c).call t = c :=
  Function.update_self ..

/-- A create whose stage is prepared goes on to add it, or cleans up. -/
theorem OnWay.prepare (ps : α) (hname : a.name = some n)
    (hfree : s.s_ps_name_tbl.lookup n = none) (henv : env.Usual) (heap : Bool) :
    (Pipeline.prepare s t a ps heap env).1 = .quiet ∧
      OnWay n (Pipeline.prepare s t a ps heap env).2
        ((Pipeline.prepare s t a ps heap env).2.call t) := by
  have hne := initStage_ne (a := a) henv heap (s.record ps)
  unfold Pipeline.prepare
  dsimp only
  split
  next hok =>
    refine ⟨rfl, ?_⟩
    rw [move_call_self]
    refine ⟨?_, hfree⟩
    have hrec : (initStage env a heap (s.record ps)).2.m_name = some n :=
      (initStage_ok hok).trans hname
    show (Function.update s.record ps _ ps).m_name = some n
    rw [Function.update_self]
    exact hrec
  next =>
    refine ⟨rfl, ?_⟩
    rw [move_call_self]
    exact ⟨_, rfl, hne⟩

/-- Adding a name that is free does not find it taken. -/
theorem OnWay.addName (hname : (s.record ps).m_name = some n)
    (hfree : s.s_ps_name_tbl.lookup n = none) (room : Bool) :
    (Pipeline.addName s t ps room).1 = .quiet ∧
      OnWay n (Pipeline.addName s t ps room).2 ((Pipeline.addName s t ps room).2.call t) := by
  unfold Pipeline.addName
  rw [hname]
  dsimp only
  split
  next =>
    split
    next =>
      refine ⟨rfl, ?_⟩
      rw [move_call_self]
      exact trivial
    next =>
      refine ⟨rfl, ?_⟩
      rw [move_call_self]
      exact ⟨_, rfl, Map.add_ne_alreadyExists (.inr hfree)⟩
  next =>
    refine ⟨rfl, ?_⟩
    rw [move_call_self]
    exact ⟨_, rfl, by decide⟩

/-- A create with its memory is prepared, or has none. -/
theorem OnWay.make {b : Args α} {o : Outcome α} (hname : b.name = some n)
    (hfree : s.s_ps_name_tbl.lookup n = none) (henv : env.Usual)
    (hs : Pipeline.make s t b mem env = some (o, s')) :
    (o = .quiet ∧ OnWay n s' (s'.call t)) ∨
      ∃ ret sptr, o = .created ret sptr ∧ ret ≠ .alreadyExists := by
  have hprep : ∀ ps heap, Pipeline.prepare s t b ps heap env = (o, s') →
      o = .quiet ∧ OnWay n s' (s'.call t) := by
    intro ps heap heq
    have h := OnWay.prepare (s := s) (t := t) ps hname hfree henv heap
    rw [heq] at h
    exact h
  unfold Pipeline.make at hs
  split at hs
  next ps hsptr => exact .inl (hprep ps false (Option.some.inj hs))
  next =>
    split at hs
    next ps =>
      split at hs
      next => exact .inl (hprep ps true (Option.some.inj hs))
      next => exact absurd hs (by simp)
    next =>
      injection hs with hs
      injection hs with ho hs
      exact .inr ⟨_, _, ho.symm, by decide⟩
  next => exact absurd hs (by simp)

/-- **One step of the call**: it goes on quietly, or returns something else. -/
theorem OnWay.step (h : OnWay n s (s.call t)) (henv : env.Usual) (hstep : Step s l s')
    (hgiven : Given mem env s l s') (ht : l.action.thread = t) :
    (l.outcome = .quiet ∧ OnWay n s' (s'.call t)) ∨
      ∃ ret sptr, l.outcome = .created ret sptr ∧ ret ≠ .alreadyExists := by
  -- the call is under way, so its thread begins no other
  have hbusy : s.call t ≠ .idle := by
    intro hidle
    rw [hidle] at h
    exact h
  cases step_cases hstep with
  | create u b ha hu ho hs =>
    rw [ha] at ht
    obtain rfl : u = t := ht
    exact absurd hu hbusy
  | destroy u p ha hu ho hs =>
    rw [ha] at ht
    obtain rfl : u = t := ht
    exact absurd hu hbusy
  | find u nm r ha hu ho hs =>
    rw [ha] at ht
    obtain rfl : u = t := ht
    exact absurd hu hbusy
  | make u m e b ha hu hs =>
    obtain ⟨rfl, rfl⟩ := hgiven u m e ha
    rw [ha] at ht
    obtain rfl : u = t := ht
    rw [hu] at h
    exact OnWay.make h.1 h.2 henv hs
  | addName u room ps ha hu ho hs =>
    rw [ha] at ht
    obtain rfl : u = t := ht
    rw [hu] at h
    rw [ho, hs]
    exact .inl (OnWay.addName h.1 h.2 room)
  | addObj u room ps ha hu ho hs =>
    rw [ha] at ht
    obtain rfl : u = t := ht
    rw [ho, hs]
    unfold addObj
    dsimp only
    split
    next => exact .inr ⟨_, _, rfl, by decide⟩
    next hne =>
      refine .inl ⟨rfl, ?_⟩
      rw [move_call_self]
      -- the add overwrites, so all it can lack is memory
      exact ⟨_, rfl, Map.add_ne_alreadyExists (.inl rfl)⟩
  | deleteObj u ps why ha hu ho hs =>
    rw [ha] at ht
    obtain rfl : u = t := ht
    rw [hu] at h
    refine .inl ⟨ho, ?_⟩
    rw [hs]
    unfold deleteObj
    dsimp only
    rw [move_call_self]
    exact h
  | deleteName u ps why ha hu ho hs =>
    rw [ha] at ht
    obtain rfl : u = t := ht
    rw [hu] at h
    refine .inl ⟨ho, ?_⟩
    rw [hs]
    unfold deleteName
    split
    next =>
      split
      next =>
        dsimp only
        rw [move_call_self]
        exact h
      next =>
        rw [move_call_self]
        exact h
    next =>
      rw [move_call_self]
      exact h
  | free u ps why ha hu ho hs =>
    rw [ha] at ht
    obtain rfl : u = t := ht
    rw [hu] at h
    obtain ⟨ret, rfl, hne⟩ := h
    exact .inr ⟨ret, none, ho, hne⟩

/-- What the quiet steps of a call keep still holds before its last step. -/
theorem before_last {ok : Registry τ α → Label τ α → Registry τ α → Prop}
    {P : Registry τ α → Prop} {ls : List (Label τ α)}
    (hkeep : ∀ u m u', P u → restrict Step ok u m u' → m.action.thread = t → m.outcome = .quiet →
      P u')
    (hP : P s) (hrun : Run (restrict Step ok) s (ls ++ [l]) s')
    (hquiet : ∀ m ∈ ls, m.action.thread = t ∧ m.outcome = .quiet) :
    ∃ u, P u ∧ restrict Step ok u l s' := by
  induction ls generalizing s with
  | nil =>
    cases hrun with
    | cons hstep hnil =>
      cases hnil
      exact ⟨s, hP, hstep⟩
  | cons m ls ih =>
    cases hrun with
    | cons hstep hrest =>
      obtain ⟨hmt, hmq⟩ := hquiet m List.mem_cons_self
      exact ih (hkeep _ _ _ hP hstep hmt hmq) hrest fun x hx =>
        hquiet x (List.mem_cons_of_mem m hx)

/-- **The rest of the call**: it does not return that something exists. -/
theorem OnWay.run {ls : List (Label τ α)} (h : OnWay n s (s.call t)) (henv : env.Usual)
    (hrun : Run (restrict Step (Given mem env)) s (ls ++ [l]) s')
    (hquiet : ∀ m ∈ ls, m.action.thread = t ∧ m.outcome = .quiet) (ht : l.action.thread = t)
    (ho : l.outcome = .created ret sptr) : ret ≠ .alreadyExists := by
  have hlast : ∃ u, OnWay n u (u.call t) ∧ restrict Step (Given mem env) u l s' := by
    refine before_last (fun u m u' hu hstep hmt hmq => ?_) h hrun hquiet
    rcases hu.step henv hstep.1 hstep.2 hmt with ⟨-, hway⟩ | ⟨r, p, hr, -⟩
    · exact hway
    · exact absurd (hmq.symm.trans hr) (by simp)
  obtain ⟨u, hu, hstep⟩ := hlast
  rcases hu.step henv hstep.1 hstep.2 ht with ⟨hq, -⟩ | ⟨r, p, hr, hne⟩
  · exact absurd (ho.symm.trans hq) (by simp)
  · rw [ho] at hr
    injection hr with hr
    rw [hr]
    exact hne

/-! ## §4. A create without workers. -/

end

/-- A create that has failed with `r` and cleans up. -/
def Failing (r : Result) : Call α → Prop
  | .deletingObj _ why => why = .failed r
  | .deletingName _ why => why = .failed r
  | .freeing _ why => why = .failed r
  | _ => False

/-- Memory that is in no table, of a create that has touched nothing since `s₀`. -/
structure Spared (s₀ s : Registry τ α) (ps : α) : Prop where
  untouched : Untouched s₀ s
  unlisted : ∀ n, s₀.life ps ≠ .live n
  name : (s.record ps).m_name = none

section
variable [DecidableEq τ] [DecidableEq α] {l : Label τ α} {ps : α} {r : Result}

theorem InitEnv.Usual.fine : InitEnv.fine.Usual :=
  ⟨by simp [InitEnv.fine], by decide, by simp [InitEnv.fine], fun _ => by simp [InitEnv.fine]⟩

theorem firstFailure_append (rs rs' : List Result) :
    firstFailure (rs ++ rs') =
      if firstFailure rs = .ok then firstFailure rs' else firstFailure rs := by
  induction rs with
  | nil => rfl
  | cons r rs ih =>
    rw [List.cons_append, firstFailure, firstFailure, ih]
    by_cases hr : r = .ok
    · simp only [hr, if_true]
    · simp only [if_neg hr]

/-- The barrier fails, if nothing before it does. -/
theorem InitEnv.creations_zero (env : InitEnv) : firstFailure (env.creations 0) =
    if firstFailure env.locks = .ok then .invalidArgs else firstFailure env.locks :=
  firstFailure_append ..

theorem InitEnv.creations_zero_ne (env : InitEnv) : firstFailure (env.creations 0) ≠ .ok := by
  rw [env.creations_zero]
  split
  next => decide
  next h => exact h

theorem InitEnv.Usual.creations_zero_iff (h : env.Usual) :
    firstFailure (env.creations 0) = .invalidArgs ↔ firstFailure env.locks = .ok := by
  have hne : firstFailure env.locks ≠ .invalidArgs :=
    firstFailure_ne (by decide) fun r hr => (h.locks r hr).2
  rw [env.creations_zero]
  split
  next hok => exact iff_of_true rfl hok
  next hnot => exact iff_of_false hne hnot

/-- Without workers the stage stays a record of zeros. -/
theorem prepare_zero (hp : a.Passes) (h0 : a.n_workers = 0) (heap : Bool) :
    Pipeline.prepare s t a ps heap env = (.quiet,
      ({ s with record := Function.update s.record ps .zero }.lead ps .made).move t
        (.deletingObj ps (.failed (firstFailure (env.creations 0))))) := by
  have hproc : ∃ p, findWorkerProc a.fetch_proc a.main_proc a.throw_proc = some p := by
    rw [hp.main_proc]
    cases a.fetch_proc <;> cases a.throw_proc <;> exact ⟨_, rfl⟩
  obtain ⟨p, hproc⟩ := hproc
  have hinit : initStage env a heap (s.record ps) = (firstFailure (env.creations 0), .zero) := by
    unfold initStage
    rw [hproc, h0]
    dsimp only
    rw [if_neg env.creations_zero_ne]
  unfold Pipeline.prepare
  rw [hinit]
  dsimp only
  rw [if_neg env.creations_zero_ne]

/-- A step of a create with its check behind it. -/
theorem allocating_step (hcall : s.call t = .allocating a)
    (hstep : restrict Step (Given mem env) s l s') (ht : l.action.thread = t) :
    Pipeline.make s t a mem env = some (l.outcome, s') := by
  cases step_cases hstep.1 with
  | make u m e b ha hu hs =>
    obtain ⟨rfl, rfl⟩ := hstep.2 u m e ha
    rw [ha] at ht
    obtain rfl : u = t := ht
    injection hu.symm.trans hcall with hb
    exact hb ▸ hs
  | _ => simp_all [Action.thread]

/-- Memory with a record of zeros, not yet in use before. -/
theorem Spared.fresh (hps : s.life ps = .unused) (c : Call α) :
    Spared s (({ s with record := Function.update s.record ps .zero }.lead ps .made).move t c)
      ps := by
  have hnot : ∀ n, s.life ps ≠ .live n := by
    intro n hlive
    exact absurd (hps.symm.trans hlive) (by simp)
  refine ⟨⟨rfl, rfl, fun q n hq => ?_⟩, hnot, ?_⟩
  · have hne : q ≠ ps := by
      rintro rfl
      exact hnot n hq
    exact ⟨(lead_life_of_ne _ _ hne).trans hq, Function.update_of_ne hne _ _⟩
  · show (Function.update s.record ps .zero ps).m_name = none
    rw [Function.update_self]
    rfl

/-- **A create without workers, after its check**: no memory, or a stage that
cannot be made. -/
theorem made_zero (hp : a.Passes) (h0 : a.n_workers = 0)
    (hstep : restrict Step (Given mem env) (s.move t (.allocating a)) l s')
    (ht : l.action.thread = t) :
    (a.sptr = some none ∧ mem = none ∧ l.outcome = .created .noMemory none ∧ Untouched s s') ∨
      (¬ (a.sptr = some none ∧ mem = none) ∧ l.outcome = .quiet ∧
        Failing (firstFailure (env.creations 0)) (s'.call t) ∧
        ∃ ps, (s'.call t).stage? = some ps ∧ (a.sptr = some none → Spared s s' ps)) := by
  have hmake := allocating_step (move_call_self ..) hstep ht
  unfold Pipeline.make at hmake
  split at hmake
  next ps hsptr =>
    -- the caller's memory, whatever it is
    rw [prepare_zero hp h0] at hmake
    injection hmake with hmake
    injection hmake with ho hs
    refine .inr ⟨by simp [hsptr], ho.symm, ?_, ps, ?_, by simp [hsptr]⟩
    · rw [← hs, move_call_self]
      rfl
    · rw [← hs, move_call_self]
      rfl
  next hsptr =>
    split at hmake
    next ps =>
      split at hmake
      next hunused =>
        rw [prepare_zero hp h0] at hmake
        injection hmake with hmake
        injection hmake with ho hs
        refine .inr ⟨by simp, ho.symm, ?_, ps, ?_, fun _ => ?_⟩
        · rw [← hs, move_call_self]
          rfl
        · rw [← hs, move_call_self]
          rfl
        · rw [← hs]
          obtain ⟨huntouched, hunlisted, hname⟩ :=
            Spared.fresh (t := t) (s := s.move t (.allocating a)) hunused
              (.deletingObj ps (.failed (firstFailure (env.creations 0))))
          exact ⟨⟨huntouched.names, huntouched.objs, huntouched.stages⟩, hunlisted, hname⟩
      next => exact absurd hmake (by simp)
    next =>
      injection hmake with hmake
      injection hmake with ho hs
      refine .inl ⟨hsptr, rfl, ho.symm, ?_⟩
      rw [← hs]
      exact ⟨rfl, rfl, fun _ _ h => ⟨h, rfl⟩⟩
  next hsptr => exact absurd hsptr hp.sptr

/-- **A clean-up step**: it goes on quietly, or returns the failure. -/
theorem Failing.step (h : Failing r (s.call t)) (hstep : Step s l s')
    (ht : l.action.thread = t) :
    (l.outcome = .quiet ∧ Failing r (s'.call t)) ∨ l.outcome = .created r none := by
  cases step_cases hstep with
  | deleteObj u ps why ha hu ho hs =>
    rw [ha] at ht
    obtain rfl : u = t := ht
    rw [hu] at h
    refine .inl ⟨ho, ?_⟩
    rw [hs]
    unfold deleteObj
    dsimp only
    rw [move_call_self]
    exact h
  | deleteName u ps why ha hu ho hs =>
    rw [ha] at ht
    obtain rfl : u = t := ht
    rw [hu] at h
    refine .inl ⟨ho, ?_⟩
    have hcall : s'.call u = .freeing ps why := by
      rw [hs]
      unfold deleteName
      split
      · split <;> exact move_call_self ..
      · exact move_call_self ..
    rw [hcall]
    exact h
  | free u ps why ha hu ho hs =>
    rw [ha] at ht
    obtain rfl : u = t := ht
    rw [hu] at h
    obtain rfl : why = .failed r := h
    exact .inr ho
  | _ => simp_all [Action.thread, Failing]

/-- A change of the life of spared memory, and of where a thread is. -/
theorem Spared.frame {s₀ : Registry τ α} (h : Spared s₀ s ps) (lf : Life) (c : Call α) :
    Spared s₀ ((s.lead ps lf).move t c) ps where
  untouched := by
    refine ⟨h.untouched.names, h.untouched.objs, fun q n hq => ?_⟩
    have hne : q ≠ ps := by
      rintro rfl
      exact h.unlisted n hq
    obtain ⟨hlife, hrec⟩ := h.untouched.stages q n hq
    exact ⟨(lead_life_of_ne s lf hne).trans hlife, hrec⟩
  unlisted := h.unlisted
  name := h.name

/-- **What is spared stays spared** while its create cleans up. -/
theorem Spared.step {s₀ : Registry τ α} (hl : ListsLive s₀) (h : Spared s₀ s ps)
    (hps : (s.call t).stage? = some ps) (hfail : Failing r (s.call t)) (hstep : Step s l s')
    (ht : l.action.thread = t) :
    Spared s₀ s' ps ∧ (l.outcome = .quiet → (s'.call t).stage? = some ps) := by
  cases step_cases hstep with
  | deleteObj u q why ha hu ho hs =>
    rw [ha] at ht
    obtain rfl : u = t := ht
    rw [hu] at hps
    obtain rfl : q = ps := Option.some.inj hps
    -- there is no entry to delete
    have hlookup : s.s_ps_obj_tbl.lookup q = none := by
      rw [h.untouched.objs]
      cases hlk : s₀.s_ps_obj_tbl.lookup q with
      | none => rfl
      | some b =>
        obtain ⟨-, n, hlive⟩ := (hl.tables.2 q b).mp hlk
        exact absurd hlive (h.unlisted n)
    have htbl : (s.s_ps_obj_tbl.delete q).2.2 = s.s_ps_obj_tbl := Map.delete_absent hlookup
    rw [hs]
    unfold deleteObj
    dsimp only
    rw [htbl]
    refine ⟨h.frame _ _, fun _ => ?_⟩
    rw [move_call_self]
    rfl
  | deleteName u q why ha hu ho hs =>
    rw [ha] at ht
    obtain rfl : u = t := ht
    rw [hu] at hps
    obtain rfl : q = ps := Option.some.inj hps
    rw [hs]
    unfold deleteName
    rw [h.name]
    refine ⟨⟨⟨h.untouched.names, h.untouched.objs, h.untouched.stages⟩, h.unlisted, h.name⟩,
      fun _ => ?_⟩
    rw [move_call_self]
    rfl
  | free u q why ha hu ho hs =>
    rw [ha] at ht
    obtain rfl : u = t := ht
    rw [hu] at hps hfail
    obtain rfl : q = ps := Option.some.inj hps
    obtain rfl : why = .failed r := hfail
    rw [hs]
    refine ⟨h.frame _ _, fun hq => ?_⟩
    exact absurd (ho.symm.trans hq) (by simp [free])
  | _ => simp_all [Action.thread, Failing]

/-- **The rest of a clean-up**: the call returns the failure and no stage. -/
theorem Failing.run {ls : List (Label τ α)} (h : Failing r (s.call t))
    (hrun : Run (restrict Step (Given mem env)) s (ls ++ [l]) s')
    (hquiet : ∀ m ∈ ls, m.action.thread = t ∧ m.outcome = .quiet) (ht : l.action.thread = t)
    (ho : l.outcome = .created ret sptr) : ret = r ∧ sptr = none := by
  have hlast : ∃ u, Failing r (u.call t) ∧ restrict Step (Given mem env) u l s' := by
    refine before_last (fun u m u' hu hstep hmt hmq => ?_) h hrun hquiet
    rcases hu.step hstep.1 hmt with ⟨-, hgo⟩ | hr
    · exact hgo
    · exact absurd (hmq.symm.trans hr) (by simp)
  obtain ⟨u, hu, hstep⟩ := hlast
  rcases hu.step hstep.1 ht with ⟨hq, -⟩ | hr
  · exact absurd (ho.symm.trans hq) (by simp)
  · rw [ho] at hr
    injection hr with hret hsptr
    exact ⟨hret, hsptr⟩

/-- **The rest of a clean-up of spared memory**: nothing has been touched. -/
theorem Spared.run {s₀ : Registry τ α} (hl : ListsLive s₀) {ls : List (Label τ α)}
    (h : Spared s₀ s ps) (hps : (s.call t).stage? = some ps) (hfail : Failing r (s.call t))
    (hrun : Run (restrict Step (Given mem env)) s (ls ++ [l]) s')
    (hquiet : ∀ m ∈ ls, m.action.thread = t ∧ m.outcome = .quiet) (ht : l.action.thread = t) :
    Untouched s₀ s' := by
  have hlast : ∃ u, (Spared s₀ u ps ∧ (u.call t).stage? = some ps ∧ Failing r (u.call t)) ∧
      restrict Step (Given mem env) u l s' := by
    refine before_last (fun u m u' hu hstep hmt hmq => ?_) ⟨h, hps, hfail⟩ hrun hquiet
    obtain ⟨hu, hups, hufail⟩ := hu
    obtain ⟨hspared, hstage⟩ := hu.step hl hups hufail hstep.1 hmt
    refine ⟨hspared, hstage hmq, ?_⟩
    rcases hufail.step hstep.1 hmt with ⟨-, hgo⟩ | hr
    · exact hgo
    · exact absurd (hmq.symm.trans hr) (by simp)
  obtain ⟨u, ⟨hu, hups, hufail⟩, hstep⟩ := hlast
  exact (hu.step hl hups hufail hstep.1 ht).1.untouched

/-! ## §5. Which calls report the right reason. -/

/-- A whole call is its check, and where that is quiet, the rest. -/
theorem Returns.first (h : Returns s t a mem env ret sptr s') :
    create s t a = (.created ret sptr, s') ∨
      ((create s t a).1 = .quiet ∧ ∃ ls l,
        Run (restrict Step (Given mem env)) (create s t a).2 (ls ++ [l]) s' ∧
        (∀ m ∈ ls, m.action.thread = t ∧ m.outcome = .quiet) ∧
        l.action.thread = t ∧ l.outcome = .created ret sptr) := by
  obtain ⟨ls, l, hrun, hhead, hquiet, ht, ho⟩ := h
  have hcheck : ∀ {m : Label τ α} {u : Registry τ α}, Step s m u → m.action = .create t a →
      create s t a = (m.outcome, u) := by
    intro m u hstep hm
    cases step_cases hstep with
    | create v b ha hv ho hs =>
      rw [hm] at ha
      cases ha
      rw [ho, hs]
    | _ => simp_all
  cases ls with
  | nil =>
    cases hrun with
    | cons hstep hnil =>
      cases hnil
      left
      rw [hcheck hstep.1 (by simpa using hhead), ho]
  | cons m ls =>
    cases hrun with
    | cons hstep hrest =>
      right
      rw [hcheck hstep.1 (by simpa using hhead)]
      exact ⟨(hquiet m List.mem_cons_self).2, ls, l, hrest,
        fun x hx => hquiet x (List.mem_cons_of_mem m hx), ht, ho⟩

/-- A call that the check refuses returns at once. -/
theorem Returns.refused {r : Result} (h : Returns s t a mem env ret sptr s')
    (hcreate : create s t a = (.created r none, s)) : ret = r ∧ sptr = none ∧ s' = s := by
  rcases h.first with hdone | ⟨hq, -⟩
  · rw [hcreate] at hdone
    cases hdone
    exact ⟨rfl, rfl, rfl⟩
  · rw [hcreate] at hq
    exact absurd hq (by simp)

/-- A call that the check lets through does not say that the stage exists. -/
theorem Returns.passed (h : Returns s t a mem env ret sptr s') (henv : env.Usual)
    (hl : ListsLive s) (hv : a.Valid) (hn : ¬ NameLive s a.name) : ret ≠ .alreadyExists := by
  have hcreate := create_proceeds (t := t) hl hv.1.1 hv.2 hn
  obtain ⟨n, hname⟩ : ∃ n, a.name = some n := by
    cases hname : a.name with
    | none =>
      have := hv.2
      rw [hname] at this
      exact absurd this (by decide)
    | some n => exact ⟨n, rfl⟩
  have hfree : s.s_ps_name_tbl.lookup n = none := by
    cases hlk : s.s_ps_name_tbl.lookup n with
    | none => rfl
    | some ps => exact absurd ⟨n, ps, hname, (hl.tables.1 n ps).mp hlk⟩ hn
  rcases h.first with hdone | ⟨-, ls, l, hrun, hquiet, ht, ho⟩
  · rw [hcreate] at hdone
    exact absurd hdone (by simp)
  · rw [hcreate] at hrun
    have hway : OnWay n (s.move t (.allocating a)) ((s.move t (.allocating a)).call t) := by
      rw [move_call_self]
      exact ⟨hname, hfree⟩
    exact hway.run henv hrun hquiet ht ho

/-- **A call without workers** fails where it creates its barrier, if it comes
that far, and returns no stage; memory of its own was all it touched. -/
theorem Returns.noWorkers (h : Returns s t a mem env ret sptr s') (hl : ListsLive s)
    (hv : a.OnlyNoWorkers) (hn : ¬ NameLive s a.name) :
    sptr = none ∧
      ret = (if a.sptr = some none ∧ mem = none then .noMemory
        else firstFailure (env.creations 0)) ∧
      (a.sptr = some none → Untouched s s') := by
  obtain ⟨hp, h0, hname⟩ := hv
  have hcreate := create_proceeds (t := t) hl hp hname hn
  rcases h.first with hdone | ⟨-, ls, l, hrun, hquiet, ht, ho⟩
  · rw [hcreate] at hdone
    exact absurd hdone (by simp)
  rw [hcreate] at hrun
  cases ls with
  | nil =>
    cases hrun with
    | cons hstep hnil =>
      cases hnil
      rcases made_zero hp h0 hstep ht with ⟨hnull, hmem, hout, hunt⟩ | ⟨-, hq, -⟩
      · rw [ho] at hout
        injection hout with hret hsptr
        exact ⟨hsptr, by rw [if_pos ⟨hnull, hmem⟩, hret], fun _ => hunt⟩
      · exact absurd (ho.symm.trans hq) (by simp)
  | cons m ls =>
    cases hrun with
    | cons hstep hrest =>
      obtain ⟨hmt, hmq⟩ := hquiet m List.mem_cons_self
      have hrestq : ∀ x ∈ ls, x.action.thread = t ∧ x.outcome = .quiet :=
        fun x hx => hquiet x (List.mem_cons_of_mem m hx)
      rcases made_zero hp h0 hstep hmt with
        ⟨-, -, hout, -⟩ | ⟨hnot, -, hfail, ps, hps, hspared⟩
      · exact absurd (hmq.symm.trans hout) (by simp)
      · obtain ⟨hret, hsptr⟩ := hfail.run hrest hrestq ht ho
        refine ⟨hsptr, by rw [if_neg hnot, hret], fun hnull => ?_⟩
        exact (hspared hnull).run hl hps hfail hrest hrestq ht

omit [DecidableEq τ] in
/-- The answer for a taken name is right when an argument is invalid, and
`*sptr` had nothing to lose. -/
theorem ListsLive.reports_found_iff (hl : ListsLive s) (hs : a.sptr ≠ none)
    (hn : NameLive s a.name) :
    Reports s a .invalidArgs none s ↔ ¬ a.Valid ∧ a.sptr = some none := by
  have hvalid : a.OthersValid → a.Valid := fun hv => ⟨hv, hl.isValidString hn⟩
  constructor
  · intro hr
    -- with valid arguments the code should have been the other one
    have hbad : ¬ a.Valid := by
      intro hv
      have hexists := hr.alreadyExists.mpr ⟨hv.1, hn⟩
      exact absurd hexists (by decide)
    refine ⟨hbad, ?_⟩
    obtain ⟨p, hp⟩ := Option.ne_none_iff_exists'.mp hs
    rw [hp, ← (hr.untouched (.inr hbad)).2 p hp]
  · rintro ⟨hbad, hnull⟩
    refine ⟨⟨fun heq => absurd heq (by decide), fun hv => absurd (hvalid hv.1) hbad⟩,
      fun _ => rfl, fun _ => ⟨.refl _, ?_⟩⟩
    intro p hp
    rw [hnull] at hp
    exact Option.some.inj hp

/-- The answer to a call without workers is right when it comes from the barrier,
and `*sptr` had nothing to lose. -/
theorem Returns.reports_noWorkers_iff (h : Returns s t a mem env ret sptr s') (hl : ListsLive s)
    (henv : env.Usual) (hv : a.OnlyNoWorkers) (hn : ¬ NameLive s a.name) :
    Reports s a ret sptr s' ↔
      a.sptr = some none ∧ mem ≠ none ∧ firstFailure env.locks = .ok := by
  have hbad : ¬ a.Valid := fun h' => absurd hv.2.1 h'.1.2.ne'
  obtain ⟨rfl, hret, huntouched⟩ := h.noWorkers hl hv hn
  constructor
  · intro hr
    obtain ⟨p, hsptr⟩ := Option.ne_none_iff_exists'.mp hv.1.sptr
    have hnull : a.sptr = some none := by
      rw [hsptr, ← (hr.untouched (.inr hbad)).2 p hsptr]
    rw [hr.invalidArgs hbad] at hret
    have hmem : mem ≠ none := by
      intro hmem
      rw [if_pos ⟨hnull, hmem⟩] at hret
      exact absurd hret (by decide)
    rw [if_neg fun hc => hmem hc.2] at hret
    exact ⟨hnull, hmem, henv.creations_zero_iff.mp hret.symm⟩
  · rintro ⟨hnull, hmem, hlocks⟩
    rw [if_neg fun hc => hmem hc.2, henv.creations_zero_iff.mpr hlocks] at hret
    refine ⟨⟨fun heq => ?_, fun hc => absurd hc.2 hn⟩, fun _ => hret, fun _ => ?_⟩
    · rw [hret] at heq
      exact absurd heq (by decide)
    · refine ⟨huntouched hnull, fun p hsptr => ?_⟩
      rw [hnull] at hsptr
      exact Option.some.inj hsptr

/-- **A create reports the right reason, and touches nothing, exactly when its
arguments are valid and the name is new; or another argument is invalid while
the name is taken and `*sptr` is NULL anyway; or there are no workers, nothing
else is wrong, `*sptr` is NULL anyway and the call gets as far as its barrier.** -/
theorem create_reports_iff (hl : ListsLive s) (henv : env.Usual)
    (h : Returns s t a mem env ret sptr s') :
    Reports s a ret sptr s' ↔
      (a.Valid ∧ ¬ NameLive s a.name) ∨
      (¬ a.Valid ∧ NameLive s a.name ∧ a.sptr = some none) ∨
      (a.OnlyNoWorkers ∧ ¬ NameLive s a.name ∧ a.sptr = some none ∧ mem ≠ none ∧
        firstFailure env.locks = .ok) := by
  -- the check finds a stage, lets the call through, or refuses it
  by_cases hfound : a.sptr ≠ none ∧ NameLive s a.name
  · obtain ⟨hs, hn⟩ := hfound
    obtain ⟨rfl, rfl, rfl⟩ := h.refused (create_found hl hs hn)
    rw [hl.reports_found_iff hs hn]
    constructor
    · rintro ⟨hbad, hnull⟩
      exact .inr (.inl ⟨hbad, hn, hnull⟩)
    · intro hc
      rcases hc with hc | hc | hc
      · exact absurd hn hc.2
      · exact ⟨hc.1, hc.2.2⟩
      · exact absurd hn hc.2.1
  by_cases hpass : a.Passes ∧ isValidString a.name
  · obtain ⟨hp, hname⟩ := hpass
    have hn : ¬ NameLive s a.name := fun hn => hfound ⟨hp.sptr, hn⟩
    by_cases hw : 0 < a.n_workers
    · have hv : a.Valid := ⟨⟨hp, hw⟩, hname⟩
      have hne := h.passed henv hl hv hn
      refine iff_of_true ⟨?_, fun hbad => absurd hv hbad, ?_⟩ (.inl ⟨hv, hn⟩)
      · exact ⟨fun heq => absurd heq hne, fun hc => absurd hc.2 hn⟩
      · intro hc
        exact absurd hc (by simp [hv, hn])
    · have hv : a.OnlyNoWorkers := ⟨hp, by omega, hname⟩
      rw [h.reports_noWorkers_iff hl henv hv hn]
      constructor
      · intro hc
        exact .inr (.inr ⟨hv, hn, hc⟩)
      · intro hc
        rcases hc with hc | hc | hc
        · exact absurd hc.1.1.2 hw
        · exact absurd hc.2.1 hn
        · exact hc.2.2
  · obtain ⟨rfl, rfl, rfl⟩ := h.refused (create_unfound hl hpass hfound)
    have hbad : ¬ a.Valid := fun hv => hpass ⟨hv.1.1, hv.2⟩
    constructor
    · intro hr
      exact absurd (hr.invalidArgs hbad) (by decide)
    · intro hc
      rcases hc with ⟨hv, -⟩ | ⟨-, hn, hnull⟩ | ⟨hv, -⟩
      · exact absurd hv hbad
      · exact absurd ⟨by simp [hnull], hn⟩ hfound
      · exact absurd ⟨hv.1, hv.2.2⟩ hpass

/-- Between calls, a registry that no failed create has hit lists its live stages. -/
theorem listsLive_run {ls : List (Label τ α)}
    (hrun : Run (restrict (restrict Step Proper) Harmless) (Registry.empty τ α) ls s)
    (hidle : ∀ t, s.call t = .idle) : ListsLive s := by
  have hkeep : ∀ (u : Registry τ α) (m : Label τ α) (u' : Registry τ α), Inv u →
      restrict (restrict Step Proper) Harmless u m u' → Inv u' :=
    fun u m u' hi hstep => hi.step hstep.1.1 hstep.1.2 hstep.2
  have hinv : Inv s := hrun.invariant hkeep Inv.empty
  refine ⟨hinv.consistent hidle, ?_⟩
  intro ps n hlive
  exact (hinv.record ps n (by rw [hlive]; rfl)).2

/-- A check that refuses is a whole call. -/
theorem returns_refused (ht : s.call t = .idle)
    (hcreate : create s t a = (.created ret sptr, s')) : Returns s t a mem env ret sptr s' := by
  refine ⟨[], ⟨.create t a, .created ret sptr⟩, ?_, rfl, by simp, rfl, rfl⟩
  refine .cons ⟨⟨.create t a, ?_⟩, fun _ _ _ hmake => absurd hmake (by simp)⟩ (.nil s')
  unfold next
  rw [show s.call (Action.create t a).thread = .idle from ht]
  dsimp only
  rw [hcreate]

end

/-- After one create of `x` the registry lists one live stage. -/
theorem one_live_stage :
    ∃ (ls : List (Label Bool Nat)) (s : Registry Bool Nat),
      Run (restrict (restrict Step Proper) Harmless) (Registry.empty Bool Nat) ls s ∧
      ListsLive s ∧ s.life 0 = .live "x" ∧ ∀ t, s.call t = .idle := by
  have hexec : ∃ p, exec next (Registry.empty Bool Nat)
      [.create false (.plain Nat), .make false (some 0) .fine, .addName false true,
        .addObj false true] = some p ∧
      p.2.life 0 = .live "x" ∧ p.2.call false = .idle ∧ p.2.call true = .idle :=
    ⟨_, rfl, rfl, rfl, rfl⟩
  obtain ⟨⟨ls, s⟩, hexec, hlive, hf, ht⟩ := hexec
  have hidle : ∀ t, s.call t = .idle := by
    intro t
    cases t
    · exact hf
    · exact ht
  have hother : ∀ {s s' : Registry Bool Nat} {l : Label Bool Nat},
      (∀ t, l.action ≠ .deleteName t) → Harmless s l s' :=
    fun hne t _ _ _ ha => absurd ha (hne t)
  have hchecked : Checked next (fun s l s' => Proper s l s' ∧ Harmless s l s')
      (Registry.empty Bool Nat)
      [.create false (.plain Nat), .make false (some 0) .fine, .addName false true,
        .addObj false true] := by
    -- the create asks for new memory
    have hnew : ∀ (a : Args Nat) (ps : Nat), Call.allocating (.plain Nat) = .allocating a →
        a.sptr = some (some ps) → (Registry.empty Bool Nat).life ps = .unused :=
      fun _ _ _ _ => rfl
    exact ⟨⟨trivial, hother (by simp)⟩, ⟨hnew, hother (by simp)⟩, ⟨trivial, hother (by simp)⟩,
      ⟨trivial, hother (by simp)⟩, trivial⟩
  have hrun : Run (restrict (restrict Step Proper) Harmless) (Registry.empty Bool Nat) ls s :=
    (run_of_checked hexec hchecked).mono fun _ _ _ h => ⟨⟨h.1, h.2.1⟩, h.2.2⟩
  exact ⟨ls, s, hrun, listsLive_run hrun hidle, hlive, hidle⟩

/-- A taken name, no event size and a NULL handle: the arguments are called
invalid, which they are. -/
theorem create_reports_invalid :
    ∃ (s : Registry Bool Nat), s.life 0 = .live "x" ∧
      Returns s true { Args.plain Nat with event_size := 0 } none .fine .invalidArgs none s ∧
      Reports s { Args.plain Nat with event_size := 0 } .invalidArgs none s := by
  obtain ⟨-, s, -, hl, hlive, hidle⟩ := one_live_stage
  have hn : NameLive s (some "x") := ⟨"x", 0, rfl, hlive⟩
  have hret : Returns s true { Args.plain Nat with event_size := 0 } none .fine .invalidArgs none
      s :=
    returns_refused (hidle true) (create_found hl (by simp [Args.plain]) hn)
  refine ⟨s, hlive, hret, (create_reports_iff hl .fine hret).mpr (.inr (.inl ⟨?_, hn, rfl⟩))⟩
  intro hv
  exact absurd hv.1.1.event_size (by simp)

/-- A stage named `x` is there.  A second create of `x` with valid arguments is
told that they are invalid; one without a name, that the stage exists; and one
of `x` without an event size, with the stage's own handle, loses the handle. -/
theorem create_swaps_reasons :
    ∃ (ls : List (Label Bool Nat)) (s : Registry Bool Nat),
      Run (restrict (restrict Step Proper) Harmless) (Registry.empty Bool Nat) ls s ∧
      s.life 0 = .live "x" ∧
      (Returns s true (.plain Nat) none .fine .invalidArgs none s ∧
        ¬ Reports s (.plain Nat) .invalidArgs none s) ∧
      (Returns s true { Args.plain Nat with name := none } none .fine .alreadyExists none s ∧
        ¬ Reports s { Args.plain Nat with name := none } .alreadyExists none s) ∧
      (Returns s true { Args.plain Nat with sptr := some (some 0), event_size := 0 }
          none .fine .invalidArgs none s ∧
        ¬ Reports s { Args.plain Nat with sptr := some (some 0), event_size := 0 }
          .invalidArgs none s) := by
  obtain ⟨ls, s, hrun, hl, hlive, hidle⟩ := one_live_stage
  have hn : NameLive s (some "x") := ⟨"x", 0, rfl, hlive⟩
  have hothers : (Args.plain Nat).OthersValid :=
    ⟨⟨by simp [Args.plain], by decide, by decide, rfl, rfl⟩, by decide⟩
  have hnovalid : ¬ Args.Valid { Args.plain Nat with name := none } := by
    intro hv
    exact absurd hv.2 (by decide)
  have hnobatch : ¬ Args.Valid { Args.plain Nat with sptr := some (some 0), event_size := 0 } := by
    intro hv
    exact absurd hv.1.1.event_size (by simp)
  refine ⟨ls, s, hrun, hlive, ⟨?_, ?_⟩, ⟨?_, ?_⟩, ?_, ?_⟩
  · exact returns_refused (hidle true) (create_found hl (by simp [Args.plain]) hn)
  · intro hr
    exact absurd (hr.alreadyExists.mpr ⟨hothers, hn⟩) (by decide)
  · refine returns_refused (hidle true) (create_unfound hl (fun hc => ?_) ?_)
    · exact absurd hc.2 (by decide)
    intro hc
    obtain ⟨n, ps, hname, -⟩ := hc.2
    exact absurd hname (by simp)
  · intro hr
    exact absurd (hr.invalidArgs hnovalid) (by decide)
  · exact returns_refused (hidle true) (create_found hl (by simp) hn)
  · intro hr
    exact absurd ((hr.untouched (.inr hnobatch)).2 (some 0) rfl) (by simp)

end Mccp.Pipeline
