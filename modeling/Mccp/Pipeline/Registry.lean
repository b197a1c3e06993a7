/-
  Mccp.Pipeline.Registry
  ──────────────────────
  **THE TWO TABLES OF PIPELINE STAGES, AND WHO WRITES THEM.**

  mccp_pipeline_stage_create(), _destroy() and _find() of pipeline_stage.c,
  called by any number of threads.  One call of a hashmap is one step; what a
  call does between two of them touches only the stage it makes or destroys,
  and is one step as well.

      create, make, addName, addObj    — a create: check, init, s_add_stage()
      deleteObj, deleteName, free      — s_destroy_stage() of both callers
      Life                             — what the entries of a stage should be
      step_life                        — nobody else's life goes on

  `life` is read by nothing but the allocator, which hands out no memory that
  is in use: it records how far each stage has got.
-/
import Mccp.Hashmap.Map
import Mccp.Lib.Transition
import Mccp.Pipeline.Stage

namespace Mccp.Pipeline

open Hashmap Transition

/-! ## §1. Stages, calls, tables. -/

/-- How far a stage has got. -/
inductive Life where
  /-- The memory is not in use. -/
  | unused
  /-- Some call has the stage, in no table. -/
  | made
  /-- Some call has the stage, in `s_ps_name_tbl` only. -/
  | named (n : String)
  /-- Created, and not being destroyed. -/
  | live (n : String)
  /-- Being destroyed, still in both tables. -/
  | dying (n : String)
  deriving DecidableEq, Repr

/-- The name under which the stage should be found. -/
def Life.name? : Life → Option String
  | .named n => some n
  | .live n => some n
  | .dying n => some n
  | _ => none

/-- The stage should be in `s_ps_obj_tbl`. -/
def Life.isListed : Life → Bool
  | .live _ => true
  | .dying _ => true
  | _ => false

/-- Some call has the stage. -/
def Life.isOwned : Life → Bool
  | .made => true
  | .named _ => true
  | .dying _ => true
  | _ => false

/-- The create of a named stage succeeds. -/
def Life.list : Life → Life
  | .named n => .live n
  | l => l

/-- A destroy has found the stage. -/
def Life.kill : Life → Life
  | .live n => .dying n
  | l => l

/-- The entry in `s_ps_obj_tbl` goes. -/
def Life.unlist : Life → Life
  | .live n => .named n
  | .dying n => .named n
  | l => l

/-- The entry in `s_ps_name_tbl` goes. -/
def Life.unname : Life → Life
  | .named _ => .made
  | l => l

/-- Who calls `s_destroy_stage`: a destroy, or a create that failed. -/
inductive Cleanup where
  | destroy
  | failed (ret : Result)
  deriving DecidableEq, Repr

/-- Where a thread is. -/
inductive Call (α : Type) where
  | idle
  /-- In a create whose check has passed. -/
  | allocating (a : Args α)
  /-- In `s_add_stage`, before each of its two adds. -/
  | addingName (ps : α)
  | addingObj (ps : α)
  /-- In `s_destroy_stage`, before each of its two deletes and before the end. -/
  | deletingObj (ps : α) (why : Cleanup)
  | deletingName (ps : α) (why : Cleanup)
  | freeing (ps : α) (why : Cleanup)
  deriving DecidableEq, Repr

/-- The stage a call works on. -/
def Call.stage? {α : Type} : Call α → Option α
  | .idle => none
  | .allocating _ => none
  | .addingName ps => some ps
  | .addingObj ps => some ps
  | .deletingObj ps _ => some ps
  | .deletingName ps _ => some ps
  | .freeing ps _ => some ps

/-- The call is a create. -/
def Call.isCreate {α : Type} : Call α → Bool
  | .idle => false
  | .allocating _ => true
  | .addingName _ => true
  | .addingObj _ => true
  | .deletingObj _ why => why ≠ .destroy
  | .deletingName _ why => why ≠ .destroy
  | .freeing _ why => why ≠ .destroy

/-- The tables, the memory and the threads. -/
structure Registry (τ α : Type) where
  s_ps_name_tbl : Map String α
  s_ps_obj_tbl : Map α Bool
  record : α → StageRecord
  call : τ → Call α
  life : α → Life

/-- No stage and no call. -/
def Registry.empty (τ α : Type) : Registry τ α where
  s_ps_name_tbl := ∅
  s_ps_obj_tbl := ∅
  record := fun _ => .zero
  call := fun _ => .idle
  life := fun _ => .unused

/-- What a scheduler can choose. -/
inductive Action (τ α : Type) where
  | create (t : τ) (a : Args α)
  /-- mccp_pipeline_stage_destroy(); `sptr` is what the pointer points to. -/
  | destroy (t : τ) (sptr : Option (Option α))
  | find (t : τ) (name : Option String) (retptr : Bool)
  /-- Memory for the stage, and `s_init_stage`. -/
  | make (t : τ) (mem : Option α) (env : InitEnv)
  /-- `room` tells whether an entry can be allocated. -/
  | addName (t : τ) (room : Bool)
  | addObj (t : τ) (room : Bool)
  | deleteObj (t : τ)
  | deleteName (t : τ)
  | free (t : τ)

/-- The thread that takes the step. -/
def Action.thread {τ α : Type} : Action τ α → τ
  | .create t _ => t
  | .destroy t _ => t
  | .find t _ _ => t
  | .make t _ _ => t
  | .addName t _ => t
  | .addObj t _ => t
  | .deleteObj t => t
  | .deleteName t => t
  | .free t => t

/-- What the caller sees of a step: a create's result and `*sptr`, a find's
result and `*retptr`. -/
inductive Outcome (α : Type) where
  | quiet
  | created (ret : Result) (sptr : Option α)
  | destroyed
  | found (ret : Result) (ps : Option α)
  deriving DecidableEq, Repr

/-- A choice and what is seen of it. -/
structure Label (τ α : Type) where
  action : Action τ α
  outcome : Outcome α

/-! ## §2. The steps of the calls. -/

variable {τ α : Type} [DecidableEq τ] [DecidableEq α]

/-- The registry with a thread moved. -/
def Registry.move (s : Registry τ α) (t : τ) (c : Call α) : Registry τ α :=
  { s with call := Function.update s.call t c }

/-- The registry with a stage's life gone on. -/
def Registry.lead (s : Registry τ α) (ps : α) (l : Life) : Registry τ α :=
  { s with life := Function.update s.life ps l }

/-- `s_is_stage`. -/
def Registry.isStage (s : Registry τ α) (ps : α) : Bool :=
  (s.s_ps_obj_tbl.find ps).1 = .ok ∧ (s.s_ps_obj_tbl.find ps).2 = some true

/-- `s_find_stage`. -/
def Registry.findStage (s : Registry τ α) (name : Option String) : Option α :=
  match name with
  | some n => if isValidString name then (s.s_ps_name_tbl.find n).2 else none
  | none => none

/-- The check of `mccp_pipeline_stage_create`. -/
def create (s : Registry τ α) (t : τ) (a : Args α) : Outcome α × Registry τ α :=
  -- looked up before anything is made, and not again
  let checked_ps := if a.sptr ≠ none ∧ isValidString a.name then s.findStage a.name else none
  if a.sptr ≠ none ∧ isValidString a.name ∧ checked_ps = none ∧ 0 < a.event_size ∧
      0 < a.max_batch_size ∧ a.sched_proc ∧
      (a.main_proc ∨ (a.fetch_proc ∧ a.main_proc) ∨ (a.main_proc ∧ a.throw_proc) ∨
        (a.fetch_proc ∧ a.main_proc ∧ a.throw_proc)) then
    (.quiet, s.move t (.allocating a))
  else if checked_ps ≠ none then (.created .invalidArgs none, s)
  else (.created .alreadyExists none, s)

/-- A create with the memory `ps`, up to `s_add_stage`. -/
def prepare (s : Registry τ α) (t : τ) (a : Args α) (ps : α) (is_heap_allocd : Bool)
    (env : InitEnv) : Outcome α × Registry τ α :=
  let (ret, r) := initStage env a is_heap_allocd (s.record ps)
  let s := { s with record := Function.update s.record ps r }.lead ps .made
  if ret = .ok then (.quiet, s.move t (.addingName ps))
  else (.quiet, s.move t (.deletingObj ps (.failed ret)))

/-- A create after its check: malloc() hands out memory that is not in use, or
the caller's memory is taken as it is. -/
def make (s : Registry τ α) (t : τ) (a : Args α) (mem : Option α) (env : InitEnv) :
    Option (Outcome α × Registry τ α) :=
  match a.sptr with
  | some (some ps) => some (prepare s t a ps false env)
  | some none =>
      match mem with
      | some ps => if s.life ps = .unused then some (prepare s t a ps true env) else none
      | none => some (.created .noMemory none, s.move t .idle)
  | none => none

/-- The first half of `s_add_stage`. -/
def addName (s : Registry τ α) (t : τ) (ps : α) (room : Bool) : Outcome α × Registry τ α :=
  match (s.record ps).m_name with
  | some n =>
      if isValidString (some n) then
        -- no overwriting: a name that is there stays its owner's
        let (ret, _, tbl) := s.s_ps_name_tbl.add n ps false room
        if ret = .ok then
          (.quiet, ({ s with s_ps_name_tbl := tbl }.lead ps (.named n)).move t (.addingObj ps))
        else (.quiet, { s with s_ps_name_tbl := tbl }.move t (.deletingObj ps (.failed ret)))
      else (.quiet, s.move t (.deletingObj ps (.failed .invalidArgs)))
  | none => (.quiet, s.move t (.deletingObj ps (.failed .invalidArgs)))

/-- The second half of `s_add_stage`; the create returns if it succeeds. -/
def addObj (s : Registry τ α) (t : τ) (ps : α) (room : Bool) : Outcome α × Registry τ α :=
  let (ret, _, tbl) := s.s_ps_obj_tbl.add ps true true room
  if ret = .ok then
    (.created .ok (some ps),
      ({ s with s_ps_obj_tbl := tbl }.lead ps (s.life ps).list).move t .idle)
  else (.quiet, { s with s_ps_obj_tbl := tbl }.move t (.deletingObj ps (.failed ret)))

/-- `mccp_pipeline_stage_destroy`, up to `s_delete_stage`. -/
def destroy (s : Registry τ α) (t : τ) (sptr : Option (Option α)) : Outcome α × Registry τ α :=
  match sptr with
  | some (some ps) =>
      if s.isStage ps then
        let r := { s.record ps with m_status := .destroying }
        (.quiet, ({ s with record := Function.update s.record ps r }.lead ps
          (s.life ps).kill).move t (.deletingObj ps .destroy))
      else (.destroyed, s)
  | _ => (.destroyed, s)

/-- `mccp_pipeline_stage_find`. -/
def find (s : Registry τ α) (name : Option String) (retptr : Bool) : Outcome α :=
  if isValidString name ∧ retptr then
    match s.findStage name with
    | some ps => .found .ok (some ps)
    | none => .found .notFound none
  else .found .invalidArgs none

/-- The first half of `s_delete_stage`. -/
def deleteObj (s : Registry τ α) (t : τ) (ps : α) (why : Cleanup) : Registry τ α :=
  let (_, _, tbl) := s.s_ps_obj_tbl.delete ps
  ({ s with s_ps_obj_tbl := tbl }.lead ps (s.life ps).unlist).move t (.deletingName ps why)

/-- The second half of `s_delete_stage`: whatever stage has the name. -/
def deleteName (s : Registry τ α) (t : τ) (ps : α) (why : Cleanup) : Registry τ α :=
  match (s.record ps).m_name with
  | some n =>
      if isValidString (some n) then
        -- by name: the entry may be another stage's
        let (_, _, tbl) := s.s_ps_name_tbl.delete n
        ({ s with s_ps_name_tbl := tbl }.lead ps (s.life ps).unname).move t (.freeing ps why)
      else s.move t (.freeing ps why)
  | none => s.move t (.freeing ps why)

/-- The end of `s_destroy_stage`, and of the call. -/
def free (s : Registry τ α) (t : τ) (ps : α) (why : Cleanup) : Outcome α × Registry τ α :=
  match why with
  | .destroy => (.destroyed, (s.lead ps .unused).move t .idle)
  | .failed ret => (.created ret none, (s.lead ps .unused).move t .idle)

/-! ## §3. All threads. -/

/-- **One step**; `none` when the choice is not open. -/
def next (s : Registry τ α) (a : Action τ α) : Option (Label τ α × Registry τ α) :=
  match a, s.call a.thread with
  | .create t args, .idle => let (o, s) := create s t args; some (⟨a, o⟩, s)
  | .destroy t sptr, .idle => let (o, s) := destroy s t sptr; some (⟨a, o⟩, s)
  | .find _ name retptr, .idle => some (⟨a, find s name retptr⟩, s)
  | .make t mem env, .allocating args =>
      (make s t args mem env).map (fun r => (⟨a, r.1⟩, r.2))
  | .addName t room, .addingName ps => let (o, s) := addName s t ps room; some (⟨a, o⟩, s)
  | .addObj t room, .addingObj ps => let (o, s) := addObj s t ps room; some (⟨a, o⟩, s)
  | .deleteObj t, .deletingObj ps why => some (⟨a, .quiet⟩, deleteObj s t ps why)
  | .deleteName t, .deletingName ps why => some (⟨a, .quiet⟩, deleteName s t ps why)
  | .free t, .freeing ps why => let (o, s) := free s t ps why; some (⟨a, o⟩, s)
  | _, _ => none

/-- The transition relation over observations. -/
abbrev Step : Registry τ α → Label τ α → Registry τ α → Prop := observed next

/-- What a step can be. -/
inductive Moves (s : Registry τ α) (l : Label τ α) (s' : Registry τ α) : Prop
  | create (t : τ) (a : Args α) (ha : l.action = .create t a) (ht : s.call t = .idle)
      (ho : l.outcome = (create s t a).1) (hs : s' = (create s t a).2)
  | destroy (t : τ) (sptr : Option (Option α)) (ha : l.action = .destroy t sptr)
      (ht : s.call t = .idle) (ho : l.outcome = (destroy s t sptr).1)
      (hs : s' = (destroy s t sptr).2)
  | find (t : τ) (name : Option String) (retptr : Bool) (ha : l.action = .find t name retptr)
      (ht : s.call t = .idle) (ho : l.outcome = find s name retptr) (hs : s' = s)
  | make (t : τ) (mem : Option α) (env : InitEnv) (a : Args α) (ha : l.action = .make t mem env)
      (ht : s.call t = .allocating a) (hs : make s t a mem env = some (l.outcome, s'))
  | addName (t : τ) (room : Bool) (ps : α) (ha : l.action = .addName t room)
      (ht : s.call t = .addingName ps) (ho : l.outcome = (addName s t ps room).1)
      (hs : s' = (addName s t ps room).2)
  | addObj (t : τ) (room : Bool) (ps : α) (ha : l.action = .addObj t room)
      (ht : s.call t = .addingObj ps) (ho : l.outcome = (addObj s t ps room).1)
      (hs : s' = (addObj s t ps room).2)
  | deleteObj (t : τ) (ps : α) (why : Cleanup) (ha : l.action = .deleteObj t)
      (ht : s.call t = .deletingObj ps why) (ho : l.outcome = .quiet)
      (hs : s' = deleteObj s t ps why)
  | deleteName (t : τ) (ps : α) (why : Cleanup) (ha : l.action = .deleteName t)
      (ht : s.call t = .deletingName ps why) (ho : l.outcome = .quiet)
      (hs : s' = deleteName s t ps why)
  | free (t : τ) (ps : α) (why : Cleanup) (ha : l.action = .free t)
      (ht : s.call t = .freeing ps why) (ho : l.outcome = (free s t ps why).1)
      (hs : s' = (free s t ps why).2)

/-- **Every step is one of the nine.** -/
theorem step_cases {s s' : Registry τ α} {l : Label τ α} (h : Step s l s') : Moves s l s' := by
  obtain ⟨a, ha⟩ := h
  unfold next at ha
  split at ha
  next t args ht =>
    cases ha
    exact .create t args rfl ht rfl rfl
  next t sptr ht =>
    cases ha
    exact .destroy t sptr rfl ht rfl rfl
  next t name retptr ht =>
    cases ha
    exact .find t name retptr rfl ht rfl rfl
  next t mem env args ht =>
    obtain ⟨r, hr, hl⟩ := Option.map_eq_some_iff.mp ha
    cases hl
    exact .make t mem env args rfl ht hr
  next t room ps ht =>
    cases ha
    exact .addName t room ps rfl ht rfl rfl
  next t room ps ht =>
    cases ha
    exact .addObj t room ps rfl ht rfl rfl
  next t ps why ht =>
    cases ha
    exact .deleteObj t ps why rfl ht rfl rfl
  next t ps why ht =>
    cases ha
    exact .deleteName t ps why rfl ht rfl rfl
  next t ps why ht =>
    cases ha
    exact .free t ps why rfl ht rfl rfl
  next => exact absurd ha (by simp)

/-! ## §4. What a step leaves alone. -/

variable {s s' : Registry τ α} {l : Label τ α} {t : τ} {ps q : α}

/-- A delete by name is a delete by name. -/
theorem step_deleteName {why : Cleanup} (h : Step s l s') (ha : l.action = .deleteName t)
    (ht : s.call t = .deletingName ps why) : s' = deleteName s t ps why := by
  cases step_cases h with
  | deleteName t' ps' why' ha' ht' ho hs =>
    rw [ha] at ha'
    cases ha'
    rw [ht] at ht'
    cases ht'
    exact hs
  | create t' a' ha' => exact absurd (ha.symm.trans ha') (by simp)
  | destroy t' p' ha' => exact absurd (ha.symm.trans ha') (by simp)
  | find t' n' r' ha' => exact absurd (ha.symm.trans ha') (by simp)
  | make t' m' e' a' ha' => exact absurd (ha.symm.trans ha') (by simp)
  | addName t' r' p' ha' => exact absurd (ha.symm.trans ha') (by simp)
  | addObj t' r' p' ha' => exact absurd (ha.symm.trans ha') (by simp)
  | deleteObj t' p' w' ha' => exact absurd (ha.symm.trans ha') (by simp)
  | free t' p' w' ha' => exact absurd (ha.symm.trans ha') (by simp)

omit [DecidableEq α] in
/-- A call that has passed the check of mccp_pipeline_stage_create(). -/
theorem create_cases (s : Registry τ α) (t : τ) (a : Args α) :
    (create s t a).2 = s ∨
    ((create s t a).2 = s.move t (.allocating a) ∧ isValidString a.name = true ∧
      a.main_proc = true) := by
  unfold create
  dsimp only
  generalize (if a.sptr ≠ none ∧ isValidString a.name then s.findStage a.name else none) =
    checked_ps
  split
  next hc =>
    obtain ⟨-, hname, -, -, -, -, hproc⟩ := hc
    refine .inr ⟨rfl, hname, ?_⟩
    rcases hproc with h | ⟨-, h⟩ | ⟨h, -⟩ | ⟨-, h, -⟩ <;> exact h
  next => split <;> exact .inl rfl

/-- A make prepares a stage, in the caller's memory or in new memory, or there
is no memory. -/
theorem make_cases {a : Args α} {mem : Option α} {env : InitEnv} {o : Outcome α}
    (h : make s t a mem env = some (o, s')) :
    (∃ ps heap, s' = (prepare s t a ps heap env).2 ∧
      (a.sptr = some (some ps) ∨ s.life ps = .unused)) ∨ s' = s.move t .idle := by
  unfold make at h
  split at h
  next ps hsptr => exact .inl ⟨ps, false, (congrArg Prod.snd (Option.some.inj h)).symm, .inl hsptr⟩
  next =>
    split at h
    next ps =>
      split at h
      next hunused =>
        exact .inl ⟨ps, true, (congrArg Prod.snd (Option.some.inj h)).symm, .inr hunused⟩
      next => exact absurd h (by simp)
    next => exact .inr (congrArg Prod.snd (Option.some.inj h)).symm
  next => exact absurd h (by simp)

omit [DecidableEq τ] in
theorem lead_self (s : Registry τ α) (ps : α) : s.lead ps (s.life ps) = s := by
  unfold Registry.lead
  rw [Function.update_eq_self]

omit [DecidableEq τ] in
theorem lead_life_self (s : Registry τ α) (ps : α) (k : Life) : (s.lead ps k).life ps = k :=
  Function.update_self ..

omit [DecidableEq τ] in
theorem lead_life_of_ne (s : Registry τ α) (k : Life) (hq : q ≠ ps) :
    (s.lead ps k).life q = s.life q :=
  Function.update_of_ne hq ..

theorem prepare_life (a : Args α) (heap : Bool) (env : InitEnv) :
    (prepare s t a ps heap env).2.life = (s.lead ps .made).life := by
  unfold prepare
  dsimp only
  split <;> rfl

omit [DecidableEq α] in
theorem create_life (a : Args α) : (create s t a).2.life = s.life := by
  rcases create_cases s t a with hs | ⟨hs, -, -⟩
  · rw [hs]
  · rw [hs]
    rfl

theorem addName_life (room : Bool) (hq : q ≠ ps) : (addName s t ps room).2.life q = s.life q := by
  unfold addName
  split
  · split
    · dsimp only
      split
      · exact lead_life_of_ne _ _ hq
      · rfl
    · rfl
  · rfl

theorem addObj_life (room : Bool) (hq : q ≠ ps) : (addObj s t ps room).2.life q = s.life q := by
  unfold addObj
  dsimp only
  split
  · exact lead_life_of_ne _ _ hq
  · rfl

theorem deleteName_life (why : Cleanup) (hq : q ≠ ps) :
    (deleteName s t ps why).life q = s.life q := by
  unfold deleteName
  split
  · split
    · exact lead_life_of_ne _ _ hq
    · rfl
  · rfl

theorem free_life (why : Cleanup) : (free s t ps why).2.life = (s.lead ps .unused).life := by
  cases why <;> rfl

/-- **A life goes on in the hands of its own thread**, but for the stages that
are new or about to be destroyed. -/
theorem step_life (h : Step s l s') (hq : (s.call l.action.thread).stage? ≠ some q)
    (hmake : ∀ t mem env, l.action ≠ .make t mem env)
    (hdestroy : ∀ t sptr, l.action ≠ .destroy t sptr) : s'.life q = s.life q := by
  have hne : ∀ {t : τ} {ps : α}, l.action.thread = t → (s.call t).stage? = some ps → q ≠ ps := by
    intro t ps ht hps hqp
    rw [hqp, ht] at hq
    exact hq hps
  cases step_cases h with
  | create t a ha ht ho hs => rw [hs, create_life]
  | destroy t sptr ha ht ho hs => exact absurd ha (hdestroy t sptr)
  | find t name retptr ha ht ho hs => rw [hs]
  | make t mem env a ha ht hs => exact absurd ha (hmake t mem env)
  | addName t room ps ha ht ho hs =>
    rw [hs]
    exact addName_life room (hne (t := t) (by rw [ha]; rfl) (by rw [ht]; rfl))
  | addObj t room ps ha ht ho hs =>
    rw [hs]
    exact addObj_life room (hne (t := t) (by rw [ha]; rfl) (by rw [ht]; rfl))
  | deleteObj t ps why ha ht ho hs =>
    rw [hs]
    exact lead_life_of_ne _ _ (hne (t := t) (by rw [ha]; rfl) (by rw [ht]; rfl))
  | deleteName t ps why ha ht ho hs =>
    rw [hs]
    exact deleteName_life why (hne (t := t) (by rw [ha]; rfl) (by rw [ht]; rfl))
  | free t ps why ha ht ho hs =>
    rw [hs, free_life]
    exact lead_life_of_ne _ _ (hne (t := t) (by rw [ha]; rfl) (by rw [ht]; rfl))

end Mccp.Pipeline
