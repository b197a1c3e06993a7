/-
  Mccp.Modules.Registry
  ─────────────────────
  **THE TABLE OF MODULES OF module.c.**

  An array of at most MAX_MODULES records, each with the name of its module,
  filled from the front.  One lookup serves the registration and the search by
  name; both call it without a place for the record, and then its loop never
  stops at the module it looks for.

      AModule         — `a_module`
      sFindModule     — s_find_module()
      register, find  — mccp_module_register(), mccp_module_find()
      one_to_one_iff  — when the table is a one-to-one name table
-/
import Mathlib.Data.List.Nodup
import Mccp.Lib.CString
import Mccp.Result

namespace Mccp.Modules

open CString (isValidString)

/-! ## §1. The table. -/

/-- `a_module_state_t`. -/
inductive ModuleState where
  | unknown
  | registered
  | initialized
  | started
  | shutdown
  | cancelling
  | stopped
  | finalized
  deriving DecidableEq, Repr

/-- `a_module`; of each procedure and of the thread, whether it is given.  The
name is what stands before its terminator. -/
structure AModule where
  m_name : List Char
  m_init_proc : Bool
  m_init_arg : Nat
  m_thdptr : Bool
  m_start_proc : Bool
  m_shutdown_proc : Bool
  m_stop_proc : Bool
  m_finalize_proc : Bool
  m_status : ModuleState
  deriving DecidableEq, Repr

/-- `MAX_MODULES`. -/
def maxModules : Nat := 1024

/-- `MAX_MODULE_NAME`. -/
def maxModuleName : Nat := 64

/-- The loop of `s_find_module` from index `i` on; `retmptr` tells whether a
place for the record is given. -/
def findLoop (name : List Char) (retmptr : Bool) : List AModule → Nat → Option Nat
  | [], _ => none
  | m :: ms, i =>
      if m.m_name = name then
        -- without a place for the record the loop goes on
        if retmptr then some i else findLoop name retmptr ms (i + 1)
      else findLoop name retmptr ms (i + 1)

/-- `s_find_module`: the result, and the index of the record it stores. -/
def sFindModule (s_modules : List AModule) (name : Option (List Char)) (retmptr : Bool) :
    Result × Option Nat :=
  match name with
  | none => (.invalidArgs, none)
  | some name =>
      if isValidString (some name) then
        match findLoop name retmptr s_modules 0 with
        | some i => (i, some i)
        | none => (.notFound, none)
      else (.invalidArgs, none)

/-- The arguments of `mccp_module_register`; of each procedure, whether it is given. -/
structure RegisterArgs where
  name : Option (List Char)
  init_proc : Bool
  extarg : Nat
  start_proc : Bool
  shutdown_proc : Bool
  stop_proc : Bool
  finalize_proc : Bool
  deriving DecidableEq, Repr

/-- The record that a registration fills: snprintf() cuts the name. -/
def RegisterArgs.record (a : RegisterArgs) : AModule where
  m_name := (a.name.getD []).take (maxModuleName - 1)
  m_init_proc := a.init_proc
  m_init_arg := a.extarg
  m_thdptr := false
  m_start_proc := a.start_proc
  m_shutdown_proc := a.shutdown_proc
  m_stop_proc := a.stop_proc
  m_finalize_proc := a.finalize_proc
  m_status := .registered

/-- `mccp_module_register`: the result and the table. -/
def register (s_modules : List AModule) (a : RegisterArgs) : Result × List AModule :=
  if s_modules.length < maxModules then
    if isValidString a.name ∧ a.init_proc ∧ a.start_proc ∧ a.shutdown_proc ∧ a.finalize_proc then
      if (sFindModule s_modules a.name false).1 = .notFound then
        (.ok, s_modules ++ [a.record])
      else (.alreadyExists, s_modules)
    else (.invalidArgs, s_modules)
  else (.noMemory, s_modules)

/-- `mccp_module_find`. -/
def find (s_modules : List AModule) (name : Option (List Char)) : Result :=
  (sFindModule s_modules name false).1

/-- The table after some registrations, from an empty one. -/
def registerAll (calls : List RegisterArgs) : List AModule :=
  calls.foldl (fun ms a => (register ms a).2) []

/-! ## §2. What the lookup finds. -/

/-- Without a place for the record the loop finds nothing. -/
theorem findLoop_none (name : List Char) (ms : List AModule) (i : Nat) :
    findLoop name false ms i = none := by
  induction ms generalizing i with
  | nil => rfl
  | cons m ms ih =>
    unfold findLoop
    split
    · exact ih (i + 1)
    · exact ih (i + 1)

/-- **No name is ever found**, whatever the table. -/
theorem sFindModule_notFound (ms : List AModule) {name : List Char}
    (h : isValidString (some name) = true) :
    sFindModule ms (some name) false = (.notFound, none) := by
  unfold sFindModule
  simp only [h, if_true, findLoop_none]

/-! ## §3. Sequences of registrations. -/

/-- A registration with valid procedures and a name that fits. -/
structure RegisterArgs.Valid (a : RegisterArgs) : Prop where
  name : ∃ s : CString, s.chars ≠ [] ∧ s.chars.length < maxModuleName ∧ a.name = some s.chars
  init_proc : a.init_proc = true
  start_proc : a.start_proc = true
  shutdown_proc : a.shutdown_proc = true
  finalize_proc : a.finalize_proc = true

theorem RegisterArgs.Valid.record_name {a : RegisterArgs} (h : a.Valid) :
    a.name = some a.record.m_name ∧ isValidString a.name = true := by
  obtain ⟨s, hne, hlen, hs⟩ := h.name
  have htake : a.record.m_name = s.chars := by
    show (a.name.getD []).take (maxModuleName - 1) = s.chars
    rw [hs]
    exact List.take_of_length_le (by simp only [Option.getD_some]; omega)
  rw [htake, hs]
  exact ⟨rfl, by simp [isValidString, hne]⟩

/-- **A registration appends its record as long as there is room**, whatever the
names in the table. -/
theorem register_valid (ms : List AModule) {a : RegisterArgs} (h : a.Valid) :
    register ms a =
      if ms.length < maxModules then (.ok, ms ++ [a.record]) else (.noMemory, ms) := by
  obtain ⟨hname, hvalid⟩ := h.record_name
  have hfind : (sFindModule ms a.name false).1 = .notFound := by
    rw [hname] at hvalid ⊢
    rw [sFindModule_notFound ms hvalid]
  have hargs : isValidString a.name ∧ a.init_proc ∧ a.start_proc ∧ a.shutdown_proc ∧
      a.finalize_proc :=
    ⟨hvalid, h.init_proc, h.start_proc, h.shutdown_proc, h.finalize_proc⟩
  unfold register
  simp only [if_pos hargs, if_pos hfind]

theorem foldl_register {calls : List RegisterArgs} (h : ∀ a ∈ calls, a.Valid)
    (ms : List AModule) :
    calls.foldl (fun ms a => (register ms a).2) ms =
      ms ++ (calls.take (maxModules - ms.length)).map RegisterArgs.record := by
  induction calls generalizing ms with
  | nil => simp
  | cons a calls ih =>
    have hrest := ih fun b hb => h b (List.mem_cons_of_mem a hb)
    rw [List.foldl_cons, register_valid ms (h a List.mem_cons_self)]
    split
    next hroom =>
      have hleft : maxModules - ms.length = maxModules - (ms ++ [a.record]).length + 1 := by
        rw [List.length_append, List.length_singleton]
        omega
      rw [hrest, hleft, List.take_succ_cons, List.map_cons, List.append_assoc]
      rfl
    next hfull =>
      have hnone : maxModules - ms.length = 0 := by omega
      rw [hrest, hnone, List.take_zero, List.take_zero]

/-- The table lists the registrations in order, until it is full. -/
theorem registerAll_valid {calls : List RegisterArgs} (h : ∀ a ∈ calls, a.Valid) :
    registerAll calls = (calls.take maxModules).map RegisterArgs.record := by
  have hfold := foldl_register h []
  rw [List.nil_append] at hfold
  exact hfold

/-! ## §4. The name table. -/

/-- **A one-to-one name table**: distinct names, no name twice, and the search
by name is right. -/
structure OneToOne (ms : List AModule) : Prop where
  distinct : (ms.map AModule.m_name).Nodup
  register_present : ∀ a : RegisterArgs, a.Valid → ∀ name ∈ ms.map AModule.m_name,
    a.name = some name → register ms a = (.alreadyExists, ms)
  find_present : ∀ name : CString, name.chars ∈ ms.map AModule.m_name →
    find ms (some name.chars) = (ms.map AModule.m_name).idxOf name.chars
  find_absent : ∀ name : CString, name.chars ≠ [] → name.chars ∉ ms.map AModule.m_name →
    find ms (some name.chars) = .notFound

theorem OneToOne.nil : OneToOne [] where
  distinct := List.nodup_nil
  register_present _ _ _ h := absurd h (by simp)
  find_present _ h := absurd h (by simp)
  find_absent name hne _ := by
    unfold find
    rw [sFindModule_notFound [] (by simp [isValidString, hne])]

/-- **The table is a one-to-one name table exactly as long as it is empty**: a
registered module is never found, neither by a search nor by a registration. -/
theorem one_to_one_iff {calls : List RegisterArgs} (h : ∀ a ∈ calls, a.Valid) :
    OneToOne (registerAll calls) ↔ calls = [] := by
  constructor
  · intro hone
    cases calls with
    | nil => rfl
    | cons a calls =>
      have ha := h a List.mem_cons_self
      obtain ⟨hname, hvalid⟩ := ha.record_name
      obtain ⟨s, -, -, hs⟩ := ha.name
      have hchars : s.chars = a.record.m_name := Option.some.inj (hs.symm.trans hname)
      have hmem : s.chars ∈ (registerAll (a :: calls)).map AModule.m_name := by
        rw [registerAll_valid h, hchars]
        exact List.mem_map_of_mem (List.mem_map_of_mem (by simp [maxModules]))
      -- an index is not negative, and NOT_FOUND is
      have hindex := hone.find_present s hmem
      unfold find at hindex
      rw [sFindModule_notFound _ (hs ▸ hvalid)] at hindex
      exact absurd hindex (by
        have := Int.natCast_nonneg
          (((registerAll (a :: calls)).map AModule.m_name).idxOf s.chars)
        show ¬ ((-4 : Int) = _)
        omega)
  · intro hcalls
    subst hcalls
    exact OneToOne.nil

/-- A registration of a name, with every procedure. -/
def RegisterArgs.of (name : List Char) : RegisterArgs where
  name := some name
  init_proc := true
  extarg := 0
  start_proc := true
  shutdown_proc := true
  stop_proc := false
  finalize_proc := true

/-- Two modules with names of their own are not a name table either. -/
theorem one_to_one_two : ¬ OneToOne (registerAll [.of ['a'], .of ['b']]) := by
  intro hone
  refine absurd ((one_to_one_iff ?_).mp hone) (by simp)
  intro a ha
  rcases List.mem_cons.mp ha with rfl | ha
  · exact ⟨⟨⟨['a'], by decide⟩, by decide, by decide, rfl⟩, rfl, rfl, rfl, rfl⟩
  · obtain rfl := List.mem_singleton.mp ha
    exact ⟨⟨⟨['b'], by decide⟩, by decide, by decide, rfl⟩, rfl, rfl, rfl, rfl⟩

/-- One name is registered twice, and found under none of its indices. -/
theorem registered_twice :
    (RegisterArgs.of ['a']).Valid ∧
    register (registerAll [.of ['a']]) (.of ['a']) =
      (.ok, registerAll [.of ['a'], .of ['a']]) ∧
    ¬ ((registerAll [.of ['a'], .of ['a']]).map AModule.m_name).Nodup ∧
    find (registerAll [.of ['a']]) (some ['a']) = .notFound := by
  refine ⟨⟨⟨⟨['a'], by decide⟩, by decide, by decide, rfl⟩, rfl, rfl, rfl, rfl⟩, ?_, ?_, ?_⟩
  · decide
  · decide
  · decide

end Mccp.Modules
