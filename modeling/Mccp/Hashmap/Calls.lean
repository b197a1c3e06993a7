/-
  Mccp.Hashmap.Calls
  ──────────────────
  **THE CALLS OF hashmap.c.**

  A hashmap is a hash table with a count of its own and a flag; every call is
  made under the map's lock.

      create   — mccp_hashmap_create()
      add, find, delete, clear, size, shutdown
      call     — all of them as one executable step

  Every allocation of a bucket array succeeds; the allocation of an entry is
  told by the call.
-/
import Mccp.Hashmap.Table
import Mccp.Result

namespace Mccp.Hashmap

/-! ## §1. The record. -/

/-- `mccp_hashmap_record`; of the free-up procedure, whether it is given. -/
structure Record where
  m_type : UInt32
  m_hashtable : HashTable
  m_del_proc : Bool
  m_n_entries : Int
  m_is_operational : Bool
  deriving DecidableEq, Repr

/-- `mccp_hashmap_create`. -/
def create (t : UInt32) (proc : Bool) : Record where
  m_type := t
  m_hashtable := initHashTable t
  m_del_proc := proc
  m_n_entries := 0
  m_is_operational := true

/-- What a call shows: its result (`.ok` for one that returns nothing), `*valptr`,
and the values it passed to the free-up procedure. -/
structure Outcome where
  ret : Result
  val : Value
  freed : List Value
  deriving DecidableEq, Repr

/-! ## §2. Freeing the values. -/

/-- The loop of `s_do_iterate`; `ret` is the last result of the procedure. -/
def doIterate {σ : Type} (proc : HashEntry → σ → Bool × σ) : List HashEntry → Bool → σ → Bool × σ
  | [], ret, arg => (ret, arg)
  | he :: hes, _, arg =>
      match proc he arg with
      | (true, arg) => doIterate proc hes true arg
      -- the procedure halts the iteration
      | (false, arg) => (false, arg)

/-- `s_freeup_proc`; its argument collects the values that were freed. -/
def freeupProc (hm : Record) (he : HashEntry) (freed : List Value) : Bool × List Value :=
  if hm.m_del_proc then (true, if he.clientData ≠ 0 then freed ++ [he.clientData] else freed)
  else (false, freed)

/-- `s_freeup_all_values`. -/
def freeupAllValues (hm : Record) : List Value :=
  (doIterate (freeupProc hm) hm.m_hashtable.entries false []).2

/-- `s_clean`. -/
def clean (hm : Record) (free_values : Bool) : List Value × Record :=
  let freed := if free_values then freeupAllValues hm else []
  let hm := { hm with m_hashtable := deleteHashTable hm.m_hashtable }
  (freed, { hm with m_hashtable := .zero, m_n_entries := 0 })

/-- `s_reinit`. -/
def reinit (hm : Record) (free_values : Bool) : List Value × Record :=
  let (freed, hm) := clean hm free_values
  (freed, { hm with m_hashtable := initHashTable hm.m_type })

/-! ## §3. The calls. -/

/-- `mccp_hashmap_shutdown`. -/
def shutdown (hm : Record) (free_values : Bool) : Outcome × Record :=
  if hm.m_is_operational then
    let (freed, hm) := clean { hm with m_is_operational := false } free_values
    (⟨.ok, 0, freed⟩, hm)
  else (⟨.ok, 0, []⟩, hm)

/-- `mccp_hashmap_clear`. -/
def clear (hm : Record) (free_values : Bool) : Outcome × Record :=
  if hm.m_is_operational then
    let (freed, hm) := reinit { hm with m_is_operational := false } free_values
    (⟨.ok, 0, freed⟩, { hm with m_is_operational := true })
  else (⟨.notOperational, 0, []⟩, hm)

/-- `s_find`. -/
def find (hm : Record) (key : Key) : Option (Outcome × Record) :=
  if hm.m_is_operational then do
    match ← findHashEntry hm.m_hashtable key with
    | some he => return (⟨.ok, he.clientData, []⟩, hm)
    | none => return (⟨.notFound, 0, []⟩, hm)
  else some (⟨.notOperational, 0, []⟩, hm)

/-- `s_add`; `val` is `*valptr`. -/
def add (hm : Record) (key : Key) (val : Value) (allow_overwrite room : Bool) :
    Option (Outcome × Record) :=
  if hm.m_is_operational then do
    match ← findHashEntry hm.m_hashtable key with
    | some he =>
        let oldval := he.clientData
        -- the entry stays, with its new value
        if allow_overwrite then
          return (⟨.ok, oldval, []⟩,
            { hm with m_hashtable := setHashValue hm.m_hashtable he.addr val })
        else return (⟨.alreadyExists, oldval, []⟩, hm)
    | none =>
        match ← createHashEntry hm.m_hashtable key room with
        | (some he, _, t) =>
            return (⟨.ok, 0, []⟩,
              { hm with m_hashtable := setHashValue t he val, m_n_entries := hm.m_n_entries + 1 })
        | (none, _, t) => return (⟨.noMemory, 0, []⟩, { hm with m_hashtable := t })
  else some (⟨.notOperational, val, []⟩, hm)

/-- `s_delete`. -/
def delete (hm : Record) (key : Key) (free_value : Bool) : Option (Outcome × Record) :=
  if hm.m_is_operational then do
    match ← findHashEntry hm.m_hashtable key with
    | some he =>
        let val := he.clientData
        let freed := if val ≠ 0 ∧ free_value ∧ hm.m_del_proc then [val] else []
        let t ← deleteHashEntry hm.m_hashtable he
        return (⟨.ok, val, freed⟩,
          { hm with m_hashtable := t, m_n_entries := hm.m_n_entries - 1 })
    | none => return (⟨.ok, 0, []⟩, hm)
  else some (⟨.notOperational, 0, []⟩, hm)

/-- `mccp_hashmap_size`. -/
def size (hm : Record) : Outcome :=
  if hm.m_is_operational then ⟨hm.m_n_entries, 0, []⟩ else ⟨.notOperational, 0, []⟩

/-- A call. -/
inductive Op where
  /-- `room` tells whether a new entry can be allocated. -/
  | add (key : Key) (val : Value) (allow_overwrite room : Bool)
  | find (key : Key)
  | delete (key : Key) (free_value : Bool)
  | clear (free_values : Bool)
  | size
  | shutdown (free_values : Bool)
  deriving DecidableEq, Repr

/-- The key of a call. -/
def Op.key? : Op → Option Key
  | .add key _ _ _ => some key
  | .find key => some key
  | .delete key _ => some key
  | _ => none

/-- **A call**; `none` when it crashes. -/
def call (hm : Record) : Op → Option (Outcome × Record)
  | .add key val allow_overwrite room => add hm key val allow_overwrite room
  | .find key => find hm key
  | .delete key free_value => delete hm key free_value
  | .clear free_values => some (clear hm free_values)
  | .size => some (size hm, hm)
  | .shutdown free_values => some (shutdown hm free_values)

end Mccp.Hashmap
