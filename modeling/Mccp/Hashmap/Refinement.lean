/-
  Mccp.Hashmap.Refinement
  ───────────────────────
  **A HASHMAP IS A FINITE MAP.**

  Whatever calls are made, in whatever order, a hashmap answers as a finite map
  of key contents to values does.  Buckets, chains and rebuilds are not seen,
  and the count that the hashmap keeps of its own is the number of keys.

      mapCall           — what a finite map answers
      Live              — the hashmap's table lists the entries of the map
      Live.add, …       — one lemma for each call
      calls_answer_map  — all calls, in any order
-/
import Mccp.Lib.Transition
import Mccp.Hashmap.Map
import Mccp.Hashmap.Calls
import Mccp.Hashmap.Layout

namespace Mccp.Hashmap

open Chains

/-! ## §1. The calls on a finite map. -/

/-- What the caller sees: the result, and `*valptr`. -/
abbrev Answer := Result × Value

/-- What a finite map answers to a call; `none` is a map that was shut down. -/
def mapCall : Option (Map Key Value) → Op → Answer × Option (Map Key Value)
  | some m, .add key val allow_overwrite room =>
      let (ret, oldval, m') := m.add key val allow_overwrite room
      ((ret, oldval.getD 0), some m')
  | some m, .find key =>
      let (ret, val) := m.find key
      ((ret, val.getD 0), some m)
  | some m, .delete key _ =>
      let (ret, val, m') := m.delete key
      ((ret, val.getD 0), some m')
  | some _, .clear _ => ((.ok, 0), some ∅)
  | some m, .size => ((m.keys.card, 0), some m)
  | some _, .shutdown _ => ((.ok, 0), none)
  -- after a shutdown an add leaves `*valptr` alone; a shutdown returns nothing
  | none, .add _ val _ _ => ((.notOperational, val), none)
  | none, .shutdown _ => ((.ok, 0), none)
  | none, _ => ((.notOperational, 0), none)

/-- What the caller sees of an outcome. -/
def Outcome.answer (o : Outcome) : Answer := (o.ret, o.val)

/-- The keys of a call are of the type. -/
def Op.HasType (type : UInt32) (op : Op) : Prop := ∀ key ∈ op.key?, key.HasType type

instance (type : UInt32) (op : Op) : Decidable (op.HasType type) :=
  inferInstanceAs (Decidable (∀ key ∈ op.key?, key.HasType type))

/-- The table has room for all entries of the map. -/
def Few (m : Option (Map Key Value)) : Prop := ∀ m' ∈ m, m'.keys.card < maxEntries

instance : DecidablePred Few :=
  fun m => inferInstanceAs (Decidable (∀ m' ∈ m, m'.keys.card < maxEntries))

/-! ## §2. The hashmap and the map. -/

/-- **An operational hashmap stands for a finite map.** -/
structure Live (type : UInt32) (hm : Record) (m : Map Key Value) : Prop where
  operational : hm.m_is_operational = true
  type_eq : hm.m_type = type
  settled : Settled hm.m_hashtable type
  lists : Lists HashEntry.key HashEntry.clientData m hm.m_hashtable.buckets.flatten
  count : hm.m_n_entries = hm.m_hashtable.buckets.flatten.length

/-- What a hashmap stands for. -/
inductive Represents (type : UInt32) (hm : Record) : Option (Map Key Value) → Prop
  | live {m : Map Key Value} (h : Live type hm m) : Represents type hm (some m)
  | down (h : hm.m_is_operational = false) : Represents type hm none

variable {type : UInt32} {hm : Record} {m : Map Key Value} {key : Key}

/-- A hashmap with a new table. -/
theorem live_empty (hop : hm.m_is_operational = true) (htype : hm.m_type = type)
    (ht : hm.m_hashtable = initHashTable type) (hn : hm.m_n_entries = 0) : Live type hm ∅ := by
  have hflat : hm.m_hashtable.buckets.flatten = [] := by
    rw [ht]
    exact initHashTable_flatten type
  refine ⟨hop, htype, ?_, ?_, ?_⟩
  · rw [ht]
    exact initHashTable_settled type
  · rw [hflat]
    exact Lists.empty
  · rw [hflat, hn]
    rfl

theorem live_create (type : UInt32) (proc : Bool) : Live type (create type proc) ∅ :=
  live_empty rfl rfl rfl rfl

/-- What the search of a call finds is what the map has under the key. -/
theorem Live.lookup (h : Live type hm m) (htype : type.toNat ≤ intMax) (hk : key.HasType type) :
    (∃ he es, findHashEntry hm.m_hashtable key = some (some he) ∧ he.key = key ∧
      m.lookup key = some he.clientData ∧ hm.m_hashtable.buckets.flatten.Perm (he :: es)) ∨
    (findHashEntry hm.m_hashtable key = some none ∧ m.lookup key = none ∧
      ∀ he ∈ hm.m_hashtable.buckets.flatten, he.key ≠ key) := by
  rcases h.settled.toLayout.find htype hk with ⟨he, hfind, hmem, hkey⟩ | ⟨hnone, habsent⟩
  · have hlookup := h.lists.lookup_of_mem hmem
    rw [hkey] at hlookup
    exact .inl ⟨he, _, hfind, hkey, hlookup, List.perm_cons_erase hmem⟩
  · exact .inr ⟨hnone, h.lists.lookup_eq_none.mpr habsent, habsent⟩

/-! ## §3. Each call. -/

theorem Live.find (h : Live type hm m) (htype : type.toNat ≤ intMax) (hk : key.HasType type) :
    find hm key = some (⟨(m.find key).1, (m.find key).2.getD 0, []⟩, hm) := by
  unfold Hashmap.find Map.find
  rw [if_pos h.operational]
  rcases h.lookup htype hk with ⟨he, es, hfind, -, hl, -⟩ | ⟨hnone, hl, -⟩
  · rw [hfind, hl]
    rfl
  · rw [hnone, hl]
    rfl

/-- Overwriting the value of a key. -/
theorem Live.overwrite (h : Live type hm m) {he : HashEntry} {es : List HashEntry}
    (hperm : hm.m_hashtable.buckets.flatten.Perm (he :: es)) (val : Value) :
    Live type { hm with m_hashtable := setHashValue hm.m_hashtable he.addr val }
      (m.insert he.key val) := by
  obtain ⟨hsettled, hperm'⟩ := h.settled.setValue hperm val
  have hlists := (h.lists.perm hperm).update { he with clientData := val } rfl
  refine ⟨h.operational, h.type_eq, hsettled, hlists.perm hperm'.symm, ?_⟩
  show hm.m_n_entries = _
  rw [h.count, hperm.length_eq, hperm'.length_eq, List.length_cons, List.length_cons]

/-- Adding a key that is not there. -/
theorem Live.insert (h : Live type hm m) (htype : type.toNat ≤ intMax) (hk : key.HasType type)
    (habsent : ∀ he ∈ hm.m_hashtable.buckets.flatten, he.key ≠ key) {val : Value}
    (hfew : (m.insert key val).keys.card < maxEntries) :
    ∃ he t, createHashEntry hm.m_hashtable key true = some (some he, true, t) ∧
      Live type { hm with m_hashtable := setHashValue t he val, m_n_entries := hm.m_n_entries + 1 }
        (m.insert key val) := by
  have hnone : m.lookup key = none := h.lists.lookup_eq_none.mpr habsent
  have hnew : Lists HashEntry.key HashEntry.clientData (m.insert key 0)
      (hm.m_hashtable.newEntry key :: hm.m_hashtable.buckets.flatten) :=
    h.lists.cons (e := hm.m_hashtable.newEntry key) hnone
  have hroom : hm.m_hashtable.buckets.flatten.length + 1 < maxEntries := by
    -- the value does not change how many keys there are
    have hset := hnew.update { hm.m_hashtable.newEntry key with clientData := val } rfl
    have hcard : ((m.insert key 0).insert key val).keys.card = _ := hset.card
    rw [Finmap.insert_insert, List.length_cons] at hcard
    rw [← hcard]
    exact hfew
  obtain ⟨t, hcreate, hsettled, hperm⟩ := h.settled.create htype hk habsent hroom
  have hlists := (hnew.map (f := t.relocate) (fun _ => rfl) (fun _ => rfl)).perm hperm.symm
  have hcount : hm.m_n_entries + 1 = t.buckets.flatten.length := by
    rw [hperm.length_eq, List.length_map, List.length_cons, h.count]
    rfl
  have hlive : Live type { hm with m_hashtable := t, m_n_entries := hm.m_n_entries + 1 }
      (m.insert key 0) :=
    ⟨h.operational, h.type_eq, hsettled, hlists, hcount⟩
  -- wherever the new entry is now, it has the address that was returned
  have hover := hlive.overwrite hperm val
  refine ⟨_, t, hcreate, ?_⟩
  have hinsert : m.insert key val = (m.insert key 0).insert key val :=
    (Finmap.insert_insert m).symm
  rw [hinsert]
  exact hover

/-- **An add.** -/
theorem Live.add (h : Live type hm m) (htype : type.toNat ≤ intMax) (hk : key.HasType type)
    {val : Value} {allow_overwrite room : Bool}
    (hfew : (m.add key val allow_overwrite room).2.2.keys.card < maxEntries) :
    ∃ hm', add hm key val allow_overwrite room =
        some (⟨(m.add key val allow_overwrite room).1,
          (m.add key val allow_overwrite room).2.1.getD 0, []⟩, hm') ∧
      Live type hm' (m.add key val allow_overwrite room).2.2 := by
  unfold Hashmap.add
  unfold Map.add at hfew ⊢
  rw [if_pos h.operational]
  rcases h.lookup htype hk with ⟨he, es, hfind, hkey, hl, hperm⟩ | ⟨hnone, hl, habsent⟩
  · rw [hfind, hl]
    cases allow_overwrite with
    | true =>
      have hover := h.overwrite hperm val
      rw [hkey] at hover
      exact ⟨_, rfl, hover⟩
    | false => exact ⟨hm, rfl, h⟩
  · rw [hl] at hfew
    rw [hnone, hl]
    cases room with
    | true =>
      obtain ⟨he, t, hcreate, hlive⟩ := h.insert htype hk habsent hfew
      refine ⟨_, ?_, hlive⟩
      show (createHashEntry hm.m_hashtable key true).bind _ = _
      rw [hcreate]
      rfl
    | false =>
      refine ⟨hm, ?_, h⟩
      show (createHashEntry hm.m_hashtable key false).bind _ = _
      rw [h.settled.toLayout.create_noRoom htype hk habsent]
      rfl

/-- **A delete.** -/
theorem Live.delete (h : Live type hm m) (htype : type.toNat ≤ intMax) (hk : key.HasType type)
    (free_value : Bool) :
    ∃ freed hm', delete hm key free_value =
        some (⟨(m.delete key).1, (m.delete key).2.1.getD 0, freed⟩, hm') ∧
      Live type hm' (m.delete key).2.2 := by
  unfold Hashmap.delete Map.delete
  rw [if_pos h.operational]
  rcases h.lookup htype hk with ⟨he, es, hfind, hkey, hl, hperm⟩ | ⟨hnone, hl, -⟩
  · have hmem : he ∈ hm.m_hashtable.buckets.flatten := hperm.symm.subset List.mem_cons_self
    obtain ⟨t, hdelete, hsettled, hperm'⟩ := h.settled.delete hmem
    have hlists := (h.lists.perm hperm').tail
    rw [hkey] at hlists
    have hcount : hm.m_n_entries - 1 = t.buckets.flatten.length := by
      rw [h.count, hperm'.length_eq, List.length_cons]
      omega
    rw [hfind, hl]
    refine ⟨if he.clientData ≠ 0 ∧ free_value ∧ hm.m_del_proc then [he.clientData] else [],
      { hm with m_hashtable := t, m_n_entries := hm.m_n_entries - 1 }, ?_,
      h.operational, h.type_eq, hsettled, hlists, hcount⟩
    show (deleteHashEntry hm.m_hashtable he).bind _ = _
    rw [hdelete]
    rfl
  · rw [hnone, hl]
    refine ⟨[], hm, rfl, ?_⟩
    -- a key that is not there can be erased
    have hsame : m.erase key = m := by
      apply Finmap.ext_lookup
      intro k
      by_cases hkey : k = key
      · rw [hkey, Finmap.lookup_erase, hl]
      · rw [Finmap.lookup_erase_ne hkey]
    show Live type hm (m.erase key)
    rw [hsame]
    exact h

/-- **A clear.** -/
theorem Live.clear (h : Live type hm m) (free_values : Bool) :
    ∃ freed hm', clear hm free_values = (⟨.ok, 0, freed⟩, hm') ∧ Live type hm' ∅ := by
  unfold Hashmap.clear
  rw [if_pos h.operational]
  refine ⟨_, _, rfl, ?_⟩
  refine live_empty rfl h.type_eq ?_ rfl
  show initHashTable hm.m_type = _
  rw [h.type_eq]

theorem Live.size (h : Live type hm m) : size hm = ⟨m.keys.card, 0, []⟩ := by
  unfold Hashmap.size
  rw [if_pos h.operational, h.count, h.lists.card]

theorem Live.shutdown (h : Live type hm m) (free_values : Bool) :
    ∃ freed hm', shutdown hm free_values = (⟨.ok, 0, freed⟩, hm') ∧
      hm'.m_is_operational = false := by
  unfold Hashmap.shutdown
  rw [if_pos h.operational]
  exact ⟨_, _, rfl, rfl⟩

/-! ## §4. All calls. -/

/-- **The step lemma**: a call on the hashmap answers as the map does, and
leaves a hashmap that stands for what the map has become. -/
theorem Represents.step {m : Option (Map Key Value)} (h : Represents type hm m) {op : Op}
    (htype : m ≠ none → op.key? ≠ none → type.toNat ≤ intMax) (hop : op.HasType type)
    (hfew : Few (mapCall m op).2) :
    ∃ out hm', call hm op = some (out, hm') ∧ out.answer = (mapCall m op).1 ∧
      Represents type hm' (mapCall m op).2 := by
  cases h with
  | live h =>
    cases op with
    | add key val allow_overwrite room =>
      have htype := htype (by simp) (by simp [Op.key?])
      obtain ⟨hm', hcall, hlive⟩ := h.add htype (hop key rfl) (hfew _ rfl)
      exact ⟨_, hm', hcall, rfl, .live hlive⟩
    | find key =>
      have htype := htype (by simp) (by simp [Op.key?])
      exact ⟨_, hm, h.find htype (hop key rfl), rfl, .live h⟩
    | delete key free_value =>
      have htype := htype (by simp) (by simp [Op.key?])
      obtain ⟨freed, hm', hcall, hlive⟩ := h.delete htype (hop key rfl) free_value
      exact ⟨_, hm', hcall, rfl, .live hlive⟩
    | clear free_values =>
      obtain ⟨freed, hm', hcall, hlive⟩ := h.clear free_values
      exact ⟨_, hm', congrArg some hcall, rfl, .live hlive⟩
    | size =>
      refine ⟨_, hm, rfl, ?_, .live h⟩
      rw [h.size]
      rfl
    | shutdown free_values =>
      obtain ⟨freed, hm', hcall, hdown⟩ := h.shutdown free_values
      exact ⟨_, hm', congrArg some hcall, rfl, .down hdown⟩
  | down h =>
    -- no call does anything to a hashmap that was shut down
    have hcall : ∃ out, call hm op = some (out, hm) ∧ out.answer = (mapCall none op).1 := by
      cases op <;>
      · simp only [call, add, find, delete, clear, size, shutdown, h]
        exact ⟨_, rfl, rfl⟩
    obtain ⟨out, hcall, hanswer⟩ := hcall
    refine ⟨out, hm, hcall, hanswer, ?_⟩
    cases op <;> exact .down h

/-- **A hashmap answers all calls as a finite map does.**  The keys are of the
type with which it was created, and it never holds as many entries as would
need a table that is larger than the largest one. -/
theorem calls_answer_map (type : UInt32) (htype : type.toNat ≤ intMax) (proc : Bool)
    (ops : List Op) (hkeys : ∀ op ∈ ops, op.HasType type)
    (hfew : Transition.Along mapCall Few (some ∅) ops) :
    ∃ outs hm, Transition.exec call (create type proc) ops = some (outs, hm) ∧
      outs.map Outcome.answer = Transition.answers mapCall (some ∅) ops := by
  have hstep : ∀ (hm : Record) (m : Option (Map Key Value)) (op : Op), Represents type hm m →
      op.HasType type → Few m → Few (mapCall m op).2 →
      ∃ out hm', call hm op = some (out, hm') ∧ out.answer = (mapCall m op).1 ∧
        Represents type hm' (mapCall m op).2 :=
    fun hm m op h hop _ hfew => h.step (fun _ _ => htype) hop hfew
  exact Transition.exec_answers (Represents type) Outcome.answer (Op.HasType type) Few hstep
    (.live (live_create type proc)) hkeys hfew

/-- Two keys of 13 bytes that have the same hash. -/
theorem calls_answer_map_bytes : ∃ outs hm, Transition.exec call (create 13 true)
    [.add (.bytes [1, 0, 0, 0, 2, 0, 0, 0, 0, 0, 0, 0, 3]) 5 false true,
      .add (.bytes [2, 0, 0, 0, 1, 0, 0, 0, 0, 0, 0, 0, 3]) 6 false true,
      .add (.bytes [1, 0, 0, 0, 2, 0, 0, 0, 0, 0, 0, 0, 3]) 7 false true,
      .add (.bytes [1, 0, 0, 0, 2, 0, 0, 0, 0, 0, 0, 0, 3]) 7 true true,
      .delete (.bytes [2, 0, 0, 0, 1, 0, 0, 0, 0, 0, 0, 0, 3]) false,
      .find (.bytes [2, 0, 0, 0, 1, 0, 0, 0, 0, 0, 0, 0, 3]),
      .find (.bytes [1, 0, 0, 0, 2, 0, 0, 0, 0, 0, 0, 0, 3]),
      .size, .shutdown false, .size] = some (outs, hm) ∧
    outs.map Outcome.answer = [(.ok, 0), (.ok, 0), (.alreadyExists, 5), (.ok, 5), (.ok, 6),
      (.notFound, 0), (.ok, 7), (1, 0), (.ok, 0), (.notOperational, 0)] := by
  obtain ⟨outs, hm, hexec, hanswers⟩ := calls_answer_map 13 (by decide) true
    [.add (.bytes [1, 0, 0, 0, 2, 0, 0, 0, 0, 0, 0, 0, 3]) 5 false true,
      .add (.bytes [2, 0, 0, 0, 1, 0, 0, 0, 0, 0, 0, 0, 3]) 6 false true,
      .add (.bytes [1, 0, 0, 0, 2, 0, 0, 0, 0, 0, 0, 0, 3]) 7 false true,
      .add (.bytes [1, 0, 0, 0, 2, 0, 0, 0, 0, 0, 0, 0, 3]) 7 true true,
      .delete (.bytes [2, 0, 0, 0, 1, 0, 0, 0, 0, 0, 0, 0, 3]) false,
      .find (.bytes [2, 0, 0, 0, 1, 0, 0, 0, 0, 0, 0, 0, 3]),
      .find (.bytes [1, 0, 0, 0, 2, 0, 0, 0, 0, 0, 0, 0, 3]),
      .size, .shutdown false, .size] (by decide) (by decide)
  refine ⟨outs, hm, hexec, ?_⟩
  rw [hanswers]
  decide

end Mccp.Hashmap
