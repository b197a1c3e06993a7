/-
  Mccp.Hashmap.Fate
  ─────────────────
  **EACH STORED VALUE HAS ONE FATE.**

  A value that an add has stored stays under its key until the first call that
  takes it out: an add that puts another value there and hands it back, a delete
  of the key, or the removal of all values.  Whether the free-up procedure gets
  it is decided by that one call, and by no call before or after it.

      Represents.call       — a call that returns is one on the finite map
      Represents.frees      — what a call passes to the free-up procedure
      StoredAt.step         — where a value is, before and after a call
      stored_run            — from the add to the call that takes it out
      entries_have_one_fate — all calls, in any order, up to the destruction
-/
import Mccp.Hashmap.Refinement

namespace Mccp.Hashmap

open Chains Transition

/-! ## §1. A call that returns. -/

variable {type : UInt32} {hm hm' : Record} {m : Map Key Value} {key : Key} {out : Outcome}

/-- Between two calls the table is not full. -/
theorem Live.few (h : Live type hm m) : m.keys.card < maxEntries := by
  obtain ⟨k, hsizes⟩ := h.settled.sizes
  have hroom := h.settled.room
  have hcount := h.settled.count
  have hle := hsizes.rebuildSize_le
  rw [h.lists.card]
  omega

/-- No call reads a key that is too long. -/
theorem Live.find_long (h : Live type hm m) (hlong : intMax < type.toNat) {op : Op}
    (hkey : op.key? = some key) (hk : key.HasType type) : call hm op = none := by
  have hnone := h.settled.format.find_long hlong hk
  cases op with
  | add k val allow_overwrite room =>
    obtain rfl := Option.some.inj hkey
    show Hashmap.add hm k val allow_overwrite room = none
    unfold Hashmap.add
    rw [if_pos h.operational, hnone]
    rfl
  | find k =>
    obtain rfl := Option.some.inj hkey
    show Hashmap.find hm k = none
    unfold Hashmap.find
    rw [if_pos h.operational, hnone]
    rfl
  | delete k free_value =>
    obtain rfl := Option.some.inj hkey
    show Hashmap.delete hm k free_value = none
    unfold Hashmap.delete
    rw [if_pos h.operational, hnone]
    rfl
  | clear free_values => exact absurd hkey (by simp [Op.key?])
  | size => exact absurd hkey (by simp [Op.key?])
  | shutdown free_values => exact absurd hkey (by simp [Op.key?])

/-- An add for which the largest table has no room does not return. -/
theorem Live.add_full (h : Live type hm m) (htype : type.toNat ≤ intMax)
    (hk : key.HasType type) {val : Value} {allow_overwrite room : Bool}
    (hfull : ¬ (m.add key val allow_overwrite room).2.2.keys.card < maxEntries) :
    Hashmap.add hm key val allow_overwrite room = none := by
  have hfew := h.few
  unfold Map.add at hfull
  rcases h.lookup htype hk with ⟨he, es, hfind, hkey, hl, hperm⟩ | ⟨hnone, hl, habsent⟩
  · -- an add to a key that is there makes no entry
    rw [hl] at hfull
    refine absurd ?_ hfull
    cases allow_overwrite with
    | true =>
      have hover := h.overwrite hperm val
      rw [hkey] at hover
      exact hover.few
    | false => exact hfew
  · rw [hl] at hfull
    cases room with
    | false => exact absurd hfew hfull
    | true =>
      have hmax : maxEntries ≤ hm.m_hashtable.buckets.flatten.length + 1 := by
        have hnew := h.lists.cons
          (e := { hm.m_hashtable.newEntry key with clientData := val }) hl
        have hcard : (m.insert key val).keys.card = _ := hnew.card
        rw [List.length_cons] at hcard
        rw [← hcard]
        exact Nat.le_of_not_lt hfull
      unfold Hashmap.add
      rw [if_pos h.operational, hnone]
      show (createHashEntry hm.m_hashtable key true).bind _ = none
      rw [h.settled.create_full htype hk habsent hmax]
      rfl

/-- **A call that returns is one on the finite map**, without any bound on the
keys or the entries: the calls beyond those bounds do not return. -/
theorem Represents.call {m : Option (Map Key Value)} (h : Represents type hm m) {op : Op}
    (hop : op.HasType type) (hcall : Hashmap.call hm op = some (out, hm')) :
    out.answer = (mapCall m op).1 ∧ Represents type hm' (mapCall m op).2 := by
  have hstep : (m ≠ none → op.key? ≠ none → type.toNat ≤ intMax) → Few (mapCall m op).2 →
      out.answer = (mapCall m op).1 ∧ Represents type hm' (mapCall m op).2 := by
    intro htype hfew
    obtain ⟨out', hm'', hcall', hanswer, hrep⟩ := h.step htype hop hfew
    rw [hcall] at hcall'
    obtain ⟨rfl, rfl⟩ := Prod.mk.inj (Option.some.inj hcall')
    exact ⟨hanswer, hrep⟩
  cases h with
  | down h =>
    apply hstep (fun hne => absurd rfl hne)
    cases op <;>
    · intro m' hmem
      exact absurd hmem (by simp [mapCall])
  | @live m h =>
    have hshort : op.key? ≠ none → type.toNat ≤ intMax := by
      intro hkey
      obtain ⟨key, hkey⟩ := Option.ne_none_iff_exists'.mp hkey
      -- with longer keys the call does not return
      by_contra hlong
      rw [h.find_long (Nat.lt_of_not_le hlong) hkey (hop key hkey)] at hcall
      exact absurd hcall (by simp)
    apply hstep (fun _ => hshort)
    intro m' hmem
    cases op with
    | add key val allow_overwrite room =>
      obtain rfl := Option.some.inj hmem
      by_contra hfull
      -- neither does an add to a full table
      have hcrash := h.add_full (hshort (by simp [Op.key?])) (hop key rfl) hfull
      rw [show Hashmap.call hm (.add key val allow_overwrite room) = none from hcrash] at hcall
      exact absurd hcall (by simp)
    | find key =>
      obtain rfl := Option.some.inj hmem
      exact h.few
    | delete key free_value =>
      obtain rfl := Option.some.inj hmem
      show (m.erase key).keys.card < maxEntries
      rw [Finmap.keys_erase]
      exact Nat.lt_of_le_of_lt (Finset.card_erase_le) h.few
    | clear free_values =>
      obtain rfl := Option.some.inj hmem
      show (∅ : Map Key Value).keys.card < maxEntries
      decide
    | size =>
      obtain rfl := Option.some.inj hmem
      exact h.few
    | shutdown free_values => exact absurd hmem (by simp [mapCall])

/-! ## §2. What a call frees. -/

/-- The iteration frees the values of all entries, but for `NULL`. -/
theorem doIterate_freeup (hproc : hm.m_del_proc = true) (hes : List HashEntry) (ret : Bool)
    (freed : List Value) : (doIterate (freeupProc hm) hes ret freed).2 =
      freed ++ (hes.map HashEntry.clientData).filter (fun v => v ≠ 0) := by
  induction hes generalizing ret freed with
  | nil => simp [doIterate]
  | cons he hes ih =>
    have hone : freeupProc hm he freed =
        (true, if he.clientData ≠ 0 then freed ++ [he.clientData] else freed) := by
      unfold freeupProc
      rw [if_pos hproc]
    have hcons : doIterate (freeupProc hm) (he :: hes) ret freed =
        doIterate (freeupProc hm) hes true
          (if he.clientData ≠ 0 then freed ++ [he.clientData] else freed) := by
      simp only [doIterate, hone]
    rw [hcons, ih, List.map_cons, List.filter_cons]
    by_cases hnull : he.clientData = 0
    · simp [hnull]
    · simp [hnull, List.append_assoc]

/-- How often the iteration frees a value is how often it is listed. -/
theorem Live.count_freeup (h : Live type hm m) (hproc : hm.m_del_proc = true) {v : Value}
    (hv : v ≠ 0) : (freeupAllValues hm).count v =
      (hm.m_hashtable.buckets.flatten.map HashEntry.clientData).count v := by
  unfold freeupAllValues
  rw [doIterate_freeup hproc, h.settled.toLayout.entries, List.nil_append]
  exact List.count_filter (by simpa using hv)

/-- The call may pass values to the free-up procedure. -/
def Op.frees : Op → Bool
  | .delete _ free_value => free_value
  | .clear free_values => free_values
  | .shutdown free_values => free_values
  | _ => false

/-- The free-up procedure stays what it is, and only some calls use it. -/
theorem call_frame {op : Op} (hcall : call hm op = some (out, hm')) :
    hm'.m_del_proc = hm.m_del_proc ∧
      (op.frees = false ∨ hm.m_is_operational = false → out.freed = []) := by
  cases op with
  | add key val allow_overwrite room =>
    replace hcall : Hashmap.add hm key val allow_overwrite room = some (out, hm') := hcall
    unfold Hashmap.add at hcall
    split at hcall
    next =>
      obtain ⟨found, -, hcall⟩ := Option.bind_eq_some_iff.mp hcall
      cases found with
      | some he => cases allow_overwrite <;> cases hcall <;> exact ⟨rfl, fun _ => rfl⟩
      | none =>
        obtain ⟨⟨he, isnew, t⟩, -, hcall⟩ := Option.bind_eq_some_iff.mp hcall
        cases he <;> cases hcall <;> exact ⟨rfl, fun _ => rfl⟩
    next =>
      cases hcall
      exact ⟨rfl, fun _ => rfl⟩
  | find key =>
    replace hcall : Hashmap.find hm key = some (out, hm') := hcall
    unfold Hashmap.find at hcall
    split at hcall
    next =>
      obtain ⟨found, -, hcall⟩ := Option.bind_eq_some_iff.mp hcall
      cases found <;> cases hcall <;> exact ⟨rfl, fun _ => rfl⟩
    next =>
      cases hcall
      exact ⟨rfl, fun _ => rfl⟩
  | delete key free_value =>
    replace hcall : Hashmap.delete hm key free_value = some (out, hm') := hcall
    unfold Hashmap.delete at hcall
    split at hcall
    next hop =>
      obtain ⟨found, -, hcall⟩ := Option.bind_eq_some_iff.mp hcall
      cases found with
      | some he =>
        obtain ⟨t, -, hcall⟩ := Option.bind_eq_some_iff.mp hcall
        cases hcall
        refine ⟨rfl, fun hfrees => if_neg fun hc => ?_⟩
        rcases hfrees with hfrees | hdown
        · exact absurd (hfrees.symm.trans hc.2.1) (by decide)
        · exact absurd (hdown.symm.trans hop) (by decide)
      | none =>
        cases hcall
        exact ⟨rfl, fun _ => rfl⟩
    next =>
      cases hcall
      exact ⟨rfl, fun _ => rfl⟩
  | clear free_values =>
    replace hcall : some (Hashmap.clear hm free_values) = some (out, hm') := hcall
    unfold Hashmap.clear at hcall
    split at hcall <;> cases hcall
    next hop =>
      refine ⟨rfl, fun hfrees => if_neg fun hc => ?_⟩
      rcases hfrees with hfrees | hdown
      · exact absurd (hfrees.symm.trans hc) (by decide)
      · exact absurd (hdown.symm.trans hop) (by decide)
    next => exact ⟨rfl, fun _ => rfl⟩
  | size =>
    cases hcall
    unfold Hashmap.size
    exact ⟨rfl, fun _ => by split <;> rfl⟩
  | shutdown free_values =>
    replace hcall : some (Hashmap.shutdown hm free_values) = some (out, hm') := hcall
    unfold Hashmap.shutdown at hcall
    split at hcall <;> cases hcall
    next hop =>
      refine ⟨rfl, fun hfrees => if_neg fun hc => ?_⟩
      rcases hfrees with hfrees | hdown
      · exact absurd (hfrees.symm.trans hc) (by decide)
      · exact absurd (hdown.symm.trans hop) (by decide)
    next => exact ⟨rfl, fun _ => rfl⟩

/-- A delete frees the value of its key, once. -/
theorem Live.freed_delete (h : Live type hm m) (hproc : hm.m_del_proc = true) {k : Key}
    (hk : k.HasType type) (hcall : call hm (.delete k true) = some (out, hm')) {v : Value}
    (hv : v ≠ 0) : out.freed.count v = if m.lookup k = some v then 1 else 0 := by
  have hshort : type.toNat ≤ intMax := by
    by_contra hlong
    rw [h.find_long (Nat.lt_of_not_le hlong) rfl hk] at hcall
    exact absurd hcall (by simp)
  replace hcall : Hashmap.delete hm k true = some (out, hm') := hcall
  unfold Hashmap.delete at hcall
  rw [if_pos h.operational] at hcall
  rcases h.lookup hshort hk with ⟨he, es, hfind, -, hl, hperm⟩ | ⟨hnone, hl, -⟩
  · have hmem : he ∈ hm.m_hashtable.buckets.flatten := hperm.symm.subset List.mem_cons_self
    obtain ⟨t, hdelete, -, -⟩ := h.settled.delete hmem
    rw [hfind] at hcall
    replace hcall : (deleteHashEntry hm.m_hashtable he).bind _ = some (out, hm') := hcall
    rw [hdelete] at hcall
    cases hcall
    rw [hl]
    by_cases hval : he.clientData = v
    · subst hval
      simp [hv, hproc]
    · rw [show (if some he.clientData = some v then 1 else 0) = 0 from if_neg (by simpa using hval)]
      show List.count v (if _ then [he.clientData] else []) = 0
      split
      next => simp [hval]
      next => rfl
  · rw [hnone] at hcall
    cases hcall
    rw [hl]
    rfl

/-- The removal of all values frees each of them, once. -/
theorem Live.freed_all (h : Live type hm m) (hproc : hm.m_del_proc = true) {op : Op}
    (hop : op = .clear true ∨ op = .shutdown true) (hcall : call hm op = some (out, hm'))
    {v : Value} (hv : v ≠ 0) : out.freed.count v =
      (hm.m_hashtable.buckets.flatten.map HashEntry.clientData).count v := by
  have hfreed : out.freed = freeupAllValues hm := by
    rcases hop with rfl | rfl
    · replace hcall : some (Hashmap.clear hm true) = some (out, hm') := hcall
      unfold Hashmap.clear at hcall
      rw [if_pos h.operational] at hcall
      cases hcall
      rfl
    · replace hcall : some (Hashmap.shutdown hm true) = some (out, hm') := hcall
      unfold Hashmap.shutdown at hcall
      rw [if_pos h.operational] at hcall
      cases hcall
      rfl
  rw [hfreed, h.count_freeup hproc hv]

/-- What a call frees: nothing, the value of one key, or all values. -/
inductive Frees (freed : List Value) : Option (Map Key Value) → Op → Prop
  | nothing {m : Option (Map Key Value)} {op : Op} (hop : m = none ∨ op.frees = false)
      (h : freed = []) : Frees freed m op
  | one {m : Map Key Value} {k : Key}
      (h : ∀ v ≠ 0, freed.count v = if m.lookup k = some v then 1 else 0) :
      Frees freed (some m) (.delete k true)
  | all {m : Map Key Value} {op : Op} {es : List HashEntry}
      (hop : op = .clear true ∨ op = .shutdown true)
      (hes : Lists HashEntry.key HashEntry.clientData m es)
      (h : ∀ v ≠ 0, freed.count v = (es.map HashEntry.clientData).count v) :
      Frees freed (some m) op

theorem Represents.frees {m : Option (Map Key Value)} (h : Represents type hm m)
    (hproc : hm.m_del_proc = true) {op : Op} (hop : op.HasType type)
    (hcall : Hashmap.call hm op = some (out, hm')) : Frees out.freed m op := by
  cases h with
  | down h => exact .nothing (.inl rfl) ((call_frame hcall).2 (.inr h))
  | live h =>
    cases hfrees : op.frees with
    | false => exact .nothing (.inr hfrees) ((call_frame hcall).2 (.inl hfrees))
    | true =>
      cases op with
      | delete key free_value =>
        obtain rfl : free_value = true := hfrees
        exact .one fun v hv => h.freed_delete hproc (hop key rfl) hcall hv
      | clear free_values =>
        obtain rfl : free_values = true := hfrees
        exact .all (.inl rfl) h.lists fun v hv => h.freed_all hproc (.inl rfl) hcall hv
      | shutdown free_values =>
        obtain rfl : free_values = true := hfrees
        exact .all (.inr rfl) h.lists fun v hv => h.freed_all hproc (.inr rfl) hcall hv
      | add key val allow_overwrite room => exact absurd hfrees (by simp [Op.frees])
      | find key => exact absurd hfrees (by simp [Op.frees])
      | size => exact absurd hfrees (by simp [Op.frees])

/-! ## §3. Where a value is. -/

/-- A call together with what it showed. -/
abbrev Seen := Op × Outcome

/-- How the call took out the value that was under the key, if it did: with the
flag for the free-up procedure. -/
def takesOut (key : Key) : Seen → Option Bool
  | (.add k _ _ _, out) => if k = key ∧ out.ret = .ok then some false else none
  | (.delete k free_value, out) => if k = key ∧ out.ret = .ok then some free_value else none
  | (.clear free_values, out) => if out.ret = .ok then some free_values else none
  | (.shutdown free_values, _) => some free_values
  | _ => none

/-- The value is not in the map. -/
def NotStored (v : Value) (m : Option (Map Key Value)) : Prop :=
  ∀ m' ∈ m, ∀ k, m'.lookup k ≠ some v

/-- The value is in the map under the key, and under no other. -/
def StoredAt (v : Value) (key : Key) (m : Option (Map Key Value)) : Prop :=
  ∃ m', m = some m' ∧ ∀ k, m'.lookup k = some v ↔ k = key

/-- The value that an add was given. -/
def added : Seen → Option Value
  | (.add _ val _ _, _) => some val
  | _ => none

variable {om : Option (Map Key Value)} {op : Op} {v : Value}

/-- A value that is not in the map comes to it by an add only. -/
theorem NotStored.step (h : NotStored v om) (hop : added (op, out) ≠ some v) :
    NotStored v (mapCall om op).2 := by
  intro m' hm' k
  cases om with
  | none =>
    refine absurd hm' ?_
    cases op <;> simp [mapCall]
  | some m =>
    have hnot := h m rfl
    cases op with
    | add key val allow_overwrite room =>
      obtain rfl := Option.some.inj hm'
      show (m.add key val allow_overwrite room).2.2.lookup k ≠ some v
      by_cases hk : k = key
      · subst hk
        by_cases hok : (m.add k val allow_overwrite room).1 = .ok
        · rw [Map.lookup_add_of_ok hok]
          exact hop
        · rw [Map.add_not_ok hok]
          exact hnot k
      · rw [Map.lookup_add_of_ne hk]
        exact hnot k
    | find key =>
      obtain rfl := Option.some.inj hm'
      exact hnot k
    | delete key free_value =>
      obtain rfl := Option.some.inj hm'
      show (m.erase key).lookup k ≠ some v
      by_cases hk : k = key
      · rw [hk, Finmap.lookup_erase]
        simp
      · rw [Finmap.lookup_erase_ne hk]
        exact hnot k
    | clear free_values =>
      obtain rfl := Option.some.inj hm'
      rw [Finmap.lookup_empty]
      simp
    | size =>
      obtain rfl := Option.some.inj hm'
      exact hnot k
    | shutdown free_values => exact absurd hm' (by simp [mapCall])

/-- **An add that returns OK stores its value under the key.** -/
theorem NotStored.add {key : Key} {val : Value} {allow_overwrite room : Bool}
    (h : NotStored val om) (hok : (mapCall om (.add key val allow_overwrite room)).1.1 = .ok) :
    StoredAt val key (mapCall om (.add key val allow_overwrite room)).2 := by
  cases om with
  | none => exact absurd hok (by simp [mapCall, Result.ok, Result.notOperational])
  | some m =>
    refine ⟨_, rfl, fun k => ?_⟩
    show (m.add key val allow_overwrite room).2.2.lookup k = some val ↔ k = key
    by_cases hk : k = key
    · subst hk
      rw [Map.lookup_add_of_ok hok]
      simp
    · rw [Map.lookup_add_of_ne hk]
      simp [hk, h m rfl k]

/-- An add, where the value is under a key. -/
theorem add_step {m : Map Key Value} {key k : Key} {val : Value} {allow_overwrite room : Bool}
    (hat : ∀ k', m.lookup k' = some v ↔ k' = key)
    (hop : added (.add k val allow_overwrite room, out) ≠ some v)
    (hret : out.ret = (m.add k val allow_overwrite room).1)
    (hval : out.val = (m.add k val allow_overwrite room).2.1.getD 0) :
    (takesOut key (.add k val allow_overwrite room, out) = none →
        StoredAt v key (some (m.add k val allow_overwrite room).2.2)) ∧
      (takesOut key (.add k val allow_overwrite room, out) ≠ none →
        NotStored v (some (m.add k val allow_overwrite room).2.2) ∧
        (added (.add k val allow_overwrite room, out) ≠ none → out.val = v)) := by
  have hl := (hat key).mpr rfl
  have hother : ∀ k', k' ≠ k →
      (m.add k val allow_overwrite room).2.2.lookup k' = m.lookup k' :=
    fun k' hk' => Map.lookup_add_of_ne hk'
  by_cases hk : k = key
  · subst hk
    have hadd : m.add k val allow_overwrite room = if allow_overwrite then
        (.ok, some v, m.insert k val) else (.alreadyExists, some v, m) := by
      unfold Map.add
      rw [hl]
    -- the key of the value: it is overwritten, or the add is refused
    cases allow_overwrite with
    | true =>
      rw [if_pos rfl] at hadd
      rw [hadd] at hret hval
      have hsome : takesOut k (.add k val true room, out) = some false := if_pos ⟨rfl, hret⟩
      refine ⟨fun hnone => ?_, fun _ => ⟨?_, fun _ => hval⟩⟩
      · rw [hsome] at hnone
        exact absurd hnone (by simp)
      · intro m' hm' k'
        obtain rfl := Option.some.inj hm'
        show (m.add k val true room).2.2.lookup k' ≠ some v
        by_cases hk' : k' = k
        · rw [hadd, hk', Finmap.lookup_insert]
          exact hop
        · rw [hother k' hk']
          exact fun hc => hk' ((hat k').mp hc)
    | false =>
      rw [if_neg (by simp)] at hadd
      rw [hadd] at hret
      have hnone : takesOut k (.add k val false room, out) = none := by
        refine if_neg fun hc => ?_
        rw [hret] at hc
        exact absurd hc.2 (by simp [Result.ok, Result.alreadyExists])
      refine ⟨fun _ => ⟨m, ?_, hat⟩, fun hne => absurd hnone hne⟩
      show some (m.add k val false room).2.2 = some m
      rw [hadd]
  · -- another key: the value stays where it is
    have hnone : takesOut key (.add k val allow_overwrite room, out) = none :=
      if_neg fun hc => hk hc.1
    refine ⟨fun _ => ⟨_, rfl, fun k' => ?_⟩, fun hne => absurd hnone hne⟩
    show (m.add k val allow_overwrite room).2.2.lookup k' = some v ↔ k' = key
    by_cases hk' : k' = k
    · -- what is under another key is not the value
      subst hk'
      refine iff_of_false ?_ hk
      by_cases hok : (m.add k' val allow_overwrite room).1 = .ok
      · rw [Map.lookup_add_of_ok hok]
        exact hop
      · rw [Map.add_not_ok hok]
        exact fun hc => hk ((hat k').mp hc)
    · rw [hother k' hk']
      exact hat k'

/-- An add that does not return OK changes nothing. -/
theorem mapCall_add_not_ok {key : Key} {val : Value} {allow_overwrite room : Bool}
    (hnot : (mapCall om (.add key val allow_overwrite room)).1.1 ≠ .ok) :
    (mapCall om (.add key val allow_overwrite room)).2 = om := by
  cases om with
  | none => rfl
  | some m => exact congrArg some (Map.add_not_ok hnot)

/-- A value that is under a key stays there, until a call takes it out; an add
that does so hands it back. -/
theorem StoredAt.step (h : StoredAt v key om) (hop : added (op, out) ≠ some v)
    (hanswer : out.answer = (mapCall om op).1) :
    (takesOut key (op, out) = none → StoredAt v key (mapCall om op).2) ∧
      (takesOut key (op, out) ≠ none → NotStored v (mapCall om op).2 ∧
        (added (op, out) ≠ none → out.val = v)) := by
  obtain ⟨m, rfl, hat⟩ := h
  have hl := (hat key).mpr rfl
  have hret : out.ret = (mapCall (some m) op).1.1 := congrArg Prod.fst hanswer
  have hval : out.val = (mapCall (some m) op).1.2 := congrArg Prod.snd hanswer
  cases op with
  | add k val allow_overwrite room => exact add_step hat hop hret hval
  | find k => exact ⟨fun _ => ⟨m, rfl, hat⟩, fun hne => absurd rfl hne⟩
  | delete k free_value =>
    by_cases hk : k = key
    · subst hk
      have hsome : takesOut k (.delete k free_value, out) = some free_value :=
        if_pos ⟨rfl, hret⟩
      refine ⟨fun hnone => ?_, fun _ => ⟨?_, fun hne => absurd rfl hne⟩⟩
      · rw [hsome] at hnone
        exact absurd hnone (by simp)
      · intro m' hm' k'
        obtain rfl := Option.some.inj hm'
        show (m.erase k).lookup k' ≠ some v
        by_cases hk' : k' = k
        · rw [hk', Finmap.lookup_erase]
          simp
        · rw [Finmap.lookup_erase_ne hk']
          exact fun hc => hk' ((hat k').mp hc)
    · have hnone : takesOut key (.delete k free_value, out) = none := if_neg fun hc => hk hc.1
      refine ⟨fun _ => ⟨_, rfl, fun k' => ?_⟩, fun hne => absurd hnone hne⟩
      show (m.erase k).lookup k' = some v ↔ k' = key
      by_cases hk' : k' = k
      · rw [hk', Finmap.lookup_erase]
        exact iff_of_false (by simp) hk
      · rw [Finmap.lookup_erase_ne hk']
        exact hat k'
  | clear free_values =>
    have hsome : takesOut key (.clear free_values, out) = some free_values := if_pos hret
    refine ⟨fun hnone => ?_, fun _ => ⟨?_, fun hne => absurd rfl hne⟩⟩
    · rw [hsome] at hnone
      exact absurd hnone (by simp)
    · intro m' hm' k
      obtain rfl := Option.some.inj hm'
      rw [Finmap.lookup_empty]
      simp
  | size => exact ⟨fun _ => ⟨m, rfl, hat⟩, fun hne => absurd rfl hne⟩
  | shutdown free_values =>
    refine ⟨fun hnone => absurd hnone (by simp [takesOut]), fun _ => ⟨?_, ?_⟩⟩
    · intro m' hm'
      exact absurd hm' (by simp [mapCall])
    · exact fun hne => absurd rfl hne

/-! ## §4. What is freed, and when. -/

theorem Frees.absent {freed : List Value} (h : Frees freed om op) (hv : v ≠ 0)
    (hnot : NotStored v om) : freed.count v = 0 := by
  cases h with
  | nothing _ h => rw [h, List.count_nil]
  | one h => rw [h v hv, if_neg (hnot _ rfl _)]
  | all _ hes h => rw [h v hv, hes.count_absent (hnot _ rfl)]

theorem frees_of_takesOut {key : Key} (h : takesOut key (op, out) = some true) :
    op.frees = true := by
  cases op with
  | add k val allow_overwrite room => exact absurd h (by simp [takesOut])
  | find k => exact absurd h (by simp [takesOut])
  | delete k free_value => exact (Option.ite_none_right_eq_some.mp h).2 |> Option.some.inj
  | clear free_values => exact (Option.ite_none_right_eq_some.mp h).2 |> Option.some.inj
  | size => exact absurd h (by simp [takesOut])
  | shutdown free_values => exact Option.some.inj h

/-- The value under a key is freed by the call that takes it out, if by any. -/
theorem Frees.stored {key : Key} (h : Frees out.freed om op) (hv : v ≠ 0)
    (hat : StoredAt v key om) (hanswer : out.answer = (mapCall om op).1) :
    out.freed.count v = if takesOut key (op, out) = some true then 1 else 0 := by
  obtain ⟨m, rfl, hat⟩ := hat
  have hret : out.ret = (mapCall (some m) op).1.1 := congrArg Prod.fst hanswer
  cases h with
  | nothing hop h =>
    -- a call that takes the value out to free it would free something
    have hnot : takesOut key (op, out) ≠ some true := by
      intro htakes
      rcases hop with hop | hop
      · exact absurd hop (by simp)
      · exact absurd (hop.symm.trans (frees_of_takesOut htakes)) (by decide)
    rw [h, if_neg hnot, List.count_nil]
  | @one _ k h =>
    have htakes : takesOut key (.delete k true, out) = some true ↔ m.lookup k = some v := by
      rw [hat k]
      refine ⟨fun htakes => (Option.ite_none_right_eq_some.mp htakes).1.1, fun hk => ?_⟩
      exact if_pos ⟨hk, hret⟩
    rw [h v hv]
    simp only [htakes]
  | all hop hes h =>
    have htakes : takesOut key (op, out) = some true := by
      rcases hop with rfl | rfl
      · exact if_pos hret
      · rfl
    rw [h v hv, hes.count_only hat, if_pos htakes]

/-- The hashmap stands for the map and has a free-up procedure. -/
structure Stands (type : UInt32) (hm : Record) (om : Option (Map Key Value)) : Prop where
  represents : Represents type hm om
  proc : hm.m_del_proc = true

/-- **The step lemma.** -/
theorem Stands.step (h : Stands type hm om) (hop : op.HasType type)
    (hcall : call hm op = some (out, hm')) : Stands type hm' (mapCall om op).2 ∧
      out.answer = (mapCall om op).1 ∧ Frees out.freed om op := by
  obtain ⟨hanswer, hrep⟩ := h.represents.call hop hcall
  exact ⟨⟨hrep, (call_frame hcall).1.trans h.proc⟩, hanswer, h.represents.frees h.proc hop hcall⟩

/-- A step of a hashmap, with what is seen of it. -/
def Step (hm : Record) (l : Seen) (hm' : Record) : Prop := call hm l.1 = some (l.2, hm')

/-- All that is passed to the free-up procedure. -/
def freedIn (seen : List Seen) : List Value := seen.flatMap (fun l => l.2.freed)

theorem freedIn_cons (l : Seen) (seen : List Seen) :
    freedIn (l :: seen) = l.2.freed ++ freedIn seen := List.flatMap_cons

theorem freedIn_append (seen seen' : List Seen) :
    freedIn (seen ++ seen') = freedIn seen ++ freedIn seen' := List.flatMap_append

variable {seen : List Seen}

/-- **A value that is in the map nowhere**, and that no add is given, is not freed. -/
theorem absent_run (hrun : Run Step hm seen hm') (h : Stands type hm om)
    (hkeys : ∀ l ∈ seen, l.1.HasType type) (hv : v ≠ 0) (hadd : ∀ l ∈ seen, added l ≠ some v)
    (hnot : NotStored v om) :
    ∃ om', Stands type hm' om' ∧ NotStored v om' ∧ (freedIn seen).count v = 0 := by
  induction hrun generalizing om with
  | nil => exact ⟨om, h, hnot, rfl⟩
  | @cons s t u l ls hstep hrest ih =>
    obtain ⟨hstands, hanswer, hfrees⟩ := h.step (hkeys l List.mem_cons_self) hstep
    have hother : added (l.1, l.2) ≠ some v := hadd l List.mem_cons_self
    have hnot' := hnot.step hother
    obtain ⟨om', h', hn, hcount⟩ := ih hstands
      (fun x hx => hkeys x (List.mem_cons_of_mem l hx))
      (fun x hx => hadd x (List.mem_cons_of_mem l hx)) hnot'
    refine ⟨om', h', hn, ?_⟩
    rw [freedIn_cons, List.count_append, hcount, hfrees.absent hv hnot]

/-- How a value that was stored under the key comes to its end: `l` is the first
call that takes it out, an add that does so hands it back, and the value is freed
by this call, or never. -/
structure Fate (v : Value) (key : Key) (seen kept : List Seen) (l : Seen) (later : List Seen)
    (free : Bool) : Prop where
  split : seen = kept ++ l :: later
  stays : ∀ x ∈ kept, takesOut key x = none
  takes : takesOut key l = some free
  hands : added l ≠ none → l.2.val = v
  freed : l.2.freed.count v = if free then 1 else 0
  once : (freedIn seen).count v = l.2.freed.count v

/-- **A value that is under a key** stays there to the end of the run, or has
come to its end. -/
theorem stored_run {key : Key} (hrun : Run Step hm seen hm') (h : Stands type hm om)
    (hkeys : ∀ l ∈ seen, l.1.HasType type) (hv : v ≠ 0) (hadd : ∀ l ∈ seen, added l ≠ some v)
    (hat : StoredAt v key om) :
    (∃ om', Stands type hm' om' ∧ StoredAt v key om') ∨
      ∃ kept l later free, Fate v key seen kept l later free := by
  induction hrun generalizing om with
  | nil => exact .inl ⟨om, h, hat⟩
  | @cons s t u l ls hstep hrest ih =>
    obtain ⟨hstands, hanswer, hfrees⟩ := h.step (hkeys l List.mem_cons_self) hstep
    have hkeys' : ∀ x ∈ ls, x.1.HasType type := fun x hx => hkeys x (List.mem_cons_of_mem l hx)
    have hadd' : ∀ x ∈ ls, added x ≠ some v := fun x hx => hadd x (List.mem_cons_of_mem l hx)
    have hcount := hfrees.stored hv hat hanswer
    obtain ⟨hstay, htake⟩ := hat.step (hadd l List.mem_cons_self) hanswer
    -- by the first call that takes the value out, if there is one
    cases htakes : takesOut key l with
    | none =>
      rcases ih hstands hkeys' hadd' (hstay htakes) with hend | ⟨kept, l', later, free, hfate⟩
      · exact .inl hend
      · refine .inr ⟨l :: kept, l', later, free, ?_, ?_, hfate.takes, hfate.hands, hfate.freed, ?_⟩
        · rw [hfate.split]
          rfl
        · intro x hx
          rcases List.mem_cons.mp hx with rfl | hx
          · exact htakes
          · exact hfate.stays x hx
        · rw [show takesOut key (l.1, l.2) = none from htakes, if_neg (by simp)] at hcount
          rw [freedIn_cons, List.count_append, hcount, hfate.once, Nat.zero_add]
    | some free =>
      obtain ⟨hnot, hhands⟩ := htake (by rw [show takesOut key (l.1, l.2) = _ from htakes]; simp)
      obtain ⟨-, -, -, hzero⟩ := absent_run hrest hstands hkeys' hv hadd' hnot
      refine .inr ⟨[], l, ls, free, rfl, fun x hx => absurd hx (by simp), htakes, hhands, ?_, ?_⟩
      · rw [hcount, show takesOut key (l.1, l.2) = _ from htakes]
        cases free <;> simp
      · rw [freedIn_cons, List.count_append, hzero, Nat.add_zero]

/-! ## §5. Up to the destruction. -/

/-- `mccp_hashmap_destroy`; what it passes to the free-up procedure. -/
def destroy (hm : Record) (free_values : Bool) : List Value :=
  if hm.m_is_operational then (clean { hm with m_is_operational := false } free_values).1 else []

/-- The destruction, shown as the shutdown that it begins with. -/
def destruction (hm : Record) (free_values : Bool) : Seen :=
  (.shutdown free_values, ⟨.ok, 0, destroy hm free_values⟩)

theorem destruction_step (hm : Record) (free_values : Bool) :
    Step hm (destruction hm free_values) (shutdown hm free_values).2 := by
  show some (shutdown hm free_values) = some (_, _)
  unfold Hashmap.shutdown destruction destroy
  split <;> rfl

theorem shutdown_down (hm : Record) (free_values : Bool) :
    (shutdown hm free_values).2.m_is_operational = false := by
  unfold Hashmap.shutdown
  split
  next => rfl
  next hdown => simpa using hdown

/-- **Each stored value has one fate.**  In every sequence of calls on distinct
values that are not `NULL`, up to the destruction: a value whose add returned OK
is taken out by the first later call that removes it or puts another value in its
place; it is freed exactly once if that call frees, and never if not.  A value
whose add did not return OK is never freed. -/
theorem entries_have_one_fate {type : UInt32} {hm : Record} {seen : List Seen}
    (hrun : Run Step (create type true) seen hm) (hkeys : ∀ l ∈ seen, l.1.HasType type)
    (hdistinct : (seen.filterMap added).Nodup) (hnull : 0 ∉ seen.filterMap added)
    (free_values : Bool) {before after : List Seen} {key : Key} {v : Value}
    {allow_overwrite room : Bool} {out : Outcome}
    (hsplit : seen = before ++ (.add key v allow_overwrite room, out) :: after) :
    (out.ret = .ok → ∃ kept l later free,
      Fate v key (after ++ [destruction hm free_values]) kept l later free ∧
      (freedIn (seen ++ [destruction hm free_values])).count v = if free then 1 else 0) ∧
    (out.ret ≠ .ok → (freedIn (seen ++ [destruction hm free_values])).count v = 0) := by
  have hcons : ((.add key v allow_overwrite room, out) :: after : List Seen).filterMap added =
      v :: after.filterMap added := rfl
  rw [hsplit, List.filterMap_append, hcons] at hdistinct hnull
  have hv : v ≠ 0 := fun hv => hnull (by simp [hv])
  obtain ⟨hbefore, hafter⟩ : (∀ l ∈ before, added l ≠ some v) ∧ ∀ l ∈ after, added l ≠ some v := by
    obtain ⟨-, hrest, hdisjoint⟩ := List.nodup_append.mp hdistinct
    refine ⟨fun l hl hadd => ?_, fun l hl hadd => ?_⟩
    · exact hdisjoint v (List.mem_filterMap.mpr ⟨l, hl, hadd⟩) v List.mem_cons_self rfl
    · exact (List.nodup_cons.mp hrest).1 (List.mem_filterMap.mpr ⟨l, hl, hadd⟩)
  subst hsplit
  obtain ⟨s, hrun₁, hrun₂⟩ := hrun.split
  cases hrun₂ with
  | @cons _ t _ _ _ hstep hrun₃ =>
    have hcreate : Stands type (create type true) (some ∅) := ⟨.live (live_create type true), rfl⟩
    have hnew : NotStored v (some ∅) := by
      intro m' hm' k
      obtain rfl := Option.some.inj hm'
      rw [Finmap.lookup_empty]
      simp
    obtain ⟨om, hs, hnot, hzero⟩ := absent_run hrun₁ hcreate
      (fun l hl => hkeys l (List.mem_append_left _ hl)) hv hbefore hnew
    have hop : Op.HasType type (.add key v allow_overwrite room) :=
      hkeys (.add key v allow_overwrite room, out) (List.mem_append_right _ List.mem_cons_self)
    obtain ⟨ht, hanswer, hfrees⟩ := hs.step hop hstep
    have hret : out.ret = (mapCall om (.add key v allow_overwrite room)).1.1 :=
      congrArg Prod.fst hanswer
    -- the calls after the add, with the destruction at the end
    have hend := hrun₃.snoc (destruction_step hm free_values)
    have hkeys' : ∀ l ∈ after ++ [destruction hm free_values], l.1.HasType type := by
      intro l hl
      rcases List.mem_append.mp hl with hl | hl
      · exact hkeys l (List.mem_append_right _ (List.mem_cons_of_mem _ hl))
      · obtain rfl := List.mem_singleton.mp hl
        intro k hk
        exact absurd hk (by simp [destruction, Op.key?])
    have hadd' : ∀ l ∈ after ++ [destruction hm free_values], added l ≠ some v := by
      intro l hl
      rcases List.mem_append.mp hl with hl | hl
      · exact hafter l hl
      · obtain rfl := List.mem_singleton.mp hl
        simp [destruction, added]
    have hcount : (freedIn (before ++ (.add key v allow_overwrite room, out) :: after ++
        [destruction hm free_values])).count v =
          (freedIn (after ++ [destruction hm free_values])).count v := by
      rw [List.append_assoc, List.cons_append, freedIn_append, freedIn_cons, List.count_append,
        List.count_append, hzero, hfrees.absent hv hnot, Nat.zero_add, Nat.zero_add]
    refine ⟨fun hok => ?_, fun hbad => ?_⟩
    · rcases stored_run hend ht hkeys' hv hadd' (hnot.add (hret.symm.trans hok)) with
        ⟨om', hdown, m', rfl, -⟩ | ⟨kept, l, later, free, hfate⟩
      · -- nothing is stored in a hashmap that was shut down
        cases hdown.represents with
        | live hlive =>
          exact absurd (hlive.operational.symm.trans (shutdown_down hm free_values)) (by decide)
      · exact ⟨kept, l, later, free, hfate, hcount.trans (hfate.once.trans hfate.freed)⟩
    · rw [hret] at hbad
      rw [mapCall_add_not_ok hbad] at ht
      obtain ⟨-, -, -, hnone⟩ := absent_run hend ht hkeys' hv hadd' hnot
      exact hcount.trans hnone

/-- A value takes the place of another one; the destruction frees it. -/
theorem entries_have_one_fate_two : ∃ hm : Record,
    Run Step (create 8 true) [(.add (.word 1) 5 false true, ⟨.ok, 0, []⟩),
      (.add (.word 1) 6 true true, ⟨.ok, 5, []⟩)] hm ∧ destroy hm true = [6] ∧
    ∃ kept l later free, Fate 5 (.word 1)
      [(.add (.word 1) 6 true true, ⟨.ok, 5, []⟩), destruction hm true] kept l later free := by
  have hcalls : ∃ hm hm', call (create 8 true) (.add (.word 1) 5 false true) =
      some (⟨.ok, 0, []⟩, hm) ∧ call hm (.add (.word 1) 6 true true) = some (⟨.ok, 5, []⟩, hm') ∧
      destroy hm' true = [6] := ⟨_, _, rfl, rfl, rfl⟩
  obtain ⟨hm, hm', hfirst, hsecond, hdestroy⟩ := hcalls
  have hrun : Run Step (create 8 true) [(.add (.word 1) 5 false true, ⟨.ok, 0, []⟩),
      (.add (.word 1) 6 true true, ⟨.ok, 5, []⟩)] hm' := .cons hfirst (.cons hsecond (.nil hm'))
  obtain ⟨kept, l, later, free, hfate, -⟩ := (entries_have_one_fate hrun (by decide) (by decide)
    (by decide) true (List.nil_append _).symm).1 rfl
  exact ⟨hm', hrun, hdestroy, kept, l, later, free, hfate⟩

end Mccp.Hashmap
