/-
  Mccp.Hashmap.Map
  ────────────────
  **WHAT A HASHMAP IS FOR: A FINITE MAP FROM KEYS TO VALUES.**

  The calls of mccp_hashmap.h on an operational map, as functions of a finite
  map.  Nothing here knows of buckets or of the way keys are compared.

      Map.find    — the value of a key, else NOT_FOUND
      Map.add     — a new key, an overwritten value, or ALREADY_EXISTS
      Map.delete  — the removed value, if there was one
      Map.Shows   — the map lists, under each object's key, that object
-/
import Mathlib.Data.Finmap
import Mccp.Result

namespace Mccp.Hashmap

/-- A finite map. -/
abbrev Map (κ β : Type*) := Finmap (fun _ : κ => β)

variable {κ β : Type*} [DecidableEq κ]

/-- `mccp_hashmap_find`: the result and `*valptr`. -/
def Map.find (m : Map κ β) (key : κ) : Result × Option β :=
  match m.lookup key with
  | some val => (.ok, some val)
  | none => (.notFound, none)

/-- `mccp_hashmap_add`: the result, the old value, and the map.  `room` tells
whether a new entry can be allocated. -/
def Map.add (m : Map κ β) (key : κ) (val : β) (allow_overwrite room : Bool) :
    Result × Option β × Map κ β :=
  match m.lookup key with
  | some oldval =>
      if allow_overwrite then (.ok, some oldval, m.insert key val)
      else (.alreadyExists, some oldval, m)
  | none => if room then (.ok, none, m.insert key val) else (.noMemory, none, m)

/-- `mccp_hashmap_delete`: the result, the removed value, and the map. -/
def Map.delete (m : Map κ β) (key : κ) : Result × Option β × Map κ β :=
  (.ok, m.lookup key, m.erase key)

/-- A delete of a key that is not there leaves the map as it was. -/
theorem Map.delete_absent {m : Map κ β} {key : κ} (h : m.lookup key = none) :
    (m.delete key).2.2 = m := by
  refine Finmap.ext_lookup fun k => ?_
  by_cases hk : k = key
  · subst hk
    exact (Finmap.lookup_erase k m).trans h.symm
  · exact Finmap.lookup_erase_ne hk

/-- An add that returns OK binds the key to the value. -/
theorem Map.add_ok {m : Map κ β} {key : κ} {val : β} {allow_overwrite room : Bool}
    (h : (m.add key val allow_overwrite room).1 = .ok) :
    (m.add key val allow_overwrite room).2.2 = m.insert key val ∧
      (allow_overwrite = false → m.lookup key = none) := by
  unfold Map.add at h ⊢
  cases hl : m.lookup key with
  | none =>
    cases room with
    | true => exact ⟨rfl, fun _ => rfl⟩
    | false => simp [hl, Result.ok, Result.noMemory] at h
  | some old =>
    cases allow_overwrite with
    | true => exact ⟨rfl, by simp⟩
    | false => simp [hl, Result.ok, Result.alreadyExists] at h

/-- An add finds the key taken only where it is, and may not overwrite it. -/
theorem Map.add_ne_alreadyExists {m : Map κ β} {key : κ} {val : β} {allow_overwrite room : Bool}
    (h : allow_overwrite = true ∨ m.lookup key = none) :
    (m.add key val allow_overwrite room).1 ≠ .alreadyExists := by
  unfold Map.add
  cases hl : m.lookup key with
  | none => cases room <;> simp [Result.ok, Result.noMemory, Result.alreadyExists]
  | some old =>
    rcases h with rfl | hnone
    · simp [Result.ok, Result.alreadyExists]
    · exact absurd (hl.symm.trans hnone) (by simp)

/-- An add that does not return OK leaves the map as it was. -/
theorem Map.add_not_ok {m : Map κ β} {key : κ} {val : β} {allow_overwrite room : Bool}
    (h : (m.add key val allow_overwrite room).1 ≠ .ok) :
    (m.add key val allow_overwrite room).2.2 = m := by
  unfold Map.add at h ⊢
  cases hl : m.lookup key with
  | none =>
    cases room with
    | true => simp [hl] at h
    | false => rfl
  | some old =>
    cases allow_overwrite with
    | true => simp [hl] at h
    | false => rfl

/-- After an add that returns OK the value is found. -/
theorem Map.lookup_add_of_ok {m : Map κ β} {key : κ} {val : β} {allow_overwrite room : Bool}
    (h : (m.add key val allow_overwrite room).1 = .ok) :
    (m.add key val allow_overwrite room).2.2.lookup key = some val := by
  rw [(Map.add_ok h).1]
  exact Finmap.lookup_insert m

/-- An add with overwriting that does not return OK has found no entry. -/
theorem Map.lookup_add_of_not_ok {m : Map κ β} {key : κ} {val : β} {room : Bool}
    (h : (m.add key val true room).1 ≠ .ok) : (m.add key val true room).2.2.lookup key = none := by
  rw [Map.add_not_ok h]
  unfold Map.add at h
  cases hl : m.lookup key with
  | none => rfl
  | some old => simp [hl] at h

theorem Map.lookup_add_of_ne {m : Map κ β} {key key' : κ} {val : β} {allow_overwrite room : Bool}
    (h : key' ≠ key) :
    (m.add key val allow_overwrite room).2.2.lookup key' = m.lookup key' := by
  by_cases hok : (m.add key val allow_overwrite room).1 = .ok
  · rw [(Map.add_ok hok).1]
    exact Finmap.lookup_insert_of_ne m h
  · rw [Map.add_not_ok hok]

/-- The map lists exactly the objects that have a key, each under its key. -/
def Map.Shows (m : Map κ β) (key? : β → Option κ) : Prop :=
  ∀ k b, m.lookup k = some b ↔ key? b = some k

theorem Map.Shows.insert [DecidableEq β] {m : Map κ β} {key? : β → Option κ} (h : m.Shows key?)
    {k : κ} {b : β} (hk : m.lookup k = none) (hb : key? b = none) :
    Map.Shows (m.insert k b) (Function.update key? b (some k)) := by
  intro k' b'
  by_cases hk' : k' = k
  · subst hk'
    rw [Finmap.lookup_insert]
    by_cases hb' : b' = b
    · simp [hb']
    · rw [Function.update_of_ne hb', ← h k' b', hk]
      simp [Ne.symm hb']
  · rw [Finmap.lookup_insert_of_ne m hk', h k' b']
    by_cases hb' : b' = b
    · rw [hb', Function.update_self, hb]
      simp [Ne.symm hk']
    · rw [Function.update_of_ne hb']

theorem Map.Shows.erase [DecidableEq β] {m : Map κ β} {key? : β → Option κ} (h : m.Shows key?)
    {k : κ} {b : β} (hb : key? b = some k) :
    Map.Shows (m.erase k) (Function.update key? b none) := by
  intro k' b'
  by_cases hk' : k' = k
  · subst hk'
    rw [Finmap.lookup_erase]
    by_cases hb' : b' = b
    · simp [hb']
    · rw [Function.update_of_ne hb']
      have hne : key? b' ≠ some k' := by
        intro heq
        have h1 := (h k' b').mpr heq
        rw [(h k' b).mpr hb] at h1
        exact hb' (Option.some.inj h1).symm
      simp [hne]
  · rw [Finmap.lookup_erase_ne hk', h k' b']
    by_cases hb' : b' = b
    · rw [hb', Function.update_self, hb]
      simp [Ne.symm hk']
    · rw [Function.update_of_ne hb']

/-- Erasing a key that is not there. -/
theorem Map.Shows.erase_absent {m : Map κ β} {key? : β → Option κ} (h : m.Shows key?)
    {k : κ} (hk : m.lookup k = none) : Map.Shows (m.erase k) key? := by
  intro k' b'
  by_cases hk' : k' = k
  · subst hk'
    rw [Finmap.lookup_erase, ← h k' b', hk]
  · rw [Finmap.lookup_erase_ne hk', h k' b']

end Mccp.Hashmap
