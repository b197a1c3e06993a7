/-
  Mccp.Lib.History
  ────────────────
  **HISTORIES, AND RULES ON WHAT MAY COME NEXT.**

  A history is a list of events, oldest first.  A rule tells, from what has
  happened so far, whether an event may come next; `Obeys rule pre es` says
  that each event of `es`, after `pre` and the ones before it, may.

      Obeys.append     — a history obeys piece by piece
      obeys_snoc       — one more event
      Obeys.at_split   — what the rule says of one event in the middle
      since_snoc       — what one more event starts and ends

  Where an event can write a value under a key, `latest` is the last one written
  there.  `Since starts ends es` says that something has been started by an event
  of `es`, and not been ended by a later one.

  Nothing here knows of any particular program.
-/
import Mathlib.Tactic.TypeStar

namespace History

variable {E : Type*}

/-- Each event is one that the rule allows after `pre` and the events before it. -/
def Obeys (rule : List E → E → Prop) (pre : List E) : List E → Prop
  | [] => True
  | e :: es => rule pre e ∧ Obeys rule (pre ++ [e]) es

variable {rule : List E → E → Prop} {pre es fs : List E}

theorem Obeys.append (h : Obeys rule pre es) (h' : Obeys rule (pre ++ es) fs) :
    Obeys rule pre (es ++ fs) := by
  induction es generalizing pre with
  | nil => rwa [List.append_nil] at h'
  | cons e es ih =>
    refine ⟨h.1, ih h.2 ?_⟩
    rwa [List.append_assoc]

/-- One more event. -/
theorem obeys_snoc {e : E} :
    Obeys rule pre (es ++ [e]) ↔ Obeys rule pre es ∧ rule (pre ++ es) e := by
  induction es generalizing pre with
  | nil => simp [Obeys]
  | cons b es ih =>
    rw [List.cons_append]
    unfold Obeys
    rw [ih, and_assoc, List.append_assoc, List.singleton_append]

/-- What the rule says of an event in the middle. -/
theorem Obeys.at_split (h : Obeys rule pre es) {before after : List E} {e : E}
    (hes : es = before ++ e :: after) : rule (pre ++ before) e := by
  induction before generalizing pre es with
  | nil =>
    subst hes
    rw [List.append_nil]
    exact h.1
  | cons b before ih =>
    subst hes
    have hrest := ih h.2 rfl
    rwa [List.append_assoc] at hrest

/-! ## Last writes. -/

variable {K V : Type*} [DecidableEq K] {write : E → Option (K × V)} {init : V} {k : K} {e : E}

/-- What an event makes of the value under key `k`. -/
def overwrite (write : E → Option (K × V)) (k : K) (v : V) (e : E) : V :=
  match write e with
  | some w => if w.1 = k then w.2 else v
  | none => v

/-- **The last value written under key `k`**, or the one at the beginning. -/
def latest (write : E → Option (K × V)) (init : V) (k : K) (es : List E) : V :=
  es.foldl (overwrite write k) init

@[simp] theorem latest_nil : latest write init k [] = init := rfl

theorem latest_snoc : latest write init k (es ++ [e]) =
    overwrite write k (latest write init k es) e := by
  unfold latest
  rw [List.foldl_append]
  rfl

theorem overwrite_none {v : V} (h : write e = none) : overwrite write k v e = v := by
  unfold overwrite
  rw [h]

theorem overwrite_some {v v' : V} {k' : K} (h : write e = some (k', v')) :
    overwrite write k v e = if k' = k then v' else v := by
  unfold overwrite
  rw [h]

/-! ## Since. -/

/-- An event has started it, and none after that event has ended it. -/
def Since (starts ends : E → Prop) (es : List E) : Prop :=
  ∃ before b after, es = before ++ b :: after ∧ starts b ∧ ∀ a ∈ after, ¬ ends a

variable {starts ends : E → Prop}

theorem not_since_nil : ¬ Since starts ends [] := by
  rintro ⟨before, b, after, hes, -⟩
  exact List.append_ne_nil_of_right_ne_nil before (List.cons_ne_nil b after) hes.symm

/-- **One more event**: it starts, or it does not end. -/
theorem since_snoc :
    Since starts ends (es ++ [e]) ↔ starts e ∨ (Since starts ends es ∧ ¬ ends e) := by
  constructor
  · rintro ⟨before, b, after, hes, hstarts, hnone⟩
    obtain rfl | ⟨init, last, rfl⟩ := after.eq_nil_or_concat
    · -- the starting event is the new one
      obtain ⟨-, hlast⟩ := List.append_inj' hes rfl
      obtain rfl : e = b := List.head_eq_of_cons_eq hlast
      exact .inl hstarts
    · rw [List.concat_eq_append] at hes hnone
      have hsplit : es ++ [e] = (before ++ b :: init) ++ [last] := by
        rw [hes, List.append_assoc, List.cons_append]
      obtain ⟨hinit, hlast⟩ := List.append_inj' hsplit rfl
      obtain rfl : e = last := List.head_eq_of_cons_eq hlast
      refine .inr ⟨⟨before, b, init, hinit, hstarts, ?_⟩, ?_⟩
      · exact fun a ha => hnone a (List.mem_append_left _ ha)
      · exact hnone e (List.mem_append_right _ (List.mem_singleton_self e))
  · rintro (hstarts | ⟨⟨before, b, after, rfl, hstarts, hnone⟩, hend⟩)
    · exact ⟨es, e, [], rfl, hstarts, fun a ha => absurd ha List.not_mem_nil⟩
    · refine ⟨before, b, after ++ [e], ?_, hstarts, ?_⟩
      · rw [List.append_assoc, List.cons_append]
      · intro a ha
        obtain ha | ha := List.mem_append.mp ha
        · exact hnone a ha
        · rw [List.mem_singleton.mp ha]
          exact hend

end History
