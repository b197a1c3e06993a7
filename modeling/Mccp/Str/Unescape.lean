/-
  Mccp.Str.Unescape
  ─────────────────
  **UNESCAPING LOSES NOTHING BUT ESCAPES.**

  Reading from the left, a backslash and the character behind it are a pair.
  mccp_str_unescape() takes the backslash out of the pairs that escape
  something and leaves all else as it is, up to a backslash that the string
  ends before it has a pair: that one is lost.

      units, strip            — the reading, and what is kept of a unit
      pending                 — whether a backslash still waits for its pair
      unescapeLoop_units      — the loop keeps all but the one that waits
      unescape_keeps          — when nothing is lost
-/
import Mccp.Str.Tokenize

namespace Mccp.Str

open CString (nul charAt isValidString)

/-! ## §1. The reading in pairs. -/

/-- The units of a string: pairs of a backslash and what follows it, and single
characters. -/
def units : List Char → List (List Char)
  | [] => []
  | [c] => [[c]]
  | c :: d :: org => if c = '\\' then [c, d] :: units org else [c] :: units (d :: org)

/-- What is kept of a unit: a pair that escapes loses its backslash. -/
def strip (escaped : List Char) : List Char → List Char
  | [b, c] => if c ∈ escaped then [c] else [b, c]
  | u => u

/-- What is to be kept of a string. -/
def kept (escaped org : List Char) : List Char := (units org).flatMap (strip escaped)

/-- The units are the whole string. -/
theorem flatten_units (org : List Char) : (units org).flatten = org := by
  induction org using units.induct with
  | case1 => rfl
  | case2 c => rfl
  | case3 d org ih =>
    rw [units, if_pos rfl, List.flatten_cons, ih]
    rfl
  | case4 c d org hc ih =>
    rw [units, if_neg hc, List.flatten_cons, ih]
    rfl

section

variable (escaped : List Char)

theorem strip_pair (b c : Char) :
    strip escaped [b, c] = if c ∈ escaped then [c] else [b, c] := rfl

/-- A pair. -/
theorem kept_pair (c : Char) (org : List Char) :
    kept escaped ('\\' :: c :: org) = strip escaped ['\\', c] ++ kept escaped org := by
  unfold kept
  rw [units, if_pos rfl, List.flatMap_cons]

/-- A single character. -/
theorem kept_single {c : Char} (hc : c ≠ '\\') (org : List Char) :
    kept escaped (c :: org) = c :: kept escaped org := by
  unfold kept
  cases org with
  | nil => rfl
  | cons d org =>
    rw [units, if_neg hc, List.flatMap_cons]
    rfl

theorem length_strip_le (u : List Char) : (strip escaped u).length ≤ u.length := by
  unfold strip
  split
  · split <;> simp
  · exact Nat.le_refl _

/-- No more is kept than there was. -/
theorem length_kept_le (org : List Char) : (kept escaped org).length ≤ org.length := by
  have hsum : ∀ us : List (List Char), (us.flatMap (strip escaped)).length ≤ us.flatten.length := by
    intro us
    induction us with
    | nil => exact Nat.le_refl 0
    | cons u us ih =>
      have hu := length_strip_le escaped u
      rw [List.flatMap_cons, List.flatten_cons, List.length_append, List.length_append]
      omega
  have h := hsum (units org)
  rw [flatten_units] at h
  exact h

/-! ## §2. The loop. -/

/-- Whether a backslash waits for its pair after a text, `got_bs` before it. -/
def pending (got_bs : Bool) (org : List Char) : Bool :=
  org.foldl (fun b c => !b && c = '\\') got_bs

/-- **The loop keeps all but the backslash that waits** in the end. -/
theorem unescapeLoop_units (got_bs : Bool) (org : List Char) :
    unescapeLoop escaped got_bs org ++ (if pending got_bs org then ['\\'] else []) =
      kept escaped (if got_bs then '\\' :: org else org) := by
  induction org generalizing got_bs with
  | nil => cases got_bs <;> rfl
  | cons c org ih =>
    cases got_bs with
    | true =>
      -- the backslash that waits and this character are a pair
      have hrest := ih false
      have hunit : (if c ∈ escaped then [c] else if c = '\\' then ['\\', '\\'] else ['\\', c]) =
          strip escaped ['\\', c] := by
        rw [strip_pair]
        by_cases hc : c = '\\'
        · rw [hc, if_pos rfl]
        · rw [if_neg hc]
      rw [if_pos rfl, kept_pair, unescapeLoop, hunit, List.append_assoc]
      exact congrArg (strip escaped ['\\', c] ++ ·) hrest
    | false =>
      by_cases hc : c = '\\'
      · -- neither the loop nor the reading has done anything yet
        subst hc
        exact ih true
      · have hrest := ih false
        have hpending : pending false (c :: org) = pending false org := by
          simp [pending, hc]
        rw [if_neg Bool.false_ne_true, kept_single escaped hc, unescapeLoop, if_neg hc, hpending,
          List.cons_append]
        exact congrArg (c :: ·) hrest

end

/-- Behind a text whose last character is no backslash none waits. -/
theorem pending_of_last {t : List Char} (h : t.getLast? ≠ some '\\') : pending false t = false := by
  cases t using List.reverseRecOn with
  | nil => rfl
  | append_singleton t c =>
    have hc : c ≠ '\\' := by simpa using h
    simp [pending, hc]

/-- Backslashes in a row pair off. -/
theorem pending_replicate (n : Nat) (b : Bool) :
    pending b (List.replicate n '\\') = (b ^^ decide (n % 2 = 1)) := by
  induction n generalizing b with
  | zero => simp [pending]
  | succ n ih =>
    have h := ih (!b)
    have hstep : pending b (List.replicate (n + 1) '\\') =
        pending (!b) (List.replicate n '\\') := by
      simp [pending, List.replicate_succ]
    rw [hstep, h]
    rcases Nat.mod_two_eq_zero_or_one n with hn | hn
    · have hn' : (n + 1) % 2 = 1 := by omega
      simp [hn, hn']
    · have hn' : (n + 1) % 2 = 0 := by omega
      simp [hn, hn']

/-- A string ends in a number of backslashes. -/
theorem exists_backslashes (org : List Char) :
    ∃ t n, org = t ++ List.replicate n '\\' ∧ t.getLast? ≠ some '\\' := by
  induction org using List.reverseRecOn with
  | nil => exact ⟨[], 0, rfl, by simp⟩
  | append_singleton org c ih =>
    by_cases hc : c = '\\'
    · obtain ⟨t, n, rfl, ht⟩ := ih
      refine ⟨t, n + 1, ?_, ht⟩
      rw [hc, List.replicate_succ', List.append_assoc]
    · exact ⟨org ++ [c], 0, by simp, by simpa using hc⟩

/-- **A backslash waits in the end** if the string ends in an odd number of
them. -/
theorem pending_iff (org : List Char) :
    pending false org = true ↔
      ∃ t n, org = t ++ List.replicate n '\\' ∧ t.getLast? ≠ some '\\' ∧ n % 2 = 1 := by
  have hpending : ∀ t n, t.getLast? ≠ some '\\' →
      pending false (t ++ List.replicate n '\\') = decide (n % 2 = 1) := by
    intro t n ht
    have hsplit : pending false (t ++ List.replicate n '\\') =
        pending (pending false t) (List.replicate n '\\') := List.foldl_append
    rw [hsplit, pending_of_last ht, pending_replicate, Bool.false_xor]
  constructor
  · intro h
    obtain ⟨t, n, rfl, ht⟩ := exists_backslashes org
    rw [hpending t n ht] at h
    exact ⟨t, n, rfl, ht, of_decide_eq_true h⟩
  · rintro ⟨t, n, rfl, ht, hn⟩
    rw [hpending t n ht]
    exact decide_eq_true hn

/-! ## §3. The whole call. -/

/-- What `mccp_str_unescape` returns for a string that it accepts. -/
theorem unescape_accepted {org escaped : CString} (horg : org.chars ≠ [])
    (hescaped : escaped.chars ≠ []) (haccepts : canUnescape escaped.chars org.chars = true) :
    unescape true (some org.chars) (some escaped.chars) =
      (((unescapeLoop escaped.chars false org.chars).length : Result),
        if 0 < (unescapeLoop escaped.chars false org.chars).length
        then some (unescapeLoop escaped.chars false org.chars) else none) := by
  have hvalid : isValidString (some org.chars) ∧ isValidString (some escaped.chars) := by
    simp [isValidString, horg, hescaped]
  unfold unescape
  dsimp only
  rw [if_pos hvalid, if_pos haccepts, if_pos rfl]

theorem kept_ne_nil (escaped : List Char) {org : List Char} (horg : org ≠ []) :
    kept escaped org ≠ [] := by
  obtain ⟨c, r, rfl⟩ := List.exists_cons_of_ne_nil horg
  by_cases hc : c = '\\'
  · subst hc
    cases r with
    | nil => exact List.cons_ne_nil _ _
    | cons d r =>
      rw [kept_pair, strip_pair]
      split
      · exact List.cons_ne_nil _ _
      · exact List.cons_ne_nil _ _
  · rw [kept_single escaped hc]
    exact List.cons_ne_nil _ _

/-- **Nothing is lost but escapes** if and only if the string does not end in an
odd number of backslashes.  The characters of the result and its terminator are
what is written. -/
theorem unescape_keeps (org escaped : CString) (horg : org.chars ≠ [])
    (hescaped : escaped.chars ≠ []) (haccepts : canUnescape escaped.chars org.chars = true) :
    (∃ out, unescape true (some org.chars) (some escaped.chars) =
          ((out.length : Result), some out) ∧
        out = kept escaped.chars org.chars ∧ out.length + 1 ≤ org.chars.length + 1) ↔
      ¬∃ t n, org.chars = t ++ List.replicate n '\\' ∧ t.getLast? ≠ some '\\' ∧ n % 2 = 1 := by
  have hloop := unescapeLoop_units escaped.chars false org.chars
  rw [if_neg Bool.false_ne_true] at hloop
  rw [← pending_iff, unescape_accepted horg hescaped haccepts]
  constructor
  · rintro ⟨out, hout, hkept, -⟩ hpending
    -- one character less is written than is to be kept
    rw [if_pos hpending] at hloop
    have hlen := congrArg List.length hloop
    have hlen' := Int.ofNat_inj.mp (Prod.mk.inj hout).1
    rw [List.length_append, List.length_singleton, ← hkept] at hlen
    omega
  · intro hpending
    rw [if_neg hpending, List.append_nil] at hloop
    rw [hloop]
    refine ⟨kept escaped.chars org.chars, ?_, rfl, ?_⟩
    · rw [if_pos (List.length_pos_iff.mpr (kept_ne_nil escaped.chars horg))]
    · exact Nat.succ_le_succ (length_kept_le escaped.chars org.chars)

/-- A string with all kinds of pairs. -/
theorem unescape_keeps_pairs :
    ∃ out, unescape true (some "a\\\"\\n\\\\".toList) (some "\"".toList) =
        ((out.length : Result), some out) ∧
      out = kept ['"'] "a\\\"\\n\\\\".toList ∧ out.length + 1 ≤ 8 := by
  have hend : pending false ['a', '\\', '"', '\\', 'n', '\\', '\\'] = false := by decide
  refine (unescape_keeps ⟨['a', '\\', '"', '\\', 'n', '\\', '\\'], by decide⟩ ⟨['"'], by decide⟩
    (by decide) (by decide) (by decide)).mpr ?_
  rw [← pending_iff, hend]
  exact Bool.false_ne_true

/-- A backslash with nothing behind it is lost. -/
theorem unescape_keeps_trailing :
    ¬∃ out, unescape true (some "a\\".toList) (some "\"".toList) =
        ((out.length : Result), some out) ∧
      out = kept ['"'] "a\\".toList ∧ out.length + 1 ≤ 3 := by
  have hrun : unescape true (some "a\\".toList) (some "\"".toList) = (1, some ['a']) := by decide
  rintro ⟨out, hout, hkept, -⟩
  rw [hrun] at hout
  have hlen := Option.some.inj (Prod.mk.inj hout).2
  rw [← hlen] at hkept
  exact absurd hkept (by decide)

end Mccp.Str
