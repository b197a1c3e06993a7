/-
  Mccp.Lib.CString
  ────────────────
  **STRINGS OF C, IN MEMORY AND AS LISTS.**

  A `CString` is a list of characters without the terminator.  In memory, a
  list of characters itself, the string at a position is what stands before
  the next terminator; beyond the end of the list all is terminator.

      charAt, cstr, strchr   — reading memory
      isspace                — isspace() of the C locale
      skipSpaces, rtrim      — a string without its leading, its trailing spaces
      startsWithCase         — strncasecmp() against a whole pattern

  The laws of memory speak of `pre ++ rest` at the position `pre.length`: what
  has been passed, and what comes.
-/
import Mathlib.Data.List.Basic
import Mathlib.Data.List.DropRight
import Mathlib.Data.List.TakeWhile

/-- A string of C: characters, none of them the terminator. -/
structure CString where
  chars : List Char
  noNul : '\x00' ∉ chars

namespace CString

/-- The terminator. -/
abbrev nul : Char := '\x00'

/-- A pointer that is neither NULL nor one to the empty string. -/
def isValidString (s : Option (List Char)) : Bool := s ≠ none ∧ s ≠ some []

/-! ## §1. Memory. -/

/-- The character at a position. -/
def charAt (mem : List Char) (p : Nat) : Char := mem.getD p nul

/-- The string at a position. -/
def cstr (mem : List Char) (p : Nat) : List Char := (mem.drop p).takeWhile (· ≠ nul)

/-- The first place of a character in the string at a position. -/
def strchr (mem : List Char) (p : Nat) (c : Char) : Option Nat :=
  ((cstr mem p).findIdx? (· = c)).map (p + ·)

theorem charAt_append (pre : List Char) (c : Char) (rest : List Char) :
    charAt (pre ++ c :: rest) pre.length = c := by
  simp [charAt]

/-- The character just passed. -/
theorem charAt_last (pre : List Char) (c : Char) (rest : List Char) :
    charAt (pre ++ [c] ++ rest) ((pre ++ [c]).length - 1) = c := by
  simp [charAt]

theorem charAt_concat (v : List Char) (c : Char) :
    charAt (v ++ [c]) ((v ++ [c]).length - 1) = c := by
  have h := charAt_last v c []
  rw [List.append_nil] at h
  exact h

theorem take_concat (v : List Char) (c : Char) : (v ++ [c]).take ((v ++ [c]).length - 1) = v := by
  rw [List.length_append, List.length_singleton, Nat.add_sub_cancel]
  exact List.take_left

theorem set_append (pre : List Char) (c d : Char) (rest : List Char) :
    (pre ++ c :: rest).set pre.length d = pre ++ d :: rest := by
  simp

/-- The string at a position that ends at the next terminator. -/
theorem cstr_append {e : List Char} (he : nul ∉ e) (pre rest : List Char) :
    cstr (pre ++ (e ++ nul :: rest)) pre.length = e := by
  unfold cstr
  rw [List.drop_left]
  have hall : ∀ a ∈ e, decide (a ≠ nul) = true := by
    intro a ha
    simp only [ne_eq, decide_eq_true_eq]
    intro h
    exact he (h ▸ ha)
  rw [List.takeWhile_append_of_pos hall]
  simp

/-- The search for a character passes one that is another. -/
theorem strchr_pass {c d : Char} (hc : c ≠ nul) (hd : c ≠ d) (pre rest : List Char) :
    strchr (pre ++ c :: rest) pre.length d = strchr (pre ++ c :: rest) (pre.length + 1) d := by
  unfold strchr cstr
  have h1 : (pre ++ c :: rest).drop pre.length = c :: rest := List.drop_left
  have h2 : (pre ++ c :: rest).drop (pre.length + 1) = rest := by
    rw [← List.drop_drop, h1]
    rfl
  rw [h1, h2, List.takeWhile_cons_of_pos (by simpa using hc), List.findIdx?_cons]
  simp only [hd, decide_false, Bool.false_eq_true, if_false, Option.map_map]
  congr 1
  funext k
  show pre.length + (k + 1) = pre.length + 1 + k
  omega

/-- The search for a character ends at it. -/
theorem strchr_here {c : Char} (hc : c ≠ nul) (pre rest : List Char) :
    strchr (pre ++ c :: rest) pre.length c = some pre.length := by
  unfold strchr cstr
  rw [List.drop_left, List.takeWhile_cons_of_pos (by simpa using hc), List.findIdx?_cons]
  simp

/-- The search for a character passes all that stands before its first place. -/
theorem strchr_append {c : Char} {u : List Char} (hc : c ≠ nul) (hu : nul ∉ u) (hcu : c ∉ u)
    (pre rest : List Char) :
    strchr (pre ++ (u ++ c :: rest)) pre.length c = some (pre ++ u).length := by
  induction u generalizing pre with
  | nil =>
    rw [List.nil_append, List.append_nil]
    exact strchr_here hc pre rest
  | cons d u ih =>
    have hd : d ≠ nul := by
      intro h
      exact hu (h ▸ List.mem_cons_self)
    have hdc : d ≠ c := by
      intro h
      exact hcu (h ▸ List.mem_cons_self)
    have hrest := ih (fun h => hu (List.mem_cons_of_mem d h))
      (fun h => hcu (List.mem_cons_of_mem d h)) (pre ++ [d])
    rw [List.cons_append, strchr_pass hd hdc]
    simp only [List.append_assoc, List.singleton_append, List.length_append, List.length_cons,
      List.length_nil] at hrest ⊢
    exact hrest

/-- The search for a character that does not come before the next terminator. -/
theorem strchr_eq_none {c : Char} {u : List Char} (hu : nul ∉ u) (hcu : c ∉ u)
    (pre rest : List Char) : strchr (pre ++ (u ++ nul :: rest)) pre.length c = none := by
  unfold strchr
  rw [cstr_append hu, Option.map_eq_none_iff, List.findIdx?_eq_none_iff]
  intro d hd
  rw [decide_eq_false_iff_not]
  intro h
  exact hcu (h ▸ hd)

/-- The character before the place where a text ends, behind a terminator. -/
theorem charAt_before (pre t rest : List Char) {c : Char} (hc : c ≠ nul) :
    charAt (pre ++ [nul] ++ t ++ rest) ((pre ++ [nul] ++ t).length - 1) = c ↔
      t.getLast? = some c := by
  cases t using List.reverseRecOn with
  | nil =>
    rw [List.append_nil, charAt_last]
    simp [hc.symm]
  | append_singleton t d =>
    rw [← List.append_assoc, charAt_last]
    simp

/-- A text comes apart where a property of its characters first fails. -/
theorem exists_span (p : Char → Prop) [DecidablePred p] (text : List Char) :
    ∃ u rest, text = u ++ rest ∧ (∀ c ∈ u, p c) ∧ ∀ c r, rest = c :: r → ¬p c := by
  refine ⟨text.takeWhile p, text.dropWhile p, List.takeWhile_append_dropWhile.symm, ?_, ?_⟩
  · intro c hc
    have hpc := List.mem_takeWhile_imp hc
    exact of_decide_eq_true hpc
  · intro c r h
    have hne : text.dropWhile p ≠ [] := by
      rw [h]
      exact List.cons_ne_nil c r
    have hhead := List.head_dropWhile_not (fun c => decide (p c)) hne
    simp only [h, List.head_cons] at hhead
    exact of_decide_eq_false hhead

/-! ## §2. White space. -/

/-- `isspace()` of the C locale. -/
def isspace (c : Char) : Bool :=
  c = ' ' ∨ c = '\t' ∨ c = '\n' ∨ c = '\x0b' ∨ c = '\x0c' ∨ c = '\r'

/-- White space and nothing else. -/
def Spaces (w : List Char) : Prop := ∀ c ∈ w, isspace c = true

instance : DecidablePred Spaces := fun w =>
  decidable_of_iff (w.all isspace = true) List.all_eq_true

theorem Spaces.nil : Spaces [] := fun _ h => absurd h List.not_mem_nil

theorem Spaces.append {w w' : List Char} (h : Spaces w) (h' : Spaces w') : Spaces (w ++ w') := by
  intro c hc
  rcases List.mem_append.mp hc with hc | hc
  · exact h c hc
  · exact h' c hc

/-- What remains from the first character on that is no space. -/
def skipSpaces (s : List Char) : List Char := s.dropWhile isspace

/-- What remains up to the last character that is no space. -/
def rtrim (s : List Char) : List Char := s.rdropWhile isspace

/-- The first character, if there is one, is no space. -/
def StartsSolid (s : List Char) : Prop := ∀ c r, s = c :: r → isspace c = false

/-- The last character, if there is one, is no space. -/
def EndsSolid (s : List Char) : Prop := ∀ r c, s = r ++ [c] → isspace c = false

theorem skipSpaces_append {w : List Char} (hw : Spaces w) (r : List Char) :
    skipSpaces (w ++ r) = skipSpaces r := by
  induction w with
  | nil => rfl
  | cons c w ih =>
    have hc := hw c List.mem_cons_self
    show List.dropWhile isspace (c :: (w ++ r)) = _
    rw [List.dropWhile_cons_of_pos hc]
    exact ih (fun d hd => hw d (List.mem_cons_of_mem c hd))

theorem skipSpaces_of_solid {s : List Char} (h : StartsSolid s) : skipSpaces s = s := by
  cases s with
  | nil => rfl
  | cons c r =>
    have hc := h c r rfl
    exact List.dropWhile_cons_of_neg (by rw [hc]; decide)

theorem skipSpaces_solid (s : List Char) : StartsSolid (skipSpaces s) := by
  induction s with
  | nil =>
    intro c r h
    exact absurd h (by simp [skipSpaces])
  | cons d s ih =>
    intro c r h
    unfold skipSpaces at h
    by_cases hd : isspace d = true
    · rw [List.dropWhile_cons_of_pos hd] at h
      exact ih c r h
    · rw [List.dropWhile_cons_of_neg hd] at h
      injection h with hdc _
      rw [← hdc]
      simpa using hd

/-- A string comes apart into leading spaces and the rest. -/
theorem exists_skipSpaces (s : List Char) : ∃ w, Spaces w ∧ s = w ++ skipSpaces s := by
  refine ⟨s.takeWhile isspace, fun c hc => List.mem_takeWhile_imp hc, ?_⟩
  exact (List.takeWhile_append_dropWhile).symm

theorem rtrim_append {w : List Char} (hw : Spaces w) (r : List Char) :
    rtrim (r ++ w) = rtrim r := by
  induction w using List.reverseRecOn with
  | nil => rw [List.append_nil]
  | append_singleton w c ih =>
    have hc := hw c (by simp)
    rw [← List.append_assoc, rtrim, List.rdropWhile_concat_pos _ _ _ hc]
    exact ih (fun d hd => hw d (List.mem_append_left _ hd))

theorem rtrim_of_solid {s : List Char} (h : EndsSolid s) : rtrim s = s := by
  rw [rtrim, List.rdropWhile_eq_self_iff]
  intro hne
  have hc := h _ _ (List.dropLast_append_getLast hne).symm
  rw [hc]
  decide

theorem rtrim_solid (s : List Char) : EndsSolid (rtrim s) := by
  intro r c h
  have hne : s.rdropWhile isspace ≠ [] := by
    intro habs
    rw [rtrim, habs] at h
    exact absurd h (by simp)
  have hlast := List.rdropWhile_last_not isspace s hne
  have hc : (s.rdropWhile isspace).getLast hne = c := by
    have h' : s.rdropWhile isspace = r ++ [c] := h
    simp [h']
  rw [hc] at hlast
  simpa using hlast

/-- A string comes apart into its trailing spaces and the rest. -/
theorem exists_rtrim (s : List Char) : ∃ w, Spaces w ∧ s = rtrim s ++ w := by
  refine ⟨s.rtakeWhile isspace, fun c hc => List.mem_rtakeWhile_imp hc, ?_⟩
  exact List.rdropWhile_append_rtakeWhile.symm

/-! ## §3. Comparing without regard to case. -/

/-- `strncasecmp(s, pat, strlen(pat)) == 0`, for a pattern in lower case. -/
def startsWithCase (s pat : List Char) : Bool := (s.take pat.length).map Char.toLower = pat

/-- A character has the lower case `d` if it is `d`, or the capital of it. -/
theorem toLower_cases {c d : Char} (h : c.toLower = d) :
    c = d ∨ 65 ≤ c.val.toNat ∧ c.val.toNat + 32 = d.val.toNat := by
  unfold Char.toLower at h
  split at h
  next hc =>
    right
    have h1 : 'A'.val ≤ c.val := hc.1
    have h2 : c.val ≤ 'Z'.val := hc.2
    have hv : c.val + ('a'.val - 'A'.val) = d.val := congrArg Char.val h
    have hn := congrArg UInt32.toNat hv
    rw [UInt32.le_iff_toNat_le] at h1 h2
    rw [UInt32.toNat_add] at hn
    rw [show ('a'.val - 'A'.val).toNat = 32 from rfl] at hn
    rw [show 'A'.val.toNat = 65 from rfl] at h1
    rw [show 'Z'.val.toNat = 90 from rfl] at h2
    omega
  next => exact .inl h

/-- A character below the small letters is the lower case of itself only. -/
theorem eq_of_toLower {c d : Char} (h : c.toLower = d) (hd : d.val.toNat < 97) : c = d := by
  rcases toLower_cases h with h | ⟨hc, h⟩
  · exact h
  · omega

/-- A small letter is the lower case of itself and of its capital. -/
theorem eq_or_eq_of_toLower {c d : Char} (d' : Char) (h : c.toLower = d)
    (hd : d'.val.toNat + 32 = d.val.toNat) : c = d ∨ c = d' := by
  rcases toLower_cases h with h | ⟨-, h⟩
  · exact .inl h
  · right
    apply Char.ext
    apply UInt32.toNat_inj.mp
    omega

/-- What a comparison of two characters without regard to case tells. -/
theorem startsWithCase_two {s : List Char} {a b : Char} (h : startsWithCase s [a, b] = true) :
    ∃ c d r, s = c :: d :: r ∧ c.toLower = a ∧ d.toLower = b := by
  unfold startsWithCase at h
  have hlist := of_decide_eq_true h
  cases s with
  | nil => exact absurd hlist (by simp)
  | cons c s =>
    cases s with
    | nil => exact absurd hlist (by simp)
    | cons d r =>
      simp only [List.length_cons, List.take_succ_cons, List.map_cons, List.cons.injEq] at hlist
      exact ⟨c, d, r, rfl, hlist.1, hlist.2.1⟩

/-- A mark and a small letter are met by the mark and the letter in either case. -/
theorem startsWithCase_letter {s : List Char} {a b : Char} (b' : Char)
    (ha : a.val.toNat < 97) (hb : b'.val.toNat + 32 = b.val.toNat)
    (h : startsWithCase s [a, b] = true) : ∃ r, s = a :: b :: r ∨ s = a :: b' :: r := by
  obtain ⟨c, d, r, rfl, hc, hd⟩ := startsWithCase_two h
  obtain rfl := eq_of_toLower hc ha
  rcases eq_or_eq_of_toLower b' hd hb with rfl | rfl
  · exact ⟨r, .inl rfl⟩
  · exact ⟨r, .inr rfl⟩

end CString
