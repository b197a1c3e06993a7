/-
  Mccp.Str.ByBase
  ───────────────
  **PARSING BY BASE, AND WHERE IT DOES NOT INVERT PRINTING.**

  A number printed in a base comes back through the parser with that base,
  unless its last digit is one of those that the parser takes for a multiplier
  or its `i`: s_get_prefix_multiplier() does not know of the base.

      digitsText, printInt        — printing
      digitsValue_digitsText      — the digits stand for the number
      TakenForSuffix              — the digits that are no digits to the parser
      parseBigintByBase_print     — what the parser makes of a printed number
      parseByBase_print           — when that is the number
-/
import Mathlib.Data.Nat.Digits.Defs
import Mathlib.Tactic.IntervalCases
import Mccp.Str.NumberText

namespace Mccp.Str

open CString (charAt isspace skipSpaces rtrim isValidString StartsSolid EndsSolid)

/-! ## §1. Printing. -/

/-- A digit, with letters from 10 on, small ones or capitals. -/
def digitChar (upper : Bool) (d : Nat) : Char :=
  if d < 10 then Char.ofNat ('0'.toNat + d)
  else Char.ofNat ((if upper then 'A' else 'a').toNat + (d - 10))

/-- The digits of a number, none for zero. -/
def digitsText (base : Nat) (upper : Bool) (n : Nat) : List Char :=
  (Nat.digits base n).reverse.map (digitChar upper)

/-- A number in a base. -/
def printNat (base : Nat) (upper : Bool) (n : Nat) : List Char :=
  if n = 0 then [digitChar upper 0] else digitsText base upper n

/-- A number in a base, behind a minus when it is negative. -/
def printInt (base : Nat) (upper : Bool) (v : Int) : List Char :=
  (if v < 0 then ['-'] else []) ++ printNat base upper v.natAbs

section

variable (upper : Bool)

theorem digitVal_digitChar : ∀ d < 36, digitVal (digitChar upper d) = some d := by
  cases upper <;> decide

theorem isspace_digitChar : ∀ d < 36, isspace (digitChar upper d) = false := by
  cases upper <;> decide

theorem digitChar_not_sign : ∀ d < 36, digitChar upper d ≠ '-' ∧ digitChar upper d ≠ '+' := by
  cases upper <;> decide

variable {base : Nat}

theorem digitsText_zero : digitsText base upper 0 = [] := by
  unfold digitsText
  rw [Nat.digits_zero]
  rfl

variable (h2 : 2 ≤ base)

include h2

theorem digitsText_succ {n : Nat} (hn : n ≠ 0) :
    digitsText base upper n = digitsText base upper (n / base) ++ [digitChar upper (n % base)] := by
  unfold digitsText
  rw [Nat.digits_def' (by omega) (by omega)]
  simp

theorem digitsText_ne_nil {n : Nat} (hn : n ≠ 0) : digitsText base upper n ≠ [] := by
  rw [digitsText_succ upper h2 hn]
  simp

theorem printNat_ne_nil (n : Nat) : printNat base upper n ≠ [] := by
  unfold printNat
  split
  · exact List.cons_ne_nil _ _
  · next hn => exact digitsText_ne_nil upper h2 hn

theorem digitsText_eq_nil {n : Nat} : digitsText base upper n = [] ↔ n = 0 := by
  constructor
  · intro h
    by_contra hn
    exact digitsText_ne_nil upper h2 hn h
  · intro h
    rw [h, digitsText_zero]

/-- Each character is the one of a digit. -/
theorem mem_digitsText {n : Nat} {c : Char} (hc : c ∈ digitsText base upper n) :
    ∃ d < base, c = digitChar upper d := by
  unfold digitsText at hc
  obtain ⟨d, hd, rfl⟩ := List.mem_map.mp hc
  exact ⟨d, Nat.digits_lt_base (by omega) (List.mem_reverse.mp hd), rfl⟩

variable (h36 : base ≤ 36)

include h36

theorem isDigit_digitChar {d : Nat} (hd : d < base) : isDigit base (digitChar upper d) = true := by
  unfold isDigit
  rw [digitVal_digitChar upper d (by omega)]
  exact decide_eq_true hd

/-- **The digits stand for the number.** -/
theorem digitsValue_digitsText (n : Nat) : digitsValue base (digitsText base upper n) = n := by
  induction n using Nat.strong_induction_on with
  | _ n ih =>
    by_cases hn : n = 0
    · rw [hn, digitsText_zero]
      rfl
    · -- the last digit is `n % base`, the others are those of `n / base`
      have hlt : n / base < n := Nat.div_lt_self (by omega) (by omega)
      have hmod : n % base < base := Nat.mod_lt n (by omega)
      have hrest := ih (n / base) hlt
      unfold digitsValue at hrest
      unfold digitsValue
      rw [digitsText_succ upper h2 hn, List.foldl_append, hrest, List.foldl_cons, List.foldl_nil,
        digitVal_digitChar upper _ (by omega)]
      exact Nat.div_add_mod' n base

end

/-! ## §2. What the parser takes from the end. -/

/-- The digits whose characters are an `i` or a multiplier letter. -/
def TakenForSuffix (d : Nat) : Prop := d ∈ [16, 18, 20, 22, 25, 29, 33, 34, 35]

instance : DecidablePred TakenForSuffix := fun d => inferInstanceAs (Decidable (d ∈ _))

theorem takenForSuffix_iff (upper : Bool) : ∀ d < 36, TakenForSuffix d ↔
    isI (digitChar upper d) = true ∨ (Letter.ofChar (digitChar upper d)).isSome = true := by
  cases upper <;> decide

/-- An `i` is the digit 18, and the letter k the digit 20. -/
theorem isI_digitChar (upper : Bool) : ∀ d < 36, isI (digitChar upper d) = true → d = 18 := by
  cases upper <;> decide

theorem letter_k_digitChar (upper : Bool) :
    ∀ d < 36, Letter.ofChar (digitChar upper d) = some .k → d = 20 := by
  cases upper <;> decide

/-- **The letter goes**, unless nothing stands before it. -/
theorem stripLetter_concat {got_i : Bool} {u : List Char} {c : Char} (hu : EndsSolid u)
    (hc : isspace c = false) :
    stripLetter got_i (u ++ [c]) =
      match Letter.ofChar c with
      | some key => if u = [] then (none, u) else (some (sMultTbl key got_i), u)
      | none => (some 1, u ++ [c]) := by
  have hpos : ∀ {α : Type} (l : List α), l.length < 1 ↔ l = [] := by
    intro α l
    rw [Nat.lt_one_iff, List.length_eq_zero_iff]
  unfold stripLetter
  dsimp only
  rw [if_neg (by simp), CString.rtrim_of_solid (endsSolid_concat hc), CString.charAt_concat]
  cases Letter.ofChar c with
  | none =>
    dsimp only
    rw [if_neg (by simp)]
  | some key =>
    dsimp only
    rw [CString.take_concat, CString.rtrim_of_solid hu]
    exact if_congr (hpos u) rfl rfl

/-- **The `i` goes**, and the letter before it. -/
theorem getPrefixMultiplier_concat {u : List Char} {c : Char} (hu : EndsSolid u)
    (hc : isspace c = false) :
    getPrefixMultiplier (u ++ [c]) =
      if isI c then if u = [] then (none, u ++ [c]) else stripLetter true u
      else stripLetter false (u ++ [c]) := by
  unfold getPrefixMultiplier
  rw [if_pos (by simp)]
  dsimp only
  rw [CString.rtrim_of_solid (endsSolid_concat hc), if_neg (by simp), CString.charAt_concat,
    CString.take_concat, CString.rtrim_of_solid hu]
  have hlen : (u ++ [c]).length - 1 < 1 ↔ u = [] := by
    rw [List.length_append, List.length_singleton, Nat.add_sub_cancel, Nat.lt_one_iff,
      List.length_eq_zero_iff]
  by_cases hi : isI c = true
  · rw [if_pos hi, if_pos hi]
    exact if_congr hlen rfl rfl
  · rw [if_neg hi, if_neg hi]

/-! ## §3. What the parser makes of a printed number. -/

section

variable {base : Nat} (h2 : 2 ≤ base) (h36 : base ≤ 36) (upper : Bool)

include h2 h36

theorem endsSolid_digitsText (n : Nat) : EndsSolid (digitsText base upper n) := by
  intro r c h
  have hc : c ∈ digitsText base upper n := h ▸ List.mem_append_right r List.mem_cons_self
  obtain ⟨d, hd, rfl⟩ := mem_digitsText upper h2 hc
  exact isspace_digitChar upper d (by omega)

/-- The digits of a number do not end with an `i` or a letter, or they do. -/
theorem getPrefixMultiplier_digitsText {n : Nat} (hn : n ≠ 0) :
    getPrefixMultiplier (digitsText base upper n) =
      if isI (digitChar upper (n % base)) then
        if n / base = 0 then (none, digitsText base upper n)
        else stripLetter true (digitsText base upper (n / base))
      else stripLetter false (digitsText base upper n) := by
  have hmod : n % base < base := Nat.mod_lt n (by omega)
  rw [digitsText_succ upper h2 hn, getPrefixMultiplier_concat
    (endsSolid_digitsText h2 h36 upper _) (isspace_digitChar upper _ (by omega))]
  split
  · exact if_congr (digitsText_eq_nil upper h2) rfl rfl
  · rfl

/-- The second half, for the digits of a number. -/
theorem stripLetter_digitsText (got_i : Bool) {n : Nat} (hn : n ≠ 0) :
    stripLetter got_i (digitsText base upper n) =
      match Letter.ofChar (digitChar upper (n % base)) with
      | some key =>
          if n / base = 0 then (none, digitsText base upper (n / base))
          else (some (sMultTbl key got_i), digitsText base upper (n / base))
      | none => (some 1, digitsText base upper n) := by
  have hmod : n % base < base := Nat.mod_lt n (by omega)
  rw [digitsText_succ upper h2 hn, stripLetter_concat
    (endsSolid_digitsText h2 h36 upper _) (isspace_digitChar upper _ (by omega))]
  cases Letter.ofChar (digitChar upper (n % base)) with
  | none => rfl
  | some key => exact if_congr (digitsText_eq_nil upper h2) rfl rfl

end

/-- A multiplier is a thousand at least, or 1024, or a million at least. -/
theorem sMultTbl_cases (key : Letter) (got_i : Bool) :
    1000000 ≤ sMultTbl key got_i ∨
      key = .k ∧ sMultTbl key got_i = if got_i then 1024 else 1000 := by
  cases key <;> cases got_i <;> decide

/-- What a text says before a multiplier is another number: with the letter
alone. -/
theorem scaled_ne {base n : Nat} (h36 : base ≤ 36) (h2 : 2 ≤ base) {key : Letter}
    (hm : n / base ≠ 0) : n / base * sMultTbl key false ≠ n := by
  have hdiv := Nat.div_add_mod' n base
  have hmod : n % base < base := Nat.mod_lt n (by omega)
  have hmul : n / base * base ≤ n / base * 36 := Nat.mul_le_mul_left _ h36
  have hscale : n / base * 1000 ≤ n / base * sMultTbl key false := by
    apply Nat.mul_le_mul_left
    rcases sMultTbl_cases key false with h | ⟨-, h⟩
    · omega
    · rw [h]
      decide
  omega

/-- With the letter and an `i`. -/
theorem scaled_i_ne {base n : Nat} (h36 : base ≤ 36) (h2 : 2 ≤ base) {key : Letter}
    (hi : n % base = 18) (hk : key = .k → n / base % base = 20) (hm : n / base / base ≠ 0) :
    n / base / base * sMultTbl key true ≠ n := by
  have hdiv := Nat.div_add_mod' n base
  have hdiv' := Nat.div_add_mod' (n / base) base
  have hmod' : n / base % base < base := Nat.mod_lt _ (by omega)
  rw [← hdiv', hi] at hdiv
  generalize n / base / base = m at *
  generalize n / base % base = d at *
  rcases sMultTbl_cases key true with h | ⟨hkey, h⟩
  · -- a million and more is too much
    have hscale : m * 1000000 ≤ m * sMultTbl key true := Nat.mul_le_mul_left m h
    have hsum : (m * base + d) * base ≤ (m * 36 + 36) * 36 := by
      apply Nat.mul_le_mul _ h36
      have hmul := Nat.mul_le_mul_left m h36
      omega
    omega
  · -- 1024 is more than most squares of bases, and never leaves the right rest
    rw [hk hkey] at hdiv hmod'
    rw [h, if_pos rfl, ← hdiv]
    intro heq
    interval_cases base <;> omega

/-- GMP as far as it is relied on for a base: digits of it are read exactly. -/
def Gmp.ReadsBase (gmp : Gmp) (base : Nat) : Prop :=
  ∀ ds, ds ≠ [] → (∀ c ∈ ds, isDigit base c = true) →
    gmp.mpz_init_set_str ds base = some (digitsValue base ds : Int)

section

variable {base : Nat} (h2 : 2 ≤ base) (h36 : base ≤ 36) (upper : Bool)

include h2 h36

/-- A last digit that is no suffix leaves the digits alone. -/
theorem getPrefixMultiplier_digits {n : Nat} (hn : n ≠ 0) (hlast : ¬TakenForSuffix (n % base)) :
    getPrefixMultiplier (digitsText base upper n) = (some 1, digitsText base upper n) := by
  have hmod : n % base < base := Nat.mod_lt n (by omega)
  rw [takenForSuffix_iff upper _ (by omega), not_or] at hlast
  have hnone := Option.not_isSome_iff_eq_none.mp hlast.2
  rw [getPrefixMultiplier_digitsText h2 h36 upper hn, if_neg hlast.1,
    stripLetter_digitsText h2 h36 upper false hn, hnone]

/-- **A last digit that is taken for a suffix** leaves nothing, or what stands
for another number. -/
theorem getPrefixMultiplier_taken {n : Nat} (hn : n ≠ 0) (hlast : TakenForSuffix (n % base)) :
    (getPrefixMultiplier (digitsText base upper n)).1 = none ∨
      ∃ k mul, getPrefixMultiplier (digitsText base upper n) =
          (some mul, digitsText base upper k) ∧ k ≠ 0 ∧ k * mul ≠ n := by
  have hmod : n % base < base := Nat.mod_lt n (by omega)
  rw [getPrefixMultiplier_digitsText h2 h36 upper hn]
  by_cases hi : isI (digitChar upper (n % base)) = true
  · -- an i goes, and a letter before it
    have h18 := isI_digitChar upper _ (by omega) hi
    rw [if_pos hi]
    by_cases hm : n / base = 0
    · rw [if_pos hm]
      exact .inl rfl
    · rw [if_neg hm, stripLetter_digitsText h2 h36 upper true hm]
      cases hletter : Letter.ofChar (digitChar upper (n / base % base)) with
      | none =>
        -- the i alone is dropped
        refine .inr ⟨n / base, 1, rfl, hm, ?_⟩
        have hlt : n / base < n := Nat.div_lt_self (by omega) (by omega)
        omega
      | some key =>
        dsimp only
        by_cases hm' : n / base / base = 0
        · rw [if_pos hm']
          exact .inl rfl
        · rw [if_neg hm']
          refine .inr ⟨n / base / base, _, rfl, hm', scaled_i_ne h36 h2 h18 ?_ hm'⟩
          rintro rfl
          have hmod' : n / base % base < base := Nat.mod_lt _ (by omega)
          exact letter_k_digitChar upper _ (by omega) hletter
  · -- a letter alone goes
    have hsome := ((takenForSuffix_iff upper _ (by omega)).mp hlast).resolve_left hi
    obtain ⟨key, hkey⟩ := Option.isSome_iff_exists.mp hsome
    rw [if_neg hi, stripLetter_digitsText h2 h36 upper false hn, hkey]
    dsimp only
    by_cases hm : n / base = 0
    · rw [if_pos hm]
      exact .inl rfl
    · rw [if_neg hm]
      exact .inr ⟨n / base, _, rfl, hm, scaled_ne h36 h2 hm⟩

/-- A printed number is a sign and solid characters. -/
theorem skipSign_printInt (v : Int) :
    skipSign (printInt base upper v) = (decide (v < 0), printNat base upper v.natAbs) := by
  have hmem : ∀ c ∈ printNat base upper v.natAbs, ∃ d < 36, c = digitChar upper d := by
    intro c hc
    unfold printNat at hc
    split at hc
    · exact ⟨0, by decide, List.mem_singleton.mp hc⟩
    · obtain ⟨d, hd, h⟩ := mem_digitsText upper h2 hc
      exact ⟨d, by omega, h⟩
  have hsolid : StartsSolid (printNat base upper v.natAbs) := by
    intro c r h
    obtain ⟨d, hd, rfl⟩ := hmem c (h ▸ List.mem_cons_self)
    exact isspace_digitChar upper d hd
  -- no digit is a second sign
  have hsigned : ¬StartsSigned (skipSpaces (printNat base upper v.natAbs)) := by
    rw [CString.skipSpaces_of_solid hsolid]
    rintro ⟨c, r, h, hc⟩
    obtain ⟨d, hd, rfl⟩ := hmem c (h ▸ List.mem_cons_self)
    have hne := digitChar_not_sign upper d hd
    exact hc.elim hne.2 hne.1
  have hsign : ∀ c ∈ (if v < 0 then some '-' else none : Option Char), c = '+' ∨ c = '-' := by
    intro c hc
    split at hc
    · exact .inr (Option.some.inj hc).symm
    · exact absurd hc (by simp)
  have h := skipSign_parts CString.Spaces.nil CString.Spaces.nil hsign (fun _ => hsigned)
  rw [CString.skipSpaces_of_solid hsolid, List.nil_append, List.nil_append] at h
  unfold printInt
  by_cases hv : v < 0
  · simp only [if_pos hv] at h ⊢
    rw [decide_eq_true hv]
    exact h
  · simp only [if_neg hv] at h ⊢
    rw [decide_eq_false hv]
    exact h

theorem endsSolid_printNat (n : Nat) : EndsSolid (printNat base upper n) := by
  unfold printNat
  split
  · intro r c h
    have hsplit : [] ++ [digitChar upper 0] = r ++ [c] := h
    obtain ⟨-, hc⟩ := List.append_inj' hsplit rfl
    rw [← (List.cons.inj hc).1]
    exact isspace_digitChar upper 0 (by decide)
  · exact endsSolid_digitsText h2 h36 upper n

/-- GMP reads what is printed. -/
theorem reads_digitsText {gmp : Gmp} (hread : gmp.ReadsBase base) {n : Nat} (hn : n ≠ 0) :
    gmp.mpz_init_set_str (digitsText base upper n) base = some (n : Int) := by
  rw [hread _ (digitsText_ne_nil upper h2 hn), digitsValue_digitsText upper h2 h36]
  intro c hc
  obtain ⟨d, hd, rfl⟩ := mem_digitsText upper h2 hc
  exact isDigit_digitChar upper h2 h36 hd

theorem reads_printNat {gmp : Gmp} (hread : gmp.ReadsBase base) (n : Nat) :
    gmp.mpz_init_set_str (printNat base upper n) base = some (n : Int) := by
  unfold printNat
  split
  · next hn =>
    have hdigit : isDigit base (digitChar upper 0) = true :=
      isDigit_digitChar upper h2 h36 (by omega)
    have hval : digitsValue base [digitChar upper 0] = 0 := by
      unfold digitsValue
      rw [List.foldl_cons, List.foldl_nil, digitVal_digitChar upper 0 (by decide), Nat.zero_mul]
      rfl
    rw [hread _ (List.cons_ne_nil _ _), hval, hn]
    intro c hc
    rw [List.mem_singleton.mp hc]
    exact hdigit
  · next hn => exact reads_digitsText h2 h36 upper hread hn

/-- A number whose last digit is no suffix is all digits to the parser. -/
theorem getPrefixMultiplier_printNat {n : Nat} (hlast : ¬TakenForSuffix (n % base)) :
    getPrefixMultiplier (printNat base upper n) = (some 1, printNat base upper n) := by
  unfold printNat
  split
  · cases upper <;> decide
  · next hn => exact getPrefixMultiplier_digits h2 h36 upper hn hlast

/-- **The parser and a printed number**: it comes back unless its last digit is
taken for a suffix. -/
theorem parseBigintByBase_print {gmp : Gmp} (hread : gmp.ReadsBase base)
    (hmemory : gmp.memory = true) (v : Int) :
    parseBigintByBase gmp (printInt base upper v) base = some v ↔
      ¬TakenForSuffix (v.natAbs % base) := by
  unfold parseBigintByBase
  rw [skipSign_printInt h2 h36]
  dsimp only
  rw [if_pos ⟨printNat_ne_nil upper h2 _, hmemory⟩,
    CString.rtrim_of_solid (endsSolid_printNat h2 h36 upper _)]
  by_cases hlast : TakenForSuffix (v.natAbs % base)
  · refine iff_of_false ?_ (not_not_intro hlast)
    have hn : v.natAbs ≠ 0 := by
      intro hn
      rw [hn, Nat.zero_mod] at hlast
      exact absurd hlast (by decide)
    have hprint : printNat base upper v.natAbs = digitsText base upper v.natAbs := if_neg hn
    rw [hprint]
    rcases getPrefixMultiplier_taken h2 h36 upper hn hlast with h | ⟨k, mul, h, hk, hkm⟩
    · cases hp : getPrefixMultiplier (digitsText base upper v.natAbs) with
      | mk o r =>
        rw [hp] at h
        dsimp only at h
        rw [h]
        simp
    · rw [h]
      dsimp only
      rw [reads_digitsText h2 h36 upper hread hk, Option.map_some]
      intro heq
      have hv := Option.some.inj heq
      rw [show (k : Int) * mul = ((k * mul : Nat) : Int) from rfl] at hv
      apply hkm
      split at hv <;> omega
  · rw [getPrefixMultiplier_printNat h2 h36 upper hlast]
    dsimp only
    rw [reads_printNat h2 h36 upper hread, Option.map_some]
    refine iff_of_true (congrArg some ?_) hlast
    -- the sign is put back
    by_cases hv : v < 0
    · rw [decide_eq_true hv, if_pos rfl]
      omega
    · rw [decide_eq_false hv, if_neg Bool.false_ne_true]
      omega

end

/-! ## §4. The parsers. -/

/-- **The parsers of one kind**: they store what was read, where the conversion
is exact within the range. -/
theorem parseIntByBase_ok {gmp : Gmp} {convert : Int → Int} {lower upper : Int}
    {text : List Char} {base : Nat} {v : Int} (hne : text ≠ []) (hbase : 1 < base)
    (hconvert : ∀ w, lower ≤ w → w ≤ upper → convert w = w) (hv : lower ≤ v ∧ v ≤ upper)
    (old : Int) :
    parseIntByBase gmp convert lower upper (some text) (some old) base = (.ok, some v) ↔
      parseBigintByBase gmp text base = some v := by
  have hvalid : isValidString (some text) = true := by simp [isValidString, hne]
  unfold parseIntByBase parseBigintByBaseInRange
  dsimp only
  rw [if_pos ⟨hvalid, hbase⟩]
  cases parseBigintByBase gmp text base with
  | none => simp
  | some w =>
    dsimp only
    by_cases hw : lower ≤ w ∧ w ≤ upper
    · rw [if_pos hw]
      dsimp only
      rw [if_pos rfl, hconvert w hw.1 hw.2]
      simp
    · rw [if_neg hw]
      dsimp only
      refine iff_of_false ?_ ?_
      · intro h
        exact absurd (Prod.mk.inj h).1 (by decide)
      · intro h
        exact hw (Option.some.inj h ▸ hv)

/-- **Parsing by base inverts printing** if and only if the last digit is none of
those that are taken for a multiplier or an `i`. -/
theorem parseByBase_print {gmp : Gmp} (hg : gmp.Exact) {base : Nat} (h2 : 2 ≤ base)
    (h36 : base ≤ 36) (hread : gmp.ReadsBase base) (upper : Bool) (type : IntType) {v : Int}
    (hv : type.Holds v) (old : Int) :
    type.parseByBase gmp (some (printInt base upper v)) (some old) base = (.ok, some v) ↔
      v.natAbs % base ∉ [16, 18, 20, 22, 25, 29, 33, 34, 35] := by
  have hne : printInt base upper v ≠ [] := by
    intro h
    exact printNat_ne_nil upper h2 _ (List.append_eq_nil_iff.mp h).2
  have hparse := parseBigintByBase_print h2 h36 upper hread hg.memory v
  have hbase : 1 < base := h2
  refine Iff.trans ?_ hparse
  cases type with
  | int16 =>
    exact parseIntByBase_ok hne hbase (fun w h1 h2 => hg.toSigned_get_si (by omega) (by omega)
      (by omega) (by omega)) ⟨by have := hv.1; omega, by have := hv.2; omega⟩ old
  | uint16 =>
    exact parseIntByBase_ok hne hbase (fun w h1 h2 => hg.toUnsigned_get_ui h1 (by omega)
      (by omega)) ⟨hv.1, by have := hv.2; omega⟩ old
  | int32 =>
    exact parseIntByBase_ok hne hbase (fun w h1 h2 => hg.toSigned_get_si (by omega) (by omega)
      (by omega) (by omega)) ⟨by have := hv.1; omega, by have := hv.2; omega⟩ old
  | uint32 =>
    exact parseIntByBase_ok hne hbase (fun w h1 h2 => hg.toUnsigned_get_ui h1 (by omega)
      (by omega)) ⟨hv.1, by have := hv.2; omega⟩ old
  | int64 =>
    exact parseIntByBase_ok hne hbase (fun w h1 h2 => hg.toSigned_get_si (by omega) (by omega)
      (by omega) (by omega)) ⟨by have := hv.1; omega, by have := hv.2; omega⟩ old
  | uint64 =>
    exact parseIntByBase_ok hne hbase (fun w h1 h2 => hg.toUnsigned_get_ui h1 (by omega)
      (by omega)) ⟨hv.1, by have := hv.2; omega⟩ old

theorem Gmp.manual_readsBase {base : Nat} (h36 : base ≤ 36) : Gmp.manual.ReadsBase base := by
  intro ds hne hds
  have hdigit : ∀ c ∈ ds, isDigit 36 c = true := fun c hc => isDigit_mono h36 (hds c hc)
  have hother : ∀ {c d : Char}, isDigit 36 c = true → isDigit 36 d = false → c ≠ d := by
    intro c d hc hd h
    rw [← h, hc] at hd
    exact absurd hd (by decide)
  have hfilter : ds.filter (fun c => !isspace c) = ds := by
    rw [List.filter_eq_self]
    intro c hc
    have hc' := hdigit c hc
    simp [isspace, hother hc' (rfl : isDigit 36 ' ' = false),
      hother hc' (rfl : isDigit 36 '\t' = false), hother hc' (rfl : isDigit 36 '\n' = false),
      hother hc' (rfl : isDigit 36 '\x0b' = false), hother hc' (rfl : isDigit 36 '\x0c' = false),
      hother hc' (rfl : isDigit 36 '\r' = false)]
  have hfirst : charAt ds 0 ≠ '-' := by
    obtain ⟨c, u, rfl⟩ := List.exists_cons_of_ne_nil hne
    exact hother (hdigit c List.mem_cons_self) rfl
  show (if _ then some _ else none) = some _
  rw [hfilter, if_neg hfirst, if_neg hfirst, if_pos ⟨hne, List.all_eq_true.mpr hds⟩]

/-- A negative number in base 36. -/
theorem parseByBase_print_letters :
    parseInt64ByBase Gmp.manual (some (printInt 36 false (-1043967))) (some 0) 36 =
      (.ok, some (-1043967)) := by
  have hholds : IntType.int64.Holds (-1043967) := by decide
  exact (parseByBase_print Gmp.manual_exact (by decide) (by decide)
    (Gmp.manual_readsBase (by decide)) false .int64 hholds 0).mpr (by decide)

/-- In base 20 the last digit of 38 is an `i`, and what is stored is 1. -/
theorem parseByBase_print_i :
    parseInt64ByBase Gmp.manual (some (printInt 20 false 38)) (some 0) 20 = (.ok, some 1) ∧
      parseInt64ByBase Gmp.manual (some (printInt 20 false 38)) (some 0) 20 ≠ (.ok, some 38) := by
  have htext : printInt 20 false 38 = ['1', 'i'] := by
    simp [printInt, printNat, digitsText, digitChar]
  have hrun : parseInt64ByBase Gmp.manual (some ['1', 'i']) (some 0) 20 = (.ok, some 1) := by
    decide
  rw [htext, hrun]
  exact ⟨rfl, by decide⟩

end Mccp.Str
