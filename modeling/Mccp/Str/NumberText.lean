/-
  Mccp.Str.NumberText
  ───────────────────
  **THE TEXTS OF NUMBERS, AND HOW THEY ARE READ.**

  `Parts` is a text taken apart into spaces, signs, radix mark, digits and
  multiplier.  What the parser makes of the parts is computed here once, one
  stage after the other:

      skipSign_parts        — a sign with its spaces
      skipRadix_mark        — a radix mark
      getPrefixMultiplier_parts — the multiplier
      parseBigint_text      — all of it, up to the digits that GMP reads
      number_parsed         — the numbers as they should be written, and the types
-/
import Mccp.Str.Number

namespace Mccp.Str

open CString (charAt isspace skipSpaces rtrim startsWithCase isValidString Spaces StartsSolid
  EndsSolid)

/-! ## §1. Digits. -/

/-- The value of a digit of any base up to 36. -/
def digitVal (c : Char) : Option Nat :=
  if '0' ≤ c ∧ c ≤ '9' then some (c.toNat - '0'.toNat)
  else if 'a' ≤ c ∧ c ≤ 'z' then some (c.toNat - 'a'.toNat + 10)
  else if 'A' ≤ c ∧ c ≤ 'Z' then some (c.toNat - 'A'.toNat + 10)
  else none

/-- The character is a digit of the base. -/
def isDigit (base : Nat) (c : Char) : Bool :=
  match digitVal c with
  | some d => d < base
  | none => false

/-- The number that digits of a base stand for. -/
def digitsValue (base : Nat) (ds : List Char) : Nat :=
  ds.foldl (fun n c => n * base + (digitVal c).getD 0) 0

/-- The bases that a radix mark can give. -/
def IsBase (base : Nat) : Prop := base = 2 ∨ base = 8 ∨ base = 10 ∨ base = 16

theorem isDigit_mono {base base' : Nat} (h : base ≤ base') {c : Char}
    (hc : isDigit base c = true) : isDigit base' c = true := by
  unfold isDigit at hc ⊢
  split at hc
  next d hd =>
    simp only [decide_eq_true_eq] at hc ⊢
    omega
  next => exact absurd hc (by decide)

theorem IsBase.le {base : Nat} (h : IsBase base) : base ≤ 16 := by
  unfold IsBase at h
  omega

/-- What is no digit of base 16 is no digit. -/
theorem ne_of_isDigit {base : Nat} (hb : IsBase base) {c d : Char} (hc : isDigit base c = true)
    (hd : isDigit 16 d = false) : c ≠ d := by
  intro h
  rw [← h, isDigit_mono hb.le hc] at hd
  exact absurd hd (by decide)

theorem isspace_of_isDigit {base : Nat} (hb : IsBase base) {c : Char}
    (hc : isDigit base c = true) : isspace c = false := by
  have hne : ∀ d, isDigit 16 d = false → c ≠ d := fun d hd => ne_of_isDigit hb hc hd
  simp [isspace, hne ' ' rfl, hne '\t' rfl, hne '\n' rfl, hne '\x0b' rfl, hne '\x0c' rfl,
    hne '\r' rfl]

theorem isI_of_isDigit {base : Nat} (hb : IsBase base) {c : Char} (hc : isDigit base c = true) :
    isI c = false := by
  simp [isI, ne_of_isDigit hb hc (d := 'i') rfl, ne_of_isDigit hb hc (d := 'I') rfl]

theorem letter_of_isDigit {base : Nat} (hb : IsBase base) {c : Char}
    (hc : isDigit base c = true) : Letter.ofChar c = none := by
  cases h : Letter.ofChar c with
  | none => rfl
  | some l =>
    exfalso
    unfold Letter.ofChar at h
    split at h
    all_goals first
      | exact absurd rfl (ne_of_isDigit hb hc rfl)
      | exact absurd h (by simp)

/-! ## §2. The parts of a text. -/

/-- A text taken apart. -/
structure Parts where
  w0 : List Char
  sign1 : Option Char
  w1 : List Char
  mark : List Char
  base : Nat
  w2 : List Char
  sign2 : Option Char
  w3 : List Char
  num : List Char
  w4 : List Char
  letter : Option Char
  w5 : List Char
  i : Option Char
  w6 : List Char

/-- What follows the digits. -/
def Parts.suffix (p : Parts) : List Char :=
  p.w4 ++ (p.letter.toList ++ (p.w5 ++ (p.i.toList ++ p.w6)))

/-- What follows the radix mark and its spaces. -/
def Parts.signed (p : Parts) : List Char :=
  p.sign2.toList ++ (p.w3 ++ (p.num ++ p.suffix))

/-- The text of the parts. -/
def Parts.text (p : Parts) : List Char :=
  p.w0 ++ (p.sign1.toList ++ (p.w1 ++ (p.mark ++ (p.w2 ++ p.signed))))

/-- The radix marks, and plain digits without one. -/
def radixMarks : List (List Char × Nat) :=
  [([], 10), (['0', 'x'], 16), (['0', 'X'], 16), (['\\', 'x'], 16), (['\\', 'X'], 16),
    (['h'], 16), (['H'], 16), (['\\', '0'], 8), (['\\', 'b'], 2), (['\\', 'B'], 2),
    (['b'], 2), (['B'], 2)]

/-- Each part is what it is called. -/
structure Parts.Sorted (p : Parts) : Prop where
  w0 : Spaces p.w0
  w1 : Spaces p.w1
  w2 : Spaces p.w2
  w3 : Spaces p.w3
  w4 : Spaces p.w4
  w5 : Spaces p.w5
  w6 : Spaces p.w6
  sign1 : ∀ c ∈ p.sign1, c = '+' ∨ c = '-'
  sign2 : ∀ c ∈ p.sign2, c = '+' ∨ c = '-'
  mark : (p.mark, p.base) ∈ radixMarks
  letter : ∀ c ∈ p.letter, (Letter.ofChar c).isSome = true
  i : ∀ c ∈ p.i, isI c = true

theorem isBase_of_mark {mark : List Char} {base : Nat} (h : (mark, base) ∈ radixMarks) :
    IsBase base := by
  simp only [radixMarks, List.mem_cons, Prod.mk.injEq, List.not_mem_nil, or_false] at h
  unfold IsBase
  omega

/-! ## §3. The stages of the parser. -/

theorem isspace_of_sign {c : Char} (h : c = '+' ∨ c = '-') : isspace c = false := by
  rcases h with rfl | rfl
  · rfl
  · rfl

/-- The sign, if there is one, is the first character. -/
def StartsSigned (s : List Char) : Prop := ∃ c r, s = c :: r ∧ (c = '+' ∨ c = '-')

/-- **A sign with its spaces.** -/
theorem skipSign_parts {w w' r : List Char} {sign : Option Char} (hw : Spaces w)
    (hw' : Spaces w') (hsign : ∀ c ∈ sign, c = '+' ∨ c = '-')
    (hr : sign = none → ¬ StartsSigned (skipSpaces r)) :
    skipSign (w ++ (sign.toList ++ (w' ++ r))) = (decide (sign = some '-'), skipSpaces r) := by
  unfold skipSign
  rw [CString.skipSpaces_append hw]
  cases sign with
  | none =>
    rw [Option.toList_none, List.nil_append, CString.skipSpaces_append hw']
    have hsolid := CString.skipSpaces_solid r
    have hnot := hr rfl
    cases hs : skipSpaces r with
    | nil => rfl
    | cons c u =>
      rw [hs] at hsolid hnot
      have hplus : c ≠ '+' := fun h => hnot ⟨c, u, rfl, .inl h⟩
      have hminus : c ≠ '-' := fun h => hnot ⟨c, u, rfl, .inr h⟩
      dsimp only
      rw [if_neg hminus, if_neg hplus, CString.skipSpaces_of_solid hsolid]
      simp
  | some c =>
    have hc := hsign c rfl
    have hsolid : StartsSolid (c :: (w' ++ r)) := by
      intro d u h
      injection h with h _
      rw [← h]
      exact isspace_of_sign hc
    rw [Option.toList_some, List.singleton_append, CString.skipSpaces_of_solid hsolid]
    dsimp only
    rw [CString.skipSpaces_append hw']
    rcases hc with rfl | rfl
    · rfl
    · rfl

/-- **A radix mark.** -/
theorem skipRadix_mark {mark : List Char} {base : Nat} (h : (mark, base) ∈ radixMarks)
    (hne : mark ≠ []) (r : List Char) : skipRadix (mark ++ r) = (base, r) := by
  simp only [radixMarks, List.mem_cons, Prod.mk.injEq, List.not_mem_nil, or_false] at h
  rcases h with ⟨rfl, rfl⟩ | ⟨rfl, rfl⟩ | ⟨rfl, rfl⟩ | ⟨rfl, rfl⟩ | ⟨rfl, rfl⟩ | ⟨rfl, rfl⟩ |
    ⟨rfl, rfl⟩ | ⟨rfl, rfl⟩ | ⟨rfl, rfl⟩ | ⟨rfl, rfl⟩ | ⟨rfl, rfl⟩ | ⟨rfl, rfl⟩
  · exact absurd rfl hne
  all_goals
    simp [skipRadix, startsWithCase, charAt]

theorem mark_solid {mark : List Char} {base : Nat} (h : (mark, base) ∈ radixMarks)
    (hne : mark ≠ []) (r : List Char) : StartsSolid (mark ++ r) := by
  simp only [radixMarks, List.mem_cons, Prod.mk.injEq, List.not_mem_nil, or_false] at h
  intro c u hu
  rcases h with ⟨rfl, -⟩ | ⟨rfl, -⟩ | ⟨rfl, -⟩ | ⟨rfl, -⟩ | ⟨rfl, -⟩ | ⟨rfl, -⟩ |
    ⟨rfl, -⟩ | ⟨rfl, -⟩ | ⟨rfl, -⟩ | ⟨rfl, -⟩ | ⟨rfl, -⟩ | ⟨rfl, -⟩
  · exact absurd rfl hne
  all_goals
    injection hu with hu _
    rw [← hu]
    rfl

theorem mark_not_signed {mark : List Char} {base : Nat} (h : (mark, base) ∈ radixMarks)
    (hne : mark ≠ []) (r : List Char) : ¬ StartsSigned (mark ++ r) := by
  simp only [radixMarks, List.mem_cons, Prod.mk.injEq, List.not_mem_nil, or_false] at h
  intro ⟨c, u, hu, hc⟩
  rcases h with ⟨rfl, -⟩ | ⟨rfl, -⟩ | ⟨rfl, -⟩ | ⟨rfl, -⟩ | ⟨rfl, -⟩ | ⟨rfl, -⟩ |
    ⟨rfl, -⟩ | ⟨rfl, -⟩ | ⟨rfl, -⟩ | ⟨rfl, -⟩ | ⟨rfl, -⟩ | ⟨rfl, -⟩
  · exact absurd rfl hne
  all_goals
    injection hu with hu _
    rw [← hu] at hc
    exact absurd hc (by decide)

/-- A text that no radix mark starts. -/
structure Plain (s : List Char) : Prop where
  zero : startsWithCase s ['0', 'x'] = false
  head : ∀ c r, s = c :: r → c ∉ ['\\', 'H', 'h', 'B', 'b']

theorem skipRadix_plain {s : List Char} (h : Plain s) : skipRadix s = (10, s) := by
  cases s with
  | nil => rfl
  | cons c r =>
    have hc := h.head c r rfl
    simp only [List.mem_cons, List.not_mem_nil, or_false, not_or] at hc
    obtain ⟨hbs, hH, hh, hB, hb⟩ := hc
    have hzero := h.zero
    have hback : ∀ d, startsWithCase (c :: r) ['\\', d] = false := by
      intro d
      unfold startsWithCase
      rw [decide_eq_false_iff_not]
      intro habs
      have hhead : c.toLower = '\\' := by
        simp only [List.length_cons, List.take_succ_cons, List.map_cons, List.cons.injEq] at habs
        exact habs.1
      exact hbs (CString.eq_of_toLower hhead (by decide))
    simp [skipRadix, hzero, hback, charAt, hH, hh, hB, hb]

/-- The multiplier that a letter and an `i` stand for: a power of 1000, or of
1024. -/
def multiplier (letter i : Option Char) : Nat :=
  match letter.bind Letter.ofChar with
  | some key => (if i.isSome then 1024 else 1000) ^ (key.index + 1)
  | none => 1

theorem sMult_eq (unit i : Nat) : sMult unit i = unit ^ (i + 1) := by
  induction i with
  | zero => simp [sMult]
  | succ i ih => rw [sMult, ih, ← Nat.pow_succ]

theorem multiplier_eq (letter i : Option Char) :
    multiplier letter i = match letter.bind Letter.ofChar with
      | some key => sMultTbl key i.isSome
      | none => 1 := by
  unfold multiplier
  split
  next key =>
    rw [sMultTbl, sMult_eq]
  next => rfl

theorem isspace_of_letter {c : Char} (h : (Letter.ofChar c).isSome = true) :
    isspace c = false ∧ isI c = false := by
  unfold Letter.ofChar at h
  split at h
  all_goals first
    | exact ⟨rfl, rfl⟩
    | exact absurd h (by simp)

theorem isspace_of_isI {c : Char} (h : isI c = true) :
    isspace c = false ∧ Letter.ofChar c = none := by
  have hc : c = 'i' ∨ c = 'I' := by simpa [isI] using h
  rcases hc with rfl | rfl
  · exact ⟨rfl, rfl⟩
  · exact ⟨rfl, rfl⟩

theorem endsSolid_concat {u : List Char} {c : Char} (h : isspace c = false) :
    EndsSolid (u ++ [c]) := by
  intro r d hd
  obtain ⟨-, hcd⟩ := List.append_inj' hd rfl
  injection hcd with hcd _
  rw [← hcd]
  exact h

/-- **The letter**, or a last digit that is none. -/
theorem stripLetter_parts {num w : List Char} {letter : Option Char} (got_i : Bool)
    (hne : num ≠ []) (hnum : EndsSolid num) (hw : Spaces w)
    (hletter : ∀ c ∈ letter, (Letter.ofChar c).isSome = true)
    (hlast : ∀ u c, num = u ++ [c] → letter = none → Letter.ofChar c = none) :
    stripLetter got_i (rtrim (num ++ (w ++ letter.toList))) =
      (some (match letter.bind Letter.ofChar with
        | some key => sMultTbl key got_i
        | none => 1), num) := by
  cases letter with
  | none =>
    obtain ⟨u, c, rfl⟩ : ∃ u c, num = u ++ [c] := ⟨_, _, (List.dropLast_append_getLast hne).symm⟩
    have hc := hlast u c rfl rfl
    rw [Option.toList_none, List.append_nil, CString.rtrim_append hw,
      CString.rtrim_of_solid hnum]
    unfold stripLetter
    dsimp only
    rw [if_neg (by simp), CString.rtrim_of_solid hnum, CString.charAt_concat, hc]
    dsimp only
    rw [if_neg (by simp)]
    rfl
  | some c =>
    have hc := hletter c rfl
    obtain ⟨key, hkey⟩ := Option.isSome_iff_exists.mp hc
    have hsolid : EndsSolid (num ++ w ++ [c]) := endsSolid_concat (isspace_of_letter hc).1
    have hpos : ¬ num.length < 1 := by
      have h := List.length_pos_iff.mpr hne
      omega
    rw [Option.toList_some, ← List.append_assoc, CString.rtrim_of_solid hsolid]
    unfold stripLetter
    dsimp only
    rw [if_neg (by simp), CString.rtrim_of_solid hsolid, CString.charAt_concat, hkey]
    dsimp only
    rw [CString.take_concat, CString.rtrim_append hw, CString.rtrim_of_solid hnum, if_neg hpos]
    simp [hkey]

/-- What a text ends with, up to the letter. -/
theorem rtrim_letter {num w : List Char} {letter : Option Char} (hne : num ≠ [])
    (hnum : EndsSolid num) (hw : Spaces w)
    (hletter : ∀ c ∈ letter, (Letter.ofChar c).isSome = true)
    (hlast : ∀ u c, num = u ++ [c] → Letter.ofChar c = none ∧ isI c = false) :
    ∃ u c, rtrim (num ++ (w ++ letter.toList)) = u ++ [c] ∧ isI c = false := by
  cases letter with
  | none =>
    obtain ⟨u, c, rfl⟩ : ∃ u c, num = u ++ [c] := ⟨_, _, (List.dropLast_append_getLast hne).symm⟩
    refine ⟨u, c, ?_, (hlast u c rfl).2⟩
    rw [Option.toList_none, List.append_nil, CString.rtrim_append hw, CString.rtrim_of_solid hnum]
  | some c =>
    obtain ⟨hspace, hi⟩ := isspace_of_letter (hletter c rfl)
    refine ⟨num ++ w, c, ?_, hi⟩
    rw [Option.toList_some, ← List.append_assoc]
    exact CString.rtrim_of_solid (endsSolid_concat hspace)

/-- **The multiplier.** -/
theorem getPrefixMultiplier_parts {num w4 w5 w6 : List Char} {letter i : Option Char}
    (hne : num ≠ []) (hnum : EndsSolid num) (hw4 : Spaces w4) (hw5 : Spaces w5) (hw6 : Spaces w6)
    (hletter : ∀ c ∈ letter, (Letter.ofChar c).isSome = true) (hi : ∀ c ∈ i, isI c = true)
    (hlast : ∀ u c, num = u ++ [c] → Letter.ofChar c = none ∧ isI c = false) :
    getPrefixMultiplier (rtrim (num ++ (w4 ++ (letter.toList ++ (w5 ++ (i.toList ++ w6)))))) =
      (some (multiplier letter i), num) := by
  rw [multiplier_eq]
  obtain ⟨u, c, hu, hc⟩ := rtrim_letter hne hnum hw4 hletter hlast
  have hstrip := fun got_i => stripLetter_parts got_i hne hnum hw4 hletter
    (fun u c h _ => (hlast u c h).1)
  have hsolid : EndsSolid (u ++ [c]) := by
    rw [← hu]
    exact CString.rtrim_solid _
  -- the last character decides which half of the stripper runs
  cases i with
  | none =>
    have htext : num ++ (w4 ++ (letter.toList ++ (w5 ++ ((none : Option Char).toList ++ w6)))) =
        num ++ (w4 ++ letter.toList) ++ (w5 ++ w6) := by simp
    rw [htext, CString.rtrim_append (hw5.append hw6), hu]
    unfold getPrefixMultiplier
    rw [if_pos (by simp)]
    dsimp only
    rw [CString.rtrim_of_solid hsolid, if_neg (by simp), CString.charAt_concat,
      if_neg (by rw [hc]; decide), ← hu]
    exact hstrip false
  | some j =>
    have hj := hi j rfl
    have htext : num ++ (w4 ++ (letter.toList ++ (w5 ++ ((some j).toList ++ w6)))) =
        num ++ (w4 ++ letter.toList) ++ w5 ++ [j] ++ w6 := by simp
    have hsolid' : EndsSolid (num ++ (w4 ++ letter.toList) ++ w5 ++ [j]) :=
      endsSolid_concat (isspace_of_isI hj).1
    have hlen : ¬ (num ++ (w4 ++ letter.toList) ++ w5 ++ [j]).length - 1 < 1 := by
      have h := List.length_pos_iff.mpr hne
      simp only [List.length_append, List.length_singleton]
      omega
    rw [htext, CString.rtrim_append hw6, CString.rtrim_of_solid hsolid']
    unfold getPrefixMultiplier
    rw [if_pos (by simp)]
    dsimp only
    rw [CString.rtrim_of_solid hsolid', if_neg (by simp), CString.charAt_concat, if_pos hj,
      if_neg hlen, CString.take_concat, CString.rtrim_append hw5]
    exact hstrip true

/-! ## §4. All of it. -/

/-- The digits of a text that is read: some, of the base, with no spaces around
them.  GMP takes a minus before them, and spaces among them. -/
structure IsNumber (base : Nat) (num : List Char) : Prop where
  starts : StartsSolid num
  ends : EndsSolid num
  digits : ∃ minus ds, (minus = [] ∨ minus = ['-']) ∧ ds ≠ [] ∧
    (∀ c ∈ ds, isDigit base c = true) ∧ num.filter (fun c => !isspace c) = minus ++ ds

/-- The parts are sorted out as the parser does. -/
structure Parts.Lexed (p : Parts) : Prop where
  sorted : p.Sorted
  number : IsNumber p.base p.num
  /-- The second sign comes after a first one, or a mark. -/
  sign2 : p.sign1 = none → p.mark = [] → p.sign2 = none
  /-- A minus of GMP's comes after a second sign. -/
  minus : p.sign2 = none → ¬ StartsSigned p.num

/-- **The texts that are read**: a zero and the letter `x` are a radix mark. -/
structure Parts.Readable (p : Parts) : Prop extends p.Lexed where
  plain : p.mark = [] → startsWithCase (skipSpaces p.signed) ['0', 'x'] = false

theorem IsNumber.ne_nil {base : Nat} {num : List Char} (h : IsNumber base num) : num ≠ [] := by
  obtain ⟨minus, ds, -, hne, -, hfilter⟩ := h.digits
  intro habs
  rw [habs] at hfilter
  have hnil := (List.append_eq_nil_iff.mp hfilter.symm).2
  exact hne hnil

/-- The last character is a digit. -/
theorem IsNumber.last {base : Nat} {num u : List Char} {c : Char} (h : IsNumber base num)
    (hu : num = u ++ [c]) : isDigit base c = true := by
  obtain ⟨minus, ds, -, hne, hds, hfilter⟩ := h.digits
  have hc := h.ends u c hu
  obtain ⟨v, d, rfl⟩ : ∃ v d, ds = v ++ [d] := ⟨_, _, (List.dropLast_append_getLast hne).symm⟩
  rw [hu, List.filter_append, List.filter_singleton, ← List.append_assoc] at hfilter
  simp only [hc, Bool.not_false] at hfilter
  obtain ⟨-, hcd⟩ := List.append_inj' hfilter rfl
  injection hcd with hcd _
  rw [hcd]
  exact hds d (by simp)

/-- The first is a digit or a minus. -/
theorem IsNumber.first {base : Nat} {num u : List Char} {c : Char} (h : IsNumber base num)
    (hu : num = c :: u) : isDigit base c = true ∨ c = '-' := by
  obtain ⟨minus, ds, hminus, hne, hds, hfilter⟩ := h.digits
  have hc := h.starts c u hu
  rw [hu, List.filter_cons_of_pos (by rw [hc]; rfl)] at hfilter
  rcases hminus with rfl | rfl
  · left
    rw [List.nil_append] at hfilter
    apply hds c
    rw [← hfilter]
    exact List.mem_cons_self
  · right
    injection hfilter

theorem skipSign_skipSpaces (s : List Char) : skipSign (skipSpaces s) = skipSign s := by
  unfold skipSign
  rw [CString.skipSpaces_of_solid (CString.skipSpaces_solid s)]

/-- A value with its sign. -/
def withSign (sign : Option Char) (v : Int) : Int := if sign = some '-' then -v else v

namespace Parts.Lexed

variable {p : Parts}

theorem isBase (h : p.Lexed) : IsBase p.base := isBase_of_mark h.sorted.mark

theorem starts (h : p.Lexed) : StartsSolid (p.num ++ p.suffix) := by
  intro c r hr
  obtain ⟨d, u, hu⟩ := List.exists_cons_of_ne_nil h.number.ne_nil
  rw [hu, List.cons_append] at hr
  injection hr with hdc _
  rw [← hdc]
  exact h.number.starts d u hu

/-- What follows the second sign is no sign, unless there is one before. -/
theorem not_signed (h : p.Lexed) (hs : p.sign2 = none) :
    ¬ StartsSigned (p.num ++ p.suffix) := by
  intro ⟨c, r, hr, hc⟩
  obtain ⟨d, u, hu⟩ := List.exists_cons_of_ne_nil h.number.ne_nil
  rw [hu, List.cons_append] at hr
  injection hr with hdc _
  exact h.minus hs ⟨d, u, hu, by rw [hdc]; exact hc⟩

/-- **The second sign** and the digits after it. -/
theorem skipSign_signed (h : p.Lexed) :
    skipSign p.signed = (decide (p.sign2 = some '-'), p.num ++ p.suffix) := by
  have hskip := CString.skipSpaces_of_solid h.starts
  have hparts := skipSign_parts (r := p.num ++ p.suffix) Spaces.nil h.sorted.w3 h.sorted.sign2
    (by
      intro hs
      rw [hskip]
      exact h.not_signed hs)
  rw [List.nil_append, hskip] at hparts
  exact hparts

/-- What follows the mark begins with a sign or a digit. -/
theorem skipSpaces_signed (h : p.Lexed) :
    ∃ c r, skipSpaces p.signed = c :: r ∧
      ((c = '+' ∨ c = '-') ∨ p.sign2 = none ∧ isDigit p.base c = true) := by
  unfold Parts.signed
  cases hs : p.sign2 with
  | some c =>
    have hc := h.sorted.sign2 c hs
    refine ⟨c, _, CString.skipSpaces_of_solid ?_, .inl hc⟩
    intro d r hr
    injection hr with hr _
    rw [← hr]
    exact isspace_of_sign hc
  | none =>
    obtain ⟨d, u, hu⟩ := List.exists_cons_of_ne_nil h.number.ne_nil
    refine ⟨d, u ++ p.suffix, ?_, .inr ⟨rfl, ?_⟩⟩
    · rw [Option.toList_none, List.nil_append, CString.skipSpaces_append h.sorted.w3,
        CString.skipSpaces_of_solid h.starts, hu]
      rfl
    · rcases h.number.first hu with hd | hd
      · exact hd
      · exact absurd ⟨d, u, hu, .inr hd⟩ (h.minus hs)

/-- **The first sign.** -/
theorem skipSign_text (h : p.Lexed) :
    skipSign p.text = (decide (p.sign1 = some '-'), skipSpaces (p.mark ++ (p.w2 ++ p.signed))) := by
  apply skipSign_parts h.sorted.w0 h.sorted.w1 h.sorted.sign1
  intro hs
  by_cases hmark : p.mark = []
  · obtain ⟨c, r, hcr, hc⟩ := h.skipSpaces_signed
    have hs2 := h.sign2 hs hmark
    rw [hmark, List.nil_append, CString.skipSpaces_append h.sorted.w2, Parts.signed, hs2,
      Option.toList_none, List.nil_append, CString.skipSpaces_append h.sorted.w3,
      CString.skipSpaces_of_solid h.starts]
    exact h.not_signed hs2
  · rw [CString.skipSpaces_of_solid (mark_solid h.sorted.mark hmark _)]
    exact mark_not_signed h.sorted.mark hmark _

/-- **The digits and the multiplier.** -/
theorem getPrefixMultiplier_num (h : p.Lexed) :
    getPrefixMultiplier (rtrim (p.num ++ p.suffix)) = (some (multiplier p.letter p.i), p.num) := by
  refine getPrefixMultiplier_parts h.number.ne_nil h.number.ends h.sorted.w4 h.sorted.w5
    h.sorted.w6 h.sorted.letter h.sorted.i ?_
  intro u c hu
  have hc := h.number.last hu
  exact ⟨letter_of_isDigit h.isBase hc, isI_of_isDigit h.isBase hc⟩

end Parts.Lexed

namespace Parts.Readable

variable {p : Parts}

/-- **The radix mark**, or none before a sign or a decimal digit. -/
theorem skipRadix_text (h : p.Readable) :
    ∃ s, skipRadix (skipSpaces (p.mark ++ (p.w2 ++ p.signed))) = (p.base, s) ∧
      skipSpaces s = skipSpaces p.signed := by
  -- without a mark the text must not look as if it had one
  by_cases hmark : p.mark = []
  · have hbase : p.base = 10 := by
      have hm := h.sorted.mark
      rw [hmark] at hm
      simpa [radixMarks] using hm
    obtain ⟨c, r, hcr, hc⟩ := h.skipSpaces_signed
    have hplain : Plain (skipSpaces p.signed) := by
      refine ⟨h.plain hmark, ?_⟩
      intro d u hdu
      rw [hcr] at hdu
      injection hdu with hdc _
      rw [← hdc]
      rcases hc with (rfl | rfl) | ⟨-, hc⟩
      · decide
      · decide
      · rw [hbase] at hc
        have hne : ∀ e, isDigit 10 e = false → c ≠ e := by
          intro e he hce
          rw [hce, he] at hc
          exact absurd hc (by decide)
        simp [hne '\\' rfl, hne 'H' rfl, hne 'h' rfl, hne 'B' rfl, hne 'b' rfl]
    rw [hmark, List.nil_append, CString.skipSpaces_append h.sorted.w2, hbase]
    refine ⟨_, skipRadix_plain hplain, ?_⟩
    exact CString.skipSpaces_of_solid (CString.skipSpaces_solid _)
  · refine ⟨p.w2 ++ p.signed, ?_, CString.skipSpaces_append h.sorted.w2 _⟩
    rw [CString.skipSpaces_of_solid (mark_solid h.sorted.mark hmark _)]
    exact skipRadix_mark h.sorted.mark hmark _

/-- **What the parser makes of a text**: what GMP makes of the digits. -/
theorem parseBigint_text (h : p.Readable) {gmp : Gmp} (hm : gmp.memory = true) :
    parseBigint gmp p.text = (gmp.mpz_init_set_str p.num p.base).map fun v =>
      withSign p.sign1 (withSign p.sign2 (v * multiplier p.letter p.i)) := by
  obtain ⟨s, hradix, hs⟩ := h.skipRadix_text
  obtain ⟨c, r, hcr, -⟩ := h.skipSpaces_signed
  have hne : skipSpaces p.signed ≠ [] := by
    rw [hcr]
    exact List.cons_ne_nil c r
  have hne' : p.num ++ p.suffix ≠ [] := by
    intro habs
    exact h.number.ne_nil (List.append_eq_nil_iff.mp habs).1
  -- the inner parser takes the second sign, which may be none
  have hinner : parseBigintByBase gmp (skipSpaces p.signed) p.base =
      (gmp.mpz_init_set_str p.num p.base).map fun v =>
        withSign p.sign2 (v * multiplier p.letter p.i) := by
    unfold parseBigintByBase
    rw [skipSign_skipSpaces, h.skipSign_signed]
    dsimp only
    rw [if_pos ⟨hne', hm⟩, h.getPrefixMultiplier_num]
    simp only [withSign, decide_eq_true_eq]
  unfold parseBigint
  rw [h.skipSign_text]
  dsimp only
  rw [hradix]
  dsimp only
  rw [hs, if_pos ⟨hne, hm⟩, hinner, Option.map_map]
  congr 1
  funext v
  simp only [Function.comp, withSign, decide_eq_true_eq]

end Parts.Readable

/-! ## §5. Numbers as they should be written. -/

/-- **A number as it should be written**: no second sign, nothing but digits for
digits, and an `i` only right after a letter. -/
structure Parts.Regular (p : Parts) : Prop where
  sorted : p.Sorted
  sign2 : p.sign2 = none
  ne_nil : p.num ≠ []
  digits : ∀ c ∈ p.num, isDigit p.base c = true
  i : p.i ≠ none → p.letter ≠ none ∧ p.w5 = []

/-- The integer that is written. -/
def Parts.value (p : Parts) : Int :=
  withSign p.sign1 (digitsValue p.base p.num * multiplier p.letter p.i)

theorem Parts.Regular.number {p : Parts} (h : p.Regular) : IsNumber p.base p.num := by
  have hb := isBase_of_mark h.sorted.mark
  have hspace : ∀ c ∈ p.num, isspace c = false := fun c hc => isspace_of_isDigit hb (h.digits c hc)
  refine ⟨?_, ?_, ⟨[], p.num, .inl rfl, h.ne_nil, h.digits, ?_⟩⟩
  · intro c r hr
    apply hspace c
    rw [hr]
    exact List.mem_cons_self
  · intro r c hr
    apply hspace c
    rw [hr]
    simp
  · rw [List.nil_append, List.filter_eq_self]
    intro c hc
    rw [hspace c hc]
    rfl

theorem Parts.Regular.lexed {p : Parts} (h : p.Regular) : p.Lexed := by
  refine ⟨h.sorted, h.number, fun _ _ => h.sign2, ?_⟩
  intro _ ⟨c, r, hr, hc⟩
  have hdigit := h.digits c (by rw [hr]; exact List.mem_cons_self)
  rcases hc with rfl | rfl
  · exact absurd rfl (ne_of_isDigit (isBase_of_mark h.sorted.mark) hdigit rfl)
  · exact absurd rfl (ne_of_isDigit (isBase_of_mark h.sorted.mark) hdigit rfl)

theorem Parts.Regular.base {p : Parts} (h : p.Regular) (hmark : p.mark = []) : p.base = 10 := by
  have hm := h.sorted.mark
  rw [hmark] at hm
  simpa [radixMarks] using hm

/-- What follows the mark begins with the digits. -/
theorem Parts.Regular.skipSpaces_signed {p : Parts} (h : p.Regular) :
    skipSpaces p.signed = p.num ++ p.suffix := by
  rw [Parts.signed, h.sign2, Option.toList_none, List.nil_append,
    CString.skipSpaces_append h.sorted.w3, CString.skipSpaces_of_solid h.lexed.starts]

/-- **A zero with the multiplier `x`**: the only plain number that starts as a
radix mark does. -/
theorem Parts.Regular.zero_x {p : Parts} (h : p.Regular) (hmark : p.mark = [])
    (hstart : startsWithCase (skipSpaces p.signed) ['0', 'x'] = true) :
    p.num = ['0'] ∧ ∃ x, p.letter = some x ∧
      skipSpaces p.signed = '0' :: x :: (p.w5 ++ (p.i.toList ++ p.w6)) := by
  have hx : ∀ e, e.toLower = 'x' → isDigit 10 e = false ∧ isspace e = false := by
    intro e he
    rcases CString.eq_or_eq_of_toLower 'X' he rfl with rfl | rfl
    · exact ⟨rfl, rfl⟩
    · exact ⟨rfl, rfl⟩
  obtain ⟨c, d, r, hcdr, hc, hd⟩ := CString.startsWithCase_two hstart
  obtain rfl := CString.eq_of_toLower hc (by decide)
  have hsigned := h.skipSpaces_signed
  rw [hcdr] at hsigned ⊢
  obtain ⟨e, u, hu⟩ := List.exists_cons_of_ne_nil h.ne_nil
  rw [hu, List.cons_append] at hsigned
  obtain ⟨he, hrest⟩ := List.cons.inj hsigned
  cases u with
  | cons f u =>
    -- the second digit is no x
    have hf : d = f := (List.cons.inj hrest).1
    have hdigit := h.digits f (by rw [hu]; simp)
    rw [h.base hmark, ← hf, (hx d hd).1] at hdigit
    exact absurd hdigit (by decide)
  | nil =>
    rw [List.nil_append] at hrest
    refine ⟨by rw [hu, he], ?_⟩
    unfold Parts.suffix at hrest
    cases hw4 : p.w4 with
    | cons f w =>
      rw [hw4] at hrest
      have hf : d = f := (List.cons.inj hrest).1
      have hspace := h.sorted.w4 f (by rw [hw4]; exact List.mem_cons_self)
      rw [← hf, (hx d hd).2] at hspace
      exact absurd hspace (by decide)
    | nil =>
      rw [hw4, List.nil_append] at hrest
      cases hletter : p.letter with
      | some x =>
        rw [hletter, Option.toList_some, List.singleton_append] at hrest
        obtain ⟨hdx, hr⟩ := List.cons.inj hrest
        exact ⟨x, rfl, by rw [hdx, hr]⟩
      | none =>
        -- without a letter only spaces follow
        have hi : p.i = none := by
          by_contra hi
          exact (h.i hi).1 hletter
        have hspaces : Spaces (p.w5 ++ p.w6) := h.sorted.w5.append h.sorted.w6
        rw [hletter, hi, Option.toList_none, List.nil_append, List.nil_append] at hrest
        have hspace := hspaces d (by rw [← hrest]; exact List.mem_cons_self)
        rw [(hx d hd).2] at hspace
        exact absurd hspace (by decide)

/-- What follows the mark is read as plain, where a multiplier comes only after
a number that is not zero. -/
theorem Parts.Regular.plain {p : Parts} (h : p.Regular)
    (hscaled : p.letter ≠ none → 1 ≤ digitsValue p.base p.num) (hmark : p.mark = []) :
    startsWithCase (skipSpaces p.signed) ['0', 'x'] = false := by
  by_contra htrue
  obtain ⟨hnum, x, hletter, -⟩ := h.zero_x hmark (by simpa using htrue)
  have hpos := hscaled (by rw [hletter]; exact Option.some_ne_none x)
  rw [h.base hmark, hnum] at hpos
  exact absurd hpos (by decide)

/-! ## §6. The parsers. -/

/-- GMP as far as it is relied on for these texts: digits are read exactly, so
are values that fit, and there is memory. -/
structure Gmp.Exact (gmp : Gmp) : Prop where
  digits : ∀ base, IsBase base → ∀ ds, ds ≠ [] → (∀ c ∈ ds, isDigit base c = true) →
    gmp.mpz_init_set_str ds base = some (digitsValue base ds : Int)
  get_si : ∀ v : Int, -2 ^ 63 ≤ v → v < 2 ^ 63 → gmp.mpz_get_si v = v
  get_ui : ∀ v : Nat, v < 2 ^ 64 → gmp.mpz_get_ui v = v
  memory : gmp.memory = true

/-- A value that fits is stored unchanged. -/
theorem Gmp.Exact.toSigned_get_si {gmp : Gmp} (hg : gmp.Exact) {bits : Nat} {v : Int}
    (h1 : -2 ^ 63 ≤ v) (h2 : v < 2 ^ 63) (hl : -(2 ^ bits : Nat) ≤ v * 2)
    (hu : v * 2 < (2 ^ bits : Nat)) : toSigned bits (gmp.mpz_get_si v) = v := by
  rw [hg.get_si v h1 h2]
  exact Int.bmod_eq_of_le_mul_two hl hu

theorem Gmp.Exact.toUnsigned_get_ui {gmp : Gmp} (hg : gmp.Exact) {bits : Nat} {v : Int}
    (h1 : 0 ≤ v) (h2 : v < 2 ^ 64) (hu : v < (2 ^ bits : Nat)) :
    toUnsigned bits (gmp.mpz_get_ui v) = v := by
  obtain ⟨n, rfl⟩ := Int.eq_ofNat_of_zero_le h1
  rw [hg.get_ui n (by exact_mod_cast h2), toUnsigned, Nat.mod_eq_of_lt (by exact_mod_cast hu)]

theorem Parts.text_ne_nil {p : Parts} (h : p.num ≠ []) : p.text ≠ [] := by
  unfold Parts.text Parts.signed
  simp [h]

/-- The value is found. -/
theorem parseBigint_regular {gmp : Gmp} (hg : gmp.Exact) {p : Parts} (hp : p.Regular)
    (hscaled : p.letter ≠ none → 1 ≤ digitsValue p.base p.num) :
    parseBigint gmp p.text = some p.value := by
  -- regular parts are those that the parser finds
  have hread : p.Readable := ⟨hp.lexed, hp.plain hscaled⟩
  rw [hread.parseBigint_text hg.memory, hg.digits _ hread.isBase _ hp.ne_nil hp.digits, hp.sign2]
  rfl

/-- **The parsers of one kind**: where the conversion is exact within the range. -/
theorem parseInt_text {gmp : Gmp} {convert : Int → Int} {lower upper : Int} {text : List Char}
    {v : Int} (hne : text ≠ []) (hv : parseBigint gmp text = some v)
    (hconvert : lower ≤ v → v ≤ upper → convert v = v) (old : Int) :
    parseInt gmp convert lower upper (some text) (some old) =
      if lower ≤ v ∧ v ≤ upper then (.ok, some v) else (.outOfRange, some old) := by
  have hvalid : isValidString (some text) = true := by simp [isValidString, hne]
  unfold parseInt parseBigintInRange
  dsimp only
  rw [if_pos hvalid, hv]
  dsimp only
  by_cases hrange : lower ≤ v ∧ v ≤ upper
  · rw [if_pos hrange, if_pos hrange]
    dsimp only
    rw [if_pos rfl, hconvert hrange.1 hrange.2]
  · rw [if_neg hrange, if_neg hrange]
    dsimp only
    rw [if_neg (by decide)]

/-- **Number parsing is complete and exact**: each parser stores the integer
that is written, where its type holds it, and else tells that it does not. -/
theorem number_parsed {gmp : Gmp} (hg : gmp.Exact) (type : IntType) {p : Parts}
    (hp : p.Regular) (hscaled : p.letter ≠ none → 1 ≤ digitsValue p.base p.num) (old : Int) :
    type.parse gmp (some p.text) (some old) =
      if type.Holds p.value then (.ok, some p.value) else (.outOfRange, some old) := by
  have hne := Parts.text_ne_nil hp.ne_nil
  have hv := parseBigint_regular hg hp hscaled
  -- what is left is about an integer and the six ranges
  generalize p.value = v at hv
  cases type with
  | int16 =>
    refine (parseInt_text hne hv (fun h1 h2 => ?_) old).trans (if_congr ?_ rfl rfl)
    · exact hg.toSigned_get_si (by omega) (by omega) (by omega) (by omega)
    · show -32768 ≤ v ∧ v ≤ 32767 ↔ -2 ^ 15 ≤ v ∧ v < 2 ^ 15
      omega
  | uint16 =>
    refine (parseInt_text hne hv (fun h1 h2 => ?_) old).trans (if_congr ?_ rfl rfl)
    · exact hg.toUnsigned_get_ui h1 (by omega) (by omega)
    · show 0 ≤ v ∧ v ≤ 65535 ↔ 0 ≤ v ∧ v < 2 ^ 16
      omega
  | int32 =>
    refine (parseInt_text hne hv (fun h1 h2 => ?_) old).trans (if_congr ?_ rfl rfl)
    · exact hg.toSigned_get_si (by omega) (by omega) (by omega) (by omega)
    · show -2147483648 ≤ v ∧ v ≤ 2147483647 ↔ -2 ^ 31 ≤ v ∧ v < 2 ^ 31
      omega
  | uint32 =>
    refine (parseInt_text hne hv (fun h1 h2 => ?_) old).trans (if_congr ?_ rfl rfl)
    · exact hg.toUnsigned_get_ui h1 (by omega) (by omega)
    · show 0 ≤ v ∧ v ≤ 4294967295 ↔ 0 ≤ v ∧ v < 2 ^ 32
      omega
  | int64 =>
    refine (parseInt_text hne hv (fun h1 h2 => ?_) old).trans (if_congr ?_ rfl rfl)
    · exact hg.toSigned_get_si (by omega) (by omega) (by omega) (by omega)
    · show -9223372036854775808 ≤ v ∧ v ≤ 9223372036854775807 ↔ -2 ^ 63 ≤ v ∧ v < 2 ^ 63
      omega
  | uint64 =>
    refine (parseInt_text hne hv (fun h1 h2 => ?_) old).trans (if_congr ?_ rfl rfl)
    · exact hg.toUnsigned_get_ui h1 (by omega) (by omega)
    · show 0 ≤ v ∧ v ≤ 18446744073709551615 ↔ 0 ≤ v ∧ v < 2 ^ 64
      omega

/-- GMP as its manual has it. -/
def Gmp.manual : Gmp where
  mpz_init_set_str := fun s base =>
    let s := s.filter fun c => !isspace c
    let ds := if charAt s 0 = '-' then s.drop 1 else s
    if ds ≠ [] ∧ ds.all (isDigit base) = true then
      some (if charAt s 0 = '-' then -(digitsValue base ds : Int) else digitsValue base ds)
    else none
  mpz_get_si := fun v => if -2 ^ 63 ≤ v ∧ v < 2 ^ 63 then v else v.sign * (v.natAbs % 2 ^ 63 : Nat)
  mpz_get_ui := fun v => v.natAbs % 2 ^ 64
  memory := true

theorem Gmp.manual_exact : Gmp.manual.Exact where
  digits := by
    intro base hb ds hne hds
    have hfilter : ds.filter (fun c => !isspace c) = ds := by
      rw [List.filter_eq_self]
      intro c hc
      rw [isspace_of_isDigit hb (hds c hc)]
      rfl
    have hfirst : charAt ds 0 ≠ '-' := by
      obtain ⟨c, u, rfl⟩ := List.exists_cons_of_ne_nil hne
      exact ne_of_isDigit hb (hds c List.mem_cons_self) rfl
    show (if _ then some _ else none) = some _
    rw [hfilter, if_neg hfirst, if_neg hfirst, if_pos ⟨hne, List.all_eq_true.mpr hds⟩]
  get_si := by
    intro v h1 h2
    exact if_pos ⟨h1, h2⟩
  get_ui := by
    intro v hv
    exact Nat.mod_eq_of_lt hv
  memory := rfl

/-- A hexadecimal number with everything that it can have. -/
theorem number_parsed_hex :
    parseInt32 Gmp.manual (some " - 0X fF kI ".toList) (some 7) = (.ok, some (-261120)) := by
  have hregular : Parts.Regular ⟨[' '], some '-', [' '], ['0', 'X'], 16, [' '], none, [],
      ['f', 'F'], [' '], some 'k', [], some 'I', [' ']⟩ := by
    refine ⟨⟨by decide, by decide, by decide, by decide, by decide, by decide, by decide, ?_, ?_,
      by decide, ?_, ?_⟩, rfl, by simp, List.all_eq_true.mp rfl, fun _ => ⟨by simp, rfl⟩⟩
    · intro c hc
      exact .inr (Option.some.inj hc).symm
    · intro c hc
      exact absurd hc (by simp)
    · intro c hc
      rw [← Option.some.inj hc]
      rfl
    · intro c hc
      rw [← Option.some.inj hc]
      rfl
  exact (number_parsed Gmp.manual_exact .int32 hregular (by decide) 7).trans (by decide)

end Mccp.Str
