/-
  Mccp.Str.NumberSound
  ────────────────────
  **WHAT THE NUMBER PARSERS ACCEPT.**

  A text that is accepted comes apart into the parts of
  `Mccp.Str.NumberText`, but not always as a number should be written: a sign
  is taken twice, and GMP takes a minus of its own; GMP passes over spaces
  between the digits; and an `i` is taken off whether a letter stands before it
  or not.

      parts_of_parseBigint    — what is accepted comes apart
      Parts.HasFault          — what is wrong with the parts
      not_regular_of_fault    — such a text has no other, regular parts
      accepts_only_shaped_iff — when the parsers accept only what they should
-/
import Mccp.Str.NumberText

namespace Mccp.Str

open CString (charAt isspace skipSpaces rtrim startsWithCase isValidString Spaces StartsSolid
  EndsSolid)

/-! ## §1. The stages of the parser, read backwards. -/

theorem skipSign_inv (s : List Char) :
    ∃ (w : List Char) (sign : Option Char) (w' : List Char),
      Spaces w ∧ Spaces w' ∧ (∀ c ∈ sign, c = '+' ∨ c = '-') ∧
      s = w ++ (sign.toList ++ (w' ++ (skipSign s).2)) ∧ StartsSolid (skipSign s).2 ∧
      (sign = none → ¬ StartsSigned (skipSign s).2) := by
  obtain ⟨w, hw, hs⟩ := CString.exists_skipSpaces s
  have hsolid := CString.skipSpaces_solid s
  unfold skipSign
  cases hskip : skipSpaces s with
  | nil =>
    rw [hskip] at hs
    refine ⟨w, none, [], hw, Spaces.nil, fun c hc => absurd hc (by simp), by simpa using hs, ?_, ?_⟩
    · intro c r h
      exact absurd h (by simp)
    · intro _ ⟨c, r, h, _⟩
      exact absurd h (by simp)
  | cons c u =>
    rw [hskip] at hs hsolid
    dsimp only
    obtain ⟨w', hw', hu⟩ := CString.exists_skipSpaces u
    by_cases hminus : c = '-'
    · rw [if_pos hminus]
      refine ⟨w, some '-', w', hw, hw', fun d hd => .inr (Option.some.inj hd).symm, ?_,
        CString.skipSpaces_solid u, fun h => absurd h (by simp)⟩
      show s = w ++ ('-' :: (w' ++ skipSpaces u))
      rw [← hu, ← hminus]
      exact hs
    · rw [if_neg hminus]
      by_cases hplus : c = '+'
      · rw [if_pos hplus]
        refine ⟨w, some '+', w', hw, hw', fun d hd => .inl (Option.some.inj hd).symm, ?_,
          CString.skipSpaces_solid u, fun h => absurd h (by simp)⟩
        show s = w ++ ('+' :: (w' ++ skipSpaces u))
        rw [← hu, ← hplus]
        exact hs
      · rw [if_neg hplus]
        dsimp only
        rw [CString.skipSpaces_of_solid hsolid]
        refine ⟨w, none, [], hw, Spaces.nil, fun d hd => absurd hd (by simp), hs, hsolid, ?_⟩
        intro _ ⟨d, r, hdr, hd⟩
        injection hdr with hcd _
        rw [← hcd] at hd
        rcases hd with hd | hd
        · exact hplus hd
        · exact hminus hd

theorem skipRadix_inv (s : List Char) :
    ∃ mark, (mark, (skipRadix s).1) ∈ radixMarks ∧ s = mark ++ (skipRadix s).2 ∧
      (mark = [] → startsWithCase s ['0', 'x'] = false) := by
  unfold skipRadix
  split
  next h =>
    rcases h with h | h
    · obtain ⟨r, rfl | rfl⟩ := CString.startsWithCase_letter 'X' (by decide) rfl h
      · exact ⟨['0', 'x'], by simp [radixMarks], rfl, fun h => absurd h (by simp)⟩
      · exact ⟨['0', 'X'], by simp [radixMarks], rfl, fun h => absurd h (by simp)⟩
    · obtain ⟨r, rfl | rfl⟩ := CString.startsWithCase_letter 'X' (by decide) rfl h
      · exact ⟨['\\', 'x'], by simp [radixMarks], rfl, fun h => absurd h (by simp)⟩
      · exact ⟨['\\', 'X'], by simp [radixMarks], rfl, fun h => absurd h (by simp)⟩
  next hnot =>
    have hzero : startsWithCase s ['0', 'x'] = false := by
      simpa using fun h => hnot (.inl h)
    split
    next h =>
      obtain ⟨c, d, r, rfl, hc, hd⟩ := CString.startsWithCase_two h
      obtain rfl := CString.eq_of_toLower hc (by decide)
      obtain rfl := CString.eq_of_toLower hd (by decide)
      exact ⟨['\\', '0'], by simp [radixMarks], rfl, fun h => absurd h (by simp)⟩
    next =>
      split
      next h =>
        obtain ⟨r, rfl | rfl⟩ := CString.startsWithCase_letter 'B' (by decide) rfl h
        · exact ⟨['\\', 'b'], by simp [radixMarks], rfl, fun h => absurd h (by simp)⟩
        · exact ⟨['\\', 'B'], by simp [radixMarks], rfl, fun h => absurd h (by simp)⟩
      next =>
        split
        next h =>
          cases s with
          | nil => exact absurd h (by decide)
          | cons c r =>
            rcases h with h | h
            · obtain rfl : c = 'H' := h
              exact ⟨['H'], by simp [radixMarks], rfl, fun h => absurd h (by simp)⟩
            · obtain rfl : c = 'h' := h
              exact ⟨['h'], by simp [radixMarks], rfl, fun h => absurd h (by simp)⟩
        next =>
          split
          next h =>
            cases s with
            | nil => exact absurd h (by decide)
            | cons c r =>
              rcases h with h | h
              · obtain rfl : c = 'B' := h
                exact ⟨['B'], by simp [radixMarks], rfl, fun h => absurd h (by simp)⟩
              · obtain rfl : c = 'b' := h
                exact ⟨['b'], by simp [radixMarks], rfl, fun h => absurd h (by simp)⟩
          next => exact ⟨[], by simp [radixMarks], rfl, fun _ => hzero⟩

theorem exists_concat {u : List Char} (h : ¬ u.length < 1) : ∃ v c, u = v ++ [c] := by
  have hne : u ≠ [] := by
    intro habs
    rw [habs] at h
    exact h (by decide)
  exact ⟨_, _, (List.dropLast_append_getLast hne).symm⟩

theorem stripLetter_inv {got_i : Bool} {u num : List Char} {m : Nat} (hu : EndsSolid u)
    (h : stripLetter got_i u = (some m, num)) :
    ∃ (w : List Char) (letter : Option Char), Spaces w ∧
      (∀ c ∈ letter, (Letter.ofChar c).isSome = true) ∧ u = num ++ (w ++ letter.toList) ∧
      EndsSolid num := by
  unfold stripLetter at h
  dsimp only at h
  split at h
  next => exact absurd h (by simp)
  next hlen =>
    obtain ⟨v, c, rfl⟩ := exists_concat hlen
    rw [CString.rtrim_of_solid hu, CString.charAt_concat] at h
    split at h
    next key hkey =>
      rw [CString.take_concat] at h
      split at h
      next => exact absurd h (by simp)
      next =>
        obtain ⟨w, hw, hv⟩ := CString.exists_rtrim v
        obtain rfl : rtrim v = num := (Prod.mk.inj h).2
        refine ⟨w, some c, hw, ?_, ?_, CString.rtrim_solid v⟩
        · intro d hd
          obtain rfl : c = d := Option.some.inj hd
          rw [hkey]
          rfl
        · rw [Option.toList_some, ← List.append_assoc, ← hv]
    next hkey =>
      split at h
      next => exact absurd h (by simp)
      next =>
        obtain rfl : v ++ [c] = num := (Prod.mk.inj h).2
        exact ⟨[], none, Spaces.nil, fun d hd => absurd hd (by simp), by simp, hu⟩

theorem getPrefixMultiplier_inv {u num : List Char} {m : Nat} (hu : EndsSolid u)
    (h : getPrefixMultiplier u = (some m, num)) :
    ∃ (w4 : List Char) (letter : Option Char) (w5 : List Char) (i : Option Char),
      Spaces w4 ∧ Spaces w5 ∧
      (∀ c ∈ letter, (Letter.ofChar c).isSome = true) ∧ (∀ c ∈ i, isI c = true) ∧
      u = num ++ (w4 ++ (letter.toList ++ (w5 ++ i.toList))) ∧ EndsSolid num := by
  unfold getPrefixMultiplier at h
  dsimp only at h
  split at h
  next hpos =>
    rw [CString.rtrim_of_solid hu] at h
    split at h
    next => exact absurd h (by simp)
    next hlen =>
      obtain ⟨v, c, rfl⟩ := exists_concat hlen
      rw [CString.charAt_concat] at h
      split at h
      next hi =>
        split at h
        next => exact absurd h (by simp)
        next =>
          rw [CString.take_concat] at h
          obtain ⟨w5, hw5, hv⟩ := CString.exists_rtrim v
          obtain ⟨w4, letter, hw4, hletter, hnum, hends⟩ :=
            stripLetter_inv (CString.rtrim_solid v) h
          refine ⟨w4, letter, w5, some c, hw4, hw5, hletter, ?_, ?_, hends⟩
          · intro d hd
            obtain rfl : c = d := Option.some.inj hd
            exact hi
          · rw [hnum] at hv
            rw [hv]
            simp
      next hi =>
        obtain ⟨w4, letter, hw4, hletter, hnum, hends⟩ := stripLetter_inv hu h
        refine ⟨w4, letter, [], none, hw4, Spaces.nil, hletter, fun d hd => absurd hd (by simp), ?_,
          hends⟩
        rw [hnum]
        simp
  next => exact absurd h (by simp)

/-! ## §2. What is accepted comes apart. -/

/-- GMP as its manual has it: white space is passed over anywhere, and there may
be a minus before the digits. -/
structure Gmp.Documented (gmp : Gmp) : Prop where
  accepts : ∀ base, IsBase base → ∀ s, (gmp.mpz_init_set_str s base).isSome = true ↔
    ∃ minus ds, (minus = [] ∨ minus = ['-']) ∧ ds ≠ [] ∧
      (∀ c ∈ ds, isDigit base c = true) ∧ s.filter (fun c => !isspace c) = minus ++ ds

theorem parseBigintByBase_inv {gmp : Gmp} {s : List Char} {base : Nat}
    (h : (parseBigintByBase gmp s base).isSome = true) :
    ∃ m num, getPrefixMultiplier (rtrim (skipSign s).2) = (some m, num) ∧
      (gmp.mpz_init_set_str num base).isSome = true := by
  unfold parseBigintByBase at h
  dsimp only at h
  split at h
  next =>
    split at h
    next m num hm =>
      rw [Option.isSome_map] at h
      exact ⟨m, num, hm, h⟩
    next => exact absurd h (by simp)
  next => exact absurd h (by simp)

theorem parseBigint_inv {gmp : Gmp} {s : List Char} (h : (parseBigint gmp s).isSome = true) :
    gmp.memory = true ∧ (parseBigintByBase gmp (skipSpaces (skipRadix (skipSign s).2).2)
      (skipRadix (skipSign s).2).1).isSome = true := by
  unfold parseBigint at h
  dsimp only at h
  split at h
  next hm =>
    rw [Option.isSome_map] at h
    exact ⟨hm.2, h⟩
  next => exact absurd h (by simp)

/-- A text that a sign does not start has none. -/
theorem no_second_sign {s w r : List Char} {sign : Option Char} (hw : Spaces w)
    (hsign : ∀ c ∈ sign, c = '+' ∨ c = '-') (hs : s = w ++ (sign.toList ++ r))
    (hsolid : StartsSolid s) (hnot : ¬ StartsSigned s) : sign = none := by
  by_contra hsome
  obtain ⟨c, hc⟩ := Option.ne_none_iff_exists'.mp hsome
  have hwnil : w = [] := by
    cases w with
    | nil => rfl
    | cons d u =>
      have hd := hsolid d _ hs
      rw [hw d List.mem_cons_self] at hd
      exact absurd hd (by decide)
  rw [hwnil, hc] at hs
  exact hnot ⟨c, r, hs, hsign c hc⟩

/-- **What is accepted comes apart**, as the parser sorts it out. -/
theorem parts_of_parseBigint {gmp : Gmp} (hg : gmp.Documented) {s : List Char}
    (h : (parseBigint gmp s).isSome = true) :
    gmp.memory = true ∧ ∃ p : Parts, p.Readable ∧ p.text = s := by
  obtain ⟨hm, hbase⟩ := parseBigint_inv h
  refine ⟨hm, ?_⟩
  obtain ⟨m, num, hmult, hnum⟩ := parseBigintByBase_inv hbase
  -- the stages, from the first sign to the multiplier
  obtain ⟨w0, sign1, w1, hw0, hw1, hsign1, hs, hsolid1, hnot1⟩ := skipSign_inv s
  generalize (skipSign s).2 = r1 at *
  obtain ⟨mark, hmark, hr1, hplain⟩ := skipRadix_inv r1
  generalize (skipRadix r1).1 = base at *
  generalize (skipRadix r1).2 = r2 at *
  obtain ⟨w2, hw2, hr2⟩ := CString.exists_skipSpaces r2
  have hsolid3 := CString.skipSpaces_solid r2
  generalize skipSpaces r2 = r3 at *
  obtain ⟨w, sign2, w3, hw, hw3, hsign2, hr3, hsolid4, hnot4⟩ := skipSign_inv r3
  generalize (skipSign r3).2 = r4 at *
  obtain ⟨w6, hw6, hr4⟩ := CString.exists_rtrim r4
  obtain ⟨w4, letter, w5, i, hw4, hw5, hletter, hi, htrim, hends⟩ :=
    getPrefixMultiplier_inv (CString.rtrim_solid r4) hmult
  rw [htrim] at hr4
  let p : Parts := ⟨w0, sign1, w1, mark, base, w2 ++ w, sign2, w3, num, w4, letter, w5, i, w6⟩
  -- what GMP accepts are digits of the base
  have hdigits := (hg.accepts base (isBase_of_mark hmark) num).mp hnum
  have hne : num ≠ [] := by
    intro habs
    obtain ⟨minus, ds, -, hds, -, hfilter⟩ := hdigits
    rw [habs] at hfilter
    exact hds (List.append_eq_nil_iff.mp hfilter.symm).2
  have hnumsuf : r4 = p.num ++ p.suffix := by
    rw [hr4]
    simp [p, Parts.suffix]
  have hsigned : r3 = w ++ p.signed := by
    rw [hr3, hnumsuf]
    rfl
  have hstarts : StartsSolid num := by
    intro c r hr
    apply hsolid4 c (r ++ p.suffix)
    rw [hnumsuf]
    show num ++ _ = _
    rw [hr]
    rfl
  -- without a mark, the second sign would have been the first
  have hfirst : mark = [] → r3 = r1 := by
    intro hmk
    rw [hmk, List.nil_append] at hr1
    rw [hr1, hr2] at hsolid1
    have hskip := CString.skipSpaces_of_solid hsolid1
    rw [CString.skipSpaces_append hw2, CString.skipSpaces_of_solid hsolid3] at hskip
    rw [hr1, hr2]
    exact hskip
  refine ⟨p, ⟨⟨⟨hw0, hw1, hw2.append hw, hw3, hw4, hw5, hw6, hsign1, hsign2, hmark, hletter, hi⟩,
    ⟨hstarts, hends, hdigits⟩, ?_, ?_⟩, ?_⟩, ?_⟩
  · intro h1 hmk
    have hnot := hnot1 h1
    rw [← hfirst hmk] at hnot
    exact no_second_sign hw hsign2 hr3 hsolid3 hnot
  · intro h2 ⟨c, r, hr, hc⟩
    refine hnot4 h2 ⟨c, r ++ p.suffix, ?_, hc⟩
    rw [hnumsuf, hr]
    rfl
  · intro hmk
    have hskip : skipSpaces p.signed = r1 := by
      rw [← hfirst hmk, ← CString.skipSpaces_append hw, ← hsigned]
      exact CString.skipSpaces_of_solid hsolid3
    rw [hskip]
    exact hplain hmk
  · rw [hs, hr1, hr2, hsigned]
    simp [p, Parts.text]

/-! ## §3. Regular or not. -/

/-- **What is wrong with parts that are read**: a second sign, spaces among the
digits, an `i` with no letter, or spaces before the `i`. -/
def Parts.HasFault (p : Parts) : Prop :=
  p.sign2 ≠ none ∨ (∃ c ∈ p.num, isspace c = true) ∨ (p.i ≠ none ∧ p.letter = none) ∨
    (p.i ≠ none ∧ p.w5 ≠ [])

/-- A text of the shape of a number. -/
def Shaped (s : List Char) : Prop := ∃ p : Parts, p.Regular ∧ p.text = s

/-- A text that is read although it has no such shape. -/
def Irregular (s : List Char) : Prop := ∃ p : Parts, p.Readable ∧ p.text = s ∧ p.HasFault

/-- The letters of the multiplier are what the suffix has besides spaces. -/
theorem Parts.Sorted.suffix_letters {p : Parts} (h : p.Sorted) :
    p.suffix.filter (fun c => !isspace c) = p.letter.toList ++ p.i.toList := by
  have hspaces : ∀ w, Spaces w → w.filter (fun c => !isspace c) = [] := by
    intro w hw
    rw [List.filter_eq_nil_iff]
    intro c hc
    rw [hw c hc]
    decide
  have hsolid : ∀ o : Option Char, (∀ c ∈ o, isspace c = false) →
      o.toList.filter (fun c => !isspace c) = o.toList := by
    intro o ho
    rw [List.filter_eq_self]
    intro c hc
    rw [ho c (Option.mem_toList.mp hc)]
    rfl
  rw [Parts.suffix, List.filter_append, List.filter_append, List.filter_append, List.filter_append,
    hspaces _ h.w4, hspaces _ h.w5, hspaces _ h.w6,
    hsolid _ (fun c hc => (isspace_of_letter (h.letter c hc)).1),
    hsolid _ (fun c hc => (isspace_of_isI (h.i c hc)).1)]
  simp

/-- What the suffix has from its letter on. -/
theorem Parts.Sorted.suffix_from_letter {p : Parts} (h : p.Sorted) {c : Char}
    (hc : p.letter = some c) :
    skipSpaces p.suffix = c :: (p.w5 ++ (p.i.toList ++ p.w6)) := by
  have hsolid : StartsSolid (c :: (p.w5 ++ (p.i.toList ++ p.w6))) := by
    intro d r hr
    rw [← (List.cons.inj hr).1]
    exact (isspace_of_letter (h.letter c hc)).1
  rw [Parts.suffix, CString.skipSpaces_append h.w4, hc]
  exact CString.skipSpaces_of_solid hsolid

section SameText

variable {p q : Parts} (hp : p.Readable) (hq : q.Regular) (htext : p.text = q.text)
include hp hq htext

/-- Both have the same text behind the first sign. -/
theorem same_marked :
    skipSpaces (p.mark ++ (p.w2 ++ p.signed)) = skipSpaces (q.mark ++ (q.w2 ++ q.signed)) := by
  have h := hp.skipSign_text
  rw [htext, hq.lexed.skipSign_text] at h
  exact (Prod.mk.inj h).2.symm

/-- The regular parts are those that are read. -/
theorem readable_of_same_text : q.Readable := by
  refine ⟨hq.lexed, ?_⟩
  intro hmark
  by_contra htrue
  have hstart : startsWithCase (skipSpaces q.signed) ['0', 'x'] = true := by simpa using htrue
  obtain ⟨-, x, -, hsigned⟩ := hq.zero_x hmark hstart
  -- the zero and the letter are taken for a radix mark, and there are no digits behind it
  obtain ⟨s, hradix, hs⟩ := hp.skipRadix_text
  rw [same_marked hp hq htext, hmark, List.nil_append, CString.skipSpaces_append hq.sorted.w2,
    skipRadix, if_pos (.inl hstart)] at hradix
  obtain ⟨hbase, hrest⟩ := Prod.mk.inj hradix
  obtain ⟨c, r, hcr, hc⟩ := hp.skipSpaces_signed
  have hsuffix : skipSpaces (q.w5 ++ (q.i.toList ++ q.w6)) = c :: r := by
    rw [← hcr, ← hs, ← hrest, hsigned]
    rfl
  rw [CString.skipSpaces_append hq.sorted.w5] at hsuffix
  cases hi : q.i with
  | none =>
    have hnil := CString.skipSpaces_append hq.sorted.w6 []
    rw [List.append_nil] at hnil
    rw [hi, Option.toList_none, List.nil_append, hnil] at hsuffix
    exact absurd hsuffix (by simp [skipSpaces])
  | some j =>
    have hj := hq.sorted.i j hi
    have hsolid : StartsSolid (j :: q.w6) := by
      intro d u hu
      rw [← (List.cons.inj hu).1]
      exact (isspace_of_isI hj).1
    rw [hi, Option.toList_some, List.singleton_append, CString.skipSpaces_of_solid hsolid]
      at hsuffix
    obtain rfl : j = c := (List.cons.inj hsuffix).1
    rcases hc with (rfl | rfl) | ⟨-, hc⟩
    · exact absurd hj (by decide)
    · exact absurd hj (by decide)
    · rw [isI_of_isDigit hp.isBase hc] at hj
      exact absurd hj (by decide)

/-- Both have the same radix, and the same text behind its mark. -/
theorem same_signed : p.base = q.base ∧ skipSpaces p.signed = skipSpaces q.signed := by
  obtain ⟨s, hradix, hs⟩ := hp.skipRadix_text
  -- the radix is a function of the text, whichever parts it has
  obtain ⟨s', hradix', hs'⟩ := (readable_of_same_text hp hq htext).skipRadix_text
  rw [same_marked hp hq htext, hradix'] at hradix
  obtain ⟨hbase, hrest⟩ := Prod.mk.inj hradix
  exact ⟨hbase.symm, by rw [← hs, ← hs', hrest]⟩

/-- Neither has a second sign. -/
theorem same_sign2 : p.sign2 = none := by
  by_contra hsome
  obtain ⟨c, hc⟩ := Option.ne_none_iff_exists'.mp hsome
  have hsign := hp.sorted.sign2 c hc
  have hsolid : StartsSolid p.signed := by
    intro d r hr
    rw [Parts.signed, hc] at hr
    rw [← (List.cons.inj hr).1]
    exact isspace_of_sign hsign
  have hsigned := (same_signed hp hq htext).2
  rw [CString.skipSpaces_of_solid hsolid, hq.skipSpaces_signed, Parts.signed, hc] at hsigned
  refine hq.lexed.not_signed hq.sign2 ⟨c, _, hsigned.symm, hsign⟩

/-- Both have the same digits and the same suffix. -/
theorem same_num : p.num = q.num ∧ p.suffix = q.suffix := by
  have hsigned := (same_signed hp hq htext).2
  have hp2 := same_sign2 hp hq htext
  rw [hq.skipSpaces_signed, Parts.signed, hp2, Option.toList_none, List.nil_append,
    CString.skipSpaces_append hp.sorted.w3, CString.skipSpaces_of_solid hp.starts] at hsigned
  -- so are the digits
  have hmult := hp.getPrefixMultiplier_num
  rw [hsigned, hq.lexed.getPrefixMultiplier_num] at hmult
  have hnum := (Prod.mk.inj hmult).2
  rw [← hnum] at hsigned
  exact ⟨hnum.symm, List.append_cancel_left hsigned⟩

/-- **What is wrong with a text is wrong however it is taken apart.** -/
theorem not_regular_of_fault : ¬ p.HasFault := by
  obtain ⟨hnum, hsuffix⟩ := same_num hp hq htext
  have hletters := hp.sorted.suffix_letters
  rw [hsuffix, hq.sorted.suffix_letters] at hletters
  -- an i comes after a letter, which is the same in both
  have hletter : p.i ≠ none → ∃ c j, p.letter = some c ∧ p.i = some j ∧
      q.letter = some c ∧ q.i = some j := by
    intro hi
    obtain ⟨j, hj⟩ := Option.ne_none_iff_exists'.mp hi
    have hji := hp.sorted.i j hj
    have hnoletter := (isspace_of_isI hji).2
    rw [hj] at hletters
    cases hl : q.letter with
    | none =>
      have hqi : q.i = none := by
        by_contra hqi
        exact (hq.i hqi).1 hl
      rw [hl, hqi] at hletters
      exact absurd hletters (by simp)
    | some c =>
      have hc := hq.sorted.letter c hl
      rw [hl] at hletters
      cases hpl : p.letter with
      | none =>
        rw [hpl] at hletters
        obtain ⟨hcj, -⟩ := List.cons.inj hletters
        rw [hcj, hnoletter] at hc
        exact absurd hc (by decide)
      | some d =>
        rw [hpl] at hletters
        obtain ⟨rfl, hrest⟩ := List.cons.inj hletters
        cases hqi : q.i with
        | none =>
          rw [hqi] at hrest
          exact absurd hrest (by simp)
        | some k =>
          rw [hqi] at hrest
          obtain ⟨rfl, -⟩ := List.cons.inj hrest
          exact ⟨c, k, rfl, hj, rfl, rfl⟩
  intro hcases
  rcases hcases with h | ⟨c, hc, hspace⟩ | ⟨hi, hnone⟩ | ⟨hi, hw5⟩
  · exact h (same_sign2 hp hq htext)
  · rw [hnum] at hc
    rw [isspace_of_isDigit hq.lexed.isBase (hq.digits c hc)] at hspace
    exact absurd hspace (by decide)
  · obtain ⟨c, j, hc, -, -, -⟩ := hletter hi
    rw [hnone] at hc
    exact absurd hc (by simp)
  · obtain ⟨c, j, hc, hj, hqc, hqj⟩ := hletter hi
    have hqw5 := (hq.i (by rw [hqj]; simp)).2
    have hfrom := hp.sorted.suffix_from_letter hc
    rw [hsuffix, hq.sorted.suffix_from_letter hqc, hqw5, hqj] at hfrom
    obtain ⟨d, u, hd⟩ := List.exists_cons_of_ne_nil hw5
    rw [hd] at hfrom
    have hjd : j = d := (List.cons.inj (List.cons.inj hfrom).2).1
    have hspace := hp.sorted.w5 d (by rw [hd]; exact List.mem_cons_self)
    rw [← hjd, (isspace_of_isI (hp.sorted.i j hj)).1] at hspace
    exact absurd hspace (by decide)

end SameText

/-- Parts with nothing wrong are regular. -/
theorem Parts.Readable.regular {p : Parts} (h : p.Readable) (hfault : ¬ p.HasFault) :
    p.Regular := by
  have hsign2 : p.sign2 = none := by
    by_contra hs
    exact hfault (.inl hs)
  have hspace : ∀ c ∈ p.num, isspace c = false := by
    intro c hc
    by_contra hs
    exact hfault (.inr (.inl ⟨c, hc, by simpa using hs⟩))
  refine ⟨h.sorted, hsign2, h.number.ne_nil, ?_, ?_⟩
  · obtain ⟨minus, ds, hminus, -, hds, hfilter⟩ := h.number.digits
    have hself : p.num.filter (fun c => !isspace c) = p.num := by
      rw [List.filter_eq_self]
      intro c hc
      rw [hspace c hc]
      rfl
    rw [hself] at hfilter
    rcases hminus with rfl | rfl
    · rw [hfilter]
      exact hds
    · exact absurd ⟨'-', ds, hfilter, .inr rfl⟩ (h.minus hsign2)
  · intro hi
    constructor
    · intro hl
      exact hfault (.inr (.inr (.inl ⟨hi, hl⟩)))
    · by_contra hw
      exact hfault (.inr (.inr (.inr ⟨hi, hw⟩)))

/-! ## §4. What the parsers accept. -/

/-- The results of a parser for a text that it takes for a number. -/
def Accepted (r : Result) : Prop := r = .ok ∨ r = .outOfRange

instance : DecidablePred Accepted := fun _ => inferInstanceAs (Decidable (_ ∨ _))

theorem parseBigint_nil (gmp : Gmp) : parseBigint gmp [] = none := by
  unfold parseBigint
  dsimp only [skipSign, skipSpaces, List.dropWhile_nil]
  rw [if_neg]
  intro h
  exact h.1 rfl

/-- A parser takes for a number what `s_parse_bigint` does. -/
theorem parseInt_accepted (gmp : Gmp) (convert : Int → Int) (lower upper : Int) (s : List Char)
    (old : Int) : Accepted (parseInt gmp convert lower upper (some s) (some old)).1 ↔
      (parseBigint gmp s).isSome = true := by
  unfold parseInt parseBigintInRange Accepted
  dsimp only
  by_cases hs : s = []
  · rw [hs, parseBigint_nil, if_neg (by decide)]
    simp
  · rw [if_pos (by simp [isValidString, hs])]
    cases parseBigint gmp s with
    | none => simp
    | some v =>
      dsimp only
      by_cases hv : lower ≤ v ∧ v ≤ upper
      · rw [if_pos hv]
        simp
      · rw [if_neg hv]
        simp

theorem parse_accepted (gmp : Gmp) (type : IntType) (s : List Char) (old : Int) :
    Accepted (type.parse gmp (some s) (some old)).1 ↔ (parseBigint gmp s).isSome = true := by
  cases type with
  | int16 => exact parseInt_accepted gmp _ _ _ s old
  | uint16 => exact parseInt_accepted gmp _ _ _ s old
  | int32 => exact parseInt_accepted gmp _ _ _ s old
  | uint32 => exact parseInt_accepted gmp _ _ _ s old
  | int64 => exact parseInt_accepted gmp _ _ _ s old
  | uint64 => exact parseInt_accepted gmp _ _ _ s old

/-- Where there is memory, what can be read is accepted. -/
theorem Parts.Readable.accepted {gmp : Gmp} (hg : gmp.Documented) {p : Parts} (h : p.Readable)
    (hm : gmp.memory = true) : (parseBigint gmp p.text).isSome = true := by
  rw [h.parseBigint_text hm, Option.isSome_map]
  exact (hg.accepts p.base h.isBase p.num).mpr h.number.digits

/-- **When malformed text is rejected.**  The parsers accept a text of another
shape exactly where there is memory and the text is one of the irregular ones. -/
theorem accepts_only_shaped_iff {gmp : Gmp} (hg : gmp.Documented) (type : IntType)
    (s : List Char) (old : Int) :
    (Accepted (type.parse gmp (some s) (some old)).1 → Shaped s) ↔
      ¬ (gmp.memory = true ∧ Irregular s) := by
  rw [parse_accepted]
  constructor
  · intro hshaped ⟨hm, p, hp, htext, hfault⟩
    have haccepted : (parseBigint gmp s).isSome = true := by
      rw [← htext]
      exact hp.accepted hg hm
    -- no other parts make the text regular
    obtain ⟨q, hq, hqtext⟩ := hshaped haccepted
    exact not_regular_of_fault hp hq (htext.trans hqtext.symm) hfault
  · intro hregular haccepted
    obtain ⟨hm, p, hp, htext⟩ := parts_of_parseBigint hg haccepted
    refine ⟨p, hp.regular ?_, htext⟩
    intro hfault
    exact hregular ⟨hm, p, hp, htext, hfault⟩

theorem Gmp.manual_documented : Gmp.manual.Documented where
  accepts := by
    intro base hb s
    unfold Gmp.manual
    dsimp only
    generalize s.filter (fun c => !isspace c) = u
    constructor
    · intro h
      by_cases hminus : charAt u 0 = '-'
      · simp only [if_pos hminus] at h
        have hds := Option.isSome_ite.mp h
        cases u with
        | nil => exact absurd hminus (by decide)
        | cons c ds =>
          obtain rfl : c = '-' := hminus
          exact ⟨['-'], ds, .inr rfl, hds.1, List.all_eq_true.mp hds.2, rfl⟩
      · simp only [if_neg hminus] at h
        have hds := Option.isSome_ite.mp h
        exact ⟨[], u, .inl rfl, hds.1, List.all_eq_true.mp hds.2, rfl⟩
    · intro ⟨minus, ds, hminus, hne, hds, hu⟩
      rw [hu]
      rcases hminus with rfl | rfl
      · have hfirst : charAt ds 0 ≠ '-' := by
          obtain ⟨c, v, rfl⟩ := List.exists_cons_of_ne_nil hne
          exact ne_of_isDigit hb (hds c List.mem_cons_self) rfl
        rw [List.nil_append, if_neg hfirst]
        exact Option.isSome_ite.mpr ⟨hne, List.all_eq_true.mpr hds⟩
      · have hfirst : charAt (['-'] ++ ds) 0 = '-' := rfl
        rw [if_pos hfirst]
        exact Option.isSome_ite.mpr ⟨hne, List.all_eq_true.mpr hds⟩

/-- A number that is written as it should be. -/
theorem accepts_only_shaped_hex :
    ¬ (Gmp.manual.memory = true ∧ Irregular "0x1F".toList) := by
  refine (accepts_only_shaped_iff Gmp.manual_documented .int64 "0x1F".toList 0).mp ?_
  intro _
  refine ⟨⟨[], none, [], ['0', 'x'], 16, [], none, [], ['1', 'F'], [], none, [], none, []⟩, ?_, rfl⟩
  refine ⟨⟨by decide, by decide, by decide, by decide, by decide, by decide, by decide, ?_, ?_,
    by decide, ?_, ?_⟩, rfl, by simp, List.all_eq_true.mp rfl, fun hi => absurd rfl hi⟩
  all_goals
    intro c hc
    exact absurd hc (by simp)

/-- The parts of a five with two signs. -/
def twoSigns : Parts :=
  ⟨[], some '-', [], [], 10, [], some '-', [], ['5'], [], none, [], none, []⟩

theorem twoSigns_readable : twoSigns.Readable where
  sorted := by
    refine ⟨by decide, by decide, by decide, by decide, by decide, by decide, by decide, ?_, ?_,
      by decide, ?_, ?_⟩
    · intro c hc
      exact .inr (Option.some.inj hc).symm
    · intro c hc
      exact .inr (Option.some.inj hc).symm
    · intro c hc
      exact absurd hc (by simp [twoSigns])
    · intro c hc
      exact absurd hc (by simp [twoSigns])
  number := by
    refine ⟨?_, endsSolid_concat (u := []) rfl, [], ['5'], .inl rfl, by simp,
      List.all_eq_true.mp rfl, rfl⟩
    intro c r h
    rw [← (List.cons.inj h).1]
    rfl
  sign2 := fun h => absurd h (by simp [twoSigns])
  minus := fun h => absurd h (by simp [twoSigns])
  plain := fun _ => rfl

/-- **Two signs are accepted**, and the number is a positive one. -/
theorem accepted_two_signs :
    parseInt64 Gmp.manual (some "--5".toList) (some 0) = (.ok, some 5) ∧
      ¬ Shaped "--5".toList := by
  refine ⟨by decide, ?_⟩
  intro ⟨q, hq, hqtext⟩
  exact not_regular_of_fault twoSigns_readable hq hqtext.symm (.inl (by simp [twoSigns]))

end Mccp.Str
