/-
  Mccp.Str.Quote
  ──────────────
  **WHAT IS QUOTED COMES BACK.**

  A string without backslash is quoted by a backslash before every quote
  character in it and a quote character around it.  Quotations joined by a
  delimiter are taken apart by the tokenizer, and the unescaping gives each
  string back.

      escape, quoted, joined      — the writing
      escaped_escape              — no quote within a quotation can close it
      tokenizeQuoteLoop_joined    — the run over all the quotations
      unescape_escape             — unescaping undoes escaping
      quoting_round_trip          — all of it
-/
import Mccp.Str.Rounds

namespace Mccp.Str

open CString (nul charAt cstr strchr isValidString)

/-! ## §1. Writing quotations. -/

/-- A backslash before every quote character. -/
def escape (quote t : List Char) : List Char :=
  t.flatMap fun c => if c ∈ quote then ['\\', c] else [c]

/-- A quotation. -/
def quoted (q : Char) (quote t : List Char) : List Char := q :: (escape quote t ++ [q])

/-- Quotations joined by a delimiter. -/
def joined (q d : Char) (quote : List Char) (ts : List (List Char)) : List Char :=
  [d].intercalate (ts.map (quoted q quote))

theorem escape_cons (quote : List Char) (c : Char) (t : List Char) :
    escape quote (c :: t) = (if c ∈ quote then ['\\', c] else [c]) ++ escape quote t := rfl

theorem escape_append (quote t t' : List Char) :
    escape quote (t ++ t') = escape quote t ++ escape quote t' :=
  List.flatMap_append

theorem length_le_escape (quote t : List Char) : t.length ≤ (escape quote t).length := by
  induction t with
  | nil => exact Nat.le_refl 0
  | cons c t ih =>
    rw [escape_cons, List.length_append, List.length_cons]
    split
    · show t.length + 1 ≤ 2 + (escape quote t).length
      omega
    · show t.length + 1 ≤ 1 + (escape quote t).length
      omega

theorem nul_not_mem_escape (quote : List Char) {t : List Char} (ht : nul ∉ t) :
    nul ∉ escape quote t := by
  unfold escape
  intro h
  obtain ⟨c, hc, hmem⟩ := List.mem_flatMap.mp h
  have hne : c ≠ nul := by
    intro he
    exact ht (he ▸ hc)
  split at hmem
  · rcases List.mem_cons.mp hmem with h | h
    · exact absurd h (by decide)
    · exact hne (List.mem_singleton.mp h).symm
  · exact hne (List.mem_singleton.mp hmem).symm

section

variable {quote : List Char}

theorem nul_not_mem_quoted {q : Char} (hq : q ≠ nul) {t : List Char} (ht : nul ∉ t) :
    nul ∉ quoted q quote t := by
  unfold quoted
  intro h
  rcases List.mem_cons.mp h with h | h
  · exact hq h.symm
  · rcases List.mem_append.mp h with h | h
    · exact nul_not_mem_escape quote ht h
    · exact hq (List.mem_singleton.mp h).symm

/-! ## §2. The closing quote. -/

/-- **No quote within a quotation can close it**: each has a backslash before it. -/
theorem escaped_escape {q : Char} (hq : q ∈ quote) (hbs : '\\' ∉ quote) (t : List Char) :
    Escaped q (escape quote t) := by
  induction t using List.reverseRecOn with
  | nil => exact Escaped.nil q
  | append_singleton t c ih =>
    rw [escape_append]
    by_cases hmem : c ∈ quote
    · -- the backslash, and what it escapes
      have hesc : escape quote [c] = ['\\'] ++ [c] := by simp [escape, hmem]
      have hbackslash : Escaped q (escape quote t ++ ['\\']) := by
        apply ih.concat
        intro h
        exact absurd (h ▸ hq) hbs
      rw [hesc, ← List.append_assoc]
      exact hbackslash.concat (fun _ => by simp)
    · have hesc : escape quote [c] = [c] := by simp [escape, hmem]
      rw [hesc]
      apply ih.concat
      intro h
      exact absurd (h ▸ hq) hmem

/-- The quote that closes it has none. -/
theorem getLast?_escape_ne {t : List Char} (htbs : '\\' ∉ t) :
    (escape quote t).getLast? ≠ some '\\' := by
  rcases List.eq_nil_or_concat' t with rfl | ⟨u, c, rfl⟩
  · simp [escape]
  · have hc : c ≠ '\\' := by
      intro h
      exact htbs (h ▸ List.mem_append_right u List.mem_cons_self)
    rw [escape_append]
    by_cases hmem : c ∈ quote
    · simp [escape, hmem, hc]
    · simp [escape, hmem, hc]

/-! ## §3. One quotation after the other. -/

/-- The quotations after the first, each with a delimiter before it. -/
def followers (q d : Char) (quote : List Char) (ts : List (List Char)) : List Char :=
  ts.flatMap fun t => d :: quoted q quote t

theorem joined_cons (q d : Char) (quote t : List Char) (ts : List (List Char)) :
    joined q d quote (t :: ts) = quoted q quote t ++ followers q d quote ts := by
  unfold joined
  induction ts generalizing t with
  | nil => simp [List.intercalate, followers]
  | cons t' ts ih =>
    have h := ih t'
    simp only [List.intercalate, List.map_cons, List.intersperse_cons_cons, List.flatten_cons]
      at h ⊢
    rw [h]
    simp [followers]

theorem length_le_followers (q d : Char) (quote : List Char) (ts : List (List Char)) :
    ts.length ≤ (followers q d quote ts).length := by
  induction ts with
  | nil => exact Nat.le_refl 0
  | cons t ts ih =>
    show ts.length + 1 ≤ (d :: quoted q quote t ++ followers q d quote ts).length
    rw [List.length_append, List.length_cons]
    omega

theorem nul_not_mem_followers {q d : Char} (hq : q ≠ nul) (hd : d ≠ nul) {ts : List (List Char)}
    (hts : ∀ t ∈ ts, nul ∉ t) : nul ∉ followers q d quote ts := by
  unfold followers
  intro h
  obtain ⟨t, ht, hmem⟩ := List.mem_flatMap.mp h
  rcases List.mem_cons.mp hmem with hmem | hmem
  · exact hd hmem.symm
  · exact nul_not_mem_quoted hq (hts t ht) hmem

/-- What a quotation leaves in the buffer. -/
def cleared (lead quote t : List Char) : List Char :=
  lead ++ [nul] ++ escape quote t ++ [nul]

/-- **One round of the main loop**, over one quotation. -/
theorem tokenizeQuoteLoop_round {delm : List Char} {q : Char} (hnul : nul ∉ delm) (hq : q ∈ quote)
    (hqd : q ∉ delm) (hqnul : q ≠ nul) (hbs : '\\' ∉ quote) {t : List Char} (ht : nul ∉ t)
    (htbs : '\\' ∉ t) {lead : List Char} (hlead : ∀ c ∈ lead, c ∈ delm) {max n : Nat}
    (hmax : n < max) {rest : List Char} (hrest : nul ∉ rest) {fuel : Nat} {out mem : List Char}
    {tokens tokens' : List (Nat × Nat)} {ret : Result}
    (hgo : Ends (tokenizeQuoteLoop max delm quote (fuel + 1)
      (.reading (out ++ cleared lead quote t) rest (n + 1)
        ((n, (out ++ lead ++ [nul]).length) :: (n, (out ++ lead).length) :: tokens)))
      ret mem tokens') :
    Ends (tokenizeQuoteLoop max delm quote (fuel + 1 + 1)
      (.reading out (lead ++ (quoted q quote t ++ rest)) n tokens)) ret mem tokens' := by
  have hquoted : quoted q quote t ++ rest = [] ++ q :: (escape quote t ++ q :: rest) := by
    simp [quoted]
  have htext : nul ∉ quoted q quote t ++ rest := by
    intro h
    rcases List.mem_append.mp h with h | h
    · exact nul_not_mem_quoted hqnul ht h
    · exact hrest h
  rw [hquoted] at htext ⊢
  have hword : Word delm quote [] := fun c hc => absurd hc List.not_mem_nil
  apply tokenizeQuoteLoop_closed hnul hmax hlead hword hq hqd (escaped_escape hq hbs t)
    (getLast?_escape_ne htbs) htext
  rw [quoteToken_alone rfl, List.append_nil]
  simpa only [cleared, List.append_assoc] using hgo

/-- What a run has stored: the token of each string, from the index `n` on. -/
structure Stored (quote : List Char) (n : Nat) (ts : List (List Char)) (mem : List Char)
    (new : List (Nat × Nat)) : Prop where
  index : ∀ p ∈ new, n ≤ p.1
  token : ∀ i (hi : i < ts.length), ∃ p, new.lookup (n + i) = some p ∧
    cstr mem p = escape quote ts[i]

theorem Stored.nil (n : Nat) (mem : List Char) : Stored quote n [] mem [] where
  index := fun _ hp => absurd hp List.not_mem_nil
  token := fun i hi => absurd hi (Nat.not_lt_zero i)

/-- The token that a quotation leaves. -/
theorem cstr_cleared {t : List Char} (ht : nul ∉ t) (pre lead rest : List Char) :
    cstr (pre ++ (cleared lead quote t ++ rest)) (pre ++ lead ++ [nul]).length =
      escape quote t := by
  have h := CString.cstr_append (nul_not_mem_escape quote ht) (pre ++ lead ++ [nul]) rest
  simp only [cleared, List.append_assoc, List.cons_append, List.nil_append] at h ⊢
  exact h

theorem Stored.cons {n p : Nat} {t : List Char} {ts : List (List Char)} {mem : List Char}
    {new : List (Nat × Nat)} (p' : Nat) (h : Stored quote (n + 1) ts mem new)
    (ht : cstr mem p = escape quote t) :
    Stored quote n (t :: ts) mem (new ++ [(n, p), (n, p')]) := by
  constructor
  · intro x hx
    rcases List.mem_append.mp hx with hx | hx
    · have hle := h.index x hx
      omega
    · rcases List.mem_cons.mp hx with rfl | hx
      · exact Nat.le_refl n
      · rw [List.mem_singleton.mp hx]
  · intro i hi
    cases i with
    | zero =>
      -- the last store to an element is the one that counts
      exact ⟨p, lookup_store h.index, ht⟩
    | succ i =>
      obtain ⟨p'', hp, hstr⟩ := h.token i (by rw [List.length_cons] at hi; omega)
      refine ⟨p'', ?_, hstr⟩
      rw [List.lookup_append, show n + (i + 1) = n + 1 + i by omega, hp]
      rfl

/-- **The run over all the quotations.** -/
theorem tokenizeQuoteLoop_joined {delm : List Char} {d q : Char} (hnul : nul ∉ delm) (hd : d ∈ delm)
    (hq : q ∈ quote) (hqd : q ∉ delm) (hqnul : q ≠ nul) (hbs : '\\' ∉ quote) (max : Nat)
    (ts : List (List Char)) :
    ∀ (t : List Char), (∀ u ∈ t :: ts, nul ∉ u ∧ '\\' ∉ u) →
      ∀ (lead : List Char), (∀ c ∈ lead, c ∈ delm) →
      ∀ (pre : List Char) (n fuel : Nat) (tokens : List (Nat × Nat)),
        n + ts.length < max → ts.length + 1 < fuel →
        ∃ out new, Ends (tokenizeQuoteLoop max delm quote fuel
            (.reading pre (lead ++ (quoted q quote t ++ followers q d quote ts)) n tokens))
          (n + ts.length + 1 : Nat) (pre ++ out) (new ++ tokens) ∧
          Stored quote n (t :: ts) (pre ++ out) new := by
  have hdnul : d ≠ nul := by
    intro h
    exact hnul (h ▸ hd)
  induction ts with
  | nil =>
    intro t ht lead hlead pre n fuel tokens hmax hfuel
    obtain ⟨f, rfl⟩ : ∃ f, fuel = f + 1 + 1 := ⟨fuel - 2, by omega⟩
    obtain ⟨htnul, htbs⟩ := ht t List.mem_cons_self
    -- after the last quotation the loop meets the end of the text
    have hend : Ends (tokenizeQuoteLoop max delm quote (f + 1) (.reading
        (pre ++ cleared lead quote t) [] (n + 1)
        ((n, (pre ++ lead ++ [nul]).length) :: (n, (pre ++ lead).length) :: tokens))) _ _ _ :=
      tokenizeQuoteLoop_delms hnul (fun _ hc => absurd hc List.not_mem_nil) max f _ (n + 1) _
    refine ⟨cleared lead quote t ++ [nul], [(n, (pre ++ lead ++ [nul]).length),
      (n, (pre ++ lead).length)], ?_, ?_⟩
    · rw [← List.append_assoc pre (cleared lead quote t)]
      exact tokenizeQuoteLoop_round hnul hq hqd hqnul hbs htnul htbs hlead (by simpa using hmax)
        List.not_mem_nil hend
    · exact Stored.cons _ (Stored.nil (n + 1) _) (cstr_cleared htnul pre lead [nul])
  | cons t' ts ih =>
    intro t ht lead hlead pre n fuel tokens hmax hfuel
    obtain ⟨f, rfl⟩ : ∃ f, fuel = f + 1 + 1 := ⟨fuel - 2, by omega⟩
    obtain ⟨htnul, htbs⟩ := ht t List.mem_cons_self
    rw [List.length_cons] at hmax hfuel
    have hfoll : followers q d quote (t' :: ts) =
        [d] ++ (quoted q quote t' ++ followers q d quote ts) := by simp [followers]
    have hrest : nul ∉ followers q d quote (t' :: ts) :=
      nul_not_mem_followers hqnul hdnul (fun u hu => (ht u (List.mem_cons_of_mem t hu)).1)
    -- otherwise a delimiter comes, and the loop starts again with it in front
    obtain ⟨out, new, hrun, hstored⟩ := ih t' (fun u hu => ht u (List.mem_cons_of_mem t hu)) [d]
      (fun c hc => (List.mem_singleton.mp hc).symm ▸ hd) (pre ++ cleared lead quote t) (n + 1)
      (f + 1) ((n, (pre ++ lead ++ [nul]).length) :: (n, (pre ++ lead).length) :: tokens)
      (by omega) (by omega)
    rw [← hfoll] at hrun
    have hround := tokenizeQuoteLoop_round hnul hq hqd hqnul hbs htnul htbs hlead
      (by omega : n < max) hrest hrun
    have hmem : pre ++ (cleared lead quote t ++ out) = pre ++ cleared lead quote t ++ out := by
      simp
    have hcount : n + (t' :: ts).length + 1 = n + 1 + ts.length + 1 := by
      rw [List.length_cons]
      omega
    refine ⟨cleared lead quote t ++ out, new ++ [(n, (pre ++ lead ++ [nul]).length),
      (n, (pre ++ lead).length)], ?_, ?_⟩
    · rw [hmem, hcount, List.append_assoc new]
      exact hround
    · rw [hmem]
      apply hstored.cons _
      rw [← hmem]
      exact cstr_cleared htnul pre lead out

/-! ## §4. Unescaping what was escaped. -/

/-- **Unescaping undoes escaping.** -/
theorem unescapeLoop_escape {t : List Char} (htbs : '\\' ∉ t) :
    unescapeLoop quote false (escape quote t) = t := by
  induction t with
  | nil => rfl
  | cons c t ih =>
    have hrest := ih (fun h => htbs (List.mem_cons_of_mem c h))
    have hc : c ≠ '\\' := by
      intro h
      exact htbs (h ▸ List.mem_cons_self)
    rw [escape_cons]
    by_cases hmem : c ∈ quote
    · rw [if_pos hmem]
      show unescapeLoop quote true (c :: escape quote t) = c :: t
      rw [unescapeLoop, if_pos hmem, hrest]
      rfl
    · rw [if_neg hmem]
      show unescapeLoop quote false (c :: escape quote t) = c :: t
      rw [unescapeLoop, if_neg hc, hrest]

/-- The first character is a backslash or no quote character, and so is the
last but one, where the last is a quote character. -/
theorem canUnescape_escape (hbs : '\\' ∉ quote) {t : List Char} (hne : t ≠ []) :
    canUnescape quote (escape quote t) = true := by
  have hfirst : charAt (escape quote t) 0 ∉ quote := by
    obtain ⟨c, u, rfl⟩ := List.exists_cons_of_ne_nil hne
    rw [escape_cons]
    by_cases hmem : c ∈ quote
    · rw [if_pos hmem]
      exact hbs
    · rw [if_neg hmem]
      exact hmem
  have hlast : charAt (escape quote t) ((escape quote t).length - 1) ∉ quote ∨
      2 ≤ (escape quote t).length ∧
      charAt (escape quote t) ((escape quote t).length - 1) ∈ quote ∧
      charAt (escape quote t) ((escape quote t).length - 2) = '\\' := by
    obtain ⟨u, c, rfl⟩ : ∃ u c, t = u ++ [c] := ⟨_, _, (List.dropLast_append_getLast hne).symm⟩
    rw [escape_append]
    by_cases hmem : c ∈ quote
    · right
      have hesc : escape quote u ++ escape quote [c] = escape quote u ++ ['\\'] ++ [c] := by
        simp [escape, hmem]
      have hlen : (escape quote u ++ ['\\'] ++ [c]).length - 2 = (escape quote u).length := by simp
      rw [hesc]
      refine ⟨by simp, ?_, ?_⟩
      · rw [CString.charAt_concat]
        exact hmem
      · rw [hlen, List.append_assoc]
        exact CString.charAt_append (escape quote u) '\\' [c]
    · left
      have hesc : escape quote u ++ escape quote [c] = escape quote u ++ [c] := by
        simp [escape, hmem]
      rw [hesc, CString.charAt_concat]
      exact hmem
  unfold canUnescape
  exact decide_eq_true ⟨hfirst, hlast⟩

/-- `mccp_str_unescape` on an escaped string. -/
theorem unescape_escape (hq : quote ≠ []) (hbs : '\\' ∉ quote) {t : List Char} (hne : t ≠ [])
    (htbs : '\\' ∉ t) :
    unescape true (some (escape quote t)) (some quote) = ((t.length : Int), some t) := by
  have hesc : escape quote t ≠ [] := by
    intro h
    have hle := length_le_escape quote t
    rw [h] at hle
    exact hne (List.eq_nil_of_length_eq_zero (Nat.le_zero.mp hle))
  have hpos : 0 < t.length := List.length_pos_iff.mpr hne
  have hvalid : isValidString (some (escape quote t)) ∧ isValidString (some quote) := by
    simp [isValidString, hesc, hq]
  unfold unescape
  simp only [hvalid, canUnescape_escape hbs hne, unescapeLoop_escape htbs, hpos, and_self,
    if_true]

end

/-! ## §5. The round trip. -/

/-- **What is quoted comes back**: the tokenizer finds as many tokens as there
are strings, and unescaping a token gives its string. -/
theorem quoting_round_trip (delm quote : CString) (hdisj : ∀ c ∈ delm.chars, c ∉ quote.chars)
    (hqbs : '\\' ∉ quote.chars) {q d : Char} (hq : q ∈ quote.chars) (hd : d ∈ delm.chars)
    (ts : List CString) (hts : ts ≠ [])
    (hne : ∀ t ∈ ts, t.chars ≠ []) (htbs : ∀ t ∈ ts, '\\' ∉ t.chars) (max : Nat)
    (hmax : ts.length ≤ max) :
    ∃ s : Scan,
      tokenizeQuote (some (joined q d quote.chars (ts.map CString.chars))) max
          (some delm.chars) (some quote.chars) = some ((ts.length : Int), s) ∧
      ∀ i (hi : i < ts.length), ∃ token, s.token i = some token ∧
        unescape true (some token) (some quote.chars) =
          ((ts[i].chars.length : Int), some ts[i].chars) := by
  have hdnul : d ≠ nul := by
    intro h
    rw [h] at hd
    exact delm.noNul hd
  have hqd : q ∉ delm.chars := fun h => hdisj q h hq
  obtain ⟨t, us, rfl⟩ := List.exists_cons_of_ne_nil hts
  have hchars : ∀ u ∈ t.chars :: us.map CString.chars, nul ∉ u ∧ '\\' ∉ u := by
    intro u hu
    rw [← List.map_cons] at hu
    obtain ⟨v, hv, rfl⟩ := List.mem_map.mp hu
    exact ⟨v.noNul, htbs v hv⟩
  rw [List.length_cons] at hmax
  have hqnul : q ≠ nul := by
    intro h
    rw [h] at hq
    exact quote.noNul hq
  have htext : joined q d quote.chars ((t :: us).map CString.chars) =
      quoted q quote.chars t.chars ++ followers q d quote.chars (us.map CString.chars) := by
    rw [List.map_cons, joined_cons]
  have hfuel : (us.map CString.chars).length + 1 <
      (joined q d quote.chars ((t :: us).map CString.chars) ++ [nul]).length + 1 := by
    have hle := length_le_followers q d quote.chars (us.map CString.chars)
    rw [htext, List.length_append, List.length_append, List.length_singleton]
    omega
  obtain ⟨out, new, ⟨s, hrun, hmem, htokens⟩, hstored⟩ := tokenizeQuoteLoop_joined delm.noNul hd hq
    hqd hqnul hqbs max (us.map CString.chars) t.chars hchars []
    (fun c hc => absurd hc List.not_mem_nil) [] 0
    ((joined q d quote.chars ((t :: us).map CString.chars) ++ [nul]).length + 1) []
    (by rw [List.length_map]; omega) hfuel
  have hvalid : isValidString (some (joined q d quote.chars ((t :: us).map CString.chars))) ∧
      isValidString (some delm.chars) ∧ isValidString (some quote.chars) := by
    have hdne : delm.chars ≠ [] := List.ne_nil_of_mem hd
    have hqne : quote.chars ≠ [] := List.ne_nil_of_mem hq
    rw [List.map_cons, joined_cons]
    simp [isValidString, hdne, hqne, quoted]
  rw [List.nil_append] at hmem hstored
  rw [List.append_nil] at htokens
  rw [← hmem, ← htokens] at hstored
  rw [List.nil_append, ← htext, Nat.zero_add, List.length_map] at hrun
  refine ⟨s, ?_, ?_⟩
  · unfold tokenizeQuote
    dsimp only
    rw [if_pos hvalid]
    exact hrun
  · intro i hi
    have hi' : i < (t.chars :: us.map CString.chars).length := by simpa using hi
    obtain ⟨p, hp, hstr⟩ := hstored.token i hi'
    have htoken : (t.chars :: us.map CString.chars)[i] = ((t :: us)[i]).chars :=
      List.getElem_map CString.chars (l := t :: us)
    refine ⟨escape quote.chars (t :: us)[i].chars, ?_, ?_⟩
    · unfold Scan.token
      rw [Nat.zero_add] at hp
      rw [hp, ← htoken, ← hstr]
      rfl
    · have hmem := List.getElem_mem hi
      exact unescape_escape (List.ne_nil_of_mem hq) hqbs (hne _ hmem) (htbs _ hmem)

/-- Three strings, with quote characters at both ends and a delimiter inside. -/
theorem quoting_round_trip_three :
    ∃ s : Scan,
      tokenizeQuote (some "\"that\\'s\" \"\\\"a b\\\"\" \"\\'\"".toList) 3 (some "\t ".toList)
        (some "\"'".toList) = some (3, s) ∧
      ∃ token, s.token 1 = some token ∧
        unescape true (some token) (some "\"'".toList) = (5, some "\"a b\"".toList) := by
  obtain ⟨s, hs, htokens⟩ := quoting_round_trip ⟨['\t', ' '], by decide⟩ ⟨['"', '\''], by decide⟩
    (by simp) (by decide) (q := '"') (d := ' ') (by decide) (by decide)
    [⟨['t', 'h', 'a', 't', '\'', 's'], by decide⟩, ⟨['"', 'a', ' ', 'b', '"'], by decide⟩,
      ⟨['\''], by decide⟩] (by simp) (by decide) (by decide) 3 (by decide)
  exact ⟨s, hs, htokens 1 (by decide)⟩

end Mccp.Str
