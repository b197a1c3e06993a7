/-
  Mccp.Str.Rounds
  ───────────────
  **WHAT ONE ROUND OF A TOKENIZER DOES.**

  A tokenizer changes the buffer only behind its pointer.  What it does is told
  by the text ahead: delimiters, the characters of a word, and what ends the
  word, which is a delimiter, a quote or the end of the text.

      Scan.reading            — the loop stands before a text
      Escaped                 — every quote in a text has a backslash before it
      skipToUnquote_cases     — the three ways out of the search for the quote
      Ends                    — what a run leaves: result, buffer, stores
      tokenizeQuoteLoop_word  — the rounds, one lemma for each way a word ends
-/
import Mccp.Str.Tokenize

namespace Mccp.Str

open CString (nul charAt cstr strchr isValidString)

/-! ## §1. Standing before a text. -/

/-- The tokenizer has made `out` of what it passed and stands before `rest`. -/
def Scan.reading (out rest : List Char) (n : Nat) (tokens : List (Nat × Nat)) : Scan :=
  ⟨out ++ (rest ++ [nul]), out.length, n, tokens⟩

section

variable (out : List Char) (n : Nat) (tokens : List (Nat × Nat))

@[simp] theorem Scan.reading_n (rest : List Char) : (reading out rest n tokens).n = n := rfl

@[simp] theorem Scan.reading_tokens (rest : List Char) :
    (reading out rest n tokens).tokens = tokens := rfl

@[simp] theorem Scan.reading_mem (rest : List Char) :
    (reading out rest n tokens).mem = out ++ (rest ++ [nul]) := rfl

@[simp] theorem Scan.reading_buf (rest : List Char) :
    (reading out rest n tokens).buf = out.length := rfl

@[simp] theorem Scan.reading_char_nil : (reading out [] n tokens).char = nul :=
  CString.charAt_append out nul []

@[simp] theorem Scan.reading_char_cons (c : Char) (rest : List Char) :
    (reading out (c :: rest) n tokens).char = c :=
  CString.charAt_append out c (rest ++ [nul])

/-- One character further. -/
theorem Scan.reading_next (c : Char) (rest : List Char) :
    { reading out (c :: rest) n tokens with buf := (reading out (c :: rest) n tokens).buf + 1 } =
      reading (out ++ [c]) rest n tokens := by
  simp [reading]

/-- The character becomes a terminator. -/
theorem Scan.reading_terminate (c : Char) (rest : List Char) :
    (reading out (c :: rest) n tokens).terminate =
      ⟨out ++ [nul] ++ (rest ++ [nul]), out.length, n, tokens⟩ := by
  unfold terminate reading
  rw [List.cons_append, CString.set_append]
  simp

/-- The terminator is passed. -/
theorem Scan.reading_passed (rest : List Char) :
    (⟨out ++ [nul] ++ (rest ++ [nul]), out.length + 1, n, tokens⟩ : Scan) =
      reading (out ++ [nul]) rest n tokens := by
  simp [reading]

@[simp] theorem Scan.reading_store (rest : List Char) :
    (reading out rest n tokens).store = reading out rest n ((n, out.length) :: tokens) := rfl

/-- Whether the text has come to its end. -/
theorem Scan.reading_char_eq_nul {rest : List Char} (hrest : nul ∉ rest) :
    (reading out rest n tokens).char = nul ↔ rest = [] := by
  cases rest with
  | nil => simp
  | cons c rest =>
    have hc : c ≠ nul := by
      intro h
      exact hrest (h ▸ List.mem_cons_self)
    simp [hc]

end

/-! ## §2. The inner loops. -/

section

variable {delm quote : List Char}

/-- A text that does not begin with a delimiter. -/
def NoDelm (delm rest : List Char) : Prop := ∀ c r, rest = c :: r → c ∉ delm

/-- The delimiters before a token are passed. -/
theorem skipDelm_reading {ds : List Char} (hds : ∀ c ∈ ds, c ∈ delm) (hnul : nul ∉ delm)
    {rest : List Char} (hstop : NoDelm delm rest) (out : List Char) (n : Nat)
    (tokens : List (Nat × Nat)) (fuel : Nat) (hfuel : ds.length < fuel) :
    skipDelm delm fuel (.reading out (ds ++ rest) n tokens) =
      some (.reading (out ++ ds) rest n tokens) := by
  induction ds generalizing out fuel with
  | nil =>
    obtain ⟨f, rfl⟩ : ∃ f, fuel = f + 1 := ⟨fuel - 1, by omega⟩
    rw [List.nil_append, List.append_nil, skipDelm, if_neg]
    intro h
    cases rest with
    | nil => exact h.1 (Scan.reading_char_nil out n tokens)
    | cons c r =>
      rw [Scan.reading_char_cons] at h
      exact hstop c r rfl h.2
  | cons d ds ih =>
    obtain ⟨f, rfl⟩ : ∃ f, fuel = f + 1 := ⟨fuel - 1, by omega⟩
    rw [List.length_cons] at hfuel
    have hd := hds d List.mem_cons_self
    have hdnul : d ≠ nul := by
      intro h
      exact hnul (h ▸ hd)
    have hrest := ih (fun c hc => hds c (List.mem_cons_of_mem d hc)) (out ++ [d]) f
      (by omega)
    rw [List.cons_append, skipDelm, Scan.reading_char_cons, if_pos ⟨hdnul, hd⟩,
      Scan.reading_next, hrest]
    simp

/-- The characters of a word: neither delimiters nor quotes. -/
def Word (delm quote w : List Char) : Prop := ∀ c ∈ w, c ∉ delm ∧ c ∉ quote

/-- The characters of a word are counted. -/
theorem scanToken_word {w : List Char} (hw : Word delm quote w) (hnul : nul ∉ w) (max : Nat)
    (out rest : List Char) (fuel k n : Nat) (tokens : List (Nat × Nat)) :
    scanToken max delm quote (fuel + w.length) k (.reading out (w ++ rest) n tokens) =
      scanToken max delm quote fuel (k + w.length) (.reading (out ++ w) rest n tokens) := by
  induction w generalizing out k with
  | nil => simp
  | cons c w ih =>
    have hc : c ≠ nul := by
      intro h
      exact hnul (h ▸ List.mem_cons_self)
    obtain ⟨hcd, hcq⟩ := hw c List.mem_cons_self
    have hrest := ih (fun d hd => hw d (List.mem_cons_of_mem c hd))
      (fun h => hnul (List.mem_cons_of_mem c h)) (out ++ [c]) (k + 1)
    rw [List.length_cons, ← Nat.add_assoc, scanToken, List.cons_append, Scan.reading_char_cons,
      if_pos ⟨hc, hcd⟩, if_neg hcq, Scan.reading_next, hrest, List.append_assoc,
      List.singleton_append]
    congr 1
    omega

/-- A token ends at the end of the text, and at a delimiter. -/
theorem scanToken_stop {rest : List Char} (hstop : ∀ c r, rest = c :: r → c ∈ delm) (max : Nat)
    (out : List Char) (fuel k n : Nat) (tokens : List (Nat × Nat)) :
    scanToken max delm quote (fuel + 1) k (.reading out rest n tokens) =
      some (.gotToken k (.reading out rest n tokens)) := by
  rw [scanToken, if_neg]
  intro h
  cases rest with
  | nil => exact h.1 (Scan.reading_char_nil out n tokens)
  | cons c r =>
    rw [Scan.reading_char_cons] at h
    exact h.2 (hstop c r rfl)

/-- A quote ends the word before it, and a quotation begins. -/
theorem scanToken_quote {q : Char} (hnul : q ≠ nul) (hq : q ∈ quote) (hqd : q ∉ delm)
    (max : Nat) (out rest : List Char) (fuel k n : Nat) (tokens : List (Nat × Nat)) :
    scanToken max delm quote (fuel + 1) k (.reading out (q :: rest) n tokens) =
      let s := Scan.reading (out ++ [nul]) rest n tokens
      if s.char ≠ nul then
        if 0 < k ∧ max ≤ s.n then some (.done s.n s)
        else
          let s := if 0 < k then { s with n := s.n + 1 } else s
          skipToUnquote q k (s.mem.length + 1) s.store
      else some (.done .quoteNotClosed s) := by
  have hnext : { (Scan.reading out (q :: rest) n tokens).terminate with
      buf := (Scan.reading out (q :: rest) n tokens).buf + 1 } =
      Scan.reading (out ++ [nul]) rest n tokens := by
    rw [Scan.reading_terminate]
    exact Scan.reading_passed out n tokens rest
  rw [scanToken, Scan.reading_char_cons, if_pos ⟨hnul, hqd⟩, if_pos hq, scanQuoted, hnext,
    Scan.reading_char_cons]

/-- A word with a quote behind it begins with no delimiter. -/
theorem noDelm_word {w : List Char} (hw : Word delm quote w) {q : Char} (hq : q ∉ delm)
    (rest : List Char) : NoDelm delm (w ++ q :: rest) := by
  intro c r h
  cases w with
  | nil =>
    rw [List.nil_append] at h
    exact (List.cons.inj h).1 ▸ hq
  | cons a w =>
    rw [List.cons_append] at h
    exact (List.cons.inj h).1 ▸ (hw a List.mem_cons_self).1

/-- **The text ahead comes apart**: delimiters, the characters of a word, and
what ends it. -/
theorem exists_opening (delm quote text : List Char) :
    ∃ ds w rest, text = ds ++ (w ++ rest) ∧ (∀ c ∈ ds, c ∈ delm) ∧ Word delm quote w ∧
      ∀ c r, rest = c :: r → w ≠ [] ∧ c ∈ delm ∨ c ∈ quote ∧ c ∉ delm := by
  obtain ⟨ds, rest, rfl, hds, hrest⟩ := CString.exists_span (· ∈ delm) text
  obtain ⟨w, tail, rfl, hw, htail⟩ := CString.exists_span (fun c => c ∉ delm ∧ c ∉ quote) rest
  refine ⟨ds, w, tail, rfl, hds, hw, ?_⟩
  intro c r hc
  have hstop := htail c r hc
  by_cases hd : c ∈ delm
  · left
    refine ⟨?_, hd⟩
    -- the delimiters were passed before
    rintro rfl
    exact hrest c r hc hd
  · right
    refine ⟨?_, hd⟩
    by_contra hq
    exact hstop ⟨hd, hq⟩

/-! ## §3. The closing quote. -/

/-- Every `q` in a quotation has a backslash before it. -/
def Escaped (q : Char) (t : List Char) : Prop := ∀ u v, t = u ++ q :: v → u.getLast? = some '\\'

theorem Escaped.nil (q : Char) : Escaped q [] := by
  intro u v h
  exact absurd h (by simp)

theorem Escaped.concat {q c : Char} {t : List Char} (h : Escaped q t)
    (hc : c = q → t.getLast? = some '\\') : Escaped q (t ++ [c]) := by
  intro u v huv
  rcases List.eq_nil_or_concat v with rfl | ⟨v, d, rfl⟩
  · obtain ⟨rfl, hcq⟩ := List.append_inj' huv rfl
    exact hc (List.cons.inj hcq).1
  · have hsplit : t ++ [c] = u ++ q :: v ++ [d] := by
      rw [huv]
      simp
    obtain ⟨rfl, -⟩ := List.append_inj' hsplit rfl
    exact h u v rfl

theorem Escaped.append {q : Char} {t u : List Char} (h : Escaped q t) (hu : q ∉ u) :
    Escaped q (t ++ u) := by
  induction u using List.reverseRecOn with
  | nil =>
    rw [List.append_nil]
    exact h
  | append_singleton u c ih =>
    rw [← List.append_assoc]
    apply (ih (fun hq => hu (List.mem_append_left _ hq))).concat
    intro hc
    exact absurd (hc ▸ List.mem_append_right u List.mem_cons_self) hu

/-- The first quote that is not escaped is one place. -/
theorem Escaped.unique {q : Char} {t t' r r' : List Char} (h : Escaped q t)
    (hlast : t.getLast? ≠ some '\\') (h' : Escaped q t') (hlast' : t'.getLast? ≠ some '\\')
    (heq : t ++ q :: r = t' ++ q :: r') : t = t' ∧ r = r' := by
  rcases List.append_eq_append_iff.mp heq with ⟨a, rfl, ha⟩ | ⟨a, rfl, ha⟩
  · cases a with
    | nil =>
      rw [List.nil_append] at ha
      exact ⟨(List.append_nil t).symm, (List.cons.inj ha).2⟩
    | cons c a =>
      obtain ⟨rfl, -⟩ := List.cons.inj ha
      exact absurd (h' t a rfl) hlast
  · cases a with
    | nil =>
      rw [List.nil_append] at ha
      exact ⟨List.append_nil t', (List.cons.inj ha).2.symm⟩
    | cons c a =>
      obtain ⟨rfl, -⟩ := List.cons.inj ha
      exact absurd (h t' a rfl) hlast'

/-- How the search for the closing quote ends, in a quotation whose text is
`t`: at the first quote that is not escaped, at the end of a text whose last
quote is escaped, or with no quote left. -/
inductive Unquoted (q : Char) (k : Nat) (out t : List Char) (n : Nat)
    (tokens : List (Nat × Nat)) : Scanned → Prop where
  | closed {u r : List Char} (ht : t = u ++ q :: r) (hu : Escaped q u)
      (hlast : u.getLast? ≠ some '\\') :
      Unquoted q k out t n tokens (.gotToken 1 (.reading (out ++ u) (q :: r) n tokens))
  | fell (ht : Escaped q t) (hlast : t.getLast? = some q) :
      Unquoted q k out t n tokens (.gotToken k (.reading (out ++ t) [] n tokens))
  | unclosed {u r : List Char} (htext : t = u ++ r) (ht : Escaped q t)
      (hlast : t.getLast? ≠ some q) :
      Unquoted q k out t n tokens (.done .quoteNotClosed (.reading (out ++ u) r n tokens))

section

variable {q : Char} (hq : q ≠ nul)

include hq

/-- The search comes to the next `q`, with `u` and `v` of the quotation before it:
behind a backslash it goes on. -/
theorem skipToUnquote_found {v r : List Char} (hr : nul ∉ v ++ q :: r) (hv : q ∉ v) (u : List Char)
    (k fuel : Nat) (out : List Char) (n : Nat) (tokens : List (Nat × Nat)) :
    skipToUnquote q k (fuel + 1) (.reading (out ++ [nul] ++ u) (v ++ q :: r) n tokens) =
      if (u ++ v).getLast? = some '\\' then
        skipToUnquote q k fuel (.reading (out ++ [nul] ++ (u ++ v ++ [q])) r n tokens)
      else some (.gotToken 1 (.reading (out ++ [nul] ++ (u ++ v)) (q :: r) n tokens)) := by
  have hvnul : nul ∉ v := fun h => hr (List.mem_append_left _ h)
  have hchar : (Scan.reading (out ++ [nul] ++ u) (v ++ q :: r) n tokens).char ≠ nul := by
    intro h
    exact absurd ((Scan.reading_char_eq_nul _ _ _ hr).mp h) (by simp)
  have hfound : strchr (Scan.reading (out ++ [nul] ++ u) (v ++ q :: r) n tokens).mem
      (Scan.reading (out ++ [nul] ++ u) (v ++ q :: r) n tokens).buf q =
      some (out ++ [nul] ++ (u ++ v)).length := by
    have h := CString.strchr_append hq hvnul hv (out ++ [nul] ++ u) (r ++ [nul])
    simpa only [Scan.reading_mem, Scan.reading_buf, List.append_assoc, List.cons_append] using h
  have hmem : (Scan.reading (out ++ [nul] ++ u) (v ++ q :: r) n tokens).mem =
      out ++ [nul] ++ (u ++ v) ++ (q :: r ++ [nul]) := by simp
  -- strchr() looks no further back than the quotation
  have hbefore := CString.charAt_before out (u ++ v) (q :: r ++ [nul]) (c := '\\') (by decide)
  have hnext : (⟨out ++ [nul] ++ (u ++ v) ++ (q :: r ++ [nul]),
      (out ++ [nul] ++ (u ++ v)).length + 1, n, tokens⟩ : Scan) =
        .reading (out ++ [nul] ++ (u ++ v ++ [q])) r n tokens := by
    simp [Scan.reading, Nat.add_assoc]
  have hhere : (⟨out ++ [nul] ++ (u ++ v) ++ (q :: r ++ [nul]),
      (out ++ [nul] ++ (u ++ v)).length, n, tokens⟩ : Scan) =
        .reading (out ++ [nul] ++ (u ++ v)) (q :: r) n tokens := rfl
  rw [skipToUnquote, if_pos hchar, hfound]
  dsimp only
  rw [hmem, Scan.reading_n, Scan.reading_tokens, hnext, hhere]
  by_cases hbs : (u ++ v).getLast? = some '\\'
  · rw [if_pos (hbefore.mpr hbs), if_pos hbs]
  · rw [if_neg (fun h => hbs (hbefore.mp h)), if_neg hbs]

omit hq in
/-- There is no further `q`. -/
theorem skipToUnquote_none {r : List Char} (hr : nul ∉ r) (hnil : r ≠ []) (hmem : q ∉ r)
    (k fuel : Nat) (out : List Char) (n : Nat) (tokens : List (Nat × Nat)) :
    skipToUnquote q k (fuel + 1) (.reading out r n tokens) =
      some (.done .quoteNotClosed (.reading out r n tokens)) := by
  have hchar : (Scan.reading out r n tokens).char ≠ nul := by
    intro h
    exact hnil ((Scan.reading_char_eq_nul _ _ _ hr).mp h)
  have hnone : strchr (Scan.reading out r n tokens).mem (Scan.reading out r n tokens).buf q =
      none := CString.strchr_eq_none hr hmem out []
  rw [skipToUnquote, if_pos hchar, hnone]

/-- **The search for the closing quote**, when `u` of the quotation is passed:
it has ended with an escaped quote, if with anything. -/
theorem skipToUnquote_cases (k : Nat) (out : List Char) (n : Nat) (tokens : List (Nat × Nat))
    (fuel : Nat) :
    ∀ {u r : List Char}, nul ∉ r → Escaped q u → u.getLast? = some q ∨ r ≠ [] ∧ u = [] →
      r.length < fuel →
      ∃ sc, skipToUnquote q k fuel (.reading (out ++ [nul] ++ u) r n tokens) = some sc ∧
        Unquoted q k (out ++ [nul]) (u ++ r) n tokens sc := by
  induction fuel with
  | zero =>
    intro u r _ _ _ hfuel
    exact absurd hfuel (Nat.not_lt_zero _)
  | succ fuel ih =>
    intro u r hr hu hlast hfuel
    by_cases hnil : r = []
    · -- the text ends here: the loop is left as if nothing were open
      subst hnil
      have hulast : u.getLast? = some q := hlast.resolve_right (fun h => h.1 rfl)
      refine ⟨_, ?_, .fell (t := u ++ []) (by rwa [List.append_nil]) (by rwa [List.append_nil])⟩
      rw [skipToUnquote, Scan.reading_char_nil, if_neg (not_not_intro rfl), List.append_nil]
    · by_cases hmem : q ∈ r
      · obtain ⟨v, r, rfl, hv⟩ := List.eq_append_cons_of_mem hmem
        have huv := hu.append hv
        rw [skipToUnquote_found hq hr hv u k fuel out n tokens]
        by_cases hbs : (u ++ v).getLast? = some '\\'
        · -- an escaped quote: on from behind it
          rw [if_pos hbs]
          have hlen : r.length < fuel := by
            simp only [List.length_append, List.length_cons] at hfuel
            omega
          obtain ⟨sc, hrun, hsc⟩ := ih (u := u ++ v ++ [q]) (r := r)
            (fun h => hr (List.mem_append_right _ (List.mem_cons_of_mem q h)))
            (huv.concat (fun _ => hbs)) (.inl (by simp)) hlen
          exact ⟨sc, hrun, by simpa using hsc⟩
        · rw [if_neg hbs]
          exact ⟨_, rfl, .closed (List.append_assoc u v (q :: r)).symm huv hbs⟩
      · have hlast' : (u ++ r).getLast? ≠ some q := by
          intro h
          rw [List.getLast?_append_of_ne_nil u hnil] at h
          exact hmem (List.mem_of_getLast? h)
        rw [skipToUnquote_none hr hnil hmem]
        exact ⟨_, rfl, .unclosed rfl (hu.append hmem) hlast'⟩

end

/-! ## §4. The rounds of the main loop. -/

/-- What a run leaves: the result, the buffer, and the stores to `tokens`. -/
def Ends (o : Option (Result × Scan)) (ret : Result) (mem : List Char)
    (tokens : List (Nat × Nat)) : Prop :=
  ∃ s, o = some (ret, s) ∧ s.mem = mem ∧ s.tokens = tokens

/-- Behind stores to later elements the one to element `n` is found. -/
theorem lookup_store {n p : Nat} {new old : List (Nat × Nat)} (h : ∀ x ∈ new, n + 1 ≤ x.1) :
    (new ++ (n, p) :: old).lookup n = some p := by
  have hnone : new.lookup n = none := by
    rw [List.lookup_eq_none_iff]
    intro x hx
    have hle := h x hx
    rw [bne_iff_ne]
    omega
  rw [List.lookup_append, hnone]
  simp

/-- The main loop from `got_token` on, or `done`. -/
def endToken (max : Nat) (delm quote : List Char) (fuel : Nat) : Scanned → Option (Result × Scan)
  | .done ret s => some (ret, s)
  | .gotToken no_delm s =>
      if s.char = nul then some (if 0 < no_delm then (s.n + 1 : Nat) else s.n, s)
      else
        let s := { s.terminate with n := s.n + 1 }
        if charAt s.mem (s.buf + 1) = nul then some (s.n, s)
        else tokenizeQuoteLoop max delm quote fuel { s with buf := s.buf + 1 }

theorem tokenizeQuoteLoop_succ (max fuel : Nat) (s : Scan) :
    tokenizeQuoteLoop max delm quote (fuel + 1) s =
      if s.char ≠ nul ∧ s.n < max then
        (skipDelm delm (s.mem.length + 1) s).bind fun s =>
          if s.char = nul then some ((s.n : Result), s)
          else (scanToken max delm quote (s.mem.length + 1) 0 s.store).bind
            (endToken max delm quote fuel)
      else some (s.n, s) := by
  rfl

/-- The loop ends when there are as many tokens as the caller has room for. -/
theorem tokenizeQuoteLoop_full (delm quote : List Char) {max n : Nat} (hmax : max ≤ n)
    (fuel : Nat) (out rest : List Char) (tokens : List (Nat × Nat)) :
    Ends (tokenizeQuoteLoop max delm quote (fuel + 1) (.reading out rest n tokens)) n
      (out ++ (rest ++ [nul])) tokens := by
  refine ⟨.reading out rest n tokens, ?_, rfl, rfl⟩
  rw [tokenizeQuoteLoop_succ, if_neg (fun h => absurd h.2 (Nat.not_lt.mpr hmax))]
  rfl

/-- The number of the token that a quotation makes, behind the characters `w` of a
word: these are a token of their own. -/
def quoteToken (n : Nat) (w : List Char) : Nat := if w = [] then n else n + 1

theorem quoteToken_alone {w : List Char} (hw : w = []) (n : Nat) : quoteToken n w = n := if_pos hw

theorem quoteToken_glued {w : List Char} (hw : w ≠ []) (n : Nat) : quoteToken n w = n + 1 :=
  if_neg hw

theorem le_quoteToken (n : Nat) (w : List Char) : n ≤ quoteToken n w := by
  unfold quoteToken
  split <;> omega

/-- What is counted in the end is the characters before the quote, whatever the
quotation holds. -/
theorem quoteToken_count (n : Nat) (w : List Char) :
    (if 0 < w.length then ((quoteToken n w + 1 : Nat) : Result) else quoteToken n w) =
      (if w = [] then n else n + 2 : Nat) := by
  unfold quoteToken
  by_cases hw : w = []
  · rw [if_pos hw, if_pos hw, if_neg (by rw [hw]; exact Nat.lt_irrefl 0)]
  · rw [if_neg hw, if_neg hw, if_pos (List.length_pos_iff.mpr hw)]

variable (hnul : nul ∉ delm)

include hnul

/-- Nothing is ahead but delimiters. -/
theorem tokenizeQuoteLoop_delms {ds : List Char} (hds : ∀ c ∈ ds, c ∈ delm) (max fuel : Nat)
    (out : List Char) (n : Nat) (tokens : List (Nat × Nat)) :
    Ends (tokenizeQuoteLoop max delm quote (fuel + 1) (.reading out ds n tokens)) n
      (out ++ (ds ++ [nul])) tokens := by
  rw [tokenizeQuoteLoop_succ]
  by_cases hgo : (Scan.reading out ds n tokens).char ≠ nul ∧ (Scan.reading out ds n tokens).n < max
  · rw [if_pos hgo]
    have hstop : NoDelm delm [] := fun c r h => absurd h (by simp)
    have hskip := skipDelm_reading hds hnul hstop out n tokens
      ((Scan.reading out ds n tokens).mem.length + 1) (by simp; omega)
    rw [List.append_nil] at hskip
    rw [hskip, Option.bind_some, if_pos (Scan.reading_char_nil _ n tokens)]
    exact ⟨_, rfl, by simp, rfl⟩
  · rw [if_neg hgo]
    exact ⟨_, rfl, rfl, rfl⟩

/-- A token begins: the delimiters before it are passed, and the characters of
its word. -/
theorem tokenizeQuoteLoop_token {max n : Nat} (hmax : n < max) {ds w rest : List Char}
    (hds : ∀ c ∈ ds, c ∈ delm) (hw : Word delm quote w) (hrest : nul ∉ w ++ rest)
    (hne : w ++ rest ≠ []) (hstop : NoDelm delm (w ++ rest)) (fuel : Nat) (out : List Char)
    (tokens : List (Nat × Nat)) :
    ∃ f, tokenizeQuoteLoop max delm quote (fuel + 1)
        (.reading out (ds ++ (w ++ rest)) n tokens) =
      (scanToken max delm quote (f + 1) w.length
        (.reading (out ++ ds ++ w) rest n ((n, (out ++ ds).length) :: tokens))).bind
        (endToken max delm quote fuel) := by
  -- two of the loop's tests ask whether the text is over
  have htext : nul ∉ ds ++ (w ++ rest) := by
    intro h
    rcases List.mem_append.mp h with h | h
    · exact hnul (hds nul h)
    · exact hrest h
  have hchar : (Scan.reading out (ds ++ (w ++ rest)) n tokens).char ≠ nul := by
    intro h
    have hnil := (Scan.reading_char_eq_nul out n tokens htext).mp h
    exact hne (List.append_eq_nil_iff.mp hnil).2
  have hchar' : (Scan.reading (out ++ ds) (w ++ rest) n tokens).char ≠ nul := by
    intro h
    exact hne ((Scan.reading_char_eq_nul _ n tokens hrest).mp h)
  have hskip := skipDelm_reading hds hnul hstop out n tokens
    ((Scan.reading out (ds ++ (w ++ rest)) n tokens).mem.length + 1) (by simp; omega)
  refine ⟨(out ++ ds).length + rest.length + 1, ?_⟩
  -- the fuel of the inner loop is the length of the buffer, so some is left behind the word
  have hfuel : (Scan.reading (out ++ ds) (w ++ rest) n tokens).mem.length + 1 =
      (out ++ ds).length + rest.length + 1 + 1 + w.length := by
    simp only [Scan.reading_mem, List.length_append, List.length_singleton]
    omega
  have hword := scanToken_word hw (fun h => hrest (List.mem_append_left _ h)) max (out ++ ds) rest
    ((out ++ ds).length + rest.length + 1 + 1) 0 n ((n, (out ++ ds).length) :: tokens)
  rw [Nat.zero_add] at hword
  rw [tokenizeQuoteLoop_succ, if_pos ⟨hchar, hmax⟩, hskip, Option.bind_some, if_neg hchar', hfuel,
    Scan.reading_store, hword]

omit hnul

/-- The text is over: the token counts if its word has a character. -/
theorem endToken_over (max : Nat) (delm quote : List Char) (fuel k n : Nat) (out : List Char)
    (tokens : List (Nat × Nat)) :
    Ends (endToken max delm quote fuel (.gotToken k (.reading out [] n tokens)))
      (if 0 < k then (n + 1 : Nat) else n) (out ++ [nul]) tokens := by
  rw [endToken, Scan.reading_char_nil, if_pos rfl]
  exact ⟨_, rfl, rfl, rfl⟩

/-- The character the token ends with becomes its terminator, and the loop goes
on behind it. -/
theorem endToken_next {c : Char} {rest : List Char} (hc : c ≠ nul) (hrest : nul ∉ rest)
    {max fuel k n : Nat} {out mem : List Char} {tokens tokens' : List (Nat × Nat)} {ret : Result}
    (hgo : Ends (tokenizeQuoteLoop max delm quote (fuel + 1)
      (.reading (out ++ [nul]) rest (n + 1) tokens)) ret mem tokens') :
    Ends (endToken max delm quote (fuel + 1) (.gotToken k (.reading out (c :: rest) n tokens)))
      ret mem tokens' := by
  have hend : charAt (out ++ [nul] ++ (rest ++ [nul])) (out.length + 1) = nul ↔ rest = [] := by
    have h := Scan.reading_char_eq_nul (out ++ [nul]) (n + 1) tokens hrest
    unfold Scan.char Scan.reading at h
    rw [List.length_append] at h
    exact h
  rw [endToken, if_neg (by rwa [Scan.reading_char_cons]), Scan.reading_terminate]
  dsimp only [Scan.reading_n]
  by_cases hnil : rest = []
  · -- the text is over; another round would only have said so
    rw [if_pos (hend.mpr hnil)]
    subst hnil
    obtain ⟨s, hs, hmem, htokens⟩ := hgo
    rw [tokenizeQuoteLoop_succ, Scan.reading_char_nil, if_neg (fun h => h.1 rfl)] at hs
    obtain ⟨rfl, rfl⟩ := Prod.mk.inj (Option.some.inj hs)
    exact ⟨_, rfl, hmem, htokens⟩
  · rw [if_neg (fun h => hnil (hend.mp h)), Scan.reading_passed]
    exact hgo

include hnul

/-- The last word, with nothing behind it. -/
theorem tokenizeQuoteLoop_last {max n : Nat} (hmax : n < max) {ds w : List Char}
    (hds : ∀ c ∈ ds, c ∈ delm) (hw : Word delm quote w) (hwnul : nul ∉ w) (hne : w ≠ [])
    (fuel : Nat) (out : List Char) (tokens : List (Nat × Nat)) :
    Ends (tokenizeQuoteLoop max delm quote (fuel + 1) (.reading out (ds ++ w) n tokens))
      (n + 1 : Nat) (out ++ ds ++ w ++ [nul]) ((n, (out ++ ds).length) :: tokens) := by
  have hstop : NoDelm delm (w ++ []) := by
    intro c r h
    rw [List.append_nil] at h
    exact (hw c (h ▸ List.mem_cons_self)).1
  have hwnul' : nul ∉ w ++ [] := by rwa [List.append_nil]
  have hne' : w ++ [] ≠ [] := by rwa [List.append_nil]
  obtain ⟨f, hf⟩ := tokenizeQuoteLoop_token hnul hmax hds hw hwnul' hne' hstop fuel out tokens
  rw [List.append_nil] at hf
  rw [hf, scanToken_stop (fun c r h => absurd h (by simp)), Option.bind_some]
  have hend := endToken_over max delm quote fuel w.length n (out ++ ds ++ w)
    ((n, (out ++ ds).length) :: tokens)
  rwa [if_pos (List.length_pos_iff.mpr hne)] at hend

/-- A word that a delimiter ends. -/
theorem tokenizeQuoteLoop_word {max n : Nat} (hmax : n < max) {ds w rest : List Char} {d : Char}
    (hds : ∀ c ∈ ds, c ∈ delm) (hw : Word delm quote w) (hne : w ≠ []) (hd : d ∈ delm)
    (htext : nul ∉ w ++ d :: rest) {fuel : Nat} {out mem : List Char}
    {tokens tokens' : List (Nat × Nat)} {ret : Result}
    (hgo : Ends (tokenizeQuoteLoop max delm quote (fuel + 1)
      (.reading (out ++ ds ++ w ++ [nul]) rest (n + 1) ((n, (out ++ ds).length) :: tokens)))
      ret mem tokens') :
    Ends (tokenizeQuoteLoop max delm quote (fuel + 1 + 1)
      (.reading out (ds ++ (w ++ d :: rest)) n tokens)) ret mem tokens' := by
  have hstop : NoDelm delm (w ++ d :: rest) := by
    intro c r h
    obtain ⟨a, w, rfl⟩ := List.exists_cons_of_ne_nil hne
    rw [List.cons_append] at h
    rw [← (List.cons.inj h).1]
    exact (hw a List.mem_cons_self).1
  obtain ⟨f, hf⟩ := tokenizeQuoteLoop_token hnul hmax hds hw htext (by simp) hstop (fuel + 1) out
    tokens
  have hdnul : d ≠ nul := by
    intro h
    exact hnul (h ▸ hd)
  rw [hf, scanToken_stop (fun c r h => (List.cons.inj h).1 ▸ hd), Option.bind_some]
  exact endToken_next hdnul
    (fun h => htext (List.mem_append_right _ (List.mem_cons_of_mem d h))) hgo

/-- A quote that nothing stands behind. -/
theorem tokenizeQuoteLoop_quote_last {max n : Nat} (hmax : n < max) {ds w : List Char} {q : Char}
    (hds : ∀ c ∈ ds, c ∈ delm) (hw : Word delm quote w) (hq : q ∈ quote) (hqd : q ∉ delm)
    (htext : nul ∉ w ++ [q]) (fuel : Nat) (out : List Char) (tokens : List (Nat × Nat)) :
    Ends (tokenizeQuoteLoop max delm quote (fuel + 1) (.reading out (ds ++ (w ++ [q])) n tokens))
      .quoteNotClosed (out ++ ds ++ w ++ [nul] ++ [nul]) ((n, (out ++ ds).length) :: tokens) := by
  obtain ⟨f, hf⟩ := tokenizeQuoteLoop_token hnul hmax hds hw htext (by simp)
    (noDelm_word hw hqd []) fuel out tokens
  have hqnul : q ≠ nul := by
    intro h
    exact htext (h ▸ List.mem_append_right _ List.mem_cons_self)
  rw [hf, scanToken_quote hqnul hq hqd, if_neg (not_not_intro (Scan.reading_char_nil _ _ _))]
  exact ⟨_, rfl, by simp, rfl⟩

/-- **A quotation**, alone or glued to a word: the search for its end decides. -/
theorem tokenizeQuoteLoop_quote {max n : Nat} (hmax : n < max) {ds w rest : List Char} {q : Char}
    (hds : ∀ c ∈ ds, c ∈ delm) (hw : Word delm quote w) (hq : q ∈ quote) (hqd : q ∉ delm)
    (htext : nul ∉ w ++ q :: rest) (hrest : rest ≠ []) (fuel : Nat) (out : List Char)
    (tokens : List (Nat × Nat)) :
    ∃ sc, Unquoted q w.length (out ++ ds ++ w ++ [nul]) rest (quoteToken n w)
        ((quoteToken n w, (out ++ ds ++ w ++ [nul]).length) :: (n, (out ++ ds).length) ::
          tokens) sc ∧
      tokenizeQuoteLoop max delm quote (fuel + 1)
        (.reading out (ds ++ (w ++ q :: rest)) n tokens) = endToken max delm quote fuel sc := by
  obtain ⟨f, hf⟩ := tokenizeQuoteLoop_token hnul hmax hds hw htext (by simp)
    (noDelm_word hw hqd rest) fuel out tokens
  have hqnul : q ≠ nul := by
    intro h
    exact htext (h ▸ List.mem_append_right _ List.mem_cons_self)
  have hrnul : nul ∉ rest :=
    fun h => htext (List.mem_append_right _ (List.mem_cons_of_mem q h))
  have hchar : (Scan.reading (out ++ ds ++ w ++ [nul]) rest n
      ((n, (out ++ ds).length) :: tokens)).char ≠ nul := by
    intro h
    exact hrest ((Scan.reading_char_eq_nul _ _ _ hrnul).mp h)
  have hquote := scanToken_quote hqnul hq hqd max (out ++ ds ++ w) rest f w.length n
    ((n, (out ++ ds).length) :: tokens)
  dsimp only at hquote
  rw [if_pos hchar, if_neg (fun h => Nat.not_lt.mpr h.2 hmax)] at hquote
  -- whichever number the quotation's token has
  have hsearch := fun m tk => skipToUnquote_cases hqnul w.length (out ++ ds ++ w) m tk
    ((out ++ ds ++ w ++ [nul] ++ (rest ++ [nul])).length + 1) hrnul (Escaped.nil q)
    (.inr ⟨hrest, rfl⟩) (by simp; omega)
  simp only [List.append_nil, List.nil_append] at hsearch
  by_cases hwnil : w = []
  · obtain ⟨sc, hrun, hsc⟩ := hsearch n
      ((n, (out ++ ds ++ w ++ [nul]).length) :: (n, (out ++ ds).length) :: tokens)
    rw [if_neg (by rw [hwnil]; exact Nat.lt_irrefl 0)] at hquote
    refine ⟨sc, by rwa [quoteToken_alone hwnil], ?_⟩
    rw [hf, hquote, Scan.reading_store, Scan.reading_mem, hrun, Option.bind_some]
  · -- the quote ends the word before it
    obtain ⟨sc, hrun, hsc⟩ := hsearch (n + 1)
      ((n + 1, (out ++ ds ++ w ++ [nul]).length) :: (n, (out ++ ds).length) :: tokens)
    rw [if_pos (List.length_pos_iff.mpr hwnil)] at hquote
    refine ⟨sc, by rwa [quoteToken_glued hwnil], ?_⟩
    rw [hf, hquote]
    exact congrArg (Option.bind · (endToken max delm quote fuel)) hrun

/-- A quotation that is closed: the loop goes on behind it. -/
theorem tokenizeQuoteLoop_closed {max n : Nat} (hmax : n < max) {ds w t rest : List Char} {q : Char}
    (hds : ∀ c ∈ ds, c ∈ delm) (hw : Word delm quote w) (hq : q ∈ quote) (hqd : q ∉ delm)
    (ht : Escaped q t) (hlast : t.getLast? ≠ some '\\') (htext : nul ∉ w ++ q :: (t ++ q :: rest))
    {fuel : Nat} {out mem : List Char} {tokens tokens' : List (Nat × Nat)} {ret : Result}
    (hgo : Ends (tokenizeQuoteLoop max delm quote (fuel + 1)
      (.reading (out ++ ds ++ w ++ [nul] ++ t ++ [nul]) rest (quoteToken n w + 1)
        ((quoteToken n w, (out ++ ds ++ w ++ [nul]).length) :: (n, (out ++ ds).length) :: tokens)))
      ret mem tokens') :
    Ends (tokenizeQuoteLoop max delm quote (fuel + 1 + 1)
      (.reading out (ds ++ (w ++ q :: (t ++ q :: rest))) n tokens)) ret mem tokens' := by
  have hqnul : q ≠ nul := by
    intro h
    exact htext (h ▸ List.mem_append_right _ List.mem_cons_self)
  have hrest : nul ∉ rest := fun h => htext (List.mem_append_right w (List.mem_cons_of_mem q
    (List.mem_append_right t (List.mem_cons_of_mem q h))))
  obtain ⟨sc, hsc, hrun⟩ := tokenizeQuoteLoop_quote hnul hmax hds hw hq hqd htext (by simp)
    (fuel + 1) out tokens
  rw [hrun]
  cases hsc with
  | closed hsplit ht' hlast' =>
    -- no other quote closes it
    obtain ⟨rfl, rfl⟩ := ht.unique hlast ht' hlast' hsplit
    exact endToken_next hqnul hrest hgo
  | fell hesc => exact absurd (hesc t rest rfl) hlast
  | unclosed _ hesc => exact absurd (hesc t rest rfl) hlast

omit hnul

/-- **The three ends of a quotation**, with `rest` behind its quote, for a run from
`s` on that has stored `tokens` by then: it is closed and the loop goes on behind
it; its text ends with an escaped quote and counts as a token like any other; or
there is no quote left, which is reported. -/
inductive Quotation (max : Nat) (delm quote : List Char) (fuel n : Nat) (w : List Char) (q : Char)
    (rest : List Char) (s : Scan) (tokens : List (Nat × Nat)) : Prop where
  | closed {t r out : List Char} (ht : rest = t ++ q :: r) (hesc : Escaped q t)
      (hlast : t.getLast? ≠ some '\\')
      (hgo : ∀ ret mem tokens', Ends (tokenizeQuoteLoop max delm quote (fuel + 1)
          (.reading out r (quoteToken n w + 1) tokens)) ret mem tokens' →
        Ends (tokenizeQuoteLoop max delm quote (fuel + 1 + 1) s) ret mem tokens')
  | fell {mem : List Char} (hesc : Escaped q rest) (hlast : rest.getLast? = some q)
      (hend : Ends (tokenizeQuoteLoop max delm quote (fuel + 1 + 1) s)
        (if w = [] then n else n + 2 : Nat) mem tokens)
  | unclosed {mem : List Char} (hesc : Escaped q rest) (hlast : rest.getLast? ≠ some q)
      (hend : Ends (tokenizeQuoteLoop max delm quote (fuel + 1 + 1) s) .quoteNotClosed mem tokens)

include hnul

/-- A quotation has one of these ends, and stores up to its own token. -/
theorem tokenizeQuoteLoop_quotation {max n : Nat} (hmax : n < max) {ds w rest : List Char}
    {q : Char} (hds : ∀ c ∈ ds, c ∈ delm) (hw : Word delm quote w) (hq : q ∈ quote)
    (hqd : q ∉ delm) (htext : nul ∉ w ++ q :: rest) (hrest : rest ≠ []) (fuel : Nat)
    (out : List Char) (tokens : List (Nat × Nat)) :
    ∃ new, (∀ p ∈ new, p.1 ≤ quoteToken n w) ∧ (∃ p ∈ new, p.1 = quoteToken n w) ∧
      Quotation max delm quote fuel n w q rest (.reading out (ds ++ (w ++ q :: rest)) n tokens)
        (new ++ tokens) := by
  obtain ⟨sc, hsc, hrun⟩ := tokenizeQuoteLoop_quote hnul hmax hds hw hq hqd htext hrest (fuel + 1)
    out tokens
  refine ⟨[(quoteToken n w, (out ++ ds ++ w ++ [nul]).length), (n, (out ++ ds).length)], ?_,
    ⟨_, List.mem_cons_self, rfl⟩, ?_⟩
  · intro p hp
    rcases List.mem_cons.mp hp with rfl | hp
    · exact Nat.le_refl _
    · rw [List.mem_singleton.mp hp]
      exact le_quoteToken n w
  · cases hsc with
    | @closed u r ht hu hlast =>
      subst ht
      refine .closed rfl hu hlast (fun ret mem tokens' (hgo : Ends (tokenizeQuoteLoop max delm quote
        (fuel + 1) (.reading (out ++ ds ++ w ++ [nul] ++ u ++ [nul]) r _ _)) ret mem tokens') => ?_)
      exact tokenizeQuoteLoop_closed hnul hmax hds hw hq hqd hu hlast htext hgo
    | fell ht hlast =>
      have hend := endToken_over max delm quote (fuel + 1) w.length (quoteToken n w)
        (out ++ ds ++ w ++ [nul] ++ rest) ((quoteToken n w, (out ++ ds ++ w ++ [nul]).length) ::
          (n, (out ++ ds).length) :: tokens)
      rw [quoteToken_count, ← hrun] at hend
      exact .fell ht hlast hend
    | unclosed htext ht hlast =>
      exact .unclosed ht hlast ⟨_, hrun, rfl, rfl⟩

end

end Mccp.Str
