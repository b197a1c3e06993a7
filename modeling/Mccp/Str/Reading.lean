/-
  Mccp.Str.Reading
  ────────────────
  **WHERE THE QUOTE TOKENIZER GOES WRONG.**

  The buffer of mccp_str_tokenize_quote() reads as words and quotations, from
  left to right.  Two of its ways out depend on where in this reading a quote
  stands: a quote glued to the word that takes the last element of the caller's
  array stores behind the array, and a quotation whose text ends with an escaped
  quote is not reported, though nothing closes it.

      Meets                     — the reading comes to a quote
      tokenizeQuoteLoop_meets   — the loop comes to the same quote
      Overruns                  — the quote that costs an element too many
      tokenizeQuote_in_bounds   — otherwise the array is safe
      tokenizeQuote_unclosed    — what is not closed is reported, but for one kind
-/
import Mccp.Str.Rounds

namespace Mccp.Str

open CString (nul charAt cstr strchr isValidString)

/-! ## §1. The reading of a buffer. -/

/-- Reading `text` from the left comes to the quote `q` outside a quotation,
after `k` tokens and the characters `w` of a word; `rest` is what follows. -/
inductive Meets (delm quote : List Char) :
    (text : List Char) → (k : Nat) → (w : List Char) → (q : Char) → (rest : List Char) → Prop where
  | here {ds w : List Char} {q : Char} (rest : List Char) (hds : ∀ c ∈ ds, c ∈ delm)
      (hw : Word delm quote w) (hq : q ∈ quote) (hqd : q ∉ delm) :
      Meets delm quote (ds ++ (w ++ q :: rest)) 0 w q rest
  | word {ds v : List Char} {d : Char} (hds : ∀ c ∈ ds, c ∈ delm) (hv : Word delm quote v)
      (hne : v ≠ []) (hd : d ∈ delm) {text : List Char} {k : Nat} {w : List Char} {q : Char}
      {rest : List Char} (h : Meets delm quote text k w q rest) :
      Meets delm quote (ds ++ (v ++ d :: text)) (k + 1) w q rest
  | quotation {ds v t : List Char} {p : Char} (hds : ∀ c ∈ ds, c ∈ delm)
      (hv : Word delm quote v) (hp : p ∈ quote) (hpd : p ∉ delm) (ht : Escaped p t)
      (hlast : t.getLast? ≠ some '\\') {text : List Char} {k : Nat} {w : List Char} {q : Char}
      {rest : List Char} (h : Meets delm quote text k w q rest) :
      Meets delm quote (ds ++ (v ++ p :: (t ++ p :: text))) (k + (if v = [] then 1 else 2)) w q
        rest

section

variable {delm quote : List Char}

/-- There are less tokens than characters. -/
theorem Meets.lt_length {text w rest : List Char} {k : Nat} {q : Char}
    (h : Meets delm quote text k w q rest) : k < text.length := by
  induction h with
  | here rest hds hw hq hqd =>
    simp only [List.length_append, List.length_cons]
    omega
  | word hds hv hne hd h ih =>
    simp only [List.length_append, List.length_cons]
    omega
  | quotation hds hv hp hpd ht hlast h ih =>
    simp only [List.length_append, List.length_cons]
    split <;> omega

/-- **The loop comes to the same quote**, while there is room. -/
theorem tokenizeQuoteLoop_meets (hnul : nul ∉ delm) {text w rest : List Char} {k : Nat} {q : Char}
    (h : Meets delm quote text k w q rest) (max : Nat) :
    ∀ (n : Nat) (out : List Char) (tokens : List (Nat × Nat)) (fuel : Nat), nul ∉ text →
      n + k < max → text.length < fuel →
      ∃ ds out' tokens' fuel', (∀ c ∈ ds, c ∈ delm) ∧ Word delm quote w ∧ q ∈ quote ∧ q ∉ delm ∧
        nul ∉ w ++ q :: rest ∧
        ∀ ret mem tk, Ends (tokenizeQuoteLoop max delm quote (fuel' + 1 + 1)
            (.reading out' (ds ++ (w ++ q :: rest)) (n + k) tokens')) ret mem tk →
          Ends (tokenizeQuoteLoop max delm quote fuel (.reading out text n tokens)) ret mem tk := by
  induction h with
  | @here ds w q rest hds hw hq hqd =>
    intro n out tokens fuel htext _ hfuel
    simp only [List.length_append, List.length_cons] at hfuel
    obtain ⟨f, rfl⟩ : ∃ f, fuel = f + 1 + 1 := ⟨fuel - 2, by omega⟩
    exact ⟨ds, out, tokens, f, hds, hw, hq, hqd, fun h => htext (List.mem_append_right ds h),
      fun _ _ _ h => h⟩
  | @word ds v d hds hv hne hd text k w q rest h ih =>
    intro n out tokens fuel htext hmax hfuel
    have htext' : nul ∉ v ++ d :: text := fun h => htext (List.mem_append_right ds h)
    simp only [List.length_append, List.length_cons] at hfuel
    obtain ⟨f, rfl⟩ : ∃ f, fuel = f + 1 + 1 := ⟨fuel - 2, by have := h.lt_length; omega⟩
    obtain ⟨ds', out', tokens', fuel', hds', hw, hq, hqd, hrest, hrun⟩ := ih (n + 1)
      (out ++ ds ++ v ++ [nul]) ((n, (out ++ ds).length) :: tokens) (f + 1)
      (fun h => htext' (List.mem_append_right v (List.mem_cons_of_mem d h))) (by omega) (by omega)
    refine ⟨ds', out', tokens', fuel', hds', hw, hq, hqd, hrest, ?_⟩
    intro ret mem tk hend
    rw [show n + (k + 1) = n + 1 + k by omega] at hend
    exact tokenizeQuoteLoop_word hnul (by omega) hds hv hne hd htext' (hrun ret mem tk hend)
  | @quotation ds v t p hds hv hp hpd ht hlast text k w q rest h ih =>
    intro n out tokens fuel htext hmax hfuel
    have htext' : nul ∉ v ++ p :: (t ++ p :: text) :=
      fun h => htext (List.mem_append_right ds h)
    simp only [List.length_append, List.length_cons] at hfuel
    obtain ⟨f, rfl⟩ : ∃ f, fuel = f + 1 + 1 := ⟨fuel - 2, by omega⟩
    have hcount : quoteToken n v + 1 + k = n + (k + if v = [] then 1 else 2) := by
      unfold quoteToken
      split <;> omega
    obtain ⟨ds', out', tokens', fuel', hds', hw, hq, hqd, hrest, hrun⟩ := ih (quoteToken n v + 1)
      (out ++ ds ++ v ++ [nul] ++ t ++ [nul]) ((quoteToken n v, (out ++ ds ++ v ++ [nul]).length) ::
        (n, (out ++ ds).length) :: tokens) (f + 1)
      (fun h => htext' (List.mem_append_right v (List.mem_cons_of_mem p
        (List.mem_append_right t (List.mem_cons_of_mem p h))))) (by omega) (by omega)
    refine ⟨ds', out', tokens', fuel', hds', hw, hq, hqd, hrest, ?_⟩
    intro ret mem tk hend
    rw [← hcount] at hend
    exact tokenizeQuoteLoop_closed hnul (by omega) hds hv hp hpd ht hlast htext'
      (hrun ret mem tk hend)

/-! ## §2. The caller's array. -/

/-- A quote glued to the word that takes the last of the `max` elements, with
something behind it; `n` tokens stand before `text`. -/
def Overruns (delm quote : List Char) (max n : Nat) (text : List Char) : Prop :=
  ∃ k w q rest, Meets delm quote text k w q rest ∧ w ≠ [] ∧ rest ≠ [] ∧ n + k + 1 = max

theorem Overruns.word {ds v : List Char} {d : Char} (hds : ∀ c ∈ ds, c ∈ delm)
    (hv : Word delm quote v) (hne : v ≠ []) (hd : d ∈ delm) {max n : Nat} {text : List Char}
    (h : Overruns delm quote max (n + 1) text) :
    Overruns delm quote max n (ds ++ (v ++ d :: text)) := by
  obtain ⟨k, w, q, rest, hmeets, hw, hrest, hk⟩ := h
  exact ⟨k + 1, w, q, rest, .word hds hv hne hd hmeets, hw, hrest, by omega⟩

theorem Overruns.quotation {ds v t : List Char} {p : Char} (hds : ∀ c ∈ ds, c ∈ delm)
    (hv : Word delm quote v) (hp : p ∈ quote) (hpd : p ∉ delm) (ht : Escaped p t)
    (hlast : t.getLast? ≠ some '\\') {max n : Nat} {text : List Char}
    (h : Overruns delm quote max ((if v = [] then n else n + 1) + 1) text) :
    Overruns delm quote max n (ds ++ (v ++ p :: (t ++ p :: text))) := by
  obtain ⟨k, w, q, rest, hmeets, hw, hrest, hk⟩ := h
  refine ⟨k + (if v = [] then 1 else 2), w, q, rest, .quotation hds hv hp hpd ht hlast hmeets, hw,
    hrest, ?_⟩
  split at hk <;> split <;> first | contradiction | omega

/-- A run within the array: only elements of it are stored, and the result,
unless negative, is not more than there are. -/
def InBounds (max : Nat) (ret : Result) (tokens : List (Nat × Nat)) : Prop :=
  (∀ p ∈ tokens, p.1 < max) ∧ (0 ≤ ret → ret ≤ max)

/-- **The round that leaves the array**: a quote glued to the word that takes
the last element. -/
theorem tokenizeQuoteLoop_glued (hnul : nul ∉ delm) {n : Nat} {ds w rest : List Char} {q : Char}
    (hds : ∀ c ∈ ds, c ∈ delm) (hw : Word delm quote w) (hq : q ∈ quote) (hqd : q ∉ delm)
    (htext : nul ∉ w ++ q :: rest) (hne : w ≠ []) (hrest : rest ≠ []) (fuel : Nat)
    (out : List Char) (tokens : List (Nat × Nat)) :
    ∃ ret mem tk, Ends (tokenizeQuoteLoop (n + 1) delm quote (fuel + 1 + 1)
      (.reading out (ds ++ (w ++ q :: rest)) n tokens)) ret mem tk ∧ ∃ p ∈ tk, n + 1 ≤ p.1 := by
  obtain ⟨new, -, ⟨p, hp, hpn⟩, hend⟩ := tokenizeQuoteLoop_quotation hnul (Nat.lt_succ_self n)
    hds hw hq hqd htext hrest fuel out tokens
  rw [quoteToken_glued hne] at hpn
  have hover : ∃ p ∈ new ++ tokens, n + 1 ≤ p.1 :=
    ⟨p, List.mem_append_left tokens hp, Nat.le_of_eq hpn.symm⟩
  cases hend with
  | @closed t r out' ht hesc hlast hgo =>
    -- the loop ends at once, as there are more tokens than room
    have hfull := tokenizeQuoteLoop_full delm quote
      (Nat.le_succ_of_le (Nat.le_of_eq (quoteToken_glued hne n).symm)) fuel out' r (new ++ tokens)
    exact ⟨_, _, _, hgo _ _ _ hfull, hover⟩
  | fell hesc hlast hend => exact ⟨_, _, _, hend, hover⟩
  | unclosed hesc hlast hend => exact ⟨_, _, _, hend, hover⟩

/-- **Out of the array** the loop stores at such a quote. -/
theorem tokenizeQuoteLoop_overruns (hnul : nul ∉ delm) {max : Nat} {text : List Char}
    (h : Overruns delm quote max 0 text) (htext : nul ∉ text) {fuel : Nat}
    (hfuel : text.length < fuel) (out : List Char) (tokens : List (Nat × Nat)) :
    ∃ ret mem tk, Ends (tokenizeQuoteLoop max delm quote fuel (.reading out text 0 tokens)) ret mem
      tk ∧ ∃ p ∈ tk, max ≤ p.1 := by
  obtain ⟨k, w, q, rest, hmeets, hne, hrest, rfl⟩ := h
  obtain ⟨ds, out', tokens', f, hds, hw, hq, hqd, htext', hrun⟩ :=
    tokenizeQuoteLoop_meets hnul hmeets (0 + k + 1) 0 out tokens fuel htext (by omega) hfuel
  obtain ⟨ret, mem, tk, hend, hover⟩ := tokenizeQuoteLoop_glued hnul hds hw hq hqd htext' hne
    hrest f out' tokens'
  exact ⟨ret, mem, tk, hrun ret mem tk hend, hover⟩

/-- The run from `text` on stays inside, or comes to a quote that leaves the array. -/
def Safe (delm quote : List Char) (max fuel : Nat) (out text : List Char) (n : Nat)
    (tokens : List (Nat × Nat)) : Prop :=
  ∃ ret mem tk, Ends (tokenizeQuoteLoop max delm quote fuel (.reading out text n tokens)) ret mem
    tk ∧ (InBounds max ret tk ∨ Overruns delm quote max n text)

/-- Stores to elements up to a token for which there is room. -/
theorem stored_append {max m : Nat} {new tokens : List (Nat × Nat)} (hnew : ∀ p ∈ new, p.1 ≤ m)
    (hm : m < max) (htokens : ∀ p ∈ tokens, p.1 < max) : ∀ p ∈ new ++ tokens, p.1 < max := by
  intro p hp
  rcases List.mem_append.mp hp with hp | hp
  · exact Nat.lt_of_le_of_lt (hnew p hp) hm
  · exact htokens p hp

theorem stored_one (n x : Nat) : ∀ p ∈ [(n, x)], p.1 ≤ n := by
  intro p hp
  rw [List.mem_singleton.mp hp]

section

variable (hnul : nul ∉ delm) {max n : Nat} (hlt : n < max) {ds w : List Char}
  (hds : ∀ c ∈ ds, c ∈ delm) (hw : Word delm quote w) {tokens : List (Nat × Nat)}

include hnul hlt hds hw

/-- The text is over, with or without a last word. -/
theorem Safe.over (htokens : ∀ p ∈ tokens, p.1 < max) (hwnul : nul ∉ w) (fuel : Nat)
    (out : List Char) :
    Safe delm quote max (fuel + 1) out (ds ++ w) n tokens := by
  by_cases hne : w = []
  · subst hne
    rw [List.append_nil]
    refine ⟨_, _, _, tokenizeQuoteLoop_delms hnul hds max fuel out n tokens, .inl ?_⟩
    exact ⟨htokens, fun _ => Int.ofNat_le.mpr (Nat.le_of_lt hlt)⟩
  · have hend := tokenizeQuoteLoop_last hnul hlt hds hw hwnul hne fuel out tokens
    refine ⟨_, _, _, hend, .inl ⟨?_, fun _ => Int.ofNat_le.mpr hlt⟩⟩
    exact stored_append (stored_one n _) hlt htokens

/-- A delimiter ends the word, and the rest is safe. -/
theorem Safe.word (hne : w ≠ []) {d : Char} (hd : d ∈ delm) {rest : List Char}
    (htext : nul ∉ w ++ d :: rest) {fuel : Nat} {out : List Char}
    (hsafe : Safe delm quote max (fuel + 1) (out ++ ds ++ w ++ [nul]) rest (n + 1)
      ((n, (out ++ ds).length) :: tokens)) :
    Safe delm quote max (fuel + 1 + 1) out (ds ++ (w ++ d :: rest)) n tokens := by
  obtain ⟨ret, mem, tk, hend, hok⟩ := hsafe
  refine ⟨ret, mem, tk, ?_, hok.imp_right (Overruns.word hds hw hne hd)⟩
  exact tokenizeQuoteLoop_word hnul hlt hds hw hne hd htext hend

/-- A quote, and what follows it is safe if it is closed. -/
theorem Safe.opening (htokens : ∀ p ∈ tokens, p.1 < max) {q : Char} (hq : q ∈ quote)
    (hqd : q ∉ delm) {rest : List Char} (htext : nul ∉ w ++ q :: rest) (fuel : Nat)
    (out : List Char)
    (hsafe : ∀ t r out' new, rest = t ++ q :: r → quoteToken n w < max →
      (∀ p ∈ new ++ tokens, p.1 < max) →
      Safe delm quote max (fuel + 1) out' r (quoteToken n w + 1) (new ++ tokens)) :
    Safe delm quote max (fuel + 1 + 1) out (ds ++ (w ++ q :: rest)) n tokens := by
  by_cases hnil : rest = []
  · -- an error, after one store
    subst hnil
    have hend := tokenizeQuoteLoop_quote_last hnul hlt hds hw hq hqd htext (fuel + 1) out tokens
    refine ⟨_, _, _, hend, .inl ⟨stored_append (stored_one n _) hlt htokens, ?_⟩⟩
    intro h
    exact absurd h (by decide)
  · by_cases hglued : w ≠ [] ∧ n + 1 = max
    · -- the one place where the array is left
      obtain ⟨hne, rfl⟩ := hglued
      have hover : Overruns delm quote (n + 1) n (ds ++ (w ++ q :: rest)) :=
        ⟨0, w, q, rest, .here rest hds hw hq hqd, hne, hnil, rfl⟩
      obtain ⟨ret, mem, tk, hend, -⟩ := tokenizeQuoteLoop_glued hnul hds hw hq hqd htext hne hnil
        fuel out tokens
      exact ⟨ret, mem, tk, hend, .inr hover⟩
    · obtain ⟨new, hnew, -, hend⟩ := tokenizeQuoteLoop_quotation hnul hlt hds hw hq hqd htext hnil
        fuel out tokens
      have hroom : quoteToken n w < max := by
        by_cases hne : w = []
        · rwa [quoteToken_alone hne]
        · rw [quoteToken_glued hne]
          have hlast : n + 1 ≠ max := fun h => hglued ⟨hne, h⟩
          omega
      have hstored := stored_append hnew hroom htokens
      cases hend with
      | @closed t r out' ht hesc hlast hgo =>
        obtain ⟨ret, mem, tk, hend, hok⟩ := hsafe t r out' new ht hroom hstored
        refine ⟨ret, mem, tk, hgo _ _ _ hend, ?_⟩
        subst ht
        exact hok.imp_right (Overruns.quotation hds hw hq hqd hesc hlast)
      | fell hesc hlast hend =>
        refine ⟨_, _, _, hend, .inl ⟨hstored, fun _ => Int.ofNat_le.mpr ?_⟩⟩
        unfold quoteToken at hroom
        split at hroom
        · next hne =>
          rw [if_pos hne]
          exact Nat.le_of_lt hlt
        · next hne =>
          rw [if_neg hne]
          exact hroom
      | unclosed hesc hlast hend =>
        refine ⟨_, _, _, hend, .inl ⟨hstored, fun h => ?_⟩⟩
        exact absurd h (by decide)

end

/-- **Otherwise it stays inside.** -/
theorem tokenizeQuoteLoop_in_bounds (hnul : nul ∉ delm) (max : Nat) (fuel : Nat) :
    ∀ {text : List Char}, nul ∉ text → text.length < fuel →
      ∀ (out : List Char) (n : Nat) (tokens : List (Nat × Nat)), n ≤ max →
        (∀ p ∈ tokens, p.1 < max) → Safe delm quote max fuel out text n tokens := by
  induction fuel with
  | zero => exact fun _ h => absurd h (Nat.not_lt_zero _)
  | succ fuel ih =>
    intro text htext hfuel out n tokens hmax htokens
    rcases Nat.lt_or_ge n max with hlt | hge
    · obtain ⟨ds, w, rest, rfl, hds, hw, hrest⟩ := exists_opening delm quote text
      have htext' : nul ∉ w ++ rest := fun h => htext (List.mem_append_right ds h)
      cases rest with
      | nil =>
        rw [List.append_nil] at htext' ⊢
        exact Safe.over hnul hlt hds hw htokens htext' fuel out
      | cons c rest =>
        simp only [List.length_append, List.length_cons] at hfuel
        obtain ⟨f, rfl⟩ : ∃ f, fuel = f + 1 := ⟨fuel - 1, by omega⟩
        have hrnul : nul ∉ rest :=
          fun h => htext' (List.mem_append_right w (List.mem_cons_of_mem c h))
        rcases hrest c rest rfl with ⟨hne, hc⟩ | ⟨hc, hcd⟩
        · -- a delimiter ends the word
          have hstored := stored_append (stored_one n (out ++ ds).length) hlt htokens
          exact Safe.word hnul hlt hds hw hne hc htext'
            (ih hrnul (by omega) _ (n + 1) _ hlt hstored)
        · apply Safe.opening hnul hlt hds hw htokens hc hcd htext' f out
          intro t r out' new ht hroom hstored
          subst ht
          have hr : nul ∉ r := fun h => hrnul (List.mem_append_right t (List.mem_cons_of_mem c h))
          simp only [List.length_append, List.length_cons] at hfuel
          exact ih hr (by omega) out' _ _ hroom hstored
    · have hend := tokenizeQuoteLoop_full delm quote hge fuel out text tokens
      exact ⟨_, _, _, hend, .inl ⟨htokens, fun _ => Int.ofNat_le.mpr hmax⟩⟩

end

/-! ## §3. The whole call. -/

/-- A call on strings that are not empty is a run of the main loop. -/
theorem tokenizeQuote_of_ends {buf delm quote : CString} (hbuf : buf.chars ≠ [])
    (hdelm : delm.chars ≠ []) (hquote : quote.chars ≠ []) {max : Nat} {ret : Result}
    {mem : List Char} {tokens : List (Nat × Nat)}
    (h : Ends (tokenizeQuoteLoop max delm.chars quote.chars ((buf.chars ++ [nul]).length + 1)
      (.reading [] buf.chars 0 [])) ret mem tokens) :
    ∃ s, tokenizeQuote (some buf.chars) max (some delm.chars) (some quote.chars) =
      some (ret, s) ∧ s.tokens = tokens := by
  have hvalid : isValidString (some buf.chars) ∧ isValidString (some delm.chars) ∧
      isValidString (some quote.chars) := by
    simp [isValidString, hbuf, hdelm, hquote]
  obtain ⟨s, hs, -, htokens⟩ := h
  refine ⟨s, ?_, htokens⟩
  unfold tokenizeQuote
  dsimp only
  rw [if_pos hvalid]
  exact hs

theorem length_lt_fuel (text : List Char) : text.length < (text ++ [nul]).length + 1 := by
  rw [List.length_append]
  omega

/-- **The caller's array is safe** if and only if no quote is glued, with
something behind it, to the word that takes the last of its elements. -/
theorem tokenizeQuote_in_bounds (buf delm quote : CString) (hbuf : buf.chars ≠ [])
    (hdelm : delm.chars ≠ []) (hquote : quote.chars ≠ []) (max : Nat) :
    (∃ ret s, tokenizeQuote (some buf.chars) max (some delm.chars) (some quote.chars) =
        some (ret, s) ∧ (∀ p ∈ s.tokens, p.1 < max) ∧ (0 ≤ ret → ret ≤ max)) ↔
      ¬∃ k w q rest, Meets delm.chars quote.chars buf.chars k w q rest ∧ w ≠ [] ∧ rest ≠ [] ∧
        k + 1 = max := by
  have hfuel := length_lt_fuel buf.chars
  constructor
  · rintro ⟨ret, s, hs, hin, -⟩ ⟨k, w, q, rest, hmeets, hne, hrest, hk⟩
    have hover : Overruns delm.chars quote.chars max 0 buf.chars :=
      ⟨k, w, q, rest, hmeets, hne, hrest, by omega⟩
    obtain ⟨ret', mem, tk, hend, p, hp, hle⟩ := tokenizeQuoteLoop_overruns delm.noNul hover
      buf.noNul hfuel [] []
    obtain ⟨s', hs', htokens⟩ := tokenizeQuote_of_ends hbuf hdelm hquote hend
    rw [hs] at hs'
    obtain ⟨-, rfl⟩ := Prod.mk.inj (Option.some.inj hs')
    rw [← htokens] at hp
    exact absurd (hin p hp) (Nat.not_lt.mpr hle)
  · intro hnone
    obtain ⟨ret, mem, tk, hend, hok⟩ := tokenizeQuoteLoop_in_bounds delm.noNul max _ buf.noNul
      hfuel [] 0 [] (Nat.zero_le max) (fun _ hp => absurd hp List.not_mem_nil)
    obtain ⟨s, hs, rfl⟩ := tokenizeQuote_of_ends hbuf hdelm hquote hend
    rcases hok with hin | ⟨k, w, q, rest, hmeets, hne, hrest, hk⟩
    · exact ⟨ret, s, hs, hin⟩
    · exact absurd ⟨k, w, q, rest, hmeets, hne, hrest, by omega⟩ hnone

/-- A word and a quotation, and room for one token. -/
theorem tokenizeQuote_in_bounds_glued :
    ¬∃ ret s, tokenizeQuote (some "a'b'".toList) 1 (some " ".toList) (some "'".toList) =
        some (ret, s) ∧ (∀ p ∈ s.tokens, p.1 < 1) ∧ (0 ≤ ret → ret ≤ 1) := by
  have hrun : tokenizeQuote (some "a'b'".toList) 1 (some " ".toList) (some "'".toList) =
      some (2, ⟨['a', nul, 'b', nul, nul], 3, 2, [(1, 2), (0, 0)]⟩) := by decide
  rintro ⟨ret, s, hs, hin, -⟩
  rw [hrun] at hs
  obtain ⟨-, rfl⟩ := Prod.mk.inj (Option.some.inj hs)
  exact absurd (hin (1, 2) List.mem_cons_self) (Nat.lt_irrefl 1)

/-- A quotation alone is no such thing. -/
theorem tokenizeQuote_in_bounds_alone :
    ¬∃ k w q rest, Meets [' '] ['\''] "'b'".toList k w q rest ∧ w ≠ [] ∧ rest ≠ [] ∧ k + 1 = 1 := by
  have hrun : tokenizeQuote (some "'b'".toList) 1 (some " ".toList) (some "'".toList) =
      some (1, ⟨[nul, 'b', nul, nul], 2, 1, [(0, 1), (0, 0)]⟩) := by decide
  exact (tokenizeQuote_in_bounds ⟨['\'', 'b', '\''], by decide⟩ ⟨[' '], by decide⟩
    ⟨['\''], by decide⟩ (by decide) (by decide) (by decide) 1).mp
    ⟨1, _, hrun, by decide, fun _ => by decide⟩

/-- **What is not closed is reported** if and only if the text behind the quote
does not end with that quote, which then is an escaped one. -/
theorem tokenizeQuote_unclosed (buf delm quote : CString) (hbuf : buf.chars ≠ [])
    (hdelm : delm.chars ≠ []) (hquote : quote.chars ≠ []) {max : Nat}
    (hmax : buf.chars.length < max) {k : Nat} {w rest : List Char} {q : Char}
    (hmeets : Meets delm.chars quote.chars buf.chars k w q rest) (hesc : Escaped q rest) :
    (∃ s, tokenizeQuote (some buf.chars) max (some delm.chars) (some quote.chars) =
      some (.quoteNotClosed, s)) ↔ rest.getLast? ≠ some q := by
  have hk := hmeets.lt_length
  obtain ⟨ds, out, tokens, f, hds, hw, hq, hqd, htext, hrun⟩ := tokenizeQuoteLoop_meets
    delm.noNul hmeets max 0 [] [] _ buf.noNul (by omega) (length_lt_fuel buf.chars)
  have hlt : 0 + k < max := by omega
  by_cases hnil : rest = []
  · -- the quote is the last character of all
    subst hnil
    have hend := tokenizeQuoteLoop_quote_last delm.noNul hlt hds hw hq hqd htext (f + 1) out tokens
    obtain ⟨s, hs, -⟩ := tokenizeQuote_of_ends hbuf hdelm hquote (hrun _ _ _ hend)
    exact iff_of_true ⟨s, hs⟩ (by simp)
  · obtain ⟨new, -, -, hend⟩ := tokenizeQuoteLoop_quotation delm.noNul hlt hds hw hq hqd htext hnil
      f out tokens
    cases hend with
    | @closed t r _ ht _ hlast _ => exact absurd (hesc t r ht) hlast
    | fell _ hlast hend =>
      -- the call returns a count
      obtain ⟨s, hs, -⟩ := tokenizeQuote_of_ends hbuf hdelm hquote (hrun _ _ _ hend)
      apply iff_of_false
      · rintro ⟨s', hs'⟩
        rw [hs] at hs'
        have hret := (Prod.mk.inj (Option.some.inj hs')).1
        have hpos := Int.natCast_nonneg (if w = [] then 0 + k else 0 + k + 2)
        rw [hret] at hpos
        exact absurd hpos (by decide)
      · exact not_not_intro hlast
    | unclosed _ hlast hend =>
      obtain ⟨s, hs, -⟩ := tokenizeQuote_of_ends hbuf hdelm hquote (hrun _ _ _ hend)
      exact iff_of_true ⟨s, hs⟩ hlast

/-- A quotation that holds a character and is not closed. -/
theorem tokenizeQuote_unclosed_one :
    ∃ s, tokenizeQuote (some "'a".toList) 3 (some " ".toList) (some "'".toList) =
      some (.quoteNotClosed, s) := by
  have hmeets : Meets [' '] ['\''] ['\'', 'a'] 0 [] '\'' ['a'] :=
    .here ['a'] (fun _ hc => absurd hc List.not_mem_nil) (fun _ hc => absurd hc List.not_mem_nil)
      (by decide) (by decide)
  have hesc : Escaped '\'' ['a'] := (Escaped.nil '\'').append (by decide)
  exact (tokenizeQuote_unclosed ⟨['\'', 'a'], by decide⟩ ⟨[' '], by decide⟩ ⟨['\''], by decide⟩
    (by decide) (by decide) (by decide) (by decide) hmeets hesc).mpr (by decide)

/-- Nothing closes this quotation, whose last quote is escaped, and the call
finds no token in it. -/
theorem tokenizeQuote_unclosed_escaped :
    Meets [' '] ['\''] "'a\\'".toList 0 [] '\'' "a\\'".toList ∧
      Escaped '\'' "a\\'".toList ∧
      ¬∃ s, tokenizeQuote (some "'a\\'".toList) 5 (some " ".toList) (some "'".toList) =
        some (.quoteNotClosed, s) := by
  have hmeets : Meets [' '] ['\''] ['\'', 'a', '\\', '\''] 0 [] '\'' ['a', '\\', '\''] :=
    .here ['a', '\\', '\''] (fun _ hc => absurd hc List.not_mem_nil)
      (fun _ hc => absurd hc List.not_mem_nil) (by decide) (by decide)
  have hopen : Escaped '\'' ['a', '\\'] := (Escaped.nil '\'').append (by decide)
  have hrun : tokenizeQuote (some "'a\\'".toList) 5 (some " ".toList) (some "'".toList) =
      some (0, ⟨[nul, 'a', '\\', '\'', nul], 4, 0, [(0, 1), (0, 0)]⟩) := by decide
  refine ⟨hmeets, hopen.concat (fun _ => rfl), ?_⟩
  rintro ⟨s, hs⟩
  rw [hrun] at hs
  exact absurd (Prod.mk.inj (Option.some.inj hs)).1 (by decide)

end Mccp.Str
