/-
  Mccp.Str.Split
  ──────────────
  **TOKENIZING IS SPLITTING.**

  mccp_str_tokenize() finds the runs of characters that are no delimiters, as
  many as the caller has room for, and leaves each of them as a string of its
  own in the buffer.  Where no quote occurs, mccp_str_tokenize_quote() does the
  same, step by step.

      runs                    — the maximal runs of a text
      tokenizeQuoteLoop_eq    — without quotes the two loops are one
      Cut                     — what a run has cut off the text
      tokenizeLoop_cut        — the loop, from any place on
      tokenize_splits         — all of it
-/
import Mccp.Str.Rounds

namespace Mccp.Str

open CString (nul charAt cstr strchr isValidString)

/-! ## §1. The runs of a text. -/

/-- The maximal runs of characters that are no delimiters. -/
def runs (delm text : List Char) : List (List Char) :=
  (text.splitOnP (· ∈ delm)).filter (· ≠ [])

section

variable {delm : List Char}

@[simp] theorem runs_nil : runs delm [] = [] := rfl

/-- Delimiters in front change nothing. -/
theorem runs_delms {ds : List Char} (hds : ∀ c ∈ ds, c ∈ delm) (text : List Char) :
    runs delm (ds ++ text) = runs delm text := by
  induction ds with
  | nil => rfl
  | cons d ds ih =>
    have hd := hds d List.mem_cons_self
    rw [← ih (fun c hc => hds c (List.mem_cons_of_mem d hc))]
    unfold runs
    rw [List.cons_append, List.splitOnP_cons_eq_if_modifyHead, if_pos (decide_eq_true hd)]
    rfl

theorem splitOnP_word {w : List Char} (hw : ∀ c ∈ w, c ∉ delm) :
    ∀ c ∈ w, decide (c ∈ delm) = false := by
  intro c hc
  exact decide_eq_false (hw c hc)

/-- A text without delimiters is one run. -/
theorem runs_word {w : List Char} (hw : ∀ c ∈ w, c ∉ delm) (hne : w ≠ []) :
    runs delm w = [w] := by
  unfold runs
  rw [List.splitOnP_eq_singleton (splitOnP_word hw)]
  simp [hne]

/-- A delimiter ends a run. -/
theorem runs_word_cons {w : List Char} (hw : ∀ c ∈ w, c ∉ delm) (hne : w ≠ []) {d : Char}
    (hd : d ∈ delm) (text : List Char) :
    runs delm (w ++ d :: text) = w :: runs delm text := by
  unfold runs
  rw [List.splitOnP_append_cons_of_forall_mem (splitOnP_word hw) d (decide_eq_true hd)]
  simp [hne]

/-! ## §2. Without quotes the two loops are one. -/

theorem skipDelm_mem {fuel : Nat} {s s' : Scan} (h : skipDelm delm fuel s = some s') :
    s'.mem = s.mem := by
  induction fuel generalizing s with
  | zero => exact absurd h (by simp [skipDelm])
  | succ fuel ih =>
    rw [skipDelm] at h
    split at h
    · have hmem := ih h
      exact hmem
    · rw [← Option.some.inj h]

theorem scanWord_mem {fuel k k' : Nat} {s s' : Scan}
    (h : scanWord delm fuel k s = some (k', s')) : s'.mem = s.mem := by
  induction fuel generalizing k s with
  | zero => exact absurd h (by simp [scanWord])
  | succ fuel ih =>
    rw [scanWord] at h
    split at h
    · have hmem := ih h
      exact hmem
    · rw [← (Prod.mk.inj (Option.some.inj h)).2]

/-- The character the pointer is at, when no quote is in the buffer. -/
theorem Scan.char_not_mem {quote : List Char} {s : Scan} (hquote : ∀ c ∈ quote, c ∉ s.mem)
    (hchar : s.char ≠ nul) : s.char ∉ quote := by
  intro h
  apply hquote s.char h
  unfold char charAt at hchar ⊢
  rw [List.getD_eq_getElem?_getD] at hchar ⊢
  cases hget : s.mem[s.buf]? with
  | none =>
    rw [hget] at hchar
    exact absurd rfl hchar
  | some c => exact List.mem_of_getElem? hget

/-- The loops over one token agree. -/
theorem scanToken_eq {quote : List Char} (max : Nat) (fuel k : Nat) {s : Scan}
    (hquote : ∀ c ∈ quote, c ∉ s.mem) :
    scanToken max delm quote fuel k s =
      (scanWord delm fuel k s).map fun r => .gotToken r.1 r.2 := by
  induction fuel generalizing k s with
  | zero => rfl
  | succ fuel ih =>
    rw [scanToken, scanWord]
    by_cases hgo : s.char ≠ nul ∧ s.char ∉ delm
    · rw [if_pos hgo, if_neg (Scan.char_not_mem hquote hgo.1), if_pos ⟨hgo.2, hgo.1⟩]
      have hnext := ih (k + 1) (s := { s with buf := s.buf + 1 }) hquote
      exact hnext
    · rw [if_neg hgo, if_neg (fun h => hgo ⟨h.2, h.1⟩)]
      rfl

/-- **The main loops agree** on a buffer without quotes. -/
theorem tokenizeQuoteLoop_eq {quote : List Char} (hnul : nul ∉ quote) (max : Nat) (fuel : Nat)
    {s : Scan} (hquote : ∀ c ∈ quote, c ∉ s.mem) :
    tokenizeQuoteLoop max delm quote fuel s = tokenizeLoop max delm fuel s := by
  induction fuel generalizing s with
  | zero => rfl
  | succ fuel ih =>
    rw [tokenizeQuoteLoop_succ, tokenizeLoop]
    by_cases hgo : s.char ≠ nul ∧ s.n < max
    · rw [if_pos hgo, if_pos hgo]
      cases hskip : skipDelm delm (s.mem.length + 1) s with
      | none => rfl
      | some t =>
        have ht := skipDelm_mem hskip
        simp only [Option.bind_some, Option.bind_eq_bind]
        by_cases hend : t.char = nul
        · rw [if_pos hend, if_pos hend]
          rfl
        · rw [if_neg hend, if_neg hend]
          have hquote' : ∀ c ∈ quote, c ∉ t.store.mem := by
            intro c hc
            show c ∉ t.mem
            rw [ht]
            exact hquote c hc
          rw [scanToken_eq max (t.mem.length + 1) 0 hquote']
          cases hword : scanWord delm (t.mem.length + 1) 0 t.store with
          | none => rfl
          | some r =>
            obtain ⟨k, u⟩ := r
            have hu := scanWord_mem hword
            simp only [Option.map_some, Option.bind_some, endToken]
            -- the terminator that is put in is no quote
            have hnext := ih (s := { u.terminate with n := u.n + 1, buf := u.buf + 1 }) (by
              intro c hc hmem
              rcases List.mem_or_eq_of_mem_set hmem with h | h
              · rw [hu] at h
                exact hquote' c hc h
              · exact hnul (h ▸ hc))
            split
            · rfl
            · split
              · rfl
              · exact hnext
    · rw [if_neg hgo, if_neg hgo]

/-- `mccp_str_tokenize` is the other tokenizer without any quote. -/
theorem tokenizeLoop_eq (max fuel : Nat) (s : Scan) :
    tokenizeLoop max delm fuel s = tokenizeQuoteLoop max delm [] fuel s :=
  (tokenizeQuoteLoop_eq List.not_mem_nil max fuel
    (fun _ hc => absurd hc List.not_mem_nil)).symm

/-! ## §3. What the loop cuts off. -/

/-- The strings `ts` are what the elements of `tokens` from `n` on point to,
each with its terminator behind it, and these are the only elements stored. -/
structure Cut (n : Nat) (ts : List (List Char)) (mem : List Char) (new : List (Nat × Nat)) :
    Prop where
  index : ∀ p ∈ new, n ≤ p.1 ∧ p.1 < n + ts.length
  token : ∀ i (hi : i < ts.length), ∃ p rest, new.lookup (n + i) = some p ∧
    mem.drop p = ts[i] ++ nul :: rest

theorem Cut.nil (n : Nat) (mem : List Char) : Cut n [] mem [] where
  index := fun _ hp => absurd hp List.not_mem_nil
  token := fun i hi => absurd hi (Nat.not_lt_zero i)

/-- One token in front of the others. -/
theorem Cut.cons {n p : Nat} {t rest : List Char} {ts : List (List Char)} {mem : List Char}
    {new : List (Nat × Nat)} (h : Cut (n + 1) ts mem new) (ht : mem.drop p = t ++ nul :: rest) :
    Cut n (t :: ts) mem (new ++ [(n, p)]) := by
  constructor
  · intro x hx
    rw [List.length_cons]
    rcases List.mem_append.mp hx with hx | hx
    · have hindex := h.index x hx
      omega
    · rw [List.mem_singleton.mp hx]
      exact ⟨Nat.le_refl n, by omega⟩
  · intro i hi
    cases i with
    | zero =>
      exact ⟨p, rest, lookup_store (fun x hx => (h.index x hx).1), ht⟩
    | succ i =>
      obtain ⟨p', rest', hp, hstr⟩ := h.token i (by rw [List.length_cons] at hi; omega)
      refine ⟨p', rest', ?_, hstr⟩
      rw [List.lookup_append, show n + (i + 1) = n + 1 + i by omega, hp]
      rfl

/-- A token in the buffer. -/
theorem drop_token (out ds w rest : List Char) :
    (out ++ (ds ++ (w ++ nul :: rest))).drop (out ++ ds).length = w ++ nul :: rest := by
  rw [← List.append_assoc]
  exact List.drop_left

/-- **The loop cuts off the runs**, as many as there is room for. -/
theorem tokenizeLoop_cut (hnul : nul ∉ delm) (max : Nat) (fuel : Nat) :
    ∀ {text : List Char}, nul ∉ text → text.length < fuel →
      ∀ (out : List Char) (n : Nat) (tokens : List (Nat × Nat)), n ≤ max →
        ∃ out' new, Ends (tokenizeLoop max delm fuel (.reading out text n tokens))
            (n + ((runs delm text).take (max - n)).length : Nat) (out ++ out') (new ++ tokens) ∧
          Cut n ((runs delm text).take (max - n)) (out ++ out') new := by
  induction fuel with
  | zero => exact fun _ h => absurd h (Nat.not_lt_zero _)
  | succ fuel ih =>
    intro text htext hfuel out n tokens hmax
    rw [tokenizeLoop_eq]
    rcases Nat.lt_or_ge n max with hlt | hge
    · obtain ⟨ds, w, rest, rfl, hds, hw, hrest⟩ := exists_opening delm [] text
      have hwd : ∀ c ∈ w, c ∉ delm := fun c hc => (hw c hc).1
      rw [runs_delms hds]
      obtain ⟨m, hm⟩ : ∃ m, max - n = m + 1 := ⟨max - n - 1, by omega⟩
      cases rest with
      | nil =>
        rw [List.append_nil] at htext ⊢
        by_cases hne : w = []
        · -- delimiters only
          subst hne
          rw [List.append_nil, runs_nil, List.take_nil]
          refine ⟨ds ++ [nul], [], ?_, ?_⟩
          · exact tokenizeQuoteLoop_delms hnul hds max fuel out n tokens
          · exact Cut.nil n _
        · have hlast := tokenizeQuoteLoop_last hnul hlt hds hw
            (fun h => htext (List.mem_append_right ds h)) hne fuel out tokens
          have hmem : out ++ ds ++ w ++ [nul] = out ++ (ds ++ (w ++ [nul])) := by simp
          rw [hmem] at hlast
          rw [runs_word hwd hne, hm, List.take_succ_cons, List.take_nil]
          refine ⟨ds ++ (w ++ [nul]), [(n, (out ++ ds).length)], hlast, ?_⟩
          exact (Cut.nil (n + 1) _).cons (drop_token out ds w [])
      | cons d rest =>
        obtain ⟨hne, hd⟩ := (hrest d rest rfl).resolve_right (fun h => absurd h.1 List.not_mem_nil)
        have htext' : nul ∉ w ++ d :: rest := fun h => htext (List.mem_append_right ds h)
        have hrest' : nul ∉ rest :=
          fun h => htext' (List.mem_append_right w (List.mem_cons_of_mem d h))
        simp only [List.length_append, List.length_cons] at hfuel
        obtain ⟨out', new, hrun, hcut⟩ := ih hrest' (by omega) (out ++ ds ++ w ++ [nul]) (n + 1)
          ((n, (out ++ ds).length) :: tokens) hlt
        obtain ⟨f, rfl⟩ : ∃ f, fuel = f + 1 := ⟨fuel - 1, by omega⟩
        rw [tokenizeLoop_eq] at hrun
        have hround := tokenizeQuoteLoop_word hnul hlt hds hw hne hd htext' hrun
        rw [runs_word_cons hwd hne hd, hm, List.take_succ_cons, List.length_cons]
        have hm' : max - (n + 1) = m := by omega
        rw [hm'] at hround hcut
        -- what the rest leaves stands behind this word's terminator
        have hmem : out ++ ds ++ w ++ [nul] ++ out' = out ++ (ds ++ (w ++ nul :: out')) := by simp
        rw [hmem] at hround hcut
        refine ⟨ds ++ (w ++ nul :: out'), new ++ [(n, (out ++ ds).length)], ?_, ?_⟩
        · rw [List.append_assoc, List.singleton_append]
          rw [show n + ((List.take m (runs delm rest)).length + 1) =
            n + 1 + (List.take m (runs delm rest)).length by omega]
          exact hround
        · exact hcut.cons (drop_token out ds w out')
    · -- no room is left
      refine ⟨text ++ [nul], [], ?_, ?_⟩
      · rw [show max - n = 0 by omega, List.take_zero]
        exact tokenizeQuoteLoop_full delm [] hge fuel out text tokens
      · rw [show max - n = 0 by omega, List.take_zero]
        exact Cut.nil n _

end

/-! ## §4. The two tokenizers. -/

/-- `tokens[i]` points to the string `t`, with a terminator behind it. -/
def Scan.Holds (s : Scan) (i : Nat) (t : List Char) : Prop :=
  ∃ p rest, s.tokens.lookup i = some p ∧ s.mem.drop p = t ++ nul :: rest

/-- A whole run of `mccp_str_tokenize`. -/
theorem tokenize_cut (buf delm : CString) (hbuf : buf.chars ≠ []) (hdelm : delm.chars ≠ [])
    (max : Nat) :
    ∃ s : Scan,
      tokenize (some buf.chars) max (some delm.chars) =
        some ((((runs delm.chars buf.chars).take max).length : Result), s) ∧
      Cut 0 ((runs delm.chars buf.chars).take max) s.mem s.tokens := by
  have hvalid : isValidString (some buf.chars) ∧ isValidString (some delm.chars) := by
    simp [isValidString, hbuf, hdelm]
  have hfuel : buf.chars.length < (buf.chars ++ [nul]).length + 1 := by
    rw [List.length_append]
    omega
  obtain ⟨mem, new, ⟨s, hs, hmem, htokens⟩, hcut⟩ := tokenizeLoop_cut delm.noNul max
    ((buf.chars ++ [nul]).length + 1) buf.noNul hfuel [] 0 [] (Nat.zero_le max)
  rw [List.append_nil] at htokens
  rw [← hmem, ← htokens, Nat.sub_zero] at hcut
  rw [Nat.sub_zero, Nat.zero_add] at hs
  refine ⟨s, ?_, hcut⟩
  unfold tokenize
  dsimp only
  rw [if_pos hvalid]
  exact hs

/-- **Tokenizing is splitting**: as many tokens as there are runs, or as there
is room for, each of them its run, and nothing else stored. -/
theorem tokenize_splits (buf delm : CString) (hbuf : buf.chars ≠ []) (hdelm : delm.chars ≠ [])
    (max : Nat) :
    ∃ s : Scan,
      tokenize (some buf.chars) max (some delm.chars) =
        some (((min max (runs delm.chars buf.chars).length : Nat) : Result), s) ∧
      (∀ i (hi : i < (runs delm.chars buf.chars).length), i < max →
        s.Holds i (runs delm.chars buf.chars)[i]) ∧
      ∀ p ∈ s.tokens, p.1 < min max (runs delm.chars buf.chars).length := by
  obtain ⟨s, hs, hcut⟩ := tokenize_cut buf delm hbuf hdelm max
  rw [List.length_take] at hs
  refine ⟨s, hs, ?_, ?_⟩
  · intro i hi himax
    obtain ⟨p, rest, hp, hdrop⟩ := hcut.token i (by rw [List.length_take]; omega)
    rw [Nat.zero_add] at hp
    refine ⟨p, rest, hp, ?_⟩
    rw [hdrop, List.getElem_take]
  · intro p hp
    have hlt := (hcut.index p hp).2
    rw [Nat.zero_add, List.length_take] at hlt
    exact hlt

/-- Two words and room for one of them. -/
theorem tokenize_splits_two :
    ∃ s : Scan, tokenize (some " ab,c,".toList) 1 (some ", ".toList) = some (1, s) ∧
      s.Holds 0 ['a', 'b'] := by
  obtain ⟨s, hs, htoken, -⟩ := tokenize_splits ⟨[' ', 'a', 'b', ',', 'c', ','], by decide⟩
    ⟨[',', ' '], by decide⟩ (by decide) (by decide) 1
  exact ⟨s, hs, htoken 0 (by decide) (by decide)⟩

/-- **The two tokenizers agree** where no quote occurs: they return the same
number, store the same positions and leave the same buffer. -/
theorem tokenizers_agree (buf delm quote : CString) (hbuf : buf.chars ≠ [])
    (hdelm : delm.chars ≠ []) (hquote : quote.chars ≠ [])
    (hnone : ∀ c ∈ quote.chars, c ∉ buf.chars) (max : Nat) :
    ∃ ret s, tokenizeQuote (some buf.chars) max (some delm.chars) (some quote.chars) =
        some (ret, s) ∧
      tokenize (some buf.chars) max (some delm.chars) = some (ret, s) := by
  have hvalid : isValidString (some buf.chars) ∧ isValidString (some delm.chars) ∧
      isValidString (some quote.chars) := by
    simp [isValidString, hbuf, hdelm, hquote]
  have hmem : ∀ c ∈ quote.chars, c ∉ buf.chars ++ [nul] := by
    intro c hc h
    rcases List.mem_append.mp h with h | h
    · exact hnone c hc h
    · rw [List.mem_singleton.mp h] at hc
      exact quote.noNul hc
  have hagree : tokenizeQuote (some buf.chars) max (some delm.chars) (some quote.chars) =
      tokenize (some buf.chars) max (some delm.chars) := by
    unfold tokenizeQuote tokenize
    dsimp only
    rw [if_pos hvalid, if_pos ⟨hvalid.1, hvalid.2.1⟩]
    exact tokenizeQuoteLoop_eq quote.noNul max _ hmem
  obtain ⟨s, hs, -⟩ := tokenize_cut buf delm hbuf hdelm max
  exact ⟨_, s, hagree.trans hs, hs⟩

/-- Words and no quote. -/
theorem tokenizers_agree_words :
    ∃ ret s, tokenizeQuote (some "ab cd".toList) 5 (some " ".toList) (some "'".toList) =
        some (ret, s) ∧
      tokenize (some "ab cd".toList) 5 (some " ".toList) = some (ret, s) := by
  have hnone : ∀ c ∈ ['\''], c ∉ ['a', 'b', ' ', 'c', 'd'] := by simp
  obtain ⟨ret, s, hquote, hplain⟩ := tokenizers_agree ⟨['a', 'b', ' ', 'c', 'd'], by decide⟩
    ⟨[' '], by decide⟩ ⟨['\''], by decide⟩ (by decide) (by decide) (by decide) hnone 5
  exact ⟨ret, s, hquote, hplain⟩

end Mccp.Str
