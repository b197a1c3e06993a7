/-
  Mccp.Str.Tokenize
  ─────────────────
  **TOKENIZING WITH QUOTATIONS, AND UNESCAPING.**

  mccp_str_tokenize(), mccp_str_tokenize_quote() and mccp_str_unescape() of
  strutils.c.  The tokenizers work on the caller's buffer: they put a
  terminator at the end of each token and store pointers into the buffer,
  positions here.

      Scan            — the buffer, the pointer into it, and what was stored
      skipToUnquote   — the loop that looks for the closing quote
      scanToken       — the loop over one token
      tokenizeQuote   — mccp_str_tokenize_quote()
      tokenize        — mccp_str_tokenize()
      unescape        — mccp_str_unescape()

  Each round of a loop passes a character at least, so that `fuel`, a bound on
  the number of rounds, never runs out (`none`) when it is the length of the
  buffer.
-/
import Mccp.Lib.CString
import Mccp.Result

namespace Mccp.Str

open CString (nul charAt cstr strchr isValidString)

/-! ## §1. The tokenizer with quotations. -/

/-- The variables of the tokenizer: the buffer, the pointer into it, the number
of tokens, and the stores to `tokens` as pairs of index and pointer, latest
first. -/
structure Scan where
  mem : List Char
  buf : Nat
  n : Nat
  tokens : List (Nat × Nat)
  deriving DecidableEq, Repr

/-- `*buf`. -/
def Scan.char (s : Scan) : Char := charAt s.mem s.buf

/-- `*buf = '\0'`. -/
def Scan.terminate (s : Scan) : Scan := { s with mem := s.mem.set s.buf nul }

/-- `tokens[n] = buf`. -/
def Scan.store (s : Scan) : Scan := { s with tokens := (s.n, s.buf) :: s.tokens }

/-- How the loop over a token ends: at `got_token`, or at `done`. -/
inductive Scanned where
  | gotToken (no_delm : Nat) (s : Scan)
  | done (ret : Result) (s : Scan)
  deriving DecidableEq, Repr

/-- The loop that skips to the unquote point. -/
def skipToUnquote (cur_quote : Char) (no_delm : Nat) : (fuel : Nat) → Scan → Option Scanned
  | 0, _ => none
  | fuel + 1, s =>
      if s.char ≠ nul then
        match strchr s.mem s.buf cur_quote with
        | some p =>
            -- an escaped quote: on from behind it
            if charAt s.mem (p - 1) = '\\' then
              skipToUnquote cur_quote no_delm fuel { s with buf := p + 1 }
            else some (.gotToken 1 { s with buf := p })
        | none => some (.done .quoteNotClosed s)
      else some (.gotToken no_delm s)

/-- A quotation within a token, from the opening quote on. -/
def scanQuoted (max no_delm : Nat) (s : Scan) : Option Scanned :=
  let cur_quote := s.char
  -- the quote ends the token before it
  let s := { s.terminate with buf := s.buf + 1 }
  if s.char ≠ nul then
    if 0 < no_delm ∧ max ≤ s.n then some (.done s.n s)
    else
      -- a quote in the middle of a token begins the next one
      let s := if 0 < no_delm then { s with n := s.n + 1 } else s
      skipToUnquote cur_quote no_delm (s.mem.length + 1) s.store
  else some (.done .quoteNotClosed s)

/-- The loop over one token; after a quotation it ends in any case. -/
def scanToken (max : Nat) (delm quote : List Char) :
    (fuel no_delm : Nat) → Scan → Option Scanned
  | 0, _, _ => none
  | fuel + 1, no_delm, s =>
      if s.char ≠ nul ∧ s.char ∉ delm then
        if s.char ∈ quote then scanQuoted max no_delm s
        else scanToken max delm quote fuel (no_delm + 1) { s with buf := s.buf + 1 }
      else some (.gotToken no_delm s)

/-- The loop that passes the delimiters before a token. -/
def skipDelm (delm : List Char) : (fuel : Nat) → Scan → Option Scan
  | 0, _ => none
  | fuel + 1, s =>
      if s.char ≠ nul ∧ s.char ∈ delm then skipDelm delm fuel { s with buf := s.buf + 1 }
      else some s

/-- The main loop of `mccp_str_tokenize_quote`. -/
def tokenizeQuoteLoop (max : Nat) (delm quote : List Char) :
    (fuel : Nat) → Scan → Option (Result × Scan)
  | 0, _ => none
  | fuel + 1, s =>
      if s.char ≠ nul ∧ s.n < max then do
        let s ← skipDelm delm (s.mem.length + 1) s
        -- nothing but delimiters was left
        if s.char = nul then return (s.n, s)
        match ← scanToken max delm quote (s.mem.length + 1) 0 s.store with
        | .done ret s => return (ret, s)
        | .gotToken no_delm s =>
            if s.char = nul then
              return (if 0 < no_delm then (s.n + 1 : Nat) else s.n, s)
            -- the delimiter or the closing quote becomes the terminator
            let s := { s.terminate with n := s.n + 1 }
            if charAt s.mem (s.buf + 1) = nul then return (s.n, s)
            tokenizeQuoteLoop max delm quote fuel { s with buf := s.buf + 1 }
      else some (s.n, s)

/-- `mccp_str_tokenize_quote`; `buf` is the string in the caller's buffer. -/
def tokenizeQuote (buf : Option (List Char)) (max : Nat) (delm quote : Option (List Char)) :
    Option (Result × Scan) :=
  match buf, delm, quote with
  | some b, some d, some q =>
      let s : Scan := { mem := b ++ [nul], buf := 0, n := 0, tokens := [] }
      if isValidString buf ∧ isValidString delm ∧ isValidString quote then
        tokenizeQuoteLoop max d q (s.mem.length + 1) s
      else some (.invalidArgs, s)
  | _, _, _ => some (.invalidArgs, { mem := [], buf := 0, n := 0, tokens := [] })

/-- What `tokens[i]` points to in the end. -/
def Scan.token (s : Scan) (i : Nat) : Option (List Char) :=
  (s.tokens.lookup i).map (cstr s.mem)

/-! ## §2. The tokenizer without. -/

/-- The loop of `mccp_str_tokenize` over one token, which counts its
characters. -/
def scanWord (delm : List Char) : (fuel no_delm : Nat) → Scan → Option (Nat × Scan)
  | 0, _, _ => none
  | fuel + 1, no_delm, s =>
      if s.char ∉ delm ∧ s.char ≠ nul then
        scanWord delm fuel (no_delm + 1) { s with buf := s.buf + 1 }
      else some (no_delm, s)

/-- The main loop of `mccp_str_tokenize`. -/
def tokenizeLoop (max : Nat) (delm : List Char) : (fuel : Nat) → Scan → Option (Result × Scan)
  | 0, _ => none
  | fuel + 1, s =>
      if s.char ≠ nul ∧ s.n < max then do
        let s ← skipDelm delm (s.mem.length + 1) s
        -- nothing but delimiters was left
        if s.char = nul then return (s.n, s)
        let (no_delm, s) ← scanWord delm (s.mem.length + 1) 0 s.store
        if s.char = nul then
          return (if 0 < no_delm then (s.n + 1 : Nat) else s.n, s)
        -- the delimiter becomes the terminator
        let s := { s.terminate with n := s.n + 1 }
        if charAt s.mem (s.buf + 1) = nul then return (s.n, s)
        tokenizeLoop max delm fuel { s with buf := s.buf + 1 }
      else some (s.n, s)

/-- `mccp_str_tokenize`; `buf` is the string in the caller's buffer. -/
def tokenize (buf : Option (List Char)) (max : Nat) (delm : Option (List Char)) :
    Option (Result × Scan) :=
  match buf, delm with
  | some b, some d =>
      let s : Scan := { mem := b ++ [nul], buf := 0, n := 0, tokens := [] }
      if isValidString buf ∧ isValidString delm then
        tokenizeLoop max d (s.mem.length + 1) s
      else some (.invalidArgs, s)
  | _, _ => some (.invalidArgs, { mem := [], buf := 0, n := 0, tokens := [] })

/-! ## §3. Unescaping. -/

/-- The loop of `mccp_str_unescape`: what it writes. -/
def unescapeLoop (escaped : List Char) : (got_bs : Bool) → List Char → List Char
  | _, [] => []
  | true, c :: org =>
      -- the backslash goes only before a character that is escaped
      (if c ∈ escaped then [c] else if c = '\\' then ['\\', '\\'] else ['\\', c]) ++
        unescapeLoop escaped false org
  | false, c :: org =>
      if c = '\\' then unescapeLoop escaped true org else c :: unescapeLoop escaped false org

/-- The test of `mccp_str_unescape` on the first and the last character of the
string. -/
def canUnescape (escaped org : List Char) : Bool :=
  let l := org.length
  charAt org 0 ∉ escaped ∧
    (charAt org (l - 1) ∉ escaped ∨
      (2 ≤ l ∧ charAt org (l - 1) ∈ escaped ∧ charAt org (l - 2) = '\\'))

/-- `mccp_str_unescape`: the result, and what `retptr` gets, if given;
`malloc` tells whether there is memory. -/
def unescape (malloc : Bool) (org escaped : Option (List Char)) : Result × Option (List Char) :=
  match org, escaped with
  | some o, some e =>
      if isValidString org ∧ isValidString escaped then
        if canUnescape e o then
          if malloc then
            let buf := unescapeLoop e false o
            (buf.length, if 0 < buf.length then some buf else none)
          else (.noMemory, none)
        else (.invalidArgs, none)
      else (.invalidArgs, none)
  | _, _ => (.invalidArgs, none)

end Mccp.Str
