/-
  Mccp.Str.Number
  ───────────────
  **PARSING NUMBERS WITH SIGN, RADIX AND MULTIPLIER.**

  s_get_prefix_multiplier(), s_parse_bigint_by_base(), s_parse_bigint() and the
  parsers of strutils.c that call them, six of them with a base that is given,
  in their form for 64-bit machines.
  The big integers are GMP's: its arithmetic is that of `Int`, and `Gmp` holds
  the functions that read and write machine values.

      getPrefixMultiplier   — the multiplier, and the text before it
      parseBigintByBase     — a sign, digits of a base and a multiplier
      parseBigint           — the same behind a sign and a radix mark
      IntType.parse         — the parsers of the six types
      IntType.parseByBase   — the same with a base
-/
import Mathlib.Tactic.Ring
import Mccp.Lib.CString
import Mccp.Result

namespace Mccp.Str

open CString (charAt skipSpaces rtrim startsWithCase isValidString)

/-! ## §1. What is called. -/

/-- The functions of GMP, and whether strdup() finds memory. -/
structure Gmp where
  /-- `mpz_init_set_str`; `none` where it does not return 0. -/
  mpz_init_set_str : List Char → (base : Nat) → Option Int
  mpz_get_si : Int → Int
  mpz_get_ui : Int → Nat
  memory : Bool

/-! ## §2. The multiplier. -/

/-- The multiplier letters. -/
inductive Letter where
  | k
  | m
  | g
  | t
  | p
  | x
  | z
  | y
  deriving DecidableEq, Repr

/-- The `switch` of `s_get_prefix_multiplier`. -/
def Letter.ofChar : Char → Option Letter
  | 'K' => some .k
  | 'k' => some .k
  | 'M' => some .m
  | 'm' => some .m
  | 'G' => some .g
  | 'g' => some .g
  | 'T' => some .t
  | 't' => some .t
  | 'P' => some .p
  | 'p' => some .p
  | 'X' => some .x
  | 'x' => some .x
  | 'Z' => some .z
  | 'z' => some .z
  | 'Y' => some .y
  | 'y' => some .y
  | _ => none

/-- The index of a letter in `s_mult` and `s_mult_i`. -/
def Letter.index : Letter → Nat
  | .k => 0
  | .m => 1
  | .g => 2
  | .t => 3
  | .p => 4
  | .x => 5
  | .z => 6
  | .y => 7

/-- An element of `s_mult` or `s_mult_i`, as `s_once_proc` computes it. -/
def sMult (unit : Nat) : (i : Nat) → Nat
  | 0 => unit
  | i + 1 => sMult unit i * unit

/-- `s_mult_tbl`, which has every key that is looked up. -/
def sMultTbl (key : Letter) (got_i : Bool) : Nat :=
  sMult (if got_i then 1024 else 1000) key.index

/-- The character is an `i` of either case. -/
def isI (c : Char) : Bool := c = 'i' ∨ c = 'I'

/-- The second half of `s_get_prefix_multiplier`: the letter. -/
def stripLetter (got_i : Bool) (str : List Char) : Option Nat × List Char :=
  let len := str.length
  if len < 1 then (none, str)
  else
    let str := rtrim str
    let l_c := len - 1
    match Letter.ofChar (charAt str l_c) with
    | some key =>
        let str := rtrim (str.take l_c)
        if str.length < 1 then (none, str) else (some (sMultTbl key got_i), str)
    | none => if str.length < 1 then (none, str) else (some 1, str)

/-- `s_get_prefix_multiplier`: the multiplier, unless it is NULL, and the text
that it leaves. -/
def getPrefixMultiplier (str : List Char) : Option Nat × List Char :=
  if 0 < str.length then
    let str := rtrim str
    let len := str.length
    if len < 1 then (none, str)
    else if isI (charAt str (len - 1)) then
      -- nothing but an i
      if len - 1 < 1 then (none, str)
      else stripLetter true (rtrim (str.take (len - 1)))
    else stripLetter false str
  else (none, str)

/-! ## §3. Big integers. -/

/-- A sign with the spaces around it: whether it is a minus, and what follows. -/
def skipSign (str : List Char) : Bool × List Char :=
  match skipSpaces str with
  | [] => (false, [])
  | c :: str =>
      if c = '-' then (true, skipSpaces str)
      else if c = '+' then (false, skipSpaces str)
      else (false, skipSpaces (c :: str))

/-- `s_parse_bigint_by_base`; `none` for `false`. -/
def parseBigintByBase (gmp : Gmp) (str : List Char) (base : Nat) : Option Int :=
  let (is_neg, str) := skipSign str
  -- strdup() of a string that is not empty
  if str ≠ [] ∧ gmp.memory then
    match getPrefixMultiplier (rtrim str) with
    | (some mul, buf) =>
        (gmp.mpz_init_set_str buf base).map fun tmp =>
          if is_neg then -(tmp * mul) else tmp * mul
    | (none, _) => none
  else none

/-- The radix mark of `s_parse_bigint`: the base, and what follows the mark. -/
def skipRadix (str : List Char) : Nat × List Char :=
  if startsWithCase str ['0', 'x'] ∨ startsWithCase str ['\\', 'x'] then (16, str.drop 2)
  else if startsWithCase str ['\\', '0'] then (8, str.drop 2)
  else if startsWithCase str ['\\', 'b'] then (2, str.drop 2)
  else if charAt str 0 = 'H' ∨ charAt str 0 = 'h' then (16, str.drop 1)
  else if charAt str 0 = 'B' ∨ charAt str 0 = 'b' then (2, str.drop 1)
  else (10, str)

/-- `s_parse_bigint`. -/
def parseBigint (gmp : Gmp) (str : List Char) : Option Int :=
  -- the sign is taken here, and once more in `parseBigintByBase`
  let (is_neg, str) := skipSign str
  let (base, str) := skipRadix str
  let str := skipSpaces str
  if str ≠ [] ∧ gmp.memory then
    (parseBigintByBase gmp str base).map fun v => if is_neg then -v else v
  else none

/-- `s_parse_bigint_in_range`: the result, and the value where there is one. -/
def parseBigintInRange (gmp : Gmp) (str : List Char) (lower upper : Int) : Result × Option Int :=
  match parseBigint gmp str with
  | some v => if lower ≤ v ∧ v ≤ upper then (.ok, some v) else (.outOfRange, some v)
  | none => (.invalidArgs, none)

/-! ## §4. The six parsers. -/

/-- The parsers differ in their range and in how they convert the value; `val`
is what `*val` holds, NULL being `none`. -/
def parseInt (gmp : Gmp) (convert : Int → Int) (lower upper : Int) (buf : Option (List Char))
    (val : Option Int) : Result × Option Int :=
  match buf, val with
  | some str, some old =>
      if isValidString buf then
        match parseBigintInRange gmp str lower upper with
        -- the value is converted only where it is in range
        | (ret, some v) => (ret, some (if ret = .ok then convert v else old))
        | (ret, none) => (ret, some old)
      else (.anyFailures, some old)
  | _, _ => (.anyFailures, val)

/-- Conversion to a signed type of so many bits. -/
def toSigned (bits : Nat) (v : Int) : Int := Int.bmod v (2 ^ bits)

/-- Conversion to an unsigned type of so many bits. -/
def toUnsigned (bits : Nat) (v : Nat) : Int := (v % 2 ^ bits : Nat)

/-- `mccp_str_parse_int16`. -/
def parseInt16 (gmp : Gmp) : Option (List Char) → Option Int → Result × Option Int :=
  parseInt gmp (fun v => toSigned 16 (gmp.mpz_get_si v)) (-32768) 32767

/-- `mccp_str_parse_uint16`. -/
def parseUint16 (gmp : Gmp) : Option (List Char) → Option Int → Result × Option Int :=
  parseInt gmp (fun v => toUnsigned 16 (gmp.mpz_get_ui v)) 0 65535

/-- `mccp_str_parse_int32`. -/
def parseInt32 (gmp : Gmp) : Option (List Char) → Option Int → Result × Option Int :=
  parseInt gmp (fun v => toSigned 32 (gmp.mpz_get_si v)) (-2147483648) 2147483647

/-- `mccp_str_parse_uint32`. -/
def parseUint32 (gmp : Gmp) : Option (List Char) → Option Int → Result × Option Int :=
  parseInt gmp (fun v => toUnsigned 32 (gmp.mpz_get_ui v)) 0 4294967295

/-- `mccp_str_parse_int64`. -/
def parseInt64 (gmp : Gmp) : Option (List Char) → Option Int → Result × Option Int :=
  parseInt gmp (fun v => toSigned 64 (gmp.mpz_get_si v)) (-9223372036854775808)
    9223372036854775807

/-- `mccp_str_parse_uint64`. -/
def parseUint64 (gmp : Gmp) : Option (List Char) → Option Int → Result × Option Int :=
  parseInt gmp (fun v => toUnsigned 64 (gmp.mpz_get_ui v)) 0 18446744073709551615

/-- The integer types with a parser. -/
inductive IntType where
  | int16
  | uint16
  | int32
  | uint32
  | int64
  | uint64
  deriving DecidableEq, Repr

/-- The parser of a type. -/
def IntType.parse : IntType → Gmp → Option (List Char) → Option Int → Result × Option Int
  | .int16 => parseInt16
  | .uint16 => parseUint16
  | .int32 => parseInt32
  | .uint32 => parseUint32
  | .int64 => parseInt64
  | .uint64 => parseUint64

/-! ## §5. The six parsers with a base. -/

/-- `s_parse_bigint_by_base_in_range`: the result, and the value where there is
one. -/
def parseBigintByBaseInRange (gmp : Gmp) (str : List Char) (base : Nat) (lower upper : Int) :
    Result × Option Int :=
  match parseBigintByBase gmp str base with
  | some v => if lower ≤ v ∧ v ≤ upper then (.ok, some v) else (.outOfRange, some v)
  | none => (.invalidArgs, none)

/-- The parsers with a base differ from each other as those without do. -/
def parseIntByBase (gmp : Gmp) (convert : Int → Int) (lower upper : Int)
    (buf : Option (List Char)) (val : Option Int) (base : Nat) : Result × Option Int :=
  match buf, val with
  | some str, some old =>
      if isValidString buf ∧ 1 < base then
        match parseBigintByBaseInRange gmp str base lower upper with
        | (ret, some v) => (ret, some (if ret = .ok then convert v else old))
        | (ret, none) => (ret, some old)
      else (.anyFailures, some old)
  | _, _ => (.anyFailures, val)

/-- `mccp_str_parse_int16_by_base`. -/
def parseInt16ByBase (gmp : Gmp) :
    Option (List Char) → Option Int → (base : Nat) → Result × Option Int :=
  parseIntByBase gmp (fun v => toSigned 16 (gmp.mpz_get_si v)) (-32768) 32767

/-- `mccp_str_parse_uint16_by_base`. -/
def parseUint16ByBase (gmp : Gmp) :
    Option (List Char) → Option Int → (base : Nat) → Result × Option Int :=
  parseIntByBase gmp (fun v => toUnsigned 16 (gmp.mpz_get_ui v)) 0 65535

/-- `mccp_str_parse_int32_by_base`. -/
def parseInt32ByBase (gmp : Gmp) :
    Option (List Char) → Option Int → (base : Nat) → Result × Option Int :=
  parseIntByBase gmp (fun v => toSigned 32 (gmp.mpz_get_si v)) (-2147483648) 2147483647

/-- `mccp_str_parse_uint32_by_base`. -/
def parseUint32ByBase (gmp : Gmp) :
    Option (List Char) → Option Int → (base : Nat) → Result × Option Int :=
  parseIntByBase gmp (fun v => toUnsigned 32 (gmp.mpz_get_ui v)) 0 4294967295

/-- `mccp_str_parse_int64_by_base`. -/
def parseInt64ByBase (gmp : Gmp) :
    Option (List Char) → Option Int → (base : Nat) → Result × Option Int :=
  parseIntByBase gmp (fun v => toSigned 64 (gmp.mpz_get_si v)) (-9223372036854775808)
    9223372036854775807

/-- `mccp_str_parse_uint64_by_base`. -/
def parseUint64ByBase (gmp : Gmp) :
    Option (List Char) → Option Int → (base : Nat) → Result × Option Int :=
  parseIntByBase gmp (fun v => toUnsigned 64 (gmp.mpz_get_ui v)) 0 18446744073709551615

/-- The parser of a type, with a base. -/
def IntType.parseByBase :
    IntType → Gmp → Option (List Char) → Option Int → (base : Nat) → Result × Option Int
  | .int16 => parseInt16ByBase
  | .uint16 => parseUint16ByBase
  | .int32 => parseInt32ByBase
  | .uint32 => parseUint32ByBase
  | .int64 => parseInt64ByBase
  | .uint64 => parseUint64ByBase

/-- The values of a type. -/
def IntType.Holds : IntType → Int → Prop
  | .int16, v => -2 ^ 15 ≤ v ∧ v < 2 ^ 15
  | .uint16, v => 0 ≤ v ∧ v < 2 ^ 16
  | .int32, v => -2 ^ 31 ≤ v ∧ v < 2 ^ 31
  | .uint32, v => 0 ≤ v ∧ v < 2 ^ 32
  | .int64, v => -2 ^ 63 ≤ v ∧ v < 2 ^ 63
  | .uint64, v => 0 ≤ v ∧ v < 2 ^ 64

instance : (type : IntType) → (v : Int) → Decidable (type.Holds v)
  | .int16, _ => inferInstanceAs (Decidable (_ ∧ _))
  | .uint16, _ => inferInstanceAs (Decidable (_ ∧ _))
  | .int32, _ => inferInstanceAs (Decidable (_ ∧ _))
  | .uint32, _ => inferInstanceAs (Decidable (_ ∧ _))
  | .int64, _ => inferInstanceAs (Decidable (_ ∧ _))
  | .uint64, _ => inferInstanceAs (Decidable (_ ∧ _))

end Mccp.Str
