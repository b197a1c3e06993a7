/-
  Mccp.Hashmap.Table
  ──────────────────
  **THE HASH TABLE OF hash.c.**

  An array of buckets, each the chain of its entries.  An entry has its
  address, by which its owner knows it, and a pointer back to its bucket; both
  must be right for it to be deleted.  `none` stands for what the code must
  never do: a read outside an array, a bucket pointer into an array that is
  gone, a chain without the entry that should be in it.

      randomIndex, hashString, hashArray  — from a key to a bucket
      findHashEntry, createHashEntry      — the procedures of each key type
      deleteHashEntry                     — by the entry's bucket pointer
      rebuildTable                        — four times as many buckets
-/
import Mccp.Lib.Chains

namespace Mccp.Hashmap

/-! ## §1. Keys. -/

/-- A `void *` that is stored as a value; `NULL` is 0. -/
abbrev Value := Nat

/-- What a key is, for each type of key: the bytes of a string before its NUL,
a word, or the bytes of an array. -/
inductive Key where
  | string (s : List UInt8)
  | word (w : UInt64)
  | bytes (b : List UInt8)
  deriving DecidableEq, Repr

/-- The key as each procedure reads it. -/
def Key.chars : Key → List UInt8
  | .string s => s
  | _ => []

def Key.oneWord : Key → UInt64
  | .word w => w
  | _ => 0

def Key.array : Key → List UInt8
  | .bytes b => b
  | _ => []

/-! ## §2. Tables. -/

/-- A pointer to a bucket: of which array, and its index there. -/
structure Slot where
  array : Nat
  idx : Nat
  deriving DecidableEq, Repr

/-- `HashEntry`; `addr` is its address. -/
structure HashEntry where
  addr : Nat
  bucketPtr : Slot
  clientData : Value
  key : Key
  deriving DecidableEq, Repr

/-- `findProc` and `createProc`. -/
inductive Procs where
  | string
  | oneWord
  | array
  | bogus
  | null
  deriving DecidableEq, Repr

/-- `HashTable`.  `array` tells which array `buckets` is, 0 being
`staticBuckets`; entries are allocated at `brk`. -/
structure HashTable where
  array : Nat
  buckets : List (List HashEntry)
  numBuckets : UInt32
  numEntries : UInt32
  rebuildSize : UInt32
  downShift : UInt32
  mask : UInt32
  keyLen : UInt32
  keyIntLen : UInt32
  keyModLen : UInt32
  procs : Procs
  brk : Nat
  deriving DecidableEq, Repr

/-- A table of zero bytes. -/
def HashTable.zero : HashTable where
  array := 0
  buckets := []
  numBuckets := 0
  numEntries := 0
  rebuildSize := 0
  downShift := 0
  mask := 0
  keyLen := 0
  keyIntLen := 0
  keyModLen := 0
  procs := .null
  brk := 0

/-- `MCCP_HASHMAP_TYPE_STRING`. -/
abbrev typeString : UInt32 := 0
/-- `MCCP_HASHMAP_TYPE_ONE_WORD`. -/
abbrev typeOneWord : UInt32 := 8

/-- `InitHashTable`. -/
def initHashTable (keyLen : UInt32) : HashTable :=
  let t := { HashTable.zero with
    array := 0
    buckets := [[], [], [], []]
    numBuckets := 4
    numEntries := 0
    rebuildSize := 4 * 3
    downShift := 28
    mask := 3
    keyLen := keyLen
    keyIntLen := 0
    keyModLen := 0 }
  if keyLen = typeString then { t with procs := .string }
  -- what is shorter than a word is passed as one
  else if keyLen ≤ typeOneWord then { t with keyLen := typeOneWord, procs := .oneWord }
  else
    { t with
      keyIntLen := (keyLen.toInt32 / 4).toUInt32
      keyModLen := (keyLen.toInt32 % 4).toUInt32
      procs := .array }

/-! ## §3. From keys to buckets. -/

/-- `RANDOM_INDEX`, on 64 bits. -/
def randomIndex (t : HashTable) (i : UInt64) : UInt32 :=
  ((i * 1103515245) >>> t.downShift.toUInt64).toUInt32 &&& t.mask

/-- A `char`, as the compiler widens it. -/
def widen (c : UInt8) : UInt32 := c.toInt8.toInt32.toUInt32

/-- `HashString`. -/
def hashString (s : List UInt8) : UInt32 :=
  s.foldl (fun ret c => ret + ((ret <<< 3) + widen c)) 0

/-- The integer in the given bytes, of which there are at most four. -/
def intOf (b : List UInt8) : UInt32 :=
  b.foldr (fun c ret => c.toUInt32 + (ret <<< 8)) 0

/-- `HashArray`; the key must be as long as the table says, and memcpy() must
not leave the one int that it fills. -/
def hashArray (t : HashTable) (key : List UInt8) : Option UInt32 :=
  if t.keyModLen.toNat ≤ 4 ∧ t.keyIntLen.toNat * 4 + t.keyModLen.toNat ≤ key.length then
    -- memcpy() of the tail into the low bytes of the sum
    let ret := if 0 < t.keyModLen then
      intOf ((key.drop (t.keyIntLen.toNat * 4)).take t.keyModLen.toNat) else 0
    some ((List.range t.keyIntLen.toNat).foldl
      (fun ret i => ret + intOf ((key.drop (i * 4)).take 4)) ret)
  else none

/-- The three ways to a bucket. -/
def stringIndex (t : HashTable) (key : Key) : Option UInt32 :=
  some (hashString key.chars &&& t.mask)

def oneWordIndex (t : HashTable) (key : Key) : Option UInt32 :=
  some (randomIndex t key.oneWord)

def arrayIndex (t : HashTable) (key : Key) : Option UInt32 :=
  (hashArray t key.array).map (fun i => randomIndex t i.toUInt64)

/-- `memcmp(key, bytes, keyLen) == 0`. -/
def sameBytes (t : HashTable) (key key' : Key) : Bool :=
  key.array.take t.keyLen.toNat = key'.array.take t.keyLen.toNat

/-! ## §4. Rebuilding. -/

/-- The bucket of a key, as `RebuildTable` computes it. -/
def HashTable.index (t : HashTable) (key : Key) : Option UInt32 :=
  if t.keyLen = typeString then stringIndex t key
  else if t.keyLen = typeOneWord then oneWordIndex t key
  else arrayIndex t key

/-- An entry goes to its bucket in the new array. -/
def moveEntry (t : HashTable) (bs : List (List HashEntry)) (hPtr : HashEntry) :
    Option (List (List HashEntry)) := do
  let idx ← t.index hPtr.key
  Chains.push bs idx.toNat { hPtr with bucketPtr := ⟨t.array, idx.toNat⟩ }

/-- The table with four times as many buckets, all empty. -/
def HashTable.enlarged (t : HashTable) : HashTable :=
  { t with
    array := t.array + 1
    buckets := List.replicate (t.numBuckets * 4).toNat []
    numBuckets := t.numBuckets * 4
    rebuildSize := t.rebuildSize * 4
    downShift := t.downShift - 2
    mask := (t.mask <<< 2) + 3 }

/-- `RebuildTable`. -/
def rebuildTable (t : HashTable) : Option HashTable := do
  let bs ← (t.buckets.take t.numBuckets.toNat).flatten.foldlM (moveEntry t.enlarged)
    t.enlarged.buckets
  return { t.enlarged with buckets := bs }

/-! ## §5. Finding, creating, deleting. -/

/-- The search of all three find procedures. -/
def findIn (t : HashTable) (idx : UInt32) (same : Key → Bool) : Option (Option HashEntry) :=
  Chains.lookup t.buckets idx.toNat (fun hPtr => same hPtr.key)

/-- `StringFind`. -/
def stringFind (t : HashTable) (key : Key) : Option (Option HashEntry) := do
  findIn t (← stringIndex t key) (fun k => key.chars = k.chars)

/-- `OneWordFind`. -/
def oneWordFind (t : HashTable) (key : Key) : Option (Option HashEntry) := do
  findIn t (← oneWordIndex t key) (fun k => k.oneWord = key.oneWord)

/-- `ArrayFind`. -/
def arrayFind (t : HashTable) (key : Key) : Option (Option HashEntry) := do
  findIn t (← arrayIndex t key) (sameBytes t key)

/-- `FindHashEntry`; on a deleted table it aborts. -/
def findHashEntry (t : HashTable) (key : Key) : Option (Option HashEntry) :=
  match t.procs with
  | .string => stringFind t key
  | .oneWord => oneWordFind t key
  | .array => arrayFind t key
  | .bogus => none
  | .null => none

/-- The common part of the three create procedures, after the index is known:
the entry's address, whether it is new, and the table.  `room` tells whether
malloc() succeeds, and `stored` is the copy of the key. -/
def createIn (t : HashTable) (idx : UInt32) (same : Key → Bool) (stored : Key) (room : Bool) :
    Option (Option Nat × Bool × HashTable) := do
  match ← findIn t idx same with
  | some hPtr => return (some hPtr.addr, false, t)
  | none =>
      if room then
        let hPtr : HashEntry := {
          addr := t.brk
          bucketPtr := ⟨t.array, idx.toNat⟩
          clientData := 0
          key := stored }
        let bs ← Chains.push t.buckets idx.toNat hPtr
        let t := { t with buckets := bs, numEntries := t.numEntries + 1, brk := t.brk + 1 }
        -- the new entry is in its chain before the table is rebuilt
        if t.rebuildSize ≤ t.numEntries then
          return (some hPtr.addr, true, ← rebuildTable t)
        else return (some hPtr.addr, true, t)
      else return (none, false, t)

/-- `StringCreate`. -/
def stringCreate (t : HashTable) (key : Key) (room : Bool) :
    Option (Option Nat × Bool × HashTable) := do
  createIn t (← stringIndex t key) (fun k => key.chars = k.chars) (.string key.chars) room

/-- `OneWordCreate`. -/
def oneWordCreate (t : HashTable) (key : Key) (room : Bool) :
    Option (Option Nat × Bool × HashTable) := do
  createIn t (← oneWordIndex t key) (fun k => k.oneWord = key.oneWord) (.word key.oneWord) room

/-- `ArrayCreate`. -/
def arrayCreate (t : HashTable) (key : Key) (room : Bool) :
    Option (Option Nat × Bool × HashTable) := do
  createIn t (← arrayIndex t key) (sameBytes t key)
    (.bytes (key.array.take t.keyLen.toNat)) room

/-- `CreateHashEntry`. -/
def createHashEntry (t : HashTable) (key : Key) (room : Bool) :
    Option (Option Nat × Bool × HashTable) :=
  match t.procs with
  | .string => stringCreate t key room
  | .oneWord => oneWordCreate t key room
  | .array => arrayCreate t key room
  | .bogus => none
  | .null => none

/-- `SetHashValue`, on the entry at an address. -/
def setHashValue (t : HashTable) (he : Nat) (value : Value) : HashTable :=
  { t with
    buckets := t.buckets.map (List.map
      (fun hPtr => if hPtr.addr = he then { hPtr with clientData := value } else hPtr)) }

/-- `DeleteHashEntry`. -/
def deleteHashEntry (t : HashTable) (entryPtr : HashEntry) : Option HashTable :=
  if entryPtr.bucketPtr.array = t.array then do
    let bs ← Chains.remove t.buckets entryPtr.bucketPtr.idx
      (fun hPtr => hPtr.addr = entryPtr.addr)
    return { t with buckets := bs, numEntries := t.numEntries - 1 }
  -- a pointer into an array that RebuildTable has freed
  else none

/-- `DeleteHashTable`. -/
def deleteHashTable (t : HashTable) : HashTable := { t with buckets := [], procs := .bogus }

/-- All entries, in the order of `FirstHashEntry` and `NextHashEntry`. -/
def HashTable.entries (t : HashTable) : List HashEntry :=
  (t.buckets.take t.numBuckets.toNat).flatten

end Mccp.Hashmap
