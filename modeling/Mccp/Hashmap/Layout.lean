/-
  Mccp.Hashmap.Layout
  ───────────────────
  **EVERY ENTRY IS WHERE ITS KEY SAYS.**

  Finding, creating, deleting and rebuilding each compute the bucket of a key
  in their own way.  `Layout` is what they all rely on: every entry is in the
  bucket of its key and points back to it, and the sizes of the table grow
  together.

      Format.agree      — for each type of key, all procedures use one bucket
      Layout.find       — a find sees all entries with its key
      Layout.rebuild    — a rebuild keeps all entries
      Settled.create    — a create adds one entry, and rebuilds if it must
      Settled.setValue  — a new value changes one entry
      Settled.delete    — a delete removes its entry
-/
import Mccp.Hashmap.Table

namespace Mccp.Hashmap

open Chains

/-! ## §1. Keys of a type. -/

/-- The greatest `int`. -/
def intMax : Nat := 2147483647

/-- The key is one for a map that was created with the type. -/
def Key.HasType (type : UInt32) : Key → Prop
  | .string s => type = 0 ∧ 0 ∉ s
  | .word _ => 0 < type ∧ type ≤ 8
  | .bytes b => 8 < type ∧ b.length = type.toNat

instance (type : UInt32) : (key : Key) → Decidable (key.HasType type)
  | .string s => inferInstanceAs (Decidable (type = 0 ∧ 0 ∉ s))
  | .word _ => inferInstanceAs (Decidable (0 < type ∧ type ≤ 8))
  | .bytes b => inferInstanceAs (Decidable (8 < type ∧ b.length = type.toNat))

theorem quot_toNat {type : UInt32} (h : type.toNat ≤ intMax) :
    (type.toInt32 / 4).toUInt32.toNat = type.toNat / 4 := by
  have hbits : type.toInt32.toBitVec = type.toBitVec := rfl
  -- as an int the length is not negative, so div() divides as on Nat
  have hmsb : type.toInt32.toBitVec.msb = false := by
    rw [hbits, BitVec.msb_eq_false_iff_two_mul_lt, UInt32.toNat_toBitVec]
    unfold intMax at h
    omega
  have h4 : (4 : Int32).toBitVec.msb = false := by decide
  show (BitVec.sdiv type.toInt32.toBitVec (4 : Int32).toBitVec).toNat = _
  rw [BitVec.sdiv_eq, hmsb, h4]
  simp [hbits]

theorem rem_toNat {type : UInt32} (h : type.toNat ≤ intMax) :
    (type.toInt32 % 4).toUInt32.toNat = type.toNat % 4 := by
  have hbits : type.toInt32.toBitVec = type.toBitVec := rfl
  have hmsb : type.toInt32.toBitVec.msb = false := by
    rw [hbits, BitVec.msb_eq_false_iff_two_mul_lt, UInt32.toNat_toBitVec]
    unfold intMax at h
    omega
  have h4 : (4 : Int32).toBitVec.msb = false := by decide
  show (BitVec.srem type.toInt32.toBitVec (4 : Int32).toBitVec).toNat = _
  rw [BitVec.srem_eq, hmsb, h4]
  simp [hbits]

/-! ## §2. The format of a table. -/

/-- The table is one for keys of the type. -/
structure Format (t : HashTable) (type : UInt32) : Prop where
  keyLen : t.keyLen = (initHashTable type).keyLen
  keyIntLen : t.keyIntLen = (initHashTable type).keyIntLen
  keyModLen : t.keyModLen = (initHashTable type).keyModLen
  procs : t.procs = (initHashTable type).procs

/-- The three kinds of a table, with what each find procedure is. -/
inductive Kind (t : HashTable) (type : UInt32) : Prop
  | string (ht : type = 0) (hl : t.keyLen = 0) (hp : t.procs = .string)
  | oneWord (h0 : 0 < type) (h8 : type ≤ 8) (hl : t.keyLen = 8) (hp : t.procs = .oneWord)
  | array (h8 : 8 < type) (hl : t.keyLen = type) (hp : t.procs = .array)
      (hq : t.keyIntLen = (type.toInt32 / 4).toUInt32)
      (hr : t.keyModLen = (type.toInt32 % 4).toUInt32)

variable {t t' : HashTable} {type : UInt32} {key : Key}

theorem Format.kind (h : Format t type) : Kind t type := by
  obtain ⟨hl, hi, hm, hp⟩ := h
  unfold initHashTable at hl hi hm hp
  dsimp only at hl hi hm hp
  by_cases h0 : type = 0
  · rw [if_pos h0] at hl hi hm hp
    exact .string h0 (hl.trans h0) hp
  · rw [if_neg h0] at hl hi hm hp
    by_cases h8 : type ≤ 8
    · rw [if_pos h8] at hl hi hm hp
      refine .oneWord ?_ h8 hl hp
      rw [UInt32.lt_iff_toNat_lt]
      have hne : type.toNat ≠ 0 := fun hc => h0 (UInt32.toNat_inj.mp hc)
      exact Nat.pos_of_ne_zero hne
    · rw [if_neg h8] at hl hi hm hp
      exact .array (UInt32.not_le.mp h8) hl hp hi hm

theorem and_mask_lt {i mask : UInt32} {n : Nat} (h : mask.toNat < n) : (i &&& mask).toNat < n := by
  rw [UInt32.toNat_and]
  exact Nat.lt_of_le_of_lt Nat.and_le_right h

/-- What the procedures of one type of key have in common: the bucket of the
key, the comparison, and the key that is stored. -/
structure Agree (t : HashTable) (type : UInt32) (key : Key) (idx : UInt32) (same : Key → Bool) :
    Prop where
  index : t.index key = some idx
  same_iff : ∀ k, k.HasType type → (same k = true ↔ k = key)
  find : findHashEntry t key = findIn t idx same
  create : ∀ room, createHashEntry t key room = createIn t idx same key room

theorem agree_string {s : List UInt8} (hl : t.keyLen = 0) (hp : t.procs = .string)
    (ht : type = 0) :
    Agree t type (.string s) (hashString s &&& t.mask) (fun k => s = k.chars) := by
  refine ⟨?_, ?_, ?_, ?_⟩
  · unfold HashTable.index
    rw [if_pos hl]
    rfl
  · intro k hk
    cases k with
    | string s' =>
      show decide (s = s') = true ↔ _
      rw [decide_eq_true_iff, Key.string.injEq]
      exact eq_comm
    | word w => exact absurd hk.1 (by rw [ht]; decide)
    | bytes b => exact absurd hk.1 (by rw [ht]; decide)
  · unfold findHashEntry
    rw [hp]
    rfl
  · intro room
    unfold createHashEntry
    rw [hp]
    rfl

theorem agree_oneWord {w : UInt64} (hl : t.keyLen = 8) (hp : t.procs = .oneWord) (h0 : 0 < type)
    (h8 : type ≤ 8) : Agree t type (.word w) (randomIndex t w) (fun k => k.oneWord = w) := by
  refine ⟨?_, ?_, ?_, ?_⟩
  · unfold HashTable.index
    rw [if_neg (by rw [hl]; decide), if_pos hl]
    rfl
  · intro k hk
    cases k with
    | string s => exact absurd h0 (by rw [hk.1]; decide)
    | word w' =>
      show decide (w' = w) = true ↔ _
      rw [decide_eq_true_iff, Key.word.injEq]
    | bytes b => exact absurd hk.1 (UInt32.not_lt.mpr h8)
  · unfold findHashEntry
    rw [hp]
    rfl
  · intro room
    unfold createHashEntry
    rw [hp]
    rfl

theorem agree_array {b : List UInt8} {i : UInt32} (hl : t.keyLen = type) (hp : t.procs = .array)
    (h8 : 8 < type) (hb : b.length = type.toNat) (hi : hashArray t b = some i) :
    Agree t type (.bytes b) (randomIndex t i.toUInt64) (sameBytes t (.bytes b)) := by
  have hne0 : t.keyLen ≠ 0 := by
    rw [hl]
    intro heq
    subst heq
    exact absurd h8 (by decide)
  have hne8 : t.keyLen ≠ 8 := by
    rw [hl]
    intro heq
    subst heq
    exact absurd h8 (by decide)
  -- the compared bytes and the stored ones are all bytes of the key
  have htake : ∀ b' : List UInt8, b'.length = type.toNat → b'.take t.keyLen.toNat = b' := by
    intro b' hb'
    rw [hl, ← hb', List.take_length]
  have hindex : arrayIndex t (.bytes b) = some (randomIndex t i.toUInt64) := by
    unfold arrayIndex Key.array
    rw [hi]
    rfl
  refine ⟨?_, ?_, ?_, ?_⟩
  · unfold HashTable.index
    rw [if_neg hne0, if_neg hne8]
    exact hindex
  · intro k hk
    cases k with
    | string s => exact absurd h8 (by rw [hk.1]; decide)
    | word w => exact absurd h8 (UInt32.not_lt.mpr hk.2)
    | bytes b' =>
      show decide (b.take t.keyLen.toNat = b'.take t.keyLen.toNat) = true ↔ _
      rw [htake b hb, htake b' hk.2, decide_eq_true_iff, Key.bytes.injEq]
      exact eq_comm
  · unfold findHashEntry
    rw [hp]
    show arrayFind t (.bytes b) = _
    unfold arrayFind
    rw [hindex]
    rfl
  · intro room
    unfold createHashEntry
    rw [hp]
    show arrayCreate t (.bytes b) room = _
    unfold arrayCreate
    rw [hindex]
    show createIn t _ _ (.bytes (b.take t.keyLen.toNat)) room = _
    rw [htake b hb]

/-- A word, read as an int, is what the int leaves modulo 2^32. -/
theorem toUInt32_toNat (x : Int32) : (x.toUInt32.toNat : Int) = x.toInt % 2 ^ 32 := by
  have hint : x.toInt = x.toBitVec.toInt := rfl
  have hnat : x.toUInt32.toNat = x.toBitVec.toNat := rfl
  rw [hint, hnat, BitVec.toInt_eq_toNat_cond]
  have := x.toBitVec.isLt
  split <;> omega

/-- A length beyond the greatest `int` is a negative one to div(), and then no key
can be read. -/
theorem hashArray_long {b : List UInt8} (hq : t.keyIntLen = (type.toInt32 / 4).toUInt32)
    (hr : t.keyModLen = (type.toInt32 % 4).toUInt32) (hlong : intMax < type.toNat)
    (hb : b.length = type.toNat) : hashArray t b = none := by
  have hlt := type.toNat_lt
  have hneg : type.toInt32.toInt = -((2 ^ 32 - type.toNat : Nat) : Int) := by
    have hint : type.toInt32.toInt = type.toBitVec.toInt := rfl
    have hnat : type.toNat = type.toBitVec.toNat := rfl
    unfold intMax at hlong
    rw [hint, BitVec.toInt_eq_toNat_cond, ← hnat, if_neg (by omega)]
    omega
  have h4 : (4 : Int32).toInt = 4 := rfl
  have hquot : (t.keyIntLen.toNat : Int) = -(((2 ^ 32 - type.toNat) / 4 : Nat) : Int) % 2 ^ 32 := by
    rw [hq, toUInt32_toNat, Int32.toInt_div_of_ne_right _ _ (by decide), hneg, h4, Int.neg_tdiv]
    rfl
  have hrem : (t.keyModLen.toNat : Int) = -(((2 ^ 32 - type.toNat) % 4 : Nat) : Int) % 2 ^ 32 := by
    rw [hr, toUInt32_toNat, Int32.toInt_mod, hneg, h4, Int.neg_tmod]
    rfl
  unfold intMax at hlong
  unfold hashArray
  rw [if_neg]
  omega

/-- **For every type of key, all procedures use one bucket.** -/
theorem Format.agree (h : Format t type) (htype : type.toNat ≤ intMax) (hk : key.HasType type)
    {n : Nat} (hmask : t.mask.toNat < n) :
    ∃ idx same, Agree t type key idx same ∧ idx.toNat < n := by
  cases h.kind with
  | string ht hl hp =>
    cases key with
    | string s => exact ⟨_, _, agree_string hl hp ht, and_mask_lt hmask⟩
    | word w => exact absurd hk.1 (by rw [ht]; decide)
    | bytes b => exact absurd hk.1 (by rw [ht]; decide)
  | oneWord h0 h8 hl hp =>
    cases key with
    | string s => exact absurd h0 (by rw [hk.1]; decide)
    | word w => exact ⟨_, _, agree_oneWord hl hp h0 h8, and_mask_lt hmask⟩
    | bytes b => exact absurd hk.1 (UInt32.not_lt.mpr h8)
  | array h8 hl hp hq hr =>
    cases key with
    | string s => exact absurd h8 (by rw [hk.1]; decide)
    | word w => exact absurd h8 (UInt32.not_lt.mpr hk.2)
    | bytes b =>
      -- the whole ints and the rest after them are as long as the key, so no read is outside
      have hlen : t.keyModLen.toNat ≤ 4 ∧
          t.keyIntLen.toNat * 4 + t.keyModLen.toNat ≤ b.length := by
        rw [hq, hr, quot_toNat htype, rem_toNat htype, hk.2]
        omega
      obtain ⟨i, hi⟩ : ∃ i, hashArray t b = some i := by
        unfold hashArray
        rw [if_pos hlen]
        exact ⟨_, rfl⟩
      exact ⟨_, _, agree_array hl hp h8 hk.2 hi, and_mask_lt hmask⟩

/-! ## §3. The layout. -/

/-- The sizes of a table that was rebuilt `k` times. -/
structure Sizes (t : HashTable) (k : Nat) : Prop where
  few : k ≤ 14
  numBuckets : t.numBuckets.toNat = 4 ^ (k + 1)
  rebuildSize : t.rebuildSize.toNat = 3 * 4 ^ (k + 1)
  mask : t.mask.toNat + 1 = 4 ^ (k + 1)
  downShift : t.downShift.toNat + 2 * k = 28

/-- The bucket of an entry. -/
def HashTable.place (t : HashTable) (he : HashEntry) : Nat :=
  ((t.index he.key).map UInt32.toNat).getD 0

/-- The entry, with its pointer to where it belongs. -/
def HashTable.relocate (t : HashTable) (he : HashEntry) : HashEntry :=
  { he with bucketPtr := ⟨t.array, t.place he⟩ }

/-- What a table relies on about each of its entries. -/
structure Sound (t : HashTable) (type : UInt32) (es : List HashEntry) : Prop where
  typed : ∀ he ∈ es, he.key.HasType type
  back : ∀ he ∈ es, t.relocate he = he
  fresh : ∀ he ∈ es, he.addr < t.brk
  distinct : (es.map HashEntry.addr).Nodup

/-- **Every entry is where its key says.** -/
structure Layout (t : HashTable) (type : UInt32) : Prop where
  format : Format t type
  sizes : ∃ k, Sizes t k
  length : t.buckets.length = t.numBuckets.toNat
  placed : Placed t.place t.buckets
  sound : Sound t type t.buckets.flatten
  count : t.numEntries.toNat = t.buckets.flatten.length

/-- Between two calls there is also room for one more entry. -/
structure Settled (t : HashTable) (type : UInt32) : Prop extends Layout t type where
  room : t.numEntries.toNat < t.rebuildSize.toNat

variable {es es' : List HashEntry} {he : HashEntry}

theorem Sound.perm (h : Sound t type es) (hp : es.Perm es') : Sound t type es' := by
  refine ⟨?_, ?_, ?_, ?_⟩
  · intro he hmem
    exact h.typed he (hp.symm.subset hmem)
  · intro he hmem
    exact h.back he (hp.symm.subset hmem)
  · intro he hmem
    exact h.fresh he (hp.symm.subset hmem)
  · exact (hp.map HashEntry.addr).nodup_iff.mp h.distinct

theorem Sound.tail (h : Sound t type (he :: es)) : Sound t type es := by
  have hnodup := h.distinct
  rw [List.map_cons, List.nodup_cons] at hnodup
  refine ⟨?_, ?_, ?_, hnodup.2⟩
  · intro x hx
    exact h.typed x (List.mem_cons_of_mem he hx)
  · intro x hx
    exact h.back x (List.mem_cons_of_mem he hx)
  · intro x hx
    exact h.fresh x (List.mem_cons_of_mem he hx)

/-- An entry is known by its address. -/
theorem Sound.eq_of_addr (h : Sound t type es) {x y : HashEntry} (hx : x ∈ es) (hy : y ∈ es)
    (heq : x.addr = y.addr) : x = y :=
  List.inj_on_of_nodup_map h.distinct hx hy heq

theorem Layout.entries (h : Layout t type) : t.entries = t.buckets.flatten := by
  unfold HashTable.entries
  rw [← h.length, List.take_length]

theorem Layout.mask_lt (h : Layout t type) : t.mask.toNat < t.buckets.length := by
  obtain ⟨k, hk⟩ := h.sizes
  have hmask := hk.mask
  rw [h.length, hk.numBuckets]
  omega

theorem Agree.place {idx : UInt32} {same : Key → Bool} (h : Agree t type he.key idx same) :
    t.place he = idx.toNat := by
  unfold HashTable.place
  rw [h.index]
  rfl

/-- The part of a new table that does not depend on the type of key. -/
theorem initHashTable_eq (type : UInt32) : ∃ keyLen keyIntLen keyModLen procs,
    initHashTable type = { HashTable.zero with
      buckets := [[], [], [], []], numBuckets := 4, rebuildSize := 12, downShift := 28, mask := 3,
      keyLen := keyLen, keyIntLen := keyIntLen, keyModLen := keyModLen, procs := procs } := by
  unfold initHashTable
  dsimp only
  split
  next => exact ⟨_, _, _, _, rfl⟩
  next =>
    split
    next => exact ⟨_, _, _, _, rfl⟩
    next => exact ⟨_, _, _, _, rfl⟩

theorem initHashTable_flatten (type : UInt32) : (initHashTable type).buckets.flatten = [] := by
  obtain ⟨l, i, m, p, heq⟩ := initHashTable_eq type
  rw [heq]
  rfl

theorem initHashTable_settled (type : UInt32) : Settled (initHashTable type) type := by
  have hformat : Format (initHashTable type) type := ⟨rfl, rfl, rfl, rfl⟩
  have hflat := initHashTable_flatten type
  obtain ⟨l, i, m, p, heq⟩ := initHashTable_eq type
  refine ⟨⟨hformat, ⟨0, ?_⟩, ?_, ?_, ?_, ?_⟩, ?_⟩
  · rw [heq]
    exact ⟨by decide, rfl, rfl, rfl, rfl⟩
  · rw [heq]
    rfl
  · have hnil : (initHashTable type).buckets = List.replicate 4 [] := by
      rw [heq]
      rfl
    rw [hnil]
    exact Placed.replicate _ 4
  · rw [hflat]
    refine ⟨?_, ?_, ?_, List.nodup_nil⟩ <;>
    · intro he hmem
      exact absurd hmem (by simp)
  · rw [hflat, heq]
    rfl
  · rw [heq]
    show (0 : UInt32).toNat < (12 : UInt32).toNat
    decide

/-! ## §4. Finding. -/

/-- **A find sees all entries with its key.** -/
theorem Layout.find (h : Layout t type) (htype : type.toNat ≤ intMax) (hk : key.HasType type) :
    (∃ he, findHashEntry t key = some (some he) ∧ he ∈ t.buckets.flatten ∧ he.key = key) ∨
    (findHashEntry t key = some none ∧ ∀ he ∈ t.buckets.flatten, he.key ≠ key) := by
  obtain ⟨idx, same, hagree, hidx⟩ := h.format.agree htype hk h.mask_lt
  rw [hagree.find]
  rcases h.placed.lookup_spec hidx (fun he => same he.key) with
    ⟨he, hfound, hmem, hsame⟩ | ⟨hnone, hall⟩
  · exact .inl ⟨he, hfound, hmem, (hagree.same_iff he.key (h.sound.typed he hmem)).mp hsame⟩
  · refine .inr ⟨hnone, ?_⟩
    intro he hmem hkey
    subst hkey
    -- an entry with the key would be in the bucket that was searched
    have hnot := hall he hmem hagree.place
    rw [(hagree.same_iff he.key hk).mpr rfl] at hnot
    exact absurd hnot (by decide)

/-- No search is made for a key that cannot be read. -/
theorem Format.find_long (h : Format t type) (hlong : intMax < type.toNat)
    (hk : key.HasType type) : findHashEntry t key = none := by
  have h8 : 8 < type := by
    rw [UInt32.lt_iff_toNat_lt]
    unfold intMax at hlong
    show 8 < type.toNat
    omega
  cases h.kind with
  | string ht => exact absurd h8 (by rw [ht]; decide)
  | oneWord _ hle => exact absurd h8 (UInt32.not_lt.mpr hle)
  | array _ hl hp hq hr =>
    cases key with
    | string s => exact absurd h8 (by rw [hk.1]; decide)
    | word w => exact absurd h8 (UInt32.not_lt.mpr hk.2)
    | bytes b =>
      unfold findHashEntry
      rw [hp]
      show (arrayIndex t (.bytes b)).bind _ = none
      unfold arrayIndex Key.array
      rw [hashArray_long hq hr hlong hk.2]
      rfl

/-! ## §5. Rebuilding. -/

theorem enlarged_sizes {k : Nat} (h : Sizes t k) (hk : k ≤ 13) : Sizes t.enlarged (k + 1) := by
  have hpow : 4 ^ (k + 1 + 1) = 4 ^ (k + 1) * 4 := Nat.pow_succ 4 (k + 1)
  have hle : 4 ^ (k + 1) ≤ 4 ^ 14 := Nat.pow_le_pow_right (by decide) (by omega)
  have hn := h.numBuckets
  have hr := h.rebuildSize
  have hm := h.mask
  have hd := h.downShift
  -- with at most 4 ^ 14 buckets before, none of the four fields wraps
  refine ⟨by omega, ?_, ?_, ?_, ?_⟩
  · show (t.numBuckets * 4).toNat = _
    have h4 : (4 : UInt32).toNat = 4 := rfl
    rw [UInt32.toNat_mul, h4, hn, hpow]
    omega
  · show (t.rebuildSize * 4).toNat = _
    have h4 : (4 : UInt32).toNat = 4 := rfl
    rw [UInt32.toNat_mul, h4, hr, hpow]
    omega
  · show ((t.mask <<< 2) + 3).toNat + 1 = _
    have h2 : (2 : UInt32).toNat % 32 = 2 := rfl
    have h3 : (3 : UInt32).toNat = 3 := rfl
    rw [UInt32.toNat_add, UInt32.toNat_shiftLeft, h2, h3, Nat.shiftLeft_eq, hpow]
    omega
  · show (t.downShift - 2).toNat + 2 * (k + 1) = 28
    have h2 : (2 : UInt32) ≤ t.downShift := by
      rw [UInt32.le_iff_toNat_le]
      show 2 ≤ t.downShift.toNat
      omega
    have h2' : (2 : UInt32).toNat = 2 := rfl
    rw [UInt32.toNat_sub_of_le _ _ h2, h2']
    omega

/-- Moving typed entries one after the other is a rehash. -/
theorem foldlM_moveEntry (h : Format t type) (htype : type.toNat ≤ intMax) {n : Nat}
    (hmask : t.mask.toNat < n) (hes : ∀ he ∈ es, he.key.HasType type)
    (bs : List (List HashEntry)) :
    es.foldlM (moveEntry t) bs = rehash t.place t.relocate bs es := by
  induction es generalizing bs with
  | nil => rfl
  | cons he es ih =>
    have hty := hes he List.mem_cons_self
    have hrest : ∀ x ∈ es, x.key.HasType type := fun x hx => hes x (List.mem_cons_of_mem he hx)
    obtain ⟨idx, same, hagree, -⟩ := h.agree htype hty hmask
    -- the old bucket pointer is not looked at, only the key
    have hmove : moveEntry t bs he = push bs (t.place (t.relocate he)) (t.relocate he) := by
      have hplace : t.place (t.relocate he) = idx.toNat := hagree.place
      unfold moveEntry
      rw [hagree.index, hplace]
      unfold HashTable.relocate
      rw [hagree.place]
      rfl
    unfold rehash at ih ⊢
    rw [List.foldlM_cons, List.foldlM_cons, hmove]
    exact bind_congr (fun bs' => ih hrest bs')

/-- **A rebuild keeps all entries**, each with a new pointer to its bucket. -/
theorem Layout.rebuild (h : Layout t type) (htype : type.toNat ≤ intMax) {k : Nat}
    (hk : Sizes t k) (hfew : k ≤ 13) :
    ∃ t', rebuildTable t = some t' ∧ Layout t' type ∧ Sizes t' (k + 1) ∧
      t'.numEntries = t.numEntries ∧
      t'.buckets.flatten.Perm (t.buckets.flatten.map t'.relocate) := by
  have hsizes := enlarged_sizes hk hfew
  have hformat : Format t.enlarged type :=
    ⟨h.format.keyLen, h.format.keyIntLen, h.format.keyModLen, h.format.procs⟩
  have hempty : t.enlarged.buckets = List.replicate t.enlarged.numBuckets.toNat [] := rfl
  have hlen : t.enlarged.buckets.length = t.enlarged.numBuckets.toNat := by
    rw [hempty, List.length_replicate]
  have hmask : t.enlarged.mask.toNat < t.enlarged.buckets.length := by
    have hm := hsizes.mask
    rw [hlen, hsizes.numBuckets]
    omega
  have hplaced : Placed t.enlarged.place t.enlarged.buckets := by
    rw [hempty]
    exact Placed.replicate _ _
  have hfits : ∀ he ∈ t.buckets.flatten,
      t.enlarged.place (t.enlarged.relocate he) < t.enlarged.buckets.length := by
    intro he hmem
    obtain ⟨idx, same, hagree, hidx⟩ := hformat.agree htype (h.sound.typed he hmem) hmask
    have hplace : t.enlarged.place (t.enlarged.relocate he) = idx.toNat := hagree.place
    rw [hplace]
    exact hidx
  -- the walk meets the entries in some order, the new chains keep another one
  obtain ⟨bs, hbs, hlen', hplaced', hperm⟩ := rehash_spec hplaced hfits
  have hnil : t.enlarged.buckets.flatten = [] := by
    rw [hempty]
    exact flatten_replicate_nil _
  rw [hnil, List.append_nil] at hperm
  refine ⟨{ t.enlarged with buckets := bs }, ?_, ⟨?_, ⟨k + 1, ?_⟩, ?_, hplaced', ?_, ?_⟩, ?_,
    rfl, hperm⟩
  · have hentries := h.entries
    unfold HashTable.entries at hentries
    unfold rebuildTable
    rw [hentries, foldlM_moveEntry hformat htype hmask h.sound.typed, hbs]
    rfl
  · exact ⟨hformat.keyLen, hformat.keyIntLen, hformat.keyModLen, hformat.procs⟩
  · exact ⟨hsizes.few, hsizes.numBuckets, hsizes.rebuildSize, hsizes.mask, hsizes.downShift⟩
  · exact hlen'.trans hlen
  · refine Sound.perm ?_ hperm.symm
    refine ⟨?_, ?_, ?_, ?_⟩
    · intro he hmem
      obtain ⟨x, hx, rfl⟩ := List.mem_map.mp hmem
      exact h.sound.typed x hx
    · intro he hmem
      obtain ⟨x, hx, rfl⟩ := List.mem_map.mp hmem
      rfl
    · intro he hmem
      obtain ⟨x, hx, rfl⟩ := List.mem_map.mp hmem
      exact h.sound.fresh x hx
    · rw [List.map_map]
      exact h.sound.distinct
  · show t.numEntries.toNat = bs.flatten.length
    rw [hperm.length_eq, List.length_map]
    exact h.count
  · exact ⟨hsizes.few, hsizes.numBuckets, hsizes.rebuildSize, hsizes.mask, hsizes.downShift⟩

/-! ## §6. Creating, setting, deleting. -/

/-- The number of entries that the largest table makes room for. -/
def maxEntries : Nat := 12 * 4 ^ 14

/-- The largest table is full with this number of entries. -/
theorem Sizes.rebuildSize_le {k : Nat} (h : Sizes t k) : t.rebuildSize.toNat ≤ maxEntries := by
  have hfew := h.few
  have hpow : 4 ^ (k + 1) ≤ 4 ^ 15 := Nat.pow_le_pow_right (by decide) (by omega)
  rw [h.rebuildSize]
  unfold maxEntries
  omega

/-- The largest table is not rebuilt: the size of its array would wrap to 0. -/
theorem Layout.rebuild_full (h : Layout t type) (hk : Sizes t 14)
    (hne : t.buckets.flatten ≠ []) : rebuildTable t = none := by
  have hzero : (t.numBuckets * 4).toNat = 0 := by
    have h4 : (4 : UInt32).toNat = 4 := rfl
    rw [UInt32.toNat_mul, h4, hk.numBuckets]
    decide
  have hempty : t.enlarged.buckets = [] := by
    show List.replicate (t.numBuckets * 4).toNat [] = []
    rw [hzero]
    rfl
  have hentries := h.entries
  unfold HashTable.entries at hentries
  unfold rebuildTable
  rw [hentries, hempty]
  cases hflat : t.buckets.flatten with
  | nil => exact absurd hflat hne
  | cons he es =>
    have hmove : moveEntry t.enlarged [] he = none := by
      unfold moveEntry
      cases t.enlarged.index he.key with
      | none => rfl
      | some idx => rfl
    rw [List.foldlM_cons, hmove]
    rfl

theorem Layout.relocate_all (h : Layout t type) :
    t.buckets.flatten.map t.relocate = t.buckets.flatten := by
  have hmap := List.map_congr_left h.sound.back
  rw [hmap, List.map_id']

/-- Other entries in the same buckets. -/
theorem Layout.replace (h : Layout t type) {bs : List (List HashEntry)} {n : UInt32} {brk : Nat}
    (hlen : bs.length = t.buckets.length) (hplaced : Placed t.place bs)
    (hsound : Sound { t with brk := brk } type bs.flatten)
    (hcount : n.toNat = bs.flatten.length) :
    Layout { t with buckets := bs, numEntries := n, brk := brk } type := by
  obtain ⟨k, hk⟩ := h.sizes
  refine ⟨?_, ⟨k, ?_⟩, hlen.trans h.length, hplaced, ?_, hcount⟩
  · exact ⟨h.format.keyLen, h.format.keyIntLen, h.format.keyModLen, h.format.procs⟩
  · exact ⟨hk.few, hk.numBuckets, hk.rebuildSize, hk.mask, hk.downShift⟩
  · exact ⟨hsound.typed, hsound.back, hsound.fresh, hsound.distinct⟩

/-- An entry for a key that is not there yet. -/
def HashTable.newEntry (t : HashTable) (key : Key) : HashEntry where
  addr := t.brk
  bucketPtr := ⟨t.array, ((t.index key).map UInt32.toNat).getD 0⟩
  clientData := 0
  key := key

/-- The table with one more entry, before it is rebuilt. -/
def HashTable.withNew (t : HashTable) (bs : List (List HashEntry)) : HashTable :=
  { t with buckets := bs, numEntries := t.numEntries + 1, brk := t.brk + 1 }

theorem Sound.cons_newEntry (h : Sound t type es) (hk : key.HasType type) :
    Sound { t with brk := t.brk + 1 } type (t.newEntry key :: es) := by
  refine ⟨?_, ?_, ?_, ?_⟩
  · intro he hmem
    rcases List.mem_cons.mp hmem with rfl | hmem
    · exact hk
    · exact h.typed he hmem
  · intro he hmem
    rcases List.mem_cons.mp hmem with rfl | hmem
    · rfl
    · exact h.back he hmem
  · intro he hmem
    show he.addr < t.brk + 1
    rcases List.mem_cons.mp hmem with rfl | hmem
    · exact Nat.lt_succ_self t.brk
    · exact Nat.lt_succ_of_lt (h.fresh he hmem)
  · rw [List.map_cons, List.nodup_cons]
    refine ⟨?_, h.distinct⟩
    -- all addresses so far are below the one that is handed out
    intro hmem
    obtain ⟨he, hin, haddr⟩ := List.mem_map.mp hmem
    have hlt := h.fresh he hin
    rw [haddr] at hlt
    exact absurd hlt (Nat.lt_irrefl t.brk)

theorem Layout.findIn_absent (h : Layout t type) (htype : type.toNat ≤ intMax)
    (hk : key.HasType type) {idx : UInt32} {same : Key → Bool} (hagree : Agree t type key idx same)
    (habsent : ∀ he ∈ t.buckets.flatten, he.key ≠ key) : findIn t idx same = some none := by
  rcases h.find htype hk with ⟨he, -, hmem, hkey⟩ | ⟨hnone, -⟩
  · exact absurd hkey (habsent he hmem)
  · rwa [hagree.find] at hnone

/-- What a create does after it has found nothing. -/
theorem createIn_absent {idx : UInt32} {same : Key → Bool} {bs : List (List HashEntry)}
    (hnone : findIn t idx same = some none)
    (hbs : push t.buckets idx.toNat ⟨t.brk, ⟨t.array, idx.toNat⟩, 0, key⟩ = some bs) :
    createIn t idx same key true =
      if t.rebuildSize ≤ t.numEntries + 1 then
        (rebuildTable (t.withNew bs)).map (fun t' => (some t.brk, true, t'))
      else some (some t.brk, true, t.withNew bs) := by
  unfold createIn
  rw [hnone]
  show (push t.buckets idx.toNat ⟨t.brk, ⟨t.array, idx.toNat⟩, 0, key⟩).bind _ = _
  rw [hbs]
  show (if t.rebuildSize ≤ t.numEntries + 1 then _ else _) = _
  split
  next =>
    show (rebuildTable (t.withNew bs)).bind (fun t' => some (some t.brk, true, t')) = _
    rw [Option.map_eq_bind]
    rfl
  next => rfl

/-- A create of a key that is not there: the table with the new entry, which is
rebuilt if it must be. -/
theorem Settled.create_eq (h : Settled t type) (htype : type.toNat ≤ intMax)
    (hk : key.HasType type) (habsent : ∀ he ∈ t.buckets.flatten, he.key ≠ key) :
    ∃ bs, createHashEntry t key true =
        (if t.rebuildSize ≤ t.numEntries + 1 then
          (rebuildTable (t.withNew bs)).map (fun t' => (some t.brk, true, t'))
        else some (some t.brk, true, t.withNew bs)) ∧
      Layout (t.withNew bs) type ∧ bs.flatten.Perm (t.newEntry key :: t.buckets.flatten) ∧
      (t.numEntries + 1).toNat = t.buckets.flatten.length + 1 := by
  obtain ⟨idx, same, hagree, hidx⟩ := h.format.agree htype hk h.mask_lt
  have hnew : t.newEntry key = ⟨t.brk, ⟨t.array, idx.toNat⟩, 0, key⟩ := by
    unfold HashTable.newEntry
    rw [hagree.index]
    rfl
  have hplace : t.place (t.newEntry key) = idx.toNat := hagree.place
  obtain ⟨bs, hbs, hlen, hplaced, hperm⟩ := h.placed.push (e := t.newEntry key) (by rwa [hplace])
  rw [hplace, hnew] at hbs
  have hnone := h.findIn_absent htype hk hagree habsent
  have hroom := h.room
  -- below rebuildSize the count does not wrap
  have hcount : (t.numEntries + 1).toNat = t.buckets.flatten.length + 1 := by
    have hone : (1 : UInt32).toNat = 1 := rfl
    have hlt := t.rebuildSize.toNat_lt
    rw [UInt32.toNat_add, hone, Nat.mod_eq_of_lt (by omega), h.count]
  have hsound : Sound { t with brk := t.brk + 1 } type bs.flatten :=
    (h.sound.cons_newEntry hk).perm hperm.symm
  refine ⟨bs, ?_, h.replace hlen hplaced hsound ?_, hperm, hcount⟩
  · rw [hagree.create, createIn_absent hnone hbs]
  · rw [hcount, hperm.length_eq, List.length_cons]

/-- **A create adds one entry**, and rebuilds the table if it must. -/
theorem Settled.create (h : Settled t type) (htype : type.toNat ≤ intMax)
    (hk : key.HasType type) (habsent : ∀ he ∈ t.buckets.flatten, he.key ≠ key)
    (hfew : t.buckets.flatten.length + 1 < maxEntries) :
    ∃ t', createHashEntry t key true = some (some t.brk, true, t') ∧ Settled t' type ∧
      t'.buckets.flatten.Perm ((t.newEntry key :: t.buckets.flatten).map t'.relocate) := by
  obtain ⟨bs, hcreate, hlayout, hperm, hcount⟩ := h.create_eq htype hk habsent
  obtain ⟨k, hsizes⟩ := h.sizes
  have hroom := h.room
  rw [hcreate]
  by_cases hfull : t.rebuildSize ≤ t.numEntries + 1
  · -- the table is full at this size, so it is not the largest one
    have hrebuild := hsizes.rebuildSize
    have hle := UInt32.le_iff_toNat_le.mp hfull
    rw [hcount] at hle
    have hk13 : k + 1 < 15 := by
      have hpow : (4 : Nat) ^ (k + 1) < 4 ^ 15 := by
        unfold maxEntries at hfew
        omega
      exact (Nat.pow_lt_pow_iff_right (by decide)).mp hpow
    have hsizes' : Sizes (t.withNew bs) k :=
      ⟨hsizes.few, hsizes.numBuckets, hsizes.rebuildSize, hsizes.mask, hsizes.downShift⟩
    obtain ⟨t', ht', hl', hs', hn', hp'⟩ := hlayout.rebuild htype hsizes' (by omega)
    refine ⟨t', ?_, ⟨hl', ?_⟩, hp'.trans (hperm.map t'.relocate)⟩
    · rw [if_pos hfull, ht']
      rfl
    · have hpow : 4 ^ (k + 1 + 1) = 4 ^ (k + 1) * 4 := Nat.pow_succ 4 (k + 1)
      rw [hn', hs'.rebuildSize, hpow]
      show (t.numEntries + 1).toNat < _
      have hcount' := h.count
      omega
  · have hlt : (t.numEntries + 1).toNat < t.rebuildSize.toNat := by
      rw [UInt32.le_iff_toNat_le] at hfull
      omega
    refine ⟨_, ?_, ⟨hlayout, hlt⟩, ?_⟩
    · rw [if_neg hfull]
    · have hall : bs.flatten.map (t.withNew bs).relocate = bs.flatten := hlayout.relocate_all
      have hmap := hperm.map (t.withNew bs).relocate
      rw [hall] at hmap
      exact hmap

/-- With the last entry that the largest table has room for, the rebuild fails. -/
theorem Settled.create_full (h : Settled t type) (htype : type.toNat ≤ intMax)
    (hk : key.HasType type) (habsent : ∀ he ∈ t.buckets.flatten, he.key ≠ key)
    (hfull : maxEntries ≤ t.buckets.flatten.length + 1) : createHashEntry t key true = none := by
  obtain ⟨bs, hcreate, hlayout, hperm, hcount⟩ := h.create_eq htype hk habsent
  obtain ⟨k, hsizes⟩ := h.sizes
  have hroom := h.room
  have hfew := hsizes.few
  have hk14 : k = 14 := by
    have hpow : (4 : Nat) ^ 15 ≤ 4 ^ (k + 1) := by
      have hrebuild := hsizes.rebuildSize
      have hcount' := h.count
      unfold maxEntries at hfull
      omega
    have := (Nat.pow_le_pow_iff_right (by decide)).mp hpow
    omega
  subst hk14
  have hle : t.rebuildSize ≤ t.numEntries + 1 := by
    rw [UInt32.le_iff_toNat_le, hcount]
    exact hsizes.rebuildSize_le.trans hfull
  have hsizes' : Sizes (t.withNew bs) 14 :=
    ⟨hsizes.few, hsizes.numBuckets, hsizes.rebuildSize, hsizes.mask, hsizes.downShift⟩
  have hne : (t.withNew bs).buckets.flatten ≠ [] := by
    intro hnil
    have hlen := hperm.length_eq
    rw [show bs.flatten = [] from hnil] at hlen
    exact absurd hlen (by simp)
  rw [hcreate, if_pos hle, hlayout.rebuild_full hsizes' hne]
  rfl

/-- Without memory for it, there is no new entry. -/
theorem Layout.create_noRoom (h : Layout t type) (htype : type.toNat ≤ intMax)
    (hk : key.HasType type) (habsent : ∀ he ∈ t.buckets.flatten, he.key ≠ key) :
    createHashEntry t key false = some (none, false, t) := by
  obtain ⟨idx, same, hagree, hidx⟩ := h.format.agree htype hk h.mask_lt
  have hnone := h.findIn_absent htype hk hagree habsent
  rw [hagree.create]
  unfold createIn
  rw [hnone]
  rfl

/-- The entry with another value, if it is the one at the address. -/
def HashEntry.setAt (addr : Nat) (value : Value) (hPtr : HashEntry) : HashEntry :=
  if hPtr.addr = addr then { hPtr with clientData := value } else hPtr

theorem setAt_self (he : HashEntry) (value : Value) :
    he.setAt he.addr value = { he with clientData := value } := by
  unfold HashEntry.setAt
  rw [if_pos rfl]

theorem setAt_of_ne {addr : Nat} (hne : he.addr ≠ addr) (value : Value) :
    he.setAt addr value = he := by
  unfold HashEntry.setAt
  rw [if_neg hne]

/-- Only the value changes. -/
theorem setAt_frame (addr : Nat) (value : Value) (he : HashEntry) :
    (he.setAt addr value).key = he.key ∧ (he.setAt addr value).addr = he.addr ∧
      (he.setAt addr value).bucketPtr = he.bucketPtr := by
  unfold HashEntry.setAt
  split
  next => exact ⟨rfl, rfl, rfl⟩
  next => exact ⟨rfl, rfl, rfl⟩

theorem Sound.setAt (h : Sound t type es) (addr : Nat) (value : Value) :
    Sound t type (es.map (HashEntry.setAt addr value)) := by
  refine ⟨?_, ?_, ?_, ?_⟩
  · intro he hmem
    obtain ⟨x, hx, rfl⟩ := List.mem_map.mp hmem
    rw [(setAt_frame addr value x).1]
    exact h.typed x hx
  · intro he hmem
    obtain ⟨x, hx, rfl⟩ := List.mem_map.mp hmem
    have hback : (⟨t.array, t.place x⟩ : Slot) = x.bucketPtr :=
      congrArg HashEntry.bucketPtr (h.back x hx)
    obtain ⟨hkey, -, hptr⟩ := setAt_frame addr value x
    have hplace : t.place (x.setAt addr value) = t.place x := by
      unfold HashTable.place
      rw [hkey]
    unfold HashTable.relocate
    rw [hplace, hback, ← hptr]
  · intro he hmem
    obtain ⟨x, hx, rfl⟩ := List.mem_map.mp hmem
    rw [(setAt_frame addr value x).2.1]
    exact h.fresh x hx
  · have haddr : (es.map (HashEntry.setAt addr value)).map HashEntry.addr =
        es.map HashEntry.addr := by
      rw [List.map_map]
      exact List.map_congr_left (fun x _ => (setAt_frame addr value x).2.1)
    rw [haddr]
    exact h.distinct

/-- **A new value changes one entry.** -/
theorem Settled.setValue (h : Settled t type) (hp : t.buckets.flatten.Perm (he :: es))
    (v : Value) : Settled (setHashValue t he.addr v) type ∧
      (setHashValue t he.addr v).buckets.flatten.Perm ({ he with clientData := v } :: es) := by
  have hflat : (t.buckets.map (List.map (HashEntry.setAt he.addr v))).flatten =
      t.buckets.flatten.map (HashEntry.setAt he.addr v) := flatten_map _
  have hplaced : Placed t.place (t.buckets.map (List.map (HashEntry.setAt he.addr v))) := by
    apply h.placed.map
    intro x
    unfold HashTable.place
    rw [(setAt_frame he.addr v x).1]
  have hlayout : Layout (setHashValue t he.addr v) type := by
    have hsound := h.sound.setAt he.addr v
    have hcount : t.numEntries.toNat =
        (t.buckets.map (List.map (HashEntry.setAt he.addr v))).flatten.length := by
      rw [hflat, List.length_map]
      exact h.count
    rw [← hflat] at hsound
    exact h.replace (List.length_map _) hplaced hsound hcount
  refine ⟨⟨hlayout, h.room⟩, ?_⟩
  -- no other entry is at the address
  have hrest : es.map (HashEntry.setAt he.addr v) = es := by
    have hnodup := (h.sound.perm hp).distinct
    rw [List.map_cons, List.nodup_cons] at hnodup
    have hother : ∀ x ∈ es, x.setAt he.addr v = x := by
      intro x hx
      refine setAt_of_ne ?_ v
      intro heq
      exact hnodup.1 (List.mem_map.mpr ⟨x, hx, heq⟩)
    rw [List.map_congr_left hother, List.map_id']
  have hperm := hp.map (HashEntry.setAt he.addr v)
  rw [List.map_cons, setAt_self, hrest] at hperm
  show ((t.buckets.map (List.map (HashEntry.setAt he.addr v))).flatten).Perm _
  rw [hflat]
  exact hperm

/-- **A delete removes its entry.** -/
theorem Settled.delete (h : Settled t type) (hmem : he ∈ t.buckets.flatten) :
    ∃ t', deleteHashEntry t he = some t' ∧ Settled t' type ∧
      t.buckets.flatten.Perm (he :: t'.buckets.flatten) := by
  have hback : (⟨t.array, t.place he⟩ : Slot) = he.bucketPtr :=
    congrArg HashEntry.bucketPtr (h.sound.back he hmem)
  have hsame : decide (he.addr = he.addr) = true := decide_eq_true rfl
  obtain ⟨x, bs, hbs, hx, hlen, hplaced, hperm⟩ :=
    h.placed.remove hmem (p := fun x => decide (x.addr = he.addr)) hsame
  have hxmem : x ∈ t.buckets.flatten := hperm.symm.subset List.mem_cons_self
  -- the entry at the address is the entry itself
  obtain rfl : x = he := h.sound.eq_of_addr hxmem hmem (of_decide_eq_true hx)
  have hcount : t.numEntries.toNat = bs.flatten.length + 1 := by
    rw [h.count, hperm.length_eq, List.length_cons]
  have hone : (1 : UInt32).toNat = 1 := rfl
  have hpred : (t.numEntries - 1).toNat = bs.flatten.length := by
    have hle : 1 ≤ t.numEntries := by
      rw [UInt32.le_iff_toNat_le, hone]
      omega
    rw [UInt32.toNat_sub_of_le _ _ hle, hone]
    omega
  have hroom := h.room
  have hlayout := h.replace hlen hplaced (h.sound.perm hperm).tail hpred
  refine ⟨{ t with buckets := bs, numEntries := t.numEntries - 1 }, ?_, ⟨hlayout, ?_⟩, hperm⟩
  · unfold deleteHashEntry
    rw [← hback, if_pos rfl, hbs]
    rfl
  · show (t.numEntries - 1).toNat < t.rebuildSize.toNat
    omega

end Mccp.Hashmap
