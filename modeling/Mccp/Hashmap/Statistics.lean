/-
  Mccp.Hashmap.Statistics
  ───────────────────────
  **THE LOAD OF A TABLE, AND WHAT ITS STATISTICS SAY.**

  HashStats() walks over the buckets and keeps a histogram of their lengths,
  with one counter for all long ones, and a sum for the average search
  distance.  Whatever calls have been made before, the counters account for
  every bucket, and the average is that of the places at which a search meets
  the entries of the map, as far as the rounding of its doubles goes.

      Stats.tally     — one round of the loop of HashStats()
      statistics      — mccp_hashmap_statistics()
      HashTable.distance — how many entries a search for a key looks at
      addend_near     — the rounding of what a bucket adds to the sum
      statistics_right — the load and the statistics of every reachable map

  The arithmetic of doubles is a parameter, the rounding `fl` that follows each
  operation.  The average is what is handed to snprintf(), which prints one digit
  of it behind the point.
-/
import Mathlib.Algebra.BigOperators.Ring.Finset
import Mathlib.Algebra.Order.Ring.Rat
import Mathlib.Tactic.Ring
import Mccp.Hashmap.Refinement
import Mccp.Lib.Floating

namespace Mccp.Hashmap

open Chains Floating

/-! ## §1. The statistics. -/

/-- `NUM_COUNTERS`. -/
def numCounters : Nat := 10

/-- What HashStats() prints; `average` is `none` where the double is not a number. -/
structure Stats where
  numEntries : UInt32
  numBuckets : UInt32
  count : List Nat
  overflow : Nat
  average : Option ℚ

/-- `(tmp+1.0)*(tmp/tablePtr->numEntries)/2.0`, rounded by `fl` after each operation. -/
def addend (fl : ℚ → ℚ) (numEntries : UInt32) (j : Nat) : ℚ :=
  fl (fl (fl (j + 1) * fl (j / numEntries.toNat)) / 2)

/-- What a bucket with `j` entries adds to the sum: `tmp/tablePtr->numEntries` is
not a number where there are none. -/
def share (fl : ℚ → ℚ) (numEntries : UInt32) (j : Nat) : Option ℚ :=
  if numEntries = 0 then none else some (addend fl numEntries j)

/-- The counters once a bucket with `j` entries has been seen. -/
def Stats.tally (fl : ℚ → ℚ) (s : Stats) (j : Nat) : Stats :=
  { s with
    count := if j < numCounters then s.count.modify j (· + 1) else s.count
    overflow := if j < numCounters then s.overflow else s.overflow + 1
    average := do return fl ((← s.average) + (← share fl s.numEntries j)) }

/-- `HashStats`, up to the text that it makes of the numbers. -/
def hashStats (fl : ℚ → ℚ) (t : HashTable) : Stats :=
  ((t.buckets.take t.numBuckets.toNat).map List.length).foldl (Stats.tally fl) {
    numEntries := t.numEntries
    numBuckets := t.numBuckets
    count := List.replicate numCounters 0
    overflow := 0
    average := some 0 }

/-- `mccp_hashmap_statistics`; `room` tells whether malloc() succeeds. -/
def statistics (fl : ℚ → ℚ) (hm : Record) (room : Bool) : Result × Option Stats :=
  if hm.m_is_operational then
    if room then (.ok, some (hashStats fl hm.m_hashtable)) else (.noMemory, none)
  else (.notOperational, none)

/-- What is asked of the arithmetic: a result that is neither tiny nor huge is off
by half a unit in the last of its 53 digits. -/
abbrev IsDouble (fl : ℚ → ℚ) : Prop := Rounds fl (1 / 2 ^ 53) (1 / 2 ^ 100) (2 ^ 100)

/-- How many entries the search for a key looks at: those up to the one with the
key in its bucket. -/
def HashTable.distance (t : HashTable) (key : Key) : Nat :=
  match t.index key with
  | some idx => ((t.buckets[idx.toNat]?).getD []).findIdx (fun he => he.key = key) + 1
  | none => 0

/-- The mean of these, over the keys of a map. -/
def HashTable.meanDistance (t : HashTable) (m : Map Key Value) : ℚ :=
  (∑ key ∈ m.keys, t.distance key : Nat) / (m.keys.card : ℚ)

/-! ## §2. The loop. -/

variable {fl : ℚ → ℚ}

/-- The counters of a loop over buckets of the lengths `js`. -/
theorem foldl_tally_count (js : List Nat) : ∀ (s : Stats) (i : Nat), i < numCounters →
    s.count.length = numCounters →
    (js.foldl (Stats.tally fl) s).count[i]? = (s.count[i]?).map (· + js.count i) := by
  induction js with
  | nil => intro s i _ _; simp
  | cons j js ih =>
    intro s i hi hlen
    have hlen' : (s.tally fl j).count.length = numCounters := by
      unfold Stats.tally
      split <;> simpa using hlen
    rw [List.foldl_cons, ih _ i hi hlen', List.count_cons]
    unfold Stats.tally
    by_cases hj : j < numCounters
    · simp only [if_pos hj, List.getElem?_modify]
      by_cases hij : j = i
      · subst hij
        cases s.count[j]? with
        | none => rfl
        | some n => simp [Nat.add_comm, Nat.add_left_comm]
      · cases s.count[i]? with
        | none => rfl
        | some n => simp [hij]
    · have hne : j ≠ i := by
        intro hji
        exact hj (hji ▸ hi)
      simp [hj, hne]

theorem foldl_tally_length (js : List Nat) : ∀ s : Stats,
    (js.foldl (Stats.tally fl) s).count.length = s.count.length := by
  induction js with
  | nil => exact fun _ => rfl
  | cons j js ih =>
    intro s
    rw [List.foldl_cons, ih]
    unfold Stats.tally
    split <;> simp

theorem foldl_tally_overflow (js : List Nat) : ∀ s : Stats,
    (js.foldl (Stats.tally fl) s).overflow = s.overflow + js.countP (numCounters ≤ ·) := by
  induction js with
  | nil => intro s; simp
  | cons j js ih =>
    intro s
    rw [List.foldl_cons, ih, List.countP_cons]
    unfold Stats.tally
    by_cases hj : j < numCounters
    · simp [hj]
    · simp only [if_neg hj, Nat.not_lt.mp hj, decide_true, if_true]
      omega

theorem foldl_tally_numEntries (js : List Nat) : ∀ s : Stats,
    (js.foldl (Stats.tally fl) s).numEntries = s.numEntries ∧
      (js.foldl (Stats.tally fl) s).numBuckets = s.numBuckets := by
  induction js with
  | nil => exact fun _ => ⟨rfl, rfl⟩
  | cons j js ih => exact fun s => ih (s.tally fl j)

theorem countP_lt_succ (js : List Nat) (n : Nat) :
    js.countP (· < n + 1) = js.countP (· < n) + js.count n := by
  induction js with
  | nil => rfl
  | cons j js ih =>
    simp only [List.countP_cons, List.count_cons, decide_eq_true_eq, beq_iff_eq]
    rw [ih]
    split <;> split <;> split <;> omega

/-- The counters of all short buckets. -/
theorem sum_count (js : List Nat) (n : Nat) :
    ((List.range n).map js.count).sum = js.countP (· < n) := by
  induction n with
  | zero => simp
  | succ n ih =>
    rw [List.range_succ, List.map_append, List.sum_append, ih, countP_lt_succ]
    simp

/-- The sum that becomes the average, in a table with entries. -/
theorem foldl_tally_average (js : List Nat) : ∀ (s : Stats) (a : ℚ), s.numEntries ≠ 0 →
    s.average = some a → (js.foldl (Stats.tally fl) s).average =
      some (js.foldl (fun a j => fl (a + addend fl s.numEntries j)) a) := by
  induction js with
  | nil => exact fun s a _ ha => ha
  | cons j js ih =>
    intro s a hn ha
    have hnext : (s.tally fl j).average = some (fl (a + addend fl s.numEntries j)) := by
      unfold Stats.tally share
      rw [if_neg hn, ha]
      rfl
    exact ih (s.tally fl j) _ hn hnext

/-- Once the sum is not a number, it stays so. -/
theorem foldl_tally_nan (js : List Nat) : ∀ s : Stats, s.average = none →
    (js.foldl (Stats.tally fl) s).average = none := by
  induction js with
  | nil => exact fun _ h => h
  | cons j js ih =>
    intro s h
    refine ih (s.tally fl j) ?_
    unfold Stats.tally
    rw [h]
    rfl

/-! ## §3. The rounding. -/

/-- The part of the entries that is in a bucket is none or not tiny. -/
theorem part_range {numEntries : UInt32} (hn : numEntries ≠ 0) {j : Nat}
    (hj : j ≤ numEntries.toNat) :
    ((j / numEntries.toNat : ℚ) = 0 ∨ 1 / 2 ^ 32 ≤ (j / numEntries.toNat : ℚ)) ∧
      0 ≤ (j / numEntries.toNat : ℚ) ∧ (j / numEntries.toNat : ℚ) ≤ 1 := by
  have hpos : 0 < numEntries.toNat := Nat.pos_of_ne_zero fun h => hn (UInt32.toNat_inj.mp h)
  have hN : (0 : ℚ) < numEntries.toNat := by exact_mod_cast hpos
  have hlt : (numEntries.toNat : ℚ) ≤ 2 ^ 32 := by exact_mod_cast numEntries.toNat_lt.le
  refine ⟨?_, by positivity, ?_⟩
  · rcases Nat.eq_zero_or_pos j with rfl | hjpos
    · exact .inl (by simp)
    · refine .inr (div_le_div₀ (by positivity) ?_ hN hlt)
      exact_mod_cast hjpos
  · rw [div_le_one hN]
    exact_mod_cast hj

/-- Times the length of the bucket and one, it is none or not tiny either, and not
huge. -/
theorem product_range {numEntries : UInt32} (hn : numEntries ≠ 0) {j : Nat}
    (hj : j ≤ numEntries.toNat) :
    (((j : ℚ) + 1) * (j / numEntries.toNat) = 0 ∨
        1 / 2 ^ 32 ≤ ((j : ℚ) + 1) * (j / numEntries.toNat)) ∧
      ((j : ℚ) + 1) * (j / numEntries.toNat) ≤ 2 ^ 32 := by
  obtain ⟨hlow, hnonneg, hone⟩ := part_range hn hj
  have hj0 : (0 : ℚ) ≤ j := Nat.cast_nonneg j
  have hjmax : (j : ℚ) + 1 ≤ 2 ^ 32 := by exact_mod_cast hj.trans_lt numEntries.toNat_lt
  generalize (j / numEntries.toNat : ℚ) = q at *
  constructor
  · rcases hlow with rfl | hlow
    · exact .inl (by simp)
    · exact .inr (by nlinarith)
  · calc ((j : ℚ) + 1) * q ≤ 2 ^ 32 * 1 := mul_le_mul hjmax hone hnonneg (by positivity)
      _ = 2 ^ 32 := mul_one _

/-- The exact addends are nought or not tiny, and none is huge. -/
theorem addend_range {numEntries : UInt32} (hn : numEntries ≠ 0) {j : Nat}
    (hj : j ≤ numEntries.toNat) :
    (addend id numEntries j = 0 ∨ 2 * (1 / 2 ^ 100) ≤ addend id numEntries j) ∧
      addend id numEntries j ≤ 2 ^ 32 := by
  obtain ⟨hlow, hhigh⟩ := product_range hn hj
  show (((j : ℚ) + 1) * (j / numEntries.toNat) / 2 = 0 ∨
      2 * (1 / 2 ^ 100) ≤ ((j : ℚ) + 1) * (j / numEntries.toNat) / 2) ∧
    ((j : ℚ) + 1) * (j / numEntries.toNat) / 2 ≤ 2 ^ 32
  constructor
  · rcases hlow with hzero | hlow
    · exact .inl (by rw [hzero, zero_div])
    · exact .inr (by linarith)
  · linarith

/-- **What a bucket adds to the sum is off by four roundings.** -/
theorem addend_near (hfl : IsDouble fl) {numEntries : UInt32} (hn : numEntries ≠ 0) {j : Nat}
    (hj : j ≤ numEntries.toNat) :
    Near (1 / 2 ^ 53) 4 (addend id numEntries j) (addend fl numEntries j) := by
  obtain ⟨hlow, hnonneg, hone⟩ := part_range hn hj
  obtain ⟨hprodlow, hprod⟩ := product_range hn hj
  have hj0 : (0 : ℚ) ≤ j := Nat.cast_nonneg j
  have hjmax : (j : ℚ) + 1 ≤ 2 ^ 32 := by exact_mod_cast hj.trans_lt numEntries.toNat_lt
  show Near (1 / 2 ^ 53) 4 (((j : ℚ) + 1) * (j / numEntries.toNat) / 2)
    (fl (fl (fl (j + 1) * fl (j / numEntries.toNat)) / 2))
  generalize (j / numEntries.toNat : ℚ) = q at *
  -- one rounding for each of the four operations
  have hsum : Near (1 / 2 ^ 53) 1 ((j : ℚ) + 1) (fl (j + 1)) :=
    hfl.near (by norm_num) (.inr ⟨by linarith, by linarith⟩) (.refl ..)
  have hpart : Near (1 / 2 ^ 53) 1 q (fl q) :=
    hfl.near (by norm_num) (hlow.imp_right fun h => ⟨by linarith, by linarith⟩) (.refl ..)
  have hmul : Near (1 / 2 ^ 53) 3 (((j : ℚ) + 1) * q) (fl (fl (j + 1) * fl q)) :=
    hfl.near (by norm_num) (hprodlow.imp_right fun h => ⟨by linarith, by linarith⟩)
      (hsum.mul hfl.nonneg hfl.le_one (by linarith) hnonneg hpart)
  refine hfl.near (by norm_num) ?_ hmul.half
  refine hprodlow.imp (fun h => by rw [h, zero_div]) fun h => ⟨by linarith, by linarith⟩

/-- **The sum over the buckets**, of which none has more entries than there are. -/
theorem average_near (hfl : IsDouble fl) {numEntries : UInt32} (hn : numEntries ≠ 0)
    {js : List Nat} (hjs : ∀ j ∈ js, j ≤ numEntries.toNat) (hlen : js.length ≤ 2 ^ 32) :
    Near (1 / 2 ^ 53) (js.length + 4)
      ((js.map fun j : Nat => ((j + 1) * j / 2 : ℚ)).sum / numEntries.toNat)
      (js.foldl (fun a j => fl (a + addend fl numEntries j)) 0) := by
  have hsum : (js.map fun j : Nat => ((j + 1) * j / 2 : ℚ)).sum / numEntries.toNat =
      0 + (js.map (addend id numEntries)).sum := by
    rw [zero_add, div_eq_mul_inv, ← List.sum_map_mul_right]
    congr 1
    refine List.map_congr_left fun j _ => ?_
    show _ = ((j : ℚ) + 1) * (j / numEntries.toNat) / 2
    ring
  have hlen' : (js.length : ℚ) ≤ 2 ^ 32 := by exact_mod_cast hlen
  have hmax : (js.map (addend id numEntries)).sum ≤ 2 ^ 32 * 2 ^ 32 := by
    have hcard := List.sum_le_card_nsmul (js.map (addend id numEntries)) (2 ^ 32) (by
      intro q hq
      obtain ⟨j, hj, rfl⟩ := List.mem_map.mp hq
      exact (addend_range hn (hjs j hj)).2)
    rw [List.length_map, nsmul_eq_mul] at hcard
    exact hcard.trans (mul_le_mul_of_nonneg_right hlen' (by positivity))
  rw [hsum, Nat.add_comm]
  refine hfl.foldl (k := 4) (fun j hj => addend_near hfl hn (hjs j hj))
    (fun j hj => (addend_range hn (hjs j hj)).1) le_rfl (.inl rfl) ⟨by simp, by simp⟩
    (by linarith) ?_
  rw [Nat.cast_add]
  push_cast
  linarith

/-! ## §4. The places of a chain. -/

/-- The searches for all entries of a chain look at one, two, three, …, of its entries. -/
theorem sum_findIdx {ε κ : Type*} [DecidableEq κ] (key : ε → κ) (c : List ε)
    (h : (c.map key).Nodup) :
    2 * (c.map fun e => c.findIdx (fun e' => key e' = key e) + 1).sum =
      (c.length + 1) * c.length := by
  induction c with
  | nil => rfl
  | cons x c ih =>
    rw [List.map_cons, List.nodup_cons] at h
    have hbehind : (c.map fun e => (x :: c).findIdx (fun e' => key e' = key e) + 1) =
        c.map fun e => (c.findIdx (fun e' => key e' = key e) + 1) + 1 := by
      refine List.map_congr_left fun e he => ?_
      have hne : key x ≠ key e := fun heq => h.1 (heq ▸ List.mem_map_of_mem he)
      simp [List.findIdx_cons, hne]
    have hsum := ih h.2
    rw [List.map_cons, List.sum_cons, hbehind, List.sum_map_add]
    simp only [List.findIdx_cons, decide_true, cond_true, List.map_const', List.sum_replicate,
      List.length_cons]
    ring_nf at hsum ⊢
    omega

variable {t : HashTable} {type : UInt32}

/-- In a table, the entries of a bucket have their distances in that bucket. -/
theorem Layout.distance (h : Layout t type) (htype : type.toNat ≤ intMax) {i : Nat}
    {c : List HashEntry} (hc : t.buckets[i]? = some c) {he : HashEntry} (hmem : he ∈ c) :
    t.distance he.key = c.findIdx (fun he' => he'.key = he.key) + 1 := by
  have hflat := mem_flatten_of_getElem? hc hmem
  obtain ⟨idx, same, hagree, -⟩ := h.format.agree htype (h.sound.typed he hflat) h.mask_lt
  have hi : idx.toNat = i := by
    rw [← hagree.place]
    exact h.placed i c hc he hmem
  unfold HashTable.distance
  rw [hagree.index]
  show ((t.buckets[idx.toNat]?).getD []).findIdx _ + 1 = _
  rw [hi, hc]
  rfl

/-- The distances of all entries, bucket by bucket. -/
theorem Layout.sum_distance (h : Layout t type) (htype : type.toNat ≤ intMax)
    (hnodup : (t.buckets.flatten.map HashEntry.key).Nodup) :
    ((t.buckets.flatten.map fun he => t.distance he.key).sum : ℚ) =
      ((t.buckets.map List.length).map fun j : Nat => ((j + 1) * j / 2 : ℚ)).sum := by
  rw [List.map_flatten, List.sum_flatten, List.map_map, List.map_map, Nat.cast_list_sum,
    List.map_map]
  congr 1
  refine List.map_congr_left fun c hmem => ?_
  obtain ⟨i, hc⟩ := List.mem_iff_getElem?.mp hmem
  have hsum := sum_findIdx HashEntry.key c
    (hnodup.sublist ((List.sublist_flatten_of_mem hmem).map HashEntry.key))
  have hmap : (c.map fun he => t.distance he.key) =
      c.map fun he => c.findIdx (fun he' => he'.key = he.key) + 1 :=
    List.map_congr_left fun he hhe => h.distance htype hc hhe
  show ((c.map fun he => t.distance he.key).sum : ℚ) = (c.length + 1) * c.length / 2
  rw [hmap, eq_div_iff two_ne_zero, mul_comm]
  exact_mod_cast hsum

/-! ## §5. Every reachable map. -/

/-- The map after the calls, none once it was shut down. -/
def contents (ops : List Op) : Option (Map Key Value) :=
  ops.foldl (fun m op => (mapCall m op).2) (some ∅)

/-- **What the statistics tell of a table with the entries of a map.** -/
structure Stats.Tells (s : Stats) (t : HashTable) (m : Map Key Value) : Prop where
  entries : s.numEntries.toNat = m.keys.card
  buckets : s.numBuckets.toNat = t.buckets.length
  /-- The table is rebuilt before its buckets hold three entries each. -/
  load : m.keys.card < 3 * t.buckets.length
  count : ∀ i < numCounters, s.count[i]? = some (t.buckets.countP fun c => c.length = i)
  overflow : s.overflow = t.buckets.countP fun c => numCounters ≤ c.length
  total : s.count.sum + s.overflow = t.buckets.length
  /-- Each operation of the sum has its rounding: four for a bucket, and one for
  each time that one is added. -/
  average : if m.keys.card = 0 then s.average = none
    else ∃ a, s.average = some a ∧
      Near (1 / 2 ^ 53) (t.buckets.length + 4) (t.meanDistance m) a

variable {hm : Record} {m : Map Key Value}

/-- The counters of HashStats(). -/
theorem hashStats_count (h : Layout t type) (i : Nat) (hi : i < numCounters) :
    (hashStats fl t).count[i]? = some (t.buckets.countP fun c => c.length = i) := by
  unfold hashStats
  rw [foldl_tally_count _ _ i hi (List.length_replicate ..), ← h.length, List.take_length]
  simp only [List.getElem?_replicate, if_pos hi, Option.map_some, Nat.zero_add]
  rw [List.count, List.countP_map]
  rfl

theorem hashStats_overflow (h : Layout t type) :
    (hashStats fl t).overflow = t.buckets.countP fun c => numCounters ≤ c.length := by
  unfold hashStats
  rw [foldl_tally_overflow, ← h.length, List.take_length, List.countP_map, Nat.zero_add]
  rfl

/-- Every bucket is in one counter. -/
theorem hashStats_total (h : Layout t type) :
    (hashStats fl t).count.sum + (hashStats fl t).overflow = t.buckets.length := by
  have hcount : (hashStats fl t).count =
      (List.range numCounters).map (t.buckets.map List.length).count := by
    refine List.ext_getElem? fun i => ?_
    by_cases hi : i < numCounters
    · rw [hashStats_count h i hi, List.getElem?_map, List.getElem?_range hi, Option.map_some,
        List.count, List.countP_map]
      rfl
    · have hlen : (hashStats fl t).count.length = numCounters := foldl_tally_length ..
      rw [List.getElem?_eq_none (by omega), List.getElem?_eq_none (by simpa using hi)]
  rw [hcount, sum_count, hashStats_overflow h, List.countP_map,
    List.length_eq_countP_add_countP (fun c : List HashEntry => decide (c.length < numCounters))]
  congr 2
  funext c
  simp

theorem hashStats_nan (h : Layout t type) (hzero : t.numEntries = 0) :
    (hashStats fl t).average = none := by
  unfold hashStats
  rw [← h.length, List.take_length]
  -- there is a first bucket, and its share is not a number
  obtain ⟨k, hk⟩ := h.sizes
  have hpos : 0 < t.buckets.length := by
    rw [h.length, hk.numBuckets]
    exact Nat.pow_pos (by decide)
  obtain ⟨c, bs, hbs⟩ := List.exists_cons_of_length_pos hpos
  rw [hbs, List.map_cons, List.foldl_cons]
  refine foldl_tally_nan _ _ ?_
  unfold Stats.tally share
  rw [if_pos hzero]
  rfl

theorem hashStats_average (hfl : IsDouble fl) (h : Layout t type) (htype : type.toNat ≤ intMax)
    (hnodup : (t.buckets.flatten.map HashEntry.key).Nodup) (hne : t.numEntries ≠ 0) :
    ∃ a, (hashStats fl t).average = some a ∧ Near (1 / 2 ^ 53) (t.buckets.length + 4)
      ((t.buckets.flatten.map fun he => t.distance he.key).sum / (t.numEntries.toNat : ℚ)) a := by
  have hall : t.buckets.take t.numBuckets.toNat = t.buckets := by
    rw [← h.length, List.take_length]
  have hjs : ∀ j ∈ t.buckets.map List.length, j ≤ t.numEntries.toNat := by
    intro j hj
    obtain ⟨c, hc, rfl⟩ := List.mem_map.mp hj
    rw [h.count]
    exact (List.sublist_flatten_of_mem hc).length_le
  have hlen : (t.buckets.map List.length).length ≤ 2 ^ 32 := by
    rw [List.length_map, h.length]
    exact t.numBuckets.toNat_lt.le
  refine ⟨_, foldl_tally_average _ _ 0 hne rfl, ?_⟩
  rw [hall, h.sum_distance htype hnodup]
  simpa only [List.length_map] using average_near hfl hne hjs hlen

/-- **The statistics of a map that is in use.** -/
theorem Live.tells (hfl : IsDouble fl) (h : Live type hm m) (htype : type.toNat ≤ intMax) :
    (hashStats fl hm.m_hashtable).Tells hm.m_hashtable m := by
  have hl := h.settled.toLayout
  obtain ⟨k, hk⟩ := hl.sizes
  have hcard : hm.m_hashtable.numEntries.toNat = m.keys.card := by
    rw [hl.count, h.lists.card]
  have hfields := @foldl_tally_numEntries fl
    ((hm.m_hashtable.buckets.take hm.m_hashtable.numBuckets.toNat).map List.length) {
      numEntries := hm.m_hashtable.numEntries
      numBuckets := hm.m_hashtable.numBuckets
      count := List.replicate numCounters 0
      overflow := 0
      average := some 0 }
  refine ⟨?_, ?_, ?_, hashStats_count hl, hashStats_overflow hl, hashStats_total hl, ?_⟩
  · exact (congrArg UInt32.toNat hfields.1).trans hcard
  · exact (congrArg UInt32.toNat hfields.2).trans hl.length.symm
  · have hroom := h.settled.room
    rw [hcard, hk.rebuildSize] at hroom
    rw [hl.length, hk.numBuckets]
    exact hroom
  · have hsum : (hm.m_hashtable.buckets.flatten.map
        fun he => hm.m_hashtable.distance he.key).sum =
          ∑ key ∈ m.keys, hm.m_hashtable.distance key := by
      rw [h.lists.keys, List.sum_toFinset _ h.lists.nodup, List.map_map]
      rfl
    have hzero : hm.m_hashtable.numEntries = 0 ↔ m.keys.card = 0 := by
      rw [← hcard, ← UInt32.toNat_inj]
      rfl
    split
    next hnone => exact hashStats_nan hl (hzero.mpr hnone)
    next hsome =>
      obtain ⟨a, ha, hnear⟩ := hashStats_average hfl hl htype h.lists.nodup (mt hzero.mp hsome)
      rw [hcard, hsum] at hnear
      exact ⟨a, ha, hnear⟩

/-- **Whatever calls were made, the statistics tell the truth**: the table is not
over its load, the counters account for every bucket, and the average is that
of the distances at which the keys of the map are found, up to its roundings. -/
theorem statistics_right (fl : ℚ → ℚ) (hfl : IsDouble fl) (type : UInt32)
    (htype : type.toNat ≤ intMax) (proc : Bool) (ops : List Op)
    (hkeys : ∀ op ∈ ops, op.HasType type) (hfew : Transition.Along mapCall Few (some ∅) ops)
    {outs : List Outcome} (hexec : Transition.exec call (create type proc) ops = some (outs, hm)) :
    (contents ops = none → ∀ room, statistics fl hm room = (.notOperational, none)) ∧
      ∀ m, contents ops = some m → statistics fl hm false = (.noMemory, none) ∧
        ∃ s, statistics fl hm true = (.ok, some s) ∧ s.Tells hm.m_hashtable m := by
  have hstep : ∀ (hm : Record) (m : Option (Map Key Value)) (op : Op) (out : Outcome)
      (hm' : Record), Represents type hm m → op.HasType type → Few (mapCall m op).2 →
      call hm op = some (out, hm') → Represents type hm' (mapCall m op).2 := by
    intro hm m op out hm' h hop hfew hcall
    obtain ⟨out', hm'', hcall', -, hrep⟩ := h.step (fun _ _ => htype) hop hfew
    rw [hcall] at hcall'
    obtain ⟨-, rfl⟩ := Prod.mk.inj (Option.some.inj hcall')
    exact hrep
  have hrep : Represents type hm (contents ops) :=
    Transition.exec_follows (Represents type) (Op.HasType type) Few hstep hexec
      (.live (live_create type proc)) hkeys hfew
  unfold statistics
  generalize contents ops = m at hrep
  cases hrep with
  | down hdown =>
    refine ⟨fun _ room => ?_, fun m hm => absurd hm (by simp)⟩
    rw [hdown]
    rfl
  | live h =>
    refine ⟨fun hm => absurd hm (by simp), fun m hm => ?_⟩
    obtain rfl := Option.some.inj hm
    rw [h.operational]
    exact ⟨rfl, _, rfl, h.tells hfl htype⟩

/-- Two of three keys share a bucket; the average is the double next to 4/3. -/
theorem statistics_right_three : ∃ outs hm m s, Transition.exec call (create typeString true)
    [.add (.string [97]) 1 false true, .add (.string [101]) 2 false true,
      .add (.string [98]) 3 false true] = some (outs, hm) ∧
    contents [.add (.string [97]) 1 false true, .add (.string [101]) 2 false true,
      .add (.string [98]) 3 false true] = some m ∧
    statistics (nearest 53) hm true = (.ok, some s) ∧ s.Tells hm.m_hashtable m ∧
    s.count = [2, 1, 1, 0, 0, 0, 0, 0, 0, 0] ∧ s.average = some (6004799503160661 / 2 ^ 52) := by
  refine ⟨_, _, _, hashStats (nearest 53) _, rfl, rfl, rfl, ?_, rfl, by decide +kernel⟩
  obtain ⟨s, hs, htells⟩ := ((statistics_right (nearest 53)
    (nearest_rounds 53 (by positivity)) typeString (by decide) true
    [.add (.string [97]) 1 false true, .add (.string [101]) 2 false true,
      .add (.string [98]) 3 false true] (by decide) (by decide) rfl).2 _ rfl).2
  obtain rfl := Option.some.inj (Prod.mk.inj hs).2
  exact htells

end Mccp.Hashmap
