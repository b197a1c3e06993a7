/-
  Mccp.Lib.Chains
  ───────────────
  **SEPARATE CHAINING: AN ARRAY OF BUCKETS, EACH A CHAIN OF ENTRIES.**

  The bucket array is a list of lists.  `place` says into which bucket an entry
  belongs; as long as every entry is in its place, what one bucket shows about
  its entries holds of all entries.

      push / remove      — one entry, at the head of a chain and out of it
      Placed             — every entry is in its place
      rehash_spec        — moving all entries into a new array loses none
      Lists              — the finite map that a list of entries stands for
      Ahead              — what a walk along all chains has still to visit

  Entries are compared as multisets (`List.Perm`): the order in which chains
  keep them is not part of what they mean.
-/
import Mathlib.Data.Finmap
import Mathlib.Data.List.Perm.Basic

namespace Chains

variable {ε : Type*}

/-! ## §1. One chain. -/

/-- Take the first entry with `p` out of a chain; `none` when there is none. -/
def unlink (p : ε → Bool) : List ε → Option (List ε)
  | [] => none
  | e :: es => if p e then some es else (unlink p es).map (e :: ·)

/-- A chain with such an entry comes apart. -/
theorem unlink_perm {p : ε → Bool} {es : List ε} (h : ∃ e ∈ es, p e = true) :
    ∃ e es', p e = true ∧ unlink p es = some es' ∧ es.Perm (e :: es') := by
  induction es with
  | nil =>
    obtain ⟨e, he, -⟩ := h
    exact absurd he (by simp)
  | cons a as ih =>
    by_cases ha : p a = true
    · refine ⟨a, as, ha, ?_, List.Perm.refl _⟩
      unfold unlink
      rw [if_pos ha]
    · obtain ⟨e, he, hpe⟩ := h
      have hmem : e ∈ as := by
        rcases List.mem_cons.mp he with rfl | hmem
        · exact absurd hpe ha
        · exact hmem
      obtain ⟨e', es', hp, hu, hperm⟩ := ih ⟨e, hmem, hpe⟩
      refine ⟨e', a :: es', hp, ?_, ?_⟩
      · unfold unlink
        rw [if_neg ha, hu]
        rfl
      · exact (hperm.cons a).trans (List.Perm.swap e' a es')

/-! ## §2. The array. -/

/-- Look into one bucket; `none` outside the array. -/
def lookup (bs : List (List ε)) (i : Nat) (p : ε → Bool) : Option (Option ε) :=
  (bs[i]?).map (fun chain => chain.find? p)

/-- Put an entry at the head of a bucket's chain. -/
def push (bs : List (List ε)) (i : Nat) (e : ε) : Option (List (List ε)) :=
  (bs[i]?).map (fun chain => bs.set i (e :: chain))

/-- Take an entry out of a bucket's chain. -/
def remove (bs : List (List ε)) (i : Nat) (p : ε → Bool) : Option (List (List ε)) :=
  (bs[i]?).bind (fun chain => (unlink p chain).map (bs.set i))

/-- Every entry is in the bucket where it belongs. -/
def Placed (place : ε → Nat) (bs : List (List ε)) : Prop :=
  ∀ i chain, bs[i]? = some chain → ∀ e ∈ chain, place e = i

variable {bs bs' : List (List ε)} {place : ε → Nat}

/-- Replacing one chain leaves the others alone. -/
theorem flatten_set {i : Nat} {c : List ε} (h : bs[i]? = some c) :
    ∃ rest, bs.flatten.Perm (c ++ rest) ∧ ∀ c', (bs.set i c').flatten.Perm (c' ++ rest) := by
  induction bs generalizing i with
  | nil => exact absurd h (by simp)
  | cons b bs ih =>
    -- the first chain, or one behind it
    cases i with
    | zero =>
      simp only [List.getElem?_cons_zero, Option.some.injEq] at h
      subst h
      exact ⟨bs.flatten, List.Perm.refl _, fun c' => List.Perm.refl _⟩
    | succ i =>
      simp only [List.getElem?_cons_succ] at h
      obtain ⟨rest, hperm, hset⟩ := ih h
      refine ⟨b ++ rest, ?_, ?_⟩
      · rw [List.flatten_cons]
        exact (hperm.append_left b).trans (List.perm_append_comm_assoc b c rest)
      · intro c'
        rw [List.set_cons_succ, List.flatten_cons]
        exact ((hset c').append_left b).trans (List.perm_append_comm_assoc b c' rest)

theorem getElem?_of_lt {i : Nat} (h : i < bs.length) : ∃ chain, bs[i]? = some chain :=
  ⟨bs[i], List.getElem?_eq_getElem h⟩

/-- An entry that is in its place is found there. -/
theorem Placed.mem (h : Placed place bs) {e : ε} (he : e ∈ bs.flatten) :
    ∃ chain, bs[place e]? = some chain ∧ e ∈ chain := by
  obtain ⟨chain, hc, hmem⟩ := List.mem_flatten.mp he
  obtain ⟨i, hi⟩ := List.mem_iff_getElem?.mp hc
  have hplace : place e = i := h i chain hi e hmem
  exact ⟨chain, by rw [hplace]; exact hi, hmem⟩

theorem mem_flatten_of_getElem? {i : Nat} {chain : List ε} (hc : bs[i]? = some chain) {e : ε}
    (he : e ∈ chain) : e ∈ bs.flatten :=
  List.mem_flatten.mpr ⟨chain, List.mem_of_getElem? hc, he⟩

/-- **What one bucket shows holds of all entries that belong there.** -/
theorem Placed.lookup_spec (h : Placed place bs) {i : Nat} (hi : i < bs.length) (p : ε → Bool) :
    (∃ e, lookup bs i p = some (some e) ∧ e ∈ bs.flatten ∧ p e = true) ∨
    (lookup bs i p = some none ∧ ∀ e ∈ bs.flatten, place e = i → p e = false) := by
  obtain ⟨chain, hc⟩ := getElem?_of_lt hi
  unfold lookup
  rw [hc]
  cases hf : chain.find? p with
  | some e =>
    refine .inl ⟨e, ?_, mem_flatten_of_getElem? hc (List.mem_of_find?_eq_some hf),
      List.find?_some hf⟩
    rw [Option.map_some, hf]
  | none =>
    refine .inr ⟨by rw [Option.map_some, hf], ?_⟩
    intro e he hplace
    -- an entry that belongs there is in the chain that was searched
    obtain ⟨chain', hc', hmem⟩ := h.mem he
    rw [hplace, hc] at hc'
    cases hc'
    have hnot := List.find?_eq_none.mp hf e hmem
    simpa using hnot

/-- Another chain for one bucket, of entries that belong there. -/
theorem Placed.set (h : Placed place bs) {i : Nat} {c' : List ε}
    (hc' : ∀ e ∈ c', place e = i) : Placed place (bs.set i c') := by
  intro j chain hj e he
  rw [List.getElem?_set] at hj
  split at hj
  next hij =>
    split at hj
    next =>
      cases hj
      rw [← hij]
      exact hc' e he
    next => exact absurd hj (by simp)
  next => exact h j chain hj e he

/-- **A push** keeps all entries in place and adds one. -/
theorem Placed.push (h : Placed place bs) {e : ε} (he : place e < bs.length) :
    ∃ bs', push bs (place e) e = some bs' ∧ bs'.length = bs.length ∧ Placed place bs' ∧
      bs'.flatten.Perm (e :: bs.flatten) := by
  obtain ⟨chain, hc⟩ := getElem?_of_lt he
  obtain ⟨rest, hperm, hset⟩ := flatten_set hc
  refine ⟨bs.set (place e) (e :: chain), ?_, List.length_set, ?_, ?_⟩
  · unfold Chains.push
    rw [hc]
    rfl
  · apply h.set
    intro e' he'
    rcases List.mem_cons.mp he' with rfl | hmem
    · rfl
    · exact h _ chain hc e' hmem
  · exact (hset (e :: chain)).trans (hperm.symm.cons e)

/-- **A removal** takes one entry with `p` out. -/
theorem Placed.remove (h : Placed place bs) {e : ε} (he : e ∈ bs.flatten) {p : ε → Bool}
    (hp : p e = true) :
    ∃ e' bs', remove bs (place e) p = some bs' ∧ p e' = true ∧ bs'.length = bs.length ∧
      Placed place bs' ∧ bs.flatten.Perm (e' :: bs'.flatten) := by
  obtain ⟨chain, hc, hmem⟩ := h.mem he
  obtain ⟨e', c', hp', hu, hperm'⟩ := unlink_perm ⟨e, hmem, hp⟩
  obtain ⟨rest, hperm, hset⟩ := flatten_set hc
  refine ⟨e', bs.set (place e) c', ?_, hp', List.length_set, ?_, ?_⟩
  · unfold Chains.remove
    rw [hc, Option.bind_some, hu]
    rfl
  · apply h.set
    intro x hx
    exact h _ chain hc x (hperm'.symm.subset (List.mem_cons_of_mem e' hx))
  · exact (hperm.trans (hperm'.append_right rest)).trans ((hset c').symm.cons e')

/-- The chains under a change of the entries that keeps their places. -/
theorem Placed.map (h : Placed place bs) {f : ε → ε} (hf : ∀ e, place (f e) = place e) :
    Placed place (bs.map (List.map f)) := by
  intro i chain hi e he
  rw [List.getElem?_map] at hi
  obtain ⟨c, hc, rfl⟩ := Option.map_eq_some_iff.mp hi
  obtain ⟨e₀, he₀, rfl⟩ := List.mem_map.mp he
  rw [hf]
  exact h i c hc e₀ he₀

theorem flatten_map (f : ε → ε) : (bs.map (List.map f)).flatten = bs.flatten.map f := by
  rw [← List.map_flatten]

theorem Placed.replicate (place : ε → Nat) (n : Nat) : Placed place (List.replicate n []) := by
  intro i chain hi e he
  have hnil : chain = [] := by
    have hmem := List.mem_of_getElem? hi
    exact List.eq_of_mem_replicate hmem
  rw [hnil] at he
  exact absurd he (by simp)

theorem flatten_replicate_nil (n : Nat) : (List.replicate n ([] : List ε)).flatten = [] := by
  induction n with
  | zero => rfl
  | succ n ih => rw [List.replicate_succ, List.flatten_cons, ih, List.append_nil]

/-- Push the entries one after the other, each changed by `f` on the way. -/
def rehash (place : ε → Nat) (f : ε → ε) (bs : List (List ε)) (es : List ε) :
    Option (List (List ε)) :=
  es.foldlM (fun bs e => push bs (place (f e)) (f e)) bs

/-- **Rehashing loses nothing**: all entries arrive, each in its place. -/
theorem rehash_spec {f : ε → ε} {es : List ε} (h : Placed place bs)
    (hes : ∀ e ∈ es, place (f e) < bs.length) :
    ∃ bs', rehash place f bs es = some bs' ∧ bs'.length = bs.length ∧ Placed place bs' ∧
      bs'.flatten.Perm (es.map f ++ bs.flatten) := by
  induction es generalizing bs with
  | nil => exact ⟨bs, rfl, rfl, h, List.Perm.refl _⟩
  | cons e es ih =>
    obtain ⟨b₁, hpush, hlen, hplaced, hperm⟩ := h.push (hes e List.mem_cons_self)
    have hes' : ∀ x ∈ es, place (f x) < b₁.length := by
      intro x hx
      rw [hlen]
      exact hes x (List.mem_cons_of_mem e hx)
    obtain ⟨bs', hrest, hlen', hplaced', hperm'⟩ := ih hplaced hes'
    refine ⟨bs', ?_, hlen'.trans hlen, hplaced', ?_⟩
    · unfold rehash at hrest ⊢
      rw [List.foldlM_cons, hpush]
      exact hrest
    · exact (hperm'.trans (hperm.append_left (es.map f))).trans List.perm_middle

/-! ## §3. The map that a list of entries stands for. -/

variable {κ β : Type*} [DecidableEq κ]

/-- The entries have distinct keys, and bind them as the map does. -/
structure Lists (key : ε → κ) (val : ε → β) (m : Finmap (fun _ : κ => β)) (es : List ε) : Prop where
  nodup : (es.map key).Nodup
  lookup : ∀ k v, m.lookup k = some v ↔ ∃ e ∈ es, key e = k ∧ val e = v

variable {key : ε → κ} {val : ε → β} {m : Finmap (fun _ : κ => β)} {es es' : List ε} {e e' : ε}

theorem Lists.empty : Lists key val ∅ [] := by
  refine ⟨List.nodup_nil, ?_⟩
  intro k v
  simp

theorem Lists.perm (h : Lists key val m es) (hp : es.Perm es') : Lists key val m es' := by
  refine ⟨(hp.map key).nodup_iff.mp h.nodup, ?_⟩
  intro k v
  rw [h.lookup k v]
  constructor
  · intro hex
    obtain ⟨e, he, hkv⟩ := hex
    exact ⟨e, hp.subset he, hkv⟩
  · intro hex
    obtain ⟨e, he, hkv⟩ := hex
    exact ⟨e, hp.symm.subset he, hkv⟩

/-- Entries may change in what the map does not see. -/
theorem Lists.map (h : Lists key val m es) {f : ε → ε} (hk : ∀ e, key (f e) = key e)
    (hv : ∀ e, val (f e) = val e) : Lists key val m (es.map f) := by
  have hkeys : (es.map f).map key = es.map key := by
    rw [List.map_map]
    exact List.map_congr_left (fun e _ => hk e)
  refine ⟨by rw [hkeys]; exact h.nodup, ?_⟩
  intro k v
  rw [h.lookup k v]
  constructor
  · intro hex
    obtain ⟨e, he, rfl, rfl⟩ := hex
    exact ⟨f e, List.mem_map_of_mem he, hk e, hv e⟩
  · intro hex
    obtain ⟨e, he, rfl, rfl⟩ := hex
    obtain ⟨e₀, he₀, rfl⟩ := List.mem_map.mp he
    exact ⟨e₀, he₀, (hk e₀).symm, (hv e₀).symm⟩

theorem Lists.lookup_of_mem (h : Lists key val m es) (he : e ∈ es) :
    m.lookup (key e) = some (val e) :=
  (h.lookup _ _).mpr ⟨e, he, rfl, rfl⟩

theorem Lists.lookup_eq_none (h : Lists key val m es) {k : κ} :
    m.lookup k = none ↔ ∀ e ∈ es, key e ≠ k := by
  constructor
  · intro hn e he hk
    have hl := h.lookup_of_mem he
    rw [hk, hn] at hl
    exact absurd hl (by simp)
  · intro hall
    by_contra hc
    obtain ⟨v, hv⟩ := Option.ne_none_iff_exists'.mp hc
    obtain ⟨e, he, hk, -⟩ := (h.lookup k v).mp hv
    exact hall e he hk

/-- A new key. -/
theorem Lists.cons (h : Lists key val m es) (hnew : m.lookup (key e) = none) :
    Lists key val (m.insert (key e) (val e)) (e :: es) := by
  have hne : ∀ x ∈ es, key x ≠ key e := h.lookup_eq_none.mp hnew
  refine ⟨?_, ?_⟩
  · rw [List.map_cons, List.nodup_cons]
    refine ⟨?_, h.nodup⟩
    intro hmem
    obtain ⟨x, hx, hk⟩ := List.mem_map.mp hmem
    exact hne x hx hk
  · intro k v
    by_cases hk : k = key e
    · subst hk
      rw [Finmap.lookup_insert]
      constructor
      · intro hv
        exact ⟨e, List.mem_cons_self, rfl, Option.some.inj hv⟩
      · intro hex
        obtain ⟨x, hx, hkx, rfl⟩ := hex
        rcases List.mem_cons.mp hx with rfl | hx
        · rfl
        · exact absurd hkx (hne x hx)
    · rw [Finmap.lookup_insert_of_ne m hk, h.lookup k v]
      constructor
      · intro hex
        obtain ⟨x, hx, hkv⟩ := hex
        exact ⟨x, List.mem_cons_of_mem e hx, hkv⟩
      · intro hex
        obtain ⟨x, hx, hkx, hv⟩ := hex
        rcases List.mem_cons.mp hx with rfl | hx
        · exact absurd hkx.symm hk
        · exact ⟨x, hx, hkx, hv⟩

/-- An entry goes. -/
theorem Lists.tail (h : Lists key val m (e :: es)) : Lists key val (m.erase (key e)) es := by
  have hnodup := h.nodup
  rw [List.map_cons, List.nodup_cons] at hnodup
  have hne : ∀ x ∈ es, key x ≠ key e := by
    intro x hx hk
    exact hnodup.1 (List.mem_map.mpr ⟨x, hx, hk⟩)
  refine ⟨hnodup.2, ?_⟩
  intro k v
  by_cases hk : k = key e
  · subst hk
    rw [Finmap.lookup_erase]
    constructor
    · intro hv
      exact absurd hv (by simp)
    · intro hex
      obtain ⟨x, hx, hkx, -⟩ := hex
      exact absurd hkx (hne x hx)
  · rw [Finmap.lookup_erase_ne hk, h.lookup k v]
    constructor
    · intro hex
      obtain ⟨x, hx, hkx, hv⟩ := hex
      rcases List.mem_cons.mp hx with rfl | hx
      · exact absurd hkx.symm hk
      · exact ⟨x, hx, hkx, hv⟩
    · intro hex
      obtain ⟨x, hx, hkv⟩ := hex
      exact ⟨x, List.mem_cons_of_mem e hx, hkv⟩

/-- An entry gets another value. -/
theorem Lists.update (h : Lists key val m (e :: es)) (e' : ε) (hk : key e' = key e) :
    Lists key val (m.insert (key e) (val e')) (e' :: es) := by
  have hrest := h.tail
  have hgone : (m.erase (key e)).lookup (key e') = none := by
    rw [hk]
    exact Finmap.lookup_erase (key e) m
  -- the entry goes and comes back with the other value
  have hback := hrest.cons hgone
  have hsame : (m.erase (key e)).insert (key e') (val e') = m.insert (key e) (val e') := by
    apply Finmap.ext_lookup
    intro k
    rw [hk]
    by_cases hke : k = key e
    · rw [hke, Finmap.lookup_insert, Finmap.lookup_insert]
    · rw [Finmap.lookup_insert_of_ne _ hke, Finmap.lookup_insert_of_ne _ hke,
        Finmap.lookup_erase_ne hke]
  rw [hsame] at hback
  exact hback

theorem Lists.keys (h : Lists key val m es) : m.keys = (es.map key).toFinset := by
  ext k
  rw [Finmap.mem_keys, Finmap.mem_iff, List.mem_toFinset, List.mem_map]
  constructor
  · intro hex
    obtain ⟨v, hv⟩ := hex
    obtain ⟨e, he, hk, -⟩ := (h.lookup k v).mp hv
    exact ⟨e, he, hk⟩
  · intro hex
    obtain ⟨e, he, rfl⟩ := hex
    exact ⟨val e, h.lookup_of_mem he⟩

theorem Lists.card (h : Lists key val m es) : m.keys.card = es.length := by
  rw [h.keys, List.toFinset_card_of_nodup h.nodup, List.length_map]

/-- A value that the map has nowhere is in no entry. -/
theorem Lists.count_absent [DecidableEq β] (h : Lists key val m es) {v : β}
    (hv : ∀ k, m.lookup k ≠ some v) : (es.map val).count v = 0 := by
  rw [List.count_eq_zero]
  intro hmem
  obtain ⟨e, he, rfl⟩ := List.mem_map.mp hmem
  exact hv (key e) (h.lookup_of_mem he)

/-- A value that the map has under one key only is in one entry only. -/
theorem Lists.count_only [DecidableEq β] (h : Lists key val m es) {k : κ} {v : β}
    (hv : ∀ k', m.lookup k' = some v ↔ k' = k) : (es.map val).count v = 1 := by
  obtain ⟨e, he, hk, rfl⟩ := (h.lookup k v).mp ((hv k).mpr rfl)
  have hkey : ∀ x ∈ es, val x = val e → key x = k := by
    intro x hx hval
    refine (hv (key x)).mp ?_
    rw [h.lookup_of_mem hx, hval]
  obtain ⟨before, after, rfl⟩ := List.append_of_mem he
  have hnodup := h.nodup
  rw [List.map_append, List.map_cons, List.nodup_append, List.nodup_cons] at hnodup
  obtain ⟨-, ⟨hnotafter, -⟩, hdisjoint⟩ := hnodup
  have hbefore : (before.map val).count (val e) = 0 := by
    rw [List.count_eq_zero]
    intro hmem
    obtain ⟨x, hx, hval⟩ := List.mem_map.mp hmem
    apply hdisjoint (key x) (List.mem_map_of_mem hx) (key e) List.mem_cons_self
    rw [hkey x (by simp [hx]) hval, hk]
  have hafter : (after.map val).count (val e) = 0 := by
    rw [List.count_eq_zero]
    intro hmem
    obtain ⟨x, hx, hval⟩ := List.mem_map.mp hmem
    apply hnotafter
    rw [hk, ← hkey x (by simp [hx]) hval]
    exact List.mem_map_of_mem hx
  rw [List.map_append, List.map_cons, List.count_append, List.count_cons_self, hbefore, hafter]

/-! ## §4. Walking along all chains. -/

section Walk

variable {α : Type*}

/-- **What a walk has ahead of it**, when the next chain to enter is the `i`-th
and it is at an element, or between two chains. -/
inductive Ahead (cs : List (List α)) (i : Nat) : Option α → List α → Prop
  | between : Ahead cs i none (cs.drop i).flatten
  | inside {before after : List α} {a : α} (h : before ++ a :: after ∈ cs) :
      Ahead cs i (some a) (a :: after ++ (cs.drop i).flatten)

variable {cs : List (List α)} {i : Nat} {rest : List α} {a : α}

theorem Ahead.start (cs : List (List α)) : Ahead cs 0 none cs.flatten := .between

/-- Behind the last chain nothing is left. -/
theorem Ahead.finished (h : Ahead cs i none rest) (hi : cs.length ≤ i) : rest = [] := by
  cases h
  rw [List.drop_eq_nil_of_le hi, List.flatten_nil]

/-- The next chain is entered at its first element. -/
theorem Ahead.enter (h : Ahead cs i none rest) {chain : List α} (hc : cs[i]? = some chain) :
    Ahead cs (i + 1) chain.head? rest := by
  cases h
  obtain ⟨hi, rfl⟩ := List.getElem?_eq_some_iff.mp hc
  rw [List.drop_eq_getElem_cons hi, List.flatten_cons]
  have hmem : cs[i] ∈ cs := List.getElem_mem hi
  cases hchain : cs[i] with
  | nil => exact .between
  | cons b bs =>
    have hmem' : [] ++ b :: bs ∈ cs := by
      rw [List.nil_append, ← hchain]
      exact hmem
    exact .inside hmem'

variable [DecidableEq α]

/-- What stands after an element; `none` when the element is not there. -/
def successor (a : α) : List α → Option (Option α)
  | [] => none
  | b :: bs => if b = a then some bs.head? else successor a bs

theorem successor_eq_none {a : α} {as : List α} (h : a ∉ as) : successor a as = none := by
  induction as with
  | nil => rfl
  | cons b bs ih =>
    obtain ⟨hne, hrest⟩ := not_or.mp (List.mem_cons.not.mp h)
    unfold successor
    rw [if_neg (Ne.symm hne)]
    exact ih hrest

theorem successor_append {a : α} {before : List α} (h : a ∉ before) (after : List α) :
    successor a (before ++ a :: after) = some after.head? := by
  induction before with
  | nil =>
    rw [List.nil_append]
    unfold successor
    rw [if_pos rfl]
  | cons b bs ih =>
    obtain ⟨hne, hrest⟩ := not_or.mp (List.mem_cons.not.mp h)
    rw [List.cons_append]
    unfold successor
    rw [if_neg (Ne.symm hne)]
    exact ih hrest

/-- An element that is in one chain only has its successor there. -/
theorem findSome?_successor {cs : List (List α)} (hnodup : cs.flatten.Nodup)
    {before after : List α} {a : α} (h : before ++ a :: after ∈ cs) :
    cs.findSome? (successor a) = some after.head? := by
  induction cs with
  | nil => exact absurd h (by simp)
  | cons c cs ih =>
    rw [List.flatten_cons, List.nodup_append] at hnodup
    obtain ⟨hhead, htail, hdisjoint⟩ := hnodup
    rw [List.findSome?_cons]
    rcases List.mem_cons.mp h with rfl | hmem
    · have hbefore : a ∉ before := by
        intro ha
        rw [List.nodup_append] at hhead
        exact hhead.2.2 a ha a List.mem_cons_self rfl
      rw [successor_append hbefore]
    · -- the element is in a later chain, so not in this one
      have hnot : a ∉ c := by
        intro ha
        refine hdisjoint a ha a ?_ rfl
        exact List.mem_flatten.mpr ⟨_, hmem, by simp⟩
      rw [successor_eq_none hnot]
      exact ih htail hmem

/-- An element is left for its successor. -/
theorem Ahead.leave (h : Ahead cs i (some a) rest) (hnodup : cs.flatten.Nodup) :
    ∃ next, cs.findSome? (successor a) = some next ∧ rest.head? = some a ∧
      Ahead cs i next rest.tail := by
  cases h with
  | @inside before after a h =>
    refine ⟨_, findSome?_successor hnodup h, rfl, ?_⟩
    rw [List.cons_append, List.tail_cons]
    cases after with
    | nil => exact .between
    | cons b bs =>
      have hmem : (before ++ [a]) ++ b :: bs ∈ cs := by
        rw [List.append_assoc]
        exact h
      exact .inside hmem

end Walk

end Chains
