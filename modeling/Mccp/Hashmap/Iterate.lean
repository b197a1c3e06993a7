/-
  Mccp.Hashmap.Iterate
  ────────────────────
  **GOING OVER ALL ENTRIES OF A HASHMAP.**

  An iteration keeps a cursor in the table, between one call of the caller's
  procedure and the next; the procedure may put other values into the entries,
  and that moves none of them.  So the cursor meets every entry once, and the
  procedure sees a finite map that changes only by what it does itself.

      firstHashEntry, nextHashEntry — the cursor of hash.c
      iterate                       — mccp_hashmap_iterate()
      walk                          — the same over the list of all addresses
      Shown                         — what the procedure was shown of the map
-/
import Mccp.Hashmap.Fate

namespace Mccp.Hashmap

open Chains Transition

/-! ## §1. The cursor. -/

/-- `HashSearch`; its table is the argument of each function. -/
structure HashSearch where
  nextIndex : UInt32
  nextEntryPtr : Option Nat
  deriving DecidableEq, Repr

/-- The entry at an address. -/
def HashTable.entryAt (t : HashTable) (he : Nat) : Option HashEntry :=
  t.buckets.flatten.find? (fun hPtr => hPtr.addr = he)

/-- `nextPtr` of the entry at an address; `none` when no entry is there. -/
def HashTable.nextPtr (t : HashTable) (he : Nat) : Option (Option Nat) :=
  t.buckets.findSome? (fun chain => successor he (chain.map HashEntry.addr))

/-- The loop of `NextHashEntry`, which looks into no bucket twice. -/
def nextHashEntryLoop (t : HashTable) : Nat → HashSearch → Option HashSearch
  | 0, _ => none
  | fuel + 1, s =>
      if s.nextEntryPtr = none ∧ s.nextIndex < t.numBuckets then do
        let chain ← t.buckets[s.nextIndex.toNat]?
        nextHashEntryLoop t fuel {
          nextIndex := s.nextIndex + 1
          nextEntryPtr := chain.head?.map HashEntry.addr }
      else some s

/-- `NextHashEntry`. -/
def nextHashEntry (t : HashTable) (s : HashSearch) : Option (Option Nat × HashSearch) := do
  let s ← nextHashEntryLoop t (t.numBuckets.toNat + 1) s
  match s.nextEntryPtr with
  | none => return (none, s)
  | some hPtr => return (some hPtr, { s with nextEntryPtr := ← t.nextPtr hPtr })

/-- `FirstHashEntry`. -/
def firstHashEntry (t : HashTable) : Option (Option Nat × HashSearch) :=
  nextHashEntry t { nextIndex := 0, nextEntryPtr := none }

/-! ## §2. The iteration. -/

/-- What a call of an iteration procedure does: its result, the arguments of its
calls of mccp_hashmap_set_value(), and its auxiliary argument afterwards. -/
structure ProcResult (σ : Type) where
  ret : Bool
  sets : List (Nat × Value)
  arg : σ

/-- `mccp_hashmap_iteration_proc_t`, for a procedure that adds and deletes
nothing.  It may read the table. -/
abbrev IterationProc (σ : Type) := HashTable → Key → Value → Nat → σ → ProcResult σ

/-- Calls of `mccp_hashmap_set_value`; an entry of another table is none of this
one. -/
def setValues (t : HashTable) (sets : List (Nat × Value)) : HashTable :=
  sets.foldl (fun t set => setHashValue t set.1 set.2) t

/-- A call of the procedure: its arguments, its result, and what it set. -/
structure Visit where
  key : Key
  val : Value
  he : Nat
  ret : Bool
  sets : List (Nat × Value)
  deriving DecidableEq, Repr

/-- What an iteration shows: its result, the calls of the procedure, the table
and the auxiliary argument. -/
abbrev Iteration (ρ σ : Type) := ρ × List Visit × HashTable × σ

variable {σ : Type}

/-- The loop of `s_do_iterate`; `ret` is the last result of the procedure. -/
def doIterateLoop (proc : IterationProc σ) :
    Nat → Option Nat → HashSearch → Bool → HashTable → σ → Option (Iteration Bool σ)
  | 0, _, _, _, _, _ => none
  | _ + 1, none, _, ret, t, arg => some (ret, [], t, arg)
  | fuel + 1, some he, s, _, t, arg => do
      let hPtr ← t.entryAt he
      let r := proc t hPtr.key hPtr.clientData he arg
      let visit : Visit := ⟨hPtr.key, hPtr.clientData, he, r.ret, r.sets⟩
      let t := setValues t r.sets
      if r.ret then
        let (he, s) ← nextHashEntry t s
        let (ret, visits, t, arg) ← doIterateLoop proc fuel he s true t r.arg
        return (ret, visit :: visits, t, arg)
      else return (false, [visit], t, r.arg)

/-- `s_do_iterate`; its loop runs once for each entry, and once to find no more. -/
def sDoIterate (hm : Record) (proc : IterationProc σ) (arg : σ) : Option (Iteration Bool σ) := do
  let (he, s) ← firstHashEntry hm.m_hashtable
  doIterateLoop proc (hm.m_hashtable.entries.length + 1) he s false hm.m_hashtable arg

/-- `s_iterate`. -/
def sIterate (hm : Record) (proc : IterationProc σ) (arg : σ) :
    Option (Result × List Visit × Record × σ) :=
  if hm.m_is_operational then do
    let (ret, visits, t, arg) ← sDoIterate hm proc arg
    let hm := { hm with m_hashtable := t }
    if ret then return (.ok, visits, hm, arg)
    else return (.iterationHalted, visits, hm, arg)
  else some (.notOperational, [], hm, arg)

/-- `mccp_hashmap_iterate`, under the write lock. -/
def iterate (hm : Record) (proc : Option (IterationProc σ)) (arg : σ) :
    Option (Result × List Visit × Record × σ) :=
  match proc with
  | some proc => sIterate hm proc arg
  | none => some (.invalidArgs, [], hm, arg)

/-- `mccp_hashmap_iterate_no_lock`. -/
def iterateNoLock (hm : Record) (proc : Option (IterationProc σ)) (arg : σ) :
    Option (Result × List Visit × Record × σ) :=
  match proc with
  | some proc => sIterate hm proc arg
  | none => some (.invalidArgs, [], hm, arg)

/-! ## §3. What setting values leaves alone. -/

/-- The key of the entry at an address. -/
def HashTable.keyAt (t : HashTable) (he : Nat) : Option Key := (t.entryAt he).map HashEntry.key

/-- The chains, of addresses. -/
def HashTable.addrs (t : HashTable) : List (List Nat) := t.buckets.map (List.map HashEntry.addr)

variable {t t' : HashTable} {type : UInt32} {hm : Record} {m m' : Map Key Value}

theorem nextPtr_eq (t : HashTable) (he : Nat) :
    t.nextPtr he = t.addrs.findSome? (successor he) := by
  unfold HashTable.addrs
  rw [List.findSome?_map]
  rfl

theorem flatten_addrs (t : HashTable) :
    t.addrs.flatten = t.buckets.flatten.map HashEntry.addr := by
  unfold HashTable.addrs
  rw [← List.map_flatten]

/-- What no value has a part in: where the entries are, and under which keys. -/
structure SameShape (t t' : HashTable) : Prop where
  addrs : t'.addrs = t.addrs
  numBuckets : t'.numBuckets = t.numBuckets
  keyAt : t'.keyAt = t.keyAt

theorem SameShape.refl (t : HashTable) : SameShape t t := ⟨rfl, rfl, rfl⟩

theorem SameShape.trans {t'' : HashTable} (h : SameShape t t') (h' : SameShape t' t'') :
    SameShape t t'' :=
  ⟨h'.addrs.trans h.addrs, h'.numBuckets.trans h.numBuckets, h'.keyAt.trans h.keyAt⟩

theorem entryAt_setHashValue (t : HashTable) (he : Nat) (val : Value) (a : Nat) :
    (setHashValue t he val).entryAt a = (t.entryAt a).map (HashEntry.setAt he val) := by
  have hflat : (setHashValue t he val).buckets.flatten =
      t.buckets.flatten.map (HashEntry.setAt he val) := flatten_map _
  unfold HashTable.entryAt
  rw [hflat, List.find?_map]
  congr 2
  funext x
  show decide ((x.setAt he val).addr = a) = _
  rw [(setAt_frame he val x).2.1]

theorem setHashValue_shape (t : HashTable) (he : Nat) (val : Value) :
    SameShape t (setHashValue t he val) := by
  refine ⟨?_, rfl, ?_⟩
  · show (t.buckets.map (List.map (HashEntry.setAt he val))).map (List.map HashEntry.addr) = _
    unfold HashTable.addrs
    rw [List.map_map]
    apply List.map_congr_left
    intro chain _
    show (chain.map (HashEntry.setAt he val)).map HashEntry.addr = _
    rw [List.map_map]
    exact List.map_congr_left (fun x _ => (setAt_frame he val x).2.1)
  · funext a
    unfold HashTable.keyAt
    rw [entryAt_setHashValue, Option.map_map]
    congr 1
    funext x
    exact (setAt_frame he val x).1

theorem setValues_shape (t : HashTable) (sets : List (Nat × Value)) :
    SameShape t (setValues t sets) := by
  induction sets generalizing t with
  | nil => exact .refl t
  | cons set sets ih => exact (setHashValue_shape t set.1 set.2).trans (ih _)

/-! ## §4. The cursor goes along the chains. -/

/-- The chains that a cursor has ahead of it. -/
def HashSearch.Ahead (s : HashSearch) (t : HashTable) (rest : List Nat) : Prop :=
  Chains.Ahead t.addrs s.nextIndex.toNat s.nextEntryPtr rest

variable {s : HashSearch} {rest : List Nat}

/-- The loop stops at an entry, or behind the last bucket. -/
theorem nextHashEntryLoop_spec (hlen : t.buckets.length = t.numBuckets.toNat)
    (h : s.Ahead t rest) {fuel : Nat} (hfuel : t.numBuckets.toNat - s.nextIndex.toNat < fuel) :
    ∃ s', nextHashEntryLoop t fuel s = some s' ∧ s'.Ahead t rest ∧
      (s'.nextEntryPtr = none → t.buckets.length ≤ s'.nextIndex.toNat) := by
  induction fuel generalizing s with
  | zero => exact absurd hfuel (Nat.not_lt_zero _)
  | succ fuel ih =>
    unfold nextHashEntryLoop
    split
    next hgo =>
      obtain ⟨hnone, hlt⟩ := hgo
      rw [UInt32.lt_iff_toNat_lt] at hlt
      have hin : s.nextIndex.toNat < t.buckets.length := by
        rw [hlen]
        exact hlt
      obtain ⟨chain, hchain⟩ := getElem?_of_lt hin
      have hone : (1 : UInt32).toNat = 1 := rfl
      have hnext : (s.nextIndex + 1).toNat = s.nextIndex.toNat + 1 := by
        have hmax := t.numBuckets.toNat_lt
        rw [UInt32.toNat_add, hone]
        omega
      have haddrs : t.addrs[s.nextIndex.toNat]? = some (chain.map HashEntry.addr) := by
        unfold HashTable.addrs
        rw [List.getElem?_map, hchain]
        rfl
      -- the bucket is entered at its first entry
      have henter : HashSearch.Ahead ⟨s.nextIndex + 1, chain.head?.map HashEntry.addr⟩ t rest := by
        unfold HashSearch.Ahead at h ⊢
        rw [hnone] at h
        simp only []
        rw [hnext, ← List.head?_map]
        exact h.enter haddrs
      obtain ⟨s', hloop, hahead, hend⟩ := ih henter (by simp only []; omega)
      refine ⟨s', ?_, hahead, hend⟩
      rw [hchain]
      exact hloop
    next hstop =>
      refine ⟨s, rfl, h, ?_⟩
      intro hnone
      rw [hlen]
      have hnot : ¬ s.nextIndex < t.numBuckets := fun hlt => hstop ⟨hnone, hlt⟩
      rw [UInt32.lt_iff_toNat_lt] at hnot
      omega

/-- **One step of the cursor**: the first of what it had ahead of it. -/
theorem nextHashEntry_spec (hlen : t.buckets.length = t.numBuckets.toNat)
    (hnodup : t.addrs.flatten.Nodup) (h : s.Ahead t rest) :
    ∃ s', nextHashEntry t s = some (rest.head?, s') ∧ s'.Ahead t rest.tail := by
  have hfuel : t.numBuckets.toNat - s.nextIndex.toNat < t.numBuckets.toNat + 1 := by omega
  obtain ⟨s', hloop, hahead, hend⟩ := nextHashEntryLoop_spec hlen h hfuel
  unfold nextHashEntry
  rw [hloop]
  unfold HashSearch.Ahead at hahead
  cases hptr : s'.nextEntryPtr with
  | none =>
    rw [hptr] at hahead
    have hbehind : t.addrs.length ≤ s'.nextIndex.toNat := by
      unfold HashTable.addrs
      rw [List.length_map]
      exact hend hptr
    obtain rfl := hahead.finished hbehind
    refine ⟨s', ?_, ?_⟩
    · simp [hptr]
    · unfold HashSearch.Ahead
      rw [hptr]
      exact hahead
  | some he =>
    rw [hptr] at hahead
    obtain ⟨next, hnext, hhead, hleave⟩ := hahead.leave hnodup
    rw [← nextPtr_eq] at hnext
    refine ⟨{ s' with nextEntryPtr := next }, ?_, hleave⟩
    rw [hhead]
    simp [hptr, hnext]

/-! ## §5. The iteration goes over all addresses. -/

/-- The loop of `s_do_iterate`, over a list of addresses. -/
def walk (proc : IterationProc σ) : List Nat → Bool → HashTable → σ → Option (Iteration Bool σ)
  | [], ret, t, arg => some (ret, [], t, arg)
  | he :: rest, _, t, arg => do
      let hPtr ← t.entryAt he
      let r := proc t hPtr.key hPtr.clientData he arg
      let visit : Visit := ⟨hPtr.key, hPtr.clientData, he, r.ret, r.sets⟩
      let t := setValues t r.sets
      if r.ret then
        let (ret, visits, t, arg) ← walk proc rest true t r.arg
        return (ret, visit :: visits, t, arg)
      else return (false, [visit], t, r.arg)

variable {proc : IterationProc σ} {arg : σ} {ret : Bool}

/-- Whatever the procedure sets, the cursor stays on its way. -/
theorem doIterateLoop_eq_walk (hlen : t.addrs.length = t.numBuckets.toNat)
    (hnodup : t.addrs.flatten.Nodup) (h : s.Ahead t rest.tail) {fuel : Nat}
    (hfuel : rest.length < fuel) :
    doIterateLoop proc fuel rest.head? s ret t arg = walk proc rest ret t arg := by
  induction rest generalizing t s fuel ret arg with
  | nil =>
    cases fuel with
    | zero => exact absurd hfuel (Nat.not_lt_zero _)
    | succ fuel => rfl
  | cons he rest ih =>
    cases fuel with
    | zero => exact absurd hfuel (Nat.not_lt_zero _)
    | succ fuel =>
      rw [List.head?_cons]
      unfold doIterateLoop walk
      cases hentry : t.entryAt he with
      | none => rfl
      | some hPtr =>
        simp only [Option.bind_eq_bind, Option.bind_some]
        generalize proc t hPtr.key hPtr.clientData he arg = r
        have hshape := setValues_shape t r.sets
        generalize setValues t r.sets = t' at hshape ⊢
        split
        next =>
          have hbuckets : t'.buckets.length = t'.numBuckets.toNat := by
            rw [hshape.numBuckets, ← hlen, ← hshape.addrs]
            exact (List.length_map _).symm
          have hahead : s.Ahead t' rest := by
            unfold HashSearch.Ahead at h ⊢
            rw [hshape.addrs]
            exact h
          have hnodup' : t'.addrs.flatten.Nodup := by
            rw [hshape.addrs]
            exact hnodup
          obtain ⟨s', hnext, hahead'⟩ := nextHashEntry_spec hbuckets hnodup' hahead
          have hlen' : t'.addrs.length = t'.numBuckets.toNat := by
            rw [hshape.addrs, hshape.numBuckets]
            exact hlen
          rw [hnext, Option.bind_some]
          simp only []
          rw [ih hlen' hnodup' hahead' (Nat.lt_of_succ_lt_succ hfuel)]
        next => rfl

/-- An entry is the one at its address. -/
theorem Layout.entryAt (h : Layout t type) {x : HashEntry} (hx : x ∈ t.buckets.flatten) :
    t.entryAt x.addr = some x := by
  have hsome : (t.entryAt x.addr).isSome := by
    unfold HashTable.entryAt
    rw [List.find?_isSome]
    exact ⟨x, hx, by simp⟩
  obtain ⟨hPtr, hentry⟩ := Option.isSome_iff_exists.mp hsome
  have haddr : hPtr.addr = x.addr := by
    have hfound := List.find?_some hentry
    simpa using hfound
  rw [hentry, h.sound.eq_of_addr (List.mem_of_find?_eq_some hentry) hx haddr]

theorem Layout.addrs_nodup (h : Layout t type) : t.addrs.flatten.Nodup := by
  rw [flatten_addrs]
  exact h.sound.distinct

/-- **The iteration is a walk over the addresses of all entries.** -/
theorem Live.sDoIterate (h : Live type hm m) (proc : IterationProc σ) (arg : σ) :
    sDoIterate hm proc arg =
      walk proc hm.m_hashtable.addrs.flatten false hm.m_hashtable arg := by
  have hlayout := h.settled.toLayout
  have hstart : HashSearch.Ahead ⟨0, none⟩ hm.m_hashtable hm.m_hashtable.addrs.flatten :=
    Chains.Ahead.start _
  obtain ⟨s, hfirst, hahead⟩ := nextHashEntry_spec hlayout.length hlayout.addrs_nodup hstart
  unfold Hashmap.sDoIterate firstHashEntry
  rw [hfirst]
  have hlen : hm.m_hashtable.addrs.length = hm.m_hashtable.numBuckets.toNat := by
    unfold HashTable.addrs
    rw [List.length_map]
    exact hlayout.length
  have hfuel : hm.m_hashtable.addrs.flatten.length < hm.m_hashtable.entries.length + 1 := by
    rw [flatten_addrs, hlayout.entries, List.length_map]
    exact Nat.lt_succ_self _
  exact doIterateLoop_eq_walk hlen hlayout.addrs_nodup hahead hfuel

/-- `s_freeup_proc`, which sets no value. -/
def freeup (hm : Record) : IterationProc (List Value) := fun _ _ val _ freed =>
  if hm.m_del_proc then
    { ret := true, sets := [], arg := if val ≠ 0 then freed ++ [val] else freed }
  else { ret := false, sets := [], arg := freed }

theorem walk_freeup (hm : Record) (h : Layout t type) {es : List HashEntry}
    (hes : ∀ x ∈ es, x ∈ t.buckets.flatten) (ret : Bool) (freed : List Value) :
    ∃ visits, walk (freeup hm) (es.map HashEntry.addr) ret t freed =
      some ((doIterate (freeupProc hm) es ret freed).1, visits, t,
        (doIterate (freeupProc hm) es ret freed).2) := by
  induction es generalizing ret freed with
  | nil => exact ⟨[], rfl⟩
  | cons x es ih =>
    have hcall : freeup hm t x.key x.clientData x.addr freed =
        ⟨(freeupProc hm x freed).1, [], (freeupProc hm x freed).2⟩ := by
      unfold freeup freeupProc
      split <;> rfl
    rw [List.map_cons]
    unfold walk doIterate
    rw [h.entryAt (hes x List.mem_cons_self), Option.bind_eq_bind, Option.bind_some, hcall]
    -- it goes on if the hashmap has a destructor for its values
    obtain ⟨go, freed'⟩ := freeupProc hm x freed
    obtain ⟨visits, hrest⟩ := ih (fun y hy => hes y (List.mem_cons_of_mem x hy)) true freed'
    cases go with
    | true =>
      refine ⟨⟨x.key, x.clientData, x.addr, true, []⟩ :: visits, ?_⟩
      show (walk (freeup hm) (es.map HashEntry.addr) true t freed').bind _ = _
      rw [hrest]
      rfl
    | false => exact ⟨_, rfl⟩

/-- **Freeing all values goes along the cursor too**, and leaves the table alone. -/
theorem Live.freeupAllValues (h : Live type hm m) : ∃ ret visits,
    Hashmap.sDoIterate hm (freeup hm) [] =
      some (ret, visits, hm.m_hashtable, Hashmap.freeupAllValues hm) := by
  have hlayout := h.settled.toLayout
  obtain ⟨visits, hwalk⟩ := walk_freeup hm hlayout (fun _ hx => hx) false []
  rw [← flatten_addrs, ← h.sDoIterate] at hwalk
  unfold Hashmap.freeupAllValues
  rw [hlayout.entries]
  exact ⟨_, visits, hwalk⟩

/-! ## §6. How far an iteration comes. -/

/-- **The course of an iteration** over the addresses: up to the first call that
returns false.  The result is that of the last call, if there was one. -/
inductive Course : List Nat → Bool → List Visit → Bool → Prop
  | done (ret : Bool) : Course [] ret [] ret
  | halt {v : Visit} (rest : List Nat) (ret : Bool) (h : v.ret = false) :
      Course (v.he :: rest) ret [v] false
  | go {v : Visit} {rest : List Nat} (ret : Bool) {visits : List Visit} {ret' : Bool}
      (h : v.ret = true) (hrest : Course rest true visits ret') :
      Course (v.he :: rest) ret (v :: visits) ret'

variable {visits : List Visit} {ret' : Bool}

/-- Nothing is visited after a call that returned false. -/
theorem Course.dropLast (h : Course rest ret visits ret') :
    ∀ v ∈ visits.dropLast, v.ret = true := by
  induction h with
  | done ret => exact fun v hv => absurd hv (by simp)
  | halt rest ret hfalse => exact fun v hv => absurd hv (by simp)
  | @go v rest ret visits ret' htrue hrest ih =>
    cases visits with
    | nil => exact fun v hv => absurd hv (by simp)
    | cons w ws =>
      rw [List.dropLast_cons_cons]
      intro x hx
      rcases List.mem_cons.mp hx with rfl | hx
      · exact htrue
      · exact ih x hx

/-- The result of an iteration that began with true. -/
theorem Course.false_iff_of_true (h : Course rest ret visits ret') (hret : ret = true) :
    ret' = false ↔ ∃ v ∈ visits, v.ret = false := by
  induction h with
  | done ret => simp [hret]
  | halt rest ret hfalse => simp [hfalse]
  | go ret htrue hrest ih => simp [ih rfl, htrue]

/-- The result of an iteration over anything does not depend on how it began. -/
theorem Course.false_iff (h : Course rest ret visits ret') (hne : rest ≠ []) :
    ret' = false ↔ ∃ v ∈ visits, v.ret = false := by
  cases h with
  | done => exact absurd rfl hne
  | halt rest ret hfalse => simp [hfalse]
  | go ret htrue hrest => simp [hrest.false_iff_of_true rfl, htrue]

/-- Without a call that returns false everything is visited. -/
theorem Course.complete (h : Course rest ret visits ret') (htrue : ∀ v ∈ visits, v.ret = true) :
    visits.map Visit.he = rest := by
  induction h with
  | done ret => rfl
  | halt rest ret hfalse =>
    exact absurd (hfalse.symm.trans (htrue _ List.mem_cons_self)) (by decide)
  | go ret hret hrest ih =>
    rw [List.map_cons, ih (fun v hv => htrue v (List.mem_cons_of_mem _ hv))]

/-! ## §7. What the procedure is shown. -/

/-- The map, when the values of entries are set; `keyAt` tells their keys. -/
def Map.setValues (keyAt : Nat → Option Key) (m : Map Key Value) (sets : List (Nat × Value)) :
    Map Key Value :=
  sets.foldl (fun m set => match keyAt set.1 with
    | some key => m.insert key set.2
    | none => m) m

/-- **What the procedure is shown of a map**: each call is on the entry of a key,
with the value that is there at that moment, after all that the calls before have
set. -/
inductive Shown (proc : IterationProc σ) (keyAt : Nat → Option Key) :
    Map Key Value → σ → List Visit → Map Key Value → σ → Prop
  | nil (m : Map Key Value) (arg : σ) : Shown proc keyAt m arg [] m arg
  | cons {m m' : Map Key Value} {v : Visit} {visits : List Visit} {arg arg' arg'' : σ}
      (hkey : keyAt v.he = some v.key) (hval : m.lookup v.key = some v.val)
      (hcall : ∃ t, proc t v.key v.val v.he arg = ⟨v.ret, v.sets, arg'⟩)
      (hrest : Shown proc keyAt (m.setValues keyAt v.sets) arg' visits m' arg'') :
      Shown proc keyAt m arg (v :: visits) m' arg''

variable {keyAt : Nat → Option Key} {arg' : σ}

theorem Live.entryAt (h : Live type hm m) {he : Nat}
    (hmem : he ∈ hm.m_hashtable.addrs.flatten) :
    ∃ hPtr, hm.m_hashtable.entryAt he = some hPtr ∧ m.lookup hPtr.key = some hPtr.clientData := by
  rw [flatten_addrs] at hmem
  obtain ⟨x, hx, rfl⟩ := List.mem_map.mp hmem
  exact ⟨x, h.settled.toLayout.entryAt hx, h.lists.lookup_of_mem hx⟩

/-- Setting the value of one entry. -/
theorem Live.setHashValue (h : Live type hm m) (he : Nat) (val : Value) :
    Live type { hm with m_hashtable := setHashValue hm.m_hashtable he val }
      (m.setValues hm.m_hashtable.keyAt [(he, val)]) := by
  cases hentry : hm.m_hashtable.entryAt he with
  | some hPtr =>
    have hmem := List.mem_of_find?_eq_some hentry
    have haddr : hPtr.addr = he := by
      have hfound := List.find?_some hentry
      simpa using hfound
    have hmap : m.setValues hm.m_hashtable.keyAt [(he, val)] = m.insert hPtr.key val := by
      simp [Map.setValues, HashTable.keyAt, hentry]
    rw [hmap, ← haddr]
    exact h.overwrite (List.perm_cons_erase hmem) val
  | none =>
    have hmap : m.setValues hm.m_hashtable.keyAt [(he, val)] = m := by
      simp [Map.setValues, HashTable.keyAt, hentry]
    -- no entry of this table is at the address
    have hsame : Hashmap.setHashValue hm.m_hashtable he val = hm.m_hashtable := by
      have hother : ∀ chain ∈ hm.m_hashtable.buckets,
          chain.map (HashEntry.setAt he val) = chain := by
        intro chain hchain
        have hall : ∀ x ∈ chain, x.setAt he val = x := by
          intro x hx
          have hne := List.find?_eq_none.mp hentry x (List.mem_flatten.mpr ⟨chain, hchain, hx⟩)
          exact setAt_of_ne (by simpa using hne) val
        rw [List.map_congr_left hall, List.map_id']
      have hbuckets : hm.m_hashtable.buckets.map (List.map (HashEntry.setAt he val)) =
          hm.m_hashtable.buckets := by
        rw [List.map_congr_left hother, List.map_id']
      show { hm.m_hashtable with
        buckets := hm.m_hashtable.buckets.map (List.map (HashEntry.setAt he val)) } = _
      rw [hbuckets]
    rw [hmap, hsame]
    exact h

/-- Setting the values of any entries. -/
theorem Live.setValues (h : Live type hm m) (sets : List (Nat × Value)) :
    Live type { hm with m_hashtable := setValues hm.m_hashtable sets }
      (m.setValues hm.m_hashtable.keyAt sets) := by
  induction sets generalizing hm m with
  | nil => exact h
  | cons set sets ih =>
    have hrest := ih (h.setHashValue set.1 set.2)
    rw [show (Hashmap.setHashValue hm.m_hashtable set.1 set.2).keyAt = hm.m_hashtable.keyAt from
      (setHashValue_shape _ _ _).keyAt] at hrest
    exact hrest

/-- Setting values brings no key and takes none. -/
theorem Map.mem_setValues (hkeys : ∀ he key, keyAt he = some key → key ∈ m)
    (sets : List (Nat × Value)) (k : Key) : k ∈ m.setValues keyAt sets ↔ k ∈ m := by
  induction sets generalizing m with
  | nil => rfl
  | cons set sets ih =>
    cases hset : keyAt set.1 with
    | none =>
      have hcons : m.setValues keyAt (set :: sets) = m.setValues keyAt sets := by
        simp [Map.setValues, hset]
      rw [hcons]
      exact ih hkeys
    | some key =>
      have hcons : m.setValues keyAt (set :: sets) =
          Map.setValues keyAt (m.insert key set.2) sets := by
        simp [Map.setValues, hset]
      rw [hcons, ih (fun he k h => Finmap.mem_insert.mpr (.inr (hkeys he k h))), Finmap.mem_insert]
      constructor
      · rintro (rfl | hmem)
        · exact hkeys set.1 k hset
        · exact hmem
      · exact .inr

/-- **The step lemma for all visits**: the walk does not fail, follows its
course, and shows the map. -/
theorem Live.walk (h : Live type hm m) (proc : IterationProc σ)
    (hrest : ∀ he ∈ rest, he ∈ hm.m_hashtable.addrs.flatten) (ret : Bool) (arg : σ) :
    ∃ ret' visits t arg' m', walk proc rest ret hm.m_hashtable arg = some (ret', visits, t, arg') ∧
      Course rest ret visits ret' ∧ Shown proc hm.m_hashtable.keyAt m arg visits m' arg' ∧
      Live type { hm with m_hashtable := t } m' := by
  induction rest generalizing hm m ret arg with
  | nil => exact ⟨ret, [], _, arg, m, rfl, .done ret, .nil m arg, h⟩
  | cons he rest ih =>
    obtain ⟨hPtr, hentry, hval⟩ := h.entryAt (hrest he List.mem_cons_self)
    have hkey : hm.m_hashtable.keyAt he = some hPtr.key := by
      unfold HashTable.keyAt
      rw [hentry]
      rfl
    unfold Hashmap.walk
    rw [hentry]
    simp only [Option.bind_eq_bind, Option.bind_some]
    generalize hcall : proc hm.m_hashtable hPtr.key hPtr.clientData he arg = r
    -- the call changes values only, so the rest of the way is the same
    have hlive := h.setValues r.sets
    have hshape := setValues_shape hm.m_hashtable r.sets
    let v : Visit := ⟨hPtr.key, hPtr.clientData, he, r.ret, r.sets⟩
    split
    next htrue =>
      have hrest' : ∀ a ∈ rest, a ∈ (Hashmap.setValues hm.m_hashtable r.sets).addrs.flatten := by
        intro a ha
        rw [hshape.addrs]
        exact hrest a (List.mem_cons_of_mem he ha)
      obtain ⟨ret', visits, t, arg', m', hwalk, hcourse, hshown, hlive'⟩ :=
        ih hlive hrest' true r.arg
      simp only [] at hwalk hshown
      rw [hshape.keyAt] at hshown
      rw [hwalk]
      exact ⟨ret', _, t, arg', m', rfl, .go (v := v) ret htrue hcourse,
        .cons (v := v) hkey hval ⟨_, hcall⟩ hshown, hlive'⟩
    next hfalse =>
      exact ⟨false, _, _, r.arg, _, rfl, .halt (v := v) rest ret (by simpa using hfalse),
        .cons (v := v) hkey hval ⟨_, hcall⟩ (.nil _ _), hlive⟩

/-- The calls of the procedure are on the entries whose addresses were visited. -/
theorem Shown.keys (h : Shown proc keyAt m arg visits m' arg') :
    (visits.map Visit.he).map keyAt = (visits.map Visit.key).map some := by
  induction h with
  | nil m arg => rfl
  | cons hkey hval hcall hrest ih =>
    rw [List.map_cons, List.map_cons, List.map_cons, List.map_cons, ih, hkey]

/-- The keys stay. -/
theorem Shown.mem_iff (h : Shown proc keyAt m arg visits m' arg')
    (hkeys : ∀ he key, keyAt he = some key → key ∈ m) (k : Key) : k ∈ m' ↔ k ∈ m := by
  induction h with
  | nil m arg => rfl
  | @cons m m' v visits arg arg' arg'' hkey hval hcall hrest ih =>
    have hmem := Map.mem_setValues hkeys v.sets
    rw [ih (fun he key h => (hmem key).mpr (hkeys he key h)), hmem k]

theorem Live.mem_iff (h : Live type hm m) (k : Key) :
    k ∈ m ↔ k ∈ hm.m_hashtable.buckets.flatten.map HashEntry.key := by
  rw [List.mem_map, Finmap.mem_iff]
  constructor
  · rintro ⟨v, hv⟩
    obtain ⟨e, he, hkey, -⟩ := (h.lists.lookup k v).mp hv
    exact ⟨e, he, hkey⟩
  · rintro ⟨e, he, rfl⟩
    exact ⟨_, h.lists.lookup_of_mem he⟩

/-- Each address has the key of its own entry. -/
theorem Live.keyAt_addrs (h : Live type hm m) :
    hm.m_hashtable.addrs.flatten.map hm.m_hashtable.keyAt =
      (hm.m_hashtable.buckets.flatten.map HashEntry.key).map some := by
  rw [flatten_addrs, List.map_map, List.map_map]
  apply List.map_congr_left
  intro x hx
  show hm.m_hashtable.keyAt x.addr = some x.key
  unfold HashTable.keyAt
  rw [h.settled.toLayout.entryAt hx]
  rfl

theorem Live.keyAt_mem (h : Live type hm m) {he : Nat} {key : Key}
    (hkey : hm.m_hashtable.keyAt he = some key) : key ∈ m := by
  obtain ⟨hPtr, hentry, rfl⟩ := Option.map_eq_some_iff.mp hkey
  rw [h.mem_iff]
  exact List.mem_map_of_mem (List.mem_of_find?_eq_some hentry)

/-! ## §8. Iterations of a hashmap that calls have reached. -/

/-- What the calls have made of an empty map. -/
def mapAfter (seen : List Seen) : Option (Map Key Value) :=
  seen.foldl (fun om l => (mapCall om l.1).2) (some ∅)

theorem run_represents {del : Bool} {seen : List Seen}
    (hrun : Run Step (create type del) seen hm) (hkeys : ∀ l ∈ seen, l.1.HasType type) :
    Represents type hm (mapAfter seen) := by
  have hall := Run.invariant_history
    (fun seen hm => (∀ l ∈ seen, l.1.HasType type) → Represents type hm (mapAfter seen))
    ?_ ?_ hrun
  · exact hall hkeys
  · intro seen hm l hm' _ ih hstep hkeys
    have hrep := ih (fun x hx => hkeys x (List.mem_append_left _ hx))
    have hlast := hkeys l (by simp)
    unfold mapAfter
    rw [List.foldl_append]
    exact (hrep.call hlast hstep).2
  · exact fun _ => .live (live_create type del)

/-- Without a shutdown there is a map. -/
theorem mapAfter_isSome {seen : List Seen} (hopen : ∀ l ∈ seen, ∀ free, l.1 ≠ .shutdown free) :
    ∃ m, mapAfter seen = some m := by
  unfold mapAfter
  induction seen using List.reverseRecOn with
  | nil => exact ⟨∅, rfl⟩
  | append_singleton seen l ih =>
    obtain ⟨m, hm⟩ := ih (fun x hx => hopen x (List.mem_append_left _ hx))
    have hlast := hopen l (by simp)
    rw [List.foldl_append, hm]
    show ∃ m', (mapCall (some m) l.1).2 = some m'
    cases hop : l.1 with
    | shutdown free => exact absurd hop (hlast free)
    | _ => exact ⟨_, rfl⟩

/-- An iteration of an operational hashmap. -/
theorem Live.iterate (h : Live type hm m) (proc : IterationProc σ) (arg : σ) :
    ∃ ret visits t arg' m',
      Hashmap.iterate hm (some proc) arg = some (if ret then .ok else .iterationHalted, visits,
        { hm with m_hashtable := t }, arg') ∧
      Course hm.m_hashtable.addrs.flatten false visits ret ∧
      Shown proc hm.m_hashtable.keyAt m arg visits m' arg' ∧
      Live type { hm with m_hashtable := t } m' := by
  obtain ⟨ret, visits, t, arg', m', hwalk, hcourse, hshown, hlive⟩ :=
    h.walk proc (fun _ hmem => hmem) false arg
  refine ⟨ret, visits, t, arg', m', ?_, hcourse, hshown, hlive⟩
  show Hashmap.sIterate hm proc arg = _
  unfold Hashmap.sIterate
  rw [if_pos h.operational, h.sDoIterate, hwalk]
  cases ret <;> rfl

/-- **An iteration is complete and without repetition**: a procedure that never
returns false is called for each key of the map once, with the value that is there
at that moment, and afterwards the same keys have the values that it has set. -/
theorem iterate_visits_each_key {del : Bool} {seen : List Seen}
    (hrun : Run Step (create type del) seen hm) (hkeys : ∀ l ∈ seen, l.1.HasType type)
    (hopen : ∀ l ∈ seen, ∀ free, l.1 ≠ .shutdown free) (proc : IterationProc σ) (arg : σ) :
    ∃ m m' ret visits hm' arg', mapAfter seen = some m ∧
      iterate hm (some proc) arg = some (ret, visits, hm', arg') ∧
      Shown proc hm.m_hashtable.keyAt m arg visits m' arg' ∧ Represents type hm' (some m') ∧
      (∀ key, key ∈ m' ↔ key ∈ m) ∧
      ((∀ v ∈ visits, v.ret = true) →
        (visits.map Visit.key).Nodup ∧ ∀ key, key ∈ visits.map Visit.key ↔ key ∈ m) := by
  obtain ⟨m, hmap⟩ := mapAfter_isSome hopen
  have hrep := run_represents hrun hkeys
  rw [hmap] at hrep
  cases hrep with
  | live hlive =>
    obtain ⟨ret, visits, t, arg', m', hiterate, hcourse, hshown, hlive'⟩ :=
      hlive.iterate proc arg
    have hsame := hshown.mem_iff (fun he key hkey => hlive.keyAt_mem hkey)
    refine ⟨m, m', _, visits, _, arg', hmap, hiterate, hshown, .live hlive', hsame, ?_⟩
    intro htrue
    -- the addresses that were visited are those of all entries, so the keys are all keys
    have hall : visits.map Visit.key = hm.m_hashtable.buckets.flatten.map HashEntry.key := by
      have hvisited := hshown.keys
      rw [hcourse.complete htrue, hlive.keyAt_addrs] at hvisited
      exact (List.map_injective_iff.mpr (Option.some_injective Key) hvisited).symm
    rw [hall]
    exact ⟨hlive.lists.nodup, fun key => (hlive.mem_iff key).symm⟩

/-- A procedure that doubles each value, and counts its calls. -/
def doubling : IterationProc Nat := fun _ _ val he n =>
  { ret := true, sets := [(he, 2 * val)], arg := n + 1 }

/-- Three keys, one of which is deleted: both others are met once, and have their
new values afterwards. -/
theorem iterate_visits_each_key_two : ∃ hm : Record,
    Run Step (create 8 true) [(.add (.word 1) 5 false true, ⟨.ok, 0, []⟩),
      (.add (.word 2) 6 false true, ⟨.ok, 0, []⟩), (.add (.word 3) 7 false true, ⟨.ok, 0, []⟩),
      (.delete (.word 1) false, ⟨.ok, 5, []⟩)] hm ∧
    ∃ visits hm', iterate hm (some doubling) 0 = some (.ok, visits, hm', 2) ∧
      (visits.map Visit.key).Nodup ∧ .word 2 ∈ visits.map Visit.key ∧
      find hm' (.word 2) = some (⟨.ok, 12, []⟩, hm') := by
  have hcalls : ∃ hm₁ hm₂ hm₃ hm visits hm',
      call (create 8 true) (.add (.word 1) 5 false true) = some (⟨.ok, 0, []⟩, hm₁) ∧
      call hm₁ (.add (.word 2) 6 false true) = some (⟨.ok, 0, []⟩, hm₂) ∧
      call hm₂ (.add (.word 3) 7 false true) = some (⟨.ok, 0, []⟩, hm₃) ∧
      call hm₃ (.delete (.word 1) false) = some (⟨.ok, 5, []⟩, hm) ∧
      iterate hm (some doubling) 0 = some (.ok, visits, hm', 2) ∧
      (∀ v ∈ visits, v.ret = true) ∧ find hm' (.word 2) = some (⟨.ok, 12, []⟩, hm') :=
    ⟨_, _, _, _, _, _, rfl, rfl, rfl, rfl, rfl, by decide, rfl⟩
  obtain ⟨hm₁, hm₂, hm₃, hm, visits, hm', h₁, h₂, h₃, h₄, hiterate, htrue, hfind⟩ := hcalls
  have hrun : Run Step (create 8 true) [(.add (.word 1) 5 false true, ⟨.ok, 0, []⟩),
      (.add (.word 2) 6 false true, ⟨.ok, 0, []⟩), (.add (.word 3) 7 false true, ⟨.ok, 0, []⟩),
      (.delete (.word 1) false, ⟨.ok, 5, []⟩)] hm :=
    .cons h₁ (.cons h₂ (.cons h₃ (.cons h₄ (.nil hm))))
  obtain ⟨m, m', ret, visits', hm'', n, hmap, hiterate', -, -, -, hall⟩ :=
    iterate_visits_each_key hrun (by decide) (by decide) doubling 0
  rw [hiterate] at hiterate'
  obtain ⟨rfl, rfl, rfl, rfl⟩ := hiterate'
  obtain ⟨hnodup, hkeys⟩ := hall htrue
  refine ⟨hm, hrun, visits, hm', hiterate, hnodup, (hkeys _).mpr ?_, hfind⟩
  have hmem : ∀ m' ∈ (some m : Option (Map Key Value)), Key.word 2 ∈ m' := by
    rw [← hmap]
    decide
  exact hmem m rfl

/-- The result of an iteration is right: `ITERATION_HALTED` if and only if a call
of the procedure returned false, which was the last one; else `OK`. -/
def Truthful (ret : Result) (visits : List Visit) : Prop :=
  (ret = .iterationHalted ↔ ∃ v ∈ visits, v.ret = false) ∧
    (∀ v ∈ visits.dropLast, v.ret = true) ∧ (ret ≠ .iterationHalted → ret = .ok)

/-- A hashmap that calls of any kind have reached, iterations included. -/
inductive Reached (type : UInt32) : Record → Prop
  | create (del : Bool) : Reached type (create type del)
  | call {hm hm' : Record} {op : Op} {out : Outcome} (h : Reached type hm)
      (hop : op.HasType type) (hcall : call hm op = some (out, hm')) : Reached type hm'
  | iterate {σ : Type} {hm hm' : Record} {proc : IterationProc σ} {arg arg' : σ} {ret : Result}
      {visits : List Visit} (h : Reached type hm)
      (hiterate : iterate hm (some proc) arg = some (ret, visits, hm', arg')) : Reached type hm'

theorem Reached.represents (h : Reached type hm) : ∃ om, Represents type hm om := by
  induction h with
  | create del => exact ⟨_, .live (live_create type del)⟩
  | call h hop hcall ih =>
    obtain ⟨om, hrep⟩ := ih
    exact ⟨_, (hrep.call hop hcall).2⟩
  | @iterate σ hm hm' proc arg arg' ret visits h hiterate ih =>
    obtain ⟨om, hrep⟩ := ih
    cases hrep with
    | live hlive =>
      obtain ⟨ret, visits, t, arg', m', hiterate', -, -, hlive'⟩ := hlive.iterate proc arg
      rw [hiterate'] at hiterate
      obtain ⟨-, -, rfl, -⟩ := hiterate
      exact ⟨_, .live hlive'⟩
    | down hdown =>
      replace hiterate : sIterate hm proc arg = some (ret, visits, hm', arg') := hiterate
      unfold sIterate at hiterate
      rw [hdown] at hiterate
      obtain ⟨-, -, rfl, -⟩ := hiterate
      exact ⟨_, .down hdown⟩

/-- **An iteration tells the truth exactly when the hashmap has an entry.** -/
theorem iterate_truthful_iff (h : Reached type hm) (hop : hm.m_is_operational = true)
    (proc : IterationProc σ) (arg : σ) :
    ∃ ret visits hm' arg', iterate hm (some proc) arg = some (ret, visits, hm', arg') ∧
      iterateNoLock hm (some proc) arg = some (ret, visits, hm', arg') ∧
      (Truthful ret visits ↔ hm.m_n_entries ≠ 0) := by
  obtain ⟨om, hrep⟩ := h.represents
  cases hrep with
  | down hdown => exact absurd (hdown.symm.trans hop) (by decide)
  | live hlive =>
    obtain ⟨ret, visits, t, arg', m', hiterate, hcourse, -, -⟩ := hlive.iterate proc arg
    refine ⟨_, visits, _, arg', hiterate, hiterate, ?_⟩
    have hcount : hm.m_n_entries ≠ 0 ↔ hm.m_hashtable.addrs.flatten ≠ [] := by
      rw [hlive.count, flatten_addrs, Ne, Int.natCast_eq_zero, List.length_eq_zero_iff, Ne,
        List.map_eq_nil_iff]
    have hret : (if ret then Result.ok else Result.iterationHalted) = Result.iterationHalted ↔
        ret = false := by
      cases ret <;> decide
    rw [hcount]
    constructor
    · intro htruth hempty
      rw [hempty] at hcourse
      cases hcourse
      -- no call, yet the result tells that one returned false
      obtain ⟨v, hv, -⟩ := htruth.1.mp rfl
      exact absurd hv (by simp)
    · intro hne
      refine ⟨hret.trans (hcourse.false_iff hne), hcourse.dropLast, ?_⟩
      cases ret <;> decide

/-- The procedure halts at the first of two entries. -/
theorem iterate_truthful_two : ∃ hm : Record, Reached 8 hm ∧
    ∃ visits hm', iterate hm (some fun _ _ _ _ (n : Nat) => ⟨false, [], n⟩) 0 =
        some (.iterationHalted, visits, hm', 0) ∧
      visits.length = 1 ∧ Truthful .iterationHalted visits := by
  have hcalls : ∃ hm₁ hm visits hm',
      call (create 8 true) (.add (.word 1) 5 false true) = some (⟨.ok, 0, []⟩, hm₁) ∧
      call hm₁ (.add (.word 2) 6 false true) = some (⟨.ok, 0, []⟩, hm) ∧
      hm.m_is_operational = true ∧ hm.m_n_entries ≠ 0 ∧
      iterate hm (some fun _ _ _ _ (n : Nat) => ⟨false, [], n⟩) 0 =
        some (.iterationHalted, visits, hm', 0) ∧ visits.length = 1 :=
    ⟨_, _, _, _, rfl, rfl, rfl, by decide, rfl, rfl⟩
  obtain ⟨hm₁, hm, visits, hm', h₁, h₂, hop, hne, hiterate, hlength⟩ := hcalls
  have hreached : Reached 8 hm := .call (.call (.create true) (by decide) h₁) (by decide) h₂
  obtain ⟨ret, visits', hm'', n, hiterate', -, htruth⟩ := iterate_truthful_iff hreached hop
    (fun _ _ _ _ (n : Nat) => ⟨false, [], n⟩) 0
  rw [hiterate] at hiterate'
  obtain ⟨rfl, rfl, rfl, rfl⟩ := hiterate'
  exact ⟨hm, hreached, visits, hm', hiterate, hlength, htruth.mpr hne⟩

/-- On an empty hashmap an iteration is said to be halted, though its procedure is
never called. -/
theorem iterate_empty_halted : Reached 8 (create 8 true) ∧
    (create 8 true).m_is_operational = true ∧
    ∃ hm', iterate (create 8 true) (some doubling) 0 = some (.iterationHalted, [], hm', 0) ∧
      ¬ Truthful .iterationHalted [] := by
  refine ⟨.create true, rfl, _, rfl, ?_⟩
  intro htruth
  obtain ⟨v, hv, -⟩ := htruth.1.mp rfl
  exact absurd hv (by simp)

end Mccp.Hashmap
