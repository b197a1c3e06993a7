/-
  Mccp.Lock.Deadline
  ──────────────────
  **DEADLINES: THE CLOCK, PLUS A TIMEOUT, AS A TIMESPEC.**

  mccp_cond_wait() and the three timed locks take the clock in nanoseconds, add
  the timeout and split the sum for pthread.  The sum is a signed 64-bit
  integer, and nothing looks at its size: a timeout that means practically for
  ever makes a deadline that is long past.

      nsecToTs, tsToNsec    — NSEC_TO_TS and TS_TO_NSEC
      timedlock, condWait   — the calls, with what they hand to pthread
      deadline_ok_iff       — when the deadline is the one that is asked for
      deadlines_safe_iff    — the same for all four calls
-/
import Mccp.Lib.Memory
import Mccp.Lock.Mutex
import Mccp.Lock.Rwlock

namespace Mccp.Lock

open Memory

/-! ## §1. Time. -/

/-- `struct timespec`. -/
structure Timespec where
  tv_sec : Int
  tv_nsec : Int
  deriving DecidableEq, Repr

/-- The time that a timespec stands for, in nanoseconds. -/
def Timespec.nanos (ts : Timespec) : Int := ts.tv_sec * 10 ^ 9 + ts.tv_nsec

/-- The form of a timespec that pthread accepts. -/
def Timespec.Normalised (ts : Timespec) : Prop := 0 ≤ ts.tv_nsec ∧ ts.tv_nsec < 10 ^ 9

instance (ts : Timespec) : Decidable ts.Normalised :=
  inferInstanceAs (Decidable (0 ≤ ts.tv_nsec ∧ ts.tv_nsec < 10 ^ 9))

/-- `NSEC_TO_TS`; C divides toward zero. -/
def nsecToTs (nsec : Int) : Timespec where
  tv_sec := nsec.tdiv (1000 * 1000 * 1000)
  tv_nsec := nsec.tmod (1000 * 1000 * 1000)

/-- `TS_TO_NSEC`, in a `mccp_chrono_t`. -/
def tsToNsec (ts : Timespec) : Int := int64 (ts.tv_sec * 1000 * 1000 * 1000 + ts.tv_nsec)

/-- The deadline that lies `nsec` after the time on the clock:
`WHAT_TIME_IS_IT_NOW_IN_NSEC(now); now += nsec; NSEC_TO_TS(now, ts)`. -/
def deadline (clock : Timespec) (nsec : Int) : Timespec := nsecToTs (int64 (tsToNsec clock + nsec))

/-! ## §2. The timed calls. -/

/-- `EINTR`. -/
abbrev eintr : Int := 4

/-- `ETIMEDOUT`. -/
abbrev etimedout : Int := 110

/-- What a timed call has done: the timespecs it has handed to pthread, in
order, its result once it has returned, and what it stores into `errno` and into
`m_prev_cancel_state`. -/
structure Timed where
  given : List Timespec
  ret : Option Result
  errno : Option Int
  m_prev_cancel_state : Option Int
  deriving DecidableEq, Repr

/-- The end of a lock call, by what pthread has returned. -/
def locked (given : List Timespec) (st : Int) (mayTimeout : Bool) : Timed :=
  if st = 0 then
    -- INT_MAX, negated: a plain region
    { given := given, ret := some .ok, errno := none, m_prev_cancel_state := some (-2147483647) }
  else if mayTimeout ∧ st = etimedout then
    { given := given, ret := some .timedout, errno := some st, m_prev_cancel_state := none }
  else { given := given, ret := some .posixApiError, errno := some st, m_prev_cancel_state := none }

/-- A timed lock; `object` tells whether the lock is there, `lock` and `timed`
are the pthread calls without a deadline and with one. -/
def timedlock (object : Bool) (nsec : Int) (clock : Timespec) (lock : Int)
    (timed : Timespec → Int) : Timed :=
  if object then
    if nsec < 0 then locked [] lock false
    else locked [deadline clock nsec] (timed (deadline clock nsec)) true
  else { given := [], ret := some .invalidArgs, errno := none, m_prev_cancel_state := none }

/-- `mccp_mutex_timedlock`. -/
def mutexTimedlock (mtx : Bool) (nsec : Int) (clock : Timespec) (pthread_mutex_lock : Int)
    (pthread_mutex_timedlock : Timespec → Int) : Timed :=
  timedlock mtx nsec clock pthread_mutex_lock pthread_mutex_timedlock

/-- `mccp_rwlock_reader_timedlock`. -/
def rwlockReaderTimedlock (rwl : Bool) (nsec : Int) (clock : Timespec)
    (pthread_rwlock_rdlock : Int) (pthread_rwlock_timedrdlock : Timespec → Int) : Timed :=
  timedlock rwl nsec clock pthread_rwlock_rdlock pthread_rwlock_timedrdlock

/-- `mccp_rwlock_writer_timedlock`. -/
def rwlockWriterTimedlock (rwl : Bool) (nsec : Int) (clock : Timespec)
    (pthread_rwlock_wrlock : Int) (pthread_rwlock_timedwrlock : Timespec → Int) : Timed :=
  timedlock rwl nsec clock pthread_rwlock_wrlock pthread_rwlock_timedwrlock

/-- `mccp_cond_wait` from `retry` on; `sts` are the results of
pthread_cond_timedwait() so far. -/
def retry (ts : Timespec) : List Int → Timed
  -- still in pthread_cond_timedwait()
  | [] => { given := [ts], ret := none, errno := some 0, m_prev_cancel_state := none }
  | st :: sts =>
      if st = 0 then
        { given := [ts], ret := some .ok, errno := some 0, m_prev_cancel_state := none }
      else if st = eintr then
        let again := retry ts sts
        { again with given := ts :: again.given }
      else if st = etimedout then
        { given := [ts], ret := some .timedout, errno := some 0, m_prev_cancel_state := none }
      else
        { given := [ts], ret := some .posixApiError, errno := some st, m_prev_cancel_state := none }

/-- `mccp_cond_wait`; `wait` is the result of pthread_cond_wait(). -/
def condWait (cnd mtx : Bool) (nsec : Int) (clock : Timespec) (wait : Int) (sts : List Int) :
    Timed :=
  if mtx ∧ cnd then
    if nsec < 0 then
      if wait = 0 then
        { given := [], ret := some .ok, errno := some 0, m_prev_cancel_state := none }
      else
        { given := [], ret := some .posixApiError, errno := some wait, m_prev_cancel_state := none }
    else retry (deadline clock nsec) sts
  else { given := [], ret := some .invalidArgs, errno := none, m_prev_cancel_state := none }

/-! ## §3. Deadlines. -/

/-- A timespec is a proper deadline `nsec` after `now`: normalised, not past, and
the sum itself, or later than any run. -/
def DeadlineOk (now nsec : Int) (ts : Timespec) : Prop :=
  ts.Normalised ∧ now ≤ ts.nanos ∧ (ts.nanos = now + nsec ∨ 2 ^ 63 - 1 ≤ ts.nanos)

variable {clock ts : Timespec} {nsec : Int}

/-- The split loses nothing, whatever the sign. -/
theorem nsecToTs_nanos (nsec : Int) : (nsecToTs nsec).nanos = nsec := by
  have h := Int.mul_tdiv_add_tmod nsec (1000 * 1000 * 1000)
  unfold nsecToTs Timespec.nanos
  dsimp only
  omega

theorem nsecToTs_normalised {nsec : Int} (h : 0 ≤ nsec) : (nsecToTs nsec).Normalised := by
  refine ⟨Int.tmod_nonneg _ h, ?_⟩
  exact Int.tmod_lt_of_pos nsec (by decide)

/-- `TS_TO_NSEC` is the time, where it fits. -/
theorem tsToNsec_eq (hlo : -2 ^ 63 ≤ ts.nanos) (hhi : ts.nanos < 2 ^ 63) :
    tsToNsec ts = ts.nanos := by
  unfold tsToNsec
  unfold Timespec.nanos at hlo hhi ⊢
  rw [int64_of_range (by omega) (by omega)]
  omega

/-- A sum in range is the deadline; one out of range is a time long past. -/
theorem deadline_nanos (h0 : 0 ≤ clock.nanos) (h62 : clock.nanos < 2 ^ 62) (hnsec : 0 ≤ nsec)
    (hmax : nsec < 2 ^ 63) :
    (deadline clock nsec).nanos =
      if clock.nanos + nsec < 2 ^ 63 then clock.nanos + nsec
      else clock.nanos + nsec - 2 ^ 64 := by
  unfold deadline
  rw [nsecToTs_nanos, tsToNsec_eq (by omega) (by omega)]
  split
  · rw [int64_of_range (by omega) (by omega)]
  · unfold int64
    omega

/-- **The deadline is the one that is asked for exactly when the sum fits.** -/
theorem deadline_ok_iff (h0 : 0 ≤ clock.nanos) (h62 : clock.nanos < 2 ^ 62) (hnsec : 0 ≤ nsec)
    (hmax : nsec < 2 ^ 63) :
    DeadlineOk clock.nanos nsec (deadline clock nsec) ↔ clock.nanos + nsec < 2 ^ 63 := by
  have hnanos := deadline_nanos h0 h62 hnsec hmax
  constructor
  · intro h
    by_contra hover
    -- the sum has wrapped: the deadline is before the clock
    rw [if_neg hover] at hnanos
    have hlate := h.2.1
    omega
  · intro hfits
    rw [if_pos hfits] at hnanos
    refine ⟨?_, by omega, .inl hnanos⟩
    unfold deadline
    rw [tsToNsec_eq (by omega) (by omega), int64_of_range (by omega) (by omega)]
    exact nsecToTs_normalised (by omega)

/-! ## §4. What is handed to pthread. -/

/-- The deadlines of a call are safe: the addition does not overflow, and each
timespec handed to pthread is a proper deadline. -/
def Safe (now nsec : Int) (t : Timed) : Prop :=
  (-2 ^ 63 ≤ now + nsec ∧ now + nsec < 2 ^ 63) ∧ ∀ ts ∈ t.given, DeadlineOk now nsec ts

theorem locked_given (given : List Timespec) (st : Int) (mayTimeout : Bool) :
    (locked given st mayTimeout).given = given := by
  unfold locked
  split
  next => rfl
  next => split <;> rfl

/-- The call hands this timespec to pthread, once or more often, and no other. -/
def Timed.Hands (t : Timed) (ts : Timespec) : Prop := t.given ≠ [] ∧ ∀ x ∈ t.given, x = ts

theorem timedlock_hands (hnsec : 0 ≤ nsec) (lock : Int) (timed : Timespec → Int) :
    (timedlock true nsec clock lock timed).Hands (deadline clock nsec) := by
  have hgiven : (timedlock true nsec clock lock timed).given = [deadline clock nsec] := by
    unfold timedlock
    rw [if_pos rfl, if_neg (by omega), locked_given]
  refine ⟨by rw [hgiven]; exact List.cons_ne_nil _ _, ?_⟩
  intro x hx
  rw [hgiven] at hx
  exact List.mem_singleton.mp hx

/-- However often it is interrupted, a wait keeps its deadline. -/
theorem retry_hands (sts : List Int) : (retry ts sts).Hands ts := by
  have hone : ∀ x ∈ [ts], x = ts := fun x hx => List.mem_singleton.mp hx
  have hne : [ts] ≠ [] := List.cons_ne_nil _ _
  induction sts with
  | nil => exact ⟨hne, hone⟩
  | cons st sts ih =>
    unfold retry
    split
    next => exact ⟨hne, hone⟩
    next =>
      split
      next =>
        refine ⟨List.cons_ne_nil _ _, fun x hx => ?_⟩
        rcases List.mem_cons.mp hx with rfl | hx
        · rfl
        · exact ih.2 x hx
      next => split <;> exact ⟨hne, hone⟩

theorem condWait_hands (hnsec : 0 ≤ nsec) (wait : Int) (sts : List Int) :
    (condWait true true nsec clock wait sts).Hands (deadline clock nsec) := by
  unfold condWait
  rw [if_pos ⟨rfl, rfl⟩, if_neg (by omega)]
  exact retry_hands sts

/-- A call that hands out this one deadline is safe when the sum fits; when it
does not, what it hands out is no proper deadline. -/
theorem Timed.Hands.safe_iff {t : Timed} (h : t.Hands (deadline clock nsec))
    (h0 : 0 ≤ clock.nanos) (h62 : clock.nanos < 2 ^ 62) (hnsec : 0 ≤ nsec) (hmax : nsec < 2 ^ 63) :
    (Safe clock.nanos nsec t ↔ clock.nanos + nsec < 2 ^ 63) ∧
    ((∀ ts ∈ t.given, DeadlineOk clock.nanos nsec ts) ↔ clock.nanos + nsec < 2 ^ 63) := by
  have hiff := deadline_ok_iff h0 h62 hnsec hmax
  have hall : (∀ ts ∈ t.given, DeadlineOk clock.nanos nsec ts) ↔
      clock.nanos + nsec < 2 ^ 63 := by
    rw [← hiff]
    constructor
    · intro hok
      obtain ⟨ts, hts⟩ := List.exists_mem_of_ne_nil _ h.1
      rw [← h.2 ts hts]
      exact hok ts hts
    · intro hok ts hts
      rw [h.2 ts hts]
      exact hok
  refine ⟨?_, hall⟩
  constructor
  · intro hsafe
    exact hsafe.1.2
  · intro hfits
    exact ⟨⟨by omega, hfits⟩, hall.mpr hfits⟩

/-- **The deadline arithmetic of all four calls is safe exactly when the clock
and the timeout together fit a signed 64-bit integer**, whatever pthread answers
and however often the wait is interrupted. -/
theorem deadlines_safe_iff (h0 : 0 ≤ clock.nanos) (h62 : clock.nanos < 2 ^ 62) (hnsec : 0 ≤ nsec)
    (hmax : nsec < 2 ^ 63) (lock : Int) (timed : Timespec → Int) (sts : List Int) :
    ∀ t ∈ [mutexTimedlock true nsec clock lock timed,
        rwlockReaderTimedlock true nsec clock lock timed,
        rwlockWriterTimedlock true nsec clock lock timed,
        condWait true true nsec clock lock sts],
      (Safe clock.nanos nsec t ↔ clock.nanos + nsec < 2 ^ 63) ∧
      ((∀ ts ∈ t.given, DeadlineOk clock.nanos nsec ts) ↔ clock.nanos + nsec < 2 ^ 63) := by
  have hlock := @timedlock_hands clock nsec hnsec lock timed
  have hwait := @condWait_hands clock nsec hnsec lock sts
  intro t ht
  refine Timed.Hands.safe_iff ?_ h0 h62 hnsec hmax
  simp only [List.mem_cons, List.not_mem_nil, or_false] at ht
  rcases ht with rfl | rfl | rfl | rfl
  · exact hlock
  · exact hlock
  · exact hlock
  · exact hwait

/-- A minute from one and a half seconds after the epoch. -/
theorem deadlines_safe_minute :
    Safe (1500 * 10 ^ 6) (60 * 10 ^ 9)
      (mutexTimedlock true (60 * 10 ^ 9) ⟨1, 500 * 10 ^ 6⟩ 0 fun _ => 0) := by
  have h := @deadlines_safe_iff ⟨1, 500 * 10 ^ 6⟩ (60 * 10 ^ 9)
    (by decide) (by decide) (by decide) (by decide) 0 (fun _ => 0) []
  exact (h _ List.mem_cons_self).1.mpr (by decide)

/-- The largest timeout, one second after the epoch: the sum wraps, all four
calls hand pthread a time before the epoch that is not even normalised. -/
theorem deadline_for_ever_is_past :
    deadline ⟨1, 0⟩ (2 ^ 63 - 1) = { tv_sec := -9223372035, tv_nsec := -854775809 } ∧
    ∀ t ∈ [mutexTimedlock true (2 ^ 63 - 1) ⟨1, 0⟩ 0 fun _ => 22,
        rwlockReaderTimedlock true (2 ^ 63 - 1) ⟨1, 0⟩ 0 fun _ => 22,
        rwlockWriterTimedlock true (2 ^ 63 - 1) ⟨1, 0⟩ 0 fun _ => 22,
        condWait true true (2 ^ 63 - 1) ⟨1, 0⟩ 0 [22]],
      t.given = [deadline ⟨1, 0⟩ (2 ^ 63 - 1)] ∧
      t.ret = some .posixApiError ∧ ¬ Safe (10 ^ 9) (2 ^ 63 - 1) t := by
  refine ⟨by decide, fun t ht => ?_⟩
  have hover : ¬ Safe (10 ^ 9) (2 ^ 63 - 1) t := by
    intro h
    exact absurd h.1.2 (by decide)
  simp only [List.mem_cons, List.not_mem_nil, or_false] at ht
  rcases ht with rfl | rfl | rfl | rfl
  · exact ⟨by decide, by decide, hover⟩
  · exact ⟨by decide, by decide, hover⟩
  · exact ⟨by decide, by decide, hover⟩
  · exact ⟨by decide, by decide, hover⟩

end Mccp.Lock
