/-
  Mccp.Chrono.Convert
  ───────────────────
  **TIME CONVERSIONS: chrono.c.**

  A `mccp_chrono_t` is a signed number of nanoseconds.  As a timespec it loses
  nothing.  As a timeval it is rounded to microseconds, by half of one that is
  added whatever the sign before a division toward zero: further than that below
  zero the result is one microsecond more than the nearest, and what came from a
  timeval does not go back to it.

      nsecToTv, tvToNsec     — NSEC_TO_TV and TV_TO_NSEC
      nsecToUsec_eq          — the two divisions of NSEC_TO_USEC are one
      timespec_round_trip    — a timespec loses nothing
      rounds_iff             — when a timeval is the nearest one
      timeval_rounds_iff     — and when one goes there and back
-/
import Mccp.Lib.Rounding
import Mccp.Lock.Deadline

namespace Mccp.Chrono

open Lock (Timespec nsecToTs tsToNsec nsecToTs_nanos tsToNsec_eq)
open Memory
open Rounding

/-! ## §1. The conversions. -/

/-- `struct timeval`. -/
structure Timeval where
  tv_sec : Int
  tv_usec : Int
  deriving DecidableEq, Repr

/-- The time that a timeval stands for, in nanoseconds. -/
def Timeval.nanos (tv : Timeval) : Int := (tv.tv_sec * 10 ^ 6 + tv.tv_usec) * 1000

/-- `NSEC_TO_USEC`; C divides toward zero. -/
def nsecToUsec (nsec : Int) : Int := int64 ((nsec.tdiv 100 + 5).tdiv 10)

/-- `NSEC_TO_TV`. -/
def nsecToTv (nsec : Int) : Timeval where
  tv_sec := (nsecToUsec nsec).tdiv (1000 * 1000)
  tv_usec := (nsecToUsec nsec).tmod (1000 * 1000)

/-- `TV_TO_NSEC`. -/
def tvToNsec (tv : Timeval) : Int := int64 ((tv.tv_sec * 1000 * 1000 + tv.tv_usec) * 1000)

/-- A conversion: what it returns, and what it stores into `*dstptr`; both
pointers are looked at. -/
def store {α β : Type} (dstptr : Bool) (src : Option α) (convert : α → β) : Result × Option β :=
  match dstptr, src with
  | true, some a => (.ok, some (convert a))
  | _, _ => (.invalidArgs, none)

/-- `mccp_chrono_to_timespec`. -/
def chronoToTimespec (dstptr : Bool) (nsec : Int) : Result × Option Timespec :=
  store dstptr (some nsec) nsecToTs

/-- `mccp_chrono_to_timeval`. -/
def chronoToTimeval (dstptr : Bool) (nsec : Int) : Result × Option Timeval :=
  store dstptr (some nsec) nsecToTv

/-- `mccp_chrono_from_timespec`. -/
def chronoFromTimespec (dstptr : Bool) (specptr : Option Timespec) : Result × Option Int :=
  store dstptr specptr tsToNsec

/-- `mccp_chrono_from_timeval`. -/
def chronoFromTimeval (dstptr : Bool) (specptr : Option Timeval) : Result × Option Int :=
  store dstptr specptr tvToNsec

/-! ## §2. Timespecs. -/

variable {nsec : Int} {tv : Timeval}

/-- What is stored is the conversion. -/
theorem store_eq_some {α β : Type} {a : α} {b : β} {convert : α → β} :
    store true (some a) convert = (.ok, some b) ↔ convert a = b := by
  unfold store
  constructor
  · intro h
    injection h with _ h
    exact Option.some.inj h
  · rintro rfl
    rfl

/-- A split loses nothing. -/
theorem tsToNsec_nsecToTs (hlo : -2 ^ 63 ≤ nsec) (hhi : nsec < 2 ^ 63) :
    tsToNsec (nsecToTs nsec) = nsec := by
  have hsplit := nsecToTs_nanos nsec
  rw [tsToNsec_eq (by omega) (by omega), hsplit]

/-- **As a timespec, a time of either sign goes there and back.** -/
theorem timespec_round_trip (hlo : -2 ^ 63 ≤ nsec) (hhi : nsec < 2 ^ 63) :
    ∃ ts, chronoToTimespec true nsec = (.ok, some ts) ∧ ts.nanos = nsec ∧
      chronoFromTimespec true (some ts) = (.ok, some nsec) :=
  ⟨nsecToTs nsec, rfl, nsecToTs_nanos nsec, store_eq_some.mpr (tsToNsec_nsecToTs hlo hhi)⟩

/-! ## §3. Timevals. -/

/-- **The two divisions of `NSEC_TO_USEC` are one**: half a microsecond is added,
and the sum is cut toward zero. -/
theorem nsecToUsec_eq (hlo : -2 ^ 63 ≤ nsec) (hhi : nsec < 2 ^ 63) :
    nsecToUsec nsec = roundTrunc 500 nsec := by
  have hone : (nsec.tdiv 100 + 5).tdiv 10 = roundTrunc 500 nsec :=
    tdiv_add_tdiv (by decide) (by decide) (by decide) nsec
  have hdiv := Int.mul_tdiv_add_tmod (nsec + 500) (2 * 500)
  have hr := Int.tmod_lt_of_pos (nsec + 500) (show 0 < 2 * 500 by decide)
  have hr' := Int.lt_tmod_of_pos (nsec + 500) (show 0 < 2 * 500 by decide)
  unfold nsecToUsec
  rw [hone]
  unfold roundTrunc
  exact int64_of_range (by omega) (by omega)

/-- The split into seconds and microseconds loses nothing. -/
theorem nsecToTv_nanos (hlo : -2 ^ 63 ≤ nsec) (hhi : nsec < 2 ^ 63) :
    (nsecToTv nsec).nanos = 1000 * roundTrunc 500 nsec := by
  have h := Int.mul_tdiv_add_tmod (roundTrunc 500 nsec) (1000 * 1000)
  unfold nsecToTv Timeval.nanos
  rw [nsecToUsec_eq hlo hhi]
  dsimp only
  omega

/-- The timeval that a time becomes is at most half a microsecond away from it. -/
def Rounds (nsec : Int) : Prop :=
  ∃ tv, chronoToTimeval true nsec = (.ok, some tv) ∧ |tv.nanos - nsec| ≤ 500

/-- A timeval becomes a time that becomes the same timeval. -/
def RoundTrips (tv : Timeval) : Prop :=
  ∃ nsec, chronoFromTimeval true (some tv) = (.ok, some nsec) ∧
    chronoToTimeval true nsec = (.ok, some tv)

/-- The nearest timeval is found from half a microsecond before zero on, and
halfway between two microseconds. -/
theorem rounds_iff (hlo : -2 ^ 63 ≤ nsec) (hhi : nsec < 2 ^ 63) :
    Rounds nsec ↔ -500 ≤ nsec ∨ 1000 ∣ nsec + 500 := by
  refine Iff.trans ?_ (roundTrunc_near_iff (show (0 : Int) < 500 by decide) nsec)
  unfold Rounds
  constructor
  · rintro ⟨tv, hto, hnear⟩
    rw [← store_eq_some.mp hto, nsecToTv_nanos hlo hhi] at hnear
    exact hnear
  · intro hnear
    refine ⟨nsecToTv nsec, rfl, ?_⟩
    rw [nsecToTv_nanos hlo hhi]
    exact hnear

theorem tvToNsec_eq (hlo : -2 ^ 63 ≤ tv.nanos) (hhi : tv.nanos < 2 ^ 63) :
    tvToNsec tv = tv.nanos := by
  unfold tvToNsec
  unfold Timeval.nanos at hlo hhi ⊢
  rw [int64_of_range (by omega) (by omega)]
  omega

/-- A timeval with a proper number of microseconds is the split of its time. -/
theorem Timeval.split (h0 : 0 ≤ tv.tv_usec) (h6 : tv.tv_usec < 10 ^ 6) (hsec : 0 ≤ tv.tv_sec) :
    tv = { tv_sec := (tv.tv_sec * 10 ^ 6 + tv.tv_usec).tdiv (1000 * 1000)
           tv_usec := (tv.tv_sec * 10 ^ 6 + tv.tv_usec).tmod (1000 * 1000) } := by
  obtain ⟨s, u⟩ := tv
  dsimp only at h0 h6 hsec ⊢
  rw [Timeval.mk.injEq, Int.tdiv_eq_ediv_of_nonneg (by omega),
    Int.tmod_eq_emod_of_nonneg (by omega)]
  omega

/-- Where a timeval goes there and back: its time is a whole number of
microseconds, which a time before zero does not keep. -/
theorem roundTrips_iff (h0 : 0 ≤ tv.tv_usec) (h6 : tv.tv_usec < 10 ^ 6)
    (hlo : -2 ^ 63 ≤ tv.nanos) (hhi : tv.nanos < 2 ^ 63) : RoundTrips tv ↔ 0 ≤ tv.tv_sec := by
  have hunits : tv.nanos = 2 * 500 * (tv.tv_sec * 10 ^ 6 + tv.tv_usec) := by
    unfold Timeval.nanos
    omega
  have hround : roundTrunc 500 tv.nanos =
      if 0 ≤ tv.tv_sec * 10 ^ 6 + tv.tv_usec then tv.tv_sec * 10 ^ 6 + tv.tv_usec
      else tv.tv_sec * 10 ^ 6 + tv.tv_usec + 1 := by
    rw [hunits]
    exact roundTrunc_mul (by decide) _
  unfold RoundTrips
  constructor
  · rintro ⟨nsec, hfrom, hto⟩
    have hnsec : nsec = tv.nanos := by rw [← store_eq_some.mp hfrom, tvToNsec_eq hlo hhi]
    subst hnsec
    by_contra hneg
    -- the way back is a microsecond too far
    have hback := nsecToTv_nanos hlo hhi
    rw [store_eq_some.mp hto, hround, if_neg (by omega), hunits] at hback
    omega
  · intro hsec
    refine ⟨tv.nanos, store_eq_some.mpr (tvToNsec_eq hlo hhi), store_eq_some.mpr ?_⟩
    unfold nsecToTv
    rw [nsecToUsec_eq hlo hhi, hround, if_pos (by omega)]
    exact (Timeval.split h0 h6 hsec).symm

/-- **When the conversions to and from a timeval round and go there and back**:
for times from half a microsecond before zero on, or halfway between two
microseconds, and for timevals whose seconds are not negative. -/
theorem timeval_rounds_iff (hlo : -2 ^ 63 ≤ nsec) (hhi : nsec < 2 ^ 63) (h0 : 0 ≤ tv.tv_usec)
    (h6 : tv.tv_usec < 10 ^ 6) (htvlo : -2 ^ 63 ≤ tv.nanos) (htvhi : tv.nanos < 2 ^ 63) :
    (Rounds nsec ↔ -500 ≤ nsec ∨ 1000 ∣ nsec + 500) ∧ (RoundTrips tv ↔ 0 ≤ tv.tv_sec) :=
  ⟨rounds_iff hlo hhi, roundTrips_iff h0 h6 htvlo htvhi⟩

/-- One and a half seconds, and the same as a timeval. -/
theorem timeval_rounds_later : Rounds (1500 * 10 ^ 6) ∧ RoundTrips ⟨1, 500 * 10 ^ 3⟩ := by
  have h := @timeval_rounds_iff (1500 * 10 ^ 6) ⟨1, 500 * 10 ^ 3⟩ (by decide) (by decide)
    (by decide) (by decide) (by decide) (by decide)
  exact ⟨h.1.mpr (.inl (by decide)), h.2.mpr (by decide)⟩

/-- A microsecond before zero becomes zero, and a second before zero becomes a
microsecond less than that. -/
theorem timeval_before_zero :
    chronoToTimeval true (-1000) = (.ok, some ⟨0, 0⟩) ∧ ¬ Rounds (-1000) ∧
    chronoFromTimeval true (some ⟨-1, 0⟩) = (.ok, some (-10 ^ 9)) ∧
    chronoToTimeval true (-10 ^ 9) = (.ok, some ⟨0, -999999⟩) ∧ ¬ RoundTrips ⟨-1, 0⟩ := by
  refine ⟨by decide, ?_, by decide, by decide, ?_⟩
  · rintro ⟨tv, hto, hnear⟩
    rw [← store_eq_some.mp hto] at hnear
    exact absurd hnear (by decide)
  · rintro ⟨nsec, hfrom, hto⟩
    rw [← store_eq_some.mp hfrom] at hto
    exact absurd hto (by decide)

end Mccp.Chrono
