/-
  Mccp.Chrono.Nanosleep
  ─────────────────────
  **SLEEPING: mccp_chrono_nanosleep().**

  Without a place for the time that is left, a sleep that a signal interrupts is
  gone on with until all of it is over.  With one, there is a single sleep, and
  the time that is left is stored there.  That sleep asks for what happens to
  be in a local variable that is not yet set.

      nanosleep           — nanosleep(2), interrupted or not
      chronoNanosleep     — mccp_chrono_nanosleep()
      retry_exact         — each retry asks for what is left
      SleepsFor           — what a call is to do
      sleeps_for_iff      — when it does
-/
import Mccp.Chrono.Convert
import Mccp.Lib.Budget

namespace Mccp.Chrono

open Budget
open Lock (Timespec nsecToTs tsToNsec nsecToTs_nanos nsecToTs_normalised tsToNsec_eq eintr)

/-! ## §1. nanosleep(2). -/

/-- `EINVAL`. -/
abbrev einval : Int := 22

/-- A timespec that nanosleep(2) can sleep for. -/
def Requestable (ts : Timespec) : Prop := 0 ≤ ts.tv_sec ∧ ts.Normalised

instance (ts : Timespec) : Decidable (Requestable ts) :=
  inferInstanceAs (Decidable (0 ≤ ts.tv_sec ∧ ts.Normalised))

/-- The time that is left, as the kernel hands it out. -/
def leftOver (left : Int) : Timespec where
  tv_sec := left / 10 ^ 9
  tv_nsec := left % 10 ^ 9

/-- The end of a sleep: what nanosleep(2) returns, `errno`, what it stores into
the second timespec, and the time it has taken. -/
structure Woken where
  st : Int
  errno : Int
  rem : Option Timespec
  took : Int
  deriving DecidableEq, Repr

/-- `nanosleep`; `signal` is when, after its beginning, the next signal arrives. -/
def nanosleep (req : Timespec) (signal : Option Nat) : Woken :=
  if Requestable req then
    let slept : Woken := { st := 0, errno := 0, rem := none, took := req.nanos }
    match signal with
    | some k =>
        if (k : Int) < req.nanos then
          { st := -1, errno := eintr, rem := some (leftOver (req.nanos - k)), took := k }
        else slept
    | none => slept
  else { st := -1, errno := einval, rem := none, took := 0 }

/-! ## §2. `mccp_chrono_nanosleep`. -/

/-- A sleep: what it asks for, and the time it takes, none until it ends. -/
structure Sleep where
  asked : Timespec
  took : Int
  deriving DecidableEq, Repr

/-- What a call has done: its sleeps, in order, its result once it has returned,
and what it stores into `errno` and into `*remptr`. -/
structure Nap where
  sleeps : List Sleep
  ret : Option Result
  errno : Option Int
  rem : Option Int
  deriving DecidableEq, Repr

/-- `mccp_chrono_nanosleep` from `retry` on; the signals are those of the sleeps
that have ended so far. -/
def retry (t r : Timespec) : List (Option Nat) → Nap
  -- still in nanosleep()
  | [] => { sleeps := [⟨t, 0⟩], ret := none, errno := some 0, rem := none }
  | signal :: signals =>
      let w := nanosleep t signal
      if w.st = 0 then
        { sleeps := [⟨t, w.took⟩], ret := some .ok, errno := some w.errno, rem := none }
      else if w.errno = eintr then
        let r := w.rem.getD r
        let again := retry r r signals
        { again with sleeps := ⟨t, w.took⟩ :: again.sleeps }
      else
        { sleeps := [⟨t, w.took⟩], ret := some .posixApiError, errno := some w.errno, rem := none }

/-- `mccp_chrono_nanosleep` with `remptr`. -/
def sleepOnce (t r : Timespec) : List (Option Nat) → Nap
  | [] => { sleeps := [⟨t, 0⟩], ret := none, errno := some 0, rem := none }
  | signal :: _ =>
      let w := nanosleep t signal
      if w.st = 0 then
        { sleeps := [⟨t, w.took⟩], ret := some .ok, errno := some w.errno, rem := none }
      else
        { sleeps := [⟨t, w.took⟩], ret := some .posixApiError, errno := some w.errno,
          rem := some (tsToNsec (w.rem.getD r)) }

/-- `mccp_chrono_nanosleep`; `remptr` tells whether there is a place for the time
that is left, `t` and `r` are what its two local variables happen to hold. -/
def chronoNanosleep (nsec : Int) (remptr : Bool) (t r : Timespec) (signals : List (Option Nat)) :
    Nap :=
  if nsec < 0 then { sleeps := [], ret := some .invalidArgs, errno := none, rem := none }
  else if remptr then sleepOnce t r signals
  else retry (nsecToTs nsec) r signals

/-! ## §3. Timespecs that are asked for. -/

variable {nsec left : Int} {t r : Timespec} {signal : Option Nat} {signals : List (Option Nat)}

theorem leftOver_nanos (left : Int) : (leftOver left).nanos = left := by
  unfold leftOver Timespec.nanos
  dsimp only
  omega

theorem leftOver_requestable (h : 0 ≤ left) : Requestable (leftOver left) := by
  unfold Requestable leftOver Timespec.Normalised
  dsimp only
  omega

/-- A time has one split only that can be slept for. -/
theorem Requestable.eq_leftOver (h : Requestable t) : t = leftOver t.nanos := by
  obtain ⟨s, n⟩ := t
  obtain ⟨-, h0, h9⟩ := h
  dsimp only at h0 h9
  unfold leftOver Timespec.nanos
  rw [Timespec.mk.injEq]
  dsimp only
  omega

theorem nsecToTs_requestable (h : 0 ≤ nsec) : Requestable (nsecToTs nsec) :=
  ⟨Int.tdiv_nonneg h (by decide), nsecToTs_normalised h⟩

/-- `NSEC_TO_TS` is the split that is asked for. -/
theorem requestable_iff (h : 0 ≤ nsec) : Requestable t ∧ t.nanos = nsec ↔ t = nsecToTs nsec := by
  constructor
  · rintro ⟨hreq, rfl⟩
    have hsplit := (nsecToTs_requestable h).eq_leftOver
    rw [nsecToTs_nanos] at hsplit
    rw [hsplit]
    exact hreq.eq_leftOver
  · rintro rfl
    exact ⟨nsecToTs_requestable h, nsecToTs_nanos nsec⟩

/-- The time that is left, stored into `*remptr`. -/
theorem tsToNsec_leftOver (h0 : 0 ≤ left) (hmax : left < 2 ^ 63) :
    tsToNsec (leftOver left) = left := by
  have hsplit := leftOver_nanos left
  rw [tsToNsec_eq (by omega) (by omega), hsplit]

/-- **How a sleep that is asked for properly ends**: after all of it, or at a
signal with the rest of it left over. -/
theorem nanosleep_cases (h : Requestable t) (signal : Option Nat) :
    ((∀ k ∈ signal, t.nanos ≤ k) ∧
      nanosleep t signal = { st := 0, errno := 0, rem := none, took := t.nanos }) ∨
    ∃ k : Nat, signal = some k ∧ (k : Int) < t.nanos ∧ nanosleep t signal =
      { st := -1, errno := eintr, rem := some (leftOver (t.nanos - k)), took := k } := by
  unfold nanosleep
  rw [if_pos h]
  cases signal with
  | none => exact .inl ⟨by simp, rfl⟩
  | some k =>
    by_cases hk : (k : Int) < t.nanos
    · exact .inr ⟨k, rfl, hk, if_pos hk⟩
    · refine .inl ⟨fun k' hk' => ?_, if_neg hk⟩
      rw [← Option.mem_some_iff.mp hk']
      omega

/-! ## §4. The retry loop. -/

/-- A sleep as a wait of the call. -/
def Sleep.wait (s : Sleep) : Wait Int := { allowed := s.asked.nanos, taken := s.took }

/-- The waits of a call. -/
def Nap.waits (n : Nap) : List (Wait Int) := n.sleeps.map Sleep.wait

/-- One turn of the loop: the last, or one that leaves a retry for the rest, which
can be asked for. -/
theorem retry_cases (h : Requestable t) (r : Timespec) (signal : Option Nat)
    (signals : List (Option Nat)) :
    ((∀ k ∈ signal, t.nanos ≤ k) ∧ retry t r (signal :: signals) =
      { sleeps := [⟨t, t.nanos⟩], ret := some .ok, errno := some 0, rem := none }) ∨
    ∃ k : Nat, signal = some k ∧ Requestable (leftOver (t.nanos - k)) ∧
      retry t r (signal :: signals) =
        { retry (leftOver (t.nanos - k)) (leftOver (t.nanos - k)) signals with
          sleeps := ⟨t, k⟩ ::
            (retry (leftOver (t.nanos - k)) (leftOver (t.nanos - k)) signals).sleeps } := by
  obtain ⟨hall, hw⟩ | ⟨k, hk, hlt, hw⟩ := nanosleep_cases h signal
  · refine .inl ⟨hall, ?_⟩
    rw [retry, hw]
    rfl
  · refine .inr ⟨k, hk, leftOver_requestable (by omega), ?_⟩
    rw [retry, hw]
    rfl

/-- **Each sleep asks for what the ones before it have left.** -/
theorem retry_exact (h : Requestable t) (r : Timespec) (signals : List (Option Nat)) :
    Exact t.nanos (retry t r signals).waits := by
  induction signals generalizing t r with
  | nil => exact ⟨rfl, trivial⟩
  | cons signal signals ih =>
    obtain ⟨-, hone⟩ | ⟨k, -, hleft, hmore⟩ := retry_cases h r signal signals
    · rw [hone]
      exact ⟨rfl, trivial⟩
    · rw [hmore]
      refine ⟨rfl, ?_⟩
      have hrest := ih hleft (leftOver (t.nanos - k))
      rwa [leftOver_nanos] at hrest

/-- A call that returns OK ends with a sleep that takes all it has asked for. -/
theorem retry_last (h : Requestable t) (hret : (retry t r signals).ret = some .ok) :
    ∃ before w, (retry t r signals).waits = before ++ [w] ∧ w.taken = w.allowed := by
  induction signals generalizing t r with
  | nil => exact absurd hret (by simp [retry])
  | cons signal signals ih =>
    obtain ⟨-, hone⟩ | ⟨k, -, hleft, hmore⟩ := retry_cases h r signal signals
    · rw [hone]
      exact ⟨[], _, rfl, rfl⟩
    · rw [hmore] at hret ⊢
      obtain ⟨before, w, hwaits, hw⟩ := ih hleft hret
      refine ⟨{ allowed := t.nanos, taken := k } :: before, w, ?_, hw⟩
      rw [List.cons_append, ← hwaits]
      rfl

/-- A call without a place for the rest returns OK with the first sleep that no
signal interrupts, and nothing else before. -/
theorem retry_ret (h : Requestable t) (r : Timespec) (signals : List (Option Nat)) :
    ((retry t r signals).ret = none ∨ (retry t r signals).ret = some .ok) ∧
    (none ∈ signals → (retry t r signals).ret = some .ok) := by
  induction signals generalizing t r with
  | nil => exact ⟨.inl rfl, fun hin => absurd hin List.not_mem_nil⟩
  | cons signal signals ih =>
    obtain ⟨-, hone⟩ | ⟨k, hk, hleft, hmore⟩ := retry_cases h r signal signals
    · rw [hone]
      exact ⟨.inr rfl, fun _ => rfl⟩
    · rw [hmore]
      have ih := ih hleft (leftOver (t.nanos - k))
      refine ⟨ih.1, fun hin => ih.2 ?_⟩
      rcases List.mem_cons.mp hin with hnone | hin
      · rw [hk] at hnone
        exact absurd hnone (by simp)
      · exact hin

/-! ## §5. Both ways of sleeping. -/

/-- **A call sleeps for the time it is given.**  The first sleep asks for just
that; without a place for the rest, each retry asks for what is left, and the
sleeps of a call that has come to its end take all the time together; with one,
an interruption stores what is left. -/
structure SleepsFor (nsec : Int) (remptr : Bool) (signals : List (Option Nat)) (n : Nap) :
    Prop where
  first : ∃ s rest, n.sleeps = s :: rest ∧ Requestable s.asked ∧ s.asked.nanos = nsec
  retries : remptr = false → Exact nsec n.waits
  result : remptr = false → n.ret = none ∨ n.ret = some .ok
  ends : remptr = false → none ∈ signals → n.ret = some .ok
  total : remptr = false → n.ret = some .ok → spent n.waits = nsec
  remaining : remptr = true → n.errno = some eintr → n.rem = some (nsec - spent n.waits)

/-- Both ways begin with a sleep for the timespec they have. -/
theorem retry_head (h : Requestable t) (r : Timespec) (signals : List (Option Nat)) :
    ∃ took rest, (retry t r signals).sleeps = ⟨t, took⟩ :: rest := by
  cases signals with
  | nil => exact ⟨_, _, rfl⟩
  | cons signal signals =>
    obtain ⟨-, hone⟩ | ⟨k, -, -, hmore⟩ := retry_cases h r signal signals
    · rw [hone]
      exact ⟨_, _, rfl⟩
    · rw [hmore]
      exact ⟨_, _, rfl⟩

theorem sleepOnce_head (t r : Timespec) (signals : List (Option Nat)) :
    ∃ took, (sleepOnce t r signals).sleeps = [⟨t, took⟩] := by
  cases signals with
  | nil => exact ⟨_, rfl⟩
  | cons signal signals =>
    unfold sleepOnce
    dsimp only
    split
    next => exact ⟨_, rfl⟩
    next => exact ⟨_, rfl⟩

/-- Where it asks for a proper timespec, the single sleep stores what is left. -/
theorem sleepOnce_remaining (h : Requestable t) (hmax : t.nanos < 2 ^ 63)
    (herr : (sleepOnce t r signals).errno = some eintr) :
    (sleepOnce t r signals).rem = some (t.nanos - spent (sleepOnce t r signals).waits) := by
  cases signals with
  | nil => exact absurd herr (by simp [sleepOnce])
  | cons signal signals =>
    obtain ⟨-, hw⟩ | ⟨k, -, hlt, hw⟩ := nanosleep_cases h signal
    · rw [sleepOnce, hw] at herr
      injection herr with herr
      exact absurd (show (0 : Int) = eintr from herr) (by decide)
    · have hrem : (sleepOnce t r (signal :: signals)).rem =
          some (tsToNsec (leftOver (t.nanos - k))) := by
        rw [sleepOnce, hw]
        rfl
      have hwaits : (sleepOnce t r (signal :: signals)).waits =
          [{ allowed := t.nanos, taken := k }] := by
        rw [sleepOnce, hw]
        rfl
      rw [hrem, hwaits, tsToNsec_leftOver (by omega) (by omega), spent_cons, spent_nil, add_zero]

/-- **Both ways sleep for the requested time exactly when there is no place for
the rest, or the variable that is not set happens to hold that time**, however
many signals interrupt. -/
theorem sleeps_for_iff (h0 : 0 ≤ nsec) (hmax : nsec < 2 ^ 63) (remptr : Bool) (t r : Timespec)
    (signals : List (Option Nat)) :
    SleepsFor nsec remptr signals (chronoNanosleep nsec remptr t r signals) ↔
      remptr = false ∨ t = nsecToTs nsec := by
  have hreq := nsecToTs_requestable h0
  have hnanos := nsecToTs_nanos nsec
  unfold chronoNanosleep
  rw [if_neg (by omega)]
  cases remptr with
  | false =>
    refine iff_of_true ?_ (.inl rfl)
    rw [if_neg (by decide)]
    have hexact := retry_exact hreq r signals
    rw [hnanos] at hexact
    obtain ⟨hres, hends⟩ := retry_ret hreq r signals
    obtain ⟨took, rest, hhead⟩ := retry_head hreq r signals
    refine ⟨⟨_, _, hhead, hreq, hnanos⟩, fun _ => hexact, fun _ => hres, fun _ => hends, ?_,
      fun hrem => absurd hrem (by decide)⟩
    intro _ hret
    obtain ⟨before, w, hwaits, hw⟩ := retry_last hreq hret
    rw [hwaits] at hexact ⊢
    exact hexact.spent_eq hw
  | true =>
    rw [if_pos rfl]
    obtain ⟨took, hhead⟩ := sleepOnce_head t r signals
    constructor
    · intro h
      obtain ⟨s, rest, hs, hasked⟩ := h.first
      rw [hhead] at hs
      injection hs with hs _
      subst hs
      exact .inr ((requestable_iff h0).mp hasked)
    · intro h
      obtain rfl : t = nsecToTs nsec := h.resolve_left (by decide)
      have hoff : ∀ {P : Prop}, true = false → P := fun hfalse => absurd hfalse (by decide)
      refine ⟨⟨_, _, hhead, hreq, hnanos⟩, hoff, hoff, hoff, hoff, fun _ herr => ?_⟩
      have hrem := sleepOnce_remaining hreq (by omega) herr
      rwa [hnanos] at hrem

/-- One second, interrupted twice: after a tenth of it and after three tenths
more. -/
theorem sleeps_for_second :
    SleepsFor (10 ^ 9) false [some (10 ^ 8), some (3 * 10 ^ 8), none]
      (chronoNanosleep (10 ^ 9) false ⟨0, 0⟩ ⟨0, 0⟩ [some (10 ^ 8), some (3 * 10 ^ 8), none]) :=
  (sleeps_for_iff (by decide) (by decide) false ⟨0, 0⟩ ⟨0, 0⟩ _).mpr (.inl rfl)

/-- With a place for the rest, one second is no sleep at all where the variable
holds zeros, and fails at once where it holds no time. -/
theorem second_is_not_slept :
    chronoNanosleep (10 ^ 9) true ⟨0, 0⟩ ⟨0, 0⟩ [none] =
      { sleeps := [⟨⟨0, 0⟩, 0⟩], ret := some .ok, errno := some 0, rem := none } ∧
    ¬ SleepsFor (10 ^ 9) true [none] (chronoNanosleep (10 ^ 9) true ⟨0, 0⟩ ⟨0, 0⟩ [none]) ∧
    (chronoNanosleep (10 ^ 9) true ⟨0, -1⟩ ⟨7, 0⟩ [none]).ret = some .posixApiError ∧
    (chronoNanosleep (10 ^ 9) true ⟨0, -1⟩ ⟨7, 0⟩ [none]).rem = some (7 * 10 ^ 9) := by
  refine ⟨by decide, fun h => ?_, by decide, by decide⟩
  obtain ⟨s, rest, hs, -, hnanos⟩ := h.first
  have hfirst : (chronoNanosleep (10 ^ 9) true ⟨0, 0⟩ ⟨0, 0⟩ [none]).sleeps = [⟨⟨0, 0⟩, 0⟩] := by
    decide
  rw [hfirst] at hs
  injection hs with hs _
  rw [← hs] at hnanos
  exact absurd hnanos (by decide)

end Mccp.Chrono
