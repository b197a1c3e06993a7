/-
  Mccp.Events.Delivery
  ────────────────────
  **EVERY EVENT ARRIVES ONCE.**

  However the threads, the main thread and SIGINT are interleaved, what the main
  thread has got from a queue is, in order, what its thread has put into it.
  Where do_run() comes to the end of its loop and was not interrupted, it has
  got everything, and has counted every date and nothing else.

      PutterOk        — what a thread has put
      QueueOk         — what went through a queue
      Inv, Inv.step   — the invariant, and one step of anybody
      events_delivered — the program
-/
import Mathlib.Algebra.BigOperators.Ring.Finset
import Mccp.Events.Program
import Mccp.Qmuxer.Flow

namespace Mccp.Events

open Cbuffer Transition
open Monitor (Input Outcome Wakeup)
open Qmuxer (System Poll Carries sent received moved sent_snoc received_snoc)

variable {n m_n_puts : Nat} {ls : List (Label n)}
  {os : List (Qmuxer.Label Unit (Fin n))} {s s' : State n} {l : Label n} {q : Fin n}

/-! ## §1. What is seen of the queues. -/

theorem seen_queues (ls : List (Label n)) (l : Qmuxer.Label Unit (Fin n)) :
    seen (ls ++ [.queues l]) = seen ls ++ [l] := by
  simp [seen]

theorem seen_loop (ls : List (Label n)) : seen (ls ++ [.loop]) = seen ls := by
  simp [seen]

theorem seen_interrupted (ls : List (Label n)) : seen (ls ++ [.interrupted]) = seen ls := by
  simp [seen]

/-- A call that does not put puts nothing. -/
theorem moved_put_none {l : Qmuxer.Label Unit (Fin n)}
    (hl : ∀ q i o, l = .op q i o → putValue i = none) (q : Fin n) : moved putBy q l = [] := by
  cases l with
  | op q' i o =>
    have hi := hl q' i o rfl
    have hby : Qmuxer.movedBy putBy i o = [] := by
      cases o with
      | returned r => simp [Qmuxer.movedBy, putBy, hi]
      | slept k c => rfl
      | halted x => rfl
    simp [moved, hby]
  | _ => rfl

/-- A call that is no get hands out nothing. -/
theorem moved_get_none {l : Qmuxer.Label Unit (Fin n)}
    (hl : ∀ q i o, l = .op q i o → isGet i = false) (q : Fin n) : moved gotBy q l = [] := by
  cases l with
  | op q' i o =>
    have hi := hl q' i o rfl
    have hby : Qmuxer.movedBy gotBy i o = [] := by
      cases o with
      | returned r => simp [Qmuxer.movedBy, gotBy, hi]
      | slept k c => rfl
      | halted x => rfl
    simp [moved, hby]
  | _ => rfl

theorem moved_put_op {q : Fin n} {i : Input Call Cont} (hi : putValue i = none)
    (o : Outcome Cont Ret Cond Stop) (q' : Fin n) :
    moved putBy q' (.op q i o : Qmuxer.Label Unit (Fin n)) = [] := by
  refine moved_put_none (fun q₁ i₁ o₁ heq => ?_) q'
  injection heq with _ hi₁
  rwa [← hi₁]

theorem moved_get_op {q : Fin n} {i : Input Call Cont} (hi : isGet i = false)
    (o : Outcome Cont Ret Cond Stop) (q' : Fin n) :
    moved gotBy q' (.op q i o : Qmuxer.Label Unit (Fin n)) = [] := by
  refine moved_get_none (fun q₁ i₁ o₁ heq => ?_) q'
  injection heq with _ hi₁
  rwa [← hi₁]

/-! ## §2. The threads. -/

/-- **What a thread has put**: dates first, and -1 after the last one. -/
structure PutterOk (m_n_puts : Nat) (vs : List Value) (p : Putter) : Prop where
  length : vs.length = p.i
  eof_iff : ∀ k v, vs[k]? = some v → (v = eof ↔ k = m_n_puts)
  le : p.i ≤ m_n_puts + 1
  running : p.ret = none → p.i ≤ m_n_puts
  asleep : ∀ k, p.asleep = some k → p.ret = none ∧
    ∃ v, k = .put v (-1) ∧ v.length = 8 ∧ (v = eof ↔ p.i = m_n_puts)

/-- The value that a thread puts now. -/
theorem PutterRuns.value {vs : List Value} {p : Putter} {i : Input Call Cont}
    (h : PutterRuns m_n_puts p i) (hp : PutterOk m_n_puts vs p) :
    ∃ v, (i = .enter (.put (some v) (-1)) ∨ ∃ w, i = .resume (.put v (-1)) w) ∧
      putValue i = some v ∧ v.length = 8 ∧ (v = eof ↔ p.i = m_n_puts) ∧ p.ret = none := by
  cases h with
  | put now hret hasleep =>
    refine ⟨_, .inl rfl, rfl, ?_, ?_, hret⟩
    · split
      · exact now.size
      · rfl
    · have hle := hp.running hret
      split
      next hlt => exact iff_of_false now.ne_eof (by omega)
      next hge => exact iff_of_true rfl (by omega)
  | wakes hk w =>
    obtain ⟨hret, v, rfl, hv, hiff⟩ := hp.asleep _ hk
    exact ⟨v, .inr ⟨w, rfl⟩, rfl, hv, hiff, hret⟩

/-- **One step of a thread.** -/
theorem PutterOk.step {vs : List Value} {p : Putter} {i : Input Call Cont}
    {o : Outcome Cont Ret Cond Stop} (hp : PutterOk m_n_puts vs p)
    (hruns : PutterRuns m_n_puts p i)
    (hslept : ∀ k c v, o = .slept k c →
      (i = .enter (.put (some v) (-1)) ∨ ∃ w, i = .resume (.put v (-1)) w) → k = .put v (-1)) :
    PutterOk m_n_puts (vs ++ Qmuxer.movedBy putBy i o) (putterAfter m_n_puts p (.op q i o)) := by
  obtain ⟨v, hi, hvalue, hv, hiff, hret⟩ := hruns.value hp
  cases o with
  | returned r =>
    simp only [putterAfter, outcome, Qmuxer.movedBy, putBy, hvalue]
    split
    next hok =>
      have hle := hp.running hret
      refine ⟨?_, ?_, ?_, ?_, fun k hk => absurd hk (by simp)⟩
      · simp [hp.length]
      · intro k w hk
        rcases Nat.lt_or_ge k vs.length with hlt | hge
        · rw [List.getElem?_append_left hlt] at hk
          exact hp.eof_iff k w hk
        · rw [List.getElem?_append_right hge, Option.toList_some, List.getElem?_singleton] at hk
          split at hk
          next hzero =>
            have hlast : k = p.i := by
              rw [← hp.length]
              omega
            rw [hlast, ← Option.some.inj hk]
            exact hiff
          next => exact absurd hk (by simp)
      · simpa using hle
      · intro hnone
        simp only at hnone ⊢
        split at hnone
        · exact absurd hnone (by simp)
        · omega
    next =>
      refine ⟨?_, ?_, hp.le, fun h => absurd h (by simp), fun k hk => absurd hk (by simp)⟩
      · simpa using hp.length
      · simpa using hp.eof_iff
  | slept k c =>
    simp only [putterAfter, outcome, Qmuxer.movedBy, List.append_nil]
    refine ⟨hp.length, hp.eof_iff, hp.le, hp.running, fun k' hk' => ⟨hret, v, ?_, hv, hiff⟩⟩
    rw [← hslept k c v rfl hi]
    simpa using hk'.symm
  | halted x =>
    simp only [putterAfter, outcome, Qmuxer.movedBy, List.append_nil]
    exact hp

/-! ## §3. The queues. -/

theorem sizes : Sizes 8 capacity := by
  refine ⟨by decide, by decide, by decide, ?_⟩
  unfold capacity sizeofRecord
  decide

/-- What went through a queue; SIGINT alone closes it. -/
def QueueOk (os : List (Qmuxer.Label Unit (Fin n))) (s : State n) (q : Fin n) : Prop :=
  ∃ f : Fifo capacity, Carries 8 capacity false q os s.sys f ∧
    (f.isOpen = false → s.stopAll ≠ none)

/-- The object of a queue polls it, until its end has been got. -/
def PollOk (os : List (Qmuxer.Label Unit (Fin n))) (s : State n) (q : Fin n) : Prop :=
  ∃ mp, s.main.polls[q.val]? = some (some mp) ∧
    (mp.bbq = none → eof ∈ received q os ∨ s.stopAll ≠ none)

/-- In the loop over the values of a queue that is open, it has the rest of them. -/
def PcOk (os : List (Qmuxer.Label Unit (Fin n))) (s : State n) : Pc → Prop
  | .getting i j qsz => ∃ h : i < n, (s.sys.queue ⟨i, h⟩).isOperational = true →
      qsz + (received ⟨i, h⟩ os).length ≤ j + (sent ⟨i, h⟩ os).length
  | .getAsleep _ _ _ _ => False
  | .done ret => ret = 0 → s.stopAll = none → ∀ q, eof ∈ received q os
  | _ => True

/-- The dates among the values. -/
def dates (vs : List Value) : Nat := vs.countP (· ≠ eof)

/-- **The invariant.** -/
structure Inv (m_n_puts : Nat) (os : List (Qmuxer.Label Unit (Fin n))) (s : State n) : Prop where
  queue : ∀ q, QueueOk os s q
  putter : ∀ q, PutterOk m_n_puts (sent q os) (s.putter q)
  poll : ∀ q, PollOk os s q
  pc : PcOk os s s.main.pc
  n_gets : s.main.n_gets = ∑ q, dates (received q os)

/-- No thread puts more than its dates and -1. -/
theorem Inv.sent_lt (h : Inv m_n_puts os s) (hm : m_n_puts + 2 < 2 ^ 63) (q : Fin n) :
    (sent q os).length < 2 ^ 63 - 1 := by
  have hlen := (h.putter q).length
  have hle := (h.putter q).le
  omega

/-- The main thread's call changes its own variables only. -/
theorem MainRuns.frame {i : Input Call Cont}
    {k : Qmuxer.Label Unit (Fin n) → State n → State n} (h : MainRuns s q i k)
    (l : Qmuxer.Label Unit (Fin n)) (w : State n) :
    (k l w).sys = w.sys ∧ (k l w).putter = w.putter ∧ (k l w).stopAll = w.stopAll := by
  have hget : ∀ i j qsz, (afterGet i j qsz l w).sys = w.sys ∧
      (afterGet i j qsz l w).putter = w.putter ∧ (afterGet i j qsz l w).stopAll = w.stopAll := by
    intro i j qsz
    unfold afterGet
    split
    · split <;> exact ⟨rfl, rfl, rfl⟩
    · exact ⟨rfl, rfl, rfl⟩
    · exact ⟨rfl, rfl, rfl⟩
  cases h with
  | size hpc =>
    unfold afterSize
    split <;> exact ⟨rfl, rfl, rfl⟩
  | get hpc hj => exact hget ..
  | wakes hpc w => exact hget ..

/-- The queues, over a step that is seen of them. -/
theorem Inv.queue_step (h : Inv m_n_puts os s) (hm : m_n_puts + 2 < 2 ^ 63)
    {l : Qmuxer.Label Unit (Fin n)} (hstep : Qmuxer.Step s.sys l s'.sys)
    (hk : ∀ q k w o, l = .op q (.resume k w) o → ContOk 8 k)
    (hclear : ∀ q b o, l ≠ .op q (.enter (.clear b)) o)
    (hstop : s.stopAll ≠ none → s'.stopAll ≠ none)
    (hdown : ∀ q b o, l = .op q (.enter (.shutdown b)) o → s'.stopAll ≠ none) (q : Fin n) :
    QueueOk (os ++ [l]) s' q := by
  obtain ⟨f, hf, hopen⟩ := h.queue q
  obtain ⟨f', hf', hcloses⟩ := hf.step sizes (h.sent_lt hm q) hstep (hk q) (hclear q)
  refine ⟨f', ?_, fun hclosed => ?_⟩
  · exact hf'
  · cases hwas : f.isOpen with
    | true =>
      obtain ⟨b, o, hl⟩ := hcloses hclosed hwas
      exact hdown q b o hl
    | false => exact hstop (hopen hwas)

/-- A call of a put, a get or a look keeps the queues in order. -/
theorem Inv.op_step (h : Inv m_n_puts os s) (hm : m_n_puts + 2 < 2 ^ 63) {q : Fin n}
    {i : Input Call Cont} {o : Outcome Cont Ret Cond Stop}
    (hstep : Qmuxer.Step s.sys (.op q i o) s'.sys) (hk : ∀ k w, i = .resume k w → ContOk 8 k)
    (hclear : ∀ b, i ≠ .enter (.clear b)) (hstop : s.stopAll ≠ none → s'.stopAll ≠ none)
    (hdown : ∀ b, i = .enter (.shutdown b) → s'.stopAll ≠ none) (q' : Fin n) :
    QueueOk (os ++ [.op q i o]) s' q' := by
  refine h.queue_step hm hstep (fun q₁ k w o₁ heq => ?_) (fun q₁ b o₁ heq => ?_) hstop
    (fun q₁ b o₁ heq => ?_) q'
  all_goals injection heq with _ hi
  · exact hk k w hi
  · exact hclear b hi
  · exact hdown b hi

/-- An object that is not touched. -/
theorem PollOk.mono {os' : List (Qmuxer.Label Unit (Fin n))} (h : PollOk os s q)
    (hpolls : s'.main.polls = s.main.polls) (hgot : received q os ⊆ received q os')
    (hstop : s.stopAll ≠ none → s'.stopAll ≠ none) : PollOk os' s' q := by
  obtain ⟨mp, hmp, hnone⟩ := h
  refine ⟨mp, hpolls ▸ hmp, fun hbbq => ?_⟩
  rcases hnone hbbq with hend | hdown
  · exact .inl (hgot hend)
  · exact .inr (hstop hdown)

/-- A step in which nothing is got does not matter to where the main thread is. -/
theorem PcOk.mono {pc : Pc} (h : PcOk os s pc) {l : Qmuxer.Label Unit (Fin n)}
    (hstep : Qmuxer.Step s.sys l s'.sys) (hgot : ∀ q, moved gotBy q l = [])
    (hstop : s.stopAll ≠ none → s'.stopAll ≠ none) : PcOk (os ++ [l]) s' pc := by
  cases pc with
  | getting i j qsz =>
    obtain ⟨hi, hrest⟩ := h
    refine ⟨hi, fun hopen => ?_⟩
    have hwas : (s.sys.queue ⟨i, hi⟩).isOperational = true := by
      by_contra hdown
      rw [Qmuxer.step_down hstep (by simpa using hdown)] at hopen
      exact absurd hopen (by decide)
    have hleft := hrest hwas
    rw [received_snoc, sent_snoc, hgot, List.append_nil, List.length_append]
    omega
  | done ret =>
    intro hret hnone q
    rw [received_snoc, hgot, List.append_nil]
    exact h hret (by_contra fun hwas => hstop hwas hnone) q
  | getAsleep i j qsz k => exact h
  | _ => trivial

theorem gets_same {l : Qmuxer.Label Unit (Fin n)} (hgot : ∀ q, moved gotBy q l = []) :
    ∑ q, dates (received q (os ++ [l])) = ∑ q, dates (received q os) := by
  refine Finset.sum_congr rfl fun q _ => ?_
  rw [received_snoc, hgot, List.append_nil]

/-- **A step of a thread.** -/
theorem Inv.putter_step (h : Inv m_n_puts os s) (hm : m_n_puts + 2 < 2 ^ 63)
    {i : Input Call Cont} (hruns : PutterRuns m_n_puts (s.putter q) i)
    {o : Outcome Cont Ret Cond Stop} {sys : System Unit (Fin n)}
    (hstep : Qmuxer.Step s.sys (.op q i o) sys) :
    Inv m_n_puts (os ++ [.op q i o]) { s with
      sys := sys
      putter := Function.update s.putter q (putterAfter m_n_puts (s.putter q) (.op q i o)) } := by
  obtain ⟨v, hi, hvalue, hv, -⟩ := hruns.value (h.putter q)
  have hget : isGet i = false := by
    rcases hi with rfl | ⟨w, rfl⟩ <;> rfl
  have hgot := moved_get_op (q := q) hget o
  refine ⟨?_, fun q' => ?_, fun q' => ?_, h.pc.mono hstep hgot id, ?_⟩
  · refine h.op_step hm hstep (fun k w hi' => ?_) (fun b hi' => ?_) id fun b hi' => ?_
    · rcases hi with rfl | ⟨w', rfl⟩
      · exact absurd hi' (by simp)
      · injection hi' with hk
        subst hk
        exact hv
    · rcases hi with rfl | ⟨w', rfl⟩ <;> exact absurd hi' (by simp)
    · rcases hi with rfl | ⟨w', rfl⟩ <;> exact absurd hi' (by simp)
  · rw [sent_snoc]
    by_cases hq : q' = q
    · subst hq
      show PutterOk _ (_ ++ moved putBy q' _) (Function.update s.putter q' _ q')
      rw [Function.update_self, show moved putBy q' (.op q' i o : Qmuxer.Label Unit (Fin n)) =
        Qmuxer.movedBy putBy i o from if_pos rfl]
      refine (h.putter q').step hruns fun k c v' ho hi' => ?_
      subst ho
      exact Qmuxer.slept_put hi' hstep
    · show PutterOk _ (_ ++ moved putBy q' _) (Function.update s.putter q _ q')
      rw [Function.update_of_ne hq, show moved putBy q' (.op q i o : Qmuxer.Label Unit (Fin n)) =
        [] from if_neg (Ne.symm hq), List.append_nil]
      exact h.putter q'
  · refine (h.poll q').mono rfl ?_ id
    rw [received_snoc]
    exact List.subset_append_left _ _
  · rw [gets_same hgot]
    exact h.n_gets

/-- A step that moves nothing, as far as the threads and the queues go. -/
theorem Inv.still {l : Qmuxer.Label Unit (Fin n)} (h : Inv m_n_puts os s)
    (hput : ∀ q, moved putBy q l = []) (q : Fin n) :
    PutterOk m_n_puts (sent q (os ++ [l])) (s.putter q) := by
  rw [sent_snoc, hput, List.append_nil]
  exact h.putter q

/-- **A step of the main thread in its poll.** -/
theorem Inv.poll_step (h : Inv m_n_puts os s) (hm : m_n_puts + 2 < 2 ^ 63)
    {l : Qmuxer.Label Unit (Fin n)} (hl : ∀ q i o, l ≠ .op q i o) {sys : System Unit (Fin n)}
    (hstep : Qmuxer.Step s.sys l sys) {pc : Pc}
    (hpc : pc = s.main.pc ∨ pc = .polling ∨ pc = .sizing 0 ∨ pc = .top ∨ pc = .done 1)
    {polls : List (Option (Poll (Fin n)))}
    (hpolls : polls = s.main.polls ∨ polls = s.main.polls.map (Option.map pollReset)) :
    Inv m_n_puts (os ++ [l]) { s with
      sys := sys
      main := { s.main with pc := pc, polls := polls } } := by
  have hgot : ∀ q, moved gotBy q l = [] := moved_get_none fun q i o heq => absurd heq (hl q i o)
  have hput : ∀ q, moved putBy q l = [] := moved_put_none fun q i o heq => absurd heq (hl q i o)
  refine ⟨?_, h.still hput, fun q => ?_, ?_, ?_⟩
  · exact h.queue_step hm hstep (fun q k w o heq => absurd heq (hl _ _ _))
      (fun q b o => hl _ _ _) id fun q b o heq => absurd heq (hl _ _ _)
  · obtain ⟨mp, hmp, hnone⟩ := h.poll q
    have hend : mp.bbq = none →
        eof ∈ received q (os ++ [l]) ∨ s.stopAll ≠ none := by
      rw [received_snoc, hgot, List.append_nil]
      exact hnone
    rcases hpolls with rfl | rfl
    · exact ⟨mp, hmp, hend⟩
    · refine ⟨pollReset mp, ?_, hend⟩
      show (s.main.polls.map (Option.map pollReset))[q.val]? = _
      rw [List.getElem?_map, hmp]
      rfl
  · rcases hpc with rfl | rfl | rfl | rfl | rfl
    · exact h.pc.mono hstep hgot id
    · trivial
    · trivial
    · trivial
    · exact fun hret => absurd hret (by decide)
  · rw [gets_same hgot]
    exact h.n_gets

/-- **The main thread asks for a size.** -/
theorem Inv.size_step (h : Inv m_n_puts os s) (hm : m_n_puts + 2 < 2 ^ 63)
    {o : Outcome Cont Ret Cond Stop} {sys : System Unit (Fin n)}
    (hstep : Qmuxer.Step s.sys (.op q (.enter .size) o) sys) :
    Inv m_n_puts (os ++ [.op q (.enter .size) o])
      (afterSize q (.op q (.enter .size) o) { s with sys := sys }) := by
  have hgot := moved_get_op (q := q) (i := .enter .size) rfl o
  have hput := moved_put_op (q := q) (i := .enter .size) rfl o
  obtain ⟨f, hf, hopen⟩ := h.queue q
  obtain ⟨r, rfl, hr⟩ := hf.size sizes (h.sent_lt hm q) hstep
  refine ⟨?_, h.still hput, fun q' => ?_, ?_, ?_⟩
  · exact h.op_step hm hstep (by simp) (by simp) id (by simp)
  · refine (h.poll q').mono rfl ?_ id
    rw [received_snoc]
    exact List.subset_append_left _ _
  · show PcOk _ _ (if 0 < r.result then .getting q 0 r.result.toNat else .sizing (q + 1))
    split
    next hpos =>
      -- what is held is what was put and not got
      cases hwas : f.isOpen with
      | false =>
        rw [hr, hwas] at hpos
        exact absurd hpos (by simp [Result.notOperational])
      | true =>
        rw [hwas, if_pos rfl] at hr
        refine ⟨q.isLt, fun _ => ?_⟩
        show r.result.toNat + (received q _).length ≤ 0 + (sent q _).length
        rw [received_snoc, sent_snoc, hgot, hput, List.append_nil, List.append_nil,
          hf.opened hwas, List.length_append, hr, Int.toNat_natCast]
        omega
    next => trivial
  · rw [gets_same hgot]
    exact h.n_gets

/-- The objects behind a nullified one. -/
theorem nullify_self {polls : List (Option (Poll (Fin n)))} {mp : Poll (Fin n)} {i : Nat}
    (h : polls[i]? = some (some mp)) :
    (nullify polls i)[i]? = some (some { mp with bbq := none }) := by
  unfold nullify
  rw [List.getElem?_modify, h]
  simp

theorem nullify_of_ne {polls : List (Option (Poll (Fin n)))} {i j : Nat} (h : j ≠ i) :
    (nullify polls i)[j]? = polls[j]? := by
  unfold nullify
  rw [List.getElem?_modify]
  simp [Ne.symm h]

/-- What a get adds to the dates that were got. -/
theorem gets_add {v : Value} {l : Qmuxer.Label Unit (Fin n)}
    (hgot : ∀ q', moved gotBy q' l = if q' = q then [v] else []) :
    ∑ q', dates (received q' (os ++ [l])) =
      ∑ q', dates (received q' os) + if v ≠ eof then 1 else 0 := by
  have hone : ∀ q', dates (received q' (os ++ [l])) =
      dates (received q' os) + if q' = q then (if v ≠ eof then 1 else 0) else 0 := by
    intro q'
    rw [received_snoc, hgot]
    unfold dates
    rw [List.countP_append]
    by_cases hq : q' = q
    · rw [if_pos hq, if_pos hq, List.countP_singleton]
      simp
    · rw [if_neg hq, if_neg hq]
      rfl
  rw [Finset.sum_congr rfl fun q' _ => hone q', Finset.sum_add_distrib, Finset.sum_ite_eq',
    if_pos (Finset.mem_univ q)]

/-- **The main thread gets a value**, or learns that the queue was shut down. -/
theorem Inv.get_step (h : Inv m_n_puts os s) (hm : m_n_puts + 2 < 2 ^ 63) {j qsz : Nat}
    (hpc : s.main.pc = .getting q j qsz) (hj : j < qsz)
    {o : Outcome Cont Ret Cond Stop} {sys : System Unit (Fin n)}
    (hstep : Qmuxer.Step s.sys (.op q (.enter (.get (some 8) (-1))) o) sys) :
    Inv m_n_puts (os ++ [.op q (.enter (.get (some 8) (-1))) o])
      (afterGet q j qsz (.op q (.enter (.get (some 8) (-1))) o) { s with sys := sys }) := by
  have hput := moved_put_op (q := q) (i := .enter (.get (some 8) (-1))) rfl o
  obtain ⟨f, hf, hopen⟩ := h.queue q
  have hrest : (s.sys.queue q).isOperational = true →
      qsz + (received q os).length ≤ j + (sent q os).length := by
    have hok := h.pc
    rw [hpc] at hok
    exact hok.2
  obtain ⟨r, rfl, hr⟩ := hf.get sizes (h.sent_lt hm q) hstep fun hwas => by
    have := hrest (hf.holds.isOperational.trans hwas)
    omega
  have hqueue : ∀ s' : State n, s'.sys = sys → s'.stopAll = s.stopAll → ∀ q',
      QueueOk (os ++ [.op q (.enter (.get (some 8) (-1))) (.returned r)]) s' q' := by
    intro s' hsys hstop
    exact h.op_step hm (hsys ▸ hstep) (by simp) (by simp) (hstop ▸ id) (by simp)
  have hothers : ∀ (s' : State n) (q' : Fin n), q' ≠ q → s'.stopAll = s.stopAll →
      s'.main.polls[q'.val]? = s.main.polls[q'.val]? →
      PollOk (os ++ [.op q (.enter (.get (some 8) (-1))) (.returned r)]) s' q' := by
    intro s' q' hq hstop hpolls
    obtain ⟨mp, hmp, hnone⟩ := h.poll q'
    refine ⟨mp, hpolls ▸ hmp, fun hbbq => ?_⟩
    rw [received_snoc, hstop]
    exact (hnone hbbq).imp (List.mem_append_left _) id
  obtain ⟨mp, hmp, -⟩ := h.poll q
  simp only [afterGet, outcome]
  rcases hr with ⟨hwas, hok, v, hv⟩ | ⟨hdown, hbad, hv⟩
  · have hgot : ∀ q', moved gotBy q' (.op q (.enter (.get (some 8) (-1))) (.returned r) :
        Qmuxer.Label Unit (Fin n)) = if q' = q then [v] else [] := by
      intro q'
      simp [moved, Qmuxer.movedBy, gotBy, isGet, hv, eq_comm]
    have hself : received q (os ++ [.op q (.enter (.get (some 8) (-1)))
        (.returned r)]) = received q os ++ [v] := by
      rw [received_snoc, hgot, if_pos rfl]
    by_cases heof : v = eof
    · -- the end of the queue
      rw [if_neg (by simp [hv, heof])]
      refine ⟨hqueue _ rfl rfl, h.still hput, fun q' => ?_, trivial, ?_⟩
      · by_cases hq : q' = q
        · subst hq
          refine ⟨_, nullify_self hmp, fun _ => .inl ?_⟩
          rw [hself, heof]
          exact List.mem_append_right _ (List.mem_singleton_self eof)
        · exact hothers _ q' hq rfl (nullify_of_ne fun heq => hq (Fin.ext heq))
      · rw [gets_add hgot, if_neg (by simp [heof])]
        exact h.n_gets
    · rw [if_pos ⟨hok, by simp [hv, heof]⟩]
      refine ⟨hqueue _ rfl rfl, h.still hput, fun q' => ?_, ⟨q.isLt, fun _ => ?_⟩, ?_⟩
      · refine (h.poll q').mono rfl ?_ id
        rw [received_snoc]
        exact List.subset_append_left _ _
      · show qsz + (received q _).length ≤ j + 1 + (sent q _).length
        rw [hself, sent_snoc, hput, List.append_nil, List.length_append,
          List.length_singleton]
        have := hrest (hf.holds.isOperational.trans hwas)
        omega
      · rw [gets_add hgot, if_pos heof]
        exact congrArg (· + 1) h.n_gets
  · -- the queue was shut down under the loop
    have hgot : ∀ q', moved gotBy q' (.op q (.enter (.get (some 8) (-1))) (.returned r) :
        Qmuxer.Label Unit (Fin n)) = [] := by
      intro q'
      simp [moved, Qmuxer.movedBy, gotBy, isGet, hv]
    rw [if_neg fun hboth => hbad hboth.1]
    refine ⟨hqueue _ rfl rfl, h.still hput, fun q' => ?_, trivial, ?_⟩
    · by_cases hq : q' = q
      · subst hq
        exact ⟨_, nullify_self hmp, fun _ => .inr (hopen hdown)⟩
      · exact hothers _ q' hq rfl (nullify_of_ne fun heq => hq (Fin.ext heq))
    · rw [gets_same hgot]
      exact h.n_gets

/-! ## §4. The program. -/

/-- Where no object has a queue, every end has been got. -/
theorem Inv.ended (h : Inv m_n_puts os s)
    (hnone : nValidPolls (s.main.polls.map (Option.map pollReset)) = 0) :
    Inv m_n_puts os { s with main := { s.main with
      pc := .done 0
      polls := s.main.polls.map (Option.map pollReset) } } := by
  have hpoll : ∀ q : Fin n, ∃ mp, (s.main.polls.map (Option.map pollReset))[q.val]? =
      some (some mp) ∧ mp.bbq = none ∧ (eof ∈ received q os ∨ s.stopAll ≠ none) := by
    intro q
    obtain ⟨mp, hmp, hend⟩ := h.poll q
    have hreset :
        (s.main.polls.map (Option.map pollReset))[q.val]? = some (some (pollReset mp)) := by
      rw [List.getElem?_map, hmp]
      rfl
    have hbbq : mp.bbq = none := by
      have hcount := List.countP_eq_zero.mp hnone _ (List.mem_of_getElem? hreset)
      simpa [pollReset] using hcount
    exact ⟨_, hreset, hbbq, hend hbbq⟩
  refine ⟨h.queue, h.putter, fun q => ?_, fun _ hstop q => ?_, h.n_gets⟩
  · obtain ⟨mp, hmp, -, hend⟩ := hpoll q
    exact ⟨mp, hmp, fun _ => hend⟩
  · obtain ⟨mp, -, -, hend⟩ := hpoll q
    exact hend.resolve_right fun hne => hne hstop

/-- **One step of anybody.** -/
theorem Inv.step (h : Inv m_n_puts (seen ls) s) (hm : m_n_puts + 2 < 2 ^ 63) {l : Label n}
    (hstep : Step m_n_puts s l s') : Inv m_n_puts (seen (ls ++ [l])) s' := by
  cases step_moves hstep with
  | putter hruns hq =>
    rw [seen_queues]
    exact h.putter_step hm hruns hq
  | main hruns hq =>
    rw [seen_queues]
    cases hruns with
    | size hpc => exact h.size_step hm hq
    | get hpc hj => exact h.get_step hm hpc hj hq
    | wakes hpc w =>
      -- the main thread never sleeps in a get
      have hok := h.pc
      rw [hpc] at hok
      exact hok.elim
  | poll hl hq pc hpc polls hpolls =>
    rw [seen_queues]
    exact h.poll_step hm hl hq hpc hpolls
  | ended hnone =>
    rw [seen_loop]
    exact h.ended hnone
  | goesOn pc hpc =>
    rw [seen_loop]
    refine ⟨h.queue, h.putter, h.poll, ?_, h.n_gets⟩
    rcases hpc with rfl | ⟨i, rfl⟩ <;> trivial
  | interrupted hnone =>
    rw [seen_interrupted]
    refine ⟨fun q => ?_, h.putter, fun q => ?_, ?_, h.n_gets⟩
    · obtain ⟨f, hf, -⟩ := h.queue q
      exact ⟨f, hf, fun _ => by simp⟩
    · exact (h.poll q).mono rfl (List.Subset.refl _) fun _ => by simp
    · have hok := h.pc
      show PcOk _ _ s.main.pc
      cases hpc : s.main.pc <;> rw [hpc] at hok
      case getting i j qsz => exact hok
      case getAsleep i j qsz k => exact hok
      case done ret => exact fun _ hstop => absurd hstop (by simp)
      all_goals trivial
  | @shutdown q hat o sys hq =>
    rw [seen_queues]
    have hgot := moved_get_op (q := q) (i := .enter (.shutdown true)) rfl o
    have hput := moved_put_op (q := q) (i := .enter (.shutdown true)) rfl o
    refine ⟨?_, h.still hput, fun q' => ?_, h.pc.mono hq hgot fun _ => by simp, ?_⟩
    · exact h.op_step hm hq (by simp) (by simp) (fun _ => by simp) fun _ _ => by simp
    · refine (h.poll q').mono rfl ?_ fun _ => by simp
      rw [received_snoc]
      exact List.subset_append_left _ _
    · rw [gets_same hgot]
      exact h.n_gets

/-- The queues are as they are created. -/
def Created (cb : Fin n → Record) : Prop :=
  ∀ q, ∃ env, createWithSize env 8 1000000 false = .ok (.ok, some (cb q))

theorem created_holds {env : CreateEnv} {cb : Record}
    (h : createWithSize env 8 1000000 false = .ok (.ok, some cb)) :
    cb.wIdx = 0 ∧ Holds 8 capacity false cb (Fifo.empty capacity) := by
  have hgood : (env.malloc (allocSize 8 1000000)).isSome = true ∧ env.locks = .ok := by
    unfold createWithSize at h
    rw [if_pos (by decide)] at h
    simp only [] at h
    split at h
    next bytes hmem =>
      split at h
      · exact absurd h (by simp)
      · split at h
        next hlocks => exact ⟨by rw [hmem]; rfl, hlocks⟩
        next => exact absurd h (by simp)
    next => exact absurd h (by simp)
  rcases create_outcomes env 8 1000000 false (by decide) (by decide) hgood.1 hgood.2 with
    ⟨-, cb', hcreate, hw, -, hholds⟩ | ⟨hwrap, -⟩
  · rw [h, Except.ok.injEq, Prod.mk.injEq, Option.some.injEq] at hcreate
    rw [hcreate.2]
    exact ⟨hw, hholds⟩
  · exact absurd hwrap (by decide)

theorem Inv.initial {cb : Fin n → Record} (hcb : Created cb) :
    Inv m_n_puts [] (State.initial cb) := by
  refine ⟨fun q => ?_, fun q => ?_, fun q => ?_, trivial, ?_⟩
  · obtain ⟨env, henv⟩ := hcb q
    obtain ⟨hw, hholds⟩ := created_holds henv
    refine ⟨Fifo.empty capacity, ⟨hholds, ?_, fun _ => rfl, List.prefix_refl _⟩,
      fun h => absurd h (by decide)⟩
    show (cb q).wIdx ≤ 0
    rw [hw]
  · exact ⟨rfl, fun k v h => absurd h (by simp [sent]), Nat.zero_le _, fun _ => Nat.zero_le _,
      fun k h => absurd h (by simp [State.initial])⟩
  · refine ⟨{ bbq := some q, type := .readable, qSize := 0, qRemCapacity := 0 }, ?_,
      fun h => absurd h (by simp)⟩
    show (List.ofFn _)[q.val]? = _
    rw [List.getElem?_ofFn, dif_pos q.isLt]
  · exact (Finset.sum_eq_zero fun q _ => rfl).symm

/-- A thread that has put all has put its dates, and one -1. -/
theorem PutterOk.dates_eq {vs : List Value} {p : Putter} (h : PutterOk m_n_puts vs p)
    (hlen : vs.length = m_n_puts + 1) : dates vs = m_n_puts := by
  have hne : vs ≠ [] := by
    intro hnil
    rw [hnil] at hlen
    exact absurd hlen (by simp)
  have hlast : vs.getLast hne = eof := by
    refine (h.eof_iff m_n_puts _ ?_).mpr rfl
    rw [List.getLast_eq_getElem]
    simp [hlen]
  have hfirst : ∀ v ∈ vs.dropLast, v ≠ eof := by
    intro v hv heof
    obtain ⟨k, hk⟩ := List.mem_iff_getElem?.mp hv
    have hlt : k < m_n_puts := by
      have hlt := (List.getElem?_eq_some_iff.mp hk).1
      rw [List.length_dropLast, hlen] at hlt
      exact hlt
    rw [List.getElem?_dropLast, if_pos (by omega)] at hk
    exact absurd ((h.eof_iff k v hk).mp heof) (by omega)
  rw [← List.dropLast_append_getLast hne, hlast]
  unfold dates
  rw [List.countP_append, List.countP_eq_length.mpr fun v hv => by simpa using hfirst v hv,
    List.length_dropLast, hlen]
  simp

/-- A queue whose end has been got has handed out everything. -/
theorem Inv.all_got (h : Inv m_n_puts os s) (hend : eof ∈ received q os) :
    received q os = sent q os ∧ (received q os).length = m_n_puts + 1 := by
  obtain ⟨f, hf, -⟩ := h.queue q
  obtain ⟨k, hk⟩ := List.mem_iff_getElem?.mp hend
  have hlt := (List.getElem?_eq_some_iff.mp hk).1
  have hsent : (sent q os)[k]? = some eof := by
    obtain ⟨rest, hrest⟩ := hf.inOrder
    rw [← hrest, List.getElem?_append_left hlt]
    exact hk
  have hkm : k = m_n_puts := ((h.putter q).eof_iff k eof hsent).mp rfl
  have hle := (h.putter q).le
  rw [← (h.putter q).length] at hle
  have hshort := hf.inOrder.length_le
  exact ⟨hf.inOrder.eq_of_length (by omega), by omega⟩

/-- **Every event arrives once.**  In every reachable state the main thread has got
from each queue, in order, what its thread has put into it, and has counted the
dates among it; it has not slept in a get.  When do_run() is done with its loop
and SIGINT has not come, it has got all that each thread had to put. -/
theorem events_delivered {cb : Fin n → Record} (hcb : Created cb) (hm : m_n_puts + 2 < 2 ^ 63)
    (hrun : Run (Step m_n_puts) (State.initial cb) ls s) :
    (∀ q, received q (seen ls) <+: sent q (seen ls)) ∧
      s.main.n_gets = ∑ q, dates (received q (seen ls)) ∧
      (∀ i j qsz k, s.main.pc ≠ .getAsleep i j qsz k) ∧
      (s.main.pc = .done 0 → s.stopAll = none →
        (∀ q, received q (seen ls) = sent q (seen ls) ∧
          (received q (seen ls)).length = m_n_puts + 1) ∧
        s.main.n_gets = n * m_n_puts) := by
  have hinv : Inv m_n_puts (seen ls) s :=
    Run.invariant_history (fun ls s => Inv m_n_puts (seen ls) s)
      (fun ls t l u _ h hstep => h.step hm hstep) (Inv.initial hcb) hrun
  refine ⟨fun q => ?_, hinv.n_gets, fun i j qsz k hpc => ?_, fun hdone hstop => ?_⟩
  · obtain ⟨f, hf, -⟩ := hinv.queue q
    exact hf.inOrder
  · have hok := hinv.pc
    rw [hpc] at hok
    exact hok
  · have hends := hinv.pc
    rw [hdone] at hends
    have hall := fun q => hinv.all_got (hends rfl hstop q)
    refine ⟨hall, ?_⟩
    have hdates : ∀ q, dates (received q (seen ls)) = m_n_puts := by
      intro q
      rw [(hall q).1]
      exact (hinv.putter q).dates_eq ((hall q).1 ▸ (hall q).2)
    rw [hinv.n_gets, Finset.sum_const_nat fun q _ => hdates q, Finset.card_univ, Fintype.card_fin]

/-- A new queue, over zeroed memory. -/
def newQueue : Record := newRecord 8 1000000 false ⟨allocSize 8 1000000, fun _ => 0⟩

/-- A date. -/
def someDate : Date where
  bytes := [1, 2, 3, 4, 5, 6, 7, 0]
  size := rfl
  ne_eof := by decide

/-- One thread, and one date. -/
theorem events_delivered_one : ∃ (s : State 1) (ls : List (Label 1)),
    Run (Step 1) (State.initial fun _ => newQueue) ls s ∧ s.main.pc = .done 0 ∧
    s.main.n_gets = 1 * 1 ∧ received 0 (seen ls) = sent 0 (seen ls) ∧
    sent 0 (seen ls) = [someDate.bytes, eof] := by
  have hexec : (exec (next 1) (State.initial fun _ => newQueue)
        [.put (0 : Fin 1) someDate, .put 0 someDate, .main .signaled, .main .signaled,
          .main .signaled, .main .signaled, .main .signaled, .main .signaled, .main .signaled,
          .main .signaled, .main .signaled]).map
        (fun p => (p.2.main.pc, p.2.stopAll, sent (0 : Fin 1) (seen p.1))) =
      some (.done 0, none, [someDate.bytes, eof]) := by decide +kernel
  obtain ⟨⟨ls, s⟩, hexec, hp⟩ := Option.map_eq_some_iff.mp hexec
  simp only [Prod.mk.injEq] at hp
  obtain ⟨hdone, hstop, hsent⟩ := hp
  have hs := run_of_exec hexec
  obtain ⟨-, -, -, hend⟩ := events_delivered (fun _ => ⟨roomy, rfl⟩) (by decide) hs
  obtain ⟨hall, hgets⟩ := hend hdone hstop
  exact ⟨s, ls, hs, hdone, hgets, (hall 0).1, hsent⟩

end Mccp.Events
