/-
  Mccp.Pipeline.Consistency
  ─────────────────────────
  **THE REGISTRY IS CONSISTENT, AS LONG AS NO FAILED CREATE HITS ANOTHER STAGE'S
  NAME.**

  What a reader of the two tables may rely on, and which runs of creates,
  destroys and finds keep it.

      Kept                — what every step should do to the tables
      Inv.kept_iff        — which steps do
      step_shows          — a create changes no entry of another stage
-/
import Mccp.Pipeline.Lives

namespace Mccp.Pipeline

open Hashmap Transition

variable {τ α : Type} {s s' : Registry τ α} {l : Label τ α}

section
variable [DecidableEq α]

/-! ## §1. What is asked of the registry. -/

/-- The tables show the live stages and nothing else. -/
def Consistent (s : Registry τ α) : Prop :=
  (∀ n ps, s.s_ps_name_tbl.lookup n = some ps ↔ s.life ps = .live n) ∧
  (∀ ps b, s.s_ps_obj_tbl.lookup ps = some b ↔ b = true ∧ ∃ n, s.life ps = .live n)

/-- The stage has the same entries in both states. -/
def SameEntries (s s' : Registry τ α) (q : α) : Prop :=
  (∀ n, s.s_ps_name_tbl.lookup n = some q ↔ s'.s_ps_name_tbl.lookup n = some q) ∧
  s.s_ps_obj_tbl.lookup q = s'.s_ps_obj_tbl.lookup q

/-- The stage is in no table. -/
def NoEntry (s : Registry τ α) (q : α) : Prop :=
  (∀ n, s.s_ps_name_tbl.lookup n ≠ some q) ∧ s.s_ps_obj_tbl.lookup q = none

/-- The step is one of a create. -/
def ByCreate (s : Registry τ α) (a : Action τ α) : Prop :=
  match a with
  | .create _ _ => True
  | .destroy _ _ => False
  | .find _ _ _ => False
  | a => (s.call a.thread).isCreate = true

/-- **The registry is kept**: if no call is in progress now, the tables are
consistent; a create changes no entry of another stage; and a create that fails
leaves none of its own. -/
def Kept (s : Registry τ α) (l : Label τ α) (s' : Registry τ α) : Prop :=
  ((∀ u, s'.call u = .idle) → Consistent s') ∧
  (ByCreate s l.action →
    ∀ q, (s.call l.action.thread).stage? ≠ some q → SameEntries s s' q) ∧
  (∀ ret sptr, l.outcome = .created ret sptr → ret ≠ .ok →
    ∀ q, (s.call l.action.thread).stage? = some q → NoEntry s' q)

/-! ## §2. What a step leaves alone. -/

/-- A stage that shows the same in both states has the same entries. -/
theorem Inv.sameEntries (h : Inv s) (h' : Inv s') {q : α}
    (hname : (s'.life q).name? = (s.life q).name?)
    (hlisted : (s'.life q).isListed = (s.life q).isListed) : SameEntries s s' q := by
  refine ⟨?_, ?_⟩
  · intro n
    rw [h.names n q, h'.names n q]
    dsimp only
    rw [hname]
  · rw [h.objs, h'.objs, hlisted]

theorem Inv.noEntry (h : Inv s) {q : α} (hq : s.life q = .unused) : NoEntry s q := by
  refine ⟨?_, ?_⟩
  · intro n hn
    have hkey := (h.names n q).mp hn
    dsimp only at hkey
    rw [hq] at hkey
    exact absurd hkey (by simp [Life.name?])
  · rw [h.objs, hq]
    rfl

theorem Life.name?_eq_some {k : Life} {n : String} (h : k.isOwned = false) :
    k.name? = some n ↔ k = .live n := by
  cases k <;> simp_all [Life.name?, Life.isOwned]

theorem Life.isListed_iff {k : Life} (h : k.isOwned = false) :
    k.isListed = true ↔ ∃ n, k = .live n := by
  cases k <;> simp_all [Life.isListed, Life.isOwned]

/-- **Without a call in progress the tables are consistent.** -/
theorem Inv.consistent (h : Inv s) (hidle : ∀ t, s.call t = .idle) : Consistent s := by
  have hfree : ∀ ps, (s.life ps).isOwned = false := by
    intro ps
    by_contra hc
    obtain ⟨t, ht⟩ := h.owned ps (by simpa using hc)
    rw [hidle t] at ht
    exact absurd ht (by simp [Call.stage?])
  refine ⟨?_, ?_⟩
  · intro n ps
    rw [h.names n ps]
    exact Life.name?_eq_some (hfree ps)
  · intro ps b
    rw [h.objs ps, ← Life.isListed_iff (hfree ps)]
    cases (s.life ps).isListed <;> simp [eq_comm]

/-- What a stage shows is the same after a step of somebody else's create. -/
theorem step_shows [DecidableEq τ] (hstep : Step s l s') (hproper : Proper s l s')
    (hby : ByCreate s l.action) {q : α} (hq : (s.call l.action.thread).stage? ≠ some q) :
    (s'.life q).name? = (s.life q).name? ∧ (s'.life q).isListed = (s.life q).isListed := by
  by_cases hmake : ∃ t mem env, l.action = .make t mem env
  · cases step_cases hstep with
    | make t mem env a ha ht hs =>
      unfold Proper at hproper
      rw [ha] at hproper
      rcases make_cases hs with ⟨ps, heap, hs', hps⟩ | hs'
      · have hunused : s.life ps = .unused := hps.elim (hproper a ps ht) id
        rw [hs', prepare_life]
        by_cases hqp : q = ps
        · -- a new stage shows nothing yet
          rw [hqp, lead_life_self, hunused]
          exact ⟨rfl, rfl⟩
        · rw [lead_life_of_ne _ _ hqp]
          exact ⟨rfl, rfl⟩
      · rw [hs']
        exact ⟨rfl, rfl⟩
    | _ => simp_all
  · have hdestroy : ∀ t sptr, l.action ≠ .destroy t sptr := by
      intro t sptr ha
      rw [ha] at hby
      exact hby
    rw [step_life hstep hq (fun t mem env ha => hmake ⟨t, mem, env, ha⟩) hdestroy]
    exact ⟨rfl, rfl⟩

/-- A create that fails has let its memory go. -/
theorem step_failed [DecidableEq τ] (hstep : Step s l s') {ret : Result} {sptr : Option α}
    (ho : l.outcome = .created ret sptr) (hret : ret ≠ .ok) {q : α}
    (hq : (s.call l.action.thread).stage? = some q) : s'.life q = .unused := by
  have hidle : ∀ {t : τ}, l.action.thread = t → (s.call t).stage? ≠ none := by
    intro t heq hc
    subst heq
    rw [hc] at hq
    exact absurd hq (by simp)
  cases step_cases hstep with
  | create t a ha ht ho' hs =>
    exact absurd (show (s.call t).stage? = none by rw [ht]; rfl) (hidle (by rw [ha]; rfl))
  | destroy t sptr ha ht ho' hs =>
    exact absurd (show (s.call t).stage? = none by rw [ht]; rfl) (hidle (by rw [ha]; rfl))
  | find t name retptr ha ht ho' hs =>
    exact absurd (show (s.call t).stage? = none by rw [ht]; rfl) (hidle (by rw [ha]; rfl))
  | make t mem env a ha ht hs =>
    exact absurd (show (s.call t).stage? = none by rw [ht]; rfl) (hidle (by rw [ha]; rfl))
  | addName t room ps ha ht ho' hs =>
    have hquiet : (addName s t ps room).1 = .quiet := by
      unfold addName
      split
      · split
        · dsimp only
          split <;> rfl
        · rfl
      · rfl
    rw [ho', hquiet] at ho
    exact absurd ho (by simp)
  | addObj t room ps ha ht ho' hs =>
    have hout : (addObj s t ps room).1 = .created .ok (some ps) ∨
        (addObj s t ps room).1 = .quiet := by
      unfold addObj
      dsimp only
      split
      · exact .inl rfl
      · exact .inr rfl
    rcases hout with hok | hquiet
    · rw [ho', hok] at ho
      cases ho
      exact absurd rfl hret
    · rw [ho', hquiet] at ho
      exact absurd ho (by simp)
  | deleteObj t ps why ha ht ho' hs =>
    rw [ho'] at ho
    exact absurd ho (by simp)
  | deleteName t ps why ha ht ho' hs =>
    rw [ho'] at ho
    exact absurd ho (by simp)
  | free t ps why ha ht ho' hs =>
    rw [ha, show (Action.free t : Action τ α).thread = t from rfl, ht] at hq
    cases hq
    rw [hs]
    cases why with
    | destroy => exact lead_life_self ..
    | failed ret => exact lead_life_self ..

/-- **While the tables agree with the lives, a proper step keeps the registry
exactly when it does not delete another stage's name.** -/
theorem Inv.kept_iff [DecidableEq τ] (h : Inv s) (hstep : Step s l s') (hproper : Proper s l s') :
    Kept s l s' ↔ Harmless s l s' := by
  constructor
  · intro hboth t ps ret n ha ht hname q hq
    obtain ⟨-, hframe, -⟩ := hboth
    by_contra hqps
    have hvalid : isValidString (some n) = true := (h.record q n ((h.names n q).mp hq)).2
    have hthread : s.call l.action.thread = .deletingName ps (.failed ret) := by
      rw [ha]
      exact ht
    have hby : ByCreate s l.action := by
      rw [ha]
      show (s.call t).isCreate = true
      rw [ht]
      rfl
    have hsame := hframe hby q (by rw [hthread]; exact fun hc => hqps (Option.some.inj hc).symm)
    -- but the entry has been erased
    have hgone : s'.s_ps_name_tbl.lookup n = none := by
      rw [step_deleteName hstep ha ht]
      unfold deleteName Map.delete
      rw [hname]
      dsimp only
      rw [if_pos hvalid]
      exact Finmap.lookup_erase ..
    have hkept := (hsame.1 n).mp hq
    rw [hgone] at hkept
    exact absurd hkept (by simp)
  · intro hharmless
    have h' := h.step hstep hproper hharmless
    refine ⟨h'.consistent, ?_, ?_⟩
    · intro hby q hq
      obtain ⟨hname, hlisted⟩ := step_shows hstep hproper hby hq
      exact h.sameEntries h' hname hlisted
    · intro ret sptr ho hret q hq
      exact h'.noEntry (step_failed hstep ho hret hq)

end

/-! ## §3. All runs. -/

/-- **The runs that keep the registry are exactly the runs in which no failed
create deletes a name that another stage has.** -/
theorem registry_kept_iff [DecidableEq τ] [DecidableEq α] {ls : List (Label τ α)}
    {s : Registry τ α} :
    Run (restrict (restrict Step Proper) Kept) (Registry.empty τ α) ls s ↔
    Run (restrict (restrict Step Proper) Harmless) (Registry.empty τ α) ls s :=
  Run.restrict_congr (fun _ _ _ h hstep => h.kept_iff hstep.1 hstep.2)
    (fun _ _ _ h hstep hharmless => h.step hstep.1 hstep.2 hharmless) Inv.empty

/-- Calls whose every part succeeds. -/
def InitEnv.fine : InitEnv where
  locks := []
  barrier := .ok
  pauseLocks := []
  strdup := true
  workers := true
  workerCreate := fun _ => .ok

/-- A stage `x` with one worker, in new memory. -/
def Args.plain (α : Type) : Args α where
  sptr := some none
  name := some "x"
  n_workers := 1
  event_size := 1
  max_batch_size := 1
  sched_proc := true
  fetch_proc := false
  main_proc := true
  throw_proc := false

/-- Two creates of one name, both checked before either is in the table: the
one that fails takes the entry of the one that succeeded. -/
theorem failed_create_hides_winner :
    ∃ (ls : List (Label Bool Nat)) (s : Registry Bool Nat),
      Run (restrict Step Proper) (Registry.empty Bool Nat) ls s ∧
      ls.map (fun l => l.outcome) = [.quiet, .quiet, .quiet, .quiet, .created .ok (some 0), .quiet,
        .quiet, .quiet, .quiet, .created .alreadyExists none] ∧
      (∀ t, s.call t = .idle) ∧ s.life 0 = .live "x" ∧ s.isStage 0 = true ∧
      s.findStage (some "x") = none ∧ ¬ Consistent s := by
  have hrun : ∃ p, exec next (Registry.empty Bool Nat)
      [.create false (.plain Nat), .create true (.plain Nat),
        .make false (some 0) .fine, .addName false true, .addObj false true,
        .make true (some 1) .fine, .addName true true, .deleteObj true, .deleteName true,
        .free true] = some p ∧
      p.1.map (fun l => l.outcome) = [.quiet, .quiet, .quiet, .quiet, .created .ok (some 0),
        .quiet, .quiet, .quiet, .quiet, .created .alreadyExists none] ∧
      (p.2.call false = .idle ∧ p.2.call true = .idle) ∧ p.2.life 0 = .live "x" ∧
      p.2.isStage 0 = true ∧ p.2.s_ps_name_tbl.lookup "x" = none :=
    ⟨_, rfl, rfl, ⟨rfl, rfl⟩, rfl, rfl, rfl⟩
  obtain ⟨⟨ls, s⟩, hexec, hout, ⟨hf, ht⟩, hlive, hstage, hlookup⟩ := hrun
  -- both creates ask for new memory
  have hnew : ∀ {s : Registry Bool Nat} {t : Bool}, s.call t = .allocating (.plain Nat) →
      ∀ a ps, s.call t = .allocating a → a.sptr = some (some ps) → s.life ps = .unused := by
    intro s t ht a ps ha hs
    rw [ht] at ha
    cases ha
    exact absurd hs (by simp [Args.plain])
  refine ⟨ls, s, run_of_checked hexec ?_, hout, ?_, hlive, hstage, ?_, ?_⟩
  · exact ⟨trivial, trivial, hnew rfl, trivial, trivial, hnew rfl, trivial, trivial, trivial,
      trivial, trivial⟩
  · intro t
    cases t
    · exact hf
    · exact ht
  · show (s.s_ps_name_tbl.find "x").2 = none
    unfold Map.find
    rw [hlookup]
  · intro hcons
    have hentry := (hcons.1 "x" 0).mpr hlive
    rw [hlookup] at hentry
    exact absurd hentry (by simp)

end Mccp.Pipeline
