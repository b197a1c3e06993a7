/-
  Mccp.Pipeline.Lives
  ───────────────────
  **THE TABLES SHOW THE LIVES OF ALL STAGES, AS LONG AS NO FAILED CREATE HITS
  ANOTHER STAGE'S NAME.**

  s_delete_stage() deletes by name whatever stage has it.  For a destroy this
  is the stage itself.  A create that failed because another one was quicker
  has the winner's name, and deletes the winner's entry.

      Harmless  — a delete by name hits no other stage
      Inv       — the entries of each stage are what its life says
      Inv.step  — kept by every proper and harmless step
-/
import Mccp.Pipeline.Registry

namespace Mccp.Pipeline

open Hashmap Transition

variable {τ α : Type} {s s' : Registry τ α} {l : Label τ α}

/-! ## §1. Two conditions on a step. -/

section
variable [DecidableEq α]

/-- What callers owe: a create is given memory that no stage is using, and a
stage is destroyed by one thread at a time. -/
def Proper (s : Registry τ α) (l : Label τ α) (_ : Registry τ α) : Prop :=
  match l.action with
  | .make t _ _ =>
      ∀ a ps, s.call t = .allocating a → a.sptr = some (some ps) → s.life ps = .unused
  | .destroy _ sptr => ∀ ps n, sptr = some (some ps) → s.life ps ≠ .dying n
  | _ => True

/-- **The condition**: a create that failed deletes its name only while no other
stage has it. -/
def Harmless (s : Registry τ α) (l : Label τ α) (_ : Registry τ α) : Prop :=
  ∀ t ps ret n, l.action = .deleteName t → s.call t = .deletingName ps (.failed ret) →
    (s.record ps).m_name = some n → ∀ q, s.s_ps_name_tbl.lookup n = some q → q = ps

end

/-! ## §2. The invariant. -/

/-- Where a call is fits the life of its stage. -/
def Fits (s : Registry τ α) : Call α → Prop
  | .idle => True
  | .allocating a => isValidString a.name = true ∧ a.main_proc = true
  | .addingName ps => s.life ps = .made ∧ isValidString (s.record ps).m_name = true
  | .addingObj ps => ∃ n, s.life ps = .named n
  | .deletingObj ps .destroy => ∃ n, s.life ps = .dying n
  | .deletingObj ps (.failed ret) => (s.life ps = .made ∨ ∃ n, s.life ps = .named n) ∧ ret ≠ .ok
  | .deletingName ps .destroy => ∃ n, s.life ps = .named n
  | .deletingName ps (.failed ret) => (s.life ps = .made ∨ ∃ n, s.life ps = .named n) ∧ ret ≠ .ok
  | .freeing ps .destroy => s.life ps = .made
  | .freeing ps (.failed ret) => s.life ps = .made ∧ ret ≠ .ok

/-- **The tables show the lives of all stages**, and the calls have them. -/
structure Inv [DecidableEq α] (s : Registry τ α) : Prop where
  names : s.s_ps_name_tbl.Shows (fun ps => (s.life ps).name?)
  objs : ∀ ps, s.s_ps_obj_tbl.lookup ps = if (s.life ps).isListed then some true else none
  record : ∀ ps n, (s.life ps).name? = some n →
    (s.record ps).m_name = some n ∧ isValidString (some n) = true
  fits : ∀ t, Fits s (s.call t)
  owner : ∀ t u ps, (s.call t).stage? = some ps → (s.call u).stage? = some ps → t = u
  owned : ∀ ps, (s.life ps).isOwned = true → ∃ t, (s.call t).stage? = some ps

theorem Inv.empty [DecidableEq α] : Inv (Registry.empty τ α) := by
  refine ⟨?_, ?_, ?_, ?_, ?_, ?_⟩
  · intro n ps
    simp [Registry.empty, Life.name?]
  · intro ps
    simp [Registry.empty, Life.isListed]
  · intro ps n h
    simp [Registry.empty, Life.name?] at h
  · intro t
    exact trivial
  · intro t u ps h
    simp [Registry.empty, Call.stage?] at h
  · intro ps h
    simp [Registry.empty, Life.isOwned] at h

/-- A call's place depends only on its own stage. -/
theorem Fits.congr {c : Call α} (h : Fits s c)
    (hlife : ∀ ps, c.stage? = some ps → s'.life ps = s.life ps)
    (hrec : ∀ ps, c.stage? = some ps → (s'.record ps).m_name = (s.record ps).m_name) :
    Fits s' c := by
  cases c with
  | idle => exact h
  | allocating a => exact h
  | addingName ps =>
    simp only [Fits, hlife ps rfl, hrec ps rfl]
    exact h
  | addingObj ps =>
    simp only [Fits, hlife ps rfl]
    exact h
  | deletingObj ps why => cases why <;> (simp only [Fits, hlife ps rfl]; exact h)
  | deletingName ps why => cases why <;> (simp only [Fits, hlife ps rfl]; exact h)
  | freeing ps why => cases why <;> (simp only [Fits, hlife ps rfl]; exact h)

/-- A call that has a stage keeps the stage's memory in use. -/
theorem Fits.used {c : Call α} {ps : α} (h : Fits s c) (hps : c.stage? = some ps) :
    (s.life ps).isOwned = true := by
  cases c with
  | idle => simp [Call.stage?] at hps
  | allocating a => simp [Call.stage?] at hps
  | addingName q =>
    cases hps
    rw [h.1]
    rfl
  | addingObj q =>
    cases hps
    obtain ⟨n, hn⟩ := h
    rw [hn]
    rfl
  | deletingObj q why =>
    cases hps
    cases why with
    | destroy =>
      obtain ⟨n, hn⟩ := h
      rw [hn]
      rfl
    | failed ret =>
      rcases h.1 with hm | ⟨n, hn⟩
      · rw [hm]
        rfl
      · rw [hn]
        rfl
  | deletingName q why =>
    cases hps
    cases why with
    | destroy =>
      obtain ⟨n, hn⟩ := h
      rw [hn]
      rfl
    | failed ret =>
      rcases h.1 with hm | ⟨n, hn⟩
      · rw [hm]
        rfl
      · rw [hn]
        rfl
  | freeing q why =>
    cases hps
    cases why with
    | destroy =>
      rw [show s.life ps = .made from h]
      rfl
    | failed ret =>
      rw [h.1]
      rfl

section
variable [DecidableEq α]

/-- No call has a stage that is live or unused. -/
theorem Inv.unowned (h : Inv s) {ps : α} (hps : (s.life ps).isOwned = false) (u : τ) :
    (s.call u).stage? ≠ some ps := by
  intro hu
  rw [(h.fits u).used hu] at hps
  exact absurd hps (by decide)

/-- **One thread moves, one stage's life goes on**: what is left to show is that
the tables follow, and that the new place fits. -/
theorem Inv.of_move [DecidableEq τ] (h : Inv s) {t : τ} {ps : α} {c : Call α}
    (hcall : s'.call = Function.update s.call t c)
    (hlife : ∀ q, q ≠ ps → s'.life q = s.life q)
    (hrec : ∀ q, q ≠ ps → (s'.record q).m_name = (s.record q).m_name)
    (hothers : ∀ u, u ≠ t → (s.call u).stage? ≠ some ps)
    (hmine : ∀ q, q ≠ ps → (s.call t).stage? ≠ some q)
    (hc : c.stage? = if (s'.life ps).isOwned then some ps else none)
    (hfits : Fits s' c)
    (hnames : s'.s_ps_name_tbl.Shows (fun q => (s'.life q).name?))
    (hobjs : ∀ q, s'.s_ps_obj_tbl.lookup q = if (s'.life q).isListed then some true else none)
    (hnamed : ∀ n, (s'.life ps).name? = some n →
      (s'.record ps).m_name = some n ∧ isValidString (some n) = true) : Inv s' := by
  have hct : s'.call t = c := by
    rw [hcall, Function.update_self]
  have hcu : ∀ u, u ≠ t → s'.call u = s.call u := fun u hu => by
    rw [hcall, Function.update_of_ne hu]
  have hcps : ∀ q, c.stage? = some q → q = ps := by
    intro q hq
    rw [hc] at hq
    split at hq
    · exact (Option.some.inj hq).symm
    · exact absurd hq (by simp)
  refine ⟨hnames, hobjs, ?_, ?_, ?_, ?_⟩
  · intro q n hn
    by_cases hq : q = ps
    · subst hq
      exact hnamed n hn
    · rw [hrec q hq]
      rw [hlife q hq] at hn
      exact h.record q n hn
  · intro u
    by_cases hu : u = t
    · subst hu
      rw [hct]
      exact hfits
    · rw [hcu u hu]
      -- what another thread works on has not changed
      have hne : ∀ q, (s.call u).stage? = some q → q ≠ ps := by
        intro q hq heq
        subst heq
        exact hothers u hu hq
      exact (h.fits u).congr (fun q hq => hlife q (hne q hq)) (fun q hq => hrec q (hne q hq))
  · intro u v q hu hv
    by_cases hut : u = t
    · by_cases hvt : v = t
      · rw [hut, hvt]
      · rw [hut, hct] at hu
        rw [hcu v hvt, hcps q hu] at hv
        exact absurd hv (hothers v hvt)
    · rw [hcu u hut] at hu
      by_cases hvt : v = t
      · rw [hvt, hct] at hv
        rw [hcps q hv] at hu
        exact absurd hu (hothers u hut)
      · rw [hcu v hvt] at hv
        exact h.owner u v q hu hv
  · intro q hq
    by_cases hqp : q = ps
    · subst hqp
      exact ⟨t, by rw [hct, hc, if_pos hq]⟩
    · rw [hlife q hqp] at hq
      obtain ⟨u, hu⟩ := h.owned q hq
      have hut : u ≠ t := by
        intro heq
        subst heq
        exact hmine q hqp hu
      exact ⟨u, by rw [hcu u hut]; exact hu⟩

/-- A thread moves that has no stage before or after. -/
theorem Inv.of_stay [DecidableEq τ] (h : Inv s) {t : τ} {c : Call α}
    (hmine : (s.call t).stage? = none) (hc : c.stage? = none) (hfits : Fits s c) :
    Inv (s.move t c) := by
  have hct : (s.move t c).call t = c := Function.update_self ..
  have hcu : ∀ u, u ≠ t → (s.move t c).call u = s.call u := fun u hu =>
    Function.update_of_ne hu ..
  have hback : ∀ u q, ((s.move t c).call u).stage? = some q → (s.call u).stage? = some q := by
    intro u q hu
    by_cases hut : u = t
    · rw [hut, hct, hc] at hu
      exact absurd hu (by simp)
    · rw [← hcu u hut]
      exact hu
  refine ⟨h.names, h.objs, h.record, ?_, ?_, ?_⟩
  · intro u
    by_cases hut : u = t
    · rw [hut, hct]
      exact hfits
    · rw [hcu u hut]
      exact h.fits u
  · intro u v q hu hv
    exact h.owner u v q (hback u q hu) (hback v q hv)
  · intro q hq
    obtain ⟨u, hu⟩ := h.owned q hq
    have hut : u ≠ t := by
      intro heq
      subst heq
      rw [hmine] at hu
      exact absurd hu (by simp)
    exact ⟨u, by rw [hcu u hut]; exact hu⟩

end

/-! ## §3. Each step. -/

section
variable [DecidableEq α]

/-- What every stage shows, when one stage's life goes on. -/
theorem name?_lead (s : Registry τ α) (ps : α) (l : Life) :
    (fun q => ((s.lead ps l).life q).name?) =
      Function.update (fun q => (s.life q).name?) ps l.name? := by
  funext q
  by_cases hq : q = ps
  · subst hq
    simp [Registry.lead]
  · simp [Registry.lead, hq]

/-- The life of a stage goes on without a change to what it shows by name. -/
theorem shows_lead (s : Registry τ α) (ps : α) (l : Life)
    (h : s.s_ps_name_tbl.Shows (fun q => (s.life q).name?))
    (hl : l.name? = (s.life ps).name?) :
    s.s_ps_name_tbl.Shows (fun q => ((s.lead ps l).life q).name?) := by
  rw [name?_lead, hl, Function.update_eq_self]
  exact h

theorem Inv.of_create [DecidableEq τ] (h : Inv s) {t : τ} (ht : s.call t = .idle) (a : Args α) :
    Inv (create s t a).2 := by
  rcases create_cases s t a with heq | ⟨heq, hname, hproc⟩
  · rw [heq]
    exact h
  · rw [heq]
    exact h.of_stay (by rw [ht]; rfl) rfl ⟨hname, hproc⟩

/-- The memory of a new stage. -/
theorem Inv.of_prepare [DecidableEq τ] (h : Inv s) {t : τ} {a : Args α}
    (ht : s.call t = .allocating a) {ps : α} (hps : s.life ps = .unused) (heap : Bool)
    (env : InitEnv) : Inv (prepare s t a ps heap env).2 := by
  have hfit : Fits s (.allocating a) := ht ▸ h.fits t
  have hunowned : ∀ u, (s.call u).stage? ≠ some ps := h.unowned (by rw [hps]; rfl)
  have hmine : ∀ q, q ≠ ps → (s.call t).stage? ≠ some q := by
    intro q _
    rw [ht]
    simp [Call.stage?]
  unfold prepare
  generalize hr : initStage env a heap (s.record ps) = p
  obtain ⟨ret, r⟩ := p
  -- the state in which only the memory has been written
  let s₁ : Registry τ α := { s with record := Function.update s.record ps r }
  have hlife : ∀ q, q ≠ ps → (s₁.lead ps .made).life q = s.life q := fun q hq =>
    lead_life_of_ne _ _ hq
  have hps' : (s₁.lead ps .made).life ps = .made := lead_life_self ..
  have hrec : ∀ q, q ≠ ps → ((s₁.lead ps .made).record q).m_name = (s.record q).m_name := by
    intro q hq
    show (Function.update s.record ps r q).m_name = _
    rw [Function.update_of_ne hq]
  have hnames := shows_lead s₁ ps .made h.names (by
    show Life.name? .made = (s.life ps).name?
    rw [hps]
    rfl)
  have hobjs : ∀ q, s₁.s_ps_obj_tbl.lookup q =
      if ((s₁.lead ps .made).life q).isListed then some true else none := by
    intro q
    by_cases hq : q = ps
    · subst hq
      rw [hps', show s₁.s_ps_obj_tbl.lookup q = none by rw [h.objs q, hps]; rfl]
      rfl
    · rw [hlife q hq]
      exact h.objs q
  have hnamed : ∀ n, ((s₁.lead ps .made).life ps).name? = some n →
      ((s₁.lead ps .made).record ps).m_name = some n ∧ isValidString (some n) = true := by
    intro n hn
    rw [hps'] at hn
    exact absurd hn (by simp [Life.name?])
  have hr' : (s₁.lead ps .made).record ps = r := Function.update_self ..
  dsimp only
  split
  next hok =>
    refine h.of_move rfl hlife hrec (fun u _ => hunowned u) hmine ?_ ?_ hnames hobjs hnamed
    · show some ps = if ((s₁.lead ps .made).life ps).isOwned then some ps else none
      rw [hps']
      rfl
    · refine ⟨hps', ?_⟩
      have hname : (initStage env a heap (s.record ps)).2.m_name = a.name :=
        initStage_ok (by rw [hr]; exact hok)
      rw [hr] at hname
      show isValidString ((s₁.lead ps .made).record ps).m_name = true
      rw [hr', hname]
      exact hfit.1
  next hok =>
    refine h.of_move rfl hlife hrec (fun u _ => hunowned u) hmine ?_ ?_ hnames hobjs hnamed
    · show some ps = if ((s₁.lead ps .made).life ps).isOwned then some ps else none
      rw [hps']
      rfl
    · exact ⟨.inl hps', hok⟩

/-- **The thread that has a stage takes the stage's life on**, with its entries. -/
theorem Inv.of_own [DecidableEq τ] (h : Inv s) {t : τ} {ps : α}
    (ht : (s.call t).stage? = some ps) {T : Map String α} {O : Map α Bool} {l : Life}
    {c : Call α} (hc : c.stage? = if l.isOwned then some ps else none)
    (hfits : Fits (s.lead ps l) c)
    (hnames : T.Shows (Function.update (fun q => (s.life q).name?) ps l.name?))
    (hobj : O.lookup ps = if l.isListed then some true else none)
    (hobjs : ∀ q, q ≠ ps → O.lookup q = s.s_ps_obj_tbl.lookup q)
    (hnamed : ∀ n, l.name? = some n →
      (s.record ps).m_name = some n ∧ isValidString (some n) = true) :
    Inv ((({ s with s_ps_name_tbl := T, s_ps_obj_tbl := O } : Registry τ α).lead ps l).move
      t c) := by
  have hps : (s.lead ps l).life ps = l := lead_life_self ..
  refine h.of_move rfl (fun q hq => lead_life_of_ne _ _ hq) (fun _ _ => rfl)
    ?_ ?_ ?_ ?_ ?_ ?_ ?_
  · intro u hu hup
    exact hu (h.owner u t ps hup ht)
  · intro q hq hq'
    rw [ht] at hq'
    exact hq (Option.some.inj hq').symm
  · show c.stage? = if ((s.lead ps l).life ps).isOwned then some ps else none
    rw [hps]
    exact hc
  · exact hfits.congr (fun _ _ => rfl) (fun _ _ => rfl)
  · show T.Shows (fun q => ((s.lead ps l).life q).name?)
    rw [name?_lead]
    exact hnames
  · intro q
    show O.lookup q = if ((s.lead ps l).life q).isListed then some true else none
    by_cases hq : q = ps
    · subst hq
      rw [hps]
      exact hobj
    · rw [lead_life_of_ne s l hq, hobjs q hq]
      exact h.objs q
  · intro n hn
    exact hnamed n (by rw [← hps]; exact hn)

/-- The thread that has a stage goes on to another place. -/
theorem Inv.of_turn [DecidableEq τ] (h : Inv s) {t : τ} {ps : α}
    (ht : (s.call t).stage? = some ps) {c : Call α} (hc : c.stage? = some ps)
    (hfits : Fits s c) : Inv (s.move t c) := by
  have hown : (s.life ps).isOwned = true := (h.fits t).used ht
  have hgo := h.of_own (l := s.life ps) (T := s.s_ps_name_tbl) (O := s.s_ps_obj_tbl) (c := c) ht
    (by rw [if_pos hown]; exact hc) (by rw [lead_self]; exact hfits)
    (by rw [Function.update_eq_self]; exact h.names) (h.objs ps) (fun _ _ => rfl) (h.record ps)
  rw [lead_self] at hgo
  exact hgo

theorem Inv.of_addName [DecidableEq τ] (h : Inv s) {t : τ} {ps : α}
    (ht : s.call t = .addingName ps) (room : Bool) : Inv (addName s t ps room).2 := by
  have hfit : Fits s (.addingName ps) := ht ▸ h.fits t
  have hps : (s.call t).stage? = some ps := by
    rw [ht]
    rfl
  obtain ⟨hmade, hvalid⟩ := hfit
  unfold addName
  split
  next n hn =>
    rw [hn] at hvalid
    rw [if_pos hvalid]
    dsimp only
    split
    next hok =>
      obtain ⟨htbl, hfree⟩ := Map.add_ok hok
      rw [htbl]
      have hnone : (s.life ps).name? = none := by
        rw [hmade]
        rfl
      refine h.of_own hps rfl ⟨n, Function.update_self ..⟩
        (h.names.insert (hfree rfl) hnone) ?_ (fun _ _ => rfl) ?_
      · show s.s_ps_obj_tbl.lookup ps = none
        rw [h.objs, hmade]
        rfl
      · intro m hm
        cases hm
        exact ⟨hn, hvalid⟩
    next hok =>
      rw [Map.add_not_ok hok]
      exact h.of_turn hps rfl ⟨.inl hmade, hok⟩
  next hn =>
    rw [hn] at hvalid
    exact absurd hvalid (by decide)

theorem Inv.of_addObj [DecidableEq τ] (h : Inv s) {t : τ} {ps : α}
    (ht : s.call t = .addingObj ps) (room : Bool) : Inv (addObj s t ps room).2 := by
  have hfit : Fits s (.addingObj ps) := ht ▸ h.fits t
  have hps : (s.call t).stage? = some ps := by
    rw [ht]
    rfl
  obtain ⟨n, hn⟩ := hfit
  unfold addObj
  dsimp only
  split
  next hok =>
    rw [(Map.add_ok hok).1, hn]
    refine h.of_own hps rfl trivial ?_ (Finmap.lookup_insert _)
      (fun q hq => Finmap.lookup_insert_of_ne _ hq) ?_
    · show s.s_ps_name_tbl.Shows (Function.update (fun q => (s.life q).name?) ps (some n))
      rw [show some n = (s.life ps).name? by rw [hn]; rfl, Function.update_eq_self]
      exact h.names
    · intro m hm
      exact h.record ps m (by rw [hn]; exact hm)
  next hok =>
    rw [Map.add_not_ok hok]
    exact h.of_turn hps rfl ⟨.inr ⟨n, hn⟩, hok⟩

theorem Inv.isStage_iff (h : Inv s) {ps : α} :
    s.isStage ps = true ↔ (s.life ps).isListed = true := by
  have hobj := h.objs ps
  unfold Registry.isStage Map.find
  cases hl : (s.life ps).isListed <;> simp [hobj, hl, Result.ok, Result.notFound]

/-- A destroy that finds its stage, and no other destroy of it. -/
theorem Inv.of_destroy [DecidableEq τ] (h : Inv s) {t : τ} (ht : s.call t = .idle)
    {sptr : Option (Option α)} (hproper : ∀ ps n, sptr = some (some ps) → s.life ps ≠ .dying n) :
    Inv (destroy s t sptr).2 := by
  unfold destroy
  split
  next ps =>
    split
    next hstage =>
      have hlisted : (s.life ps).isListed = true := h.isStage_iff.mp hstage
      obtain ⟨n, hn⟩ : ∃ n, s.life ps = .live n := by
        cases hl : s.life ps with
        | live n => exact ⟨n, rfl⟩
        | dying n => exact absurd hl (hproper ps n rfl)
        | unused => exact absurd hlisted (by rw [hl]; decide)
        | made => exact absurd hlisted (by rw [hl]; decide)
        | named n => exact absurd hlisted (by rw [hl]; simp [Life.isListed])
      rw [hn]
      -- only the record's status and the ghost change
      let s₁ : Registry τ α := { s with
        record := Function.update s.record ps { s.record ps with m_status := .destroying } }
      have hps' : (s₁.lead ps (.dying n)).life ps = .dying n := lead_life_self ..
      have hlife : ∀ q, q ≠ ps → (s₁.lead ps (.dying n)).life q = s.life q := fun q hq =>
        lead_life_of_ne _ _ hq
      have hrec : ∀ q, ((s₁.lead ps (.dying n)).record q).m_name = (s.record q).m_name := by
        intro q
        show (Function.update s.record ps _ q).m_name = _
        by_cases hq : q = ps
        · rw [hq, Function.update_self]
        · rw [Function.update_of_ne hq]
      show Inv ((s₁.lead ps (.dying n)).move t (.deletingObj ps .destroy))
      refine h.of_move rfl hlife (fun q _ => hrec q)
        (fun u _ => h.unowned (by rw [hn]; rfl) u) ?_ ?_ ⟨n, hps'⟩ ?_ ?_ ?_
      · intro q _
        rw [ht]
        simp [Call.stage?]
      · show some ps = if ((s₁.lead ps (.dying n)).life ps).isOwned then some ps else none
        rw [hps']
        rfl
      · apply shows_lead s₁ ps (.dying n) h.names
        show some n = (s.life ps).name?
        rw [hn]
        rfl
      · intro q
        show s.s_ps_obj_tbl.lookup q =
          if ((s₁.lead ps (.dying n)).life q).isListed then some true else none
        by_cases hq : q = ps
        · rw [hq, hps', h.objs ps, hn]
          rfl
        · rw [hlife q hq]
          exact h.objs q
      · intro m hm
        rw [show (((s₁.lead ps (.dying n)).move t (.deletingObj ps .destroy)).record ps).m_name =
          (s.record ps).m_name from hrec ps]
        apply h.record ps m
        rw [hn]
        have hm' : ((s₁.lead ps (.dying n)).life ps).name? = some m := hm
        rw [hps'] at hm'
        exact hm'
    next => exact h
  next => exact h

theorem Inv.of_deleteObj [DecidableEq τ] (h : Inv s) {t : τ} {ps : α} {why : Cleanup}
    (ht : s.call t = .deletingObj ps why) : Inv (deleteObj s t ps why) := by
  have hfit : Fits s (.deletingObj ps why) := ht ▸ h.fits t
  have hps : (s.call t).stage? = some ps := by
    rw [ht]
    rfl
  have hname : (s.life ps).unlist.name? = (s.life ps).name? := by
    cases s.life ps <;> rfl
  have hlisted : (s.life ps).unlist.isListed = false := by
    cases s.life ps <;> rfl
  have hnew : (s.lead ps (s.life ps).unlist).life ps = (s.life ps).unlist :=
    lead_life_self ..
  unfold deleteObj Map.delete
  refine h.of_own hps ?_ ?_ ?_ ?_ (fun q hq => Finmap.lookup_erase_ne hq) ?_
  · have hown : (s.life ps).isOwned = true := (h.fits t).used hps
    revert hown
    cases s.life ps <;> simp [Life.unlist, Life.isOwned, Call.stage?]
  · cases why with
    | destroy =>
      obtain ⟨n, hn⟩ := hfit
      exact ⟨n, by rw [hnew, hn]; rfl⟩
    | failed ret =>
      obtain ⟨hm | ⟨n, hn⟩, hret⟩ := hfit
      · exact ⟨.inl (by rw [hnew, hm]; rfl), hret⟩
      · exact ⟨.inr ⟨n, by rw [hnew, hn]; rfl⟩, hret⟩
  · rw [hname, Function.update_eq_self]
    exact h.names
  · rw [hlisted]
    exact Finmap.lookup_erase ..
  · intro n hn
    exact h.record ps n (by rw [← hname]; exact hn)

/-- The delete by name, when no other stage has the name of a failed create. -/
theorem Inv.of_deleteName [DecidableEq τ] (h : Inv s) {t : τ} {ps : α} {why : Cleanup}
    (ht : s.call t = .deletingName ps why)
    (hharmless : ∀ ret n, why = .failed ret → (s.record ps).m_name = some n →
      ∀ q, s.s_ps_name_tbl.lookup n = some q → q = ps) : Inv (deleteName s t ps why) := by
  have hfit : Fits s (.deletingName ps why) := ht ▸ h.fits t
  have hps : (s.call t).stage? = some ps := by
    rw [ht]
    rfl
  have hobjs : s.s_ps_obj_tbl.lookup ps = none := by
    rw [h.objs]
    cases why with
    | destroy =>
      obtain ⟨n, hn⟩ := hfit
      rw [hn]
      rfl
    | failed ret =>
      obtain ⟨hm | ⟨n, hn⟩, -⟩ := hfit
      · rw [hm]
        rfl
      · rw [hn]
        rfl
  -- the stage that is in no table any more
  have hend : ∀ T : Map String α,
      T.Shows (Function.update (fun q => (s.life q).name?) ps none) →
      Inv (({ s with s_ps_name_tbl := T }.lead ps .made).move t (.freeing ps why)) := by
    intro T hT
    have hfit' : Fits (s.lead ps .made) (.freeing ps why) := by
      have hnew : (s.lead ps .made).life ps = .made := lead_life_self ..
      cases why with
      | destroy => exact hnew
      | failed ret => exact ⟨hnew, hfit.2⟩
    exact h.of_own (O := s.s_ps_obj_tbl) hps rfl hfit' hT hobjs (fun _ _ => rfl)
      (by simp [Life.name?])
  by_cases hnamed : ∃ n, s.life ps = .named n
  · obtain ⟨n, hn⟩ := hnamed
    have hkey : (s.life ps).name? = some n := by
      rw [hn]
      rfl
    obtain ⟨hname, hvalid⟩ := h.record ps n hkey
    unfold deleteName Map.delete
    rw [hname]
    dsimp only
    rw [if_pos hvalid, hn]
    exact hend _ (h.names.erase hkey)
  · obtain ⟨ret, rfl, hmade⟩ : ∃ ret, why = .failed ret ∧ s.life ps = .made := by
      cases why with
      | destroy => exact absurd hfit hnamed
      | failed ret => exact ⟨ret, rfl, hfit.1.resolve_right hnamed⟩
    have hshows : Function.update (fun q => (s.life q).name?) ps none =
        fun q => (s.life q).name? := by
      rw [show none = (s.life ps).name? by rw [hmade]; rfl, Function.update_eq_self]
    have hstay : Inv (s.move t (.freeing ps (.failed ret))) :=
      h.of_turn hps rfl ⟨hmade, hfit.2⟩
    unfold deleteName Map.delete
    split
    next n hn =>
      split
      next =>
        have habsent : s.s_ps_name_tbl.lookup n = none := by
          by_contra hc
          obtain ⟨q, hq⟩ := Option.ne_none_iff_exists'.mp hc
          have hqps : q = ps := hharmless ret n rfl hn q hq
          have hkey := (h.names n q).mp hq
          rw [hqps] at hkey
          dsimp only at hkey
          rw [hmade] at hkey
          exact absurd hkey (by simp [Life.name?])
        rw [hmade]
        apply hend _
        rw [hshows]
        exact h.names.erase_absent habsent
      next => exact hstay
    next => exact hstay

theorem Inv.of_free [DecidableEq τ] (h : Inv s) {t : τ} {ps : α} {why : Cleanup}
    (ht : s.call t = .freeing ps why) : Inv (free s t ps why).2 := by
  have hfit : Fits s (.freeing ps why) := ht ▸ h.fits t
  have hps : (s.call t).stage? = some ps := by
    rw [ht]
    rfl
  have hmade : s.life ps = .made := by
    cases why with
    | destroy => exact hfit
    | failed ret => exact hfit.1
  have hend : Inv ((s.lead ps .unused).move t .idle) := by
    refine h.of_own (T := s.s_ps_name_tbl) (O := s.s_ps_obj_tbl) hps rfl trivial ?_ ?_
      (fun _ _ => rfl) (by simp [Life.name?])
    · rw [show Life.name? .unused = (s.life ps).name? by rw [hmade]; rfl, Function.update_eq_self]
      exact h.names
    · rw [h.objs, hmade]
      rfl
  cases why with
  | destroy => exact hend
  | failed ret => exact hend

theorem Inv.of_make [DecidableEq τ] (h : Inv s) {t : τ} {a : Args α}
    (ht : s.call t = .allocating a) {mem : Option α} {env : InitEnv} {o : Outcome α}
    (hproper : ∀ ps, a.sptr = some (some ps) → s.life ps = .unused)
    (hr : make s t a mem env = some (o, s')) : Inv s' := by
  rcases make_cases hr with ⟨ps, heap, hs, hps⟩ | hs
  · rw [hs]
    exact h.of_prepare ht (hps.elim (hproper ps) id) heap env
  · rw [hs]
    exact h.of_stay (by rw [ht]; rfl) rfl trivial

/-- **The step lemma**: every proper step keeps the tables in agreement with the
lives, unless a failed create deletes the name of another stage. -/
theorem Inv.step [DecidableEq τ] (h : Inv s) (hstep : Step s l s') (hproper : Proper s l s')
    (hharmless : Harmless s l s') : Inv s' := by
  cases step_cases hstep with
  | create t a ha ht ho hs =>
    rw [hs]
    exact h.of_create ht a
  | destroy t sptr ha ht ho hs =>
    rw [hs]
    unfold Proper at hproper
    rw [ha] at hproper
    exact h.of_destroy ht hproper
  | find t name retptr ha ht ho hs =>
    rw [hs]
    exact h
  | make t mem env a ha ht hs =>
    unfold Proper at hproper
    rw [ha] at hproper
    exact h.of_make ht (fun ps => hproper a ps ht) hs
  | addName t room ps ha ht ho hs =>
    rw [hs]
    exact h.of_addName ht room
  | addObj t room ps ha ht ho hs =>
    rw [hs]
    exact h.of_addObj ht room
  | deleteObj t ps why ha ht ho hs =>
    rw [hs]
    exact h.of_deleteObj ht
  | deleteName t ps why ha ht ho hs =>
    rw [hs]
    apply h.of_deleteName ht
    intro ret n hwhy hn
    subst hwhy
    exact hharmless t ps ret n ha ht hn
  | free t ps why ha ht ho hs =>
    rw [hs]
    exact h.of_free ht

end

end Mccp.Pipeline
