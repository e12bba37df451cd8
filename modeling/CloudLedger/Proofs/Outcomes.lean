import Mathlib.Data.List.Forall2

/-!
# Sequences of outcomes

A computation that may fail succeeds exactly if each of its steps does.  These laws take successful
outcomes of a sequence apart.
-/

namespace CloudLedger

variable {ε β γ : Type}

theorem bind_eq_ok {outcome : Except ε β} {next : β → Except ε γ} {c : γ} :
    outcome >>= next = .ok c ↔ ∃ b, outcome = .ok b ∧ next b = .ok c := by
  cases outcome <;> simp [bind, Except.bind]

theorem map_eq_ok {f : β → γ} {outcome : Except ε β} {c : γ} :
    f <$> outcome = .ok c ↔ ∃ b, outcome = .ok b ∧ f b = c := by
  cases outcome <;> simp [Functor.map, Except.map]

/-- A list is worked through exactly if each element is. -/
theorem mapM_eq_ok {f : β → Except ε γ} {items : List β} {results : List γ} :
    items.mapM f = .ok results ↔ List.Forall₂ (fun b c ↦ f b = .ok c) items results := by
  induction items generalizing results with
  | nil => cases results <;> simp [pure, Except.pure]
  | cons b rest ih =>
    simp only [List.mapM_cons, bind_eq_ok, List.forall₂_cons_left_iff, ih]
    constructor
    · rintro ⟨c, hb, cs, hrest, hresult⟩
      exact ⟨c, cs, hb, hrest, (Except.ok.inj hresult).symm⟩
    · rintro ⟨c, cs, hb, hrest, rfl⟩
      exact ⟨c, hb, cs, hrest, rfl⟩

theorem mapM_ok_iff {f : β → Except ε γ} {items : List β} :
    (∃ results, items.mapM f = .ok results) ↔ ∀ b ∈ items, ∃ c, f b = .ok c := by
  simp only [mapM_eq_ok]
  induction items with
  | nil => simp
  | cons b rest ih =>
    rw [List.forall_mem_cons, ← ih]
    constructor
    · rintro ⟨_, hall⟩
      cases hall with
      | cons hb hrest => exact ⟨⟨_, hb⟩, _, hrest⟩
    · rintro ⟨⟨c, hb⟩, cs, hrest⟩
      exact ⟨c :: cs, .cons hb hrest⟩

/-- An element that fails after others that do not decides, whatever comes after it. -/
theorem mapM_of_error {f : β → Except ε γ} {before : List β} {b : β} {e : ε}
    (hbefore : ∀ a ∈ before, ∃ c, f a = .ok c) (hb : f b = .error e) (rest : List β) :
    (before ++ b :: rest).mapM f = .error e := by
  induction before with
  | nil =>
    rw [List.nil_append, List.mapM_cons, hb]
    rfl
  | cons a before ih =>
    obtain ⟨⟨c, hc⟩, hothers⟩ := List.forall_mem_cons.mp hbefore
    rw [List.cons_append, List.mapM_cons, hc, ih hothers]
    rfl

/-- If not all elements succeed, a first one does not. -/
theorem exists_first_error {f : β → Except ε γ} {items : List β}
    (h : ¬ ∀ b ∈ items, ∃ c, f b = .ok c) :
    ∃ before b after e, items = before ++ b :: after ∧ (∀ a ∈ before, ∃ c, f a = .ok c) ∧
      f b = .error e := by
  induction items with
  | nil => simp at h
  | cons b rest ih =>
    cases hb : f b with
    | error e => exact ⟨[], b, rest, e, rfl, by simp, hb⟩
    | ok c =>
      rw [List.forall_mem_cons, not_and] at h
      obtain ⟨before, d, after, e, rfl, hbefore, hd⟩ := ih (h ⟨c, hb⟩)
      exact ⟨b :: before, d, after, e, rfl, List.forall_mem_cons.mpr ⟨⟨c, hb⟩, hbefore⟩, hd⟩

/-- What comes of a list are the outcomes of its elements. -/
theorem eq_filterMap_of_mapM {f : β → Except ε γ} {items : List β} {results : List γ}
    (h : items.mapM f = .ok results) : results = (items.map f).filterMap Except.toOption := by
  have hall := mapM_eq_ok.mp h
  clear h
  induction hall with
  | nil => rfl
  | cons hb _ ih =>
    rw [List.map_cons, List.filterMap_cons, ← ih, hb]
    rfl

theorem forall_iff_of_forall₂ {R : β → γ → Prop} {P : β → Prop} {Q : γ → Prop}
    (hstep : ∀ b c, R b c → (Q c ↔ P b)) {items : List β} {results : List γ}
    (h : List.Forall₂ R items results) : (∀ c ∈ results, Q c) ↔ ∀ b ∈ items, P b := by
  induction h with
  | nil => simp
  | cons hbc _ ih => rw [List.forall_mem_cons, List.forall_mem_cons, hstep _ _ hbc, ih]

theorem mapM_congr {f g : β → Except ε γ} {items : List β} (h : ∀ b ∈ items, f b = g b) :
    items.mapM f = items.mapM g := by
  induction items with
  | nil => rfl
  | cons b rest ih =>
    rw [List.mapM_cons, List.mapM_cons, h b List.mem_cons_self,
      ih fun c hc ↦ h c (List.mem_cons_of_mem b hc)]

end CloudLedger
