import Mathlib.Data.List.Forall2

/-! # Results that may be errors

What is true of a result if there is one, and how results of one step are results of the next.
-/

namespace RowFilter

/-- A result of two steps is one of the second from a result of the first. -/
theorem bind_eq_ok {α β ε : Type} {x : Except ε α} {f : α → Except ε β} {b : β} :
    (x >>= f) = .ok b ↔ ∃ a, x = .ok a ∧ f a = .ok b := by
  cases x with
  | error e => simp [Bind.bind, Except.bind]
  | ok a => simp [Bind.bind, Except.bind]

/-- An error of two steps is one of the first, or of the second from a result of the first. -/
theorem bind_eq_error {α β ε : Type} {x : Except ε α} {f : α → Except ε β} {e : ε} :
    (x >>= f) = .error e ↔ x = .error e ∨ ∃ a, x = .ok a ∧ f a = .error e := by
  cases x with
  | error e => simp [Bind.bind, Except.bind]
  | ok a => simp [Bind.bind, Except.bind]

theorem map_eq_ok {α β ε : Type} {x : Except ε α} {f : α → β} {b : β} :
    x.map f = .ok b ↔ ∃ a, x = .ok a ∧ f a = b := by
  cases x with
  | error e => simp [Except.map]
  | ok a => simp [Except.map]

/-- A list of results has one for each item, in order. -/
theorem mapM_eq_ok {α β ε : Type} {f : α → Except ε β} {items : List α} {results : List β} :
    items.mapM f = .ok results ↔ List.Forall₂ (fun item result => f item = .ok result) items
      results := by
  induction items generalizing results with
  | nil =>
      rw [List.mapM_nil, List.forall₂_nil_left_iff]
      constructor
      · intro h
        cases h
        rfl
      · rintro rfl
        rfl
  | cons item rest ih =>
      rw [List.mapM_cons, bind_eq_ok, List.forall₂_cons_left_iff]
      constructor
      · rintro ⟨result, hresult, h⟩
        obtain ⟨others, hothers, h⟩ := bind_eq_ok.mp h
        cases h
        exact ⟨result, others, hresult, ih.mp hothers, rfl⟩
      · rintro ⟨result, others, hresult, hothers, rfl⟩
        refine ⟨result, hresult, bind_eq_ok.mpr ⟨others, ih.mpr hothers, rfl⟩⟩

/-- Functions that agree about the items give the same outcomes for them. -/
theorem mapM_congr {α β ε : Type} {f g : α → Except ε β} {items : List α}
    (h : ∀ item ∈ items, f item = g item) : items.mapM f = items.mapM g := by
  induction items with
  | nil => rfl
  | cons item rest ih =>
      rw [List.forall_mem_cons] at h
      rw [List.mapM_cons, List.mapM_cons, h.1, ih h.2]

theorem forall₂_imp_of_mem {α β : Type} {R S : α → β → Prop} {items : List α} {results : List β}
    (h : List.Forall₂ R items results)
    (himp : ∀ item ∈ items, ∀ result ∈ results, R item result → S item result) :
    List.Forall₂ S items results := by
  rw [List.forall₂_iff_zip] at h ⊢
  refine ⟨h.1, fun hpair => ?_⟩
  obtain ⟨hitem, hresult⟩ := List.of_mem_zip hpair
  exact himp _ hitem _ hresult (h.2 hpair)

/-- If each item has a result that is related to something, the list has results that are related
to these things one by one. -/
theorem exists_mapM {α β γ ε : Type} {R : α → β → Prop} {f : γ → Except ε β} {items : List γ}
    {others : List α}
    (h : List.Forall₂ (fun item a => ∃ b, f item = .ok b ∧ R a b) items others) :
    ∃ results, items.mapM f = .ok results ∧ List.Forall₂ R others results := by
  induction h with
  | nil => exact ⟨[], rfl, .nil⟩
  | cons hfirst hrest ih =>
      obtain ⟨b, hb, hR⟩ := hfirst
      obtain ⟨results, hresults, hall⟩ := ih
      exact ⟨b :: results, by rw [List.mapM_cons, hb, hresults]; rfl, .cons hR hall⟩

/-- What is related item by item through something between is related to a list of such things. -/
theorem forall₂_exists_iff {α β γ : Type} {R : α → β → Prop} {S : β → γ → Prop} {items : List α}
    {results : List γ} : List.Forall₂ (fun a c => ∃ b, R a b ∧ S b c) items results ↔
      ∃ between, List.Forall₂ R items between ∧ List.Forall₂ S between results := by
  constructor
  · intro h
    induction h with
    | nil => exact ⟨[], .nil, .nil⟩
    | cons hfirst hrest ih =>
        obtain ⟨b, hR, hS⟩ := hfirst
        obtain ⟨between, hleft, hright⟩ := ih
        exact ⟨b :: between, .cons hR hleft, .cons hS hright⟩
  · rintro ⟨between, hleft, hright⟩
    induction hleft generalizing results with
    | nil =>
        rw [List.forall₂_nil_left_iff.mp hright]
        exact .nil
    | cons hfirst hrest ih =>
        obtain ⟨c, rest, hS, hothers, rfl⟩ := List.forall₂_cons_left_iff.mp hright
        exact .cons ⟨_, hfirst, hS⟩ (ih hothers)

/-- If there is a result, it has a property. -/
def Yields {α ε : Type} (P : α → Prop) (x : Except ε α) : Prop :=
  ∀ a, x = .ok a → P a

namespace Yields

variable {α β ε : Type} {P : α → Prop} {Q : β → Prop}

theorem ok {a : α} (h : P a) : Yields P (.ok a : Except ε α) := by
  intro b hb
  cases hb
  exact h

theorem error (e : ε) : Yields P (.error e) := by
  intro a ha
  cases ha

theorem mono {x : Except ε α} {R : α → Prop} (hx : Yields P x) (h : ∀ a, P a → R a) :
    Yields R x :=
  fun a ha => h a (hx a ha)

/-- What the second step yields from results with a property, both steps yield. -/
theorem bind {x : Except ε α} {f : α → Except ε β} (hx : Yields P x)
    (hf : ∀ a, P a → Yields Q (f a)) : Yields Q (x >>= f) := by
  intro b hb
  obtain ⟨a, ha, hb⟩ := bind_eq_ok.mp hb
  exact hf a (hx a ha) b hb

/-- A step that goes on whatever the result before it. -/
theorem step {x : Except ε α} {f : α → Except ε β} (hf : ∀ a, x = .ok a → Yields Q (f a)) :
    Yields Q (x >>= f) := by
  intro b hb
  obtain ⟨a, ha, hb⟩ := bind_eq_ok.mp hb
  exact hf a ha b hb

theorem ite {condition : Prop} [Decidable condition] {x y : Except ε α}
    (hx : condition → Yields P x) (hy : ¬condition → Yields P y) :
    Yields P (if condition then x else y) := by
  split
  next h => exact hx h
  next h => exact hy h

/-- What is yielded for each item is yielded for all of them. -/
theorem mapM {f : α → Except ε β} {items : List α} (h : ∀ item ∈ items, Yields Q (f item)) :
    Yields (fun results => ∀ result ∈ results, Q result) (items.mapM f) := by
  intro results hresults
  have hall := mapM_eq_ok.mp hresults
  clear hresults
  induction hall with
  | nil => simp
  | cons hfirst hrest ih =>
      rw [List.forall_mem_cons] at h ⊢
      exact ⟨h.1 _ hfirst, ih h.2⟩

end Yields

/-- Two outcomes are one fault, or two results that are related. -/
inductive Matches {α β ε : Type} (R : α → β → Prop) : Except ε α → Except ε β → Prop
  | ok {a : α} {b : β} (h : R a b) : Matches R (.ok a) (.ok b)
  | error (e : ε) : Matches R (.error e) (.error e)

namespace Matches

variable {α β γ δ ε : Type} {R : α → β → Prop} {S : γ → δ → Prop}

/-- Two steps match if both match, the second ones where the first results are related. -/
theorem bind {x : Except ε α} {y : Except ε β} {f : α → Except ε γ} {g : β → Except ε δ}
    (h : Matches R x y) (hf : ∀ a b, R a b → Matches S (f a) (g b)) :
    Matches S (x >>= f) (y >>= g) := by
  cases h with
  | ok hab => exact hf _ _ hab
  | error e => exact .error e

/-- Matching outcomes are results that are related, or one error. -/
theorem cases {x : Except ε α} {y : Except ε β} (h : Matches R x y) :
    (∃ a b, x = .ok a ∧ y = .ok b ∧ R a b) ∨ ∃ e, x = .error e ∧ y = .error e := by
  cases h with
  | ok hab => exact Or.inl ⟨_, _, rfl, rfl, hab⟩
  | error e => exact Or.inr ⟨e, rfl, rfl⟩

theorem exists_left {x : Except ε α} {y : Except ε β} (h : Matches R x y) {b : β}
    (hy : y = .ok b) : ∃ a, x = .ok a ∧ R a b := by
  cases h with
  | ok hab =>
      cases hy
      exact ⟨_, rfl, hab⟩
  | error e => cases hy

theorem exists_right {x : Except ε α} {y : Except ε β} (h : Matches R x y) {a : α}
    (hx : x = .ok a) : ∃ b, y = .ok b ∧ R a b := by
  cases h with
  | ok hab =>
      cases hx
      exact ⟨_, rfl, hab⟩
  | error e => cases hx

/-- A step that both outcomes go on from. -/
theorem step {x : Except ε α} {f : α → Except ε γ} {g : α → Except ε δ}
    (hf : ∀ a, x = .ok a → Matches S (f a) (g a)) : Matches S (x >>= f) (x >>= g) := by
  cases x with
  | ok a => exact hf a rfl
  | error e => exact .error e

theorem ite {condition : Prop} [Decidable condition] {x x' : Except ε α} {y y' : Except ε β}
    (hx : condition → Matches R x y) (hy : ¬condition → Matches R x' y') :
    Matches R (if condition then x else x') (if condition then y else y') := by
  split
  next h => exact hx h
  next h => exact hy h

/-- Outcomes for two lists match if they do item by item. -/
theorem mapM {f : γ → Except ε α} {g : δ → Except ε β} {items : List γ} {others : List δ}
    (h : List.Forall₂ (fun item other => Matches R (f item) (g other)) items others) :
    Matches (List.Forall₂ R) (items.mapM f) (others.mapM g) := by
  induction h with
  | nil => exact .ok .nil
  | cons hfirst hrest ih =>
      rw [List.mapM_cons, List.mapM_cons]
      exact hfirst.bind fun a b hab => ih.bind fun as bs hall => .ok (.cons hab hall)

/-- An outcome that matches itself has a result that is related to itself. -/
theorem yields {Q : α → α → Prop} {x : Except ε α} (h : Matches Q x x) :
    Yields (fun a => Q a a) x := by
  rintro a rfl
  cases h with
  | ok hab => exact hab

theorem of_yields {Q : α → α → Prop} {x : Except ε α} (h : Yields (fun a => Q a a) x) :
    Matches Q x x := by
  cases x with
  | ok a => exact .ok (h a rfl)
  | error e => exact .error e

end Matches

end RowFilter
