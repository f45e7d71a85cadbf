import Mathlib.Data.List.FinRange
import RowFilter.Request
import RowFilter.Sorting

/-! # Sorting by an order

What is sorted by an order stands in that order, and what is level in it stands as it stood before.
Both are said of the positions of the items, since two items of a list may be equal.
-/

namespace RowFilter

/-! ## Orders by several keys -/

section

variable {α : Type} {byKey : SortKey → α → α → Ordering} {byKeys : List SortKey → α → α → Ordering}
  {keys : List SortKey}

/-- The first of some orders that tells two things apart is an order. -/
theorem transCmp_byKeys (hnil : ∀ a b, byKeys [] a b = .eq)
    (hcons : ∀ key rest a b, byKeys (key :: rest) a b = (byKey key a b).then (byKeys rest a b))
    (h : ∀ key ∈ keys, Std.TransCmp (byKey key)) : Std.TransCmp (byKeys keys) := by
  induction keys with
  | nil =>
    have hlevel : byKeys [] = fun _ _ => Ordering.eq := by
      funext a b
      exact hnil a b
    rw [hlevel]
    exact { eq_swap := rfl, isLE_trans := fun _ _ => rfl }
  | cons key rest ih =>
    have hfirst := h key List.mem_cons_self
    have hrest := ih fun other hother => h other (List.mem_cons_of_mem _ hother)
    have hlex : byKeys (key :: rest) = compareLex (byKey key) (byKeys rest) := by
      funext a b
      exact hcons key rest a b
    rw [hlex]
    infer_instance

theorem orientedCmp_byKeys (hnil : ∀ a b, byKeys [] a b = .eq)
    (hcons : ∀ key rest a b, byKeys (key :: rest) a b = (byKey key a b).then (byKeys rest a b))
    (h : ∀ key ∈ keys, Std.OrientedCmp (byKey key)) : Std.OrientedCmp (byKeys keys) := by
  induction keys with
  | nil => exact ⟨fun {a b} => by rw [hnil, hnil]; rfl⟩
  | cons key rest ih =>
    have hfirst := h key List.mem_cons_self
    have hrest := ih fun other hother => h other (List.mem_cons_of_mem _ hother)
    have hlex : byKeys (key :: rest) = compareLex (byKey key) (byKeys rest) := by
      funext a b
      exact hcons key rest a b
    rw [hlex]
    infer_instance

end

namespace Sorting

/-! ## Positions -/

section

variable {α β : Type}

/-- Placing an item commutes with a function that takes the order along. -/
theorem place_map (f : α → β) (cmp : β → β → Ordering) (item : α) (placed : List α) :
    place cmp (f item) (placed.map f) = (place (fun a b => cmp (f a) (f b)) item placed).map f := by
  induction placed with
  | nil => rfl
  | cons last before ih =>
    rw [List.map_cons, place, place]
    split
    · rw [ih, List.map_cons]
    · rfl

theorem foldl_place_map (f : α → β) (cmp : β → β → Ordering) (items placed : List α) :
    (items.map f).foldl (fun placed item => place cmp item placed) (placed.map f) =
      (items.foldl (fun placed item => place (fun a b => cmp (f a) (f b)) item placed) placed).map
        f := by
  induction items generalizing placed with
  | nil => rfl
  | cons item rest ih => rw [List.map_cons, List.foldl_cons, List.foldl_cons, place_map, ih]

/-- Sorting looks at items only through the comparison. -/
theorem sort_map (f : α → β) (cmp : β → β → Ordering) (items : List α) :
    sort cmp (items.map f) = (sort (fun a b => cmp (f a) (f b)) items).map f := by
  rw [sort, sort, List.map_reverse, ← foldl_place_map]
  rfl

end

variable {n : Nat} {cmp : Fin n → Fin n → Ordering}

/-- Whether one position comes before another: by the order, or if they are level by itself. -/
def Precedes (cmp : Fin n → Fin n → Ordering) (i j : Fin n) : Prop :=
  cmp i j = .lt ∨ cmp i j = .eq ∧ i < j

/-- What precedes by an order, or by its position where level, does so transitively. -/
theorem Precedes.trans [Std.TransCmp cmp] {i j k : Fin n} (hij : Precedes cmp i j)
    (hjk : Precedes cmp j k) : Precedes cmp i k := by
  rcases hij with hij | ⟨hij, hlt⟩ <;> rcases hjk with hjk | ⟨hjk, hlt'⟩
  · exact .inl (Std.TransCmp.lt_trans hij hjk)
  · exact .inl (Std.TransCmp.lt_of_lt_of_eq hij hjk)
  · exact .inl (Std.TransCmp.lt_of_eq_of_lt hij hjk)
  · exact .inr ⟨Std.TransCmp.eq_trans hij hjk, hlt.trans hlt'⟩

/-- A position takes its place among positions before it. -/
theorem pairwise_place [Std.TransCmp cmp] {i : Fin n} {placed : List (Fin n)}
    (hbefore : ∀ j ∈ placed, j < i) (h : placed.Pairwise fun j k => Precedes cmp k j) :
    (place cmp i placed).Pairwise fun j k => Precedes cmp k j := by
  induction placed with
  | nil => exact List.pairwise_singleton _ _
  | cons last before ih =>
    rw [List.forall_mem_cons] at hbefore
    obtain ⟨hlast, hrest⟩ := List.pairwise_cons.mp h
    unfold place
    split
    next hlt =>
      refine List.pairwise_cons.mpr ⟨fun j hj => ?_, ih hbefore.2 hrest⟩
      rcases List.mem_cons.mp ((perm_place cmp i before).mem_iff.mp hj) with rfl | hj
      · exact .inl hlt
      · exact hlast j hj
    next hnot =>
      -- What comes no later than the position comes before it, since it stood before it.
      have hprecedes : Precedes cmp last i := by
        cases horder : cmp last i with
        | lt => exact .inl horder
        | eq => exact .inr ⟨horder, hbefore.1⟩
        | gt => exact absurd (Std.OrientedCmp.lt_of_gt horder) hnot
      refine List.pairwise_cons.mpr ⟨fun j hj => ?_, h⟩
      rcases List.mem_cons.mp hj with rfl | hj
      · exact hprecedes
      · exact (hlast j hj).trans hprecedes

/-- Placing positions in turn keeps those that are placed in order, the later one behind where
level. -/
theorem pairwise_foldl_place [Std.TransCmp cmp] {positions placed : List (Fin n)}
    (hpositions : positions.Pairwise (· < ·)) (hbefore : ∀ i ∈ positions, ∀ j ∈ placed, j < i)
    (h : placed.Pairwise fun j k => Precedes cmp k j) :
    (positions.foldl (fun placed i => place cmp i placed) placed).Pairwise
      fun j k => Precedes cmp k j := by
  induction positions generalizing placed with
  | nil => exact h
  | cons i rest ih =>
    obtain ⟨hfirst, hrest⟩ := List.pairwise_cons.mp hpositions
    rw [List.forall_mem_cons] at hbefore
    refine ih hrest (fun k hk j hj => ?_) (pairwise_place hbefore.1 h)
    rcases List.mem_cons.mp ((perm_place cmp i placed).mem_iff.mp hj) with rfl | hj
    · exact hfirst k hk
    · exact hbefore.2 k hk j hj

theorem pairwise_sort_finRange [Std.TransCmp cmp] :
    (sort cmp (List.finRange n)).Pairwise (Precedes cmp) := by
  rw [sort, List.pairwise_reverse]
  exact pairwise_foldl_place (List.pairwise_lt_finRange n) (fun _ _ _ hj => nomatch hj)
    List.Pairwise.nil

/-- Sorting items that are in an order lists their positions in that order, and in their own where
items are level. -/
theorem exists_positions {α : Type} {compare : α → α → Ordering} {items : List α}
    (h : Std.TransCmp fun i j : Fin items.length => compare (items.get i) (items.get j)) :
    ∃ positions : List (Fin items.length), positions.Perm (List.finRange items.length) ∧
      sort compare items = positions.map items.get ∧
      positions.Pairwise (Precedes fun i j => compare (items.get i) (items.get j)) := by
  refine ⟨_, perm_sort _ _, ?_, pairwise_sort_finRange⟩
  rw [← sort_map, List.map_get_finRange]

end Sorting

end RowFilter
