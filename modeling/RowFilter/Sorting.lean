/-!
# Sorting by a comparison

Rows and entries are sorted one after another: each takes its place behind the last of those
already placed that it does not come before. What compares as equal keeps its order. Items of any
content are sorted, so the comparison need not be an order on all of them.
-/

namespace RowFilter.Sorting

variable {α : Type}

/-- Places an item among items that are listed from the last to the first. -/
def place (compare : α → α → Ordering) (item : α) : List α → List α
  | [] => [item]
  | last :: before =>
    if compare item last = .lt then last :: place compare item before
    else item :: last :: before

/-- The items in ascending order, level ones as they stood. For a comparison that is an order this
is the only such arrangement. For one that is not, where an item stands is left open, and a sort by
such a comparison may even be given up: this one always ends, and of its result nothing is promised
but `perm_sort`. -/
def sort (compare : α → α → Ordering) (items : List α) : List α :=
  (items.foldl (fun placed item => place compare item placed) []).reverse

theorem perm_place (compare : α → α → Ordering) (item : α) (placed : List α) :
    (place compare item placed).Perm (item :: placed) := by
  induction placed with
  | nil => exact List.Perm.refl _
  | cons last before ih =>
    unfold place
    split
    · exact (ih.cons last).trans (List.Perm.swap item last before)
    · exact List.Perm.refl _

theorem perm_foldl_place (compare : α → α → Ordering) (items placed : List α) :
    (items.foldl (fun placed item => place compare item placed) placed).Perm
      (items ++ placed) := by
  induction items generalizing placed with
  | nil => exact List.Perm.refl _
  | cons item rest ih =>
    exact ((ih _).trans ((perm_place compare item placed).append_left rest)).trans
      List.perm_middle

/-- Sorting loses nothing and adds nothing. -/
theorem perm_sort (compare : α → α → Ordering) (items : List α) :
    (sort compare items).Perm items := by
  have h := perm_foldl_place compare items []
  rw [List.append_nil] at h
  exact (List.reverse_perm _).trans h

end RowFilter.Sorting
