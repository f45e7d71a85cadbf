import RowFilter.Statement.Part

/-! # Merging parts

The statement of a part is the statements of its items one after another, whichever way the part
was put together.
-/

namespace RowFilter

namespace Statement

theorem append_assoc (a b c : Statement) : (a.append b).append c = a.append (b.append c) := by
  simp only [append, String.append_assoc, List.append_assoc]

theorem empty_append (a : Statement) : empty.append a = a := by
  simp only [append, empty, String.empty_append, List.nil_append]

theorem append_empty (a : Statement) : a.append empty = a := by
  simp only [append, empty, String.append_empty, List.append_nil]

/-- One statement after another. The first error is the one that counts. -/
def andThen (first second : Except MergeError Statement) : Except MergeError Statement := do
  let a ← first
  let b ← second
  return a.append b

/-- Two statements one after another are one with both texts and all parameters. -/
theorem andThen_ok (a b : Statement) : andThen (.ok a) (.ok b) = .ok (a.append b) :=
  rfl

/-- A statement made of two has each of them as a part, the first one before the second. -/
theorem andThen_eq_ok {x y : Except MergeError Statement} {s : Statement} :
    andThen x y = .ok s ↔ ∃ a b, x = .ok a ∧ y = .ok b ∧ s = a.append b := by
  cases x with
  | error e => simp [andThen, Bind.bind, Except.bind]
  | ok a =>
      cases y with
      | error e => simp [andThen, Bind.bind, Except.bind]
      | ok b => simp [andThen_ok, eq_comm]

/-- The first error of three statements counts, whichever two are put together first. -/
theorem andThen_assoc (x y z : Except MergeError Statement) :
    andThen (andThen x y) z = andThen x (andThen y z) := by
  cases x with
  | error e => rfl
  | ok a =>
      cases y with
      | error e => rfl
      | ok b =>
          cases z with
          | error e => rfl
          | ok c => exact congrArg Except.ok (append_assoc a b c)

theorem empty_andThen (x : Except MergeError Statement) : andThen (.ok empty) x = x := by
  cases x with
  | error e => rfl
  | ok a => exact congrArg Except.ok (empty_append a)

theorem andThen_empty (x : Except MergeError Statement) : andThen x (.ok empty) = x := by
  cases x with
  | error e => rfl
  | ok a => exact congrArg Except.ok (append_empty a)

end Statement

namespace Part

open Statement

variable (request : Request)

/-- A part without items merges to the empty statement. -/
theorem merge_nil : merge request [] = .ok Statement.empty := by
  rw [merge]

/-- A part merges item by item, from the first one on. -/
theorem merge_cons (item : PartItem) (rest : Part) :
    merge request (item :: rest) = andThen (mergeItem request item) (merge request rest) := by
  rw [merge]
  rfl

theorem merge_singleton (item : PartItem) : merge request [item] = mergeItem request item := by
  rw [merge_cons, merge_nil, andThen_empty]

/-- Two parts in a row merge one after the other. -/
theorem merge_append (first second : Part) :
    merge request (first ++ second) = andThen (merge request first) (merge request second) := by
  induction first with
  | nil => rw [List.nil_append, merge_nil, empty_andThen]
  | cons item rest ih => rw [List.cons_append, merge_cons, merge_cons, ih, andThen_assoc]

/-- A text with its parameters merges to itself. -/
theorem merge_ofText (text : String) (parameters : List Value) :
    merge request (ofText text parameters) = .ok ⟨text, parameters⟩ := by
  rw [ofText, merge_singleton, mergeItem]

/-- Text that is added becomes one item with a text before it, which does not show. -/
theorem merge_pushText (text : String) (parameters : List Value) (part : Part) :
    merge request (part.pushText text parameters) =
      andThen (merge request part) (.ok ⟨text, parameters⟩) := by
  induction part using pushText.induct with
  | case1 =>
      rw [pushText, merge_singleton, mergeItem, merge_nil, empty_andThen]
  | case2 last lastParameters =>
      rw [pushText, merge_singleton, mergeItem, merge_singleton, mergeItem]
      rfl
  | case3 item rest hlast ih =>
      rw [pushText, merge_cons, merge_cons, ih, andThen_assoc]
      exact hlast

/-- A text behind a part is behind the statement that the part merges to. -/
theorem merge_thenText (part : Part) (text : String) :
    merge request (part.thenText text) = andThen (merge request part) (.ok ⟨text, []⟩) :=
  merge_pushText request text [] part

/-- A part behind a part is merged behind it. -/
theorem merge_thenPart (part inner : Part) :
    merge request (part.thenPart inner) = andThen (merge request part) (merge request inner) := by
  rw [thenPart, merge_append, merge_singleton, mergeItem]

/-- A deferred part merges as what is generated for the request. -/
theorem merge_deferred (generate : Request → Except MergeError Part) :
    merge request [.deferred generate] = (generate request).bind (merge request) := by
  rw [merge_singleton, mergeItem]
  cases generate request with
  | error e => rw [mergeGenerated]; rfl
  | ok part => rw [mergeGenerated]; rfl

end Part

end RowFilter
