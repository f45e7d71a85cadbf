import RowFilter.Value.Path

/-! # Following a path in parts

A path may be followed in two parts: the second from what the first leads to. A part that leads into
a collection leads to a collection, and what lacks a property is dropped by the part that asks for
it, so each part goes into the elements that the one before has left.
-/

namespace RowFilter.Value

theorem stepEach_eq_filterMap (name : String) (onward : Value → Option Value)
    (items : List Value) : stepEach name onward items = items.filterMap (step name onward) := by
  induction items with
  | nil => rfl
  | cons item rest ih =>
      rw [stepEach, List.filterMap_cons, ih]
      cases step name onward item <;> rfl

/-- A path leads from a collection to what it leads to from the elements. -/
theorem navigate_collection (path : List String) (items : List Value) :
    navigate path (collection items) = some (collection (items.filterMap (navigate path))) := by
  cases path with
  | nil => exact congrArg (fun items => some (collection items)) List.filterMap_some.symm
  | cons name rest =>
      rw [navigate, step, stepEach_eq_filterMap]
      rfl

section

variable (path : List String) (name : String) (onward : Value → Option Value)

mutual

/-- A step and a path after what follows it. -/
theorem step_bind : (value : Value) →
    step name (fun found => (onward found).bind (navigate path)) value =
      (step name onward value).bind (navigate path)
  | object properties => by rw [step, step, Option.bind_assoc]
  | collection items => by
      rw [step, step, Option.bind_some, navigate_collection, stepEach_bind items]
  | null | boolean _ | integer _ | float _ | string _ | date _ | bytes _ => rfl

theorem stepEach_bind : (items : List Value) →
    stepEach name (fun found => (onward found).bind (navigate path)) items =
      (stepEach name onward items).filterMap (navigate path)
  | [] => rfl
  | item :: rest => by
      rw [stepEach, stepEach, step_bind item, stepEach_bind rest]
      -- An element that the step leads nowhere from is not there for the path.
      cases step name onward item with
      | none => rfl
      | some found =>
          rw [Option.bind_some, List.filterMap_cons]
          cases navigate path found <;> rfl

end

end

/-- Following two paths one after the other is following the one path that they make up. -/
theorem navigate_append (first second : List String) (value : Value) :
    navigate (first ++ second) value = (navigate first value).bind (navigate second) := by
  induction first generalizing value with
  | nil => rfl
  | cons name rest ih =>
      have hrest : navigate (rest ++ second) =
          fun found => (navigate rest found).bind (navigate second) := funext ih
      rw [List.cons_append, navigate, navigate, hrest, step_bind]

/-- Of three elements one is no object, one lacks the property and one has a collection under it. -/
example : navigate (["children"] ++ ["name"]) (.object [("children", .collection
    [.integer 1, .object [], .object [("name", .collection [.string "a", .null])]])]) =
      some (.collection [.collection [.string "a", .null]]) := by rfl

end RowFilter.Value
