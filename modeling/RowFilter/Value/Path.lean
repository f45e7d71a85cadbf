import RowFilter.Text.Pieces
import RowFilter.Value.Basic

/-!
# Paths

A dotted path names a root object and then a property at each step. A step into a collection
goes into each of its elements and drops those that lack the property.
-/

namespace RowFilter

/-- What the paths of an expression stand for; `none` for an unknown path. -/
abbrev Resolver := String → Option Value

/-- Named root objects. -/
abbrev Roots := Named Properties

namespace Value

mutual

/-- Takes one step and goes on from the property found. -/
def step (name : String) (onward : Value → Option Value) : Value → Option Value
  | object properties => (Named.get? name properties).bind onward
  | collection items => some (collection (stepEach name onward items))
  | _ => none

def stepEach (name : String) (onward : Value → Option Value) : List Value → List Value
  | [] => []
  | item :: rest =>
    match step name onward item with
    | some found => found :: stepEach name onward rest
    | none => stepEach name onward rest

end

/-- Follows the steps of a path. -/
def navigate : List String → Value → Option Value
  | [], value => some value
  | name :: rest, value => step name (navigate rest) value

end Value

/-- The root of a path and the rest of it, if there is more. -/
def splitRoot (path : String) : String × Option String :=
  match Text.cutAt '.' path with
  | some (root, rest) => (root, some rest)
  | none => (path, none)

/-- The steps of an optional rest of a path. -/
def stepsOf : Option String → List String
  | some rest => Text.piecesOf '.' rest
  | none => []

/-- Resolves a path that starts at one of the roots. -/
def Roots.resolve (roots : Roots) : Resolver := fun path =>
  let (root, rest) := splitRoot path
  (Named.get? root roots).bind fun properties =>
    Value.navigate (stepsOf rest) (.object properties)

/-- Resolves nothing. -/
def Resolver.empty : Resolver := fun _ => none

end RowFilter
