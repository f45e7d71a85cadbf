import RowFilter.Text.LetterCase
import RowFilter.Text.Pieces
import RowFilter.Value.Basic

/-!
# Attributes

A backend shows the attributes that its rows have under the names that expressions use.
-/

namespace RowFilter

structure Attribute where
  /-- The name after the row root of a path. -/
  name : String
  /-- The name that the backend uses. -/
  backendName : String
  type : ValueType
  nullable : Bool := false
  /-- Values are raw bytes rather than text. -/
  isBinary : Bool := false
deriving DecidableEq, Repr

/-- Reads a declaration: a name, an equals sign and a backend name if that is different, a colon,
and a type with a question mark if the attribute is nullable. -/
def Attribute.parse? (declaration : String) : Option Attribute := do
  let (names, typeName) ← Text.cutOnce ':' declaration.toList
  let (typeName, nullable) :=
    match typeName.reverse with
    | '?' :: rest => (rest.reverse, true)
    | _ => (typeName, false)
  let type ← ValueType.ofName? (String.ofList (Text.trim typeName))
  let (name, backendName) :=
    match Text.cutOnce '=' names with
    | some (name, backendName) => (Text.trim name, Text.trim backendName)
    | none => (Text.trim names, Text.trim names)
  if name.isEmpty || backendName.isEmpty then none
  else
    return { name := String.ofList name, backendName := String.ofList backendName, type, nullable }

/-- Attributes by name. -/
abbrev Schema := Named Attribute

namespace Schema

/-- Declares an attribute in place of any of the same name. -/
def declare (attr : Attribute) (schema : Schema) : Schema :=
  Named.insert attr.name attr schema

def ofList (attributes : List Attribute) : Schema :=
  attributes.foldl (fun schema attr => declare attr schema) []

/-- The first attribute with a backend name, in any ASCII case. -/
def byBackendName? (backendName : String) (schema : Schema) : Option Attribute :=
  (schema.map Prod.snd).find? fun attr =>
    Text.sameIgnoringCase attr.backendName backendName

end Schema

end RowFilter
