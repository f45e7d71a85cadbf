import RowFilter.Schema
import RowFilter.Statement.Part
import RowFilter.Value.Coercion

/-!
# Dialects

A dialect writes conditions in a backend's filter language. Its operands are attributes,
computations that the backend does itself, and values.
-/

namespace RowFilter

inductive Term where
  | attr (definition : Attribute)
  | computed (part : Part) (type : ValueType)
  | value (value : Value)

namespace Term

def type : Term → ValueType
  | attr definition => definition.type
  | computed _ type => type
  | value v => v.type

/-- Whether the term is an attribute that may be NULL. -/
def isNullable : Term → Bool
  | attr definition => definition.nullable
  | _ => false

end Term

/-- A part, or why there is none. -/
abbrev Rendering := Except CompileFault Part

structure Dialect where
  /-- The backend's name in messages. -/
  name : String
  /-- A value in a place of some type. -/
  literal : Value → ValueType → Rendering
  comparison : BinaryOp → (left right : Term) → Rendering
  /-- Whether a term is NULL, if the flag is true, or is not. -/
  nullCheck : Term → Bool → Rendering
  /-- A conjunction or disjunction of conditions, in order. -/
  junction : BinaryOp → List Part → Part
  negation : Part → Part
  /-- A condition that always holds or never. -/
  truth : Bool → Part
  arithmetic : BinaryOp → (left right : Term) → Rendering
  function : Builtin → List Term → Rendering

/-- The value in the type that its place expects. -/
def Value.coerceLiteral (value : Value) (expected : ValueType) : Except CompileFault Value :=
  match value.coerce? expected with
  | some coerced => .ok coerced
  | none => .error (.invalidLiteral (.inconvertible value.type value.text expected))

/-- The name that the backend uses for an attribute. -/
def Attribute.part (attr : Attribute) : Part :=
  Part.startingWith attr.backendName

end RowFilter
