import RowFilter.Expr.Operator

/-!
# Expressions

The tree of an expression. References and calls also record the type that their context expects.
Paths under the root `object` refer to the row that is being filtered.
-/

namespace RowFilter

inductive Expr where
  | literal (value : Value) (type : ValueType)
  | reference (path : String) (expected : ValueType)
  | call (function : Builtin) (arguments : List Expr) (expected : ValueType)
  | unary (op : UnaryOp) (operand : Expr)
  | binary (op : BinaryOp) (left right : Expr)

instance : Inhabited Expr := ⟨.literal .null .null⟩

/-- The root under which paths refer to the row. -/
def rowRoot : String := "object"

/-- Whether a path is the row root or starts there. -/
def isRowPath (path : String) : Bool :=
  match List.isPrefixOf? rowRoot.toList path.toList with
  | some [] => true
  | some (c :: _) => c == '.'
  | none => false

namespace Expr

/-- A literal of its value's own type. -/
def ofValue (value : Value) : Expr :=
  literal value value.type

/-- Records the type that the context expects, where a node carries one. -/
def withExpected (expected : ValueType) : Expr → Expr
  | reference path _ => reference path expected
  | call function arguments _ => call function arguments expected
  | other => other

/-- The type of the result as far as it is known without data. -/
def outputType : Expr → ValueType
  | literal _ type => type
  | reference _ expected => expected
  | call function _ _ => function.outputType
  | unary op _ => op.outputType
  | binary op _ _ => op.outputType

mutual

/-- Whether the expression can be evaluated without any data. -/
def isConstant : Expr → Bool
  | literal _ _ => true
  | reference _ _ => false
  | call function arguments _ => !function.isVolatile && allConstant arguments
  | unary _ operand => isConstant operand
  | binary _ left right => isConstant left && isConstant right

def allConstant : List Expr → Bool
  | [] => true
  | argument :: rest => isConstant argument && allConstant rest

end

mutual

/-- Whether the expression refers to the row. -/
def referencesRow : Expr → Bool
  | literal _ _ => false
  | reference path _ => isRowPath path
  | call _ arguments _ => anyReferencesRow arguments
  | unary _ operand => referencesRow operand
  | binary _ left right => referencesRow left || referencesRow right

def anyReferencesRow : List Expr → Bool
  | [] => false
  | argument :: rest => referencesRow argument || anyReferencesRow rest

end

end Expr

end RowFilter
