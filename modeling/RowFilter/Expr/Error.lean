import RowFilter.Expr.Operator

/-!
# Evaluation errors
-/

namespace RowFilter

inductive EvalError where
  /-- An operator was given operands of types it does not work on; a unary operator and the
  logical operators name one operand only. -/
  | invalidOperands (operator : String) (left : ValueType) (right : Option ValueType)
  | divisionByZero
  | argumentCount (function : Builtin) (actual : Nat)
  | conversion (expected actual : ValueType)
  | overflow
deriving DecidableEq, Repr

namespace EvalError

def rightText : Option ValueType → String
  | none => "None"
  | some type => "Some(" ++ type.label ++ ")"

def message : EvalError → String
  | invalidOperands operator left right =>
    "Invalid operand types for operator " ++ operator ++ ": left=" ++ left.name ++ ", right="
      ++ rightText right
  | divisionByZero => "Division by zero"
  | argumentCount function actual =>
    "Function " ++ function.name ++ " expects " ++ function.arityText ++ " arguments, got "
      ++ String.ofList (Number.natText actual)
  | conversion expected actual => "Cannot convert " ++ actual.name ++ " to " ++ expected.name
  | overflow => "Expression evaluation error: Integer overflow"

end EvalError

end RowFilter
