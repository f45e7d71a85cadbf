import RowFilter.Expr.Basic
import RowFilter.Expr.Error
import RowFilter.Expr.Pattern
import RowFilter.Text.LetterCase
import RowFilter.Truth
import RowFilter.Value.Order
import RowFilter.Value.Path

/-!
# Evaluation

An expression is evaluated in an environment that resolves its paths. NULL spreads through
operators as an unknown value, and conjunction and disjunction follow three-valued logic.
-/

namespace RowFilter

/-- What an expression can read: paths, and the current time in seconds since the start of
1970. -/
structure Environment where
  resolve : Resolver
  now : Int64

def Environment.empty : Environment :=
  ⟨Resolver.empty, 0⟩

/-- Calls a function with evaluated arguments at a time. -/
def Builtin.apply (now : Int64) (function : Builtin) (arguments : List Value) :
    Except EvalError Value :=
  if !function.takes arguments.length then
    .error (.argumentCount function arguments.length)
  else
    match function, arguments with
    | .concat, _ => .ok (.string (String.join (Value.texts arguments)))
    | .lower, .null :: _ | .upper, .null :: _ => .ok .null
    | .lower, value :: _ => .ok (.string (Text.lowered value.text))
    | .upper, value :: _ => .ok (.string (Text.uppered value.text))
    | .isEmpty, value :: _ =>
      .ok (.boolean (match value with
        | .null => true
        | .string s => s.isEmpty
        | .collection items => items.isEmpty
        | .bytes bs => bs.isEmpty
        | _ => false))
    | .size, value :: _ =>
      .ok (.integer (Int64.ofNat (match value with
        | .null => 0
        | .string s => s.toList.length
        | .collection items => items.length
        | .bytes bs => bs.length
        | _ => 1)))
    | .now, _ => .ok (.date now)
    | _, [] => .error (.argumentCount function 0)

/-- The error of a unary operator that does not work on its operand. -/
def UnaryOp.refuse (op : UnaryOp) (operand : Value) : EvalError :=
  .invalidOperands op.keyword operand.type none

/-- The opposite of a number. -/
def negateNumber? : Value → Option (Except EvalError Value)
  | .null => some (.ok .null)
  | .integer n =>
    match Number.neg? n with
    | some m => some (.ok (.integer m))
    | none => some (.error .overflow)
  | .float x => some (.ok (.float (-x)))
  | _ => none

def UnaryOp.apply (op : UnaryOp) (operand : Value) : Except EvalError Value :=
  match op with
  | .not =>
    match operand with
    | .null => .ok .null
    | .boolean b => .ok (.boolean (!b))
    | _ => .error (op.refuse operand)
  | .negate =>
    match negateNumber? operand with
    | some result => result
    | none =>
      match (operand.coerce? .number).bind negateNumber? with
      | some result => result
      | none => .error (op.refuse operand)
  | .isNull => .ok (.boolean operand.isNull)
  | .notNull => .ok (.boolean (!operand.isNull))

/-- The truth value of an operand of a logical operator; NULL is unknown. -/
def BinaryOp.truth (op : BinaryOp) : Value → Except EvalError Truth
  | .null => .ok none
  | .boolean b => .ok (some b)
  | other => .error (.invalidOperands op.keyword other.type none)

/-- The value of a truth value; unknown is NULL. -/
def Value.ofTruth : Truth → Value
  | some b => .boolean b
  | none => .null

/-- The truth value that decides a conjunction or a disjunction on its own. -/
def BinaryOp.deciding (op : BinaryOp) : Bool :=
  op == .or

/-- The result of an ordering operator for an order of its operands. -/
def BinaryOp.holdsFor (op : BinaryOp) (ordering : Ordering) : Bool :=
  match op with
  | .lt => ordering == .lt
  | .le => ordering != .gt
  | .gt => ordering == .gt
  | _ => ordering != .lt

def BinaryOp.refuse (op : BinaryOp) (left right : Value) : EvalError :=
  .invalidOperands op.keyword left.type (some right.type)

def integerResult : Option Int64 → Except EvalError Value
  | some n => .ok (.integer n)
  | none => .error .overflow

def dateResult : Option Int64 → Except EvalError Value
  | some seconds => .ok (.date seconds)
  | none => .error .overflow

/-- Arithmetic of integers. A quotient that is not whole is a float. -/
def integerArithmetic (op : BinaryOp) (a b : Int64) : Except EvalError Value :=
  match op with
  | .add => integerResult (Number.add? a b)
  | .sub => integerResult (Number.sub? a b)
  | .mul => integerResult (Number.mul? a b)
  | .div =>
    if b = 0 then .error .divisionByZero
    else
      match Number.rem? a b with
      | some r =>
        if r = 0 then integerResult (Number.div? a b)
        else .ok (.float (.ofInt64 a / .ofInt64 b))
      | none => .error .overflow
  | _ => if b = 0 then .error .divisionByZero else integerResult (Number.rem? a b)

def floatArithmetic (op : BinaryOp) (a b : Number.Binary64) : Except EvalError Value :=
  match op with
  | .add => .ok (.float (a + b))
  | .sub => .ok (.float (a - b))
  | .mul => .ok (.float (a * b))
  | .div => if b.isZero then .error .divisionByZero else .ok (.float (a / b))
  | _ => if b.isZero then .error .divisionByZero else .ok (.float (Number.remainder a b))

/-- The number that arithmetic reads a value as. -/
def Value.asOperand? (value : Value) : Option Number.Binary64 :=
  (value.coerce? .number).bind Value.asFloat?

/-- Arithmetic of operands that are not NULL. Addition joins texts and moves dates. -/
def BinaryOp.arithmetic (op : BinaryOp) (left right : Value) : Except EvalError Value :=
  if op == .add && (left.type == .string || right.type == .string) then
    .ok (.string (left.text ++ right.text))
  else
    let general : Except EvalError Value :=
      match left.asOperand?, right.asOperand? with
      | some a, some b => floatArithmetic op a b
      | _, _ => .error (op.refuse left right)
    match left, right with
    | .date seconds, .integer n =>
      match op with
      | .add => dateResult (Number.add? seconds n)
      | .sub => dateResult (Number.sub? seconds n)
      | _ => general
    | .integer a, .integer b => integerArithmetic op a b
    | _, _ => general

/-- Whether two values, seen as collections, have an equal element. -/
def Value.overlaps (left right : Value) : Bool :=
  left.elements.any fun item => right.elements.any fun candidate => item.equals candidate

/-- Applies a binary operator to evaluated operands. -/
def BinaryOp.apply (op : BinaryOp) (left right : Value) : Except EvalError Value :=
  match op with
  | .and | .or => do
    let l ← op.truth left
    let r ← op.truth right
    return .ofTruth (Truth.join op.deciding l r)
  | .eq => .ok (.boolean (left.equals right))
  | .ne => .ok (.boolean (!left.equals right))
  | .lt | .le | .gt | .ge =>
    if left.isNull || right.isNull then .ok .null
    else
      match left.align? right with
      | some ordering => .ok (.boolean (op.holdsFor ordering))
      | none => .error (op.refuse left right)
  | .like =>
    if left.isNull || right.isNull then .ok .null
    else .ok (.boolean (Pattern.isMatch left.text.toList right.text.toList))
  | .containsOneOf => .ok (.boolean (left.overlaps right))
  | .containsNone => .ok (.boolean (!left.overlaps right))
  | .add | .sub | .mul | .div | .mod =>
    if left.isNull || right.isNull then .ok .null else op.arithmetic left right

namespace Expr

mutual

/-- The value of an expression. An unknown path is NULL, and a logical operator does not look at
its right operand when the left one decides. -/
def evaluate (env : Environment) : Expr → Except EvalError Value
  | literal value _ => .ok value
  | reference path _ => .ok ((env.resolve path).getD .null)
  | call function arguments _ => do
    let values ← evaluateAll env arguments
    function.apply env.now values
  | unary op operand => do
    let value ← evaluate env operand
    op.apply value
  | binary op left right =>
    if op.isLogical then do
      let l ← op.truth (← evaluate env left)
      if l == some op.deciding then
        return .boolean op.deciding
      let r ← op.truth (← evaluate env right)
      return .ofTruth (Truth.join op.deciding l r)
    else do
      let l ← evaluate env left
      let r ← evaluate env right
      op.apply l r

def evaluateAll (env : Environment) : List Expr → Except EvalError (List Value)
  | [] => .ok []
  | argument :: rest => do
    let value ← evaluate env argument
    let values ← evaluateAll env rest
    return value :: values

end

/-- Whether an expression holds as a condition; NULL does not hold. -/
def holds (env : Environment) (expr : Expr) : Except EvalError Bool := do
  match ← expr.evaluate env with
  | .boolean b => return b
  | .null => return false
  | other => throw (.conversion .boolean other.type)

end Expr

end RowFilter
