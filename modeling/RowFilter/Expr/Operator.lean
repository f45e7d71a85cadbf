import RowFilter.Value.Basic

/-!
# Operators and functions

The fixed vocabulary of expressions: what each operator binds, expects and yields.
-/

namespace RowFilter

inductive BinaryOp where
  | or | and
  | eq | ne | lt | le | gt | ge | like | containsOneOf | containsNone
  | add | sub | mul | div | mod
deriving DecidableEq, Repr

inductive UnaryOp where
  | not | negate | isNull | notNull
deriving DecidableEq, Repr

inductive Builtin where
  | concat | lower | upper | isEmpty | size | now
deriving DecidableEq, Repr

namespace BinaryOp

def all : List BinaryOp :=
  [or, and, eq, ne, lt, le, gt, ge, like, containsOneOf, containsNone, add, sub, mul, div, mod]

/-- The keyword an operator is printed with. -/
def keyword : BinaryOp → String
  | or => "or"
  | and => "and"
  | eq => "=="
  | ne => "!="
  | lt => "<"
  | le => "<="
  | gt => ">"
  | ge => ">="
  | like => "like"
  | containsOneOf => "containsoneof"
  | containsNone => "containsnone"
  | add => "+"
  | sub => "-"
  | mul => "*"
  | div => "/"
  | mod => "%"

/-- A higher number binds tighter. -/
def precedence : BinaryOp → Nat
  | or => 1
  | and => 2
  | eq | ne | lt | le | gt | ge | like | containsOneOf | containsNone => 3
  | add | sub => 4
  | mul | div | mod => 5

def isLogical : BinaryOp → Bool
  | or | and => true
  | _ => false

def isComparison (op : BinaryOp) : Bool :=
  op.precedence == 3

def isArithmetic (op : BinaryOp) : Bool :=
  4 ≤ op.precedence

/-- The types expected on the left and on the right. Addition also joins strings. -/
def operandTypes : BinaryOp → ValueType × ValueType
  | or | and => (.boolean, .boolean)
  | like => (.string, .string)
  | containsOneOf | containsNone => (.any, .collection)
  | sub | mul | div | mod => (.number, .number)
  | _ => (.any, .any)

def outputType : BinaryOp → ValueType
  | add => .any
  | sub | mul | div | mod => .number
  | _ => .boolean

/-- The operator that means the same with its sides exchanged, for the plain comparisons. -/
def flip : BinaryOp → Option BinaryOp
  | eq => some eq
  | ne => some ne
  | lt => some gt
  | le => some ge
  | gt => some lt
  | ge => some le
  | _ => none

end BinaryOp

namespace UnaryOp

def all : List UnaryOp :=
  [not, negate, isNull, notNull]

def keyword : UnaryOp → String
  | not => "not"
  | negate => "-"
  | isNull => "isnull"
  | notNull => "notnull"

def operandType : UnaryOp → ValueType
  | not => .boolean
  | negate => .number
  | isNull | notNull => .any

def outputType : UnaryOp → ValueType
  | negate => .number
  | _ => .boolean

/-- Whether the operator stands after its operand. -/
def isTrailing : UnaryOp → Bool
  | isNull | notNull => true
  | _ => false

end UnaryOp

namespace Builtin

def all : List Builtin :=
  [concat, lower, upper, isEmpty, size, now]

def name : Builtin → String
  | concat => "concat"
  | lower => "lower"
  | upper => "upper"
  | isEmpty => "isempty"
  | size => "size"
  | now => "now"

/-- The least number of arguments, and the greatest if there is one. -/
def arity : Builtin → Nat × Option Nat
  | concat => (1, none)
  | now => (0, some 0)
  | _ => (1, some 1)

def takes (function : Builtin) (count : Nat) : Bool :=
  match function.arity with
  | (least, none) => least ≤ count
  | (least, some most) => least ≤ count && count ≤ most

/-- The number of arguments as a message states it. -/
def arityText (function : Builtin) : String :=
  let count (n : Nat) : String := String.ofList (Number.natText n)
  match function.arity with
  | (least, none) => "at least " ++ count least
  | (least, some most) => if least == most then count least else count least ++ ".." ++ count most

def argumentType : Builtin → ValueType
  | concat | lower | upper => .string
  | _ => .any

def outputType : Builtin → ValueType
  | concat | lower | upper => .string
  | isEmpty => .boolean
  | size => .number
  | now => .date

/-- Whether two calls may give different results. -/
def isVolatile : Builtin → Bool
  | now => true
  | _ => false

end Builtin

end RowFilter
