import RowFilter.Statement.Dialect

/-!
# Conditions over tables

The tabular dialect writes conditions of a `WHERE` clause with a question mark for each parameter.
A negated comparison with a nullable column also holds where the column is NULL.
-/

namespace RowFilter.Tabular

def literal (value : Value) (expected : ValueType) : Rendering := do
  match ← value.coerceLiteral expected with
  | .object _ => throw (.invalidLiteral .objectParameter)
  | coerced => return Part.ofText "?" [coerced]

/-- A term in a place of some type. -/
def termPart (term : Term) (expected : ValueType) : Rendering :=
  match term with
  | .attr definition => .ok definition.part
  | .computed part _ => .ok part
  | .value value => literal value expected

def truth (holds : Bool) : Part :=
  Part.startingWith (if holds then "1 = 1" else "1 = 0")

def negation (part : Part) : Part :=
  ((Part.startingWith "NOT (").thenPart part).thenText ")"

def junction (op : BinaryOp) (parts : List Part) : Part :=
  let separator := if op = .or then " OR " else " AND "
  ((Part.startingWith "(").thenJoined separator parts).thenText ")"

def nullCheck (term : Term) (isNull : Bool) : Rendering :=
  match term with
  | .value value => .ok (truth (value.isNull == isNull))
  | term => do
    let part ← termPart term .any
    return part.thenText (if isNull then " IS NULL" else " IS NOT NULL")

/-- A condition that also holds where a column is NULL. -/
def orNull (condition column : Part) : Part :=
  ((((Part.startingWith "(").thenPart condition).thenText " OR ").thenPart column).thenText
    " IS NULL)"

/-- Membership of a column's value in a list of candidates. -/
def membership (op : BinaryOp) (left right : Term) : Rendering :=
  match right with
  | .value candidates => do
    let target := left.type
    if target = .collection then
      throw (.unsupported .collectionColumn)
    let negated := op == .containsNone
    let elements := candidates.elements
    if elements.isEmpty then
      return truth negated
    let parameters ← elements.mapM fun element => element.coerceLiteral target
    let placeholders := ", ".intercalate (parameters.map fun _ => "?")
    let column ← termPart left target
    let keyword := if negated then " NOT IN (" else " IN ("
    let condition := (((Part.thenPart [] column).thenText keyword).thenPart
      (Part.ofText placeholders parameters)).thenText ")"
    return if negated && left.isNullable then orNull condition column else condition
  | _ => .error (.unsupported (.membershipInColumn op))

def comparisonText? : BinaryOp → Option String
  | .eq => some " = "
  | .ne => some " != "
  | .lt => some " < "
  | .le => some " <= "
  | .gt => some " > "
  | .ge => some " >= "
  | .like => some " LIKE "
  | _ => none

/-- A comparison that is neither membership nor a test against NULL. -/
def plainComparison (op : BinaryOp) (left right : Term) : Rendering :=
  match comparisonText? op with
  | none => .error (.unsupported (.comparison op))
  | some symbol => do
    let target : ValueType :=
      if op = .like then .string
      else if left.type = .any then right.type
      else left.type
    let leftPart ← termPart left target
    let rightPart ← termPart right target
    let condition := ((Part.thenPart [] leftPart).thenText symbol).thenPart rightPart
    return if op = .ne && left.isNullable then orNull condition leftPart else condition

/-- A computed truth value is a condition already, and comparing it with a truth value keeps it or
negates it. -/
def comparison (op : BinaryOp) (left right : Term) : Rendering :=
  match op with
  | .containsOneOf | .containsNone => membership op left right
  | _ =>
    match left, right with
    | _, .value .null =>
      match op with
      | .eq => nullCheck left true
      | .ne => nullCheck left false
      | _ => .ok (truth false)
    | .computed part .boolean, .value (.boolean b) =>
      match op with
      | .eq => .ok (if b then part else negation part)
      | .ne => .ok (if b then negation part else part)
      | _ => plainComparison op left right
    | _, _ => plainComparison op left right

/-- The symbol of an arithmetic operator and the type of its operands. -/
def arithmeticText? (op : BinaryOp) (joinsText : Bool) : Option (String × ValueType) :=
  match op with
  | .add => if joinsText then some (" || ", .string) else some (" + ", .number)
  | .sub => some (" - ", .number)
  | .mul => some (" * ", .number)
  | .div => some (" / ", .number)
  | .mod => some (" % ", .number)
  | _ => none

def arithmetic (op : BinaryOp) (left right : Term) : Rendering :=
  let joinsText := left.type == .string || right.type == .string
  match arithmeticText? op joinsText with
  | none => .error (.unsupported (.arithmetic op))
  | some (symbol, target) => do
    let leftPart ← termPart left target
    let rightPart ← termPart right target
    return ((((Part.startingWith "(").thenPart leftPart).thenText symbol).thenPart
      rightPart).thenText ")"

/-- A call of a function of the backend with one argument. -/
def call (name : String) (argument : Part) : Part :=
  ((Part.startingWith (name ++ "(")).thenPart argument).thenText ")"

def function (function : Builtin) (arguments : List Term) : Rendering := do
  let parts ← arguments.mapM fun argument => termPart argument function.argumentType
  match function, parts with
  | .lower, [argument] => return call "LOWER" argument
  | .upper, [argument] => return call "UPPER" argument
  | .size, [argument] => return call "LENGTH" argument
  | .isEmpty, [argument] =>
    return ((((Part.startingWith "(").thenPart argument).thenText " IS NULL OR ").thenPart
      argument).thenPart (Part.ofText " = ?" [.string ""]) |>.thenText ")"
  | .concat, _ :: _ => return ((Part.startingWith "(").thenJoined " || " parts).thenText ")"
  | _, _ => throw (.unsupported (.columnFunction function))

/-- The tabular dialect. -/
def dialect : Dialect :=
  { name := "tabular", literal, comparison, nullCheck, junction, negation, truth, arithmetic,
    function }

end RowFilter.Tabular
