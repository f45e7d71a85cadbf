import RowFilter.Directory.Assertion
import RowFilter.Statement.Dialect
import RowFilter.Text.Pieces

/-!
# Conditions over directories

The directory dialect writes search filters with a question mark for each assertion value. An
assertion about an absent attribute is undefined and so is its negation, which is why negated
comparisons of nullable attributes also ask for absence. Strict bounds negate the opposite bound.
-/

namespace RowFilter.Directory

def literal (value : Value) (expected : ValueType) : Rendering := do
  let coerced ← value.coerceLiteral expected
  match coerced with
  | .object _ | .collection _ => throw (.invalidLiteral (.inAssertion coerced.type))
  | _ => return Part.ofText "?" [coerced]

def attributeOf : Term → Except CompileFault Attribute
  | .attr definition => .ok definition
  | .computed _ _ => .error (.unsupported .computedAssertion)
  | .value _ => .error (.unsupported .missingAttribute)

def valueOf : Term → Except CompileFault Value
  | .value value => .ok value
  | _ => .error (.unsupported .attributePair)

/-- An assertion that an attribute stands in a relation to a value. -/
def item (definition : Attribute) (relation : String) (value : Value) (target : ValueType) :
    Rendering := do
  let assertion ← literal value target
  return ((Part.startingWith ("(" ++ definition.backendName ++ relation)).thenPart
    assertion).thenText ")"

def presence (definition : Attribute) : Part :=
  Part.startingWith ("(" ++ definition.backendName ++ "=*)")

def negation (part : Part) : Part :=
  ((Part.startingWith "(!").thenPart part).thenText ")"

def junction (op : BinaryOp) (parts : List Part) : Part :=
  (parts.foldl Part.thenPart (Part.startingWith (if op = .or then "(|" else "(&"))).thenText ")"

def anyEntry : String := "(objectClass=*)"

def truth (holds : Bool) : Part :=
  Part.startingWith (if holds then anyEntry else "(!" ++ anyEntry ++ ")")

/-- The negation of a condition on an attribute, which holds too where a nullable attribute is
absent. -/
def negated (definition : Attribute) (part : Part) : Part :=
  if definition.nullable then junction .or [negation part, negation (presence definition)]
  else negation part

/-- Membership of an attribute's value in a list of candidates. -/
def membership (op : BinaryOp) (definition : Attribute) (candidates : Value) : Rendering := do
  let isNegated := op == .containsNone
  let elements := candidates.elements
  if elements.isEmpty then
    return truth isNegated
  let items ← elements.mapM fun element => item definition "=" element definition.type
  let any := match items with
    | [single] => single
    | _ => junction .or items
  return if isNegated then negated definition any else any

/-- The runs of a pattern between percent signs, escaped, with an asterisk between them. -/
def patternAssertion (pattern : List Char) : List Char :=
  ['*'].intercalate ((Text.pieces '%' pattern).map fun piece => escapeBytes (Text.encode piece))

def substring (definition : Attribute) (pattern : Value) : Rendering := do
  match ← pattern.coerceLiteral .string with
  | .string pattern =>
    if pattern.toList.contains '_' then throw (.unsupported .singleCharacterWildcard)
    return Part.startingWith ("(" ++ definition.backendName ++ "="
      ++ String.ofList (patternAssertion pattern.toList) ++ ")")
  | _ => return truth false

def nullCheck (term : Term) (isNull : Bool) : Rendering :=
  match term with
  | .value value => .ok (truth (value.isNull == isNull))
  | term => do
    let present := presence (← attributeOf term)
    return if isNull then negation present else present

def comparison (op : BinaryOp) (left right : Term) : Rendering := do
  let definition ← attributeOf left
  let value ← valueOf right
  let target := if definition.type = .any then value.type else definition.type
  match op with
  | .containsOneOf | .containsNone => membership op definition value
  | _ =>
    if value.isNull then
      match op with
      | .eq => nullCheck left true
      | .ne => nullCheck left false
      | _ => return truth false
    else
      match op with
      | .like => substring definition value
      | .eq => item definition "=" value target
      | .ne => return negated definition (← item definition "=" value target)
      | .ge => item definition ">=" value target
      | .le => item definition "<=" value target
      | .gt => return negation (← item definition "<=" value target)
      | .lt => return negation (← item definition ">=" value target)
      | _ => throw (.unsupported (.comparison op))

def arithmetic (op : BinaryOp) (_left _right : Term) : Rendering :=
  .error (.unsupported (.directoryArithmetic op))

def function (function : Builtin) (_arguments : List Term) : Rendering :=
  .error (.unsupported (.directoryFunction function))

/-- The directory dialect. -/
def dialect : Dialect :=
  { name := "directory", literal, comparison, nullCheck, junction, negation, truth, arithmetic,
    function }

end RowFilter.Directory
