import RowFilter.Directory.Dialect
import RowFilter.Expr.Printer
import RowFilter.Statement.Tabular

/-!
# Compiling conditions

An expression compiles to a constant, a value that only a request can supply, an attribute, a
computation of the backend or a condition. What needs a request's values is rendered when the
statement is merged; it is rendered once with NULL in their places before, so that a construct
that the backend cannot express is found at once.
-/

namespace RowFilter

inductive Backend where
  | tabular | directory
deriving DecidableEq, Repr

def Backend.dialect : Backend → Dialect
  | tabular => Tabular.dialect
  | directory => Directory.dialect

/-- The attribute that a row path names. -/
def Schema.resolve (schema : Schema) (path : String) (expected : ValueType) :
    Except CompileFault Attribute :=
  let found := match List.isPrefixOf? (rowRoot ++ ".").toList path.toList with
    | some [] | none => none
    | some name => Named.get? (String.ofList name) schema
  match found with
  | none => .error (.unknownAttribute path)
  | some definition =>
    if expected.accepts definition.type then .ok definition
    else .error (.incompatibleType path expected definition.type)

/-- The truth of a value used as a condition; NULL does not hold. -/
def Value.conditionTruth : Value → Except CompileFault Bool
  | .boolean b => .ok b
  | .null => .ok false
  | other => .error (.unsupported (.valueAsPredicate other.type))

/-- What an expression compiles to. -/
inductive Compiled where
  | constant (value : Value)
  | dynamic (expr : Expr)
  | attr (definition : Attribute)
  | computed (part : Part) (type : ValueType)
  | condition (part : Part)

namespace Compiled

/-- Whether the backend is not needed to know it. -/
def isValue : Compiled → Bool
  | constant _ | dynamic _ => true
  | _ => false

def isConstant : Compiled → Bool
  | constant _ => true
  | _ => false

end Compiled

/-- An operand that is known, or that a request supplies. -/
inductive Slot where
  | ready (term : Term)
  | deferred (expr : Expr)

namespace Slot

def isReady : Slot → Bool
  | ready _ => true
  | deferred _ => false

/-- The operand with NULL for what is not known. -/
def trial : Slot → Term
  | ready term => term
  | deferred _ => .value .null

/-- The operand for a request. -/
def term (request : Request) : Slot → Except MergeError Term
  | ready term => .ok term
  | deferred expr =>
    match request.evaluate expr with
    | .ok value => .ok (.value value)
    | .error error => .error (.evaluation expr.text error)

def isText : Slot → Bool
  | ready term => term.type == .string
  | deferred _ => false

def ofCompiled : Compiled → Except CompileFault Slot
  | .constant value => .ok (ready (.value value))
  | .dynamic expr => .ok (deferred expr)
  | .attr definition => .ok (ready (.attr definition))
  | .computed part type => .ok (ready (.computed part type))
  | .condition _ => .error (.unsupported .predicateAsValue)

end Slot

/-- What is fixed throughout the compilation of one expression. -/
structure Compiler where
  dialect : Dialect
  schema : Schema
  /-- The text of the expression, for errors found later. -/
  source : String

namespace Compiler

/-- Renders operands at once if all are known, and for each request otherwise. -/
def render (compiler : Compiler) (slots : List Slot) (write : List Term → Rendering) :
    Rendering := do
  let rendered ← write (slots.map Slot.trial)
  if slots.all Slot.isReady then return rendered
  else
    return [.deferred fun request => do
      let terms ← slots.mapM (Slot.term request)
      match write terms with
      | .ok part => return part
      | .error fault => throw (.render ⟨compiler.dialect.name, compiler.source, fault⟩)]

def renderOne (compiler : Compiler) (slot : Slot) (write : Term → Rendering) : Rendering :=
  compiler.render [slot] fun terms =>
    match terms with
    | [term] => write term
    | _ => .ok []

def renderTwo (compiler : Compiler) (left right : Slot) (write : Term → Term → Rendering) :
    Rendering :=
  compiler.render [left, right] fun terms =>
    match terms with
    | [left, right] => write left right
    | _ => .ok []

/-- A node whose operands need no backend: it is evaluated now if they are constants, and for each
request otherwise. -/
def fold? (expr : Expr) (operands : List Compiled) : Except CompileFault (Option Compiled) :=
  if !operands.all Compiled.isValue then .ok none
  else if expr.isConstant && operands.all Compiled.isConstant then
    match expr.evaluate Environment.empty with
    | .ok value => .ok (some (.constant value))
    | .error error => .error (.invalidLiteral (.evaluation expr.text error))
  else .ok (some (.dynamic expr))

/-- A bare truth value of the backend means that it is true. -/
def holdsTrue (compiler : Compiler) (term : Term) : Rendering :=
  compiler.dialect.comparison .eq term (.value (.boolean true))

/-- The value of a request as a condition. -/
def dynamicTruth (compiler : Compiler) : Term → Rendering
  | .value value => do return compiler.dialect.truth (← value.conditionTruth)
  | _ => .ok []

/-- Uses what was compiled as a condition. -/
def condition (compiler : Compiler) : Compiled → Rendering
  | .condition part => .ok part
  | .constant value => do return compiler.dialect.truth (← value.conditionTruth)
  | .dynamic expr => compiler.renderOne (.deferred expr) compiler.dynamicTruth
  | .attr definition =>
    if ValueType.boolean.accepts definition.type then compiler.holdsTrue (.attr definition)
    else .error (.incompatibleType (rowRoot ++ "." ++ definition.name) .boolean definition.type)
  | .computed part type =>
    if ValueType.boolean.accepts type then compiler.holdsTrue (.computed part type)
    else .error (.unsupported (.expressionAsPredicate type))

/-- The operands of a junction as conditions, without the constants that do not matter; `none` if
a constant decides it. -/
def junctionParts (compiler : Compiler) (deciding : Bool) : List Compiled →
    Except CompileFault (Option (List Part))
  | [] => .ok (some [])
  | .constant value :: rest => do
    if (← value.conditionTruth) == deciding then return none
    else compiler.junctionParts deciding rest
  | operand :: rest => do
    let part ← compiler.condition operand
    match ← compiler.junctionParts deciding rest with
    | some parts => return some (part :: parts)
    | none => return none

def junction (compiler : Compiler) (expr : Expr) (op : BinaryOp) (operands : List Compiled) :
    Except CompileFault Compiled := do
  match ← fold? expr operands with
  | some folded => return folded
  | none =>
    match ← compiler.junctionParts op.deciding operands with
    | none => return .constant (.boolean op.deciding)
    | some [part] => return .condition part
    | some parts => return .condition (compiler.dialect.junction op parts)

/-- The comparison with its sides exchanged. -/
def exchange (op : BinaryOp) : Except CompileFault BinaryOp :=
  match op with
  | .containsOneOf | .containsNone => .ok op
  | _ =>
    match op.flip with
    | some flipped => .ok flipped
    | none => .error (.unsupported (.attributeOnRight op))

/-- A comparison with what the backend knows on the left. -/
def comparison (compiler : Compiler) (expr : Expr) (op : BinaryOp) (left right : Compiled) :
    Except CompileFault Compiled := do
  match ← fold? expr [left, right] with
  | some folded => return folded
  | none =>
    let (op, left, right) ←
      if left.isValue then do pure (← exchange op, right, left) else pure (op, left, right)
    let leftSlot ← Slot.ofCompiled left
    let rightSlot ← Slot.ofCompiled right
    return .condition (← compiler.renderTwo leftSlot rightSlot (compiler.dialect.comparison op))

def arithmetic (compiler : Compiler) (expr : Expr) (op : BinaryOp) (left right : Compiled) :
    Except CompileFault Compiled := do
  match ← fold? expr [left, right] with
  | some folded => return folded
  | none =>
    let leftSlot ← Slot.ofCompiled left
    let rightSlot ← Slot.ofCompiled right
    let joinsText := op == .add && (leftSlot.isText || rightSlot.isText)
    let part ← compiler.renderTwo leftSlot rightSlot (compiler.dialect.arithmetic op)
    return .computed part (if joinsText then .string else .number)

def call (compiler : Compiler) (expr : Expr) (function : Builtin) (arguments : List Compiled) :
    Except CompileFault Compiled := do
  match ← fold? expr arguments with
  | some folded => return folded
  | none =>
    let slots ← arguments.mapM Slot.ofCompiled
    let part ← compiler.render slots (compiler.dialect.function function)
    return .computed part function.outputType

def nullCheck (compiler : Compiler) (op : UnaryOp) (operand : Compiled) :
    Except CompileFault Compiled := do
  match operand with
  | .condition _ => throw (.unsupported (.nullCheckOfPredicate op))
  | operand =>
    let slot ← Slot.ofCompiled operand
    return .condition
      (← compiler.renderOne slot fun term => compiler.dialect.nullCheck term (op == .isNull))

def unary (compiler : Compiler) (expr : Expr) (op : UnaryOp) (operand : Compiled) :
    Except CompileFault Compiled := do
  match ← fold? expr [operand] with
  | some folded => return folded
  | none =>
    match op with
    | .not => return .condition (compiler.dialect.negation (← compiler.condition operand))
    | .negate =>
      let slot ← Slot.ofCompiled operand
      let part ← compiler.renderTwo (.ready (.value (.integer 0))) slot
        (compiler.dialect.arithmetic .sub)
      return .computed part .number
    | .isNull | .notNull => compiler.nullCheck op operand

mutual

def compile (compiler : Compiler) (expr : Expr) : Except CompileFault Compiled :=
  match expr with
  | .literal value _ => .ok (.constant value)
  | .reference path expected =>
    if isRowPath path then do
      return .attr (← compiler.schema.resolve path expected)
    else .ok (.dynamic expr)
  | .call function arguments _ => do
    compiler.call expr function (← compiler.compileAll arguments)
  | .unary op operand => do
    compiler.unary expr op (← compiler.compile operand)
  | .binary op left right =>
    if op.isLogical then do
      let first ← compiler.operands op left
      let second ← compiler.operands op right
      compiler.junction expr op (first ++ second)
    else do
      let leftCompiled ← compiler.compile left
      let rightCompiled ← compiler.compile right
      if op.isComparison then compiler.comparison expr op leftCompiled rightCompiled
      else compiler.arithmetic expr op leftCompiled rightCompiled

def compileAll (compiler : Compiler) : List Expr → Except CompileFault (List Compiled)
  | [] => .ok []
  | expr :: rest => do
    let first ← compiler.compile expr
    let others ← compiler.compileAll rest
    return first :: others

/-- The operands of a chain of one junction operator. -/
def operands (compiler : Compiler) (op : BinaryOp) (expr : Expr) :
    Except CompileFault (List Compiled) :=
  match expr with
  | .binary inner left right =>
    if inner = op then do
      let first ← compiler.operands op left
      let second ← compiler.operands op right
      return first ++ second
    else do return [← compiler.compile (.binary inner left right)]
  | other => do return [← compiler.compile other]

end

end Compiler

end RowFilter
