import RowFilter.Expr.Basic
import RowFilter.Expr.Vocabulary
import RowFilter.Text.Pieces

/-!
# Parsing expressions

Loosest first, the grammar has disjunctions, conjunctions, negations, comparisons, sums,
products, signs, null checks and primary expressions. Binary operators associate to the left and
comparisons do not chain. Each function reads one construct from the front of a token list and
leaves a shorter one.
-/

namespace RowFilter

namespace Stop

def span : Stop → Span
  | reached span => span
  | failed error => error.span

/-- Moves on to the tokens that are left. What cannot be scanned is an error once it is reached. -/
def arrive (stop : Stop) (rest : List Token) : Except ParseError Unit :=
  match rest, stop with
  | [], failed error => .error error
  | _, _ => .ok ()

end Stop

namespace Parser

/-- What is known throughout one parse. -/
structure Context where
  vocabulary : Vocabulary
  stop : Stop

namespace Context

/-- The span of the next token, or of the place where the tokens end. -/
def spanAt (context : Context) : List Token → Span
  | token :: _ => token.span
  | [] => context.stop.span

/-- The meaning of a token that is a keyword. -/
def meaning (context : Context) (token : Token) : Option Operand :=
  if token.kind = .keyword then context.vocabulary.lookup token.text else none

/-- The meaning of the next token. -/
def operandAt (context : Context) : List Token → Option Operand
  | token :: _ => context.meaning token
  | [] => none

/-- The error of a token that can stand nowhere here. -/
def unexpected (context : Context) : List Token → ParseError
  | [] => ⟨.unexpectedEnd, context.stop.span⟩
  | token :: _ =>
    let cause : ParseErrorCause := match token.kind with
      | .parenClose => .unexpectedParenClose
      | .argumentSeparator => .unexpectedComma
      | _ => .unexpectedToken token.source
    ⟨cause, token.span⟩

end Context

/-- Something read from the front of a token list, and the rest, which is below a bound. -/
structure Step (α : Type) (bound : Nat) where
  value : α
  rest : List Token
  shorter : rest.length < bound

namespace Step

variable {α : Type} {bound larger : Nat}

def weaken (step : Step α bound) (h : bound ≤ larger) : Step α larger :=
  ⟨step.value, step.rest, Nat.lt_of_lt_of_le step.shorter h⟩

end Step

/-- The operators that associate to the left, by the constructs that they join. -/
inductive Chain where
  | disjunctions | conjunctions | sums | products
deriving DecidableEq, Repr

namespace Chain

def precedence : Chain → Nat
  | disjunctions => 1
  | conjunctions => 2
  | sums => 4
  | products => 5

/-- How many kinds of constructs a chain contains, directly or not. -/
def height : Chain → Nat
  | disjunctions => 13
  | conjunctions => 11
  | sums => 7
  | products => 5

end Chain

/-- Records an operator's operand types and joins its operands. -/
def combine (op : BinaryOp) (left right : Expr) : Expr :=
  let expecting (type : ValueType) (operand : Expr) : Expr :=
    if type = .any then operand else operand.withExpected type
  .binary op (expecting op.operandTypes.1 left) (expecting op.operandTypes.2 right)

def applyUnary (op : UnaryOp) (operand : Expr) : Expr :=
  .unary op (operand.withExpected op.operandType)

/-- Negates an operand; a numeric literal takes the sign itself. -/
def negate : Expr → Expr
  | .literal (.integer n) _ => .ofValue (.integer (-n))
  | .literal (.float x) _ => .ofValue (.float (-x))
  | operand => applyUnary .negate operand

/-- Whether every piece between dots is non-empty and begins with no digit. -/
def isPath (word : List Char) : Bool :=
  (Text.pieces '.' word).all fun piece =>
    match piece with
    | [] => false
    | c :: _ => !c.isDigit

def startsWithDigit : List Char → Bool
  | c :: _ => c.isDigit
  | [] => false

/-- A word that is no keyword: a truth value, NULL, a number or a path. -/
def ofWord (word : List Char) : Except ParseErrorCause Expr :=
  let name := word.map Char.toLower
  if name = "true".toList then .ok (.ofValue (.boolean true))
  else if name = "false".toList then .ok (.ofValue (.boolean false))
  else if name = "null".toList then .ok (.ofValue .null)
  else if startsWithDigit word then
    match Number.readInt64? word with
    | some n => .ok (.ofValue (.integer n))
    | none =>
      match Number.readFloat? word with
      | some x =>
        if x.isFinite then .ok (.ofValue (.float x)) else .error (.invalidNumber word)
      | none => .error (.invalidNumber word)
  else if isPath word then .ok (.reference (String.ofList word) .any)
  else .error (.invalidPath word)

/-- Null checks after an operand. -/
def nullChecks (context : Context) (operand : Expr) : (tokens : List Token) →
    Except ParseError (Step Expr (tokens.length + 1))
  | [] => .ok ⟨operand, [], by simp⟩
  | token :: rest =>
    match context.meaning token with
    | some (.trailing op) => do
      context.stop.arrive rest
      let step ← nullChecks context (applyUnary op operand) rest
      return step.weaken (by simp)
    | _ => .ok ⟨operand, token :: rest, by simp⟩

/-- Reads a word that stands for itself. -/
def word (context : Context) (token : Token) (rest : List Token) :
    Except ParseError (Step Expr (rest.length + 1)) := do
  context.stop.arrive rest
  match rest with
  | next :: _ =>
    if next.kind = .parenOpen then throw ⟨.unknownFunction token.text, token.span⟩
  | [] => pure ()
  match ofWord token.text with
  | .ok expr => return ⟨expr, rest, by simp⟩
  | .error cause => throw ⟨cause, token.span⟩

mutual

/-- Operands joined by the operators of one chain. -/
def chain (context : Context) (kind : Chain) (tokens : List Token) :
    Except ParseError (Step Expr tokens.length) := do
  let first ← element context kind tokens
  let step ← chainMore context kind first.value first.rest
  return step.weaken first.shorter
termination_by (tokens.length, kind.height)
decreasing_by
  · exact Prod.Lex.right _ (by cases kind <;> decide)
  · exact Prod.Lex.left _ _ first.shorter

/-- The rest of a chain after the operands read so far. -/
def chainMore (context : Context) (kind : Chain) (left : Expr) (tokens : List Token) :
    Except ParseError (Step Expr (tokens.length + 1)) :=
  match tokens with
  | [] => .ok ⟨left, [], by simp⟩
  | token :: rest =>
    match context.meaning token with
    | some (.binary op) =>
      if op.precedence = kind.precedence then do
        context.stop.arrive rest
        let right ← element context kind rest
        let step ← chainMore context kind (combine op left right.value) right.rest
        return step.weaken (by have := right.shorter; simp only [List.length_cons]; omega)
      else .ok ⟨left, token :: rest, by simp⟩
    | _ => .ok ⟨left, token :: rest, by simp⟩
termination_by (tokens.length, 0)
decreasing_by
  · exact Prod.Lex.left _ _ (by simp)
  · exact Prod.Lex.left _ _ (by have := right.shorter; simp only [List.length_cons]; omega)

/-- What a chain's operators stand between. -/
def element (context : Context) (kind : Chain) (tokens : List Token) :
    Except ParseError (Step Expr tokens.length) :=
  match kind with
  | .disjunctions => chain context .conjunctions tokens
  | .conjunctions => negation context tokens
  | .sums => chain context .products tokens
  | .products => signed context tokens
termination_by (tokens.length, kind.height - 1)
decreasing_by all_goals exact Prod.Lex.right _ (by decide)

/-- A comparison after any number of negations. -/
def negation (context : Context) (tokens : List Token) :
    Except ParseError (Step Expr tokens.length) :=
  match tokens with
  | token :: rest =>
    match context.meaning token with
    | some (.leading op) => do
      context.stop.arrive rest
      let operand ← negation context rest
      return ⟨applyUnary op operand.value, operand.rest,
        by have := operand.shorter; simp only [List.length_cons]; omega⟩
    | _ => comparison context (token :: rest)
  | [] => comparison context []
termination_by (tokens.length, 9)
decreasing_by all_goals
  first
  | exact Prod.Lex.right _ (by decide)
  | exact Prod.Lex.left _ _ (by simp)

/-- One sum, or two with a comparison between them. -/
def comparison (context : Context) (tokens : List Token) :
    Except ParseError (Step Expr tokens.length) := do
  let left ← chain context .sums tokens
  match hrest : left.rest with
  | [] => return left
  | token :: rest =>
    match context.meaning token with
    | some (.binary op) =>
      if op.isComparison then
        context.stop.arrive rest
        let right ← chain context .sums rest
        match context.operandAt right.rest with
        | some (.binary next) =>
          if next.isComparison then
            throw ⟨.chainedComparison, context.spanAt right.rest⟩
        | _ => pure ()
        return ⟨combine op left.value right.value, right.rest, by
          have h1 := left.shorter
          have h2 := right.shorter
          simp only [hrest, List.length_cons] at h1
          omega⟩
      else return left
    | _ => return left
termination_by (tokens.length, 8)
decreasing_by
  · exact Prod.Lex.right _ (by decide)
  · exact Prod.Lex.left _ _ (by
      have h1 := left.shorter
      simp only [hrest, List.length_cons] at h1
      omega)

/-- An operand with null checks after any number of signs and negations. -/
def signed (context : Context) (tokens : List Token) :
    Except ParseError (Step Expr tokens.length) :=
  match tokens with
  | token :: rest =>
    match context.meaning token with
    | some (.leading op) => do
      context.stop.arrive rest
      let operand ← signed context rest
      return ⟨applyUnary op operand.value, operand.rest,
        by have := operand.shorter; simp only [List.length_cons]; omega⟩
    | some (.binary .sub) => do
      context.stop.arrive rest
      let operand ← signed context rest
      return ⟨negate operand.value, operand.rest,
        by have := operand.shorter; simp only [List.length_cons]; omega⟩
    | some (.binary .add) => do
      context.stop.arrive rest
      let operand ← signed context rest
      return operand.weaken (by simp)
    | _ => checked context (token :: rest)
  | [] => checked context []
termination_by (tokens.length, 3)
decreasing_by all_goals
  first
  | exact Prod.Lex.right _ (by decide)
  | exact Prod.Lex.left _ _ (by simp)

/-- A primary expression with its null checks. -/
def checked (context : Context) (tokens : List Token) :
    Except ParseError (Step Expr tokens.length) := do
  let operand ← primary context tokens
  let step ← nullChecks context operand.value operand.rest
  return step.weaken operand.shorter
termination_by (tokens.length, 2)
decreasing_by exact Prod.Lex.right _ (by decide)

/-- A bracketed expression, a string, a call or a word. -/
def primary (context : Context) (tokens : List Token) :
    Except ParseError (Step Expr tokens.length) :=
  match tokens with
  | [] => .error (context.unexpected [])
  | token :: rest =>
    match token.kind with
    | .parenOpen => do
      context.stop.arrive rest
      let inner ← chain context .disjunctions rest
      match hrest : inner.rest with
      | close :: after =>
        if close.kind = .parenClose then
          context.stop.arrive after
          return ⟨inner.value, after, by
            have h := inner.shorter
            simp only [hrest, List.length_cons] at h ⊢
            omega⟩
        else throw ⟨.expectedParenClose, close.span⟩
      | [] => throw ⟨.expectedParenClose, context.stop.span⟩
    | .constant => do
      context.stop.arrive rest
      return ⟨.ofValue (.string (String.ofList token.text)), rest, by simp⟩
    | .keyword =>
      match context.vocabulary.lookup token.text with
      | some (.function function) => call context function token rest
      | some operand => .error ⟨.misplacedOperator operand.namespaceName token.text, token.span⟩
      | none => word context token rest
    | _ => .error (context.unexpected (token :: rest))
termination_by (tokens.length, 1)
decreasing_by
  · exact Prod.Lex.left _ _ (by simp)
  · exact Prod.Lex.left _ _ (by simp)

/-- The call of a function whose name has been read. -/
def call (context : Context) (function : Builtin) (name : Token) (tokens : List Token) :
    Except ParseError (Step Expr (tokens.length + 1)) :=
  match tokens with
  | [] => do
    context.stop.arrive []
    throw ⟨.expectedParenOpen, context.stop.span⟩
  | opening :: rest =>
    if opening.kind = .parenOpen then do
      context.stop.arrive rest
      let operands ← argumentList context function rest
      if function.takes operands.value.length then
        return ⟨.call function operands.value .any, operands.rest,
          by have := operands.shorter; simp only [List.length_cons]; omega⟩
      else
        throw ⟨.argumentCount function operands.value.length,
          ⟨name.span.start, (context.spanAt operands.rest).start⟩⟩
    else .error ⟨.expectedParenOpen, opening.span⟩
termination_by (tokens.length, 0)
decreasing_by exact Prod.Lex.left _ _ (by simp)

/-- The arguments after an opening bracket, and the closing one. -/
def argumentList (context : Context) (function : Builtin) (tokens : List Token) :
    Except ParseError (Step (List Expr) tokens.length) :=
  match tokens with
  | [] => arguments context function []
  | token :: rest =>
    if token.kind = .parenClose then do
      context.stop.arrive rest
      return ⟨[], rest, by simp⟩
    else arguments context function (token :: rest)
termination_by (tokens.length, 15)
decreasing_by all_goals exact Prod.Lex.right _ (by decide)

/-- One argument or more, and the closing bracket. -/
def arguments (context : Context) (function : Builtin) (tokens : List Token) :
    Except ParseError (Step (List Expr) tokens.length) := do
  let first ← chain context .disjunctions tokens
  let operand := first.value.withExpected function.argumentType
  match hrest : first.rest with
  | [] => throw ⟨.expectedArgumentEnd, context.stop.span⟩
  | token :: rest =>
    have hshorter : rest.length + 1 < tokens.length := by
      have h := first.shorter
      simp only [hrest, List.length_cons] at h
      exact h
    match token.kind with
    | .argumentSeparator =>
      context.stop.arrive rest
      let others ← arguments context function rest
      return ⟨operand :: others.value, others.rest, by have := others.shorter; omega⟩
    | .parenClose =>
      context.stop.arrive rest
      return ⟨[operand], rest, by omega⟩
    | _ => throw ⟨.expectedArgumentEnd, token.span⟩
termination_by (tokens.length, 14)
decreasing_by
  · exact Prod.Lex.right _ (by decide)
  · exact Prod.Lex.left _ _ (by omega)

end

end Parser

/-- An expression read out of a larger text, if there is one, and the position after it: that of
the terminator or of the end of the text. -/
structure Parsed where
  expr : Option Expr
  stop : Nat

/-- Parses the expression that begins at a byte position of a text. -/
def Expr.parseAt (vocabulary : Vocabulary) (quoting : Quoting) (code : List Char) (start : Nat) :
    Except ParseError Parsed := do
  match Text.dropBytes? start code with
  | none => throw ⟨.invalidStart, ⟨start, start⟩⟩
  | some text =>
    let scan := Scan.of quoting start text
    let context : Parser.Context := ⟨vocabulary, scan.stop⟩
    scan.stop.arrive scan.tokens
    match scan.tokens with
    | [] => return ⟨none, scan.stop.span.start⟩
    | tokens =>
      let step ← Parser.chain context .disjunctions tokens
      match step.rest with
      | [] => return ⟨some step.value, scan.stop.span.start⟩
      | rest => throw (context.unexpected rest)

/-- Parses a text that is one expression. -/
def Expr.parse (vocabulary : Vocabulary) (code : List Char) : Except ParseError Expr := do
  let parsed ← Expr.parseAt vocabulary .standard code 0
  let length := Text.byteLength code
  if parsed.stop < length then throw ⟨.textAfterExpression, ⟨parsed.stop, length⟩⟩
  match parsed.expr with
  | some expr => return expr
  | none => throw ⟨.emptyExpression, ⟨0, length⟩⟩

end RowFilter
