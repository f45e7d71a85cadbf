import RowFilter.Expr.Operator

/-!
# Errors of expression texts

Each error names its cause and the bytes of the text that it is about.
-/

namespace RowFilter

/-- A range of byte positions. -/
structure Span where
  start : Nat
  stop : Nat
deriving DecidableEq, Repr

inductive ParseErrorCause where
  | unexpectedCharacter (c : Char)
  | unterminatedString
  | invalidStart
  | emptyExpression
  | textAfterExpression
  | unexpectedEnd
  | unexpectedParenClose
  | unexpectedComma
  | unexpectedToken (source : List Char)
  | expectedParenClose
  | expectedParenOpen
  | expectedArgumentEnd
  | chainedComparison
  /-- An operator where an operand should begin. -/
  | misplacedOperator (namespaceName : String) (text : List Char)
  | argumentCount (function : Builtin) (actual : Nat)
  | unknownFunction (word : List Char)
  | invalidNumber (word : List Char)
  | invalidPath (word : List Char)
deriving DecidableEq, Repr

namespace ParseErrorCause

/-- A phrase followed by a text between single quotes. -/
def naming (phrase : String) (text : List Char) : String :=
  phrase ++ " \x27" ++ String.ofList text ++ "\x27"

def message : ParseErrorCause → String
  | unexpectedCharacter c => naming "Unexpected character" [c]
  | unterminatedString => "Unterminated string literal"
  | invalidStart => "Invalid start offset"
  | emptyExpression => "Empty expression"
  | textAfterExpression => "Unexpected text after expression"
  | unexpectedEnd => "Unexpected end of expression"
  | unexpectedParenClose => naming "Unexpected" [')']
  | unexpectedComma => naming "Unexpected" [',']
  | unexpectedToken source => naming "Unexpected token" source
  | expectedParenClose => naming "Expected" [')']
  | expectedParenOpen => naming "Expected" ['('] ++ " after function name"
  | expectedArgumentEnd => naming "Expected" [','] ++ naming " or" [')'] ++ " in argument list"
  | chainedComparison => "Comparison operators cannot be chained"
  | misplacedOperator namespaceName text =>
    naming ("Unexpected " ++ namespaceName ++ " operator") text
  | argumentCount function actual =>
    "Function " ++ function.name ++ " expects " ++ function.arityText ++ " arguments, got "
      ++ String.ofList (Number.natText actual)
  | unknownFunction word => naming "Unknown function" word
  | invalidNumber word => naming "Invalid number" word
  | invalidPath word => naming "Invalid path" word

end ParseErrorCause

structure ParseError where
  cause : ParseErrorCause
  span : Span
deriving DecidableEq, Repr

def ParseError.message (error : ParseError) : String :=
  error.cause.message ++ " at " ++ String.ofList (Number.natText error.span.start) ++ ".."
    ++ String.ofList (Number.natText error.span.stop)

end RowFilter
