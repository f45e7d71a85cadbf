import RowFilter.Expr.Basic

/-!
# Printing expressions

The text of an expression has brackets only where precedence needs them: around an operand that
binds looser than its operator, and around a right operand that binds equally, since binary
operators associate to the left.
-/

namespace RowFilter

/-- A character of a string constant between single quotes. -/
def quotedChar : Char → List Char
  | '\n' => ['\\', 'n']
  | '\t' => ['\\', 't']
  | '\r' => ['\\', 'r']
  | '\\' => ['\\', '\\']
  | c => if c == '\x27' then ['\\', c] else [c]

/-- A string constant between single quotes. -/
def quoted (text : List Char) : List Char :=
  '\x27' :: text.flatMap quotedChar ++ ['\x27']

namespace Value

mutual

/-- A value as a literal of an expression. -/
def literalText : Value → List Char
  | null => "null".toList
  | string s => quoted s.toList
  | collection items => '[' :: literalTexts items ++ [']']
  | value => value.text.toList

def literalTexts : List Value → List Char
  | [] => []
  | [item] => literalText item
  | item :: rest => literalText item ++ ',' :: ' ' :: literalTexts rest

end

end Value

namespace Expr

/-- How tight the outermost operator binds. Negation of a truth value binds looser than a
comparison, and what is not an operator binds tightest. -/
def precedence : Expr → Nat
  | binary op _ _ => op.precedence
  | unary .not _ => 2
  | unary _ _ => 6
  | _ => 255

/-- Puts brackets around an operand that binds looser than needed. -/
def bracketed (least : Nat) (operand : Expr) (text : List Char) : List Char :=
  if operand.precedence < least then '(' :: text ++ [')'] else text

mutual

def print : Expr → List Char
  | literal value _ => value.literalText
  | reference path _ => path.toList
  | call function arguments _ => function.name.toList ++ '(' :: printAll arguments ++ [')']
  | unary op operand =>
    match op with
    | .not => "not ".toList ++ bracketed 3 operand (print operand)
    | .negate => '-' :: bracketed 6 operand (print operand)
    | .isNull | .notNull => bracketed 6 operand (print operand) ++ ' ' :: op.keyword.toList
  | binary op left right =>
    bracketed op.precedence left (print left) ++ ' ' :: op.keyword.toList ++
      ' ' :: bracketed (op.precedence + 1) right (print right)

def printAll : List Expr → List Char
  | [] => []
  | [argument] => print argument
  | argument :: rest => print argument ++ ',' :: ' ' :: printAll rest

end

/-- The text of an expression. -/
def text (expr : Expr) : String :=
  String.ofList expr.print

end Expr

end RowFilter
