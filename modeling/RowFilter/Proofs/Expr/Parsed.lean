import RowFilter.Expr.Parser
import RowFilter.Proofs.Number.FloatText
import RowFilter.Proofs.Outcome
import RowFilter.Value.Named

/-! # What the parser gives

The trees that the parser gives for a text of the standard vocabulary: their paths are words that
are no keywords, their numbers are finite and no least integers, and a sign in front of a number
has become part of it.
-/

namespace RowFilter

namespace Vocabulary

/-- The keywords of the standard vocabulary are its entries, in any spelling. -/
theorem lookup_standard_iff {word : List Char} {operand : Operand} :
    standard.lookup word = some operand ↔
      (String.ofList (normalize word), operand) ∈ standardOperands :=
  find?_ofOperands (by decide)

/-- There is one standard operator before an operand. -/
theorem leading_eq_not {word : List Char} {op : UnaryOp}
    (h : standard.lookup word = some (.leading op)) : op = .not := by
  have hall : ∀ entry ∈ standardOperands, ∀ op ∈ UnaryOp.all,
      entry.2 = .leading op → op = .not := by
    decide
  exact hall _ (lookup_standard_iff.mp h) op (by cases op <;> decide) rfl

theorem isTrailing_of_trailing {word : List Char} {op : UnaryOp}
    (h : standard.lookup word = some (.trailing op)) : op.isTrailing = true := by
  have hall : ∀ entry ∈ standardOperands, ∀ op ∈ UnaryOp.all, entry.2 = .trailing op →
      op.isTrailing = true := by decide
  exact hall _ (lookup_standard_iff.mp h) op (by cases op <;> decide) rfl

end Vocabulary

namespace Expr

/-- A word that is read as a path. -/
structure IsPathWord (word : List Char) : Prop where
  single : Token.isSingleKeyword word = true
  unknown : Vocabulary.standard.lookup word = none
  path : Parser.isPath word = true
  digit : Parser.startsWithDigit word = false
  literal : word.map Char.toLower ∉ ["true".toList, "false".toList, "null".toList]

def isNumber : Expr → Bool
  | literal (.integer _) _ | literal (.float _) _ => true
  | _ => false

/-- The trees that the parser builds. -/
inductive Parsed : Expr → Prop
  | null : Parsed (.ofValue .null)
  | boolean (b : Bool) : Parsed (.ofValue (.boolean b))
  | integer {n : Int64} (h : -9223372036854775808 < n.toInt) : Parsed (.ofValue (.integer n))
  | float {x : Number.Binary64} (h : x.isFinite = true) : Parsed (.ofValue (.float x))
  | string (s : String) : Parsed (.ofValue (.string s))
  | reference {word : List Char} (h : IsPathWord word) :
      Parsed (.reference (String.ofList word) .any)
  | call {function : Builtin} {arguments : List Expr} (h : ∀ argument ∈ arguments, Parsed argument)
      (htakes : function.takes arguments.length = true) :
      Parsed (.call function (arguments.map (withExpected function.argumentType)) .any)
  | negate {operand : Expr} (h : Parsed operand) (hnumber : operand.isNumber = false) :
      Parsed (Parser.applyUnary .negate operand)
  | unary {op : UnaryOp} (hop : op ≠ .negate) {operand : Expr} (h : Parsed operand) :
      Parsed (Parser.applyUnary op operand)
  | binary (op : BinaryOp) {left right : Expr} (hleft : Parsed left) (hright : Parsed right) :
      Parsed (Parser.combine op left right)

theorem negate_of_isNumber_eq_false {operand : Expr} (h : operand.isNumber = false) :
    Parser.negate operand = Parser.applyUnary .negate operand := by
  unfold Parser.negate
  split
  next => cases h
  next => cases h
  next => rfl

theorem neg_bound {n : Int64} (h : -9223372036854775808 < n.toInt) :
    -9223372036854775808 < (-n).toInt ∧ (-n).toInt = -n.toInt := by
  have hle := n.toInt_lt
  have hneg : (-n).toInt = -n.toInt := by
    rw [Int64.toInt_neg, Int.bmod_eq_of_le (by omega) (by omega)]
  rw [hneg]
  omega

/-- A sign in front of a number becomes part of it. -/
theorem Parsed.sign {operand : Expr} (h : Parsed operand) : Parsed (Parser.negate operand) := by
  by_cases hnumber : operand.isNumber = true
  · cases h with
    | integer h => exact .integer (neg_bound h).1
    | float h => exact .float ((Number.Binary64.isFinite_neg _).trans h)
    | _ => cases hnumber
  · rw [negate_of_isNumber_eq_false (by simpa using hnumber)]
    exact .negate h (by simpa using hnumber)

end Expr

end RowFilter
