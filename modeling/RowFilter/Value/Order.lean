import RowFilter.Value.Coercion

/-!
# Comparison of values

Values of one kind compare by that kind, and numbers and dates compare as numbers. Evaluation
also compares a text with a number, a date or a boolean if the text can be read as one. An
object is equal to nothing.
-/

namespace RowFilter.Value

/-- The order of two values of comparable kinds. -/
def compare? : Value → Value → Option Ordering
  | integer a, integer b => some (compare a.toInt b.toInt)
  | date a, date b => some (compare a.toInt b.toInt)
  | string a, string b => some (compare a b)
  | boolean a, boolean b => some (compare a b)
  | bytes a, bytes b => some (compare a b)
  | a, b =>
    match a.asFloat?, b.asFloat? with
    | some x, some y => x.compare? y
    | _, _ => none

mutual

/-- Equality with numbers of all kinds alike; collections are equal element by element. -/
def looselyEquals : Value → Value → Bool
  | null, null => true
  | collection a, collection b => looselyEqualAll a b
  | a, b => compare? a b == some .eq

def looselyEqualAll : List Value → List Value → Bool
  | [], [] => true
  | a :: as, b :: bs => looselyEquals a b && looselyEqualAll as bs
  | _, _ => false

end

/-- Whether a text is read as a value of this type to be compared with one. -/
def readsText : ValueType → Bool
  | .number | .date | .boolean => true
  | _ => false

/-- The order of two values after reading a text as the other side's type. -/
def compareAs? (target : ValueType) (left right : Value) : Option Ordering :=
  if readsText target then
    match left.coerce? target, right.coerce? target with
    | some l, some r => compare? l r
    | _, _ => none
  else none

/-- The order of two values, where a text may stand for a number, a date or a boolean. -/
def align? (left right : Value) : Option Ordering :=
  match compare? left right with
  | some ordering => some ordering
  | none =>
    match left, right with
    | string _, other => compareAs? other.type left right
    | other, string _ => compareAs? other.type left right
    | _, _ => none

/-- Equality as evaluation sees it. -/
def equals (left right : Value) : Bool :=
  looselyEquals left right || align? left right == some .eq

end RowFilter.Value
