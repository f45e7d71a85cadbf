import RowFilter.Text.LetterCase
import RowFilter.Value.Basic

/-!
# Conversion between types

A value converts to a type if there is a sensible reading of it there. NULL converts to every
type and stays NULL.
-/

namespace RowFilter.Value

/-- Reads an integer if the text is one, else a finite float. -/
def readNumber? (text : List Char) : Option Value :=
  match Number.readInt64? text with
  | some n => some (integer n)
  | none =>
    match Number.readFloat? text with
    | some x => if x.isFinite then some (float x) else none
    | none => none

def toBoolean? : Value → Option Value
  | boolean b => some (boolean b)
  | integer n => if n = 0 then some (boolean false) else if n = 1 then some (boolean true) else none
  | string s =>
    if Text.sameIgnoringCase s "true" then some (boolean true)
    else if Text.sameIgnoringCase s "false" then some (boolean false)
    else none
  | _ => none

def toNumber? : Value → Option Value
  | integer n => some (integer n)
  | float x => some (float x)
  | boolean b => some (integer (if b then 1 else 0))
  | date seconds => some (integer seconds)
  | string s => readNumber? (Text.trim s.toList)
  | _ => none

def toString? : Value → Option Value
  | string s => some (string s)
  | boolean b => some (string (booleanText b))
  | integer n => some (string (Number.int64Text n))
  | float x => some (string (Number.floatText x))
  | date seconds => some (string (Number.int64Text seconds))
  | bytes bs => (Text.ofBytes? bs).map string
  | _ => none

def toDate? : Value → Option Value
  | date seconds => some (date seconds)
  | integer n => some (date n)
  | float x => some (date (Number.truncate x))
  | string s => (Number.readInt64? (Text.trim s.toList)).map date
  | _ => none

def toCollection : Value → Value
  | collection items => collection items
  | value => collection [value]

/-- Converts to a type, or `none` when there is no conversion. -/
def coerce? (target : ValueType) (value : Value) : Option Value :=
  if value.isNull then some null
  else
    match target with
    | .any => some value
    | .null => none
    | .boolean => value.toBoolean?
    | .number => value.toNumber?
    | .string => value.toString?
    | .date => value.toDate?
    | .collection => some value.toCollection
    | .object =>
      match value with
      | object _ => some value
      | _ => none

end RowFilter.Value
