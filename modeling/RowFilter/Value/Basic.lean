import RowFilter.Number.Decimal
import RowFilter.Text.Utf8
import RowFilter.Value.Named

/-!
# Values and their types

A value is what an expression computes with and what a row holds. Each value has exactly one
type; raw bytes carry none of their own.
-/

namespace RowFilter

inductive ValueType where
  | any | boolean | collection | date | null | number | string | object
deriving DecidableEq, Repr

namespace ValueType

def all : List ValueType :=
  [any, boolean, collection, date, null, number, string, object]

/-- The name used in attribute declarations and in messages. -/
def name : ValueType → String
  | any => "ANY"
  | boolean => "BOOLEAN"
  | collection => "COLLECTION"
  | date => "DATE"
  | null => "NULL"
  | number => "NUMBER"
  | string => "STRING"
  | object => "OBJECT"

/-- The capitalized name, used where a message shows an optional type. -/
def label : ValueType → String
  | any => "Any"
  | boolean => "Boolean"
  | collection => "Collection"
  | date => "Date"
  | null => "Null"
  | number => "Number"
  | string => "String"
  | object => "Object"

/-- The type of a name, written in any ASCII case. -/
def ofName? (text : String) : Option ValueType :=
  let wanted := text.toList.map Char.toUpper
  all.find? fun type => type.name.toList == wanted

/-- Whether a value of type `actual` may stand where `expected` is expected. -/
def accepts (expected actual : ValueType) : Bool :=
  expected == any || actual == any || expected == null || actual == null || expected == actual

end ValueType

inductive Value where
  | null
  | boolean (value : Bool)
  | integer (value : Int64)
  | float (value : Number.Binary64)
  | string (text : String)
  /-- Seconds since the start of 1970. -/
  | date (seconds : Int64)
  | collection (items : List Value)
  | bytes (bytes : Bytes)
  | object (properties : List (String × Value))
deriving Inhabited

/-- The properties of an object, and with them a row. -/
abbrev Properties := Named Value

namespace Value

def type : Value → ValueType
  | null => .null
  | boolean _ => .boolean
  | integer _ | float _ => .number
  | string _ => .string
  | date _ => .date
  | collection _ => .collection
  | bytes _ => .any
  | object _ => .object

def isNull : Value → Bool
  | null => true
  | _ => false

def asBoolean? : Value → Option Bool
  | boolean b => some b
  | _ => none

def asString? : Value → Option String
  | string s => some s
  | _ => none

/-- The number of an integer, a float or a date. -/
def asFloat? : Value → Option Number.Binary64
  | integer n => some (.ofInt64 n)
  | float x => some x
  | date seconds => some (.ofInt64 seconds)
  | _ => none

def booleanText (b : Bool) : String :=
  if b then "true" else "false"

mutual

/-- The text of a value where it is written inline. -/
def text : Value → String
  | null => ""
  | boolean b => booleanText b
  | integer n => Number.int64Text n
  | float x => Number.floatText x
  | string s => s
  | date seconds => Number.int64Text seconds
  | collection items => ",".intercalate (texts items)
  | bytes bs => Text.ofBytesLossy bs
  | object _ => ""

def texts : List Value → List String
  | [] => []
  | item :: rest => text item :: texts rest

end

/-- The elements of a value seen as a collection: NULL has none, any other single value is its
own element. -/
def elements : Value → List Value
  | null => []
  | collection items => items
  | value => [value]

end Value

end RowFilter
