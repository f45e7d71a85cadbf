import RowFilter.Directory.Error
import RowFilter.Directory.Time

/-!
# Assertion values

A value that stands in a search filter is written so that no character of it can be read as part
of the filter. A question mark is escaped too: one that is left in a statement is a placeholder.
-/

namespace RowFilter.Directory

def hexDigit (n : Nat) : Char :=
  if n < 10 then Char.ofNat (48 + n) else Char.ofNat (87 + n)

/-- A byte as a backslash and two hexadecimal digits. -/
def escapedByte (b : UInt8) : List Char :=
  ['\\', hexDigit (b.toNat / 16), hexDigit (b.toNat % 16)]

/-- The bytes with a meaning of their own: the asterisk, brackets, the backslash, the question
mark and zero. -/
def isSpecial (b : UInt8) : Bool :=
  [42, 40, 41, 92, 63, 0].contains b

/-- A byte that is special or not ASCII is escaped. -/
def escapeByte (b : UInt8) : List Char :=
  if isSpecial b || 128 ≤ b then escapedByte b else [Char.ofNat b.toNat]

def escapeBytes (bytes : Bytes) : List Char :=
  bytes.flatMap escapeByte

/-- A character outside ASCII stands for itself. -/
def escapeChar (c : Char) : List Char :=
  if c.toNat < 128 then escapeByte (UInt8.ofNat c.toNat) else [c]

def escapeText (text : List Char) : List Char :=
  text.flatMap escapeChar

/-- A value as it stands in an assertion. -/
def assertionText : Value → Except FilterFault (List Char)
  | .string s => .ok (escapeText s.toList)
  | .integer n => .ok (Number.intText n.toInt)
  | .float x => .ok (escapeText (Number.floatText x).toList)
  | .boolean b => .ok (if b then "TRUE" else "FALSE").toList
  | .date seconds => .ok (generalizedTimeChars seconds.toInt)
  | .bytes bytes => .ok (escapeBytes bytes)
  | value => .error (.unbindable value.type)

/-- Puts the parameters, in order, in the places of the question marks. -/
def bindChars : List Char → List Value → Except FilterFault (List Char)
  | [], [] => .ok []
  | [], _ :: _ => .error .surplusParameter
  | c :: rest, parameters =>
    if c = '?' then
      match parameters with
      | [] => .error .missingParameter
      | value :: others => do
        let text ← assertionText value
        let bound ← bindChars rest others
        return text ++ bound
    else do
      let bound ← bindChars rest parameters
      return c :: bound

/-- The search filter of a statement and its parameters. -/
def bind (statement : String) (parameters : List Value) : Except DirectoryError String :=
  match bindChars statement.toList parameters with
  | .ok bound => .ok (String.ofList bound)
  | .error fault => .error (.invalidFilter statement fault)

end RowFilter.Directory
