import RowFilter.Expr.Basic

/-!
# The binary form of expressions

An expression is sent as a version byte and its tree. Numbers are little-endian; a constructor is
a 32-bit index, a length a 64-bit count and a truth value one byte. Objects live in the process
that made them and have no binary form. Reading ignores what follows the tree.
-/

namespace RowFilter

inductive WireError where
  | empty
  | unsupportedVersion (version : UInt8)
  /-- The tree cannot be written or read. -/
  | codec
deriving DecidableEq, Repr

def WireError.message : WireError → String
  | empty => "Empty expression payload"
  | unsupportedVersion version =>
    "Unsupported expression wire version: " ++ String.ofList (Number.natText version.toNat)
  | codec => "Expression codec error"

namespace Wire

def version : UInt8 := 1

/-- The lowest bytes of a number, the lowest first. -/
def littleEndian : Nat → Nat → Bytes
  | 0, _ => []
  | width + 1, n => UInt8.ofNat (n % 256) :: littleEndian width (n / 256)

/-- The number of bytes written the lowest first. -/
def ofLittleEndian : Bytes → Nat
  | [] => 0
  | b :: rest => b.toNat + 256 * ofLittleEndian rest

/-- The order in which types are numbered. -/
def typeIndex : ValueType → Nat
  | .any => 0
  | .boolean => 1
  | .collection => 2
  | .date => 3
  | .null => 4
  | .number => 5
  | .string => 6
  | .object => 7

def binaryIndex : BinaryOp → Nat
  | .or => 0
  | .and => 1
  | .eq => 2
  | .ne => 3
  | .lt => 4
  | .le => 5
  | .gt => 6
  | .ge => 7
  | .like => 8
  | .containsOneOf => 9
  | .containsNone => 10
  | .add => 11
  | .sub => 12
  | .mul => 13
  | .div => 14
  | .mod => 15

def unaryIndex : UnaryOp → Nat
  | .not => 0
  | .negate => 1
  | .isNull => 2
  | .notNull => 3

def builtinIndex : Builtin → Nat
  | .concat => 0
  | .lower => 1
  | .upper => 2
  | .isEmpty => 3
  | .size => 4
  | .now => 5

def index (n : Nat) : Bytes :=
  littleEndian 4 n

def length (n : Nat) : Bytes :=
  littleEndian 8 n

def word (bits : UInt64) : Bytes :=
  littleEndian 8 bits.toNat

def string (text : String) : Bytes :=
  let bytes := Text.bytesOf text
  length bytes.length ++ bytes

mutual

/-- The bytes of a value, unless it holds an object. -/
def value? : Value → Option Bytes
  | .null => some (index 0)
  | .boolean b => some (index 1 ++ [if b then 1 else 0])
  | .integer n => some (index 2 ++ word n.toUInt64)
  | .float x => some (index 3 ++ word x.bits)
  | .string text => some (index 4 ++ string text)
  | .date seconds => some (index 5 ++ word seconds.toUInt64)
  | .collection items => (values? items).map fun bytes =>
      index 6 ++ length items.length ++ bytes
  | .bytes bytes => some (index 7 ++ length bytes.length ++ bytes)
  | .object _ => none

def values? : List Value → Option Bytes
  | [] => some []
  | item :: rest => do
    let bytes ← value? item
    let others ← values? rest
    return bytes ++ others

end

mutual

/-- The bytes of an expression tree, unless a literal holds an object. -/
def tree? : Expr → Option Bytes
  | .literal value type => do
    let bytes ← value? value
    return index 0 ++ bytes ++ index (typeIndex type)
  | .reference path expected => some (index 1 ++ string path ++ index (typeIndex expected))
  | .call function arguments expected => do
    let bytes ← trees? arguments
    return index 2 ++ index (builtinIndex function) ++ length arguments.length ++ bytes
      ++ index (typeIndex expected)
  | .unary op operand => do
    let bytes ← tree? operand
    return index 3 ++ index (unaryIndex op) ++ bytes
  | .binary op left right => do
    let leftBytes ← tree? left
    let rightBytes ← tree? right
    return index 4 ++ index (binaryIndex op) ++ leftBytes ++ rightBytes

def trees? : List Expr → Option Bytes
  | [] => some []
  | argument :: rest => do
    let bytes ← tree? argument
    let others ← trees? rest
    return bytes ++ others

end

/-- Something read from the front of some bytes, and the rest, which is below a bound. -/
structure Taken (α : Type) (bound : Nat) where
  value : α
  rest : Bytes
  shorter : rest.length < bound

namespace Taken

variable {α β : Type} {bound larger : Nat}

def weaken (taken : Taken α bound) (h : bound ≤ larger) : Taken α larger :=
  ⟨taken.value, taken.rest, Nat.lt_of_lt_of_le taken.shorter h⟩

/-- Reads the value as something else, if it stands for anything. -/
def mapValue? (taken : Taken α bound) (f : α → Option β) : Option (Taken β bound) :=
  (f taken.value).map fun value => ⟨value, taken.rest, taken.shorter⟩

end Taken

/-- Takes a number of bytes. -/
def takeBytes (count : Nat) (bytes : Bytes) : Option (Taken Bytes (bytes.length + 1)) :=
  if count ≤ bytes.length then
    some ⟨bytes.take count, bytes.drop count, by simp only [List.length_drop]; omega⟩
  else none

/-- Takes a number of at least one byte. -/
def takeNumber (width : Nat) (bytes : Bytes) : Option (Taken Nat bytes.length) :=
  if h : width + 1 ≤ bytes.length then
    some ⟨ofLittleEndian (bytes.take (width + 1)), bytes.drop (width + 1),
      by simp only [List.length_drop]; omega⟩
  else none

def takeIndex (bytes : Bytes) : Option (Taken Nat bytes.length) :=
  takeNumber 3 bytes

def takeWord (bytes : Bytes) : Option (Taken Nat bytes.length) :=
  takeNumber 7 bytes

/-- Takes an index that numbers one of some things. -/
def takeOne {α : Type} (all : List α) (indexOf : α → Nat) (bytes : Bytes) :
    Option (Taken α bytes.length) := do
  let taken ← takeIndex bytes
  taken.mapValue? fun n => all.find? fun a => indexOf a == n

def takeType (bytes : Bytes) : Option (Taken ValueType bytes.length) :=
  takeOne ValueType.all typeIndex bytes

/-- Takes a byte that is zero or one. -/
def takeBoolean : (bytes : Bytes) → Option (Taken Bool bytes.length)
  | [] => none
  | b :: rest =>
    if b = 0 then some ⟨false, rest, by simp⟩
    else if b = 1 then some ⟨true, rest, by simp⟩
    else none

/-- Takes a length and that many bytes. -/
def takeBlock (bytes : Bytes) : Option (Taken Bytes bytes.length) := do
  let size ← takeWord bytes
  let block ← takeBytes size.value size.rest
  return block.weaken size.shorter

/-- Takes a length and a text of that many bytes. -/
def takeString (bytes : Bytes) : Option (Taken String bytes.length) := do
  let block ← takeBlock bytes
  block.mapValue? Text.ofBytes?

mutual

def takeValue (bytes : Bytes) : Option (Taken Value bytes.length) := do
  let kind ← takeIndex bytes
  let within {α : Type} (taken : Taken α kind.rest.length) (f : α → Value) :
      Taken Value bytes.length :=
    ⟨f taken.value, taken.rest, Nat.lt_trans taken.shorter kind.shorter⟩
  match kind.value with
  | 0 => return ⟨.null, kind.rest, kind.shorter⟩
  | 1 => return within (← takeBoolean kind.rest) .boolean
  | 2 => return within (← takeWord kind.rest) fun n => .integer (UInt64.ofNat n).toInt64
  | 3 => return within (← takeWord kind.rest) fun n => .float ⟨UInt64.ofNat n⟩
  | 4 => return within (← takeString kind.rest) .string
  | 5 => return within (← takeWord kind.rest) fun n => .date (UInt64.ofNat n).toInt64
  | 6 =>
    let size ← takeWord kind.rest
    let items ← takeValues size.value size.rest
    return ⟨.collection items.value, items.rest, by
      have h1 := items.shorter
      have h2 := size.shorter
      have h3 := kind.shorter
      omega⟩
  | 7 => return within (← takeBlock kind.rest) .bytes
  | _ => none
termination_by (bytes.length, 0)
decreasing_by exact Prod.Lex.left _ _ (Nat.lt_trans size.shorter kind.shorter)

/-- Takes a number of values. -/
def takeValues (count : Nat) (bytes : Bytes) : Option (Taken (List Value) (bytes.length + 1)) :=
  match count with
  | 0 => some ⟨[], bytes, by simp⟩
  | count + 1 => do
    let item ← takeValue bytes
    let others ← takeValues count item.rest
    return ⟨item.value :: others.value, others.rest, by
      have h1 := item.shorter
      have h2 := others.shorter
      omega⟩
termination_by (bytes.length, 1)
decreasing_by
  · exact Prod.Lex.right _ (by decide)
  · exact Prod.Lex.left _ _ item.shorter

end

mutual

def takeTree (bytes : Bytes) : Option (Taken Expr bytes.length) := do
  let kind ← takeIndex bytes
  match kind.value with
  | 0 =>
    let value ← takeValue kind.rest
    let type ← takeType value.rest
    return ⟨.literal value.value type.value, type.rest,
      Nat.lt_trans type.shorter (Nat.lt_trans value.shorter kind.shorter)⟩
  | 1 =>
    let path ← takeString kind.rest
    let expected ← takeType path.rest
    return ⟨.reference path.value expected.value, expected.rest,
      Nat.lt_trans expected.shorter (Nat.lt_trans path.shorter kind.shorter)⟩
  | 2 =>
    let function ← takeOne Builtin.all builtinIndex kind.rest
    let size ← takeWord function.rest
    let arguments ← takeTrees size.value size.rest
    let expected ← takeType arguments.rest
    return ⟨.call function.value arguments.value expected.value, expected.rest, by
      have h1 := kind.shorter
      have h2 := function.shorter
      have h3 := size.shorter
      have h4 := arguments.shorter
      have h5 := expected.shorter
      omega⟩
  | 3 =>
    let op ← takeOne UnaryOp.all unaryIndex kind.rest
    let operand ← takeTree op.rest
    return ⟨.unary op.value operand.value, operand.rest,
      Nat.lt_trans operand.shorter (Nat.lt_trans op.shorter kind.shorter)⟩
  | 4 =>
    let op ← takeOne BinaryOp.all binaryIndex kind.rest
    let left ← takeTree op.rest
    let right ← takeTree left.rest
    return ⟨.binary op.value left.value right.value, right.rest,
      Nat.lt_trans right.shorter
        (Nat.lt_trans left.shorter (Nat.lt_trans op.shorter kind.shorter))⟩
  | _ => none
termination_by (bytes.length, 0)
decreasing_by
  · exact Prod.Lex.left _ _
      (Nat.lt_trans size.shorter (Nat.lt_trans function.shorter kind.shorter))
  · exact Prod.Lex.left _ _ (Nat.lt_trans op.shorter kind.shorter)
  · exact Prod.Lex.left _ _ (Nat.lt_trans op.shorter kind.shorter)
  · exact Prod.Lex.left _ _
      (Nat.lt_trans left.shorter (Nat.lt_trans op.shorter kind.shorter))

/-- Takes a number of trees. -/
def takeTrees (count : Nat) (bytes : Bytes) : Option (Taken (List Expr) (bytes.length + 1)) :=
  match count with
  | 0 => some ⟨[], bytes, by simp⟩
  | count + 1 => do
    let item ← takeTree bytes
    let others ← takeTrees count item.rest
    return ⟨item.value :: others.value, others.rest, by
      have h1 := item.shorter
      have h2 := others.shorter
      omega⟩
termination_by (bytes.length, 1)
decreasing_by
  · exact Prod.Lex.right _ (by decide)
  · exact Prod.Lex.left _ _ item.shorter

end

/-- The binary form of an expression. -/
def encode (expr : Expr) : Except WireError Bytes :=
  match tree? expr with
  | some bytes => .ok (version :: bytes)
  | none => .error .codec

/-- The expression at the start of some bytes. -/
def decode : Bytes → Except WireError Expr
  | [] => .error .empty
  | first :: payload =>
    if first ≠ version then .error (.unsupportedVersion first)
    else
      match takeTree payload with
      | some taken => .ok taken.value
      | none => .error .codec

end Wire

end RowFilter
