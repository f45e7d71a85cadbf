import RowFilter.Directory.Error
import RowFilter.Directory.SearchFilter
import RowFilter.Text.Pieces

/-!
# The text of search filters

A search filter is written in brackets: connectives come before the filters they join, and an
item is an attribute name, a relation and an assertion value. The text is read as bytes, and a
backslash and two hexadecimal digits stand for any byte of a value.
-/

namespace RowFilter.Directory

/-- A byte of an ASCII character. -/
def byteOf (c : Char) : UInt8 :=
  UInt8.ofNat c.toNat

def hexValue? (b : UInt8) : Option Nat :=
  if 48 ≤ b && b ≤ 57 then some (b.toNat - 48)
  else if 97 ≤ b && b ≤ 102 then some (b.toNat - 87)
  else if 65 ≤ b && b ≤ 70 then some (b.toNat - 55)
  else none

/-- The byte that two characters stand for. A plus sign in front of one digit is a sign. -/
def hexByte? (high low : UInt8) : Option UInt8 :=
  match hexValue? low with
  | none => none
  | some l =>
    if high = byteOf '+' then some (UInt8.ofNat l)
    else (hexValue? high).map fun h => UInt8.ofNat (h * 16 + l)

/-- The bytes of an assertion value. -/
def unescape : Bytes → Except FilterSyntax Bytes
  | [] => .ok []
  | b :: rest =>
    if b = byteOf '\\' then
      match rest with
      | high :: low :: more =>
        match hexByte? high low with
        | some decoded => do
          let others ← unescape more
          return decoded :: others
        | none => .error .invalidEscape
      | _ => .error .invalidEscape
    else do
      let others ← unescape rest
      return b :: others

namespace SearchFilter

/-- A filter or filters read from the front of some bytes, and the rest, which is shorter. -/
structure Reading (α : Type) (bound : Nat) where
  value : α
  rest : Bytes
  shorter : rest.length < bound

/-- The position of what is left of a text of some length. -/
def position (total : Nat) (rest : Bytes) : Nat :=
  total - rest.length

/-- Reads one given byte. -/
def expect (total : Nat) (wanted : UInt8) : (bytes : Bytes) →
    Except FilterSyntax (Reading Unit bytes.length)
  | [] => .error (.expectedAtEnd wanted)
  | b :: rest =>
    if b = wanted then .ok ⟨(), rest, Nat.lt_succ_self _⟩
    else .error (.expected wanted (position total (b :: rest)) b)

/-- A byte that ends an attribute name. -/
def endsName (b : UInt8) : Bool :=
  ['=', '>', '<', '~', '(', ')'].any fun c => b == byteOf c

/-- A byte that ends an assertion value. -/
def endsValue (b : UInt8) : Bool :=
  b == byteOf '(' || b == byteOf ')'

inductive Relation where
  | equal | greaterOrEqual | lessOrEqual | approximate

def relationOf? (b : UInt8) : Option Relation :=
  if b = byteOf '>' then some .greaterOrEqual
  else if b = byteOf '<' then some .lessOrEqual
  else if b = byteOf '~' then some .approximate
  else none

/-- A chunk of a substring assertion, unless it is empty. -/
def chunk? (bytes : Bytes) : Option Bytes :=
  if bytes.isEmpty then none else some bytes

/-- The substring assertion of the chunks between asterisks. -/
def ofChunks (name : String) (chunks : List Bytes) : SearchFilter :=
  .substring name (chunks.head?.bind chunk?)
    ((chunks.drop 1).dropLast.filter fun chunk => !chunk.isEmpty)
    (chunks.getLast?.bind chunk?)

/-- The item of a name, a relation and the text of an assertion. Approximate equality is plain
equality; an asterisk alone asks for presence. -/
def ofItem (name : String) (relation : Relation) (raw : Bytes) :
    Except FilterSyntax SearchFilter :=
  match relation with
  | .greaterOrEqual => do return .greaterOrEqual name (← unescape raw)
  | .lessOrEqual => do return .lessOrEqual name (← unescape raw)
  | .approximate => do return .equal name (← unescape raw)
  | .equal =>
    if raw = [byteOf '*'] then .ok (.present name)
    else if raw.contains (byteOf '*') then do
      return ofChunks name (← (Text.pieces (byteOf '*') raw).mapM unescape)
    else do return .equal name (← unescape raw)

/-- The attribute name that some bytes spell, without white space around it. -/
def nameOf (total : Nat) (bytes : Bytes) (spelled : Bytes) : Except FilterSyntax String :=
  match Text.decode? spelled with
  | none => .error (.invalidName (position total bytes))
  | some characters =>
    match Text.trim characters with
    | [] => .error (.missingName (position total bytes))
    | name => .ok (String.ofList name)

theorem length_dropWhile_le (p : UInt8 → Bool) (bytes : Bytes) :
    (bytes.dropWhile p).length ≤ bytes.length := by
  induction bytes with
  | nil => simp
  | cons b rest ih =>
    rw [List.dropWhile_cons]
    split
    · simp only [List.length_cons]
      omega
    · simp

/-- Reads the relation of an item, which ends with an equals sign. -/
def relation (total : Nat) : (bytes : Bytes) →
    Except FilterSyntax (Reading Relation bytes.length)
  | [] => .error (.missingOperator (position total []))
  | b :: rest =>
    if b = byteOf '=' then .ok ⟨.equal, rest, Nat.lt_succ_self _⟩
    else
      match relationOf? b with
      | some relation => do
        let equals ← expect total (byteOf '=') rest
        return ⟨relation, equals.rest, Nat.lt_succ_of_lt equals.shorter⟩
      | none => .error (.missingOperator (position total (b :: rest)))

/-- Reads an item up to the bracket after it. -/
def item (total : Nat) (bytes : Bytes) :
    Except FilterSyntax (Reading SearchFilter bytes.length) := do
  let name ← nameOf total bytes (bytes.takeWhile fun b => !endsName b)
  let relation ← relation total (bytes.dropWhile fun b => !endsName b)
  let filter ← ofItem name relation.value (relation.rest.takeWhile fun b => !endsValue b)
  return ⟨filter, relation.rest.dropWhile fun b => !endsValue b, by
    have h1 := relation.shorter
    have h2 := length_dropWhile_le (fun b => !endsName b) bytes
    have h3 := length_dropWhile_le (fun b => !endsValue b) relation.rest
    omega⟩

mutual

/-- Reads a filter in brackets. -/
def bracketed (total : Nat) (bytes : Bytes) :
    Except FilterSyntax (Reading SearchFilter bytes.length) := do
  let opening ← expect total (byteOf '(') bytes
  let inner ← inside total opening.rest
  let closing ← expect total (byteOf ')') inner.rest
  return ⟨inner.value, closing.rest,
    Nat.lt_trans closing.shorter (Nat.lt_trans inner.shorter opening.shorter)⟩
termination_by (bytes.length, 0)
decreasing_by exact Prod.Lex.left _ _ opening.shorter

/-- Reads what stands between brackets. -/
def inside (total : Nat) (bytes : Bytes) :
    Except FilterSyntax (Reading SearchFilter bytes.length) :=
  match bytes with
  | [] => item total []
  | b :: rest =>
    if b = byteOf '&' then do
      let list ← filterList total rest
      return ⟨.and list.value, list.rest, by have := list.shorter; simpa using this⟩
    else if b = byteOf '|' then do
      let list ← filterList total rest
      return ⟨.or list.value, list.rest, by have := list.shorter; simpa using this⟩
    else if b = byteOf '!' then do
      let negated ← bracketed total rest
      return ⟨.not negated.value, negated.rest, by
        have := negated.shorter; simp only [List.length_cons]; omega⟩
    else item total (b :: rest)
termination_by (bytes.length, 2)
decreasing_by all_goals exact Prod.Lex.left _ _ (by simp)

/-- Reads one filter or more. -/
def filterList (total : Nat) (bytes : Bytes) :
    Except FilterSyntax (Reading (List SearchFilter) (bytes.length + 1)) := do
  let filters ← filters total bytes
  if filters.value.isEmpty then throw (.emptyList (position total filters.rest))
  else return filters
termination_by (bytes.length, 2)
decreasing_by exact Prod.Lex.right _ (by decide)

/-- Reads filters as long as there is an opening bracket. -/
def filters (total : Nat) (bytes : Bytes) :
    Except FilterSyntax (Reading (List SearchFilter) (bytes.length + 1)) :=
  match bytes with
  | [] => .ok ⟨[], [], by simp⟩
  | b :: rest =>
    if b = byteOf '(' then do
      let first ← bracketed total (b :: rest)
      let others ← filters total first.rest
      return ⟨first.value :: others.value, others.rest, by
        have h1 := first.shorter
        have h2 := others.shorter
        simp only [List.length_cons] at h1 ⊢
        omega⟩
    else .ok ⟨[], b :: rest, by simp⟩
termination_by (bytes.length, 1)
decreasing_by
  · exact Prod.Lex.right _ (by decide)
  · exact Prod.Lex.left _ _ first.shorter

end

/-- The filter that some bytes spell, all of them. -/
def ofBytes (bytes : Bytes) : Except FilterSyntax SearchFilter := do
  let filter ← bracketed bytes.length bytes
  match filter.rest with
  | [] => return filter.value
  | rest => throw (.trailingInput (position bytes.length rest))

/-- The filter that a text spells. -/
def parse (text : String) : Except DirectoryError SearchFilter :=
  match ofBytes (Text.bytesOf text) with
  | .ok filter => .ok filter
  | .error error => .error (.invalidFilter text (.malformed error))

end SearchFilter

end RowFilter.Directory
