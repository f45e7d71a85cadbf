import RowFilter.Directory.Entry
import RowFilter.Number.Decimal
import RowFilter.Truth

/-!
# Search filters

A search filter selects entries by three-valued truth: an assertion about an attribute that an
entry lacks is unknown. Values compare as integers if both are, else as numbers if both are, and
otherwise as text in any case.
-/

namespace RowFilter.Directory

inductive SearchFilter where
  | and (filters : List SearchFilter)
  | or (filters : List SearchFilter)
  | not (filter : SearchFilter)
  | equal (name : String) (assertion : Bytes)
  | greaterOrEqual (name : String) (assertion : Bytes)
  | lessOrEqual (name : String) (assertion : Bytes)
  | present (name : String)
  | substring (name : String) (initial : Option Bytes) (middle : List Bytes) (final : Option Bytes)
deriving Repr

/-- The order of two texts as numbers, if both are numbers that compare. -/
def compareNumbers? (left right : List Char) : Option Ordering :=
  match Number.readInt64? (Text.trim left), Number.readInt64? (Text.trim right) with
  | some a, some b => some (compare a.toInt b.toInt)
  | _, _ =>
    match Number.readFloat? (Text.trim left), Number.readFloat? (Text.trim right) with
    | some x, some y => x.compare? y
    | _, _ => none

/-- The order of two values of an attribute. -/
def compareRaw (left right : Bytes) : Ordering :=
  let leftText := Text.decodeLossy left
  let rightText := Text.decodeLossy right
  match compareNumbers? leftText rightText with
  | some ordering => ordering
  | none => compare (Text.lower leftText) (Text.lower rightText)

/-- What follows the first occurrence of a chunk. -/
def dropThrough? (chunk : List Char) : List Char → Option (List Char)
  | [] => if chunk.isEmpty then some [] else none
  | c :: rest =>
    match List.isPrefixOf? chunk (c :: rest) with
    | some after => some after
    | none => dropThrough? chunk rest

/-- The text of raw bytes in lower case. -/
def foldedText (bytes : Bytes) : List Char :=
  Text.lower (Text.decodeLossy bytes)

/-- Whether a text contains chunks one after another and then ends with the last. -/
def containsInOrder (final : Option Bytes) : List Bytes → List Char → Bool
  | [], text =>
    match final with
    | some chunk => (foldedText chunk).isSuffixOf text
    | none => true
  | chunk :: rest, text =>
    match dropThrough? (foldedText chunk) text with
    | some after => containsInOrder final rest after
    | none => false

def substringMatches (initial : Option Bytes) (middle : List Bytes) (final : Option Bytes)
    (value : Bytes) : Bool :=
  match initial with
  | none => containsInOrder final middle (foldedText value)
  | some chunk =>
    match List.isPrefixOf? (foldedText chunk) (foldedText value) with
    | some after => containsInOrder final middle after
    | none => false

/-- Whether some value of an attribute passes a test; unknown if the entry has no value of it. -/
def anyValue (entry : Entry) (name : String) (test : Bytes → Bool) : Truth :=
  match entry.values? name with
  | some (value :: rest) => some ((value :: rest).any test)
  | _ => none

/-- Whether an entry has a value of an attribute. Every entry has an object class. -/
def isPresent (entry : Entry) (name : String) : Bool :=
  Text.sameIgnoringCase name "objectClass" ||
    match entry.values? name with
    | some values => !values.isEmpty
    | none => false

namespace SearchFilter

mutual

def evaluate (entry : Entry) : SearchFilter → Truth
  | and filters => Truth.joinAll false (evaluateAll entry filters)
  | or filters => Truth.joinAll true (evaluateAll entry filters)
  | not filter => (evaluate entry filter).negate
  | equal name assertion => anyValue entry name fun value => compareRaw value assertion == .eq
  | greaterOrEqual name assertion =>
    anyValue entry name fun value => (compareRaw value assertion).isGE
  | lessOrEqual name assertion => anyValue entry name fun value => (compareRaw value assertion).isLE
  | present name => some (isPresent entry name)
  | substring name initial middle final =>
    anyValue entry name (substringMatches initial middle final)

def evaluateAll (entry : Entry) : List SearchFilter → List Truth
  | [] => []
  | filter :: rest => evaluate entry filter :: evaluateAll entry rest

end

theorem evaluateAll_eq_map (entry : Entry) (filters : List SearchFilter) :
    evaluateAll entry filters = filters.map (evaluate entry) := by
  induction filters with
  | nil => rw [evaluateAll, List.map_nil]
  | cons filter rest ih => rw [evaluateAll, List.map_cons, ih]

/-- A conjunction joins what its filters evaluate to, and falsehood decides it. -/
theorem evaluate_and (entry : Entry) (filters : List SearchFilter) :
    evaluate entry (and filters) = Truth.joinAll false (filters.map (evaluate entry)) := by
  rw [evaluate, evaluateAll_eq_map]

/-- A disjunction joins what its filters evaluate to, and truth decides it. -/
theorem evaluate_or (entry : Entry) (filters : List SearchFilter) :
    evaluate entry (or filters) = Truth.joinAll true (filters.map (evaluate entry)) := by
  rw [evaluate, evaluateAll_eq_map]

theorem evaluate_not (entry : Entry) (filter : SearchFilter) :
    evaluate entry (not filter) = (evaluate entry filter).negate := by
  rw [evaluate]

theorem evaluate_present (entry : Entry) (name : String) :
    evaluate entry (present name) = some (isPresent entry name) := by
  rw [evaluate]

/-- Whether a filter selects an entry: an unknown result does not. -/
def selects (filter : SearchFilter) (entry : Entry) : Bool :=
  filter.evaluate entry == some true

end SearchFilter

end RowFilter.Directory
