import RowFilter.Expr.Printer
import RowFilter.Request
import RowFilter.Sorting

/-!
# Processing rows

A processor does to the rows found what a backend cannot: it keeps a number of them, sorts them,
or keeps those for which an expression holds. It works on a value, its data.
-/

namespace RowFilter

/-- A row by its properties. -/
abbrev Row := Properties

inductive Processor where
  | limit
  | sort
  | filter (predicate : Expr)

inductive ProcessorFault where
  | invalidThreshold (text : String)
  | invalidSortKey (text : String)
  | evaluation (error : EvalError)
deriving DecidableEq, Repr

inductive ProcessError where
  /-- The data of a processor could not be evaluated. -/
  | data (expression : String) (error : EvalError)
  | failed (processor : String) (fault : ProcessorFault)
deriving DecidableEq, Repr

def ProcessorFault.message : ProcessorFault → String
  | invalidThreshold text => "invalid threshold \x27" ++ text ++ "\x27"
  | invalidSortKey text => "invalid sort key \x27" ++ text ++ "\x27"
  | evaluation error => error.message

def ProcessError.message : ProcessError → String
  | data expression error =>
    "Failed to evaluate post-processor data \x27" ++ expression ++ "\x27: " ++ error.message
  | failed processor fault => "Post-processor " ++ processor ++ " failed: " ++ fault.message

/-- The rows that are left, also after a failure. -/
structure Processed where
  rows : List Row
  failure : Option ProcessError

namespace Row

/-- The order of two values of one property: NULL comes first, and values that do not compare are
level. -/
def compareValues (left right : Value) : Ordering :=
  match left.isNull, right.isNull with
  | true, true => .eq
  | true, false => .lt
  | false, true => .gt
  | false, false => (left.compare? right).getD .eq

def compareKey (key : SortKey) (left right : Row) : Ordering :=
  key.order.apply (compareValues ((Named.get? key.property left).getD .null)
    ((Named.get? key.property right).getD .null))

/-- The order of two rows by the first key under which they differ. -/
def compareKeys : List SortKey → Row → Row → Ordering
  | [], _, _ => .eq
  | key :: rest, left, right => (compareKey key left right).then (compareKeys rest left right)

end Row

/-- Resolves paths of a row under the row root, and of a processor's data under `data`. -/
def rowResolver (row : Row) (data : Value) : Resolver := fun path =>
  let (root, rest) := splitRoot path
  if root = rowRoot then Value.navigate (stepsOf rest) (.object row)
  else if root = "data" then Value.navigate (stepsOf rest) data
  else none

namespace Processor

def name : Processor → String
  | limit => "limit"
  | sort => "sort"
  | filter _ => "expression-filter"

/-- The greatest number of rows that a value asks for; NULL asks for no limit. -/
def threshold (data : Value) : Except ProcessorFault (Option Nat) :=
  match data.coerce? .number with
  | some .null => .ok none
  | some (.integer n) =>
    if 0 ≤ n.toInt then .ok (some n.toInt.toNat) else .error (.invalidThreshold data.text)
  | some (.float x) =>
    match x.compare? .zero with
    | none | some .lt => .error (.invalidThreshold data.text)
    | _ => .ok (some (Number.truncateToCount x))
  | _ => .error (.invalidThreshold data.text)

/-- The sort key that one element of the data spells. -/
def sortKey (spec : Value) : Except ProcessorFault SortKey :=
  match spec.asString?.bind SortKey.parse? with
  | some key => .ok key
  | none => .error (.invalidSortKey spec.text)

def sortKeys (data : Value) : Except ProcessorFault (List SortKey) :=
  data.elements.mapM sortKey

/-- The rows for which a predicate holds. -/
def keepRows (predicate : Expr) (now : Int64) (data : Value) (rows : List Row) :
    Except EvalError (List Row) :=
  rows.filterM fun row => predicate.holds ⟨rowResolver row data, now⟩

/-- Processes rows at a time. A predicate that fails leaves no rows, and data that cannot be used
leave all of them. -/
def process (processor : Processor) (now : Int64) (data : Value) (rows : List Row) : Processed :=
  let failed (fault : ProcessorFault) : Option ProcessError := some (.failed processor.name fault)
  match processor with
  | limit =>
    match threshold data with
    | .ok none => ⟨rows, none⟩
    | .ok (some count) => ⟨rows.take count, none⟩
    | .error fault => ⟨rows, failed fault⟩
  | sort =>
    match sortKeys data with
    | .ok keys => ⟨Sorting.sort (Row.compareKeys keys) rows, none⟩
    | .error fault => ⟨rows, failed fault⟩
  | filter predicate =>
    match keepRows predicate now data rows with
    | .ok kept => ⟨kept, none⟩
    | .error error => ⟨[], failed (.evaluation error)⟩

end Processor

/-- A processor and the expression of its data. -/
structure BoundProcessor where
  processor : Processor
  data : Expr

/-- Processes rows with one processor after another, up to the first that fails. -/
def processRows (request : Request) : List BoundProcessor → List Row → Processed
  | [], rows => ⟨rows, none⟩
  | bound :: rest, rows =>
    match request.evaluate bound.data with
    | .error error => ⟨rows, some (.data bound.data.text error)⟩
    | .ok data =>
      let processed := bound.processor.process request.now data rows
      match processed.failure with
      | some _ => processed
      | none => processRows request rest processed.rows

end RowFilter
