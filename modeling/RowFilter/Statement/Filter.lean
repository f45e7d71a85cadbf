import RowFilter.Rows.Processor
import RowFilter.Statement.Compilation

/-!
# Filters

A filter holds an expression compiled for a backend, what its paths resolve to besides a request's
own values, and the processors of its rows. Paths are looked up in a custom resolver if one is set
and among the base objects otherwise, and in the request's resolver after that.
-/

namespace RowFilter

structure Filter where
  backend : Backend
  schema : Schema
  bases : Roots := []
  custom : Option Resolver := none
  /-- The compiled expression. -/
  root : Option Part := none
  processors : List BoundProcessor := []
  /-- The text of the expression that was compiled last. -/
  expression : String := ""

namespace Filter

/-- A filter that holds nothing yet. -/
def new (backend : Backend) (schema : Schema) : Filter :=
  { backend, schema }

def dialect (filter : Filter) : Dialect :=
  filter.backend.dialect

def error (filter : Filter) (fault : CompileFault) : CompileError :=
  ⟨filter.dialect.name, filter.expression, fault⟩

/-- A result with the filter's backend and expression added to a fault. -/
def attempt {α : Type} (filter : Filter) : Except CompileFault α → Except CompileError α
  | .ok result => .ok result
  | .error fault => .error (filter.error fault)

/-- Compiles an expression for a backend. -/
def compilePart (backend : Backend) (schema : Schema) (expr : Expr) : Rendering := do
  let compiler : Compiler := ⟨backend.dialect, schema, expr.text⟩
  compiler.condition (← compiler.compile expr)

/-- Compiles an expression in place of any earlier one. After an error the filter holds none. -/
def compile (filter : Filter) (expr : Expr) : Filter × Option CompileError :=
  match compilePart filter.backend filter.schema expr with
  | .ok part => ({ filter with root := some part, expression := expr.text }, none)
  | .error fault =>
    let cleared := { filter with root := none, expression := expr.text }
    (cleared, some (cleared.error fault))

/-- Gives a base object its name and returns the one that had it. The row root is reserved. -/
def addBase (filter : Filter) (name : String) (object : Properties) :
    Except CompileError (Filter × Option Properties) :=
  if name = rowRoot then .error (filter.error (.reservedName name))
  else .ok ({ filter with bases := Named.insert name object filter.bases },
    Named.get? name filter.bases)

/-- Sets the resolver that stands in for the base objects, or with `none` turns back to them. -/
def setCustom (filter : Filter) (resolver : Option Resolver) : Filter :=
  { filter with custom := resolver }

def addProcessor (filter : Filter) (processor : Processor) (data : Expr) : Filter :=
  { filter with processors := filter.processors ++ [⟨processor, data⟩] }

/-- The resolver that comes before the request's own. -/
def ownResolver (filter : Filter) : Resolver :=
  filter.custom.getD filter.bases.resolve

def resolverFor (filter : Filter) (request : Request) : Resolver := fun path =>
  match filter.ownResolver path with
  | some value => some value
  | none => request.resolver.bind fun resolver => resolver path

/-- The request with the filter's resolution of paths. -/
def bindRequest (filter : Filter) (request : Request) : Request :=
  request.rebind (filter.resolverFor request)

def merge (filter : Filter) (request : Request) : Except MergeError Statement :=
  match filter.root with
  | none => .error .notCompiled
  | some part => part.merge (filter.bindRequest request)

/-- Merges for a request when the clock shows a time. -/
def mergeAt (filter : Filter) (clock : Int64) (request : Request) : Except MergeError Statement :=
  filter.merge (request.atTime clock)

def process (filter : Filter) (request : Request) (rows : List Row) : Processed :=
  processRows (filter.bindRequest request) filter.processors rows

/-- The attribute that a row path names. -/
def resolveAttribute (filter : Filter) (path : String) (expected : ValueType) :
    Except CompileError Attribute :=
  filter.attempt (filter.schema.resolve path expected)

/-- The attribute of a name or of a row path. -/
def attributeNamed (filter : Filter) (name : String) : Except CompileError Attribute :=
  filter.resolveAttribute (if isRowPath name then name else rowRoot ++ "." ++ name) .any

/-- A literal in a place of some type. -/
def literalPart (filter : Filter) (value : Value) (expected : ValueType) :
    Except CompileError Part :=
  filter.attempt (filter.dialect.literal value expected)

end Filter

end RowFilter
