import RowFilter.Directory.Server
import RowFilter.Directory.Pool
import RowFilter.Expr.Parser
import RowFilter.Statement.Filter

/-!
# Running filters against a directory

A statement is bound to its parameters and sent as a search, and the entries of the wanted page
become rows. Entries are read only as far as the page needs them.
-/

namespace RowFilter.Directory

structure DirectoryConfig where
  /-- The name below which searches run. -/
  base : String := ""
  scope : Scope := .subtree
  /-- The property of a row that holds the entry's name. -/
  identity : String := "dn"
  /-- Attributes whose values are raw bytes. -/
  binary : List String := []
  /-- The attributes to fetch when a request names none. -/
  attributes : List String := []
  sizeLimit : Option Nat := none

def DirectoryConfig.isBinary (config : DirectoryConfig) (name : String) : Bool :=
  config.binary.any fun other => Text.sameIgnoringCase other name

/-- Rows of one page. -/
structure QueryResult where
  rows : List Row
  /-- The server stopped at its size limit before the page was full. -/
  truncated : Bool
  /-- The number of entries read, with those before the page. -/
  consumed : Nat

/-- Which phase of a query failed, and how. -/
inductive QueryError where
  | parse (error : ParseError)
  | compile (error : CompileError)
  | merge (error : MergeError)
  | execute (error : DirectoryError)
  | process (error : ProcessError)

namespace QueryError

def phase : QueryError → String
  | parse _ => "parse"
  | compile _ => "compile"
  | merge _ => "merge"
  | execute _ => "execute"
  | process _ => "post-process"

def message : QueryError → String
  | parse error => "Parse error: " ++ error.message
  | compile error => "Compile error: " ++ error.message
  | merge error => "Merge error: " ++ error.message
  | execute error => "Execution error: " ++ error.message
  | process error => "Post-processing error: " ++ error.message

end QueryError

/-- One raw value as a value of a type; text that is none of that type stays text. -/
def decodeRaw (isBinary : Bool) (type : ValueType) (raw : Bytes) : Value :=
  if isBinary then .bytes raw
  else
    match Text.ofBytes? raw with
    | none => .bytes raw
    | some text =>
      match type with
      | .date =>
        match parseGeneralizedTime? text with
        | some seconds => .date seconds
        | none => .string text
      | .number | .boolean => ((Value.string text).coerce? type).getD (.string text)
      | _ => .string text

/-- A single value, or any other number of values as a collection. -/
def ofValues : List Value → Value
  | [value] => value
  | values => .collection values

/-- The property and the value that an attribute of an entry gives a row. -/
def toProperty (config : DirectoryConfig) (schema : Schema) (name : String)
    (values : List Bytes) : String × Value :=
  let declared := schema.byBackendName? name
  let isBinary := config.isBinary name || (declared.map Attribute.isBinary).getD false
  let type := (declared.map Attribute.type).getD .any
  ((declared.map Attribute.name).getD name, ofValues (values.map (decodeRaw isBinary type)))

/-- The row of an entry. Its name goes under the identity property, whatever else is there. -/
def toRow (config : DirectoryConfig) (schema : Schema) (entry : Entry) : Row :=
  let properties := entry.attributes.map fun (name, values) => toProperty config schema name values
  Named.insert config.identity (.string entry.dn) (Named.ofList properties)

/-- The backend's name of a property. -/
def backendName (schema : Schema) (property : String) : String :=
  ((Named.get? property schema).map Attribute.backendName).getD property

/-- The greatest number that a size limit can be. -/
def greatestLimit : Nat := 18446744073709551615

/-- The number of entries that a page needs. No limit is sent for an empty page. -/
def pageLimit (request : Request) : Option Nat :=
  match request.count with
  | some (count + 1) => some (min (request.start + (count + 1)) greatestLimit)
  | _ => none

/-- The search that a statement stands for. -/
def searchRequest (config : DirectoryConfig) (schema : Schema) (request : Request)
    (statement : Statement) : Except DirectoryError SearchRequest := do
  let filter ← bind statement.text statement.parameters
  let wanted := if request.attributes.isEmpty then config.attributes else request.attributes
  return {
    base := config.base
    scope := config.scope
    filter
    attributes := wanted.map (backendName schema)
    sort := request.sorting.map fun key => ⟨backendName schema key.property, key.order⟩
    sizeLimit := smallerLimit config.sizeLimit (pageLimit request) }

/-- A page that is being read. -/
structure Page where
  entries : List Entry
  consumed : Nat
  truncated : Bool

/-- Reads entries up to a full page, an error or the end. `skip` entries come before the page, and
`room` is left in it, if it is bounded. -/
def readPage : (skip : Nat) → (room : Option Nat) → EntryStream → Except DirectoryError Page
  | _, _, [] => .ok ⟨[], 0, false⟩
  | _, _, .error .sizeLimitExceeded :: _ => .ok ⟨[], 0, true⟩
  | _, _, .error error :: _ => .error error
  | skip + 1, room, .ok _ :: rest => do
    let page ← readPage skip room rest
    return { page with consumed := page.consumed + 1 }
  | 0, some room, .ok entry :: rest =>
    if room ≤ 1 then .ok ⟨[entry], 1, false⟩
    else do
      let page ← readPage 0 (some (room - 1)) rest
      return { page with entries := entry :: page.entries, consumed := page.consumed + 1 }
  | 0, none, .ok entry :: rest => do
    let page ← readPage 0 none rest
    return { page with entries := entry :: page.entries, consumed := page.consumed + 1 }

/-- The rows of the page that a request wants of a stream. -/
def collect (config : DirectoryConfig) (schema : Schema) (request : Request)
    (stream : EntryStream) : Except DirectoryError QueryResult := do
  let page ← readPage request.start request.count stream
  return ⟨page.entries.map (toRow config schema), page.truncated, page.consumed⟩

/-- A server as its connections show it. -/
structure Endpoint where
  /-- Whether a connection can be opened. -/
  connect : Except DirectoryError Unit
  search : SearchRequest → Except DirectoryError EntryStream
  /-- Whether a connection can be used again after a search. -/
  isValid : Bool

/-- What running a statement leaves behind. -/
structure Run (ε : Type) where
  outcome : Except ε QueryResult
  pool : Pool
  /-- The search that was sent, if it came to that. -/
  sent : Option SearchRequest

/-- Where searches run and how entries become rows. -/
structure Executor where
  config : DirectoryConfig
  schema : Schema
  poolConfig : PoolConfig

namespace Executor

/-- Runs a statement. An empty page needs no connection, and the connection that is used is given
back whatever the search gives. -/
def execute (executor : Executor) (endpoint : Endpoint) (request : Request)
    (statement : Statement) (pool : Pool) : Run DirectoryError :=
  match searchRequest executor.config executor.schema request statement with
  | .error error => ⟨.error error, pool, none⟩
  | .ok search =>
    if request.count = some 0 then ⟨.ok ⟨[], false, 0⟩, pool, none⟩
    else
      match pool.checkout executor.poolConfig endpoint.connect with
      | (.error error, rest) => ⟨.error error, rest, none⟩
      | (.ok connection, rest) =>
        let outcome := do
          let stream ← endpoint.search search
          collect executor.config executor.schema request stream
        ⟨outcome, rest.release connection endpoint.isValid, some search⟩

/-- Merges a filter, runs it and processes the rows. -/
def query (executor : Executor) (endpoint : Endpoint) (filter : Filter) (request : Request)
    (pool : Pool) : Run QueryError :=
  match filter.merge request with
  | .error error => ⟨.error (.merge error), pool, none⟩
  | .ok statement =>
    let run := executor.execute endpoint request statement pool
    let outcome : Except QueryError QueryResult :=
      match run.outcome with
      | .error error => .error (.execute error)
      | .ok result =>
        let processed := filter.process request result.rows
        match processed.failure with
        | some error => .error (.process error)
        | none => .ok { result with rows := processed.rows }
    ⟨outcome, run.pool, run.sent⟩

/-- Compiles a text into a filter. -/
def prepare (filter : Filter) (code : String) : Except QueryError Filter := do
  match Expr.parse .standard code.toList with
  | .error error => throw (.parse error)
  | .ok expr =>
    match filter.compile expr with
    | (compiled, none) => return compiled
    | (_, some error) => throw (.compile error)

/-- Runs the filter of a text, or a filter as it is without one. -/
def queryText (executor : Executor) (endpoint : Endpoint) (filter : Filter)
    (code : Option String) (request : Request) (pool : Pool) : Run QueryError :=
  let prepared := match code with
    | some code => prepare filter code
    | none => .ok filter
  match prepared with
  | .error error => ⟨.error error, pool, none⟩
  | .ok compiled => executor.query endpoint compiled request pool

end Executor

end RowFilter.Directory
