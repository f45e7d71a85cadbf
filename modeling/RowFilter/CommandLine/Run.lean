import RowFilter.CommandLine.Arguments
import RowFilter.Expr.Parser
import RowFilter.Expr.Wire
import RowFilter.Statement.Filter

/-!
# The command line

The program compiles an expression for a backend, merges it with the variables that it is given,
and prints the statement and its parameters.
-/

namespace RowFilter.CommandLine

/-- An error as it is shown: what failed, and each cause with the cause of that after it. -/
structure Report where
  headline : String
  causes : List String := []

namespace Report

/-- A text whose lines after the first are indented. -/
def indented (width : Nat) (text : String) : String :=
  String.ofList (text.toList.flatMap fun c =>
    if c = '\n' then c :: List.replicate width ' ' else [c])

def numbered : Nat → List String → String
  | _, [] => ""
  | number, cause :: rest =>
    let digits := String.ofList (Number.natText number)
    String.ofList (List.replicate (5 - digits.length) ' ') ++ digits ++ ": " ++ indented 7 cause
      ++ "\n" ++ numbered (number + 1) rest

def text (report : Report) : String :=
  "Error: " ++ report.headline ++ "\n" ++
    match report.causes with
    | [] => ""
    | [cause] => "\nCaused by:\n    " ++ indented 4 cause ++ "\n"
    | causes => "\nCaused by:\n" ++ numbered 0 causes

/-- A merge error with the error that caused it. -/
def ofMergeError (error : MergeError) : List String :=
  match error with
  | .notCompiled => [error.message]
  | .evaluation _ cause => [error.message, cause.message]
  | .render cause => [error.message, cause.message]

end Report

/-- What the program prints and the code with which it exits. -/
structure Output where
  exitCode : Nat
  stdout : String
  stderr : String

/-- A single value of a variable. -/
def variableValue (text : String) : Value :=
  if Text.sameIgnoringCase text "null" then .null
  else if text = "true" then .boolean true
  else if text = "false" then .boolean false
  else
    match Value.readNumber? text.toList with
    | some number => number
    | none => .string text

/-- The value of a variable; commas separate the elements of a collection. -/
def parseVariable (text : String) : Value :=
  if text.toList.contains ',' then
    .collection ((Text.piecesOf ',' text).map fun piece => variableValue (Text.trimmed piece))
  else variableValue text

/-- Adds a variable of the form `root.property=value`. -/
def addVariable (roots : Roots) (text : String) : Except Report Roots :=
  match Text.cutAt '=' text with
  | none => .error ⟨"Variable \x27" ++ text ++ "\x27 is not of the form root.property=value", []⟩
  | some (path, value) =>
    match Text.cutAt '.' path with
    | none => .error ⟨"Variable path \x27" ++ path ++ "\x27 needs a root and a property", []⟩
    | some (root, property) =>
      let properties := (Named.get? root roots).getD []
      .ok (Named.insert root (Named.insert property (parseVariable value) properties) roots)

def sortKey (text : String) : Except Report SortKey :=
  match SortKey.parse? text with
  | some key => .ok key
  | none => .error ⟨"Invalid sort key \x27" ++ text ++ "\x27", []⟩

def declareAttribute (schema : Schema) (declaration : String) : Except Report Schema :=
  match Attribute.parse? declaration with
  | some definition => .ok (schema.declare definition)
  | none => .error ⟨"Invalid attribute declaration \x27" ++ declaration ++ "\x27", []⟩

/-- The request that the arguments describe. -/
def buildRequest (arguments : Arguments) : Except Report Request := do
  let roots ← arguments.assignments.foldlM addVariable ([] : Roots)
  let sorting ← arguments.sorting.mapM sortKey
  return {
    resolver := some roots.resolve
    start := arguments.start.getD 0
    count := arguments.count
    sorting }

/-- A parameter as it is shown. -/
def parameterText : Value → String
  | .string s => "\x27" ++ s ++ "\x27"
  | .null => "NULL"
  | value => value.text

/-- The output so far, and how a failure ends it. -/
abbrev Printing := ExceptT Report (StateM String)

def printLine (line : String) : Printing Unit :=
  modify fun printed => printed ++ line ++ "\n"

/-- Goes on with a result, or fails with a headline and causes. -/
def orFail {ε α : Type} (headline : String) (causes : ε → List String) :
    Except ε α → Printing α
  | .ok result => return result
  | .error error => throw ⟨headline, causes error⟩

/-- Compiles, merges and prints. -/
def compileAndPrint (arguments : Arguments) (expression : String) (now : Int64) :
    Printing Unit := do
  let schema ← liftExcept (arguments.attributes.foldlM declareAttribute ([] : Schema))
  let backend := arguments.backend.getD .tabular
  let expr ← orFail "Failed to parse expression" (fun error => [ParseError.message error])
    (Expr.parse .standard expression.toList)
  if arguments.wire then
    let bytes ← orFail "Failed to encode expression" (fun error => [WireError.message error])
      (Wire.encode expr)
    printLine ("wire: " ++ String.ofList (Number.natText bytes.length) ++ " bytes")
  let (filter, failure) := (Filter.new backend schema).compile expr
  if let some error := failure then
    throw ⟨"Failed to compile expression", [error.message]⟩
  let request ← liftExcept (buildRequest arguments)
  let statement ← orFail "Failed to merge filter" Report.ofMergeError (filter.mergeAt now request)
  printLine ("statement: " ++ statement.text)
  printLine ("params: [" ++ ", ".intercalate (statement.parameters.map parameterText) ++ "]")
  if backend = .directory then
    let bound ← orFail "Failed to bind directory filter"
      (fun error => [DirectoryError.message error])
      (Directory.bind statement.text statement.parameters)
    printLine ("filter: " ++ bound)
where
  liftExcept {α : Type} : Except Report α → Printing α
    | .ok result => return result
    | .error report => throw report

def usage : String :=
  "Usage: rowfilter [OPTIONS] <EXPRESSION>\n"

/-- What the program does with its arguments at a time. -/
def run (arguments : List String) (now : Int64) : Output :=
  match Arguments.read {} none arguments with
  | .error .help => ⟨0, usage, ""⟩
  | .error .misuse => ⟨2, "", usage⟩
  | .ok arguments =>
    match arguments.expression with
    | none => ⟨2, "", usage⟩
    | some expression =>
      match (compileAndPrint arguments expression now).run "" with
      | (.ok _, printed) => ⟨0, printed, ""⟩
      | (.error report, printed) => ⟨1, printed, report.text⟩

end RowFilter.CommandLine
