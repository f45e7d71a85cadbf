import RowFilter.Number.Integer
import RowFilter.Statement.Compilation

/-!
# Arguments of the command line

One argument is the expression; the others are options. A long option takes its value after an
equals sign or from the next argument, and short ones may stand together after one dash. What
looks like an option is never the value of one. After two dashes nothing is an option.
-/

namespace RowFilter.CommandLine

structure Arguments where
  expression : Option String := none
  backend : Option Backend := none
  /-- Attribute declarations. -/
  attributes : List String := []
  /-- Variables of the request. -/
  assignments : List String := []
  start : Option Nat := none
  count : Option Nat := none
  sorting : List String := []
  wire : Bool := false
  debug : Bool := false

/-- Why the arguments do not ask for a compilation. -/
inductive Refusal where
  | misuse
  /-- The user asks what the program is. -/
  | help
deriving DecidableEq, Repr

/-- An option that takes a value. -/
inductive Setting where
  | backend | attr | var | start | count | sort
deriving DecidableEq, Repr

/-- An option that takes none. -/
inductive Switch where
  | wire | debug | help
deriving DecidableEq, Repr

def longSetting? : String → Option Setting
  | "backend" => some .backend
  | "attribute" => some .attr
  | "var" => some .var
  | "start" => some .start
  | "count" => some .count
  | "sort" => some .sort
  | _ => none

def longSwitch? : String → Option Switch
  | "wire" => some .wire
  | "debug" => some .debug
  | "help" | "version" => some .help
  | _ => none

def shortSetting? : Char → Option Setting
  | 'b' => some .backend
  | 'a' => some .attr
  | 'v' => some .var
  | 's' => some .sort
  | _ => none

def shortSwitch? : Char → Option Switch
  | 'd' => some .debug
  | 'h' | 'V' => some .help
  | _ => none

def backend? : String → Option Backend
  | "tabular" => some .tabular
  | "directory" => some .directory
  | _ => none

namespace Arguments

/-- Sets something that may be set once. -/
def once {α : Type} (current : Option α) (value : Option α) : Except Refusal (Option α) :=
  match current, value with
  | none, some value => .ok (some value)
  | _, _ => .error .misuse

def set (arguments : Arguments) (setting : Setting) (value : String) :
    Except Refusal Arguments :=
  match setting with
  | .backend => do
    return { arguments with backend := ← once arguments.backend (backend? value) }
  | .attr => .ok { arguments with attributes := arguments.attributes ++ [value] }
  | .var => .ok { arguments with assignments := arguments.assignments ++ [value] }
  | .start => do
    return { arguments with start := ← once arguments.start (Number.readCount? value.toList) }
  | .count => do
    return { arguments with count := ← once arguments.count (Number.readCount? value.toList) }
  | .sort => .ok { arguments with sorting := arguments.sorting ++ [value] }

def turnOn (arguments : Arguments) (switch : Switch) : Except Refusal Arguments :=
  match switch with
  | .wire => if arguments.wire then .error .misuse else .ok { arguments with wire := true }
  | .debug => if arguments.debug then .error .misuse else .ok { arguments with debug := true }
  | .help => .error .help

def setExpression (arguments : Arguments) (text : String) : Except Refusal Arguments := do
  return { arguments with expression := ← once arguments.expression (some text) }

/-- Whether an argument is read as an option: a dash and more. -/
def isOption (argument : String) : Bool :=
  match argument.toList with
  | '-' :: _ :: _ => true
  | _ => false

/-- What is left to do after the letters of an argument. -/
inductive Cluster where
  | finished (arguments : Arguments)
  /-- The last option takes its value from the next argument. -/
  | wants (arguments : Arguments) (setting : Setting)

/-- Reads the letters after one dash. What follows an option that takes a value is its value, with
an equals sign before it or without. -/
def readCluster (arguments : Arguments) : List Char → Except Refusal Cluster
  | [] => .ok (.finished arguments)
  | c :: rest =>
    match shortSetting? c with
    | some setting =>
      match rest with
      | [] => .ok (.wants arguments setting)
      | '=' :: value => do
        return .finished (← arguments.set setting (String.ofList value))
      | value => do
        return .finished (← arguments.set setting (String.ofList value))
    | none =>
      match shortSwitch? c with
      | some switch => do
        let arguments ← arguments.turnOn switch
        arguments.readCluster rest
      | none => .error .misuse

/-- Reads the name after two dashes, and the value after an equals sign. -/
def readLong (arguments : Arguments) (text : List Char) : Except Refusal Cluster :=
  match Text.cutOnce '=' text with
  | some (name, value) =>
    match longSetting? (String.ofList name) with
    | some setting => do
      return .finished (← arguments.set setting (String.ofList value))
    | none => .error .misuse
  | none =>
    match longSetting? (String.ofList text), longSwitch? (String.ofList text) with
    | some setting, _ => .ok (.wants arguments setting)
    | none, some switch => do
      return .finished (← arguments.turnOn switch)
    | none, none => .error .misuse

/-- Reads arguments one after another; an option without a value is followed by it. -/
def read (arguments : Arguments) (pending : Option Setting) : List String →
    Except Refusal Arguments
  | [] => if pending.isSome then .error .misuse else .ok arguments
  | argument :: rest =>
    match pending with
    | some setting =>
      if isOption argument then .error .misuse
      else do
        let arguments ← arguments.set setting argument
        arguments.read none rest
    | none =>
      match argument.toList with
      | ['-', '-'] => rest.foldlM setExpression arguments
      | '-' :: '-' :: text => do
        match ← arguments.readLong text with
        | .finished arguments => arguments.read none rest
        | .wants arguments setting => arguments.read (some setting) rest
      | '-' :: c :: text => do
        match ← arguments.readCluster (c :: text) with
        | .finished arguments => arguments.read none rest
        | .wants arguments setting => arguments.read (some setting) rest
      | _ => do
        let arguments ← arguments.setExpression argument
        arguments.read none rest

end Arguments

end RowFilter.CommandLine
