import RowFilter.Request
import RowFilter.Statement.Error

/-!
# Parts of a statement

A part is a sequence of texts with the parameters that they refer to, nested parts, and deferred
parts that are generated for a request. Merging lays all of it out in order, so the parameters
stay in the order of the text that refers to them.
-/

namespace RowFilter

inductive PartItem where
  | text (text : String) (parameters : List Value)
  | nested (items : List PartItem)
  | deferred (generate : Request → Except MergeError (List PartItem))

abbrev Part := List PartItem

/-- A statement and its parameters for one request. -/
structure Statement where
  text : String
  parameters : List Value

namespace Statement

def empty : Statement := ⟨"", []⟩

def append (first second : Statement) : Statement :=
  ⟨first.text ++ second.text, first.parameters ++ second.parameters⟩

end Statement

namespace Part

/-- A part of one text with the parameters that it refers to. -/
def ofText (text : String) (parameters : List Value) : Part :=
  [.text text parameters]

/-- Adds text at the end; it becomes one item with a text that is there. -/
def pushText (text : String) (parameters : List Value) : Part → Part
  | [] => [.text text parameters]
  | [.text last lastParameters] => [.text (last ++ text) (lastParameters ++ parameters)]
  | item :: rest => item :: pushText text parameters rest

def pushDeferred (generate : Request → Except MergeError Part) (part : Part) : Part :=
  part ++ [.deferred generate]

/-- Adds text without parameters. -/
def thenText (part : Part) (text : String) : Part :=
  part.pushText text []

/-- Adds a nested part. -/
def thenPart (part inner : Part) : Part :=
  part ++ [.nested inner]

/-- A part that starts with text without parameters. -/
def startingWith (text : String) : Part :=
  ofText text []

/-- Parts with a text between any two, after what there is. -/
def thenJoined (part : Part) (separator : String) : List Part → Part
  | [] => part
  | [last] => part.thenPart last
  | next :: rest => ((part.thenPart next).thenText separator).thenJoined separator rest

mutual

/-- Whether merging depends on the request. -/
def isDeferred : Part → Bool
  | [] => false
  | item :: rest => itemIsDeferred item || isDeferred rest

def itemIsDeferred : PartItem → Bool
  | .text _ _ => false
  | .nested items => isDeferred items
  | .deferred _ => true

end

mutual

/-- The statement of a part for a request, with nested and deferred parts in their places. -/
def merge (request : Request) : Part → Except MergeError Statement
  | [] => .ok .empty
  | item :: rest => do
    let first ← mergeItem request item
    let second ← merge request rest
    return first.append second

def mergeItem (request : Request) : PartItem → Except MergeError Statement
  | .text text parameters => .ok ⟨text, parameters⟩
  | .nested items => merge request items
  | .deferred generate => mergeGenerated request (generate request)

def mergeGenerated (request : Request) : Except MergeError (List PartItem) →
    Except MergeError Statement
  | .ok items => merge request items
  | .error error => .error error

end

end Part

end RowFilter
