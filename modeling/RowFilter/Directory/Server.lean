import RowFilter.Directory.FilterText
import RowFilter.Sorting

/-!
# Directory servers

A server answers a search with a stream of entries: those in scope that the filter selects, sorted
and cut to the attributes asked for. A size limit ends the stream with an error.
-/

namespace RowFilter.Directory

/-- A distinguished name in the form under which names compare. -/
def normalizeDn (dn : List Char) : List Char :=
  [','].intercalate ((Text.pieces ',' dn).map fun rdn => Text.lower (Text.trim rdn))

/-- What stands before a comma and the base in a name, if the name ends with them. -/
def childPart? (dn base : List Char) : Option (List Char) :=
  match List.isSuffixOf? base dn with
  | none => none
  | some before =>
    match before.reverse with
    | ',' :: reversed => some reversed.reverse
    | _ => none

/-- Whether a name lies within a scope under a base. The base without a name is above all names of
one component. -/
def inScope (scope : Scope) (base dn : String) : Bool :=
  let dn := normalizeDn dn.toList
  let base := normalizeDn base.toList
  if base.isEmpty then
    match scope with
    | .base => dn.isEmpty
    | .oneLevel => !dn.isEmpty && !dn.contains ','
    | .subtree => true
  else
    match scope with
    | .base => dn == base
    | .oneLevel =>
      match childPart? dn base with
      | some rdn => !rdn.contains ','
      | none => false
    | .subtree => dn == base || (childPart? dn base).isSome

/-- The order of two entries under one key; one without a value comes after one with. -/
def compareEntriesBy (key : SortKey) (left right : Entry) : Ordering :=
  let first (entry : Entry) : Option Bytes := (entry.values? key.property).bind List.head?
  key.order.apply (match first left, first right with
    | some a, some b => compareRaw a b
    | some _, none => .lt
    | none, some _ => .gt
    | none, none => .eq)

/-- The order of two entries by the first key under which they differ. -/
def compareEntries : List SortKey → Entry → Entry → Ordering
  | [], _, _ => .eq
  | key :: rest, left, right =>
    (compareEntriesBy key left right).then (compareEntries rest left right)

/-- An entry with only the wanted attributes. -/
def Entry.project (wanted : List String) (entry : Entry) : Entry :=
  { entry with
    attributes := entry.attributes.filter fun (name, _) =>
      wanted.any fun other => Text.sameIgnoringCase other name }

/-- The smaller of two limits, where either may be missing. -/
def smallerLimit : Option Nat → Option Nat → Option Nat
  | some a, some b => some (min a b)
  | some a, none => some a
  | none, limit => limit

/-- The items of a search result, in order; an error ends it. -/
abbrev EntryStream := List (Except DirectoryError Entry)

structure Server where
  entries : List Entry
  sizeLimit : Option Nat := none

namespace Server

def add (server : Server) (entry : Entry) : Server :=
  { server with entries := server.entries ++ [entry] }

/-- The entries that a search selects, sorted and projected, before any limit. The values that it
sorts by need not be in any order, and then the place of an entry is left open as in
`Sorting.sort`. -/
def select (server : Server) (filter : SearchFilter) (request : SearchRequest) : List Entry :=
  let found := server.entries.filter fun entry =>
    inScope request.scope request.base entry.dn && filter.selects entry
  let sorted :=
    if request.sort.isEmpty then found
    else Sorting.sort (compareEntries request.sort) found
  if request.attributes.isEmpty then sorted else sorted.map (Entry.project request.attributes)

/-- Cuts a result at a limit, with an error where it was cut. -/
def streamOf (limit : Option Nat) (entries : List Entry) : EntryStream :=
  match limit with
  | none => entries.map .ok
  | some limit =>
    if limit < entries.length then
      (entries.take limit).map .ok ++ [.error .sizeLimitExceeded]
    else entries.map .ok

def search (server : Server) (request : SearchRequest) : Except DirectoryError EntryStream := do
  let filter ← SearchFilter.parse request.filter
  return streamOf (smallerLimit server.sizeLimit request.sizeLimit) (server.select filter request)

end Server

end RowFilter.Directory
