import RowFilter.Request
import RowFilter.Text.Utf8

/-!
# Entries

An entry of a directory has a distinguished name and attributes, each with any number of raw
values. Attribute names are found in any ASCII case.
-/

namespace RowFilter.Directory

structure Entry where
  dn : String
  attributes : Named (List Bytes) := []
deriving Repr

/-- The values of an attribute, if the entry has it. -/
def Entry.values? (entry : Entry) (name : String) : Option (List Bytes) :=
  (entry.attributes.find? fun (other, _) => Text.sameIgnoringCase other name).map Prod.snd

/-- How far below its base a search goes. -/
inductive Scope where
  | base | oneLevel | subtree
deriving DecidableEq, Repr

/-- A search as it is sent to a server. -/
structure SearchRequest where
  base : String
  scope : Scope
  filter : String
  /-- The attributes to return; none means all. -/
  attributes : List String
  sort : List SortKey
  sizeLimit : Option Nat
deriving Repr

end RowFilter.Directory
