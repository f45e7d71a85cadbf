import RowFilter.Directory.Executor

/-! # Attributes as properties

A directory takes the names of attributes in any case. An attribute of an entry becomes the
property of the declared attribute that it stands for, with a value of its type, and keeps its own
name if there is none.
-/

namespace RowFilter

open Text

namespace Directory

/-! ## Names in any case -/

/-- Names are the same exactly if their letters are when case is ignored. -/
theorem sameIgnoringCase_iff {a b : String} :
    sameIgnoringCase a b = true ↔ a.toList.map Char.toLower = b.toList.map Char.toLower := by
  rw [sameIgnoringCase, beq_iff_eq]

theorem sameIgnoringCase_comm (a b : String) : sameIgnoringCase a b = sameIgnoringCase b a := by
  rw [Bool.eq_iff_iff, sameIgnoringCase_iff, sameIgnoringCase_iff]
  exact eq_comm

/-- Names that are the same in any case are the same as any third name or neither is. -/
theorem sameIgnoringCase_congr {a b : String} (h : sameIgnoringCase a b = true) (c : String) :
    sameIgnoringCase a c = sameIgnoringCase b c := by
  rw [Bool.eq_iff_iff, sameIgnoringCase_iff, sameIgnoringCase_iff, sameIgnoringCase_iff.mp h]

/-- At most one of some names that differ is the same as a name. -/
theorem find?_sameIgnoringCase {α : Type} {nameOf : α → String} {items : List α}
    (hdistinct : items.Pairwise fun a b => sameIgnoringCase (nameOf a) (nameOf b) = false)
    {item : α} (hmem : item ∈ items) {name : String}
    (hname : sameIgnoringCase (nameOf item) name = true) :
    items.find? (fun other => sameIgnoringCase (nameOf other) name) = some item := by
  induction items with
  | nil => cases hmem
  | cons first rest ih =>
      rw [List.pairwise_cons] at hdistinct
      rcases List.mem_cons.mp hmem with rfl | hrest
      · simp [hname]
      · have hfirst : sameIgnoringCase (nameOf first) name = false := by
          rw [sameIgnoringCase_comm, ← sameIgnoringCase_congr hname, sameIgnoringCase_comm]
          exact hdistinct.1 item hrest
        rw [List.find?_cons_of_neg (by simp [hfirst])]
        exact ih hdistinct.2 hrest

theorem isBinary_congr (config : DirectoryConfig) {a b : String}
    (h : sameIgnoringCase a b = true) : config.isBinary a = config.isBinary b := by
  have hsame : ∀ other, sameIgnoringCase other a = sameIgnoringCase other b := by
    intro other
    rw [sameIgnoringCase_comm other a, sameIgnoringCase_comm other b, sameIgnoringCase_congr h]
  simp only [DirectoryConfig.isBinary, hsame]

end Directory

namespace Schema

variable {schema : Schema} {attr : Attribute} {name : String}

/-- Whether the backend names of a schema differ in more than their case. -/
def DistinctBackendNames (schema : Schema) : Prop :=
  schema.Pairwise fun a b => sameIgnoringCase a.2.backendName b.2.backendName = false

instance (schema : Schema) : Decidable schema.DistinctBackendNames :=
  inferInstanceAs (Decidable (List.Pairwise _ _))

/-- An attribute is found by its backend name if no other has it. -/
theorem byBackendName?_of_mem (h : schema.DistinctBackendNames) (hattr : attr ∈ schema.map Prod.snd)
    (hname : sameIgnoringCase attr.backendName name = true) :
    schema.byBackendName? name = some attr :=
  Directory.find?_sameIgnoringCase (List.pairwise_map.mpr h) hattr hname

theorem sameIgnoringCase_of_byBackendName? (h : schema.byBackendName? name = some attr) :
    sameIgnoringCase attr.backendName name = true := by
  obtain ⟨hname, -⟩ := List.find?_eq_some_iff_append.mp h
  exact hname

end Schema

namespace Directory

/-! ## Properties -/

/-- The value that raw values of an attribute stand for. -/
def decodeAll (config : DirectoryConfig) (name : String) (isBinary : Bool) (type : ValueType)
    (values : List Bytes) : Value :=
  ofValues (values.map (decodeRaw (config.isBinary name || isBinary) type))

/-- The value of an attribute that is declared. -/
def decodeDeclared (config : DirectoryConfig) (attr : Attribute) (values : List Bytes) : Value :=
  decodeAll config attr.backendName attr.isBinary attr.type values

/-- The value of an attribute that is not declared, whose type is not known. -/
def decodeUndeclared (config : DirectoryConfig) (name : String) (values : List Bytes) : Value :=
  decodeAll config name false .any values

variable {schema : Schema} {attr : Attribute} {name : String}

theorem toProperty_of_undeclared (config : DirectoryConfig) (values : List Bytes)
    (h : schema.byBackendName? name = none) :
    toProperty config schema name values = (name, decodeUndeclared config name values) := by
  simp only [toProperty, h, decodeUndeclared, decodeAll, Option.map_none, Option.getD_none]

/-- A declared attribute is shown under its own name, decoded by its own type. -/
theorem toProperty_of_declared (config : DirectoryConfig) (values : List Bytes)
    (h : schema.byBackendName? name = some attr) :
    toProperty config schema name values = (attr.name, decodeDeclared config attr values) := by
  have hbinary := isBinary_congr config (Schema.sameIgnoringCase_of_byBackendName? h)
  simp only [toProperty, h, decodeDeclared, decodeAll, Option.map_some, Option.getD_some, hbinary]

end Directory

end RowFilter
