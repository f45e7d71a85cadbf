import RowFilter.Proofs.Directory.Denotation
import RowFilter.Proofs.Directory.Property
import RowFilter.Proofs.Number.DecimalText

/-! # Rows of integers

An entry whose attributes hold one integer each becomes a row of these integers, and the server
reads the same integers from it.
-/

namespace RowFilter

open Text

/-- The path of an attribute of the row. -/
def Attribute.rowPath (attr : Attribute) : String :=
  rowRoot ++ "." ++ attr.name

/-- An integer, or NULL for none. -/
def Value.ofInteger? : Option Int64 → Value
  | some n => .integer n
  | none => .null

namespace Directory

/-- Attributes of numbers under names of their own, for rows of a directory. -/
structure NumberAttributes (config : DirectoryConfig) (attributes : List Attribute) : Prop where
  number : ∀ attr ∈ attributes, attr.type = .number
  notBinary : ∀ attr ∈ attributes,
    attr.isBinary = false ∧ config.isBinary attr.backendName = false
  named : ∀ attr ∈ attributes,
    attr.name ≠ "" ∧ '.' ∉ attr.name.toList ∧ attr.name ≠ config.identity
  plain : ∀ attr ∈ attributes, IsPlainName attr.backendName
  names : (attributes.map Attribute.name).Nodup
  backendNames : attributes.Pairwise fun a b =>
    sameIgnoringCase a.backendName b.backendName = false

/-- The decimal text of an integer as a raw value. -/
def rawInteger (n : Int64) : Bytes :=
  encode (Number.intText n.toInt)

/-- An entry with one integer for each of some of the attributes, and nothing else. -/
structure IntegerEntry (attributes : List Attribute) (entry : Entry) : Prop where
  declared : ∀ item ∈ entry.attributes,
    ∃ attr ∈ attributes, sameIgnoringCase item.1 attr.backendName = true
  single : ∀ item ∈ entry.attributes, ∃ n : Int64, item.2 = [rawInteger n]
  distinct : entry.attributes.Pairwise fun a b => sameIgnoringCase a.1 b.1 = false

/-- The integer that a single raw value of an attribute spells. -/
def Entry.integer? (entry : Entry) (name : String) : Option Int64 :=
  match entry.values? name with
  | some [raw] => Number.readInt64? (decodeLossy raw)
  | _ => none

/-! ## Values of entries -/

theorem plain_of_mem_intText {n : Int} {c : Char} (hc : c ∈ Number.intText n) :
    c.isAlphanum = true ∨ c = '-' := by
  rcases Number.mem_intText hc with h | h
  · exact Or.inl (by simp [Char.isAlphanum, h])
  · exact Or.inr h

theorem trim_intText (n : Int) : trim (Number.intText n) = Number.intText n :=
  trim_of_notMem fun _ hc => isWhitespace_of_plain (plain_of_mem_intText hc)

/-- An integer is read back from its raw value. -/
theorem readInt64?_rawInteger (n : Int64) :
    Number.readInt64? (decodeLossy (rawInteger n)) = some n := by
  rw [rawInteger, decodeLossy_encode, Number.readInt64?_intText]

theorem decodeRaw_rawInteger (n : Int64) : decodeRaw false .number (rawInteger n) = .integer n := by
  simp only [decodeRaw, ofBytes?, rawInteger, decode?_encode, Option.map_some, Value.coerce?,
    Value.isNull, Value.toNumber?, Value.readNumber?, String.toList_ofList, trim_intText,
    Number.readInt64?_intText]
  rfl

section

variable {config : DirectoryConfig} {attributes : List Attribute} {entry : Entry}

/-- The values of an attribute of an integer entry are its integer, if it has one. -/
theorem values?_eq (hentry : IntegerEntry attributes entry) (name : String) :
    entry.values? name = (entry.integer? name).map fun n => [rawInteger n] := by
  cases hvalues : entry.values? name with
  | none => simp [Entry.integer?, hvalues]
  | some values =>
      obtain ⟨item, hfind, hitem⟩ := Option.map_eq_some_iff.mp hvalues
      obtain ⟨n, hn⟩ := hentry.single item (List.mem_of_find?_eq_some hfind)
      subst hitem
      simp [Entry.integer?, hvalues, hn, readInt64?_rawInteger]

/-- An entry has the values that it lists under the name. -/
theorem values?_of_mem (hentry : IntegerEntry attributes entry) {item : String × List Bytes}
    (hmem : item ∈ entry.attributes) {name : String}
    (hname : sameIgnoringCase item.1 name = true) : entry.values? name = some item.2 := by
  have hfind := find?_sameIgnoringCase hentry.distinct hmem hname
  rw [Entry.values?, hfind]
  rfl

/-! ## Attributes of schemas -/

theorem ofList_eq (attributes : List Attribute) :
    Schema.ofList attributes = Named.ofList (attributes.map fun attr => (attr.name, attr)) := by
  rw [Schema.ofList, Named.ofList, List.foldl_map]
  rfl

theorem ofList_perm (hattributes : NumberAttributes config attributes) :
    List.Perm (Schema.ofList attributes) (attributes.map fun attr => (attr.name, attr)) := by
  rw [ofList_eq]
  refine Named.ofList_perm ?_
  rw [List.map_map]
  exact hattributes.names

/-- A schema has each attribute under its name. -/
theorem get?_ofList (hattributes : NumberAttributes config attributes) {attr : Attribute}
    (hmem : attr ∈ attributes) : Named.get? attr.name (Schema.ofList attributes) = some attr := by
  rw [ofList_eq, Named.get?_ofList]
  · exact List.mem_map.mpr ⟨attr, hmem, rfl⟩
  · rw [List.map_map]
    exact hattributes.names

/-- An attribute is found by its backend name in any letter case. -/
theorem byBackendName?_ofList (hattributes : NumberAttributes config attributes)
    {attr : Attribute} (hmem : attr ∈ attributes) {name : String}
    (hname : sameIgnoringCase attr.backendName name = true) :
    (Schema.ofList attributes).byBackendName? name = some attr := by
  have hperm := ofList_perm hattributes
  have hbackend : (Schema.ofList attributes).DistinctBackendNames := by
    refine hperm.symm.pairwise (List.pairwise_map.mpr hattributes.backendNames) ?_
    intro a b h
    rwa [sameIgnoringCase_comm]
  refine Schema.byBackendName?_of_mem hbackend (List.mem_map.mpr ⟨(attr.name, attr), ?_, rfl⟩) hname
  exact hperm.mem_iff.mpr (List.mem_map.mpr ⟨attr, hmem, rfl⟩)

/-! ## Rows -/

/-- An integer of an entry is shown under the name of its attribute. -/
theorem toProperty_eq (hattributes : NumberAttributes config attributes) {attr : Attribute}
    (hmem : attr ∈ attributes) {name : String}
    (hname : sameIgnoringCase name attr.backendName = true) (n : Int64) :
    toProperty config (Schema.ofList attributes) name [rawInteger n] =
      (attr.name, .integer n) := by
  rw [sameIgnoringCase_comm] at hname
  obtain ⟨hattr, hconfig⟩ := hattributes.notBinary attr hmem
  rw [toProperty_of_declared config _ (byBackendName?_ofList hattributes hmem hname)]
  simp only [decodeDeclared, decodeAll, hconfig, hattr, hattributes.number attr hmem, Bool.or_false,
    List.map_cons, List.map_nil, decodeRaw_rawInteger, ofValues]

/-- An attribute of an integer entry gives the property of the attribute that it belongs to. -/
theorem toProperty_of_mem (hattributes : NumberAttributes config attributes)
    (hentry : IntegerEntry attributes entry) {item : String × List Bytes}
    (hitem : item ∈ entry.attributes) :
    ∃ attr ∈ attributes, ∃ n : Int64, sameIgnoringCase item.1 attr.backendName = true ∧
      item.2 = [rawInteger n] ∧
      toProperty config (Schema.ofList attributes) item.1 item.2 = (attr.name, .integer n) := by
  obtain ⟨attr, hattr, hname⟩ := hentry.declared item hitem
  obtain ⟨n, hn⟩ := hentry.single item hitem
  refine ⟨attr, hattr, n, hname, hn, ?_⟩
  rw [hn]
  exact toProperty_eq hattributes hattr hname n

theorem attribute_eq_of_name (hattributes : NumberAttributes config attributes)
    {a b : Attribute} (ha : a ∈ attributes) (hb : b ∈ attributes) (h : a.name = b.name) :
    a = b := by
  have hfound := get?_ofList hattributes ha
  rw [h, get?_ofList hattributes hb] at hfound
  exact (Option.some.inj hfound).symm

/-- The properties of an integer entry have different names. -/
theorem properties_nodup (hattributes : NumberAttributes config attributes)
    (hentry : IntegerEntry attributes entry) :
    ((entry.attributes.map fun item =>
      toProperty config (Schema.ofList attributes) item.1 item.2).map Prod.fst).Nodup := by
  rw [List.map_map, List.Nodup, List.pairwise_map]
  refine hentry.distinct.imp_of_mem ?_
  intro first second hfirst hsecond hdistinct heq
  obtain ⟨a, ha, n, hfirstName, -, hfirstProperty⟩ :=
    toProperty_of_mem hattributes hentry hfirst
  obtain ⟨b, hb, m, hsecondName, -, hsecondProperty⟩ :=
    toProperty_of_mem hattributes hentry hsecond
  simp only [Function.comp, hfirstProperty, hsecondProperty] at heq
  -- Two properties of one name would come from one attribute in two spellings.
  rw [attribute_eq_of_name hattributes ha hb heq, sameIgnoringCase_comm] at hfirstName
  rw [sameIgnoringCase_comm, sameIgnoringCase_congr hfirstName] at hsecondName
  rw [hsecondName] at hdistinct
  cases hdistinct

/-- A row holds the integer of an attribute that the entry has, and nothing for any other. -/
theorem get?_toRow (hattributes : NumberAttributes config attributes)
    (hentry : IntegerEntry attributes entry) {attr : Attribute} (hattr : attr ∈ attributes) :
    Named.get? attr.name (toRow config (Schema.ofList attributes) entry) =
      (entry.integer? attr.backendName).map Value.integer := by
  have hproperty : ∀ value, Named.get? attr.name (toRow config (Schema.ofList attributes) entry) =
      some value ↔ ∃ item ∈ entry.attributes,
        toProperty config (Schema.ofList attributes) item.1 item.2 = (attr.name, value) := by
    intro value
    rw [toRow, Named.get?_insert, if_neg (hattributes.named attr hattr).2.2,
      Named.get?_ofList (properties_nodup hattributes hentry), List.mem_map]
  have hvalues := values?_eq hentry attr.backendName
  cases hinteger : entry.integer? attr.backendName with
  | some n =>
      rw [hinteger] at hvalues
      obtain ⟨item, hfind, hitem⟩ := Option.map_eq_some_iff.mp hvalues
      have hsame := List.find?_some hfind
      refine (hproperty _).mpr ⟨item, List.mem_of_find?_eq_some hfind, ?_⟩
      rw [hitem]
      exact toProperty_eq hattributes hattr hsame n
  | none =>
      rw [hinteger] at hvalues
      rw [Option.map_none, Option.eq_none_iff_forall_ne_some]
      intro value hvalue
      obtain ⟨item, hitem, heq⟩ := (hproperty value).mp hvalue
      obtain ⟨other, hother, n, hname, -, hshown⟩ := toProperty_of_mem hattributes hentry hitem
      rw [hshown, Prod.mk.injEq] at heq
      rw [attribute_eq_of_name hattributes hother hattr heq.1] at hname
      rw [values?_of_mem hentry hitem hname] at hvalues
      cases hvalues

/-- The path of an attribute leads to its integer in the row of an entry. -/
theorem rowResolver_rowPath (hattributes : NumberAttributes config attributes)
    (hentry : IntegerEntry attributes entry) {attr : Attribute} (hattr : attr ∈ attributes)
    (data : Value) :
    rowResolver (toRow config (Schema.ofList attributes) entry) data attr.rowPath =
      (entry.integer? attr.backendName).map Value.integer := by
  obtain ⟨-, hdot, -⟩ := hattributes.named attr hattr
  have hsplit : splitRoot attr.rowPath = (rowRoot, some attr.name) := by
    have hcut : cutOnce '.' (rowRoot.toList ++ '.' :: attr.name.toList) =
        some (rowRoot.toList, attr.name.toList) := cutOnce_append_cons (by decide) _
    have hpath : attr.rowPath.toList = rowRoot.toList ++ '.' :: attr.name.toList := by
      simp [Attribute.rowPath]
    rw [splitRoot, cutAt, hpath, hcut]
    simp only [Option.map_some, String.ofList_toList]
  have hsteps : stepsOf (some attr.name) = [attr.name] := by
    rw [stepsOf, piecesOf, pieces_of_notMem hdot]
    simp only [List.map_cons, List.map_nil, String.ofList_toList]
  simp only [rowResolver, hsplit, hsteps, if_true, Value.navigate, Value.step,
    get?_toRow hattributes hentry hattr]
  cases entry.integer? attr.backendName with
  | none => rfl
  | some n => rfl

end

end Directory

end RowFilter
