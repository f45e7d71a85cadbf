import RowFilter.Proofs.Directory.Property

/-! # The attribute that a row shows

A row shows the attributes of an entry under the names of the properties that they stand for, and
an attribute that no schema declares under its own name. Where two come under one name, the later
one in the order of the entry stays. So a row shows under a property what its filter tests, unless
an undeclared attribute is called like the property and comes after the one that it stands for.
-/

namespace RowFilter

namespace Named

variable {α : Type}

theorem mem_of_mem_insert {name : String} {item : α} {items : Named α} {pair : String × α}
    (h : pair ∈ insert name item items) : pair = (name, item) ∨ pair ∈ items := by
  induction items with
  | nil => exact .inl (List.mem_singleton.mp h)
  | cons head rest ih =>
    unfold insert at h
    split at h
    next =>
      rcases List.mem_cons.mp h with heq | hrest
      · exact .inl heq
      · exact .inr (List.mem_cons_of_mem _ hrest)
    next =>
      split at h
      next => exact List.mem_cons.mp h
      next =>
        rcases List.mem_cons.mp h with heq | hrest
        · exact .inr (heq ▸ List.mem_cons_self)
        · exact (ih hrest).imp_right (List.mem_cons_of_mem _)

theorem get?_foldl_insert_of_notMem {name : String} {items : List (String × α)} {named : Named α}
    (h : name ∉ items.map Prod.fst) :
    get? name (items.foldl (fun named pair => insert pair.1 pair.2 named) named) =
      get? name named := by
  induction items generalizing named with
  | nil => rfl
  | cons head rest ih =>
    rw [List.map_cons, List.mem_cons, not_or] at h
    rw [List.foldl_cons, ih h.2, get?_insert, if_neg h.1]

/-- Of several meanings of a name the last one stays. -/
theorem get?_ofList_append_cons {name : String} {item : α} {before after : List (String × α)}
    (h : name ∉ after.map Prod.fst) :
    get? name (ofList (before ++ (name, item) :: after)) = some item := by
  rw [ofList, List.foldl_append, List.foldl_cons, get?_foldl_insert_of_notMem h, get?_insert,
    if_pos rfl]

end Named

/-! ## Declared attributes -/

namespace Schema

/-- A schema that has each attribute under its name. -/
structure Keyed (schema : Schema) : Prop where
  ascending : Named.Ascending schema
  named : ∀ item ∈ schema, item.1 = item.2.name

variable {schema : Schema} {attr : Attribute}

theorem Keyed.declare (h : schema.Keyed) (attr : Attribute) : (declare attr schema).Keyed where
  ascending := h.ascending.insert attr.name attr
  named item hitem := by
    rcases Named.mem_of_mem_insert hitem with rfl | hitem
    · rfl
    · exact h.named item hitem

theorem keyed_foldl_declare (attributes : List Attribute) (h : schema.Keyed) :
    (attributes.foldl (fun schema attr => declare attr schema) schema).Keyed := by
  induction attributes generalizing schema with
  | nil => exact h
  | cons attr rest ih => exact ih (h.declare attr)

theorem keyed_ofList (attributes : List Attribute) : (ofList attributes).Keyed :=
  keyed_foldl_declare attributes ⟨List.Pairwise.nil, nofun⟩

/-- An attribute of a schema is found under its name. -/
theorem Keyed.get?_name (h : schema.Keyed) (hattr : attr ∈ schema.map Prod.snd) :
    Named.get? attr.name schema = some attr := by
  obtain ⟨item, hitem, rfl⟩ := List.mem_map.mp hattr
  have hnodup : (schema.map Prod.fst).Nodup := by
    refine h.ascending.imp ?_
    rintro _ _ hlt rfl
    exact String.lt_irrefl _ hlt
  rw [Named.get?_eq_some_iff hnodup, ← h.named item hitem]
  exact hitem

end Schema

namespace Directory

open Text

variable {config : DirectoryConfig} {schema : Schema} {entry : Entry} {attr : Attribute}
  {name property : String} {values : List Bytes}

/-- What comes under the name of a declared attribute: the attribute itself, and one that is called
like it and not declared. -/
theorem toProperty_fst_eq_iff (hkeyed : schema.Keyed) (hbackend : schema.DistinctBackendNames)
    (hattr : attr ∈ schema.map Prod.snd) :
    (toProperty config schema name values).1 = attr.name ↔
      sameIgnoringCase name attr.backendName = true ∨
        name = attr.name ∧ schema.byBackendName? attr.name = none := by
  rw [sameIgnoringCase_comm]
  constructor
  · intro heq
    cases hdeclared : schema.byBackendName? name with
    | none =>
      rw [toProperty_of_undeclared config values hdeclared] at heq
      obtain rfl := heq
      exact .inr ⟨rfl, hdeclared⟩
    | some other =>
      rw [toProperty_of_declared config values hdeclared] at heq
      have hother := hkeyed.get?_name (List.mem_of_find?_eq_some hdeclared)
      rw [show other.name = attr.name from heq, hkeyed.get?_name hattr] at hother
      obtain rfl := Option.some.inj hother
      exact .inl (Schema.sameIgnoringCase_of_byBackendName? hdeclared)
  · rintro (hname | ⟨rfl, hundeclared⟩)
    · rw [toProperty_of_declared config values (Schema.byBackendName?_of_mem hbackend hattr hname)]
    · rw [toProperty_of_undeclared config values hundeclared]

/-! ## Rows -/

/-- Under a property a row shows the last attribute that comes under it. -/
theorem get?_toRow_of_last (hentry : entry.attributes.Ascending)
    (hidentity : property ≠ config.identity) (hitem : (name, values) ∈ entry.attributes)
    (hproperty : (toProperty config schema name values).1 = property)
    (hlast : ∀ item ∈ entry.attributes, (toProperty config schema item.1 item.2).1 = property →
      ¬name < item.1) :
    Named.get? property (toRow config schema entry) =
      some (toProperty config schema name values).2 := by
  obtain ⟨before, after, hsplit⟩ := List.append_of_mem hitem
  have hafter : property ∉
      (after.map fun item => toProperty config schema item.1 item.2).map Prod.fst := by
    intro hmem
    obtain ⟨_, hshown, hfst⟩ := List.mem_map.mp hmem
    obtain ⟨item, hitem, rfl⟩ := List.mem_map.mp hshown
    refine hlast item ?_ hfst ?_
    · rw [hsplit]
      exact List.mem_append_right _ (List.mem_cons_of_mem _ hitem)
    · rw [Named.Ascending, hsplit, List.map_append, List.pairwise_append] at hentry
      exact (List.pairwise_cons.mp hentry.2.1).1 _ (List.mem_map_of_mem hitem)
  rw [toRow, Named.get?_insert, if_neg hidentity, hsplit, List.map_append, List.map_cons,
    ← hproperty]
  exact Named.get?_ofList_append_cons (hproperty ▸ hafter)

/-- An attribute of an entry that takes the place of a declared one in a row: it is called like the
property, is not declared itself, and comes after the attribute that is. -/
structure Shadows (schema : Schema) (entry : Entry) (attr : Attribute) (others : List Bytes) :
    Prop where
  present : (attr.name, others) ∈ entry.attributes
  undeclared : schema.byBackendName? attr.name = none
  later : ∀ item ∈ entry.attributes, sameIgnoringCase item.1 attr.backendName = true →
    item.1 < attr.name

/-- Whether the names of an entry's attributes differ in more than their case. -/
def Entry.DistinctNames (entry : Entry) : Prop :=
  entry.attributes.Pairwise fun a b => sameIgnoringCase a.1 b.1 = false

instance (entry : Entry) : Decidable entry.DistinctNames :=
  inferInstanceAs (Decidable (List.Pairwise _ _))

theorem Entry.DistinctNames.eq_of_mem (h : entry.DistinctNames)
    {first second : String × List Bytes} (hfirst : first ∈ entry.attributes)
    (hsecond : second ∈ entry.attributes) (hname : sameIgnoringCase first.1 name = true)
    (hname' : sameIgnoringCase second.1 name = true) : first = second :=
  Option.some.inj ((find?_sameIgnoringCase h hfirst hname).symm.trans
    (find?_sameIgnoringCase h hsecond hname'))

section

variable (hkeyed : schema.Keyed) (hbackend : schema.DistinctBackendNames)
  (hidentity : attr.name ≠ config.identity) (hattr : attr ∈ schema.map Prod.snd)
  (hentry : entry.attributes.Ascending)
include hkeyed hbackend hidentity hattr hentry

theorem get?_toRow_of_shadows {others : List Bytes} (h : Shadows schema entry attr others) :
    Named.get? attr.name (toRow config schema entry) =
      some (decodeUndeclared config attr.name others) := by
  have hproperty := toProperty_of_undeclared config others h.undeclared
  rw [get?_toRow_of_last hentry hidentity h.present (by rw [hproperty]), hproperty]
  intro item hitem hfst hlt
  rcases (toProperty_fst_eq_iff hkeyed hbackend hattr).mp hfst with hname | ⟨hname, -⟩
  · exact String.lt_irrefl _ (String.lt_trans (h.later item hitem hname) hlt)
  · rw [hname] at hlt
    exact String.lt_irrefl _ hlt

theorem get?_toRow_of_not_shadows (hdistinct : entry.DistinctNames)
    (hvalues : entry.values? attr.backendName = some values)
    (h : ∀ others, ¬Shadows schema entry attr others) :
    Named.get? attr.name (toRow config schema entry) =
      some (decodeDeclared config attr values) := by
  obtain ⟨⟨spelling, raw⟩, hfind, rfl⟩ := Option.map_eq_some_iff.mp hvalues
  have hitem := List.mem_of_find?_eq_some hfind
  have hspelling := List.find?_some hfind
  have hdeclared := Schema.byBackendName?_of_mem hbackend hattr
    ((sameIgnoringCase_comm _ _).trans hspelling)
  have hproperty := toProperty_of_declared config raw hdeclared
  rw [get?_toRow_of_last hentry hidentity hitem (by rw [hproperty]), hproperty]
  intro item hother hfst hlt
  rcases (toProperty_fst_eq_iff hkeyed hbackend hattr).mp hfst with hname | ⟨hname, hundeclared⟩
  · rw [hdistinct.eq_of_mem hother hitem hname hspelling] at hlt
    exact String.lt_irrefl _ hlt
  · refine h item.2 ⟨hname ▸ hother, hundeclared, fun other hmem hsame => ?_⟩
    rw [hdistinct.eq_of_mem hmem hitem hsame hspelling, ← hname]
    exact hlt

end

/-- A row shows under a property the decoded values of the attribute that a filter tests there,
unless another attribute shadows it that does not stand for the same value. -/
theorem get?_toRow_declared_iff {attributes : List Attribute}
    (hbackend : (Schema.ofList attributes).DistinctBackendNames)
    (hidentity : config.identity ∉ (Schema.ofList attributes).map Prod.fst)
    (hattr : attr ∈ (Schema.ofList attributes).map Prod.snd)
    (hentry : entry.attributes.Ascending) (hdistinct : entry.DistinctNames)
    (hvalues : entry.values? attr.backendName = some values) :
    Named.get? attr.name (toRow config (Schema.ofList attributes) entry) =
        some (decodeDeclared config attr values) ↔
      ∀ others, Shadows (Schema.ofList attributes) entry attr others →
        decodeUndeclared config attr.name others = decodeDeclared config attr values := by
  have hkeyed := Schema.keyed_ofList attributes
  have hname : attr.name ≠ config.identity := by
    rintro heq
    obtain ⟨item, hitem, rfl⟩ := List.mem_map.mp hattr
    rw [← hkeyed.named item hitem] at heq
    exact hidentity (heq ▸ List.mem_map_of_mem hitem)
  by_cases hshadow : ∃ others, Shadows (Schema.ofList attributes) entry attr others
  · obtain ⟨others, hshadow⟩ := hshadow
    rw [get?_toRow_of_shadows hkeyed hbackend hname hattr hentry hshadow,
      Option.some.injEq]
    refine ⟨fun heq others' hshadow' => ?_, fun h => h others hshadow⟩
    have hsame := get?_toRow_of_shadows hkeyed hbackend hname hattr hentry hshadow'
    rw [get?_toRow_of_shadows hkeyed hbackend hname hattr hentry hshadow, heq] at hsame
    exact (Option.some.inj hsame).symm
  · rw [not_exists] at hshadow
    rw [get?_toRow_of_not_shadows hkeyed hbackend hname hattr hentry hdistinct hvalues hshadow]
    exact ⟨fun _ others h => absurd h (hshadow others), fun _ => rfl⟩

/-- An undeclared attribute does not hide the property of its name if it comes first. -/
theorem get?_toRow_declared_iff_surname :
    let surname : Attribute := ⟨"name", "sn", .string, false, false⟩
    let entry : Entry := ⟨"cn=x", [("name", [[65]]), ("sn", [[66]])]⟩
    Named.get? "name" (toRow {} (Schema.ofList [surname]) entry) =
      some (decodeDeclared {} surname [[66]]) := by
  intro surname entry
  have hmem : surname ∈ (Schema.ofList [surname]).map Prod.snd := List.mem_cons_self
  refine (get?_toRow_declared_iff (by decide) (by decide) hmem (by unfold Named.Ascending; decide)
    (by decide) (by decide)).mpr fun others hshadow => ?_
  have hfirst := hshadow.later ("sn", [[66]]) (by decide) (by decide)
  exact absurd hfirst (by decide)

/-- If it comes later, it does. -/
theorem not_shown_attribute : ¬∀ (config : DirectoryConfig) (attributes : List Attribute)
    (entry : Entry) (attr : Attribute) (values : List Bytes),
    (Schema.ofList attributes).DistinctBackendNames →
    config.identity ∉ (Schema.ofList attributes).map Prod.fst →
    attr ∈ (Schema.ofList attributes).map Prod.snd → entry.attributes.Ascending →
    entry.DistinctNames → entry.values? attr.backendName = some values →
    Named.get? attr.name (toRow config (Schema.ofList attributes) entry) =
      some (decodeDeclared config attr values) := by
  intro h
  have hshown := h {} [⟨"z", "a", .string, false, false⟩] ⟨"cn=x", [("a", [[49]]), ("z", [[50]])]⟩
    ⟨"z", "a", .string, false, false⟩ [[49]] (by decide) (by decide) List.mem_cons_self
    (by unfold Named.Ascending; decide) (by decide) rfl
  cases hshown

end Directory

end RowFilter
