import RowFilter.Proofs.Directory.TemplateWriting
import RowFilter.Proofs.Statement.Placeholders
import RowFilter.Proofs.Value.Coercion

/-! # Reading conditions on values

A condition on values that are known is written as a template with these values. It is read exactly
if all of them can be bound, and then as the template with their bytes in its places.
-/

namespace RowFilter

open Directory Statement

namespace Directory

/-- Whether a value can be bound. -/
def IsBindable (value : Value) : Prop :=
  ∃ text, assertionText value = .ok text

theorem isBindable_iff {value : Value} :
    IsBindable value ↔ value ≠ .null ∧ (∀ items, value ≠ .collection items) ∧
      ∀ properties, value ≠ .object properties := by
  cases value <;> simp [IsBindable, assertionText]

/-- Binding needs a value for each placeholder, all of which can be bound. -/
theorem exists_bindChars_iff {text : List Char} {parameters : List Value} :
    (∃ bound, bindChars text parameters = .ok bound) ↔
      text.count '?' = parameters.length ∧ ∀ value ∈ parameters, IsBindable value := by
  induction text generalizing parameters with
  | nil =>
      cases parameters with
      | nil => simp [bindChars]
      | cons value others => simp [bindChars]
  | cons c rest ih =>
      by_cases hc : c = '?'
      · rw [hc, List.count_cons_self]
        cases parameters with
        | nil => simp [bindChars]
        | cons value others =>
            rw [List.forall_mem_cons, List.length_cons, Nat.succ_inj, and_left_comm, ← ih]
            simp only [bindChars, if_true, bind_eq_ok]
            constructor
            · rintro ⟨_, asserted, hasserted, bound, hbound, -⟩
              exact ⟨⟨asserted, hasserted⟩, bound, hbound⟩
            · rintro ⟨⟨asserted, hasserted⟩, bound, hbound⟩
              exact ⟨_, asserted, hasserted, bound, hbound, rfl⟩
      · rw [bindChars_cons_of_ne hc, List.count_cons_of_ne hc, ← ih]
        simp only [bind_eq_ok]
        constructor
        · rintro ⟨_, bound, hbound, -⟩
          exact ⟨bound, hbound⟩
        · rintro ⟨bound, hbound⟩
          exact ⟨_, bound, hbound, rfl⟩

end Directory

namespace Part

/-- For every request the part merges to the text and the values. -/
def Lays (part : Part) (text : List Char) (values : List Value) : Prop :=
  ∀ request, part.merge request = .ok ⟨String.ofList text, values⟩

variable {part inner : Part} {x y : List Char} {vs ws : List Value}

theorem lays_ofText (text : String) (values : List Value) :
    (ofText text values).Lays text.toList values := by
  intro request
  rw [merge_ofText, String.ofList_toList]

/-- Two parts in a row lay their texts and their values in a row. -/
theorem Lays.thenPart (h : part.Lays x vs) (hinner : inner.Lays y ws) :
    (part.thenPart inner).Lays (x ++ y) (vs ++ ws) := by
  intro request
  rw [merge_thenPart, h, hinner, andThen_ok, append, ← String.ofList_append]

theorem Lays.thenText (h : part.Lays x vs) (text : String) :
    (part.thenText text).Lays (x ++ text.toList) vs := by
  intro request
  rw [merge_thenText, h, andThen_ok, append, String.ofList_append, String.ofList_toList,
    List.append_nil]

theorem Lays.foldl_thenPart {α : Type} {text : α → List Char} {values : α → List Value}
    (h : part.Lays x vs) {parts : List Part} {items : List α}
    (hparts : List.Forall₂ (fun inner item => inner.Lays (text item) (values item)) parts items) :
    (parts.foldl Part.thenPart part).Lays (x ++ items.flatMap text)
      (vs ++ items.flatMap values) := by
  induction hparts generalizing part x vs with
  | nil => simpa using h
  | cons hfirst hrest ih =>
      rw [List.foldl_cons, List.flatMap_cons, List.flatMap_cons, ← List.append_assoc,
        ← List.append_assoc]
      exact ih (h.thenPart hfirst)

/-- For every request the part merges to the text of a well-formed template and the values. -/
structure Renders (part : Part) (template : Template) (values : List Value) : Prop where
  lays : part.Lays template.text values
  formed : template.WellFormed

end Part

namespace Directory

open Template SearchFilter

variable {part : Part} {template : Template} {values : List Value} {definition : Attribute}

/-- A literal is one value, which can be bound unless it is NULL. -/
theorem literal_eq_ok {value : Value} {target : ValueType}
    (h : literal value target = .ok part) :
    ∃ coerced, part = Part.ofText "?" [coerced] ∧ (IsBindable coerced ↔ value ≠ .null) ∧
      ∀ items, value ≠ .collection items := by
  obtain ⟨coerced, hcoerced, h⟩ := bind_eq_ok.mp h
  have hcoerced : value.coerce? target = some coerced := by
    rw [Value.coerceLiteral] at hcoerced
    split at hcoerced
    next hsome =>
      cases hcoerced
      exact hsome
    next => cases hcoerced
  split at h
  next => cases h
  next => cases h
  next hobject hcollection =>
    cases h
    refine ⟨coerced, rfl, ?_, ?_⟩
    · rw [isBindable_iff, ne_eq, Value.coerce?_eq_null_iff hcoerced]
      exact and_iff_left ⟨fun items => hcollection items, fun properties => hobject properties⟩
    · rintro items rfl
      exact hcollection items (Value.coerce?_collection hcoerced)

/-- An item asserts one value, which can be bound unless it is made of NULL. -/
theorem item_renders (hname : IsPlainName definition.backendName) (sign : Relation)
    {relation : String} (hrelation : relation.toList = sign.symbol) {value : Value}
    {target : ValueType} (h : item definition relation value target = .ok part) :
    ∃ coerced, part.Renders (.asserted definition.backendName sign) [coerced] ∧
      (IsBindable coerced ↔ value ≠ .null) ∧ ∀ items, value ≠ .collection items := by
  obtain ⟨assertion, hliteral, h⟩ := bind_eq_ok.mp h
  cases h
  obtain ⟨coerced, rfl, hbindable, hcollection⟩ := literal_eq_ok hliteral
  refine ⟨coerced, ⟨?_, .asserted hname sign⟩, hbindable, hcollection⟩
  have hlays := ((Part.lays_ofText ("(" ++ definition.backendName ++ relation) []).thenPart
    (Part.lays_ofText "?" [coerced])).thenText ")"
  have htext : ("(" ++ definition.backendName ++ relation).toList ++ "?".toList ++ ")".toList =
      (asserted definition.backendName sign).text := by
    rw [Template.text, Template.inner, ← hrelation]
    simp
  exact htext ▸ hlays

/-- The presence item of an attribute renders a pattern of two empty chunks, without values. -/
theorem presence_renders (hname : IsPlainName definition.backendName) :
    (presence definition).Renders (.pattern definition.backendName [[], []]) [] := by
  refine ⟨?_, .pattern hname (List.cons_ne_nil _ _)⟩
  have htext : ("(" ++ definition.backendName ++ "=*)").toList =
      (pattern definition.backendName [[], []]).text := by
    rw [Template.text, Template.inner]
    simp [Relation.symbol, escapeBytes, List.intercalate_cons_cons]
  exact htext ▸ Part.lays_ofText _ []

/-- A negated part renders the negated template of the same values. -/
theorem negation_renders (h : part.Renders template values) :
    (negation part).Renders (.not template) values := by
  refine ⟨?_, .not h.formed⟩
  have hlays := ((Part.lays_ofText "(!" []).thenPart h.lays).thenText ")"
  have htext : "(!".toList ++ template.text ++ ")".toList = (Template.not template).text := by
    rw [Template.text, Template.text, Template.inner]
    simp
  exact htext ▸ hlays

/-- A disjunction renders the disjunction of the templates, with all values in order. -/
theorem disjunction_renders {parts : List Part} {items : List (Template × List Value)}
    (hne : items ≠ [])
    (h : List.Forall₂ (fun part item => part.Renders item.1 item.2) parts items) :
    (junction .or parts).Renders (.or (items.map Prod.fst)) (items.flatMap Prod.snd) := by
  have hformed : ∀ template ∈ items.map Prod.fst, template.WellFormed := by
    clear hne
    induction h with
    | nil => simp
    | cons hfirst _ ih => exact List.forall_mem_cons.mpr ⟨hfirst.formed, ih⟩
  refine ⟨?_, .or (by simpa using hne) hformed⟩
  have hlays := (Part.Lays.foldl_thenPart (Part.lays_ofText "(|" [])
    (h.imp fun _ _ hitem => hitem.lays)).thenText ")"
  have htext : "(|".toList ++ items.flatMap (fun item => item.1.text) ++ ")".toList =
      (Template.or (items.map Prod.fst)).text := by
    rw [Template.text, Template.inner, textAll_eq_flatMap, List.flatMap_map]
    simp
  exact htext ▸ hlays

/-- Alternatives of one form with a value each. -/
theorem alternatives_render {parts : List Part} (hne : values ≠ [])
    (h : List.Forall₂ (fun part value => part.Renders template [value]) parts values) :
    (junction .or parts).Renders (.or (values.map fun _ => template)) values := by
  have hall : List.Forall₂ (fun part item => part.Renders item.1 item.2) parts
      (values.map fun value => (template, [value])) := List.forall₂_map_right_iff.mpr h
  have hrenders := disjunction_renders (by simpa using hne) hall
  simpa [List.flatMap_map, Function.comp_def] using hrenders

end Directory

namespace Filter

open Directory

variable {filter : Filter} {expr : Expr} {part : Part} {template : Template} {values : List Value}

/-- A condition that renders a template is read if and only if all its values can be bound, and then
as the template with their bytes in its places. -/
theorem reads_iff_of_renders (hnames : ∀ entry ∈ filter.schema, IsPlainName entry.2.backendName)
    (hcompile : compilePart filter.backend filter.schema expr = .ok part)
    (h : part.Renders template values) (request : Request) (parsed : SearchFilter) :
    filter.Reads expr request parsed ↔ (∀ value ∈ values, IsBindable value) ∧
      template.fill (values.map assertedBytes) = some (parsed, []) := by
  have hcompiled := compile_of_part hcompile
  have hmerge : ({ filter with root := some part, expression := expr.text } : Filter).merge
      request = .ok ⟨String.ofList template.text, values⟩ := h.lays _
  have htext : (String.ofList template.text).toList = template.text := String.toList_ofList
  have hread : ∀ bound, Directory.bind (String.ofList template.text) values = .ok bound →
      ∃ filter, SearchFilter.parse bound = .ok filter ∧
        template.fill (values.map assertedBytes) = some (filter, []) :=
    fun bound hbind => h.formed.parse_bind htext hbind
  constructor
  · rintro ⟨compiled, statement, bound, hcompile', hmerge', hbind, hparse⟩
    obtain ⟨rfl, -⟩ := Prod.mk.inj (hcompiled.symm.trans hcompile')
    obtain rfl := Except.ok.inj (hmerge.symm.trans hmerge')
    obtain ⟨found, hfound, hfill⟩ := hread bound hbind
    obtain rfl := Except.ok.inj (hparse.symm.trans hfound)
    refine ⟨?_, hfill⟩
    rw [Directory.bind] at hbind
    split at hbind
    next chars hchars => exact (exists_bindChars_iff.mp ⟨chars, hchars⟩).2
    next => cases hbind
  · rintro ⟨hbindable, hfill⟩
    have hdialect := (filter.backend.dialect_relates Part.compatible_upholds_balanced).respects
    have hbalanced : Statement.Balanced ⟨String.ofList template.text, values⟩ :=
      merge_upholds hdialect (fun entry hentry => (hnames entry hentry).notMem (by decide))
        hcompiled request _ hmerge
    obtain ⟨bound, hbound⟩ := exists_bindChars_iff.mpr ⟨hbalanced, hbindable⟩
    have hbind : Directory.bind (String.ofList template.text) values =
        .ok (String.ofList bound) := by
      rw [Directory.bind, hbound]
    obtain ⟨found, hfound, hfill'⟩ := hread _ hbind
    obtain ⟨rfl, -⟩ := Prod.mk.inj (Option.some.inj (hfill.symm.trans hfill'))
    exact ⟨_, _, _, hcompiled, hmerge, hbind, hfound⟩

end Filter

end RowFilter
