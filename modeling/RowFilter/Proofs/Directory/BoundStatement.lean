import RowFilter.Proofs.Directory.TemplateReading
import RowFilter.Proofs.Statement.Candidates

/-! # Binding what was merged

Whatever a directory filter merges to, its parameters are values of assertions. All of them can be
bound but NULL, which comparisons keep out and memberships let in: an element of their candidates
that is NULL becomes a parameter.
-/

namespace RowFilter

open Directory Statement

namespace Directory

variable {request : Request} {part : Part} {definition : Attribute}

/-- A value that cannot stand in a search filter. -/
def IsUnbindable (value : Value) : Prop :=
  ¬IsBindable value

theorem not_carries_truth (holds : Bool) : ¬(truth holds).Carries request IsUnbindable :=
  Part.not_carries_startingWith _

theorem merges_negation : (negation part).Merges request ↔ part.Merges request := by
  rw [negation, Part.merges_thenText, Part.merges_opened]

/-- A junction merges only where all its parts do. -/
theorem merges_of_junction {op : BinaryOp} {parts : List Part}
    (h : (junction op parts).Merges request) : ∀ part ∈ parts, part.Merges request :=
  (Part.merges_foldl_thenPart (Part.merges_thenText.mp h)).2

theorem carries_negation :
    (negation part).Carries request IsUnbindable ↔ part.Carries request IsUnbindable := by
  rw [negation, Part.carries_thenText, Part.carries_opened]

/-- A junction carries what cannot be bound exactly if one of its parts does. -/
theorem carries_junction {op : BinaryOp} {parts : List Part}
    (h : (junction op parts).Merges request) :
    (junction op parts).Carries request IsUnbindable ↔
      ∃ part ∈ parts, part.Carries request IsUnbindable := by
  rw [junction, Part.carries_thenText, Part.carries_foldl_thenPart (Part.merges_thenText.mp h)]
  exact or_iff_right (Part.not_carries_startingWith _)

theorem not_carries_presence : ¬(presence definition).Carries request IsUnbindable :=
  Part.not_carries_startingWith _

theorem merges_of_negated (h : (negated definition part).Merges request) :
    part.Merges request := by
  unfold negated at h
  split at h
  next => exact merges_negation.mp (merges_of_junction h _ List.mem_cons_self)
  next => exact merges_negation.mp h

/-- A negated part that also matches what lacks the attribute carries what the part does. -/
theorem carries_negated (h : (negated definition part).Merges request) :
    (negated definition part).Carries request IsUnbindable ↔
      part.Carries request IsUnbindable := by
  unfold negated at h ⊢
  split at h
  next hnullable =>
    rw [if_pos hnullable, carries_junction h, List.exists_mem_cons_iff, List.exists_mem_cons_iff,
      carries_negation, carries_negation]
    simp [not_carries_presence]
  next hnullable => rw [if_neg hnullable, carries_negation]

/-- Alternatives are joined unless there is only one. -/
theorem carries_alternatives (request : Request) (items : List Part) :
    Part.Merges request (match items with
      | [single] => single
      | _ => junction .or items) →
    (Part.Carries request IsUnbindable (match items with
      | [single] => single
      | _ => junction .or items) ↔ ∃ part ∈ items, part.Carries request IsUnbindable) := by
  rcases items with _ | ⟨first, _ | ⟨second, rest⟩⟩
  · exact carries_junction
  · simp
  · exact carries_junction

/-! ## Comparisons -/

/-- An item carries what cannot be bound exactly if it is an item of NULL. -/
theorem carries_item {relation : String} {value : Value} {target : ValueType}
    (h : item definition relation value target = .ok part) :
    part.Merges request ∧ (part.Carries request IsUnbindable ↔ value = .null) := by
  obtain ⟨assertion, hliteral, h⟩ := bind_eq_ok.mp h
  cases h
  obtain ⟨coerced, rfl, hbindable, -⟩ := literal_eq_ok hliteral
  rw [Part.merges_thenText, Part.merges_opened, Part.carries_thenText, Part.carries_opened,
    Part.carries_ofText]
  refine ⟨⟨_, Part.merge_ofText ..⟩, ?_⟩
  simp only [List.mem_singleton, exists_eq_left, IsUnbindable, hbindable, ne_eq, not_not]

/-- A pattern can always be bound. -/
theorem not_carries_substring {pattern : Value} (h : substring definition pattern = .ok part) :
    ¬part.Carries request IsUnbindable := by
  obtain ⟨coerced, -, h⟩ := bind_eq_ok.mp h
  split at h
  next text =>
    split at h
    next => cases h
    next =>
      cases h
      exact Part.not_carries_startingWith _
  next =>
    cases h
    exact not_carries_truth false

theorem not_carries_nullCheck {term : Term} {isNull : Bool} (h : nullCheck term isNull = .ok part) :
    ¬part.Carries request IsUnbindable := by
  cases term with
  | value value =>
      cases h
      exact not_carries_truth _
  | computed part type => cases h
  | attr definition =>
      obtain ⟨found, -, h⟩ := bind_eq_ok.mp h
      cases h
      split
      next =>
        rw [carries_negation]
        exact not_carries_presence
      next => exact not_carries_presence

/-- One of some items carries what cannot be bound exactly if NULL is among their values. -/
theorem exists_carries_iff (request : Request) {relation : String} {target : ValueType}
    {elements : List Value} {items : List Part} (h : List.Forall₂
      (fun element part => item definition relation element target = .ok part) elements items) :
    (∃ part ∈ items, part.Carries request IsUnbindable) ↔ .null ∈ elements := by
  induction h with
  | nil => simp
  | cons hfirst _ ih =>
      rw [List.exists_mem_cons_iff, ih, (carries_item hfirst).2, List.mem_cons, eq_comm]

/-- A membership has a parameter for each candidate. -/
theorem carries_membership {op : BinaryOp} {candidates : Value}
    (h : membership op definition candidates = .ok part) (hmerges : part.Merges request) :
    part.Carries request IsUnbindable ↔ .null ∈ candidates.elements := by
  unfold membership at h
  simp only at h
  split at h
  next hempty =>
    cases h
    rw [List.isEmpty_iff.mp hempty]
    exact iff_of_false (not_carries_truth _) List.not_mem_nil
  next =>
    obtain ⟨items, hitems, h⟩ := bind_eq_ok.mp h
    rw [← exists_carries_iff request (mapM_eq_ok.mp hitems)]
    obtain rfl := Except.ok.inj h
    split at hmerges
    next hnone =>
      rw [if_pos hnone, carries_negated hmerges]
      exact carries_alternatives request items (merges_of_negated hmerges)
    next hnone =>
      rw [if_neg hnone]
      exact carries_alternatives request items hmerges

/-- Comparisons other than memberships keep NULL out. -/
theorem not_carries_comparison {op : BinaryOp} {value : Value} (hone : op ≠ .containsOneOf)
    (hnone : op ≠ .containsNone)
    (h : comparison op (.attr definition) (.value value) = .ok part)
    (hmerges : part.Merges request) : ¬part.Carries request IsUnbindable := by
  obtain ⟨found, hfound, h⟩ := bind_eq_ok.mp h
  cases hfound
  obtain ⟨known, hknown, h⟩ := bind_eq_ok.mp h
  cases hknown
  simp only at h
  split at h
  next =>
    split at h
    next => exact not_carries_nullCheck h
    next => exact not_carries_nullCheck h
    next =>
      cases h
      exact not_carries_truth false
  next hnull =>
    have hitem : ∀ {relation target part}, item definition relation value target = .ok part →
        ¬part.Carries request IsUnbindable := fun hitem hcarries =>
      hnull (Value.isNull_eq_true_iff.mpr ((carries_item hitem).2.mp hcarries))
    split at h
    next => exact not_carries_substring h
    next => exact hitem h
    next =>
      obtain ⟨equal, hequal, h⟩ := bind_eq_ok.mp h
      cases h
      rw [carries_negated hmerges]
      exact hitem hequal
    next => exact hitem h
    next => exact hitem h
    next =>
      obtain ⟨less, hless, h⟩ := bind_eq_ok.mp h
      cases h
      rw [carries_negation]
      exact hitem hless
    next =>
      obtain ⟨greater, hgreater, h⟩ := bind_eq_ok.mp h
      cases h
      rw [carries_negation]
      exact hitem hgreater
    next => cases h

/-- NULL becomes a parameter of a comparison only as a candidate of a membership. -/
theorem carries_comparison {op : BinaryOp} {value : Value}
    (h : comparison op (.attr definition) (.value value) = .ok part)
    (hmerges : part.Merges request) :
    part.Carries request IsUnbindable ↔
      (op = .containsOneOf ∨ op = .containsNone) ∧ .null ∈ value.elements := by
  by_cases hop : op = .containsOneOf ∨ op = .containsNone
  · rw [and_iff_right hop]
    rcases hop with rfl | rfl
    · exact carries_membership h hmerges
    · exact carries_membership h hmerges
  · rw [not_or] at hop
    exact iff_of_false (not_carries_comparison hop.1 hop.2 h hmerges)
      fun hmember => hop.1 (hmember.1.resolve_right hop.2)

/-- The directory dialect lets NULL through among the candidates of a membership only. -/
theorem dialect_guards (request : Request) : dialect.Guards request IsUnbindable (· = .null) where
  truth := not_carries_truth
  negation h := ⟨merges_negation.mp h, carries_negation⟩
  junction h := ⟨merges_of_junction h, carries_junction h⟩
  nullCheck _ h := not_carries_nullCheck h
  comparison := by
    intro op left right part _ _ h hmerges
    cases left with
    | value value => cases h
    | computed part type => cases h
    | attr definition =>
        cases right with
        | attr other => cases h
        | computed part type => cases h
        | value value =>
            rw [carries_comparison h hmerges]
            simp
  arithmetic _ _ h := by cases h
  function _ h := by cases h

end Directory

/-! ## Compiled conditions -/

namespace Compiler

/-- A membership has NULL among its candidates for the request. -/
def OffersNull (compiler : Compiler) (request : Request) : Expr → Prop
  | .binary op left right => (op = .containsOneOf ∨ op = .containsNone) ∧
      ∃ side ∈ [left, right], ∃ c value, compiler.compile side = .ok c ∧
        c.Supplies request value ∧ .null ∈ value.elements
  | _ => False

/-- A membership with NULL among its candidates stands in the statement of the expression. -/
def StatesNull (compiler : Compiler) (request : Request) (expr : Expr) : Prop :=
  ∃ sub, compiler.Stands sub expr ∧ compiler.OffersNull request sub

variable {compiler : Compiler} {request : Request} {expr : Expr}

theorem states_offers_iff :
    compiler.States (compiler.Offers request (· = .null)) expr ↔
      compiler.StatesNull request expr := by
  have hoffers (sub : Expr) :
      compiler.Offers request (· = .null) sub ↔ compiler.OffersNull request sub := by
    cases sub with
    | binary op left right => simp [Offers, OffersNull]
    | _ => exact Iff.rfl
  simp only [States, StatesNull, hoffers]

variable (hdialect : compiler.dialect = Directory.dialect)

include hdialect

theorem guards_of_directory :
    compiler.dialect.Guards request IsUnbindable (· = .null) :=
  hdialect ▸ dialect_guards request

/-- Making a condition of something adds nothing that cannot be bound. -/
theorem carries_condition {c : Compiled} {part : Part} (h : compiler.condition c = .ok part)
    (hmerges : part.Merges request) :
    part.Carries request IsUnbindable ↔ c.Carries request IsUnbindable := by
  refine carries_condition_iff (guards_of_directory hdialect) ?_ h hmerges
  cases c with
  | computed inner type =>
      rw [condition, holdsTrue, hdialect] at h
      split at h <;> cases h
  | _ => trivial

/-- What is compiled has NULL for a parameter exactly if a membership that stands in it offers
NULL. -/
theorem compile_carries : Yields (fun c => c.Merges request →
    (c.Carries request IsUnbindable ↔ compiler.StatesNull request expr))
      (compiler.compile expr) := by
  intro c hc hmerges
  rw [compile_carries_iff (guards_of_directory hdialect) c hc hmerges, states_offers_iff]

end Compiler

namespace Filter

variable {filter compiled : Filter} {expr : Expr}

/-- What a directory filter merges to can be bound exactly if no membership that stands in it has
NULL among its candidates. -/
theorem bind_merged_iff (hdirectory : filter.backend = .directory)
    (hnames : ∀ entry ∈ filter.schema, '?' ∉ entry.2.backendName.toList)
    (hcompile : filter.compile expr = (compiled, none)) {request : Request} {statement : Statement}
    (hmerge : compiled.merge request = .ok statement) :
    (∃ bound, Directory.bind statement.text statement.parameters = .ok bound) ↔
      ¬(filter.compiler expr).StatesNull (filter.bindRequest request) expr := by
  have hdialect : (filter.compiler expr).dialect = Directory.dialect := by
    rw [compiler, dialect, hdirectory]
    rfl
  have hplain := (filter.backend.dialect_relates Part.compatible_upholds_balanced).respects
  have hbalanced : statement.text.toList.count '?' = statement.parameters.length :=
    merge_upholds hplain hnames hcompile request statement hmerge
  obtain ⟨c, part, hc, hpart, hmerged⟩ := compile_eq_ok hcompile
  rw [hmerged] at hmerge
  have hmerges : part.Merges (filter.bindRequest request) := ⟨statement, hmerge⟩
  rw [← Compiler.compile_carries hdialect c hc (Compiler.merges_of_condition hpart hmerges),
    ← Compiler.carries_condition hdialect hpart hmerges, Part.carries_of_merge hmerge]
  have hbind : (∃ bound, Directory.bind statement.text statement.parameters = .ok bound) ↔
      ∃ bound, bindChars statement.text.toList statement.parameters = .ok bound := by
    rw [Directory.bind]
    cases bindChars statement.text.toList statement.parameters <;> simp
  rw [hbind, exists_bindChars_iff, and_iff_right hbalanced]
  simp [IsUnbindable]

/-- A membership in a list that the request supplies. -/
private def inSuppliedList : Expr :=
  .binary .containsOneOf (.reference "object.a" .any) (.reference "user.list" .any)

private def singleText : Filter :=
  .new .directory (Schema.ofList [⟨"a", "a", .string, false, false⟩])

private def listWithNull : Request :=
  { resolver := some fun path =>
      if path = "user.list" then some (.collection [.string "x", .null]) else none }

/-- The list has NULL in it, which becomes a parameter that cannot be bound. -/
theorem bind_merged_null_candidate :
    ∃ compiled, (∀ entry ∈ singleText.schema, '?' ∉ entry.2.backendName.toList) ∧
      singleText.compile inSuppliedList = (compiled, none) ∧
      compiled.merge listWithNull = .ok ⟨"(|(a=?)(a=?))", [.string "x", .null]⟩ ∧
      ¬∃ bound, Directory.bind "(|(a=?)(a=?))" [.string "x", .null] = .ok bound := by
  have hattr : singleText.schema.resolve "object.a" .any =
      .ok ⟨"a", "a", .string, false, false⟩ := rfl
  have hnames : ∀ entry ∈ singleText.schema, '?' ∉ entry.2.backendName.toList := by decide
  have hlist : (singleText.compiler inSuppliedList).compile (.reference "user.list" .any) =
      .ok (.dynamic (.reference "user.list" .any)) := Compiler.compile_reference rfl .any
  have hcompiled : ∃ part, (singleText.compiler inSuppliedList).compile inSuppliedList =
      .ok (.condition part) ∧ part.merge (singleText.bindRequest listWithNull) =
        .ok ⟨"(|(a=?)(a=?))", [.string "x", .null]⟩ := by
    have hcomparison : (singleText.compiler inSuppliedList).compile inSuppliedList = _ :=
      Compiler.compile_comparison rfl (Compiler.compile_rowReference hattr) hlist
    rw [hcomparison]
    exact ⟨_, rfl, rfl⟩
  obtain ⟨part, hcondition, hmerge⟩ := hcompiled
  have hcompile : singleText.compile inSuppliedList = (_, none) :=
    compile_of_condition hcondition rfl
  refine ⟨_, hnames, hcompile, hmerge, fun hbound => ?_⟩
  refine (bind_merged_iff rfl hnames hcompile hmerge).mp hbound
    ⟨inSuppliedList, .self hcondition, ?_⟩
  exact ⟨Or.inl rfl, .reference "user.list" .any, by simp, _, .collection [.string "x", .null],
    hlist, rfl, by simp [Value.elements]⟩

end Filter

end RowFilter
