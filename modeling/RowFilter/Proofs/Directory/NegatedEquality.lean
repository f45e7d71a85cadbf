import RowFilter.Proofs.Directory.TemplateReading
import RowFilter.Proofs.Statement.Deferral

/-! # Negated equality

An inequality is the negation of an equality wherever both are evaluated. In a directory an
assertion about an attribute without values is unknown and so is its negation; only the inequality
asks for absence as well. So the two select the same entries exactly where the attribute is present.
-/

namespace RowFilter

open Directory

namespace BinaryOp

/-- The operator that holds exactly where an equality or an overlap does not. -/
def opposite? : BinaryOp → Option BinaryOp
  | eq => some ne
  | containsOneOf => some containsNone
  | _ => none

variable {op opposite : BinaryOp}

/-- Negating what an operator gives is what its opposite gives, with the same errors. -/
theorem not_apply (h : op.opposite? = some opposite) (left right : Value) :
    (op.apply left right).bind UnaryOp.not.apply = opposite.apply left right := by
  cases op <;> cases h <;> rfl

theorem isLogical_of_opposite? (h : op.opposite? = some opposite) :
    op.isLogical = false ∧ opposite.isLogical = false := by
  cases op <;> cases h <;> exact ⟨rfl, rfl⟩

theorem isComparison_of_opposite? (h : op.opposite? = some opposite) :
    op.isComparison = true ∧ opposite.isComparison = true := by
  cases op <;> cases h <;> exact ⟨rfl, rfl⟩

end BinaryOp

/-- A negated equality is evaluated like the inequality. -/
theorem evaluate_not_opposite {op opposite : BinaryOp} (h : op.opposite? = some opposite)
    (env : Environment) (left right : Expr) :
    (Expr.unary .not (.binary op left right)).evaluate env =
      (Expr.binary opposite left right).evaluate env := by
  obtain ⟨hlogical, hlogical'⟩ := BinaryOp.isLogical_of_opposite? h
  rw [Expr.evaluate, Expr.evaluate, Expr.evaluate, if_neg (by simp [hlogical]),
    if_neg (by simp [hlogical'])]
  cases left.evaluate env with
  | error e => rfl
  | ok l =>
      cases right.evaluate env with
      | error e => rfl
      | ok r => exact BinaryOp.not_apply h l r

namespace Directory

/-! ## Assertions about one attribute -/

/-- Whether an entry has values of an attribute. -/
def Entry.hasValue (entry : Entry) (name : String) : Bool :=
  match entry.values? name with
  | some (_ :: _) => true
  | _ => false

/-- An attribute is present where it has values, and the object class always is. -/
theorem isPresent_eq (entry : Entry) (name : String) :
    isPresent entry name = (Text.sameIgnoringCase name "objectClass" || entry.hasValue name) := by
  rw [isPresent, Entry.hasValue]
  rcases entry.values? name with _ | _ | _ <;> rfl

/-- The filter is known for exactly the entries with values of the attribute. -/
def SearchFilter.AsksFor (filter : SearchFilter) (name : String) : Prop :=
  ∀ entry, (filter.evaluate entry).isSome = entry.hasValue name

theorem asksFor_equal (name : String) (assertion : Bytes) :
    (SearchFilter.equal name assertion).AsksFor name := by
  intro entry
  rw [SearchFilter.evaluate, anyValue, Entry.hasValue]
  rcases entry.values? name with _ | _ | _ <;> rfl

/-- A join is known if all that is joined is known, and unknown if none of it is. -/
theorem isSome_joinAll {deciding known : Bool} {truths : List Truth} (hne : truths ≠ [])
    (h : ∀ truth ∈ truths, truth.isSome = known) :
    (Truth.joinAll deciding truths).isSome = known := by
  induction truths with
  | nil => exact absurd rfl hne
  | cons truth rest ih =>
      rw [List.forall_mem_cons] at h
      cases rest with
      | nil => rw [Truth.joinAll_singleton, h.1]
      | cons second more =>
          have hrest := ih (List.cons_ne_nil _ _) h.2
          have hjoin : ∀ a b : Truth, a.isSome = b.isSome →
              (Truth.join deciding a b).isSome = b.isSome := by
            rintro (_ | _ | _) (_ | _ | _) heq <;> cases deciding <;> first | rfl | cases heq
          exact (hjoin _ _ (h.1.trans hrest.symm)).trans hrest

/-- A disjunction asks for an attribute if all its filters do. -/
theorem asksFor_or {filters : List SearchFilter} {name : String} (hne : filters ≠ [])
    (h : ∀ filter ∈ filters, filter.AsksFor name) : (SearchFilter.or filters).AsksFor name := by
  intro entry
  rw [SearchFilter.evaluate_or]
  refine isSome_joinAll (by simpa using hne) ?_
  intro truth htruth
  obtain ⟨filter, hfilter, rfl⟩ := List.mem_map.mp htruth
  exact h filter hfilter entry

/-- A negation that also asks for absence selects the same as one that does not exactly if the
attribute is present. -/
theorem selects_not_eq_iff {filter : SearchFilter} {name : String} (h : filter.AsksFor name)
    (entry : Entry) :
    ((SearchFilter.not filter).selects entry =
      (SearchFilter.or [.not filter, .not (.present name)]).selects entry) ↔
      isPresent entry name = true := by
  have hpresent : (filter.evaluate entry).isSome = true → isPresent entry name = true := by
    intro hknown
    rw [isPresent_eq, ← h entry, hknown, Bool.or_true]
  simp only [SearchFilter.selects, SearchFilter.evaluate_or, SearchFilter.evaluate_not,
    SearchFilter.evaluate_present, List.map_cons, List.map_nil]
  generalize isPresent entry name = present at hpresent
  generalize filter.evaluate entry = truth at hpresent
  rcases truth with _ | _ | _ <;> cases present <;> first | decide | cases hpresent rfl

/-- The condition is written as a template with values, and if they can be bound it is a filter that
is known for exactly the entries with values of the attribute. -/
structure Asserts (name : String) (part : Part) (template : Template) (values : List Value)
    (filter : SearchFilter) : Prop where
  renders : part.Renders template values
  fills : template.fill (values.map assertedBytes) = some (filter, [])
  asks : filter.AsksFor name

variable {definition : Attribute}

/-- An item for equality asserts its value, coerced to the type of the attribute. -/
theorem asserts_item (hname : IsPlainName definition.backendName) {value : Value}
    {target : ValueType} {part : Part} (h : item definition "=" value target = .ok part) :
    ∃ coerced, Asserts definition.backendName part (.asserted definition.backendName .equal)
        [coerced] (.equal definition.backendName (assertedBytes coerced)) ∧
      (IsBindable coerced ↔ value ≠ .null) ∧ ∀ items, value ≠ .collection items := by
  obtain ⟨coerced, hrenders, hbindable⟩ := item_renders hname .equal rfl h
  exact ⟨coerced, ⟨hrenders, rfl, asksFor_equal _ _⟩, hbindable⟩

theorem fillAll_asserted (name : String) (values : List Value) :
    Template.fillAll (values.map fun _ => .asserted name .equal) (values.map assertedBytes) =
      some (values.map fun value => .equal name (assertedBytes value), []) := by
  induction values with
  | nil => rfl
  | cons value rest ih =>
      rw [List.map_cons, List.map_cons, Template.fillAll, Template.fill]
      simp only [Option.bind_eq_bind, Option.bind_some, ih]
      rfl

/-- The alternatives of a membership, one for each candidate. -/
theorem asserts_any (hname : IsPlainName definition.backendName) {candidates : List Value}
    (hne : candidates ≠ []) {items : List Part}
    (h : candidates.mapM (fun candidate => item definition "=" candidate definition.type) =
      .ok items) :
    ∃ template values filter, Asserts definition.backendName
        (match items with
          | [single] => single
          | _ => junction .or items) template values filter ∧
      ((∀ value ∈ values, IsBindable value) ↔ .null ∉ candidates) := by
  have hvalues : ∃ values, List.Forall₂ (fun part value => part.Renders
        (.asserted definition.backendName .equal) [value]) items values ∧
      ((∀ value ∈ values, IsBindable value) ↔ .null ∉ candidates) := by
    have hall := mapM_eq_ok.mp h
    clear h hne
    induction hall with
    | nil => exact ⟨[], .nil, by simp⟩
    | cons hfirst hrest ih =>
        obtain ⟨value, hrenders, hbindable, -⟩ := item_renders hname .equal rfl hfirst
        obtain ⟨values, hall, hiff⟩ := ih
        refine ⟨value :: values, .cons hrenders hall, ?_⟩
        rw [List.forall_mem_cons, hbindable, hiff, List.mem_cons, not_or, ne_comm]
  obtain ⟨values, hall, hbindable⟩ := hvalues
  have hlength := (mapM_eq_ok.mp h).length_eq
  rcases items with _ | ⟨single, _ | ⟨second, more⟩⟩
  · exact absurd (List.length_eq_zero_iff.mp hlength) hne
  · obtain ⟨value, _, hsingle, hnil, rfl⟩ := List.forall₂_cons_left_iff.mp hall
    obtain rfl := List.forall₂_nil_left_iff.mp hnil
    exact ⟨_, _, _, ⟨hsingle, rfl, asksFor_equal _ _⟩, hbindable⟩
  · have hsome : values ≠ [] := by
      rintro rfl
      exact absurd hall.length_eq (by simp)
    refine ⟨_, _, .or (values.map fun value =>
      .equal definition.backendName (assertedBytes value)),
      ⟨alternatives_render hsome hall, ?_, ?_⟩, hbindable⟩
    · rw [Template.fill, fillAll_asserted]
      rfl
    · refine asksFor_or (by simpa using hsome) fun filter hfilter => ?_
      obtain ⟨value, -, rfl⟩ := List.mem_map.mp hfilter
      exact asksFor_equal _ _

theorem comparison_eq {value : Value} (hnull : value.isNull = false) :
    comparison .eq (.attr definition) (.value value) =
      item definition "=" value
        (if definition.type = .any then value.type else definition.type) := by
  simp only [comparison, attributeOf, valueOf, Bind.bind, Except.bind, hnull]
  rfl

/-- A comparison for inequality is the negated one for equality. -/
theorem comparison_ne {value : Value} (hnull : value.isNull = false) :
    comparison .ne (.attr definition) (.value value) =
      (comparison .eq (.attr definition) (.value value)).map (negated definition) := by
  rw [comparison_eq hnull]
  simp only [comparison, attributeOf, valueOf, Bind.bind, Except.bind, hnull]
  cases item definition "=" value (if definition.type = .any then value.type else definition.type)
    with
  | error fault => rfl
  | ok part => rfl

/-- An overlap is a disjunction of items for equality, or the only one. -/
theorem comparison_containsOneOf {value : Value} (hne : value.elements ≠ []) :
    comparison .containsOneOf (.attr definition) (.value value) =
      (value.elements.mapM fun candidate => item definition "=" candidate definition.type).map
        fun items => match items with
          | [single] => single
          | _ => junction .or items := by
  have hempty : value.elements.isEmpty = false := by simpa using hne
  simp only [comparison, attributeOf, valueOf, Bind.bind, Except.bind, membership, hempty]
  cases value.elements.mapM fun candidate => item definition "=" candidate definition.type with
  | error fault => rfl
  | ok items => rfl

/-- No overlap is a negated overlap. -/
theorem comparison_containsNone {value : Value} (hne : value.elements ≠ []) :
    comparison .containsNone (.attr definition) (.value value) =
      (comparison .containsOneOf (.attr definition) (.value value)).map (negated definition) := by
  have hempty : value.elements.isEmpty = false := by simpa using hne
  rw [comparison_containsOneOf hne]
  simp only [comparison, attributeOf, valueOf, Bind.bind, Except.bind, membership, hempty]
  cases value.elements.mapM fun candidate => item definition "=" candidate definition.type with
  | error fault => rfl
  | ok items => rfl

/-- A negation asserts the negated filter of the same values. -/
theorem Asserts.not {name : String} {part : Part} {template : Template} {values : List Value}
    {filter : SearchFilter} (h : Asserts name part template values filter) :
    (negation part).Renders (.not template) values ∧
      (Template.not template).fill (values.map assertedBytes) = some (.not filter, []) := by
  refine ⟨negation_renders h.renders, ?_⟩
  rw [Template.fill, h.fills]
  rfl

theorem Asserts.negated (hname : IsPlainName definition.backendName)
    (hnullable : definition.nullable = true) {part : Part} {template : Template}
    {values : List Value} {filter : SearchFilter}
    (h : Asserts definition.backendName part template values filter) :
    let absent := Template.not (.pattern definition.backendName [[], []])
    (negated definition part).Renders (.or [.not template, absent]) values ∧
      (Template.or [.not template, absent]).fill (values.map assertedBytes) =
        some (.or [.not filter, .not (.present definition.backendName)], []) := by
  have hparts : List.Forall₂ (fun part item => part.Renders item.1 item.2)
      [negation part, negation (presence definition)]
      [(.not template, values), (.not (.pattern definition.backendName [[], []]), [])] :=
    .cons (negation_renders h.renders) (.cons (negation_renders (presence_renders hname)) .nil)
  have hrenders := disjunction_renders (List.cons_ne_nil _ _) hparts
  rw [List.flatMap_cons, List.flatMap_singleton, List.append_nil] at hrenders
  constructor
  · rw [Directory.negated, if_pos hnullable]
    exact hrenders
  · simp only [Template.fill, Template.fillAll, h.fills]
    rfl

/-- An inequality that can be written is the negation of the equality, which can be written too, and
asks for absence as well. Without a candidate both are known whatever the entry. -/
theorem exists_equality {op opposite : BinaryOp} (hop : op.opposite? = some opposite)
    (hname : IsPlainName definition.backendName) {value : Value} (hvalue : value ≠ .null)
    {part : Part} (h : comparison opposite (.attr definition) (.value value) = .ok part) :
    (∃ equality template values filter,
      comparison op (.attr definition) (.value value) = .ok equality ∧
      part = negated definition equality ∧
      Asserts definition.backendName equality template values filter ∧
      ((∀ value ∈ values, IsBindable value) ↔ .null ∉ value.elements) ∧ value.elements ≠ []) ∨
    value.elements = [] ∧
      comparison op (.attr definition) (.value value) = .ok (truth false) ∧ part = truth true := by
  have hnull : value.isNull = false := by
    rw [Bool.eq_false_iff, ne_eq, Value.isNull_eq_true_iff]
    exact hvalue
  cases op with
  | eq =>
      cases hop
      left
      rw [comparison_ne hnull, map_eq_ok] at h
      obtain ⟨equality, hequality, rfl⟩ := h
      rw [hequality]
      rw [comparison_eq hnull] at hequality
      obtain ⟨coerced, hasserts, hbindable, hcollection⟩ := asserts_item hname hequality
      -- A value that could be coerced for one item is no collection.
      have helements : value.elements = [value] := by
        cases value <;> first | rfl | exact absurd rfl hvalue | exact absurd rfl (hcollection _)
      refine ⟨equality, _, _, _, rfl, rfl, hasserts, ?_, by simp [helements]⟩
      rw [List.forall_mem_singleton, hbindable, helements, List.mem_singleton, ne_comm]
  | containsOneOf =>
      cases hop
      by_cases hempty : value.elements = []
      · right
        have hempty' : value.elements.isEmpty = true := by simp [hempty]
        simp only [comparison, attributeOf, valueOf, Bind.bind, Except.bind, membership, hempty']
          at h ⊢
        cases h
        exact ⟨hempty, rfl, rfl⟩
      · left
        rw [comparison_containsNone hempty, map_eq_ok] at h
        obtain ⟨equality, hequality, rfl⟩ := h
        rw [hequality]
        rw [comparison_containsOneOf hempty, map_eq_ok] at hequality
        obtain ⟨items, hitems, rfl⟩ := hequality
        obtain ⟨template, values, filter, hasserts, hbindable⟩ := asserts_any hname hempty hitems
        exact ⟨_, template, values, filter, rfl, rfl, hasserts, hbindable, hempty⟩
  | _ => cases hop

end Directory

namespace Filter

variable {filter : Filter} {expr : Expr}

/-- The negation of an equality with a literal and the inequality are evaluated alike. In a
directory they select alike exactly those entries in which the attribute is present, unless there is
nothing that it could be equal to. Neither can be bound if it could be equal to NULL. -/
theorem selects_not_equality_iff (hbackend : filter.backend = .directory)
    (hnames : ∀ entry ∈ filter.schema, IsPlainName entry.2.backendName) {path : String}
    {expected : ValueType} {definition : Attribute}
    (hattr : filter.schema.resolve path expected = .ok definition)
    (hnullable : definition.nullable = true) {op opposite : BinaryOp}
    (hop : op.opposite? = some opposite) {value : Value} (hvalue : value ≠ .null) (type : ValueType)
    (hcompile : (filter.compile (.binary opposite (.reference path expected)
      (.literal value type))).2 = none) (request : Request) :
    let negation := Expr.unary .not (.binary op (.reference path expected) (.literal value type))
    let inequality := Expr.binary opposite (.reference path expected) (.literal value type)
    (∀ env, negation.evaluate env = inequality.evaluate env) ∧
      ((∃ first second, filter.Reads negation request first ∧
          filter.Reads inequality request second ∧
          ∀ entry, first.selects entry = second.selects entry ↔
            isPresent entry definition.backendName = true ∨ value.elements = []) ∨
        .null ∈ value.elements ∧ ∀ parsed,
          ¬ filter.Reads negation request parsed ∧ ¬ filter.Reads inequality request parsed) := by
  intro negation inequality
  refine ⟨fun env => evaluate_not_opposite hop env _ _, ?_⟩
  have hname : IsPlainName definition.backendName := by
    obtain ⟨_, _, _, hfound, _⟩ := Schema.resolve_eq_ok hattr
    exact hnames _ (Named.mem_of_get? hfound)
  have hdialect : ∀ expr, (filter.compiler expr).dialect = Directory.dialect := by
    intro expr
    rw [compiler, dialect, hbackend]
    rfl
  obtain ⟨hcomparison, hcomparison'⟩ := BinaryOp.isComparison_of_opposite? hop
  -- What the inequality compiles to shows what the equality is written as.
  obtain ⟨written, hinequality⟩ := exists_compilePart hcompile
  have hwritten :
      Directory.comparison opposite (.attr definition) (.value value) = .ok written := by
    obtain ⟨c, hc, hcondition⟩ := bind_eq_ok.mp hinequality
    have hc : (filter.compiler inequality).compile inequality = .ok c := hc
    rw [Compiler.compile_attr_literal hattr hcomparison', hdialect, map_eq_ok] at hc
    obtain ⟨part, hpart, rfl⟩ := hc
    cases hcondition
    exact hpart
  have hnegation : ∀ equality,
      Directory.comparison op (.attr definition) (.value value) = .ok equality →
      compilePart filter.backend filter.schema negation = .ok (Directory.negation equality) := by
    intro equality hequality
    have hoperand : (filter.compiler negation).compile
        (.binary op (.reference path expected) (.literal value type)) =
          .ok (.condition equality) := by
      rw [Compiler.compile_attr_literal hattr hcomparison, hdialect]
      exact congrArg (Except.map Compiled.condition) hequality
    refine compilePart_of_condition ?_
    rw [Compiler.compile_not hoperand, hdialect]
    rfl
  rcases exists_equality hop hname hvalue hwritten with
    ⟨equality, template, values, asserted, hequality, rfl, hasserts, hbindable, hne⟩ |
      ⟨hempty, hfalse, rfl⟩
  · obtain ⟨hrenders, hfill⟩ := hasserts.not
    obtain ⟨hrenders', hfill'⟩ := hasserts.negated hname hnullable
    have hreads := reads_iff_of_renders hnames (hnegation equality hequality) hrenders request
    have hreads' := reads_iff_of_renders hnames hinequality hrenders' request
    by_cases hnull : .null ∈ value.elements
    · refine .inr ⟨hnull, fun parsed => ⟨fun h => ?_, fun h => ?_⟩⟩
      · exact hbindable.mp ((hreads parsed).mp h).1 hnull
      · exact hbindable.mp ((hreads' parsed).mp h).1 hnull
    · have hall := hbindable.mpr hnull
      refine .inl ⟨_, _, (hreads _).mpr ⟨hall, hfill⟩, (hreads' _).mpr ⟨hall, hfill'⟩, ?_⟩
      intro entry
      rw [selects_not_eq_iff hasserts.asks, or_iff_left hne]
  · refine .inl ⟨_, _,
      reads_of_denotes (hnegation _ hfalse) (denotes_negation (denotes_truth false)),
      reads_of_denotes hinequality (denotes_truth true), fun entry => ?_⟩
    exact iff_of_true rfl (.inr hempty)

private def optionalText : Filter :=
  .new .directory [("a", ⟨"a", "a", .string, true, false⟩)]

/-- An entry without the attribute tells the negation of an equality from the inequality. -/
theorem selects_not_equality_missing :
    ∃ first second,
      optionalText.Reads (.unary .not (.binary .eq (.reference "object.a" .any)
        (.literal (.string "v") .string))) {} first ∧
      optionalText.Reads (.binary .ne (.reference "object.a" .any)
        (.literal (.string "v") .string)) {} second ∧
      first.selects ⟨"cn=x", []⟩ ≠ second.selects ⟨"cn=x", []⟩ := by
  have hnames : ∀ entry ∈ optionalText.schema, IsPlainName entry.2.backendName := by
    intro entry hentry
    obtain rfl := List.mem_singleton.mp hentry
    exact ⟨by decide, List.all_iff_forall_prop.mp (by decide)⟩
  have hattr : optionalText.schema.resolve "object.a" .any =
      .ok ⟨"a", "a", .string, true, false⟩ := rfl
  have hvalue : Value.string "v" ≠ .null := by simp
  have hcompile : (optionalText.compile (.binary .ne (.reference "object.a" .any)
      (.literal (.string "v") .string))).2 = none := by
    have hpart : ∃ part, compilePart optionalText.backend optionalText.schema
        (.binary .ne (.reference "object.a" .any) (.literal (.string "v") .string)) = .ok part := by
      rw [compilePart, Compiler.compile_attr_literal hattr rfl]
      exact ⟨_, rfl⟩
    obtain ⟨part, hpart⟩ := hpart
    rw [compile_of_part hpart]
  obtain ⟨-, ⟨first, second, hfirst, hsecond, hiff⟩ | ⟨hnull, -⟩⟩ :=
    selects_not_equality_iff rfl hnames hattr rfl (show BinaryOp.eq.opposite? = some .ne from rfl)
      hvalue .string hcompile {}
  · refine ⟨first, second, hfirst, hsecond, fun h => ?_⟩
    rcases (hiff _).mp h with hpresent | hempty
    · exact absurd hpresent (by decide)
    · cases hempty
  · cases List.mem_singleton.mp hnull

end Filter

end RowFilter
