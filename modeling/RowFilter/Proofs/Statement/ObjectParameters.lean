import RowFilter.Proofs.Statement.Candidates
import RowFilter.Proofs.Statement.DialectClosure
import RowFilter.Proofs.Statement.Upholding
import RowFilter.Proofs.Value.BoundLiteral

/-! # Objects as parameters

Over tables no value is bound that is an object, but for the candidates of a membership, which are
only converted. So an object becomes a parameter exactly if a membership that stands in the
statement offers one.
-/

namespace RowFilter

namespace Value

variable {target : ValueType} {value coerced : Value}

def IsObject (value : Value) : Prop :=
  ∃ properties, value = .object properties

/-- Objects are the values of that type. -/
theorem isObject_iff_type : value.IsObject ↔ value.type = .object := by
  cases value <;> simp [IsObject, type]

/-- Nothing is converted to an object, and an object only to itself or a collection. -/
theorem isObject_iff_of_coerce? (htarget : target ≠ .collection)
    (h : value.coerce? target = some coerced) : coerced.IsObject ↔ value.IsObject := by
  by_cases hnull : value.isNull = true
  · rw [isNull_eq_true_iff] at hnull
    rw [(coerce?_eq_null_iff h).mpr hnull, hnull]
  · by_cases hany : target = .any
    · subst hany
      rw [coerce?, if_neg hnull, Option.some.injEq] at h
      rw [h]
    · rw [isObject_iff_type, type_of_coerce? (by simpa using hnull) hany h]
      constructor
      · rintro rfl
        cases value with
        | object properties => exact ⟨properties, rfl⟩
        | null => exact absurd rfl hnull
        | _ => cases h
      · rintro ⟨properties, rfl⟩
        cases target with
        | object => rfl
        | any => exact absurd rfl hany
        | collection => exact absurd rfl htarget
        | _ => cases h

theorem coerce?_of_coerceLiteral (h : value.coerceLiteral target = .ok coerced) :
    value.coerce? target = some coerced := by
  unfold coerceLiteral at h
  split at h
  next hsome =>
    cases h
    exact hsome
  next => cases h

end Value

namespace Part

variable {request : Request} {Q : Value → Prop} {part inner : Part}

theorem not_carries_thenPart (hpart : ¬part.Carries request Q) (hinner : ¬inner.Carries request Q) :
    ¬(part.thenPart inner).Carries request Q := by
  intro h
  rcases (carries_thenPart h.merges).mp h with h | h
  · exact hpart h
  · exact hinner h

/-- Joined parts carry what any of them carries. -/
theorem carries_thenJoined {separator : String} {parts : List Part}
    (h : (part.thenJoined separator parts).Merges request) :
    (part.thenJoined separator parts).Carries request Q ↔
      part.Carries request Q ∨ ∃ inner ∈ parts, inner.Carries request Q := by
  induction parts generalizing part with
  | nil => simp [thenJoined]
  | cons first rest ih =>
      cases rest with
      | nil =>
          rw [thenJoined, carries_thenPart h]
          simp
      | cons second more =>
          obtain ⟨hfirst, -⟩ : ((part.thenPart first).thenText separator).Merges request ∧
              ∀ inner ∈ second :: more, inner.Merges request := merges_thenJoined h
          refine (ih h).trans ?_
          rw [carries_thenText, carries_thenPart (merges_thenText.mp hfirst), or_assoc,
            List.exists_mem_cons_iff _ first]

end Part

namespace Tabular

open Value

variable {request : Request} {part inner : Part} {term left right : Term} {op : BinaryOp}

/-! ## What is checked -/

/-- No literal is an object. -/
theorem not_carries_literal {value : Value} {target : ValueType}
    (h : literal value target = .ok part) : ¬part.Carries request IsObject := by
  obtain ⟨coerced, -, h⟩ := bind_eq_ok.mp h
  split at h
  next => cases h
  next hne =>
    cases h
    rw [Part.carries_ofText]
    rintro ⟨value, hvalue, properties, rfl⟩
    obtain rfl := List.mem_singleton.mp hvalue
    exact hne properties rfl

/-- A term that lacks objects is written without one. -/
theorem not_carries_termPart {target : ValueType} (hterm : term.Lacks request IsObject)
    (h : termPart term target = .ok part) : ¬part.Carries request IsObject := by
  cases term with
  | attr definition =>
      cases h
      exact Part.not_carries_startingWith _
  | computed inner type =>
      cases h
      exact hterm
  | value value => exact not_carries_literal h

theorem not_carries_truth (holds : Bool) : ¬(truth holds).Carries request IsObject :=
  Part.not_carries_startingWith _

/-- Asking whether something is NULL adds no parameter. -/
theorem not_carries_nullCheck {isNull : Bool} (hterm : term.Lacks request IsObject)
    (h : nullCheck term isNull = .ok part) : ¬part.Carries request IsObject := by
  cases term with
  | value value =>
      cases h
      exact not_carries_truth _
  | attr | computed =>
      obtain ⟨found, hfound, h⟩ := bind_eq_ok.mp h
      cases h
      rw [Part.carries_thenText]
      exact not_carries_termPart hterm hfound

theorem not_carries_orNull {condition column : Part}
    (hcondition : ¬condition.Carries request IsObject)
    (hcolumn : ¬column.Carries request IsObject) :
    ¬(orNull condition column).Carries request IsObject := by
  rw [orNull, Part.carries_thenText]
  refine Part.not_carries_thenPart ?_ hcolumn
  rwa [Part.carries_thenText, Part.carries_opened]

theorem not_carries_nil : ¬Part.Carries request IsObject [] := by
  rw [Part.carries_of_merge (Part.merge_nil request)]
  simp [Statement.empty]

/-- A comparison carries no object if neither of its sides does. -/
theorem not_carries_plainComparison (hleft : left.Lacks request IsObject)
    (hright : right.Lacks request IsObject) (h : plainComparison op left right = .ok part) :
    ¬part.Carries request IsObject := by
  unfold plainComparison at h
  split at h
  next => cases h
  next symbol _ =>
    obtain ⟨l, hl, h⟩ := bind_eq_ok.mp h
    obtain ⟨r, hr, h⟩ := bind_eq_ok.mp h
    obtain rfl := Except.ok.inj h
    have hl := not_carries_termPart hleft hl
    have hcondition : ¬(((Part.thenPart [] l).thenText symbol).thenPart r).Carries request
        IsObject := by
      refine Part.not_carries_thenPart ?_ (not_carries_termPart hright hr)
      rw [Part.carries_thenText]
      exact Part.not_carries_thenPart not_carries_nil hl
    split
    next => exact not_carries_orNull hcondition hl
    next => exact hcondition

theorem not_carries_arithmetic (hleft : left.Lacks request IsObject)
    (hright : right.Lacks request IsObject) (h : arithmetic op left right = .ok part) :
    ¬part.Carries request IsObject := by
  unfold arithmetic at h
  simp only at h
  split at h
  next => cases h
  next symbol target _ =>
    obtain ⟨l, hl, h⟩ := bind_eq_ok.mp h
    obtain ⟨r, hr, h⟩ := bind_eq_ok.mp h
    cases h
    rw [Part.carries_thenText]
    refine Part.not_carries_thenPart ?_ (not_carries_termPart hright hr)
    rw [Part.carries_thenText, Part.carries_opened]
    exact not_carries_termPart hleft hl

theorem not_carries_call {name : String} (h : ¬part.Carries request IsObject) :
    ¬(call name part).Carries request IsObject := by
  rwa [call, Part.carries_thenText, Part.carries_opened]

theorem not_carries_function {builtin : Builtin} {arguments : List Term}
    (harguments : ∀ argument ∈ arguments, argument.Lacks request IsObject)
    (h : function builtin arguments = .ok part) : ¬part.Carries request IsObject := by
  obtain ⟨parts, hparts, h⟩ := bind_eq_ok.mp h
  have hnone : ∀ part ∈ parts, ¬part.Carries request IsObject := by
    intro part hpart
    obtain ⟨argument, hargument, hpart⟩ := exists_of_forall₂ (mapM_eq_ok.mp hparts) hpart
    exact not_carries_termPart (harguments argument hargument) hpart
  split at h
  next argument _ =>
    cases h
    exact not_carries_call (hnone argument (by simp))
  next argument _ =>
    cases h
    exact not_carries_call (hnone argument (by simp))
  next argument _ =>
    cases h
    exact not_carries_call (hnone argument (by simp))
  next argument _ =>
    cases h
    have hargument := hnone argument (by simp)
    rw [Part.carries_thenText]
    refine Part.not_carries_thenPart (Part.not_carries_thenPart ?_ hargument) ?_
    · rwa [Part.carries_thenText, Part.carries_opened]
    · rw [Part.carries_ofText]
      simp [IsObject]
  next first rest _ =>
    cases h
    rw [Part.carries_thenText]
    intro hcarries
    rcases (Part.carries_thenJoined hcarries.merges).mp hcarries with hopening | ⟨part, hpart, h⟩
    · exact Part.not_carries_startingWith _ hopening
    · exact hnone part hpart h
  next => cases h

/-! ## Memberships -/

/-- Coercing elements keeps those that are objects and makes no others. -/
theorem exists_isObject_iff {target : ValueType} (htarget : target ≠ .collection)
    {elements parameters : List Value}
    (h : elements.mapM (fun element => element.coerceLiteral target) = .ok parameters) :
    (∃ value ∈ parameters, value.IsObject) ↔ ∃ element ∈ elements, element.IsObject := by
  have hall := mapM_eq_ok.mp h
  clear h
  induction hall with
  | nil => simp
  | cons hfirst _ ih =>
      rw [List.exists_mem_cons_iff, List.exists_mem_cons_iff]
      exact or_congr (isObject_iff_of_coerce? htarget (coerce?_of_coerceLiteral hfirst)) ih

/-- That a column may be NULL as well adds no object to a condition. -/
theorem carries_orNull {condition column : Part} (hcolumn : ¬column.Carries request IsObject)
    (hmerges : (orNull condition column).Merges request) : condition.Merges request ∧
      ((orNull condition column).Carries request IsObject ↔
        condition.Carries request IsObject) := by
  rw [orNull, Part.merges_thenText] at hmerges
  have hopened := Part.merges_thenText.mp (Part.merges_thenPart.mp hmerges).1
  refine ⟨Part.merges_opened.mp hopened, ?_⟩
  rw [orNull, Part.carries_thenText, Part.carries_thenPart hmerges, Part.carries_thenText,
    Part.carries_opened, or_iff_left hcolumn]

/-- A list of candidates carries an object exactly if one of them is an object. -/
theorem carries_inList {column : Part} {keyword placeholders : String} {parameters : List Value}
    (hcolumn : ¬column.Carries request IsObject)
    (hmerges : ((((Part.thenPart [] column).thenText keyword).thenPart
      (Part.ofText placeholders parameters)).thenText ")").Merges request) :
    ((((Part.thenPart [] column).thenText keyword).thenPart
      (Part.ofText placeholders parameters)).thenText ")").Carries request IsObject ↔
        ∃ value ∈ parameters, value.IsObject := by
  rw [Part.merges_thenText] at hmerges
  rw [Part.carries_thenText, Part.carries_thenPart hmerges, Part.carries_ofText,
    Part.carries_thenText]
  exact or_iff_right (Part.not_carries_thenPart not_carries_nil hcolumn)

/-- Every candidate of a membership becomes a parameter. -/
theorem carries_membership (hleft : left.Lacks request IsObject)
    (h : membership op left right = .ok part) (hmerges : part.Merges request) :
    part.Carries request IsObject ↔
      ∃ value, right = .value value ∧ ∃ element ∈ value.elements, element.IsObject := by
  cases right with
  | attr | computed => cases h
  | value candidates =>
      unfold membership at h
      simp only at h
      split at h
      next => cases h
      next htarget =>
        split at h
        next hempty =>
          cases h
          refine iff_of_false (not_carries_truth _) ?_
          simp_all
        next =>
          obtain ⟨parameters, hparameters, h⟩ := bind_eq_ok.mp h
          obtain ⟨column, hcolumn, h⟩ := bind_eq_ok.mp h
          obtain rfl := Except.ok.inj h
          have hcolumn := not_carries_termPart hleft hcolumn
          have hcandidates : (∃ value, Term.value candidates = .value value ∧
              ∃ element ∈ value.elements, element.IsObject) ↔
                ∃ value ∈ parameters, value.IsObject := by
            rw [exists_isObject_iff htarget hparameters]
            simp
          rw [hcandidates]
          split at hmerges
          next hnullable =>
            obtain ⟨hcondition, hcarries⟩ := carries_orNull hcolumn hmerges
            rw [if_pos hnullable, hcarries]
            exact carries_inList hcolumn hcondition
          next hnullable =>
            rw [if_neg hnullable]
            exact carries_inList hcolumn hmerges

theorem merges_negation : (negation part).Merges request ↔ part.Merges request := by
  rw [negation, Part.merges_thenText, Part.merges_opened]

/-- A negated condition carries what the condition does. -/
theorem carries_negation :
    (negation part).Carries request IsObject ↔ part.Carries request IsObject := by
  rw [negation, Part.carries_thenText, Part.carries_opened]

/-- Comparisons other than memberships have no object for a parameter. -/
theorem not_carries_comparison (hop : ¬(op = .containsOneOf ∨ op = .containsNone))
    (hleft : left.Lacks request IsObject) (hright : right.Lacks request IsObject)
    (h : comparison op left right = .ok part) : ¬part.Carries request IsObject := by
  by_cases hnull : right = .value .null
  · subst hnull
    rw [comparison_null op left hop] at h
    split at h
    next => exact not_carries_nullCheck hleft h
    next => exact not_carries_nullCheck hleft h
    next =>
      cases h
      exact not_carries_truth false
  · by_cases htruth : ∃ inner b, left = .computed inner .boolean ∧ right = .value (.boolean b)
    · obtain ⟨inner, b, rfl, rfl⟩ := htruth
      rw [comparison_truth op inner b hop] at h
      have hnegated : ¬(negation inner).Carries request IsObject :=
        fun hcarries => hleft (carries_negation.mp hcarries)
      split at h
      next =>
        cases h
        cases b
        · exact hnegated
        · exact hleft
      next =>
        cases h
        cases b
        · exact hleft
        · exact hnegated
      next => exact not_carries_plainComparison hleft hright h
    · rw [comparison_plain hop hnull fun inner b hl hr => htruth ⟨inner, b, hl, hr⟩] at h
      exact not_carries_plainComparison hleft hright h

/-- A junction merges only where all its parts do, and carries what any of them carries. -/
theorem junction_guards {parts : List Part} (h : (junction op parts).Merges request) :
    (∀ part ∈ parts, part.Merges request) ∧
      ((junction op parts).Carries request IsObject ↔
        ∃ part ∈ parts, part.Carries request IsObject) := by
  rw [junction, Part.merges_thenText] at h
  refine ⟨(Part.merges_thenJoined h).2, ?_⟩
  rw [junction, Part.carries_thenText, Part.carries_thenJoined h]
  exact or_iff_right (Part.not_carries_startingWith _)

/-- The tabular dialect lets objects through among the candidates of a membership only. -/
theorem dialect_guards (request : Request) : dialect.Guards request IsObject IsObject where
  truth := not_carries_truth
  negation h := ⟨merges_negation.mp h, carries_negation⟩
  junction := junction_guards
  nullCheck := not_carries_nullCheck
  comparison := by
    intro op left right part hleft hright h hmerges
    by_cases hop : op = .containsOneOf ∨ op = .containsNone
    · rw [and_iff_right hop]
      exact carries_membership hleft ((comparison_membership hop left right).symm.trans h) hmerges
    · exact iff_of_false (not_carries_comparison hop hleft hright h) fun hmember => hop hmember.1
  arithmetic := not_carries_arithmetic
  function := not_carries_function

end Tabular

/-- A membership with an object among its candidates stands in the statement of the expression. -/
def Compiler.StatesObject (compiler : Compiler) (request : Request) (expr : Expr) : Prop :=
  compiler.States (compiler.Offers request Value.IsObject) expr

namespace Filter

variable {filter compiled : Filter} {expr : Expr}

/-- The parameters of what a tabular filter merges to are no objects exactly if no membership that
stands in it has an object among its candidates. -/
theorem merged_objects_iff (htabular : filter.backend = .tabular)
    (hcompile : filter.compile expr = (compiled, none)) {request : Request} {statement : Statement}
    (hmerge : compiled.merge request = .ok statement) :
    (∀ value ∈ statement.parameters, ¬value.IsObject) ↔
      ¬(filter.compiler expr).StatesObject (filter.bindRequest request) expr := by
  have hguards : (filter.compiler expr).dialect.Guards (filter.bindRequest request) Value.IsObject
      Value.IsObject := by
    rw [compiler, dialect, htabular]
    exact Tabular.dialect_guards _
  obtain ⟨c, part, hc, hpart, hmerged⟩ := compile_eq_ok hcompile
  rw [hmerged] at hmerge
  have hmerges : part.Merges (filter.bindRequest request) := ⟨statement, hmerge⟩
  rw [Compiler.StatesObject,
    ← Compiler.compile_carries_iff hguards c hc (Compiler.merges_of_condition hpart hmerges),
    ← Compiler.carries_condition_iff hguards (Compiler.compile_lacks hguards c hc) hpart hmerges,
    Part.carries_of_merge hmerge]
  simp

/-- A membership in a list that the request supplies. -/
private def amongSupplied : Expr :=
  .binary .containsOneOf (.reference "object.a" .any) (.reference "user.list" .any)

private def untypedColumn : Filter :=
  .new .tabular (Schema.ofList [⟨"a", "a", .any, false, false⟩])

private def listWithObject : Request :=
  { resolver := some fun path =>
      if path = "user.list" then some (.collection [.object [("n", .integer 1)]]) else none }

/-- An object in the list becomes a parameter. -/
theorem merge_listWithObject : ∃ compiled,
    untypedColumn.compile amongSupplied = (compiled, none) ∧
      compiled.merge listWithObject = .ok ⟨"a IN (?)", [.object [("n", .integer 1)]]⟩ := by
  have hattr : untypedColumn.schema.resolve "object.a" .any =
      .ok ⟨"a", "a", .any, false, false⟩ := rfl
  have hlist : (untypedColumn.compiler amongSupplied).compile (.reference "user.list" .any) =
      .ok (.dynamic (.reference "user.list" .any)) := Compiler.compile_reference rfl .any
  have hcompiled : ∃ part, (untypedColumn.compiler amongSupplied).compile amongSupplied =
      .ok (.condition part) ∧ part.merge (untypedColumn.bindRequest listWithObject) =
        .ok ⟨"a IN (?)", [.object [("n", .integer 1)]]⟩ := by
    have hcomparison : (untypedColumn.compiler amongSupplied).compile amongSupplied = _ :=
      Compiler.compile_comparison rfl (Compiler.compile_rowReference hattr) hlist
    rw [hcomparison]
    exact ⟨_, rfl, rfl⟩
  obtain ⟨part, hcondition, hmerge⟩ := hcompiled
  exact ⟨_, compile_of_condition hcondition rfl, hmerge⟩

/-- An object in a list of candidates is a parameter of the statement. -/
theorem merged_objects_listWithObject : ∃ compiled,
    untypedColumn.compile amongSupplied = (compiled, none) ∧
      compiled.merge listWithObject = .ok ⟨"a IN (?)", [.object [("n", .integer 1)]]⟩ ∧
      (untypedColumn.compiler amongSupplied).StatesObject
        (untypedColumn.bindRequest listWithObject) amongSupplied := by
  obtain ⟨compiled, hcompile, hmerge⟩ := merge_listWithObject
  refine ⟨compiled, hcompile, hmerge, Classical.byContradiction fun hnone => ?_⟩
  exact (merged_objects_iff rfl hcompile hmerge).mpr hnone _ List.mem_cons_self ⟨_, rfl⟩

theorem not_merged_objects : ¬∀ (filter compiled : Filter) (expr : Expr) (request : Request)
    (statement : Statement), filter.backend = .tabular → filter.compile expr = (compiled, none) →
      compiled.merge request = .ok statement → ∀ value ∈ statement.parameters, ¬value.IsObject := by
  intro h
  obtain ⟨compiled, hcompile, hmerge⟩ := merge_listWithObject
  exact h _ _ _ _ _ rfl hcompile hmerge _ List.mem_cons_self ⟨_, rfl⟩

end Filter

end RowFilter
