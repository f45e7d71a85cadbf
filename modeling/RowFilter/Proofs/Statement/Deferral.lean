import RowFilter.Proofs.Expr.Inlining
import RowFilter.Proofs.Statement.Correspondence
import RowFilter.Proofs.Statement.Operands
import RowFilter.Proofs.Statement.Upholding

/-! # Deferring values

A value that an attribute is compared with may stand in the expression or be supplied by a request.
If it stands there, the comparison is written once; if not, it is tried with NULL and written for
each request. Both give the same statement, and fail for the same values unless a constant decides
the junction that the comparison stands in.
-/

namespace RowFilter

/-! ## Dialects -/

/-- No condition is lost, and comparisons that can be written of some value can be written of
NULL. -/
structure Dialect.Defers (dialect : Dialect) : Prop extends Dialect.Exposes dialect where
  comparison : ∀ {op definition value part},
    dialect.comparison op (.attr definition) (.value value) = .ok part →
      ∃ trial, dialect.comparison op (.attr definition) (.value .null) = .ok trial

theorem Tabular.dialect_defers : dialect.Defers where
  negation h := (Part.merges_thenPart.mp (Part.merges_thenText.mp h)).2
  junction h := (Part.merges_thenJoined (Part.merges_thenText.mp h)).2
  comparison {op definition value part} h := by
    by_cases hop : op = .containsOneOf ∨ op = .containsNone
    · have h : comparison op (.attr definition) (.value value) = .ok part := h
      have hnull : dialect.comparison op (.attr definition) (.value .null) =
          membership op (.attr definition) (.value .null) := comparison_membership hop _ _
      rw [comparison_membership hop, membership] at h
      rw [hnull, membership]
      by_cases htype : (Term.attr definition).type = .collection
      · rw [if_pos htype] at h
        cases h
      · rw [if_neg htype]
        exact ⟨_, rfl⟩
    · have hnull : dialect.comparison op (.attr definition) (.value .null) = _ :=
        comparison_null op (.attr definition) hop
      rw [hnull]
      cases op <;> exact ⟨_, rfl⟩

theorem Directory.dialect_defers : dialect.Defers where
  negation h := (Part.merges_thenPart.mp (Part.merges_thenText.mp h)).2
  junction h := (Part.merges_foldl_thenPart (Part.merges_thenText.mp h)).2
  comparison {op definition value part} h := by
    cases op <;> exact ⟨_, rfl⟩

theorem Backend.dialect_defers (backend : Backend) : backend.dialect.Defers := by
  cases backend with
  | tabular => exact Tabular.dialect_defers
  | directory => exact Directory.dialect_defers

/-! ## Comparisons with an attribute -/

namespace Compiler

variable {compiler : Compiler} {request : Request}

/-- Operands that are known are written at once. -/
theorem renderTwo_ready (left right : Term) (write : Term → Term → Rendering) :
    compiler.renderTwo (.ready left) (.ready right) write = write left right := by
  rw [renderTwo, render]
  cases hwritten : write left right with
  | error fault => simp only [List.map_cons, List.map_nil, Slot.trial, hwritten]; rfl
  | ok part => simp only [List.map_cons, List.map_nil, Slot.trial, hwritten]; rfl

/-- A comparison of an attribute with a literal is written as the dialect writes it. -/
theorem compile_attr_literal {path : String} {expected : ValueType}
    {definition : Attribute} (hattr : compiler.schema.resolve path expected = .ok definition)
    {op : BinaryOp} (hop : op.isComparison = true) (value : Value) (type : ValueType) :
    compiler.compile (.binary op (.reference path expected) (.literal value type)) =
      (compiler.dialect.comparison op (.attr definition) (.value value)).map .condition := by
  have hliteral : compiler.compile (.literal value type) = .ok (.constant value) := by rw [compile]
  rw [compile_comparison hop (compile_rowReference hattr) hliteral,
    comparison_attr _ op definition (show Slot.ofCompiled (.constant value) =
      .ok (.ready (.value value)) from rfl), renderTwo_ready]

/-- For a request, a deferred comparison is the one with the value that the request supplies. -/
theorem merge_deferred_comparison {expr : Expr} {value : Value}
    (hvalue : request.evaluate expr = .ok value) {op : BinaryOp} {definition : Attribute}
    {part : Part}
    (h : compiler.renderTwo (.ready (.attr definition)) (.deferred expr)
      (compiler.dialect.comparison op) = .ok part) :
    part.merge request = compiler.mergeRendering request
      (compiler.dialect.comparison op (.attr definition) (.value value)) := by
  rw [merge_renderTwo h, Slot.term, Slot.term, hvalue]
  rfl

section

variable {dialect : Dialect} {schema : Schema} {source source' : String} {expr : Expr}
  {value : Value} (hvalue : request.evaluate expr = .ok value) {op : BinaryOp}
  {definition : Attribute}

include hvalue

/-- What can be compared with a value can be compared with one that is supplied later. -/
theorem exists_deferred_comparison (hdefers : dialect.Defers) {written : Part}
    (h : Compiler.renderTwo ⟨dialect, schema, source'⟩ (.ready (.attr definition))
      (.ready (.value value)) (dialect.comparison op) = .ok written) :
    ∃ part, Compiler.renderTwo ⟨dialect, schema, source⟩ (.ready (.attr definition))
      (.deferred expr) (dialect.comparison op) = .ok part ∧ part.Alike request written := by
  rw [renderTwo_ready] at h
  obtain ⟨trial, htrial⟩ := hdefers.comparison h
  obtain ⟨part, hpart⟩ := @renderTwo_ok ⟨dialect, schema, source⟩ (.ready (.attr definition))
    (.deferred expr) (dialect.comparison op) trial htrial
  refine ⟨part, hpart, fun statement => ?_⟩
  rw [merge_deferred_comparison hvalue hpart, h, mergeRendering]

/-- If a deferred comparison merges with the value that a request supplies, it can be written with
that value. -/
theorem exists_written_comparison {part : Part}
    (h : Compiler.renderTwo ⟨dialect, schema, source⟩ (.ready (.attr definition))
      (.deferred expr) (dialect.comparison op) = .ok part) (hmerges : part.Merges request) :
    ∃ written, Compiler.renderTwo ⟨dialect, schema, source'⟩ (.ready (.attr definition))
      (.ready (.value value)) (dialect.comparison op) = .ok written ∧
        part.Alike request written := by
  rw [renderTwo_ready]
  obtain ⟨statement, hstatement⟩ := hmerges
  rw [merge_deferred_comparison hvalue h] at hstatement
  cases hwritten : dialect.comparison op (.attr definition) (.value value) with
  | ok written =>
      refine ⟨written, rfl, fun statement => ?_⟩
      rw [merge_deferred_comparison hvalue h, hwritten, mergeRendering]
  | error fault =>
      rw [hwritten] at hstatement
      cases hstatement

end

/-- A comparison of a row path compiles exactly if the path names an attribute and the comparison
of that attribute can be rendered. -/
theorem compile_rowOnLeft_eq_ok {op : BinaryOp} (hop : op.isComparison = true) {row : String}
    (hrow : isRowPath row = true) {expected : ValueType} {other : Expr} {operand : Compiled}
    (hother : compiler.compile other = .ok operand) {slot : Slot}
    (hslot : Slot.ofCompiled operand = .ok slot) {c : Compiled} :
    compiler.compile (.binary op (.reference row expected) other) = .ok c ↔
      ∃ definition part, compiler.schema.resolve row expected = .ok definition ∧
        compiler.renderTwo (.ready (.attr definition)) slot (compiler.dialect.comparison op) =
          .ok part ∧ .condition part = c := by
  constructor
  · intro h
    cases hresolve : compiler.schema.resolve row expected with
    | error fault =>
        rw [compile, if_neg (BinaryOp.not_isLogical hop), compile_row hrow, hresolve] at h
        cases h
    | ok definition =>
        rw [compile_comparison hop (compile_rowReference hresolve) hother,
          comparison_attr _ _ _ hslot] at h
        obtain ⟨part, hpart, rfl⟩ := map_eq_ok.mp h
        exact ⟨definition, part, rfl, hpart, rfl⟩
  · rintro ⟨definition, part, hresolve, hpart, rfl⟩
    rw [compile_comparison hop (compile_rowReference hresolve) hother,
      comparison_attr _ _ _ hslot, hpart]
    rfl

/-- With a value on the left, the comparison must have one with its sides exchanged. -/
theorem compile_rowOnRight_eq_ok {op : BinaryOp} (hop : op.isComparison = true) {row : String}
    (hrow : isRowPath row = true) {expected : ValueType} {other : Expr} {operand : Compiled}
    (hother : compiler.compile other = .ok operand) (hvalue : operand.isValue = true) {slot : Slot}
    (hslot : Slot.ofCompiled operand = .ok slot) {c : Compiled} :
    compiler.compile (.binary op other (.reference row expected)) = .ok c ↔
      ∃ flipped definition part, exchange op = .ok flipped ∧
        compiler.schema.resolve row expected = .ok definition ∧
        compiler.renderTwo (.ready (.attr definition)) slot (compiler.dialect.comparison flipped) =
          .ok part ∧ .condition part = c := by
  constructor
  · intro h
    cases hresolve : compiler.schema.resolve row expected with
    | error fault =>
        rw [compile, if_neg (BinaryOp.not_isLogical hop), hother, compile_row hrow, hresolve] at h
        cases h
    | ok definition =>
        rw [compile_comparison hop hother (compile_rowReference hresolve)] at h
        cases hflip : exchange op with
        | error fault =>
            have hmem : Compiled.attr definition ∈ [operand, .attr definition] :=
              List.mem_cons_of_mem _ List.mem_cons_self
            rw [comparison, fold?_eq_none _ hmem rfl] at h
            simp only [Bind.bind, Except.bind, if_pos hvalue, hflip] at h
            cases h
        | ok flipped =>
            rw [comparison_exchange _ hflip definition hvalue hslot] at h
            obtain ⟨part, hpart, rfl⟩ := map_eq_ok.mp h
            exact ⟨flipped, definition, part, rfl, rfl, hpart, rfl⟩
  · rintro ⟨flipped, definition, part, hflip, hresolve, hpart, rfl⟩
    rw [compile_comparison hop hother (compile_rowReference hresolve),
      comparison_exchange _ hflip definition hvalue hslot, hpart]
    rfl

/-- What varies compiles to no constant if no operand of a junction in it is without paths. -/
theorem isConstant_eq_false {expr : Expr} (hvary : expr.JunctionsVary) (hpaths : expr.paths ≠ []) :
    Yields (fun c => c.isConstant = false) (compiler.compile expr) := by
  have harises : ∀ {expr : Expr} {operands : List Compiled} {c : Compiled},
      c.Arises compiler.dialect expr operands → expr.paths ≠ [] → c.isConstant = false := by
    intro expr operands c h hpaths
    rw [Bool.eq_false_iff]
    intro hconstant
    cases h with
    | folded _ hfolded => exact hpaths (Expr.paths_of_isConstant expr (hfolded hconstant))
    | rendered hvalue =>
        cases c with
        | constant value => cases hvalue
        | _ => cases hconstant
  refine fun c hc => compile_induction (motive := fun expr c =>
    expr.JunctionsVary → expr.paths ≠ [] → c.isConstant = false)
    ?literal ?row ?other ?call ?unary ?junction ?binary c hc hvary hpaths
  case literal =>
    intro value type _ hpaths
    exact absurd (by rw [Expr.paths]) hpaths
  case row =>
    intro path expected definition _ _ _
    rfl
  case other =>
    intro path expected _ _ _
    rfl
  case call =>
    intro function arguments expected compiled c _ _ hc _
    exact harises (call_arises c hc)
  case unary =>
    intro op operand compiled c _ _ _ hc _
    exact harises (unary_arises c hc)
  case junction =>
    intro op left right operands c hop _ hoperands hc hvary hpaths
    -- Only a constant decides a junction, and no operand compiles to one.
    rcases junction_arises c hc with h | ⟨-, operand, hoperand, hconstant⟩
    · exact harises h hpaths
    · obtain ⟨expr, hexpr, -, hmotive⟩ := exists_of_forall₂ hoperands hoperand
      rw [hmotive (hvary.mono (Expr.subexpressions_chain hexpr))
        (hvary.chain hop hpaths hexpr)] at hconstant
      cases hconstant
  case binary =>
    intro op left right first second c _ _ _ _ _ _ hc _
    exact harises (binary_arises c hc)

end Compiler

end RowFilter
