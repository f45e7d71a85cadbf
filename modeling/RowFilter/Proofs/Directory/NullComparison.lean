import Mathlib.Logic.Function.Iterate
import RowFilter.Proofs.Directory.Denotation
import RowFilter.Proofs.Statement.Compiling

/-! # Comparisons with NULL under negation

A directory comparison with a value that a request leaves NULL is written as a condition that never
holds. That condition is a definite one, so each negation around it turns it over, while evaluation
keeps NULL.
-/

namespace RowFilter

open Directory

namespace BinaryOp

/-- The operators whose result is NULL if an operand is. -/
def isStrict : BinaryOp → Bool
  | lt | le | gt | ge | like => true
  | _ => false

variable {op : BinaryOp}

theorem isComparison_of_isStrict (h : op.isStrict = true) : op.isComparison = true := by
  cases op <;> first | rfl | cases h

theorem isLogical_of_isStrict (h : op.isStrict = true) : op.isLogical = false := by
  cases op <;> first | rfl | cases h

theorem apply_null (h : op.isStrict = true) (left : Value) : op.apply left .null = .ok .null := by
  cases op <;> simp_all [apply, isStrict, Value.isNull]

end BinaryOp

/-- A comparison of an attribute with NULL is written as the condition that never holds. -/
theorem Directory.comparison_null {op : BinaryOp} (hop : op.isStrict = true)
    (definition : Attribute) :
    comparison op (.attr definition) (.value .null) = .ok (truth false) := by
  cases op <;> first | rfl | cases hop

namespace Compiler

variable {compiler : Compiler} {request : Request}

/-- A comparison with NULL denotes a condition that never holds. -/
theorem compile_null_comparison (hdialect : compiler.dialect = Directory.dialect)
    {op : BinaryOp} (hop : op.isStrict = true) {path : String} {expected : ValueType}
    {definition : Attribute} (hattr : compiler.schema.resolve path expected = .ok definition)
    {name : String} (hname : isRowPath name = false) {type : ValueType}
    (hnull : request.evaluate (.reference name type) = .ok .null) :
    ∃ part, compiler.compile (.binary op (.reference path expected) (.reference name type)) =
        .ok (.condition part) ∧
      part.Denotes request (truthFilter false) := by
  have hwrite : compiler.dialect.comparison op (.attr definition) (.value .null) =
      .ok (truth false) := by
    rw [hdialect]
    exact Directory.comparison_null hop definition
  have hrender : ∃ part, compiler.renderTwo (.ready (.attr definition))
      (.deferred (.reference name type)) (compiler.dialect.comparison op) = .ok part :=
    renderTwo_ok hwrite
  obtain ⟨part, hpart⟩ := hrender
  refine ⟨part, ?_, (denotes_truth false).of_merge_eq ?_⟩
  · rw [compile_comparison (BinaryOp.isComparison_of_isStrict hop) (compile_rowReference hattr)
        (compile_reference hname type),
      comparison_attr _ op definition (show Slot.ofCompiled (.dynamic (.reference name type)) =
        .ok (.deferred (.reference name type)) from rfl), hpart]
    rfl
  · rw [merge_renderTwo hpart, Slot.term, Slot.term, hnull]
    simp only [Except.bind, hwrite, mergeRendering]

/-- Negations around a condition negate what it denotes. -/
theorem compile_iterate_not (hdialect : compiler.dialect = Directory.dialect) {operand : Expr}
    {filter : SearchFilter} (h : ∃ part, compiler.compile operand = .ok (.condition part) ∧
      part.Denotes request filter) (n : Nat) :
    ∃ part, compiler.compile ((Expr.unary .not)^[n] operand) = .ok (.condition part) ∧
      part.Denotes request (SearchFilter.not^[n] filter) := by
  induction n with
  | zero => exact h
  | succ n ih =>
      obtain ⟨part, hcompile, hpart⟩ := ih
      rw [Function.iterate_succ_apply', Function.iterate_succ_apply']
      refine ⟨_, compile_not hcompile, ?_⟩
      rw [hdialect]
      exact denotes_negation hpart

end Compiler

/-- A condition that never holds selects under an odd number of negations. -/
theorem selects_iterate_not (entry : Entry) (n : Nat) :
    (SearchFilter.not^[n] (truthFilter false)).selects entry = true ↔ n % 2 = 1 := by
  have heval : (SearchFilter.not^[n] (truthFilter false)).evaluate entry =
      some (decide (n % 2 = 1)) := by
    induction n with
    | zero => rfl
    | succ n ih =>
        rw [Function.iterate_succ_apply', SearchFilter.evaluate, ih]
        rcases Nat.mod_two_eq_zero_or_one n with h | h
        · rw [Truth.negate, Nat.add_mod, h]
          rfl
        · rw [Truth.negate, Nat.add_mod, h]
          rfl
  rw [SearchFilter.selects, heval]
  simp

/-- However often NULL is negated, it is NULL. -/
theorem evaluate_iterate_not {env : Environment} {operand : Expr}
    (h : operand.evaluate env = .ok .null) (n : Nat) :
    ((Expr.unary .not)^[n] operand).evaluate env = .ok .null := by
  induction n with
  | zero => exact h
  | succ n ih =>
      rw [Function.iterate_succ_apply', Expr.evaluate, ih]
      rfl

/-- Under negations a comparison of an attribute with NULL selects every entry if their number is
odd and none if it is even, although evaluation makes all of them NULL. -/
theorem selects_null_comparison_iff_odd {filter : Filter} (hbackend : filter.backend = .directory)
    {op : BinaryOp} (hop : op.isStrict = true) {path : String} {expected : ValueType}
    {definition : Attribute} (hattr : filter.schema.resolve path expected = .ok definition)
    {name : String} (hname : isRowPath name = false) {request : Request}
    (hnull : (filter.resolverFor request name).getD .null = .null) (type : ValueType) (n : Nat) :
    (∃ parsed, filter.Reads ((Expr.unary .not)^[n]
        (.binary op (.reference path expected) (.reference name type))) request parsed ∧
      ∀ entry, parsed.selects entry = true ↔ n % 2 = 1) ∧
    ∀ env : Environment, (env.resolve name).getD .null = .null →
      ((Expr.unary .not)^[n] (.binary op (.reference path expected)
        (.reference name type))).evaluate env = .ok .null := by
  constructor
  · generalize hexpr : (Expr.unary .not)^[n]
      (.binary op (.reference path expected) (.reference name type)) = expr
    have hnull' : (filter.bindRequest request).evaluate (.reference name type) = .ok .null := by
      rw [Request.evaluate, Expr.evaluate]
      exact congrArg Except.ok hnull
    have hdialect : filter.backend.dialect = Directory.dialect := by
      rw [hbackend]
      rfl
    have hbase := @Compiler.compile_null_comparison
      ⟨filter.backend.dialect, filter.schema, expr.text⟩ _ hdialect _ hop _ expected _ hattr _ hname
      type hnull'
    obtain ⟨part, hcompile, hpart⟩ := Compiler.compile_iterate_not hdialect hbase n
    rw [hexpr] at hcompile
    have hcompilePart : Filter.compilePart filter.backend filter.schema expr = .ok part := by
      simp only [Filter.compilePart, hcompile, Bind.bind, Except.bind, Compiler.condition]
    exact ⟨_, Filter.reads_of_denotes hcompilePart hpart, fun entry => selects_iterate_not entry n⟩
  · intro env henv
    refine evaluate_iterate_not ?_ n
    rw [Expr.evaluate, if_neg (by simp [BinaryOp.isLogical_of_isStrict hop])]
    simp only [Expr.evaluate, Bind.bind, Except.bind, henv]
    exact BinaryOp.apply_null hop _

/-- One negation of a comparison with a variable that the request leaves out selects all entries. -/
theorem selects_not_lt_missing :
    ∃ parsed, (Filter.new .directory [("a", ⟨"a", "a", .number, false, false⟩)]).Reads
        (.unary .not (.binary .lt (.reference "object.a" .any) (.reference "user.x" .any))) {}
        parsed ∧
      ∀ entry, parsed.selects entry = true := by
  obtain ⟨⟨parsed, hreads, hselects⟩, -⟩ := @selects_null_comparison_iff_odd
    (Filter.new .directory [("a", ⟨"a", "a", .number, false, false⟩)]) rfl .lt (by decide)
    "object.a" .any ⟨"a", "a", .number, false, false⟩ (by rfl) "user.x" (by decide) {} (by rfl)
    .any 1
  exact ⟨parsed, hreads, fun entry => (hselects entry).mpr rfl⟩

end RowFilter
