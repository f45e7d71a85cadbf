import RowFilter.Proofs.Expr.Evaluation
import RowFilter.Proofs.Expr.Subexpressions

/-! # Expressions with values for their variables

The values that a request gives to paths outside the row may as well stand in the expression. That
does not change its value or what of it is constant.
-/

namespace RowFilter

/-- No logical operator compares. -/
theorem BinaryOp.isComparison_of_isLogical {op : BinaryOp} (h : op.isLogical = true) :
    op.isComparison = false := by
  cases op <;> first | rfl | cases h

theorem BinaryOp.not_isLogical {op : BinaryOp} (h : op.isComparison = true) :
    ¬op.isLogical = true := by
  intro hlogical
  rw [isComparison_of_isLogical hlogical] at h
  cases h

namespace Expr

mutual

/-- The expression with literals for its paths outside the row. -/
def inlined (resolve : Resolver) : Expr → Expr
  | literal value type => literal value type
  | reference path expected =>
    if isRowPath path then reference path expected else ofValue ((resolve path).getD .null)
  | call function arguments expected => call function (inlinedAll resolve arguments) expected
  | unary op operand => unary op (operand.inlined resolve)
  | binary op left right => binary op (left.inlined resolve) (right.inlined resolve)

def inlinedAll (resolve : Resolver) : List Expr → List Expr
  | [] => []
  | argument :: rest => argument.inlined resolve :: inlinedAll resolve rest

end

/-- Every path outside the row is one side of a comparison whose other side is one of the row. -/
inductive ComparesVariables : Expr → Prop
  | literal (value : Value) (type : ValueType) : ComparesVariables (.literal value type)
  | row {path : String} (h : isRowPath path = true) (expected : ValueType) :
      ComparesVariables (.reference path expected)
  | call (function : Builtin) {arguments : List Expr}
      (h : ∀ argument ∈ arguments, ComparesVariables argument) (expected : ValueType) :
      ComparesVariables (.call function arguments expected)
  | unary (op : UnaryOp) {operand : Expr} (h : ComparesVariables operand) :
      ComparesVariables (.unary op operand)
  | binary (op : BinaryOp) {left right : Expr} (hleft : ComparesVariables left)
      (hright : ComparesVariables right) : ComparesVariables (.binary op left right)
  | onRight {op : BinaryOp} (hop : op.isComparison = true) {row path : String}
      (hrow : isRowPath row = true) (hpath : isRowPath path = false)
      (expected expected' : ValueType) :
      ComparesVariables (.binary op (.reference row expected) (.reference path expected'))
  | onLeft {op : BinaryOp} (hop : op.isComparison = true) {row path : String}
      (hrow : isRowPath row = true) (hpath : isRowPath path = false)
      (expected expected' : ValueType) :
      ComparesVariables (.binary op (.reference path expected') (.reference row expected))

/-- No operand of a junction in the expression is without paths. -/
def JunctionsVary (expr : Expr) : Prop :=
  ∀ op left right, binary op left right ∈ expr.subexpressions → op.isLogical = true →
    left.paths ≠ [] ∧ right.paths ≠ []

variable {resolve : Resolver}

theorem inlinedAll_eq_map (arguments : List Expr) :
    inlinedAll resolve arguments = arguments.map (inlined resolve) := by
  induction arguments with
  | nil => rw [inlinedAll, List.map_nil]
  | cons first rest ih => rw [inlinedAll, List.map_cons, ih]

/-- Paths of the row stay as they are. -/
theorem inlined_row {path : String} (h : isRowPath path = true) (expected : ValueType) :
    (reference path expected).inlined resolve = reference path expected := by
  rw [inlined, if_pos h]

theorem inlined_variable {path : String} (h : isRowPath path = false) (expected : ValueType) :
    (reference path expected).inlined resolve = ofValue ((resolve path).getD .null) := by
  rw [inlined, if_neg (by simp [h])]

/-- The operands of a chain are inlined one by one. -/
theorem chain_inlined (op : BinaryOp) (expr : Expr) :
    (expr.inlined resolve).chain op = (expr.chain op).map (inlined resolve) := by
  fun_induction chain op expr with
  | case1 left right ihleft ihright => rw [inlined, chain_binary, ihleft, ihright, List.map_append]
  | case2 inner left right hne =>
      rw [inlined, chain, if_neg hne, List.map_singleton, inlined]
  | case3 other hother =>
      rw [List.map_singleton]
      refine chain_of_ne fun left right h => ?_
      cases other with
      | binary inner left right => exact hother inner left right rfl
      | reference path expected =>
          rw [inlined] at h
          split at h <;> cases h
      | _ => 
          rw [inlined] at h
          cases h

mutual

/-- Where the literals come from, they do not change the value. -/
theorem evaluate_inlined (env : Environment) : (expr : Expr) →
    (expr.inlined env.resolve).evaluate env = expr.evaluate env
  | literal value type => by rw [inlined]
  | reference path expected => by
      by_cases h : isRowPath path = true
      · rw [inlined_row h]
      · rw [inlined_variable (by simpa using h), ofValue, evaluate, evaluate]
  | call function arguments expected => by
      rw [inlined, evaluate, evaluate, evaluateAll_inlinedAll env arguments]
  | unary op operand => by rw [inlined, evaluate, evaluate, evaluate_inlined env operand]
  | binary op left right => by
      rw [inlined, evaluate, evaluate, evaluate_inlined env left, evaluate_inlined env right]

/-- Literals for paths do not change the values of arguments. -/
theorem evaluateAll_inlinedAll (env : Environment) : (arguments : List Expr) →
    evaluateAll env (inlinedAll env.resolve arguments) = evaluateAll env arguments
  | [] => by rw [inlinedAll]
  | argument :: rest => by
      rw [inlinedAll, evaluateAll, evaluateAll, evaluate_inlined env argument,
        evaluateAll_inlinedAll env rest]

end

mutual

/-- There are no paths in a constant. -/
theorem paths_of_isConstant : (expr : Expr) → expr.isConstant = true → expr.paths = []
  | literal value type, _ => by rw [paths]
  | reference path expected, h => by cases h
  | call function arguments expected, h => by
      rw [isConstant, Bool.and_eq_true] at h
      rw [paths, allPaths_of_allConstant arguments h.2]
  | unary op operand, h => by rw [paths, paths_of_isConstant operand h]
  | binary op left right, h => by
      rw [isConstant, Bool.and_eq_true] at h
      rw [paths, paths_of_isConstant left h.1, paths_of_isConstant right h.2, List.append_nil]

theorem allPaths_of_allConstant : (arguments : List Expr) → allConstant arguments = true →
    allPaths arguments = []
  | [], _ => by rw [allPaths]
  | argument :: rest, h => by
      rw [allConstant, Bool.and_eq_true] at h
      rw [allPaths, paths_of_isConstant argument h.1, allPaths_of_allConstant rest h.2,
        List.append_nil]

end

mutual

/-- Without paths there is nothing to inline. -/
theorem inlined_of_paths : (expr : Expr) → expr.paths = [] → expr.inlined resolve = expr
  | literal value type, _ => by rw [inlined]
  | reference path expected, h => by cases h
  | call function arguments expected, h => by
      rw [paths] at h
      rw [inlined, inlinedAll_of_allPaths arguments h]
  | unary op operand, h => by
      rw [paths] at h
      rw [inlined, inlined_of_paths operand h]
  | binary op left right, h => by
      rw [paths, List.append_eq_nil_iff] at h
      rw [inlined, inlined_of_paths left h.1, inlined_of_paths right h.2]

theorem inlinedAll_of_allPaths : (arguments : List Expr) → allPaths arguments = [] →
    inlinedAll resolve arguments = arguments
  | [], _ => by rw [inlinedAll]
  | argument :: rest, h => by
      rw [allPaths, List.append_eq_nil_iff] at h
      rw [inlinedAll, inlined_of_paths argument h.1, inlinedAll_of_allPaths rest h.2]

end

/-- A constant stays as it is. -/
theorem inlined_of_isConstant {expr : Expr} (h : expr.isConstant = true) :
    expr.inlined resolve = expr :=
  inlined_of_paths expr (paths_of_isConstant expr h)

/-- Arguments with literals in them are constant if they were constant before. -/
theorem allConstant_inlinedAll {arguments : List Expr}
    (h : ∀ argument ∈ arguments, (argument.inlined resolve).isConstant = argument.isConstant) :
    allConstant (inlinedAll resolve arguments) = allConstant arguments := by
  induction arguments with
  | nil => rw [inlinedAll]
  | cons first rest ih =>
      rw [List.forall_mem_cons] at h
      rw [inlinedAll, allConstant, allConstant, h.1, ih h.2]

namespace ComparesVariables

/-- A variable that is compared with the row leaves the comparison as variable as it was. -/
theorem isConstant_inlined {expr : Expr} (h : ComparesVariables expr) :
    (expr.inlined resolve).isConstant = expr.isConstant := by
  induction h with
  | literal value type => rw [inlined]
  | row h expected => rw [inlined_row h]
  | call function h expected ih => rw [inlined, isConstant, isConstant, allConstant_inlinedAll ih]
  | unary op h ih => rw [inlined, isConstant, isConstant, ih]
  | binary op hleft hright ihleft ihright =>
      rw [inlined, isConstant, isConstant, ihleft, ihright]
  | onRight hop hrow hpath expected expected' => rw [inlined, inlined_row hrow]; rfl
  | onLeft hop hrow hpath expected expected' => simp [inlined, hrow, isConstant]

/-- A path outside the row does not stand alone. -/
theorem isRowPath {path : String} {expected : ValueType}
    (h : ComparesVariables (.reference path expected)) : isRowPath path = true := by
  cases h with
  | row h => exact h

theorem arguments {function : Builtin} {arguments : List Expr} {expected : ValueType}
    (h : ComparesVariables (.call function arguments expected)) :
    ∀ argument ∈ arguments, ComparesVariables argument := by
  cases h with
  | call function h => exact h

theorem operand {op : UnaryOp} {operand : Expr} (h : ComparesVariables (.unary op operand)) :
    ComparesVariables operand := by
  cases h with
  | unary op h => exact h

/-- Where all variables of a junction are compared with the row, so are those of its operands. -/
theorem chain {op : BinaryOp} (hop : op.isLogical = true) {expr operand : Expr}
    (h : ComparesVariables expr) (hoperand : operand ∈ expr.chain op) :
    ComparesVariables operand := by
  fun_induction Expr.chain op expr with
  | case1 left right ihleft ihright =>
      have hsides : ComparesVariables left ∧ ComparesVariables right := by
        cases h with
        | binary op hleft hright => exact ⟨hleft, hright⟩
        | onRight hcomparison =>
            rw [BinaryOp.isComparison_of_isLogical hop] at hcomparison
            cases hcomparison
        | onLeft hcomparison =>
            rw [BinaryOp.isComparison_of_isLogical hop] at hcomparison
            cases hcomparison
      rcases List.mem_append.mp hoperand with hoperand | hoperand
      · exact ihleft hsides.1 hoperand
      · exact ihright hsides.2 hoperand
  | case2 inner left right hne =>
      rw [List.mem_singleton.mp hoperand]
      exact h
  | case3 other hother =>
      rw [List.mem_singleton.mp hoperand]
      exact h

end ComparesVariables

/-- Where all junctions of an expression vary, so do those of any part of it. -/
theorem JunctionsVary.mono {expr sub : Expr} (h : expr.JunctionsVary)
    (hsub : sub.subexpressions ⊆ expr.subexpressions) : sub.JunctionsVary :=
  fun op left right hmem => h op left right (hsub hmem)

/-- No operand of a chain is without paths either. -/
theorem JunctionsVary.chain {op : BinaryOp} (hop : op.isLogical = true) {expr operand : Expr}
    (h : expr.JunctionsVary) (hne : expr.paths ≠ []) (hoperand : operand ∈ expr.chain op) :
    operand.paths ≠ [] := by
  fun_induction Expr.chain op expr with
  | case1 left right ihleft ihright =>
      obtain ⟨hleft, hright⟩ := h op left right (mem_subexpressions_self _) hop
      rcases List.mem_append.mp hoperand with hoperand | hoperand
      · exact ihleft (h.mono fun sub hsub =>
          List.mem_cons_of_mem _ (List.mem_append_left _ hsub)) hleft hoperand
      · exact ihright (h.mono fun sub hsub =>
          List.mem_cons_of_mem _ (List.mem_append_right _ hsub)) hright hoperand
  | case2 inner left right hdiffers =>
      rw [List.mem_singleton.mp hoperand]
      exact hne
  | case3 other hother =>
      rw [List.mem_singleton.mp hoperand]
      exact hne

end Expr

end RowFilter
