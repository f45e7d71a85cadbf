import RowFilter.Proofs.Expr.Inlining
import RowFilter.Proofs.Statement.Upholding

/-! # Folding of constants

An expression without paths that does not ask for the time is evaluated when it is compiled, and so
is every operand in it. Evaluation agrees with that except where a conjunction or a disjunction is
decided before an operand that has no value.
-/

namespace RowFilter

namespace Expr

theorem isConstant_argument {arguments : List Expr} (h : allConstant arguments = true) :
    ∀ argument ∈ arguments, argument.isConstant = true := by
  induction arguments with
  | nil => exact nofun
  | cons first rest ih =>
      rw [allConstant, Bool.and_eq_true] at h
      exact List.forall_mem_cons.mpr ⟨h.1, ih h.2⟩

theorem isConstant_operands {expr : Expr} (h : expr.isConstant = true) :
    ∀ operand ∈ expr.operands, operand.isConstant = true := by
  cases expr with
  | literal | reference => exact nofun
  | call function arguments expected =>
      rw [isConstant, Bool.and_eq_true] at h
      exact isConstant_argument h.2
  | unary op operand => exact List.forall_mem_singleton.mpr h
  | binary op left right =>
      rw [operands]
      split
      next => exact (isConstant_chain op _).mp h
      next =>
        rw [isConstant, Bool.and_eq_true] at h
        exact List.forall_mem_cons.mpr ⟨h.1, List.forall_mem_singleton.mpr h.2⟩

mutual

/-- Without paths and without asking for the time, nothing depends on data. -/
theorem isConstant_of_paths : (expr : Expr) → expr.paths = [] →
    (∀ arguments expected, call .now arguments expected ∉ expr.subexpressions) →
      expr.isConstant = true
  | literal _ _, _, _ => by rw [isConstant]
  | reference _ _, hpaths, _ => by cases hpaths
  | call function arguments expected, hpaths, hnow => by
      have hvolatile : function.isVolatile = false := by
        cases function with
        | now => exact absurd List.mem_cons_self (hnow arguments expected)
        | _ => rfl
      rw [isConstant, hvolatile, allConstant_of_paths arguments hpaths fun arguments expected h =>
        hnow arguments expected (List.mem_cons_of_mem _ h)]
      rfl
  | unary op operand, hpaths, hnow => by
      rw [isConstant]
      exact isConstant_of_paths operand hpaths fun arguments expected h =>
        hnow arguments expected (List.mem_cons_of_mem _ h)
  | binary op left right, hpaths, hnow => by
      rw [paths, List.append_eq_nil_iff] at hpaths
      rw [isConstant, Bool.and_eq_true]
      exact ⟨isConstant_of_paths left hpaths.1 fun arguments expected h =>
          hnow arguments expected (List.mem_cons_of_mem _ (List.mem_append_left _ h)),
        isConstant_of_paths right hpaths.2 fun arguments expected h =>
          hnow arguments expected (List.mem_cons_of_mem _ (List.mem_append_right _ h))⟩

theorem allConstant_of_paths : (arguments : List Expr) → allPaths arguments = [] →
    (∀ others expected, call .now others expected ∉ allSubexpressions arguments) →
      allConstant arguments = true
  | [], _, _ => by rw [allConstant]
  | argument :: rest, hpaths, hnow => by
      rw [allPaths, List.append_eq_nil_iff] at hpaths
      rw [allConstant, Bool.and_eq_true]
      exact ⟨isConstant_of_paths argument hpaths.1 fun arguments expected h =>
          hnow arguments expected (List.mem_append_left _ h),
        allConstant_of_paths rest hpaths.2 fun arguments expected h =>
          hnow arguments expected (List.mem_append_right _ h)⟩

end

/-- The expression has a value and so has every operand in it, looked at or not. -/
inductive EvaluatesThroughout (env : Environment) : Expr → Prop
  | node {expr : Expr} {value : Value} (hvalue : expr.evaluate env = .ok value)
      (hoperands : ∀ operand ∈ expr.operands, EvaluatesThroughout env operand) :
      EvaluatesThroughout env expr

theorem holds_of_evaluate {env : Environment} {expr : Expr} {value : Value}
    (h : expr.evaluate env = .ok value) (b : Bool) :
    expr.holds env = .ok b ↔ value.conditionTruth = .ok b := by
  rw [holds, h]
  cases value <;>
    simp [Bind.bind, Except.bind, Pure.pure, Except.pure, Value.conditionTruth, throw, throwThe,
      MonadExceptOf.throw]

end Expr

namespace Compiler

variable {compiler : Compiler} {expr : Expr}

/-- The value of an expression, as what it compiles to. -/
def folded (expr : Expr) : Except CompileFault Compiled :=
  match expr.evaluate Environment.empty with
  | .ok value => .ok (.constant value)
  | .error error => .error (.invalidLiteral (.evaluation expr.text error))

theorem folded_eq_ok (env : Environment) (hconstant : expr.isConstant = true) {c : Compiled} :
    folded expr = .ok c ↔ ∃ value, expr.evaluate env = .ok value ∧ c = .constant value := by
  rw [folded, Expr.evaluate_of_isConstant env Environment.empty expr hconstant]
  cases expr.evaluate Environment.empty <;> simp [eq_comm]

/-- A constant node of constant operands is evaluated, whatever else would be made of it. -/
theorem fold_constants {operands : List Compiled} {rest : Except CompileFault Compiled}
    (hconstant : expr.isConstant = true)
    (hoperands : ∀ operand ∈ operands, operand.isConstant = true) :
    (do match ← fold? expr operands with
        | some folded => return folded
        | none => rest) = folded expr := by
  have hvalues : ∀ operand ∈ operands, operand.isValue = true := by
    intro operand hoperand
    have h := hoperands operand hoperand
    cases operand with
    | constant value => rfl
    | _ => cases h
  rw [fold?, List.all_eq_true.mpr hvalues, List.all_eq_true.mpr hoperands, hconstant, folded]
  cases expr.evaluate Environment.empty <;> rfl

theorem exists_mapM_compile {items : List Expr}
    (h : ∀ item ∈ items, ∃ value, compiler.compile item = .ok (.constant value)) :
    ∃ compiled, items.mapM compiler.compile = .ok compiled ∧
      ∀ c ∈ compiled, c.isConstant = true := by
  induction items with
  | nil => exact ⟨[], rfl, nofun⟩
  | cons item rest ih =>
      rw [List.forall_mem_cons] at h
      obtain ⟨value, hvalue⟩ := h.1
      obtain ⟨others, hothers, hconstants⟩ := ih h.2
      refine ⟨.constant value :: others, ?_, List.forall_mem_cons.mpr ⟨rfl, hconstants⟩⟩
      rw [List.mapM_cons, hvalue, hothers]
      rfl

/-- A constant expression whose operands compile to constants compiles to its value. -/
theorem compile_of_constants (hconstant : expr.isConstant = true)
    (hoperands : ∀ operand ∈ expr.operands,
      ∃ value, compiler.compile operand = .ok (.constant value)) :
    compiler.compile expr = folded expr := by
  cases expr with
  | literal value type => rw [compile, folded, Expr.evaluate]
  | reference path expected => cases hconstant
  | call function arguments expected =>
      rw [Expr.operands] at hoperands
      obtain ⟨compiled, hcompiled, hconstants⟩ := exists_mapM_compile hoperands
      rw [compile, compileAll_eq_mapM, hcompiled]
      exact fold_constants hconstant hconstants
  | unary op operand =>
      obtain ⟨value, hvalue⟩ := hoperands operand (List.mem_singleton_self _)
      rw [compile, hvalue]
      exact fold_constants hconstant (List.forall_mem_singleton.mpr rfl)
  | binary op left right =>
      rw [Expr.operands] at hoperands
      split at hoperands
      next hlogical =>
        obtain ⟨compiled, hcompiled, hconstants⟩ := exists_mapM_compile hoperands
        rw [compile_junction hlogical, operands_eq_mapM, hcompiled]
        exact fold_constants hconstant hconstants
      next hlogical =>
        obtain ⟨first, hfirst⟩ := hoperands left List.mem_cons_self
        obtain ⟨second, hsecond⟩ :=
          hoperands right (List.mem_cons_of_mem _ (List.mem_singleton_self _))
        have hboth : ∀ c ∈ [Compiled.constant first, .constant second], c.isConstant = true :=
          List.forall_mem_cons.mpr ⟨rfl, List.forall_mem_singleton.mpr rfl⟩
        rw [compile, if_neg hlogical, hfirst, hsecond]
        simp only [Bind.bind, Except.bind]
        split
        next => exact fold_constants hconstant hboth
        next => exact fold_constants hconstant hboth

/-- Nothing compiles unless all its operands do. -/
theorem exists_compile_operand {c : Compiled} (h : compiler.compile expr = .ok c) :
    ∀ operand ∈ expr.operands, ∃ compiled, compiler.compile operand = .ok compiled := by
  have hall : ∀ {items : List Expr} {compiled : List Compiled},
      items.mapM compiler.compile = .ok compiled →
        ∀ item ∈ items, ∃ c, compiler.compile item = .ok c := by
    intro items compiled hcompiled item hitem
    obtain ⟨c, -, hc⟩ := exists_of_forall₂ (mapM_eq_ok.mp hcompiled).flip hitem
    exact ⟨c, hc⟩
  cases expr with
  | literal | reference => exact nofun
  | call function arguments expected =>
      rw [compile, compileAll_eq_mapM] at h
      obtain ⟨compiled, hcompiled, -⟩ := bind_eq_ok.mp h
      exact hall hcompiled
  | unary op operand =>
      rw [compile] at h
      obtain ⟨compiled, hcompiled, -⟩ := bind_eq_ok.mp h
      exact List.forall_mem_singleton.mpr ⟨compiled, hcompiled⟩
  | binary op left right =>
      rw [Expr.operands]
      split
      next hlogical =>
        rw [compile_junction hlogical, operands_eq_mapM] at h
        obtain ⟨compiled, hcompiled, -⟩ := bind_eq_ok.mp h
        exact hall hcompiled
      next hlogical =>
        rw [compile, if_neg hlogical] at h
        obtain ⟨first, hfirst, h⟩ := bind_eq_ok.mp h
        obtain ⟨second, hsecond, -⟩ := bind_eq_ok.mp h
        exact List.forall_mem_cons.mpr
          ⟨⟨first, hfirst⟩, List.forall_mem_singleton.mpr ⟨second, hsecond⟩⟩

/-- A constant expression compiles to its value, provided that everything in it has one. -/
theorem compile_constant_eq_ok (env : Environment) (hconstant : expr.isConstant = true)
    {c : Compiled} : compiler.compile expr = .ok c ↔
      expr.EvaluatesThroughout env ∧
        ∃ value, expr.evaluate env = .ok value ∧ c = .constant value := by
  induction expr using Expr.operands_induction generalizing c with
  | node expr ih =>
      have hoperands := Expr.isConstant_operands hconstant
      constructor
      · intro h
        have hcompiled := exists_compile_operand h
        have hthroughout : ∀ operand ∈ expr.operands, operand.EvaluatesThroughout env ∧
            ∃ value, compiler.compile operand = .ok (.constant value) := by
          intro operand hoperand
          obtain ⟨compiled, hcompiled⟩ := hcompiled operand hoperand
          obtain ⟨hall, value, -, rfl⟩ :=
            (ih operand hoperand (hoperands operand hoperand)).mp hcompiled
          exact ⟨hall, value, hcompiled⟩
        rw [compile_of_constants hconstant fun operand hoperand =>
          (hthroughout operand hoperand).2, folded_eq_ok env hconstant] at h
        obtain ⟨value, hvalue, rfl⟩ := h
        exact ⟨.node hvalue fun operand hoperand => (hthroughout operand hoperand).1, value,
          hvalue, rfl⟩
      · rintro ⟨hall, hvalue⟩
        cases hall with
        | node _ hall =>
            rw [compile_of_constants hconstant, folded_eq_ok env hconstant]
            · exact hvalue
            · intro operand hoperand
              have hoperandAll := hall operand hoperand
              cases hoperandAll with
              | @node _ value hvalue _ =>
                  exact ⟨value, (ih operand hoperand (hoperands operand hoperand)).mpr
                    ⟨hall operand hoperand, value, hvalue, rfl⟩⟩

end Compiler

/-- The text of a condition that always holds, or of one that never does. -/
def Backend.truthText : Backend → Bool → String
  | tabular, holds => if holds then "1 = 1" else "1 = 0"
  | directory, holds => if holds then "(objectClass=*)" else "(!(objectClass=*))"

theorem Backend.merge_truth (backend : Backend) (holds : Bool) (request : Request) :
    (backend.dialect.truth holds).merge request = .ok ⟨backend.truthText holds, []⟩ := by
  cases backend with
  | tabular => exact Part.merge_ofText _ _ []
  | directory => cases holds <;> exact Part.merge_ofText _ _ []

namespace Filter

variable {filter : Filter} {expr : Expr}

/-- What a constant expression compiles to is its truth. -/
theorem compilePart_constant (env : Environment) (hconstant : expr.isConstant = true)
    {part : Part} : compilePart filter.backend filter.schema expr = .ok part ↔
      expr.EvaluatesThroughout env ∧
        ∃ holds, expr.holds env = .ok holds ∧ part = filter.backend.dialect.truth holds := by
  constructor
  · intro h
    obtain ⟨c, hc, hpart⟩ := bind_eq_ok.mp h
    obtain ⟨hall, value, hvalue, rfl⟩ := (Compiler.compile_constant_eq_ok env hconstant).mp hc
    obtain ⟨holds, htruth, hpart⟩ := bind_eq_ok.mp hpart
    cases hpart
    exact ⟨hall, holds, (Expr.holds_of_evaluate hvalue holds).mpr htruth, rfl⟩
  · rintro ⟨hall, holds, hholds, rfl⟩
    obtain ⟨value, hvalue, -⟩ := bind_eq_ok.mp hholds
    have htruth := (Expr.holds_of_evaluate hvalue holds).mp hholds
    exact bind_eq_ok.mpr ⟨.constant value,
      (Compiler.compile_constant_eq_ok env hconstant).mpr ⟨hall, value, hvalue, rfl⟩,
      bind_eq_ok.mpr ⟨holds, htruth, rfl⟩⟩

/-- A filter of an expression without paths that does not ask for the time compiles if the
expression holds or does not hold and everything in it has a value, also where evaluation does not
look at it. All its statements are then that truth value. -/
theorem compile_constant_iff (env : Environment) (hpaths : expr.paths = [])
    (hnow : ∀ arguments expected, Expr.call .now arguments expected ∉ expr.subexpressions) :
    ((filter.compile expr).2 = none ↔
      (∃ holds, expr.holds env = .ok holds) ∧ expr.EvaluatesThroughout env) ∧
    ((filter.compile expr).2 = none → ∃ holds, expr.holds env = .ok holds ∧
      ∀ request, (filter.compile expr).1.merge request =
        .ok ⟨filter.backend.truthText holds, []⟩) := by
  have hconstant := expr.isConstant_of_paths hpaths hnow
  refine ⟨⟨fun h => ?_, fun ⟨⟨holds, hholds⟩, hall⟩ => ?_⟩, fun h => ?_⟩
  · obtain ⟨part, hpart⟩ := exists_compilePart h
    obtain ⟨hall, holds, hholds, -⟩ := (compilePart_constant env hconstant).mp hpart
    exact ⟨⟨holds, hholds⟩, hall⟩
  · rw [compile_of_part ((compilePart_constant env hconstant).mpr ⟨hall, holds, hholds, rfl⟩)]
  · obtain ⟨part, hpart⟩ := exists_compilePart h
    obtain ⟨-, holds, hholds, rfl⟩ := (compilePart_constant env hconstant).mp hpart
    rw [compile_of_part hpart]
    exact ⟨holds, hholds, fun request => filter.backend.merge_truth holds _⟩

/-- A division by zero beside a constant that decides the conjunction. -/
private def falseAndQuotient : Expr :=
  .binary .and (.literal (.boolean false) .boolean)
    (.binary .eq (.binary .div (.literal (.integer 1) .number) (.literal (.integer 0) .number))
      (.literal (.integer 1) .number))

/-- The division is looked at when the conjunction is compiled, though not when it is evaluated. -/
theorem compile_false_and_quotient :
    falseAndQuotient.paths = [] ∧
    (∀ arguments expected, Expr.call .now arguments expected ∉ falseAndQuotient.subexpressions) ∧
    falseAndQuotient.holds Environment.empty = .ok false ∧
    ((Filter.new .tabular []).compile falseAndQuotient).2 ≠ none := by
  have hpaths : falseAndQuotient.paths = [] := rfl
  have hnow : ∀ arguments expected,
      Expr.call .now arguments expected ∉ falseAndQuotient.subexpressions := by
    simp [falseAndQuotient, Expr.subexpressions]
  refine ⟨hpaths, hnow, rfl, fun h => ?_⟩
  -- The comparison is an operand of the conjunction and has no value.
  obtain ⟨-, hall⟩ := (compile_constant_iff Environment.empty hpaths hnow).1.mp h
  cases hall with
  | node _ hoperands =>
      cases hoperands _ (List.mem_cons_of_mem _ List.mem_cons_self) with
      | node hvalue _ => cases hvalue

end Filter

end RowFilter
