import RowFilter.Proofs.Expr.Subexpressions
import RowFilter.Proofs.Outcome
import RowFilter.Proofs.Statement.Compiling

/-! # Induction over what is compiled

A junction is compiled from all operands of its chain, and every other node from its direct
operands. So what each kind of node keeps holds of whatever an expression compiles to.
-/

namespace RowFilter

theorem forall₂_of_yields {α β ε : Type} {f : α → Except ε β} {motive : α → β → Prop}
    {items : List α} {results : List β}
    (h : List.Forall₂ (fun item result => f item = .ok result) items results)
    (hall : ∀ item ∈ items, Yields (motive item) (f item)) :
    List.Forall₂ (fun item result => f item = .ok result ∧ motive item result) items results := by
  induction h with
  | nil => exact .nil
  | cons hfirst hrest ih =>
      rw [List.forall_mem_cons] at hall
      exact .cons ⟨hfirst, hall.1 _ hfirst⟩ (ih hall.2)

/-- Every result is one of some item. -/
theorem exists_of_forall₂ {α β : Type} {R : α → β → Prop} {items : List α} {results : List β}
    (h : List.Forall₂ R items results) {result : β} (hresult : result ∈ results) :
    ∃ item ∈ items, R item result := by
  induction h with
  | nil => cases hresult
  | cons hfirst hrest ih =>
      rcases List.mem_cons.mp hresult with rfl | hresult
      · exact ⟨_, List.mem_cons_self, hfirst⟩
      · obtain ⟨item, hitem, hR⟩ := ih hresult
        exact ⟨item, List.mem_cons_of_mem _ hitem, hR⟩

namespace Compiler

variable {compiler : Compiler}

theorem compileAll_eq_mapM (arguments : List Expr) :
    compiler.compileAll arguments = arguments.mapM compiler.compile := by
  induction arguments with
  | nil => rw [compileAll]; rfl
  | cons first rest ih => rw [compileAll, List.mapM_cons, ih]

/-- The operands of a chain are compiled one after another. -/
theorem operands_eq_mapM (op : BinaryOp) (expr : Expr) :
    compiler.operands op expr = (expr.chain op).mapM compiler.compile := by
  fun_induction Expr.chain op expr with
  | case1 left right ihleft ihright =>
      rw [operands, if_pos rfl, ihleft, ihright, List.mapM_append]
  | case2 inner left right hne =>
      rw [operands_of_other fun _ _ h => hne (Expr.binary.inj h).1]
      simp
  | case3 other hother =>
      rw [operands_of_other fun left right h => hother op left right h]
      simp

/-- What is compiled of each kind of node, from what its operands compile to, holds of whatever an
expression compiles to. -/
theorem compile_induction {motive : Expr → Compiled → Prop}
    (literal : ∀ value type, motive (.literal value type) (.constant value))
    (row : ∀ path expected definition, compiler.schema.resolve path expected = .ok definition →
      motive (.reference path expected) (.attr definition))
    (other : ∀ path expected,
      compiler.compile (.reference path expected) = .ok (.dynamic (.reference path expected)) →
        motive (.reference path expected) (.dynamic (.reference path expected)))
    (call : ∀ function arguments expected compiled c,
      compiler.compile (.call function arguments expected) = .ok c →
      List.Forall₂ (fun argument c => compiler.compile argument = .ok c ∧ motive argument c)
        arguments compiled →
      compiler.call (.call function arguments expected) function compiled = .ok c →
        motive (.call function arguments expected) c)
    (unary : ∀ op operand compiled c, compiler.compile (.unary op operand) = .ok c →
      compiler.compile operand = .ok compiled → motive operand compiled →
      compiler.unary (.unary op operand) op compiled = .ok c → motive (.unary op operand) c)
    (junction : ∀ op left right operands c, op.isLogical = true →
      compiler.compile (.binary op left right) = .ok c →
      List.Forall₂ (fun operand c => compiler.compile operand = .ok c ∧ motive operand c)
        ((Expr.binary op left right).chain op) operands →
      compiler.junction (.binary op left right) op operands = .ok c →
        motive (.binary op left right) c)
    (binary : ∀ op left right first second c, ¬op.isLogical = true →
      compiler.compile (.binary op left right) = .ok c →
      compiler.compile left = .ok first → motive left first →
      compiler.compile right = .ok second → motive right second →
      (if op.isComparison then compiler.comparison (.binary op left right) op first second
        else compiler.arithmetic (.binary op left right) op first second) = .ok c →
        motive (.binary op left right) c) {expr : Expr} :
    Yields (motive expr) (compiler.compile expr) := by
  induction expr using Expr.chain_induction with
  | literal value type =>
      rw [compile]
      exact Yields.ok (literal value type)
  | reference path expected =>
      intro c hc
      by_cases hpath : isRowPath path = true
      · rw [compile, if_pos hpath] at hc
        obtain ⟨definition, hdefinition, hc⟩ := bind_eq_ok.mp hc
        cases hc
        exact row path expected definition hdefinition
      · have hdynamic : compiler.compile (.reference path expected) = _ :=
          compile_reference (by simpa using hpath) expected
        cases hdynamic.symm.trans hc
        exact other path expected hdynamic
  | call function arguments expected ih =>
      intro c hcompile
      have hc := hcompile
      rw [compile, compileAll_eq_mapM] at hc
      obtain ⟨compiled, hcompiled, hc⟩ := bind_eq_ok.mp hc
      have hall := forall₂_of_yields (mapM_eq_ok.mp hcompiled) ih
      exact call function arguments expected compiled c hcompile hall hc
  | unary op operand ih =>
      intro c hcompile
      have hc := hcompile
      rw [compile] at hc
      obtain ⟨compiled, hcompiled, hc⟩ := bind_eq_ok.mp hc
      exact unary op operand compiled c hcompile hcompiled (ih compiled hcompiled) hc
  | binary op left right ihleft ihright ihchain =>
      intro c hcompile
      have hc := hcompile
      by_cases hlogical : op.isLogical = true
      -- A junction is compiled from the operands of its chain, not from its two sides.
      · rw [compile_junction hlogical, operands_eq_mapM] at hc
        obtain ⟨operands, hoperands, hc⟩ := bind_eq_ok.mp hc
        have hall := forall₂_of_yields (mapM_eq_ok.mp hoperands) ihchain
        exact junction op left right operands c hlogical hcompile hall hc
      · rw [compile, if_neg hlogical] at hc
        obtain ⟨first, hfirst, hc⟩ := bind_eq_ok.mp hc
        obtain ⟨second, hsecond, hc⟩ := bind_eq_ok.mp hc
        exact binary op left right first second c hlogical hcompile hfirst (ihleft first hfirst)
          hsecond (ihright second hsecond) hc

end Compiler

end RowFilter
