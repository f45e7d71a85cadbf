import RowFilter.Expr.Basic

/-! # What expressions are made of

The expressions inside an expression, and the operands of its chains: a chain of one associative
operator has all operands between its operators.
-/

namespace RowFilter

namespace Expr

mutual

/-- An expression and everything in it. -/
def subexpressions : Expr → List Expr
  | literal value type => [literal value type]
  | reference path expected => [reference path expected]
  | call function arguments expected =>
    call function arguments expected :: allSubexpressions arguments
  | unary op operand => unary op operand :: subexpressions operand
  | binary op left right => binary op left right :: (subexpressions left ++ subexpressions right)

def allSubexpressions : List Expr → List Expr
  | [] => []
  | argument :: rest => subexpressions argument ++ allSubexpressions rest

end

theorem mem_subexpressions_self (expr : Expr) : expr ∈ expr.subexpressions := by
  cases expr <;> simp [subexpressions]

mutual

/-- A part of a part is a part. -/
theorem subexpressions_subset : (expr : Expr) → {sub : Expr} → sub ∈ expr.subexpressions →
    sub.subexpressions ⊆ expr.subexpressions
  | literal _ _, _, h => by
      rw [List.mem_singleton.mp h]
      exact List.Subset.refl _
  | reference _ _, _, h => by
      rw [List.mem_singleton.mp h]
      exact List.Subset.refl _
  | call _ arguments _, _, h => by
      rcases List.mem_cons.mp h with rfl | h
      · exact List.Subset.refl _
      · exact List.subset_cons_of_subset _ (allSubexpressions_subset arguments h)
  | unary _ operand, _, h => by
      rcases List.mem_cons.mp h with rfl | h
      · exact List.Subset.refl _
      · exact List.subset_cons_of_subset _ (subexpressions_subset operand h)
  | binary _ left right, _, h => by
      rcases List.mem_cons.mp h with rfl | h
      · exact List.Subset.refl _
      · refine List.subset_cons_of_subset _ ?_
        rcases List.mem_append.mp h with h | h
        · exact List.Subset.trans (subexpressions_subset left h) (List.subset_append_left _ _)
        · exact List.Subset.trans (subexpressions_subset right h) (List.subset_append_right _ _)

theorem allSubexpressions_subset : (arguments : List Expr) → {sub : Expr} →
    sub ∈ allSubexpressions arguments → sub.subexpressions ⊆ allSubexpressions arguments
  | [], _, h => by cases h
  | argument :: rest, _, h => by
      rcases List.mem_append.mp h with h | h
      · exact List.Subset.trans (subexpressions_subset argument h) (List.subset_append_left _ _)
      · exact List.Subset.trans (allSubexpressions_subset rest h) (List.subset_append_right _ _)

end

/-! ## Chains -/

/-- The operands of a chain of one operator, from left to right. -/
def chain (op : BinaryOp) : Expr → List Expr
  | binary inner left right =>
    if inner = op then chain op left ++ chain op right else [binary inner left right]
  | other => [other]

/-- What is no operation of the operator is a chain on its own. -/
theorem chain_of_ne {expr : Expr} {op : BinaryOp} (h : ∀ left right, expr ≠ .binary op left right) :
    expr.chain op = [expr] := by
  cases expr with
  | binary inner left right =>
      have hne : inner ≠ op := by
        rintro rfl
        exact h left right rfl
      rw [chain, if_neg hne]
  | _ => rfl

/-- A chain of an operator goes on in both operands. -/
theorem chain_binary (op : BinaryOp) (left right : Expr) :
    (binary op left right).chain op = left.chain op ++ right.chain op := by
  rw [chain, if_pos rfl]

/-- A chain has operands, if only one. -/
theorem chain_ne_nil (op : BinaryOp) (expr : Expr) : expr.chain op ≠ [] := by
  fun_induction chain op expr with
  | case1 left right ihleft ihright => exact List.append_ne_nil_of_left_ne_nil ihleft _
  | case2 => exact List.cons_ne_nil _ _
  | case3 => exact List.cons_ne_nil _ _

/-- A junction has more than one operand. -/
theorem one_lt_length_chain (op : BinaryOp) (left right : Expr) :
    1 < ((binary op left right).chain op).length := by
  have hleft := List.length_pos_iff.mpr (chain_ne_nil op left)
  have hright := List.length_pos_iff.mpr (chain_ne_nil op right)
  rw [chain_binary, List.length_append]
  omega

theorem one_lt_length_chain_iff {op : BinaryOp} {expr : Expr} :
    1 < (expr.chain op).length ↔ ∃ left right, expr = binary op left right := by
  constructor
  · intro hlength
    refine Classical.byContradiction fun hne => ?_
    rw [chain_of_ne fun left right heq => hne ⟨left, right, heq⟩] at hlength
    exact Nat.lt_irrefl 1 hlength
  · rintro ⟨left, right, rfl⟩
    exact one_lt_length_chain op left right

/-- Of two expressions with one chain, both are junctions or they are the same. -/
theorem eq_or_junctions_of_chain_eq {op : BinaryOp} {first second : Expr}
    (h : first.chain op = second.chain op) : first = second ∨
      (∃ left right, first = binary op left right) ∧
        ∃ left right, second = binary op left right := by
  by_cases hlength : 1 < (first.chain op).length
  · exact .inr ⟨one_lt_length_chain_iff.mp hlength, one_lt_length_chain_iff.mp (h ▸ hlength)⟩
  · have hlength' : ¬1 < (second.chain op).length := h ▸ hlength
    rw [one_lt_length_chain_iff] at hlength hlength'
    rw [chain_of_ne fun left right heq => hlength ⟨left, right, heq⟩,
      chain_of_ne fun left right heq => hlength' ⟨left, right, heq⟩] at h
    exact .inl (List.singleton_inj.mp h)

/-- An expression is constant exactly if all operands of its chain are. -/
theorem isConstant_chain (op : BinaryOp) (expr : Expr) :
    expr.isConstant = true ↔ ∀ operand ∈ expr.chain op, operand.isConstant = true := by
  fun_induction chain op expr with
  | case1 left right ihleft ihright =>
      rw [isConstant, Bool.and_eq_true, ihleft, ihright, List.forall_mem_append]
  | case2 inner left right hne => rw [List.forall_mem_singleton]
  | case3 => rw [List.forall_mem_singleton]

/-- No operand of a chain is larger than the chain. -/
theorem sizeOf_le_of_mem_chain {op : BinaryOp} {expr operand : Expr}
    (h : operand ∈ expr.chain op) : sizeOf operand ≤ sizeOf expr := by
  fun_induction chain op expr with
  | case1 left right ihleft ihright =>
      rw [binary.sizeOf_spec]
      rcases List.mem_append.mp h with h | h
      · have := ihleft h
        omega
      · have := ihright h
        omega
  | case2 inner left right hne => exact Nat.le_of_eq (congrArg sizeOf (List.mem_singleton.mp h))
  | case3 => exact Nat.le_of_eq (congrArg sizeOf (List.mem_singleton.mp h))

/-- The operands of a junction are smaller than it, so that recursion may go through them. -/
theorem sizeOf_lt_of_mem_chain {op : BinaryOp} {left right operand : Expr}
    (h : operand ∈ (binary op left right).chain op) :
    sizeOf operand < sizeOf (binary op left right) := by
  rw [chain_binary] at h
  rw [binary.sizeOf_spec]
  rcases List.mem_append.mp h with h | h
  · have := sizeOf_le_of_mem_chain h
    omega
  · have := sizeOf_le_of_mem_chain h
    omega

/-- What holds of an expression if it holds of its direct operands and those of its chain. -/
theorem chain_induction {P : Expr → Prop} (literal : ∀ value type, P (.literal value type))
    (reference : ∀ path expected, P (.reference path expected))
    (call : ∀ function arguments expected, (∀ argument ∈ arguments, P argument) →
      P (.call function arguments expected))
    (unary : ∀ op operand, P operand → P (.unary op operand))
    (binary : ∀ op left right, P left → P right →
      (∀ operand ∈ (Expr.binary op left right).chain op, P operand) → P (.binary op left right))
    (expr : Expr) : P expr := by
  match expr with
  | .literal value type => exact literal value type
  | .reference path expected => exact reference path expected
  | .call function arguments expected =>
      refine call function arguments expected fun argument hargument => ?_
      have hlt := List.sizeOf_lt_of_mem hargument
      exact chain_induction literal reference call unary binary argument
  | .unary op operand =>
      exact unary op operand (chain_induction literal reference call unary binary operand)
  | .binary op left right =>
      refine binary op left right (chain_induction literal reference call unary binary left)
        (chain_induction literal reference call unary binary right) fun operand hoperand => ?_
      -- An operand of the chain may lie deep in it, but it is smaller.
      have hlt := sizeOf_lt_of_mem_chain hoperand
      exact chain_induction literal reference call unary binary operand
termination_by sizeOf expr
decreasing_by
  · rw [Expr.call.sizeOf_spec]
    omega
  · rw [Expr.unary.sizeOf_spec]
    omega
  · rw [Expr.binary.sizeOf_spec]
    omega
  · rw [Expr.binary.sizeOf_spec]
    omega
  · exact hlt

/-- The expressions that a node is compiled from: a junction from those of its chain. -/
def operands : Expr → List Expr
  | literal _ _ | reference _ _ => []
  | call _ arguments _ => arguments
  | unary _ operand => [operand]
  | binary op left right =>
    if op.isLogical then (binary op left right).chain op else [left, right]

/-- What holds of an expression if it holds of all that it is compiled from. -/
theorem operands_induction {P : Expr → Prop}
    (node : ∀ expr, (∀ operand ∈ expr.operands, P operand) → P expr) (expr : Expr) : P expr := by
  induction expr using chain_induction with
  | literal value type => exact node _ nofun
  | reference path expected => exact node _ nofun
  | call function arguments expected ih => exact node _ ih
  | unary op operand ih => exact node _ (List.forall_mem_singleton.mpr ih)
  | binary op left right ihleft ihright ihchain =>
      refine node _ ?_
      rw [operands]
      split
      next => exact ihchain
      next => exact List.forall_mem_cons.mpr ⟨ihleft, List.forall_mem_singleton.mpr ihright⟩

/-- The parts of an operand of a chain are parts of the chain. -/
theorem subexpressions_chain {op : BinaryOp} {expr operand : Expr} (h : operand ∈ expr.chain op) :
    operand.subexpressions ⊆ expr.subexpressions := by
  fun_induction chain op expr with
  | case1 left right ihleft ihright =>
      rcases List.mem_append.mp h with h | h
      · exact fun sub hsub => List.mem_cons_of_mem _ (List.mem_append_left _ (ihleft h hsub))
      · exact fun sub hsub => List.mem_cons_of_mem _ (List.mem_append_right _ (ihright h hsub))
  | case2 inner left right hne =>
      rw [List.mem_singleton.mp h]
      exact List.Subset.refl _
  | case3 =>
      rw [List.mem_singleton.mp h]
      exact List.Subset.refl _

theorem allSubexpressions_argument {arguments : List Expr} {argument : Expr}
    (h : argument ∈ arguments) : argument.subexpressions ⊆ allSubexpressions arguments := by
  induction arguments with
  | nil => cases h
  | cons first rest ih =>
      rcases List.mem_cons.mp h with rfl | h
      · exact List.subset_append_left _ _
      · exact List.Subset.trans (ih h) (List.subset_append_right _ _)

/-- The parts of an argument are parts of the call. -/
theorem subexpressions_argument {function : Builtin} {arguments : List Expr} {expected : ValueType}
    {argument : Expr} (h : argument ∈ arguments) :
    argument.subexpressions ⊆ (call function arguments expected).subexpressions :=
  List.subset_cons_of_subset _ (allSubexpressions_argument h)

end Expr

end RowFilter
