import RowFilter.Proofs.Expr.Evaluation
import RowFilter.Proofs.Expr.Subexpressions

/-! # Evaluating chains

A junction looks at its right operand only if the left one does not decide it. Joining truth values
in this way is associative, errors included, so a chain of one operator is evaluated operand by
operand until one decides, however the operands are bracketed.
-/

namespace RowFilter

namespace Truth

/-- Joins outcomes from left to right. What comes after one that decides is not looked at. -/
def joinInOrder {ε : Type} (deciding : Bool) (left right : Except ε Truth) : Except ε Truth := do
  let l ← left
  if l == some deciding then return l
  let r ← right
  return join deciding l r

variable {ε : Type} {deciding : Bool} {truth : Truth}

theorem joinInOrder_deciding (right : Except ε Truth) :
    joinInOrder deciding (.ok (some deciding)) right = .ok (some deciding) := by
  cases deciding <;> rfl

theorem joinInOrder_of_ne (h : truth ≠ some deciding) (right : Except ε Truth) :
    joinInOrder deciding (.ok truth) right = right.map (join deciding truth) := by
  unfold joinInOrder
  simp only [Bind.bind, Except.bind]
  rw [if_neg (by simpa using h)]
  cases right <;> rfl

/-- One that neither decides nor is unknown changes nothing. -/
theorem joinInOrder_neutral (left : Except ε Truth) :
    joinInOrder deciding left (.ok (some (!deciding))) = left := by
  cases left with
  | error error => rfl
  | ok truth =>
    by_cases h : truth = some deciding
    · rw [h, joinInOrder_deciding]
    · rw [joinInOrder_of_ne h, Except.map, join_neutral]

theorem neutral_joinInOrder (right : Except ε Truth) :
    joinInOrder deciding (.ok (some (!deciding))) right = right := by
  rw [joinInOrder_of_ne (by simp)]
  cases right with
  | error error => rfl
  | ok truth => rw [Except.map, join_comm, join_neutral]

/-- Brackets do not matter, neither to the truth value nor to the error that comes first. -/
theorem joinInOrder_assoc (first second third : Except ε Truth) :
    joinInOrder deciding (joinInOrder deciding first second) third =
      joinInOrder deciding first (joinInOrder deciding second third) := by
  cases first with
  | error error => rfl
  | ok a =>
    by_cases ha : a = some deciding
    · rw [ha, joinInOrder_deciding, joinInOrder_deciding, joinInOrder_deciding]
    rw [joinInOrder_of_ne ha, joinInOrder_of_ne ha]
    cases second with
    | error error => rfl
    | ok b =>
      by_cases hb : b = some deciding
      · have hjoin : join deciding a (some deciding) = some deciding := by
          rw [join_comm, join_deciding]
        rw [hb, joinInOrder_deciding, Except.map, hjoin, joinInOrder_deciding]
      · have hjoin : join deciding a b ≠ some deciding := by
          unfold join
          simp only [beq_iff_eq, Bool.or_eq_true, ha, hb, or_self, if_false]
          split <;> simp
        rw [Except.map, joinInOrder_of_ne hjoin, joinInOrder_of_ne hb]
        cases third with
        | error error => rfl
        | ok c => exact congrArg Except.ok (join_assoc deciding a b c)

end Truth

namespace Expr

variable {env : Environment} {op : BinaryOp}

/-- The truth value of an operand of a junction. -/
def operandTruth (env : Environment) (op : BinaryOp) (operand : Expr) : Except EvalError Truth := do
  op.truth (← operand.evaluate env)

/-- The truth value of a junction of operands, which are evaluated until one decides. -/
def joinOperands (env : Environment) (op : BinaryOp) (operands : List Expr) :
    Except EvalError Truth :=
  (operands.map (operandTruth env op)).foldr (Truth.joinInOrder op.deciding)
    (.ok (some (!op.deciding)))

/-- The outcomes of a list of operands can be joined in two parts. -/
theorem joinOperands_append (first second : List Expr) : joinOperands env op (first ++ second) =
    Truth.joinInOrder op.deciding (joinOperands env op first) (joinOperands env op second) := by
  induction first with
  | nil => exact (Truth.neutral_joinInOrder _).symm
  | cons operand rest ih =>
    have hcons (operands : List Expr) : joinOperands env op (operand :: operands) =
        Truth.joinInOrder op.deciding (operandTruth env op operand)
          (joinOperands env op operands) := rfl
    rw [List.cons_append, hcons, hcons, ih, Truth.joinInOrder_assoc]

theorem joinOperands_singleton (operand : Expr) :
    joinOperands env op [operand] = operandTruth env op operand :=
  Truth.joinInOrder_neutral _

/-- The value of a junction is the truth value that it has as an operand. -/
theorem evaluate_binary (hop : op.isLogical = true) (left right : Expr) :
    (binary op left right).evaluate env = (Truth.joinInOrder op.deciding
      (operandTruth env op left) (operandTruth env op right)).map Value.ofTruth := by
  rw [evaluate, if_pos hop, operandTruth, operandTruth]
  cases left.evaluate env with
  | error error => rfl
  | ok l =>
    simp only [Bind.bind, Except.bind]
    cases op.truth l with
    | error error => rfl
    | ok a =>
      by_cases ha : a = some op.deciding
      · rw [ha, Truth.joinInOrder_deciding]
        simp only [beq_self_eq_true, if_true]
        rfl
      · rw [Truth.joinInOrder_of_ne ha]
        simp only [beq_iff_eq, ha, if_false]
        cases right.evaluate env with
        | error error => rfl
        | ok r =>
          simp only
          cases op.truth r <;> rfl

/-- The outcome of a junction as an operand of its own operator is the join of both sides. -/
theorem operandTruth_binary (hop : op.isLogical = true) (left right : Expr) :
    operandTruth env op (binary op left right) = Truth.joinInOrder op.deciding
      (operandTruth env op left) (operandTruth env op right) := by
  rw [operandTruth, evaluate_binary hop]
  cases Truth.joinInOrder op.deciding (operandTruth env op left) (operandTruth env op right) with
  | error error => rfl
  | ok truth => exact truth_ofTruth op truth

/-- However it is bracketed, a chain joins its operands in order. -/
theorem operandTruth_eq_joinOperands (hop : op.isLogical = true) (expr : Expr) :
    operandTruth env op expr = joinOperands env op (expr.chain op) := by
  fun_induction chain op expr with
  | case1 left right ihleft ihright =>
      rw [operandTruth_binary hop, ihleft, ihright, joinOperands_append]
  | case2 inner left right hne => rw [joinOperands_singleton]
  | case3 => rw [joinOperands_singleton]

/-- A junction has the joined outcomes of its chain, with all brackets in it forgotten. -/
theorem evaluate_eq_joinOperands (hop : op.isLogical = true) (left right : Expr) :
    (binary op left right).evaluate env =
      (joinOperands env op ((binary op left right).chain op)).map Value.ofTruth := by
  rw [evaluate_binary hop, ← operandTruth_binary hop, operandTruth_eq_joinOperands hop]

/-- Conditions that chain the same operands in the same order have one value, or one error. -/
theorem evaluate_eq_of_chain_eq (hop : op = .and ∨ op = .or) {first second : Expr}
    (h : first.chain op = second.chain op) (env : Environment) :
    first.evaluate env = second.evaluate env := by
  have hlogical : op.isLogical = true := by
    rcases hop with rfl | rfl <;> rfl
  rcases eq_or_junctions_of_chain_eq h with rfl | ⟨⟨left, right, rfl⟩, left', right', rfl⟩
  · rfl
  · rw [evaluate_eq_joinOperands hlogical, h, ← evaluate_eq_joinOperands hlogical]

/-- A condition that cannot be evaluated. -/
private def quotientByZero : Expr :=
  .binary .eq (.binary .div (.ofValue (.integer 1)) (.ofValue (.integer 0))) (.ofValue (.integer 1))

/-- What comes after a false operand is not evaluated, whether it is bracketed with that operand or
not. -/
theorem evaluate_eq_of_chain_eq_quotientByZero :
    (binary .and (binary .and (.ofValue .null) (.ofValue (.boolean false))) quotientByZero).chain
        .and =
      (binary .and (.ofValue .null) (binary .and (.ofValue (.boolean false)) quotientByZero)).chain
        .and ∧
    (binary .and (binary .and (.ofValue .null) (.ofValue (.boolean false))) quotientByZero).evaluate
        .empty = .ok (.boolean false) ∧
    (binary .and (.ofValue .null) (binary .and (.ofValue (.boolean false)) quotientByZero)).evaluate
        .empty = .ok (.boolean false) ∧
    quotientByZero.evaluate .empty = .error .divisionByZero := by
  have hchain : (binary .and (binary .and (.ofValue .null) (.ofValue (.boolean false)))
      quotientByZero).chain .and = (binary .and (.ofValue .null)
        (binary .and (.ofValue (.boolean false)) quotientByZero)).chain .and := rfl
  have hleft : (binary .and (binary .and (.ofValue .null) (.ofValue (.boolean false)))
      quotientByZero).evaluate .empty = .ok (.boolean false) := by
    simp only [evaluate, ofValue]
    rfl
  refine ⟨hchain, hleft, ?_, ?_⟩
  · rw [← evaluate_eq_of_chain_eq (.inl rfl) hchain, hleft]
  · simp only [quotientByZero, evaluate, ofValue]
    rfl

end Expr

end RowFilter
