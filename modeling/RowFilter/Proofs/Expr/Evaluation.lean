import RowFilter.Expr.Evaluation
import RowFilter.Proofs.Expr.Subexpressions

/-! # What evaluation depends on

The value of an expression depends on what its own paths stand for, on the time if the expression
asks for it, and on nothing else. A constant expression depends on neither.
-/

namespace RowFilter

namespace Expr

mutual

/-- The paths that stand in an expression. -/
def paths : Expr → List String
  | literal _ _ => []
  | reference path _ => [path]
  | call _ arguments _ => allPaths arguments
  | unary _ operand => paths operand
  | binary _ left right => paths left ++ paths right

def allPaths : List Expr → List String
  | [] => []
  | argument :: rest => paths argument ++ allPaths rest

end

/-- The expression asks for the time somewhere. -/
def AsksTime (expr : Expr) : Prop :=
  ∃ arguments expected, call .now arguments expected ∈ expr.subexpressions

theorem AsksTime.of_sub {expr sub : Expr} (h : sub.AsksTime) (hsub : sub ∈ expr.subexpressions) :
    expr.AsksTime := by
  obtain ⟨arguments, expected, hcall⟩ := h
  exact ⟨arguments, expected, expr.subexpressions_subset hsub hcall⟩

/-- Only the function that asks for the time depends on it. -/
theorem apply_congr_now {function : Builtin} (h : function.isVolatile = false) (now now' : Int64)
    (arguments : List Value) : function.apply now arguments = function.apply now' arguments := by
  cases function with
  | now => cases h
  | _ =>
      cases arguments with
      | nil => rfl
      | cons value rest => cases value <;> rfl

variable {env env' : Environment}

mutual

/-- Environments with the same values of an expression's paths give it the same value, if their
times are the same or the expression does not ask for the time. -/
theorem evaluate_congr : (expr : Expr) → (expr.AsksTime → env.now = env'.now) →
    (∀ path ∈ expr.paths, env.resolve path = env'.resolve path) →
      expr.evaluate env = expr.evaluate env'
  | literal value type, _, _ => by rw [evaluate, evaluate]
  | reference path expected, _, hpaths => by
      rw [evaluate, evaluate, hpaths path (by simp [paths])]
  | call function arguments expected, hnow, hpaths => by
      rw [paths] at hpaths
      have harguments := evaluateAll_congr arguments
        (fun others type h => hnow ⟨others, type, List.mem_cons_of_mem _ h⟩) hpaths
      have happly : ∀ values, function.apply env.now values = function.apply env'.now values := by
        intro values
        cases hvolatile : function.isVolatile with
        | false => exact apply_congr_now hvolatile env.now env'.now values
        | true =>
            cases function with
            | now => rw [hnow ⟨arguments, expected, List.mem_cons_self⟩]
            | _ => cases hvolatile
      rw [evaluate, evaluate, harguments]
      simp only [happly]
  | unary op operand, hnow, hpaths => by
      rw [paths] at hpaths
      rw [evaluate, evaluate, evaluate_congr operand
        (fun ⟨others, type, h⟩ => hnow ⟨others, type, List.mem_cons_of_mem _ h⟩) hpaths]
  | binary op left right, hnow, hpaths => by
      simp only [paths, List.mem_append] at hpaths
      have hleft := evaluate_congr left
        (fun ⟨others, type, h⟩ => hnow ⟨others, type, List.mem_cons_of_mem _
          (List.mem_append_left _ h)⟩) fun path h => hpaths path (Or.inl h)
      have hright := evaluate_congr right
        (fun ⟨others, type, h⟩ => hnow ⟨others, type, List.mem_cons_of_mem _
          (List.mem_append_right _ h)⟩) fun path h => hpaths path (Or.inr h)
      rw [evaluate, evaluate, hleft, hright]

theorem evaluateAll_congr : (arguments : List Expr) →
    (∀ others expected, call .now others expected ∈ allSubexpressions arguments →
      env.now = env'.now) →
    (∀ path ∈ allPaths arguments, env.resolve path = env'.resolve path) →
      evaluateAll env arguments = evaluateAll env' arguments
  | [], _, _ => by rw [evaluateAll, evaluateAll]
  | argument :: rest, hnow, hpaths => by
      simp only [allPaths, List.mem_append] at hpaths
      have hfirst := evaluate_congr argument
        (fun ⟨others, type, h⟩ => hnow others type (List.mem_append_left _ h))
        fun path h => hpaths path (Or.inl h)
      have hrest := evaluateAll_congr rest
        (fun others type h => hnow others type (List.mem_append_right _ h))
        fun path h => hpaths path (Or.inr h)
      rw [evaluateAll, evaluateAll, hfirst, hrest]

end

mutual

/-- A constant expression has the same value everywhere. -/
theorem evaluate_of_isConstant (env env' : Environment) : (expr : Expr) →
    expr.isConstant = true → expr.evaluate env = expr.evaluate env'
  | literal value type, _ => by rw [evaluate, evaluate]
  | reference path expected, h => by cases h
  | call function arguments expected, h => by
      rw [isConstant, Bool.and_eq_true, Bool.not_eq_true'] at h
      rw [evaluate, evaluate, evaluateAll_of_allConstant env env' arguments h.2]
      simp only [apply_congr_now h.1 env.now env'.now]
  | unary op operand, h => by
      rw [isConstant] at h
      rw [evaluate, evaluate, evaluate_of_isConstant env env' operand h]
  | binary op left right, h => by
      rw [isConstant, Bool.and_eq_true] at h
      rw [evaluate, evaluate, evaluate_of_isConstant env env' left h.1,
        evaluate_of_isConstant env env' right h.2]

theorem evaluateAll_of_allConstant (env env' : Environment) : (arguments : List Expr) →
    allConstant arguments = true → evaluateAll env arguments = evaluateAll env' arguments
  | [], _ => by rw [evaluateAll, evaluateAll]
  | argument :: rest, h => by
      rw [allConstant, Bool.and_eq_true] at h
      rw [evaluateAll, evaluateAll, evaluate_of_isConstant env env' argument h.1,
        evaluateAll_of_allConstant env env' rest h.2]

end

/-- A truth value that is used as an operand is what it was. -/
theorem truth_ofTruth (op : BinaryOp) (truth : Truth) :
    op.truth (Value.ofTruth truth) = .ok truth := by
  cases truth with
  | none => rfl
  | some b => rfl

/-- Evaluation joins truth values, although it may not look at the right one. -/
theorem evaluate_junction {op : BinaryOp} (hop : op.isLogical = true) {left right : Expr}
    {a b : Truth} (hleft : left.evaluate env = .ok (Value.ofTruth a))
    (hright : right.evaluate env = .ok (Value.ofTruth b)) :
    (binary op left right).evaluate env = .ok (Value.ofTruth (Truth.join op.deciding a b)) := by
  rw [evaluate, if_pos hop, hleft, hright]
  simp only [Bind.bind, Except.bind, truth_ofTruth]
  by_cases hdecides : a = some op.deciding
  · rw [if_pos (by simpa using hdecides), hdecides, Truth.join_deciding]
    rfl
  · rw [if_neg (by simpa using hdecides)]
    rfl

theorem evaluate_not {operand : Expr} {truth : Truth}
    (h : operand.evaluate env = .ok (Value.ofTruth truth)) :
    (unary .not operand).evaluate env = .ok (Value.ofTruth truth.negate) := by
  rw [evaluate, h]
  cases truth with
  | none => rfl
  | some b => rfl

end Expr

end RowFilter
