import Mathlib.Data.List.Basic
import RowFilter.Proofs.Statement.Rendering

/-! # What expressions compile to

Row paths compile to attributes, other paths wait for a request, and negation is left to the
backend.
-/

namespace RowFilter

/-- A resolved path is the row root, a dot and the name of an attribute. -/
theorem Schema.resolve_eq_ok {schema : Schema} {path : String} {expected : ValueType}
    {definition : Attribute} (h : schema.resolve path expected = .ok definition) :
    ∃ name, name ≠ [] ∧ path.toList = rowRoot.toList ++ '.' :: name ∧
      Named.get? (String.ofList name) schema = some definition ∧
      expected.accepts definition.type = true := by
  unfold resolve at h
  cases hrest : List.isPrefixOf? (rowRoot ++ ".").toList path.toList with
  | none =>
      rw [hrest] at h
      cases h
  | some name =>
      rw [hrest] at h
      cases name with
      | nil => cases h
      | cons c rest =>
          simp only at h
          split at h
          next => cases h
          next found hfound =>
            split at h
            next haccepts =>
              cases h
              refine ⟨c :: rest, List.cons_ne_nil _ _, ?_, hfound, haccepts⟩
              rw [← List.isPrefixOf?_eq_some_iff_append_eq.mp hrest, String.toList_append,
                List.append_assoc]
              rfl
            next => cases h

theorem isRowPath_of_append {path : String} {rest : List Char}
    (h : path.toList = rowRoot.toList ++ '.' :: rest) : isRowPath path = true := by
  rw [isRowPath, List.isPrefixOf?_eq_some_iff_append_eq.mpr h.symm]
  rfl

namespace Compiler

variable {compiler : Compiler}

theorem compile_ofValue {value : Value} :
    compiler.compile (.ofValue value) = .ok (.constant value) := by
  rw [Expr.ofValue, compile]

example : compiler.compile (.ofValue (.integer 1)) = .ok (.constant (.integer 1)) := by cbv

theorem compile_row {path : String} (h : isRowPath path = true) (expected : ValueType) :
    compiler.compile (.reference path expected) =
      (compiler.schema.resolve path expected).map Compiled.attr := by
  rw [compile, if_pos h]
  cases compiler.schema.resolve path expected <;> rfl

theorem compile_rowReference {path : String} {expected : ValueType} {definition : Attribute}
    (h : compiler.schema.resolve path expected = .ok definition) :
    compiler.compile (.reference path expected) = .ok (.attr definition) := by
  obtain ⟨name, -, hpath, -⟩ := Schema.resolve_eq_ok h
  rw [compile, if_pos (isRowPath_of_append hpath), h]
  rfl

theorem compile_reference {path : String} (h : isRowPath path = false) (expected : ValueType) :
    compiler.compile (.reference path expected) = .ok (.dynamic (.reference path expected)) := by
  rw [compile, if_neg (by simp [h])]

/-- A condition is negated in the backend. -/
theorem compile_not {operand : Expr} {part : Part}
    (h : compiler.compile operand = .ok (.condition part)) :
    compiler.compile (.unary .not operand) = .ok (.condition (compiler.dialect.negation part)) := by
  have hfold := fold?_eq_none (.unary .not operand)
    (List.mem_singleton_self _) (show (Compiled.condition part).isValue = false from rfl)
  rw [compile, h]
  simp only [Bind.bind, Except.bind, unary, condition, hfold]
  rfl

/-- A junction is compiled from the operands of its chain. -/
theorem compile_junction {op : BinaryOp} (hop : op.isLogical = true) (left right : Expr) :
    compiler.compile (.binary op left right) =
      (compiler.operands op (.binary op left right)).bind fun operands =>
        compiler.junction (.binary op left right) op operands := by
  rw [compile, if_pos hop, operands, if_pos rfl]
  cases compiler.operands op left with
  | error fault => rfl
  | ok first =>
      cases compiler.operands op right with
      | error fault => rfl
      | ok second => rfl

/-- An expression that is not of a chain is the one operand of it. -/
theorem operands_of_other {expr : Expr} {op : BinaryOp}
    (h : ∀ left right, expr ≠ .binary op left right) :
    compiler.operands op expr = (do return [← compiler.compile expr]) := by
  cases expr with
  | binary inner left right =>
      have hne : inner ≠ op := by
        rintro rfl
        exact h left right rfl
      rw [operands, if_neg hne]
  | _ =>
      rw [operands]
      intro _ _ _ heq
      cases heq

theorem compile_comparison {op : BinaryOp} (hop : op.isComparison = true) {left right : Expr}
    {leftCompiled rightCompiled : Compiled} (hleft : compiler.compile left = .ok leftCompiled)
    (hright : compiler.compile right = .ok rightCompiled) :
    compiler.compile (.binary op left right) =
      compiler.comparison (.binary op left right) op leftCompiled rightCompiled := by
  have hlogical : op.isLogical = false := by
    cases op <;> first | rfl | cases hop
  rw [compile, if_neg (by simp [hlogical]), hleft, hright]
  simp only [Bind.bind, Except.bind, if_pos hop]

/-- A comparison of an attribute is rendered with the attribute on the left. -/
theorem comparison_attr (expr : Expr) (op : BinaryOp) (definition : Attribute) {operand : Compiled}
    {slot : Slot} (hslot : Slot.ofCompiled operand = .ok slot) :
    compiler.comparison expr op (.attr definition) operand =
      (compiler.renderTwo (.ready (.attr definition)) slot
        (compiler.dialect.comparison op)).map Compiled.condition := by
  have hmem : Compiled.attr definition ∈ [.attr definition, operand] := List.mem_cons_self
  have hfold := fold?_eq_none expr hmem rfl
  rw [comparison, hfold]
  simp only [Bind.bind, Except.bind]
  have hattr : Slot.ofCompiled (.attr definition) = .ok (.ready (.attr definition)) := rfl
  rw [if_neg (by simp [Compiled.isValue])]
  simp only [pure, Except.pure, hattr, hslot]
  cases compiler.renderTwo (.ready (.attr definition)) slot (compiler.dialect.comparison op) with
  | error fault => rfl
  | ok part => rfl

theorem exchange_of_flip {op flipped : BinaryOp} (h : op.flip = some flipped) :
    exchange op = .ok flipped := by
  cases op <;> cases h <;> rfl

/-- With a value on the left, the sides of a comparison are exchanged. -/
theorem comparison_exchange (expr : Expr) {op flipped : BinaryOp}
    (hflip : exchange op = .ok flipped) (definition : Attribute) {operand : Compiled}
    (hvalue : operand.isValue = true) {slot : Slot} (hslot : Slot.ofCompiled operand = .ok slot) :
    compiler.comparison expr op operand (.attr definition) =
      (compiler.renderTwo (.ready (.attr definition)) slot
        (compiler.dialect.comparison flipped)).map Compiled.condition := by
  have hmem : Compiled.attr definition ∈ [operand, .attr definition] :=
    List.mem_cons_of_mem _ List.mem_cons_self
  have hfold := fold?_eq_none expr hmem rfl
  rw [comparison, hfold]
  have hattr : Slot.ofCompiled (.attr definition) = .ok (.ready (.attr definition)) := rfl
  simp only [Bind.bind, Except.bind, if_pos hvalue, hflip, pure, Except.pure, hattr, hslot]
  cases compiler.renderTwo (.ready (.attr definition)) slot
    (compiler.dialect.comparison flipped) with
  | error fault => rfl
  | ok part => rfl

theorem compile_nullCheck {op : UnaryOp} (hop : op.isTrailing = true) {operand : Expr}
    {definition : Attribute} (h : compiler.compile operand = .ok (.attr definition)) :
    compiler.compile (.unary op operand) =
      (compiler.renderOne (.ready (.attr definition)) fun term =>
        compiler.dialect.nullCheck term (op == .isNull)).map Compiled.condition := by
  have hfold := fold?_eq_none (.unary op operand)
    (List.mem_singleton_self (Compiled.attr definition)) rfl
  have hunary : compiler.unary (.unary op operand) op (.attr definition) =
      compiler.nullCheck op (.attr definition) := by
    cases op with
    | isNull => rw [unary, hfold]; rfl
    | notNull => rw [unary, hfold]; rfl
    | _ => cases hop
  rw [compile, h]
  simp only [Bind.bind, Except.bind, hunary, nullCheck, Slot.ofCompiled]
  cases compiler.renderOne (.ready (.attr definition)) fun term =>
    compiler.dialect.nullCheck term (op == .isNull) with
  | error fault => rfl
  | ok part => rfl

/-- A constant may decide a junction. -/
theorem junctionParts_decided {deciding : Bool} {value : Value}
    (h : value.conditionTruth = .ok deciding) (rest : List Compiled) :
    compiler.junctionParts deciding (.constant value :: rest) = .ok none := by
  rw [junctionParts, h]
  simp only [Bind.bind, Except.bind, if_pos (beq_self_eq_true deciding)]
  rfl

/-- A constant that does not decide a junction is left out. -/
theorem junctionParts_constant {deciding b : Bool} {value : Value}
    (h : value.conditionTruth = .ok b) (hb : b ≠ deciding) (rest : List Compiled) :
    compiler.junctionParts deciding (.constant value :: rest) =
      compiler.junctionParts deciding rest := by
  rw [junctionParts, h]
  simp only [Bind.bind, Except.bind]
  rw [if_neg (by simpa using hb)]

/-- An operand that is no constant remains in a junction unless the junction is decided. -/
theorem junctionParts_cons (deciding : Bool) {operand : Compiled}
    (h : operand.isConstant = false) (rest : List Compiled) :
    compiler.junctionParts deciding (operand :: rest) =
      (compiler.condition operand).bind fun part =>
        (compiler.junctionParts deciding rest).map fun parts => parts.map (part :: ·) := by
  cases operand with
  | constant value => cases h
  | _ =>
      rw [junctionParts]
      · simp only [Bind.bind, Except.bind]
        split
        next => rfl
        next part _ =>
          cases compiler.junctionParts deciding rest with
          | error fault => rfl
          | ok parts => cases parts <;> rfl
      · intro value hvalue
        cases hvalue

end Compiler

end RowFilter
