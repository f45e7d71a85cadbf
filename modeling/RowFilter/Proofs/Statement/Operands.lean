import RowFilter.Proofs.Statement.CompileInduction

/-! # What becomes of operands

A node is folded if all its operands are values and left to the backend otherwise, unless it is a
junction that a constant decides. What is left to the backend has a statement only if the conditions
among its operands have one.
-/

namespace RowFilter

namespace Part

variable {request : Request}

/-- There is a statement of the part for the request. -/
def Merges (request : Request) (part : Part) : Prop :=
  ∃ statement, part.merge request = .ok statement

theorem merges_thenText {part : Part} {text : String} :
    (part.thenText text).Merges request ↔ part.Merges request := by
  simp only [Merges, merge_thenText, Statement.andThen_eq_ok]
  constructor
  · rintro ⟨_, a, _, ha, -, -⟩
    exact ⟨a, ha⟩
  · rintro ⟨a, ha⟩
    exact ⟨_, a, _, ha, rfl, rfl⟩

/-- Two parts in a row merge exactly if both merge. -/
theorem merges_thenPart {part inner : Part} :
    (part.thenPart inner).Merges request ↔ part.Merges request ∧ inner.Merges request := by
  simp only [Merges, merge_thenPart, Statement.andThen_eq_ok]
  constructor
  · rintro ⟨_, a, b, ha, hb, -⟩
    exact ⟨⟨a, ha⟩, ⟨b, hb⟩⟩
  · rintro ⟨⟨a, ha⟩, ⟨b, hb⟩⟩
    exact ⟨_, a, b, ha, hb, rfl⟩

/-- Where parts in a row merge, each of them does. -/
theorem merges_foldl_thenPart {part : Part} {parts : List Part}
    (h : (parts.foldl Part.thenPart part).Merges request) :
    part.Merges request ∧ ∀ inner ∈ parts, inner.Merges request := by
  induction parts generalizing part with
  | nil => exact ⟨h, by simp⟩
  | cons first rest ih =>
      obtain ⟨hfirst, hrest⟩ := ih h
      rw [merges_thenPart] at hfirst
      exact ⟨hfirst.1, List.forall_mem_cons.mpr ⟨hfirst.2, hrest⟩⟩

theorem merges_thenJoined {part : Part} {separator : String} {parts : List Part}
    (h : (part.thenJoined separator parts).Merges request) :
    part.Merges request ∧ ∀ inner ∈ parts, inner.Merges request := by
  induction parts generalizing part with
  | nil => exact ⟨h, by simp⟩
  | cons first rest ih =>
      cases rest with
      | nil =>
          rw [thenJoined, merges_thenPart] at h
          exact ⟨h.1, List.forall_mem_cons.mpr ⟨h.2, by simp⟩⟩
      | cons second more =>
          obtain ⟨hfirst, hrest⟩ := ih h
          rw [merges_thenText, merges_thenPart] at hfirst
          exact ⟨hfirst.1, List.forall_mem_cons.mpr ⟨hfirst.2, hrest⟩⟩

end Part

/-- For the request, there is a statement of what is compiled if it is a condition. -/
def Compiled.Merges (request : Request) : Compiled → Prop
  | .condition part => part.Merges request
  | _ => True

/-- Conditions are not lost in negations and junctions. -/
structure Dialect.Exposes (dialect : Dialect) : Prop where
  negation : ∀ {request part}, (dialect.negation part).Merges request → part.Merges request
  junction : ∀ {op request parts}, (dialect.junction op parts).Merges request →
    ∀ part ∈ parts, part.Merges request

/-- How a node of some operands is compiled, unless one of them decides it. -/
inductive Compiled.Arises (dialect : Dialect) (expr : Expr) (operands : List Compiled) :
    Compiled → Prop
  | folded {c : Compiled} (hvalues : ∀ operand ∈ operands, operand.isValue = true)
      (hconstant : c.isConstant = true → expr.isConstant = true) : Arises dialect expr operands c
  | rendered {c : Compiled} (hvalue : c.isValue = false)
      (hmerges : dialect.Exposes → ∀ request, c.Merges request →
        ∀ operand ∈ operands, operand.Merges request) : Arises dialect expr operands c

namespace Compiled

variable {request : Request}

/-- There is nothing to merge in a value. -/
theorem merges_of_isValue {c : Compiled} (h : c.isValue = true) : c.Merges request := by
  cases c with
  | constant value => trivial
  | dynamic expr => trivial
  | _ => cases h

/-- If there is a statement of a node, there is one of each condition among its operands. -/
theorem Arises.merges {dialect : Dialect} {expr : Expr} {operands : List Compiled} {c : Compiled}
    (h : c.Arises dialect expr operands) (hexposes : dialect.Exposes) (hmerges : c.Merges request) :
    ∀ operand ∈ operands, operand.Merges request := by
  cases h with
  | folded hvalues => exact fun operand hoperand => merges_of_isValue (hvalues operand hoperand)
  | rendered _ hall => exact hall hexposes request hmerges

end Compiled

namespace Compiler

variable {compiler : Compiler} {request : Request}

/-- A condition is no operand of a computation. -/
theorem merges_of_ofCompiled {c : Compiled} {slot : Slot} (h : Slot.ofCompiled c = .ok slot) :
    c.Merges request := by
  cases c with
  | condition part => cases h
  | _ => trivial

/-- What can be put into slots is no condition, so it merges. -/
theorem merges_both {left right : Compiled} {l r : Slot} (hl : Slot.ofCompiled left = .ok l)
    (hr : Slot.ofCompiled right = .ok r) : ∀ operand ∈ [left, right], operand.Merges request :=
  List.forall_mem_cons.mpr
    ⟨merges_of_ofCompiled hl, List.forall_mem_singleton.mpr (merges_of_ofCompiled hr)⟩

/-- Where the condition that something is compiled to merges, so does that thing. -/
theorem merges_of_condition {c : Compiled} {part : Part} (h : compiler.condition c = .ok part)
    (hpart : part.Merges request) : c.Merges request := by
  cases c with
  | condition condition =>
      cases h
      exact hpart
  | _ => trivial

/-- A node is folded, or what the rest makes of it. -/
theorem fold_yields {dialect : Dialect} {expr : Expr} {operands : List Compiled}
    {rest : Except CompileFault Compiled} {P : Compiled → Prop}
    (hfolded : ∀ c, c.Arises dialect expr operands → P c) (hrest : Yields P rest) :
    Yields P (do
      match ← fold? expr operands with
      | some folded => return folded
      | none => rest) := by
  refine Yields.step fun folded hfold => ?_
  cases folded with
  | some folded =>
      obtain ⟨hvalues, hconstant⟩ := isValue_of_fold?_eq_some hfold
      exact Yields.ok (hfolded folded (.folded (List.all_eq_true.mp hvalues) hconstant))
  | none => exact hrest

/-- A call is folded from values or rendered from its arguments. -/
theorem call_arises {expr : Expr} {function : Builtin} {arguments : List Compiled} :
    Yields (Compiled.Arises compiler.dialect expr arguments)
      (compiler.call expr function arguments) := by
  refine fold_yields (fun _ h => h) (Yields.step fun slots hslots => Yields.step fun part _ => ?_)
  refine Yields.ok (.rendered rfl fun _ request _ argument hargument => ?_)
  obtain ⟨slot, -, hslot⟩ := exists_of_forall₂ (mapM_eq_ok.mp hslots).flip hargument
  exact merges_of_ofCompiled hslot

theorem arithmetic_arises {expr : Expr} {op : BinaryOp} {left right : Compiled} :
    Yields (Compiled.Arises compiler.dialect expr [left, right])
      (compiler.arithmetic expr op left right) := by
  refine fold_yields (fun _ h => h) (Yields.step fun l hl => Yields.step fun r hr => ?_)
  exact Yields.step fun part _ => Yields.ok (.rendered rfl fun _ request _ => merges_both hl hr)

/-- A comparison is folded from values or rendered from both its sides. -/
theorem comparison_arises {expr : Expr} {op : BinaryOp} {left right : Compiled} :
    Yields (Compiled.Arises compiler.dialect expr [left, right])
      (compiler.comparison expr op left right) := by
  refine fold_yields (fun _ h => h) ?_
  have hcondition : ∀ (op : BinaryOp) (first second : Compiled), Yields
      (fun c => c.isValue = false ∧ ∃ l r, Slot.ofCompiled first = .ok l ∧
        Slot.ofCompiled second = .ok r) (do
        let leftSlot ← Slot.ofCompiled first
        let rightSlot ← Slot.ofCompiled second
        return Compiled.condition (← compiler.renderTwo leftSlot rightSlot
          (compiler.dialect.comparison op))) :=
    fun op first second => Yields.step fun l hl => Yields.step fun r hr => Yields.step fun part _ =>
      Yields.ok ⟨rfl, l, r, hl, hr⟩
  simp only
  split
  next =>
    refine Yields.step fun flipped _ => (hcondition flipped right left).mono fun c hc => ?_
    obtain ⟨hvalue, r, l, hr, hl⟩ := hc
    exact .rendered hvalue fun _ request _ => merges_both hl hr
  next =>
    refine (hcondition op left right).mono fun c hc => ?_
    obtain ⟨hvalue, l, r, hl, hr⟩ := hc
    exact .rendered hvalue fun _ request _ => merges_both hl hr

theorem binary_arises {expr : Expr} {op : BinaryOp} {left right : Compiled} :
    Yields (Compiled.Arises compiler.dialect expr [left, right])
      (if op.isComparison then compiler.comparison expr op left right
        else compiler.arithmetic expr op left right) :=
  Yields.ite (fun _ => comparison_arises) fun _ => arithmetic_arises

theorem nullCheck_arises {expr : Expr} {op : UnaryOp} {operand : Compiled} :
    Yields (Compiled.Arises compiler.dialect expr [operand]) (compiler.nullCheck op operand) := by
  unfold nullCheck
  split
  next => exact Yields.error _
  next =>
    refine Yields.step fun slot hslot => Yields.step fun part _ => Yields.ok ?_
    exact .rendered rfl fun _ request _ =>
      List.forall_mem_singleton.mpr (merges_of_ofCompiled hslot)

/-- An operation on one operand is folded from a value or rendered from the operand. -/
theorem unary_arises {expr : Expr} {op : UnaryOp} {operand : Compiled} :
    Yields (Compiled.Arises compiler.dialect expr [operand]) (compiler.unary expr op operand) := by
  refine fold_yields (fun _ h => h) ?_
  cases op with
  | not =>
      refine Yields.step fun part hpart => Yields.ok ?_
      exact .rendered rfl fun hexposes request hmerges => List.forall_mem_singleton.mpr
        (merges_of_condition hpart (hexposes.negation hmerges))
  | negate =>
      refine Yields.step fun slot hslot => Yields.step fun part _ => Yields.ok ?_
      exact .rendered rfl fun _ request _ =>
        List.forall_mem_singleton.mpr (merges_of_ofCompiled hslot)
  | isNull => exact nullCheck_arises
  | notNull => exact nullCheck_arises

/-- Every condition among the operands of a junction that no constant decides is a part of it. -/
theorem merges_of_junctionParts {deciding : Bool} {operands : List Compiled} {parts : List Part}
    (h : compiler.junctionParts deciding operands = .ok (some parts))
    (hparts : ∀ part ∈ parts, part.Merges request) : ∀ c ∈ operands, c.Merges request := by
  induction operands generalizing parts with
  | nil => simp
  | cons c rest ih =>
      by_cases hconstant : c.isConstant = true
      · cases c with
        | constant value =>
            rw [junctionParts] at h
            obtain ⟨holds, -, h⟩ := bind_eq_ok.mp h
            split at h
            next => cases h
            next => exact List.forall_mem_cons.mpr ⟨trivial, ih h hparts⟩
        | _ => cases hconstant
      · rw [junctionParts_cons deciding (by simpa using hconstant)] at h
        obtain ⟨part, hpart, h⟩ := bind_eq_ok.mp h
        obtain ⟨others, hothers, h⟩ := map_eq_ok.mp h
        obtain ⟨others, rfl, rfl⟩ := Option.map_eq_some_iff.mp h
        rw [List.forall_mem_cons] at hparts
        exact List.forall_mem_cons.mpr
          ⟨merges_of_condition hpart hparts.1, ih hothers hparts.2⟩

/-- Nothing but a constant decides a junction. -/
theorem exists_isConstant_of_junctionParts {deciding : Bool} {operands : List Compiled}
    (h : compiler.junctionParts deciding operands = .ok none) :
    ∃ c ∈ operands, c.isConstant = true := by
  by_contra hnone
  push Not at hnone
  induction operands with
  | nil => cases h
  | cons c rest ih =>
      rw [List.forall_mem_cons] at hnone
      rw [junctionParts_cons deciding (by simpa using hnone.1)] at h
      obtain ⟨part, -, h⟩ := bind_eq_ok.mp h
      obtain ⟨others, hothers, h⟩ := map_eq_ok.mp h
      rw [Option.map_eq_none_iff.mp h] at hothers
      exact ih hothers hnone.2

/-- Junctions arise from their operands, unless a constant one decides them. -/
theorem junction_arises {expr : Expr} {op : BinaryOp} {operands : List Compiled} :
    Yields (fun c => c.Arises compiler.dialect expr operands ∨
        c.isConstant = true ∧ ∃ operand ∈ operands, operand.isConstant = true)
      (compiler.junction expr op operands) := by
  refine fold_yields (fun _ h => Or.inl h) (Yields.step fun parts? hparts => ?_)
  cases parts? with
  | none => exact Yields.ok (Or.inr ⟨rfl, exists_isConstant_of_junctionParts hparts⟩)
  | some parts =>
      split
      next heq => cases heq
      next part heq =>
        cases heq
        refine Yields.ok (Or.inl (.rendered rfl fun _ request hmerges => ?_))
        exact merges_of_junctionParts hparts (List.forall_mem_singleton.mpr hmerges)
      next others _ heq =>
        cases heq
        refine Yields.ok (Or.inl (.rendered rfl fun hexposes request hmerges => ?_))
        exact merges_of_junctionParts hparts (hexposes.junction hmerges)

end Compiler

end RowFilter
