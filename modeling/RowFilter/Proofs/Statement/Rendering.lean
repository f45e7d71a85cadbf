import RowFilter.Proofs.Statement.Merging
import RowFilter.Statement.Compilation

/-! # Rendering operands

A rendering merges to what is written of the operands of the request, whether it was deferred or
not. It fails at compile time exactly if writing fails with NULL for the unknown operands.
-/

namespace RowFilter

namespace Compiler

variable {compiler : Compiler} {request : Request}

/-- The statement of a rendering for a request: a fault that shows only then is an error. -/
def mergeRendering (compiler : Compiler) (request : Request) :
    Rendering → Except MergeError Statement
  | .ok part => part.merge request
  | .error fault => .error (.render ⟨compiler.dialect.name, compiler.source, fault⟩)

/-- Slots that are ready have the terms that were tried out. -/
theorem mapM_term_of_ready {slots : List Slot} (h : slots.all Slot.isReady = true) :
    slots.mapM (Slot.term request) = .ok (slots.map Slot.trial) := by
  induction slots with
  | nil => rfl
  | cons slot rest ih =>
      rw [List.all_cons, Bool.and_eq_true] at h
      cases slot with
      | deferred expr => cases h.1
      | ready term =>
          rw [List.mapM_cons, ih h.2]
          rfl

/-- Deferred or not, a rendering merges to what is written of the operands of the request. -/
theorem merge_render {slots : List Slot} {write : List Term → Rendering} {part : Part}
    (h : compiler.render slots write = .ok part) :
    part.merge request =
      (slots.mapM (Slot.term request)).bind fun terms =>
        compiler.mergeRendering request (write terms) := by
  unfold render at h
  cases htrial : write (slots.map Slot.trial) with
  | error fault =>
      rw [htrial] at h
      cases h
  | ok rendered =>
      rw [htrial] at h
      simp only [Bind.bind, Except.bind] at h
      split at h
      next hready =>
        cases h
        -- The trial was rendered with the operands themselves.
        rw [mapM_term_of_ready hready, Except.bind, htrial, mergeRendering]
      next hready =>
        cases h
        rw [Part.merge_deferred]
        simp only [Except.bind]
        cases slots.mapM (Slot.term request) with
        | error e => rfl
        | ok terms =>
            simp only
            cases write terms with
            | error fault => rfl
            | ok part => rfl

/-- Nothing but the trial decides whether operands can be rendered. -/
theorem render_ok {slots : List Slot} {write : List Term → Rendering} {trial : Part}
    (h : write (slots.map Slot.trial) = .ok trial) :
    ∃ part, compiler.render slots write = .ok part := by
  unfold render
  rw [h]
  simp only [Bind.bind, Except.bind]
  split
  next => exact ⟨_, rfl⟩
  next => exact ⟨_, rfl⟩

theorem renderOne_ok {slot : Slot} {write : Term → Rendering} {trial : Part}
    (h : write slot.trial = .ok trial) : ∃ part, compiler.renderOne slot write = .ok part :=
  render_ok h

theorem renderTwo_ok {left right : Slot} {write : Term → Term → Rendering} {trial : Part}
    (h : write left.trial right.trial = .ok trial) :
    ∃ part, compiler.renderTwo left right write = .ok part :=
  render_ok h

/-- What is rendered of one slot merges to what is written of its term for the request. -/
theorem merge_renderOne {slot : Slot} {write : Term → Rendering} {part : Part}
    (h : compiler.renderOne slot write = .ok part) :
    part.merge request = (slot.term request).bind fun term =>
      compiler.mergeRendering request (write term) := by
  rw [merge_render h, List.mapM_cons, List.mapM_nil]
  cases slot.term request with
  | error e => rfl
  | ok term => rfl

/-- What is rendered of two slots merges to what is written of their terms, left before right. -/
theorem merge_renderTwo {left right : Slot} {write : Term → Term → Rendering} {part : Part}
    (h : compiler.renderTwo left right write = .ok part) :
    part.merge request = (left.term request).bind fun l => (right.term request).bind fun r =>
      compiler.mergeRendering request (write l r) := by
  rw [merge_render h, List.mapM_cons, List.mapM_cons, List.mapM_nil]
  cases left.term request with
  | error e => rfl
  | ok l =>
      cases right.term request with
      | error e => rfl
      | ok r => rfl

/-- Operands that are not all values are left to the backend. -/
theorem fold?_eq_none (expr : Expr) {operands : List Compiled} {operand : Compiled}
    (hmem : operand ∈ operands) (h : operand.isValue = false) : fold? expr operands = .ok none := by
  rw [fold?, if_pos]
  simp only [Bool.not_eq_true', List.all_eq_false]
  exact ⟨operand, hmem, by simp [h]⟩

theorem fold?_eq_some {expr : Expr} {operands : List Compiled} {c : Compiled}
    (h : fold? expr operands = .ok (some c)) :
    (∃ value, c = .constant value) ∨ c = .dynamic expr := by
  unfold fold? at h
  split at h
  next => cases h
  next =>
    split at h
    next =>
      split at h
      next => cases h; exact Or.inl ⟨_, rfl⟩
      next => cases h
    next => cases h; exact Or.inr rfl

/-- Only values are folded, and only constants now. -/
theorem isValue_of_fold?_eq_some {expr : Expr} {operands : List Compiled} {c : Compiled}
    (h : fold? expr operands = .ok (some c)) :
    operands.all Compiled.isValue = true ∧ (c.isConstant = true → expr.isConstant = true) := by
  unfold fold? at h
  split at h
  next => cases h
  next hvalues =>
    refine ⟨by simpa using hvalues, fun hc => ?_⟩
    split at h
    next hconstant => exact (Bool.and_eq_true_iff.mp hconstant).1
    next =>
      cases h
      cases hc

/-- Folding gives up only where an operand is no value. -/
theorem isValue_of_fold?_eq_none {expr : Expr} {operands : List Compiled}
    (h : fold? expr operands = .ok none) : operands.all Compiled.isValue = false := by
  unfold fold? at h
  split at h
  next hvalues => simpa using hvalues
  next =>
    split at h
    next => split at h <;> cases h
    next => cases h

end Compiler

end RowFilter
