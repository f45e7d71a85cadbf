import RowFilter.Proofs.Statement.Invariant

/-! # Properties of merged statements

A part may be deferred, and what it merges to differs from request to request. A property of
statements that whatever is written has for every request passes on to what is deferred, and so to
all statements of a filter.
-/

namespace RowFilter

/-- If the part merges, for whatever request, its statement has a property. -/
def Part.Upholds (Q : Statement → Prop) (part : Part) : Prop :=
  ∀ request, Yields Q (part.merge request)

/-- A deferred rendering merges to what is written of its operands for the request. -/
theorem deferrable_upholds (Q : Statement → Prop) :
    Deferrable (fun _ => True) (Part.Upholds Q) := by
  intro compiler slots write _ hwrite part hpart request statement hmerge
  rw [Compiler.merge_render hpart] at hmerge
  cases hterms : slots.mapM (Slot.term request) with
  | error error =>
      rw [hterms] at hmerge
      cases hmerge
  | ok terms =>
      rw [hterms] at hmerge
      have hmerge : compiler.mergeRendering request (write terms) = .ok statement := hmerge
      cases hrendered : write terms with
      | error fault =>
          rw [hrendered] at hmerge
          cases hmerge
      | ok rendered =>
          rw [hrendered] at hmerge
          exact hwrite request terms hterms rendered hrendered request statement hmerge

namespace Filter

variable {filter compiled : Filter} {expr : Expr}

/-- The compiler of an expression for the filter's backend and schema. -/
def compiler (filter : Filter) (expr : Expr) : Compiler :=
  ⟨filter.dialect, filter.schema, expr.text⟩

/-- A filter that compiles merges to the statement of its condition. -/
theorem compile_eq_ok (h : filter.compile expr = (compiled, none)) :
    ∃ c part, (filter.compiler expr).compile expr = .ok c ∧
      (filter.compiler expr).condition c = .ok part ∧
      ∀ request, compiled.merge request = part.merge (filter.bindRequest request) := by
  unfold compile at h
  cases hpart : compilePart filter.backend filter.schema expr with
  | error fault =>
      rw [hpart] at h
      cases h
  | ok part =>
      rw [hpart] at h
      cases h
      obtain ⟨c, hc, hcondition⟩ := bind_eq_ok.mp hpart
      exact ⟨c, part, hc, hcondition, fun _ => rfl⟩

theorem compilePart_of_condition {part : Part}
    (h : (filter.compiler expr).compile expr = .ok (.condition part)) :
    compilePart filter.backend filter.schema expr = .ok part :=
  bind_eq_ok.mpr ⟨_, h, rfl⟩

/-- Where compiling a filter succeeds, there is a part. -/
theorem exists_compilePart (h : (filter.compile expr).2 = none) :
    ∃ part, compilePart filter.backend filter.schema expr = .ok part := by
  rw [compile] at h
  split at h
  next part hpart => exact ⟨part, hpart⟩
  next => cases h

/-- Compiling succeeds with the part as the root of the filter. -/
theorem compile_of_part {part : Part}
    (h : compilePart filter.backend filter.schema expr = .ok part) :
    filter.compile expr = ({ filter with root := some part, expression := expr.text }, none) := by
  rw [compile, h]

theorem compile_of_condition {c : Compiled} {part : Part}
    (hc : (filter.compiler expr).compile expr = .ok c)
    (hpart : (filter.compiler expr).condition c = .ok part) :
    filter.compile expr = ({ filter with root := some part, expression := expr.text }, none) :=
  compile_of_part (bind_eq_ok.mpr ⟨c, hc, hpart⟩)

/-- Whatever a compiled filter merges to has a property that its dialect upholds. -/
theorem merge_upholds {N : Attribute → Prop} {Q : Statement → Prop}
    (hdialect : filter.dialect.Respects N (Part.Upholds Q))
    (hschema : ∀ entry ∈ filter.schema, N entry.2)
    (hcompile : filter.compile expr = (compiled, none)) (request : Request) :
    Yields Q (compiled.merge request) := by
  obtain ⟨c, part, hc, hcondition, hmerge⟩ := compile_eq_ok hcompile
  have hdialect : (filter.compiler expr).dialect.Respects N (Part.Upholds Q) := hdialect
  have hrespects := Compiler.compile_respects (deferrable_upholds Q) hdialect hschema
    (fun _ _ _ => trivial) c hc
  have hpart := Compiler.condition_respects (deferrable_upholds Q) hdialect hrespects part
    hcondition
  rw [hmerge]
  exact hpart (filter.bindRequest request)

end Filter

end RowFilter
