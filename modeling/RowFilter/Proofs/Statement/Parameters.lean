import RowFilter.Proofs.Statement.Operands

/-! # Parameters of statements

The parameters of a part that merges are those of the parts that it was put together of. What an
operand supplies for a request is what is written of it then.
-/

namespace RowFilter

open Statement

namespace Part

variable {request : Request} {Q : Value → Prop} {part inner : Part}

/-- The statement of the part for the request has a parameter with a property. -/
def Carries (request : Request) (Q : Value → Prop) (part : Part) : Prop :=
  ∃ statement, part.merge request = .ok statement ∧ ∃ value ∈ statement.parameters, Q value

/-- Where a part merges, it carries what its statement has among its parameters. -/
theorem carries_of_merge {statement : Statement} (h : part.merge request = .ok statement) :
    part.Carries request Q ↔ ∃ value ∈ statement.parameters, Q value := by
  simp [Carries, h]

theorem Carries.merges (h : part.Carries request Q) : part.Merges request := by
  obtain ⟨statement, hmerge, -⟩ := h
  exact ⟨statement, hmerge⟩

/-- Parts that merge alike carry alike. -/
theorem carries_congr (h : part.merge request = inner.merge request) :
    part.Carries request Q ↔ inner.Carries request Q := by
  rw [Carries, h, Carries]

theorem carries_ofText {text : String} {parameters : List Value} :
    (ofText text parameters).Carries request Q ↔ ∃ value ∈ parameters, Q value :=
  carries_of_merge (merge_ofText request text parameters)

theorem not_carries_startingWith (text : String) : ¬(startingWith text).Carries request Q := by
  rw [startingWith, carries_ofText]
  simp

/-- A text behind a part carries nothing. -/
theorem carries_thenText {text : String} :
    (part.thenText text).Carries request Q ↔ part.Carries request Q := by
  rw [Carries, merge_thenText]
  cases h : part.merge request with
  | error error => simp [Carries, h, andThen, Bind.bind, Except.bind]
  | ok statement => simp [Carries, h, andThen_ok, Statement.append]

/-- Of two parts in a row, one carries what both carry together. -/
theorem carries_thenPart (h : (part.thenPart inner).Merges request) :
    (part.thenPart inner).Carries request Q ↔ part.Carries request Q ∨ inner.Carries request Q := by
  obtain ⟨⟨a, ha⟩, ⟨b, hb⟩⟩ := merges_thenPart.mp h
  have hmerge : (part.thenPart inner).merge request = .ok (a.append b) := by
    rw [merge_thenPart, ha, hb, andThen_ok]
  rw [carries_of_merge hmerge, carries_of_merge ha, carries_of_merge hb]
  simp only [Statement.append, List.mem_append, or_and_right, exists_or]

theorem merges_opened {opening : String} :
    ((startingWith opening).thenPart part).Merges request ↔ part.Merges request := by
  rw [merges_thenPart]
  exact and_iff_right ⟨_, merge_ofText ..⟩

/-- A text in front of a part has no parameters. -/
theorem carries_opened {opening : String} :
    ((startingWith opening).thenPart part).Carries request Q ↔ part.Carries request Q := by
  constructor
  · intro h
    exact ((carries_thenPart h.merges).mp h).resolve_left (not_carries_startingWith opening)
  · intro h
    exact (carries_thenPart (merges_opened.mpr h.merges)).mpr (Or.inr h)

/-- Parts in a row carry what any of them carries. -/
theorem carries_foldl_thenPart {parts : List Part}
    (h : (parts.foldl Part.thenPart part).Merges request) :
    (parts.foldl Part.thenPart part).Carries request Q ↔
      part.Carries request Q ∨ ∃ inner ∈ parts, inner.Carries request Q := by
  induction parts generalizing part with
  | nil => simp
  | cons first rest ih =>
      have hfirst := (merges_foldl_thenPart (List.foldl_cons .. ▸ h)).1
      rw [List.foldl_cons, ih h, carries_thenPart hfirst, or_assoc, List.exists_mem_cons_iff]

end Part

namespace Compiled

/-- The value, known or for the request, of what needs no backend. -/
def Supplies (request : Request) (value : Value) : Compiled → Prop
  | .constant known => value = known
  | .dynamic expr => request.evaluate expr = .ok value
  | _ => False

/-- A condition whose statement for the request has a parameter with a property. -/
def Carries (request : Request) (Q : Value → Prop) : Compiled → Prop
  | .condition part => part.Carries request Q
  | _ => False

end Compiled

namespace Compiler

variable {compiler : Compiler} {request : Request} {expr : Expr}

theorem ne_condition_of_ofCompiled {c : Compiled} {slot : Slot} (h : Slot.ofCompiled c = .ok slot) :
    ∀ part, c ≠ .condition part := by
  rintro part rfl
  cases h

/-- A rendering that merges is a part that does. -/
theorem exists_of_mergeRendering {rendering : Rendering} {statement : Statement}
    (h : compiler.mergeRendering request rendering = .ok statement) :
    ∃ part, rendering = .ok part ∧ part.merge request = .ok statement := by
  cases rendering with
  | error fault => cases h
  | ok part => exact ⟨part, rfl, h⟩

/-- A rendering that merges is what is written of its operand for the request. -/
theorem exists_of_merges_renderOne {slot : Slot} {write : Term → Rendering} {part : Part}
    (h : compiler.renderOne slot write = .ok part) (hmerges : part.Merges request) :
    ∃ term rendered, slot.term request = .ok term ∧ write term = .ok rendered ∧
      part.merge request = rendered.merge request := by
  obtain ⟨statement, hmerge⟩ := hmerges
  have hterms := hmerge
  rw [merge_renderOne h] at hterms
  obtain ⟨term, hterm, hwritten⟩ := bind_eq_ok.mp hterms
  obtain ⟨rendered, hwrite, hrendered⟩ := exists_of_mergeRendering hwritten
  exact ⟨term, rendered, hterm, hwrite, hmerge.trans hrendered.symm⟩

/-- What is rendered of two slots merges as what is written of both their terms. -/
theorem exists_of_merges_renderTwo {left right : Slot} {write : Term → Term → Rendering}
    {part : Part} (h : compiler.renderTwo left right write = .ok part)
    (hmerges : part.Merges request) :
    ∃ l r rendered, left.term request = .ok l ∧ right.term request = .ok r ∧
      write l r = .ok rendered ∧ part.merge request = rendered.merge request := by
  obtain ⟨statement, hmerge⟩ := hmerges
  have hterms := hmerge
  rw [merge_renderTwo h] at hterms
  obtain ⟨l, hl, hterms⟩ := bind_eq_ok.mp hterms
  obtain ⟨r, hr, hwritten⟩ := bind_eq_ok.mp hterms
  obtain ⟨rendered, hwrite, hrendered⟩ := exists_of_mergeRendering hwritten
  exact ⟨l, r, rendered, hl, hr, hwrite, hmerge.trans hrendered.symm⟩

end Compiler

end RowFilter
