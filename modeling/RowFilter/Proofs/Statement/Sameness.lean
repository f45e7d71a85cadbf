import RowFilter.Proofs.Statement.DialectClosure

/-! # Parts that merge the same for two requests

Two requests that give the same values to what a part defers give the same outcome of merging it.
The operations that put parts together keep this, and so does everything that a dialect writes.
-/

namespace RowFilter

section

variable (request other : Request)

/-- Merging gives the same statement for both requests, or the same error. -/
def Part.Same (part : Part) : Prop :=
  part.merge request = part.merge other

/-- What the backend computes merges the same for both requests. -/
def Term.Same : Term → Prop
  | .computed part _ => part.Same request other
  | _ => True

/-- If there is a part, it merges the same for both requests. -/
def Keeps (rendering : Rendering) : Prop :=
  ∀ part, rendering = .ok part → part.Same request other

/-- What a dialect writes of terms and parts that merge the same merges the same. -/
structure Dialect.Keeps (dialect : Dialect) : Prop where
  comparison : ∀ op left right, left.Same request other → right.Same request other →
    RowFilter.Keeps request other (dialect.comparison op left right)
  nullCheck : ∀ term isNull, term.Same request other →
    RowFilter.Keeps request other (dialect.nullCheck term isNull)
  junction : ∀ op parts, (∀ part ∈ parts, part.Same request other) →
    (dialect.junction op parts).Same request other
  negation : ∀ part, part.Same request other → (dialect.negation part).Same request other
  truth : ∀ holds, (dialect.truth holds).Same request other
  arithmetic : ∀ op left right, left.Same request other → right.Same request other →
    RowFilter.Keeps request other (dialect.arithmetic op left right)
  function : ∀ function arguments, (∀ term ∈ arguments, term.Same request other) →
    RowFilter.Keeps request other (dialect.function function arguments)

end

variable {request other : Request}

/-- Parts whose outcomes are the same for their requests may be put together with any texts. -/
theorem Part.compatible_merge :
    Compatible (fun _ => True) fun part part' => part.merge request = part'.merge other where
  plain_of_notMem _ _ := trivial
  plain_append _ _ := trivial
  nil := by rw [merge_nil, merge_nil]
  ofText _ := by rw [merge_ofText, merge_ofText]
  startingWith _ := by rw [Part.startingWith, merge_ofText, merge_ofText]
  thenText h _ := by rw [merge_thenText, merge_thenText, h]
  thenPart h hinner := by rw [merge_thenPart, merge_thenPart, h, hinner]

theorem Term.respects_same {term : Term} :
    term.Respects (fun _ => True) (Part.Same request other) ↔ term.Same request other := by
  cases term with
  | attr definition => exact Iff.rfl
  | computed part type => exact Iff.rfl
  | value value => exact Iff.rfl

theorem Dialect.Keeps.respects {dialect : Dialect} (h : dialect.Keeps request other) :
    dialect.Respects (fun _ => True) (Part.Same request other) where
  comparison op left right hleft hright :=
    h.comparison op left right (Term.respects_same.mp hleft) (Term.respects_same.mp hright)
  nullCheck term isNull hterm := h.nullCheck term isNull (Term.respects_same.mp hterm)
  junction op parts _ hparts := h.junction op parts hparts
  negation := h.negation
  truth := h.truth
  arithmetic op left right hleft hright :=
    h.arithmetic op left right (Term.respects_same.mp hleft) (Term.respects_same.mp hright)
  function function arguments harguments :=
    h.function function arguments fun term hterm => Term.respects_same.mp (harguments term hterm)

/-- What either dialect writes merges the same. -/
theorem Backend.dialect_keeps (backend : Backend) : backend.dialect.Keeps request other := by
  have hrelates := backend.dialect_relates (@Part.compatible_merge request other)
  have hrespects := hrelates.respects
  exact
    { comparison := fun op left right hleft hright => hrespects.comparison op left right
        (Term.respects_same.mpr hleft) (Term.respects_same.mpr hright)
      nullCheck := fun term isNull hterm =>
        hrespects.nullCheck term isNull (Term.respects_same.mpr hterm)
      junction := fun op parts hparts => hrelates.junction op (List.forall₂_same.mpr hparts)
      negation := hrespects.negation
      truth := hrespects.truth
      arithmetic := fun op left right hleft hright => hrespects.arithmetic op left right
        (Term.respects_same.mpr hleft) (Term.respects_same.mpr hright)
      function := fun function arguments harguments => hrespects.function function arguments
        fun term hterm => Term.respects_same.mpr (harguments term hterm) }

/-- A rendering of operands that have the same values for both requests merges the same. -/
theorem deferrable_same : Deferrable (fun expr => request.evaluate expr = other.evaluate expr)
    (Part.Same request other) := by
  intro compiler slots write hslots hwrite part hpart
  have hterms : slots.mapM (Slot.term request) = slots.mapM (Slot.term other) := by
    refine mapM_congr fun slot hslot => ?_
    cases slot with
    | ready term => rfl
    | deferred expr => rw [Slot.term, Slot.term, hslots expr hslot]
  rw [Part.Same, Compiler.merge_render hpart, Compiler.merge_render hpart, ← hterms]
  cases hresult : slots.mapM (Slot.term request) with
  | error error => rfl
  | ok terms =>
      cases hwritten : write terms with
      | error fault => simp only [Except.bind, hwritten, Compiler.mergeRendering]
      | ok written =>
          have hsame : written.merge request = written.merge other :=
            hwrite request terms hresult written hwritten
          simpa only [Except.bind, hwritten, Compiler.mergeRendering] using hsame

/-- What an expression compiles to merges the same for both requests if whatever of it is deferred
has the same value for both. -/
theorem Filter.same_of_compilePart {backend : Backend} {schema : Schema} {expr : Expr} {part : Part}
    (hpart : compilePart backend schema expr = .ok part)
    (hdeferred : ∀ sub ∈ expr.subexpressions,
      Compiler.compile ⟨backend.dialect, schema, expr.text⟩ sub = .ok (.dynamic sub) →
        request.evaluate sub = other.evaluate sub) : part.Same request other := by
  obtain ⟨c, hc, hcondition⟩ := bind_eq_ok.mp hpart
  have hdialect : Dialect.Respects (fun _ => True) (Part.Same request other) backend.dialect :=
    backend.dialect_keeps.respects
  have hrespects := Compiler.compile_respects deferrable_same hdialect (fun _ _ => trivial)
    (fun sub hsub => hdeferred sub hsub) c hc
  exact Compiler.condition_respects deferrable_same hdialect hrespects part hcondition

end RowFilter
