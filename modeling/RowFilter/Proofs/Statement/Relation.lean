import RowFilter.Proofs.Statement.Invariant

/-! # Related parts

A dialect that writes related parts of related operands keeps every relation between parts. A
property of parts is the diagonal of such a relation.
-/

namespace RowFilter

section

variable (N : Attribute → Prop) (R : Part → Part → Prop)

/-- Operands that differ in nothing but related parts. -/
inductive Term.Related : Term → Term → Prop
  | attr {definition : Attribute} (h : N definition) : Related (.attr definition) (.attr definition)
  | computed {part other : Part} (h : R part other) (type : ValueType) :
      Related (.computed part type) (.computed other type)
  | value (value : Value) : Related (.value value) (.value value)

/-- Of related operands and parts, a dialect writes related parts or finds the same fault. -/
structure Dialect.Relates (dialect : Dialect) : Prop where
  comparison : ∀ op {left left' right right' : Term}, left.Related N R left' →
    right.Related N R right' →
      Matches R (dialect.comparison op left right) (dialect.comparison op left' right')
  nullCheck : ∀ {term term' : Term} isNull, term.Related N R term' →
    Matches R (dialect.nullCheck term isNull) (dialect.nullCheck term' isNull)
  junction : ∀ op {parts others : List Part}, List.Forall₂ R parts others →
    R (dialect.junction op parts) (dialect.junction op others)
  negation : ∀ {part other : Part}, R part other →
    R (dialect.negation part) (dialect.negation other)
  truth : ∀ holds, R (dialect.truth holds) (dialect.truth holds)
  arithmetic : ∀ op {left left' right right' : Term}, left.Related N R left' →
    right.Related N R right' →
      Matches R (dialect.arithmetic op left right) (dialect.arithmetic op left' right')
  function : ∀ function {arguments others : List Term},
    List.Forall₂ (Term.Related N R) arguments others →
      Matches R (dialect.function function arguments) (dialect.function function others)

end

variable {N : Attribute → Prop} {R : Part → Part → Prop} {dialect : Dialect}

theorem Term.Respects.related {term : Term} (h : term.Respects N fun part => R part part) :
    term.Related N R term := by
  cases term with
  | attr definition => exact .attr h
  | computed part type => exact .computed h type
  | value value => exact .value value

/-- What dialects keep of related parts they keep of parts that are related to themselves. -/
theorem Dialect.Relates.respects (h : dialect.Relates N R) :
    dialect.Respects N fun part => R part part where
  comparison op _ _ hleft hright := (h.comparison op hleft.related hright.related).yields
  nullCheck _ isNull hterm := (h.nullCheck isNull hterm.related).yields
  junction op _ _ hparts := h.junction op (List.forall₂_same.mpr hparts)
  negation _ hpart := h.negation hpart
  truth holds := h.truth holds
  arithmetic op _ _ hleft hright := (h.arithmetic op hleft.related hright.related).yields
  function called _ harguments := by
    have hrelated := List.forall₂_same.mpr fun term hterm => (harguments term hterm).related
    exact (h.function called hrelated).yields

end RowFilter
