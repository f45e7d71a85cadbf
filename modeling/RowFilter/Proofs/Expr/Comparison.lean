import RowFilter.Expr.Evaluation

/-! # Plain comparisons

A plain comparison of two values that can be ordered holds by their order. Of values that cannot, an
ordering operator says in its error which types they have.
-/

namespace RowFilter

namespace Value

variable {left right : Value} {ordering : Ordering}

/-- Values that can be ordered are loosely equal exactly if they are level. -/
theorem looselyEquals_of_compare? (h : left.compare? right = some ordering) :
    left.looselyEquals right = (ordering == .eq) := by
  have hdefault : (left.compare? right == some .eq) = (ordering == .eq) := by
    rw [h]
    rfl
  cases left <;> cases right <;> first | exact hdefault | cases h

theorem align?_of_compare? (h : left.compare? right = some ordering) :
    left.align? right = some ordering := by
  unfold align?
  rw [h]

theorem looselyEquals_of_compare?_eq_none (hnull : left.isNull = false)
    (hcollection : left.type ≠ .collection) (h : left.compare? right = none) :
    left.looselyEquals right = false := by
  have hdefault : (left.compare? right == some .eq) = false := by
    rw [h]
    rfl
  cases left with
  | null => cases hnull
  | collection items => exact absurd rfl hcollection
  | _ => exact hdefault

/-- Whether a value has the same order to two others. -/
def OrdersAlike (left right other : Value) : Prop :=
  ∃ ordering, left.align? right = some ordering ∧ left.align? other = some ordering

/-- Two values are ordered alike to a third if both orders are the same. -/
theorem ordersAlike_iff {other : Value} {first second : Ordering}
    (hright : left.align? right = some first) (hother : left.align? other = some second) :
    left.OrdersAlike right other ↔ first = second := by
  rw [OrdersAlike, hright, hother]
  constructor
  · rintro ⟨ordering, hfirst, hsecond⟩
    exact (Option.some.inj hfirst).trans (Option.some.inj hsecond).symm
  · rintro rfl
    exact ⟨first, rfl, rfl⟩

theorem not_ordersAlike {other : Value} (h : left.align? right = none) :
    ¬left.OrdersAlike right other := by
  rintro ⟨ordering, hright, -⟩
  rw [h] at hright
  cases hright

/-- Values that can be ordered are neither NULL nor collections. -/
theorem isNull_of_align? (h : left.align? right = some ordering) :
    left.isNull = false ∧ right.isNull = false := by
  cases left <;> cases right <;> first | exact ⟨rfl, rfl⟩ | cases h

/-- A collection has no order to anything. -/
theorem type_ne_collection_of_align? (h : left.align? right = some ordering) :
    left.type ≠ .collection := by
  intro htype
  cases left with
  | collection items => cases right <;> cases h
  | _ => cases htype

/-- Values that can be ordered are equal exactly if their order says so. -/
theorem equals_of_align? (h : left.align? right = some ordering) :
    left.equals right = (ordering == .eq) := by
  rw [equals, h]
  cases hcompare : left.compare? right with
  | some direct =>
      have hdirect := align?_of_compare? hcompare
      rw [h] at hdirect
      cases hdirect
      rw [looselyEquals_of_compare? hcompare]
      exact Bool.or_self _
  | none =>
      have hnull := (isNull_of_align? h).1
      rw [looselyEquals_of_compare?_eq_none hnull (type_ne_collection_of_align? h) hcompare,
        Bool.false_or]
      rfl

end Value

namespace BinaryOp

/-- Whether a comparison holds of things in some order. -/
def relates (op : BinaryOp) (ordering : Ordering) : Bool :=
  match op with
  | eq => ordering == .eq
  | ne => ordering != .eq
  | _ => op.holdsFor ordering

variable {op flipped : BinaryOp}

theorem isComparison_of_flip (h : op.flip = some flipped) : op.isComparison = true := by
  cases op <;> first | rfl | cases h

theorem isLogical_of_flip (h : op.flip = some flipped) : op.isLogical = false := by
  cases op <;> first | rfl | cases h

theorem flip_flip (h : op.flip = some flipped) : flipped.flip = some op := by
  cases op <;> cases h <;> rfl

/-- The flipped comparison holds of two things in the other order. -/
theorem relates_swap (h : op.flip = some flipped) (ordering : Ordering) :
    flipped.relates ordering.swap = op.relates ordering := by
  cases op <;> cases h <;> cases ordering <;> rfl

/-- The plain comparisons are those with an operator for exchanged sides. -/
theorem exists_flip_iff : (∃ flipped, op.flip = some flipped) ↔ op ∈ [eq, ne, lt, le, gt, ge] := by
  cases op <;> simp [flip]

/-- The two strict comparisons tell orders apart. -/
theorem eq_of_relates {first second : Ordering} (hlt : lt.relates first = lt.relates second)
    (hgt : gt.relates first = gt.relates second) : first = second := by
  cases first <;> cases second <;> first | rfl | cases hlt; done | cases hgt

variable {left right : Value} {ordering : Ordering}

/-- A comparison of values that can be ordered holds by their order. -/
theorem apply_of_align? (h : op.flip = some flipped) (halign : left.align? right = some ordering) :
    op.apply left right = .ok (.boolean (op.relates ordering)) := by
  obtain ⟨hleft, hright⟩ := Value.isNull_of_align? halign
  have hnull : (left.isNull || right.isNull) = false := by
    rw [hleft, hright]
    rfl
  have hequals := Value.equals_of_align? halign
  cases op <;> cases h
  case eq => rw [apply, hequals]; rfl
  case ne => rw [apply, hequals]; rfl
  all_goals simp only [apply, hnull, halign, Bool.false_eq_true, if_false]; rfl

/-- Values that cannot be ordered are refused by an ordering operator. -/
theorem apply_lt_of_align?_eq_none (hleft : left.isNull = false) (hright : right.isNull = false)
    (halign : left.align? right = none) :
    BinaryOp.lt.apply left right = .error (BinaryOp.lt.refuse left right) := by
  rw [apply, hleft, hright, Bool.or_false, if_neg Bool.false_ne_true, halign]

/-- No plain comparison tells two values of different types apart exactly if the left side has the
same order to both. -/
theorem forall_apply_eq_iff {other : Value} (hleft : left.isNull = false)
    (hright : right.isNull = false) (hother : other.isNull = false)
    (htype : right.type ≠ other.type) :
    (∀ op flipped, BinaryOp.flip op = some flipped → op.apply left right = op.apply left other) ↔
      left.OrdersAlike right other := by
  constructor
  · intro h
    have hlt := h .lt .gt rfl
    have hgt := h .gt .lt rfl
    cases hfirst : left.align? right with
    | none =>
        rw [apply_lt_of_align?_eq_none hleft hright hfirst] at hlt
        cases hsecond : left.align? other with
        | none =>
            rw [apply_lt_of_align?_eq_none hleft hother hsecond] at hlt
            injection hlt with hrefuse
            injection hrefuse with hop hleft hsame
            injection hsame with hsame
            exact absurd hsame htype
        | some ordering =>
            rw [apply_of_align? (rfl : BinaryOp.lt.flip = _) hsecond] at hlt
            cases hlt
    | some ordering =>
        refine ⟨ordering, hfirst, ?_⟩
        rw [apply_of_align? (rfl : BinaryOp.lt.flip = _) hfirst] at hlt
        rw [apply_of_align? (rfl : BinaryOp.gt.flip = _) hfirst] at hgt
        cases hsecond : left.align? other with
        | none =>
            rw [apply_lt_of_align?_eq_none hleft hother hsecond] at hlt
            cases hlt
        | some second =>
            rw [apply_of_align? (rfl : BinaryOp.lt.flip = _) hsecond] at hlt
            rw [apply_of_align? (rfl : BinaryOp.gt.flip = _) hsecond] at hgt
            injection hlt with hlt
            injection hgt with hgt
            rw [eq_of_relates (Value.boolean.inj hlt) (Value.boolean.inj hgt)]
  · rintro ⟨ordering, hfirst, hsecond⟩ op flipped h
    rw [apply_of_align? h hfirst, apply_of_align? h hsecond]

end BinaryOp

end RowFilter
