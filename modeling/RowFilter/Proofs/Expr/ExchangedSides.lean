import RowFilter.Proofs.Expr.Comparison
import RowFilter.Proofs.Value.Order

/-! # Comparisons with their sides exchanged

The order of two values is turned around when they are exchanged, also where a text stands for a
number, a date or a boolean, and equality does not depend on the sides at all. So a comparison means
the same as the one that looks from the other side, down to the types that an error names.
-/

namespace RowFilter

namespace Value

/-! ## Order and equality -/

theorem compareAs?_swap (target : ValueType) (a b : Value) :
    compareAs? target b a = (compareAs? target a b).map Ordering.swap := by
  unfold compareAs?
  split
  · cases a.coerce? target with
    | none => cases b.coerce? target <;> rfl
    | some l =>
      cases b.coerce? target with
      | none => rfl
      | some r => exact compare?_swap l r
  · rfl

/-- Of two texts, the order is known without reading them as anything else. -/
theorem align?_swap (a b : Value) : b.align? a = (a.align? b).map Ordering.swap := by
  unfold align?
  rw [compare?_swap a b]
  cases hcompare : a.compare? b with
  | some ordering => rfl
  | none =>
    cases a with
    | string s =>
      cases b with
      | string t => cases hcompare
      | _ => exact compareAs?_swap _ _ _
    | _ =>
      cases b with
      | string t => exact compareAs?_swap _ _ _
      | _ => rfl

theorem swap_beq_eq (order : Option Ordering) :
    (order.map Ordering.swap == some .eq) = (order == some .eq) := by
  cases order with
  | none => rfl
  | some ordering => cases ordering <;> rfl

/-- Values are level from both sides. -/
theorem compare?_beq_eq_comm (a b : Value) :
    (a.compare? b == some .eq) = (b.compare? a == some .eq) := by
  rw [compare?_swap a b, swap_beq_eq]

mutual

theorem looselyEquals_comm (a b : Value) : a.looselyEquals b = b.looselyEquals a := by
  cases a with
  | collection as =>
    cases b with
    | collection bs => exact looselyEqualAll_comm as bs
    | _ => exact compare?_beq_eq_comm _ _
  | null =>
    cases b with
    | null => rfl
    | _ => exact compare?_beq_eq_comm _ _
  | _ => cases b <;> exact compare?_beq_eq_comm _ _

theorem looselyEqualAll_comm (as bs : List Value) :
    looselyEqualAll as bs = looselyEqualAll bs as := by
  cases as with
  | nil => cases bs <;> rfl
  | cons a as =>
    cases bs with
    | nil => rfl
    | cons b bs =>
      rw [looselyEqualAll, looselyEqualAll, looselyEquals_comm a b, looselyEqualAll_comm as bs]

end

theorem equals_comm (a b : Value) : a.equals b = b.equals a := by
  rw [equals, equals, looselyEquals_comm a b, align?_swap a b, swap_beq_eq]

/-- Having an element in common is mutual. -/
theorem overlaps_comm (a b : Value) : a.overlaps b = b.overlaps a := by
  unfold overlaps
  rw [Bool.eq_iff_iff]
  simp only [List.any_eq_true]
  constructor
  · rintro ⟨item, hitem, candidate, hcandidate, hequals⟩
    exact ⟨candidate, hcandidate, item, hitem, equals_comm item candidate ▸ hequals⟩
  · rintro ⟨candidate, hcandidate, item, hitem, hequals⟩
    exact ⟨item, hitem, candidate, hcandidate, equals_comm candidate item ▸ hequals⟩

end Value

namespace BinaryOp

/-! ## Comparisons -/

variable {op flipped : BinaryOp} {left right : Value}

/-- An ordering operator finds NULL on either side. -/
theorem apply_eq_null_or_refuse (hop : op ∈ [lt, le, gt, ge])
    (halign : left.align? right = none) : op.apply left right =
      if left.isNull || right.isNull then .ok .null else .error (op.refuse left right) := by
  simp only [List.mem_cons, List.not_mem_nil, or_false] at hop
  rcases hop with rfl | rfl | rfl | rfl <;> simp only [apply, halign]

/-- A plain comparison and the one that looks from the other side give the same value, or refuse
the same types in the other order. Membership does not depend on the sides. -/
theorem apply_exchanged (left right : Value) :
    (∀ op flipped, BinaryOp.flip op = some flipped →
      (∃ value, op.apply left right = .ok value ∧ flipped.apply right left = .ok value) ∨
        op.apply left right =
            .error (.invalidOperands op.keyword left.type (some right.type)) ∧
          flipped.apply right left =
            .error (.invalidOperands flipped.keyword right.type (some left.type))) ∧
      containsOneOf.apply left right = containsOneOf.apply right left ∧
      containsNone.apply left right = containsNone.apply right left := by
  refine ⟨fun op flipped h => ?_, ?_, ?_⟩
  · cases halign : left.align? right with
    | some ordering =>
      have hswap : right.align? left = some ordering.swap := by
        rw [Value.align?_swap left right, halign, Option.map_some]
      refine .inl ⟨_, apply_of_align? h halign, ?_⟩
      rw [apply_of_align? (flip_flip h) hswap, relates_swap h]
    | none =>
      have hswap : right.align? left = none := by
        rw [Value.align?_swap left right, halign, Option.map_none]
      by_cases hequality : op = eq ∨ op = ne
      · refine .inl ?_
        rcases hequality with rfl | rfl <;> cases h
        · exact ⟨_, rfl, by rw [apply, Value.equals_comm]⟩
        · exact ⟨_, rfl, by rw [apply, Value.equals_comm]⟩
      · have hop : op ∈ [lt, le, gt, ge] ∧ flipped ∈ [lt, le, gt, ge] := by
          cases op <;> cases h <;> simp at hequality ⊢
        rw [apply_eq_null_or_refuse hop.1 halign, apply_eq_null_or_refuse hop.2 hswap,
          Bool.or_comm right.isNull]
        split
        · exact .inl ⟨_, rfl, rfl⟩
        · exact .inr ⟨rfl, rfl⟩
  · rw [apply, apply, Value.overlaps_comm]
  · rw [apply, apply, Value.overlaps_comm]

/-- A text that is no number is refused from both sides, with the types as the sides have them. -/
theorem apply_exchanged_refused :
    BinaryOp.flip lt = some gt ∧
      lt.apply (.string "x") (.integer 1) = .error (.invalidOperands "<" .string (some .number)) ∧
      gt.apply (.integer 1) (.string "x") =
        .error (.invalidOperands ">" .number (some .string)) := by
  have hflip : BinaryOp.flip lt = some gt := rfl
  rcases (apply_exchanged (.string "x") (.integer 1)).1 lt gt hflip with ⟨value, hvalue, -⟩ | h
  · cases hvalue
  · exact ⟨hflip, h⟩

end BinaryOp

end RowFilter
