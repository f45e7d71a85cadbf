import RowFilter.Value.Coercion

/-! # Conversions and NULL

NULL converts to NULL and nothing else does. A collection converts to nothing but itself.
-/

namespace RowFilter.Value

variable {target : ValueType} {value coerced : Value}

theorem isNull_of_toBoolean? (h : value.toBoolean? = some coerced) : coerced.isNull = false := by
  unfold toBoolean? at h
  grind [isNull]

theorem isNull_of_toNumber? (h : value.toNumber? = some coerced) : coerced.isNull = false := by
  unfold toNumber? readNumber? at h
  grind [isNull]

theorem isNull_of_toString? (h : value.toString? = some coerced) : coerced.isNull = false := by
  unfold toString? at h
  grind [isNull, Option.map_eq_some_iff]

theorem isNull_of_toDate? (h : value.toDate? = some coerced) : coerced.isNull = false := by
  unfold toDate? at h
  grind [isNull, Option.map_eq_some_iff]

/-- A conversion gives NULL for NULL only. -/
theorem isNull_of_coerce? (h : value.coerce? target = some coerced) :
    coerced.isNull = value.isNull := by
  unfold coerce? at h
  split at h
  next hnull =>
    cases h
    exact hnull.symm
  next hnull =>
    rw [Bool.not_eq_true] at hnull
    rw [hnull]
    cases target with
    | any =>
        cases h
        exact hnull
    | null => cases h
    | collection =>
        cases h
        cases value <;> rfl
    | object =>
        cases value with
        | object properties =>
            cases h
            rfl
        | _ => cases h
    | boolean => exact isNull_of_toBoolean? h
    | number => exact isNull_of_toNumber? h
    | string => exact isNull_of_toString? h
    | date => exact isNull_of_toDate? h

/-- Only NULL is NULL. -/
theorem isNull_eq_true_iff : value.isNull = true ↔ value = .null := by
  cases value <;> simp [isNull]

/-- NULL can be coerced to NULL, and nothing else can. -/
theorem coerce?_eq_null_iff (h : value.coerce? target = some coerced) :
    coerced = .null ↔ value = .null := by
  rw [← isNull_eq_true_iff, ← isNull_eq_true_iff, isNull_of_coerce? h]

/-- Where a collection can be coerced it stays as it is. -/
theorem coerce?_collection {items : List Value}
    (h : (Value.collection items).coerce? target = some coerced) :
    coerced = .collection items := by
  cases target <;> cases h <;> rfl

end RowFilter.Value
