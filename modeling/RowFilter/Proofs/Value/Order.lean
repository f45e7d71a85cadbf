import RowFilter.Proofs.Number.IntegerRounding
import RowFilter.Value.Order

/-! # The order of values

Values that can be compared have their places on one scale: that of numbers, of texts, of booleans
or of bytes. Integers that share a place among the numbers are in their own order, and so are dates.
-/

namespace RowFilter.Value

open Number

/-- A place on one of the scales. -/
inductive Place where
  | number (rank : Int)
  | text (text : String)
  | boolean (value : Bool)
  | bytes (bytes : Bytes)

namespace Place

/-- The order of two places on one scale. -/
def compare? : Place → Place → Option Ordering
  | number x, number y => some (compare x y)
  | text s, text t => some (compare s t)
  | boolean x, boolean y => some (compare x y)
  | bytes x, bytes y => some (compare x y)
  | _, _ => none

variable {p q r : Place} {first second : Ordering}

theorem compare?_swap (p q : Place) : q.compare? p = (p.compare? q).map Ordering.swap := by
  cases p <;> cases q <;> first | rfl | exact congrArg some Std.OrientedOrd.eq_swap

/-- Two places on the scale of a third are on one scale. -/
theorem compare?_eq_none (hpq : p.compare? q = some first) (hpr : p.compare? r = none) :
    q.compare? r = none := by
  cases p <;> cases q <;> cases r <;> first | rfl | (cases hpr; done) | cases hpq

theorem exists_compare? (hpq : p.compare? q = some first) (hqr : q.compare? r = some second) :
    ∃ third, p.compare? r = some third := by
  cases hpr : p.compare? r with
  | some third => exact ⟨third, rfl⟩
  | none =>
    rw [compare?_eq_none hpq hpr] at hqr
    cases hqr

private theorem isLE_trans_of_compare {α : Type} [Ord α] [Std.TransOrd α] {x y z : α}
    (hxy : (compare x y).isLE = true) (hyz : (compare y z).isLE = true) :
    (compare x z).isLE = true ∧
      (compare x z = .eq → compare x y = .eq ∧ compare y z = .eq) := by
  refine ⟨Std.TransOrd.isLE_trans hxy hyz, fun heq => ?_⟩
  have hzx := Std.OrientedCmp.eq_symm heq
  have hzy : (compare z y).isLE = true := Std.TransOrd.isLE_trans (by rw [hzx]; rfl) hxy
  have heq' := Std.OrientedCmp.isLE_antisymm hyz hzy
  exact ⟨Std.TransCmp.eq_trans heq (Std.OrientedCmp.eq_symm heq'), heq'⟩

/-- The order on a scale passes on, and two places with one between them are level only if all
three are. -/
theorem isLE_trans {third : Ordering} (hpq : p.compare? q = some first)
    (hqr : q.compare? r = some second) (hpr : p.compare? r = some third)
    (hfirst : first.isLE = true) (hsecond : second.isLE = true) :
    third.isLE = true ∧ (third = .eq → first = .eq ∧ second = .eq) := by
  cases p <;> cases q <;> cases r <;> first
    | (cases hpq; done)
    | (cases hqr; done)
    | (cases hpq; cases hqr; cases hpr; exact isLE_trans_of_compare hfirst hsecond)

end Place

/-- The place of a value. NULL, collections, objects and what is not a number have none. -/
def place? : Value → Option Place
  | integer n | date n => some (.number (Binary64.ofInt64 n).rank)
  | float x => if x.isNaN then none else some (.number x.rank)
  | string s => some (.text s)
  | boolean b => some (.boolean b)
  | bytes bs => some (.bytes bs)
  | null | collection _ | object _ => none

/-- The order of two values of one place. -/
def tie : Value → Value → Ordering
  | integer m, integer n | date m, date n => compare m.toInt n.toInt
  | _, _ => .eq

theorem tie_swap (a b : Value) : tie b a = (tie a b).swap := by
  cases a <;> cases b <;> first | rfl | exact Std.OrientedOrd.eq_swap

/-- Ties are broken in one order, unless a value of another kind stands between two. -/
theorem tie_trans {a b c : Value} (hab : (tie a b).isLE = true) (hbc : (tie b c).isLE = true) :
    (tie a c).isLE = true ∨ tie a b = .eq ∧ tie b c = .eq := by
  cases a <;> cases c <;> first
    | exact .inl rfl
    | (cases b <;> first
        | exact .inr ⟨rfl, rfl⟩
        | exact .inl (Std.TransOrd.isLE_trans hab hbc))

/-- Integers are in the order of their places as far as these tell them apart. -/
theorem compare_toInt_eq (m n : Int64) : compare m.toInt n.toInt =
    (compare (Binary64.ofInt64 m).rank (Binary64.ofInt64 n).rank).then
      (compare m.toInt n.toInt) := by
  cases hplace : compare (Binary64.ofInt64 m).rank (Binary64.ofInt64 n).rank with
  | eq => rfl
  | lt =>
    rw [Int.compare_eq_lt] at hplace
    refine Int.compare_eq_lt.mpr (lt_of_not_ge fun hle => ?_)
    exact absurd (Binary64.rank_ofInt64_mono hle) (Int.not_le.mpr hplace)
  | gt =>
    rw [Int.compare_eq_gt] at hplace
    refine Int.compare_eq_gt.mpr (lt_of_not_ge fun hle => ?_)
    exact absurd (Binary64.rank_ofInt64_mono hle) (Int.not_le.mpr hplace)

/-- Two values compare by their places, and by themselves where these are the same. -/
theorem compare?_eq (a b : Value) : a.compare? b =
    a.place?.bind fun p => b.place?.bind fun q =>
      (p.compare? q).map fun ordering => ordering.then (tie a b) := by
  -- A float has to be looked at, since one that is not a number has no place.
  cases a <;> cases b <;> simp only [compare?, place?, asFloat?, tie, Binary64.compare?,
    Binary64.isNaN_ofInt64, Place.compare?, Ordering.then_eq, Option.bind_some, Option.bind_none,
    Option.map_some, Option.map_none, Bool.or_false, Bool.false_or, Bool.false_eq_true, if_false]
  case integer.integer m n => exact congrArg some (compare_toInt_eq m n)
  case date.date m n => exact congrArg some (compare_toInt_eq m n)
  case float.float x y => cases x.isNaN <;> cases y.isNaN <;> rfl
  all_goals split <;> rfl

variable {a b c : Value} {first second third : Ordering}

theorem compare?_eq_some_iff : a.compare? b = some first ↔ ∃ p q ordering, a.place? = some p ∧
    b.place? = some q ∧ p.compare? q = some ordering ∧ ordering.then (tie a b) = first := by
  simp [compare?_eq, Option.bind_eq_some_iff]

theorem compare?_swap (a b : Value) : b.compare? a = (a.compare? b).map Ordering.swap := by
  rw [compare?_eq, compare?_eq]
  cases a.place? with
  | none => cases b.place? <;> rfl
  | some p =>
    cases b.place? with
    | none => rfl
    | some q =>
      simp only [Option.bind_some, Place.compare?_swap p q, tie_swap a b, Option.map_map,
        Function.comp_def, Ordering.swap_then]

/-- Two values that compare to a third compare to each other. -/
theorem exists_compare? (hab : a.compare? b = some first) (hbc : b.compare? c = some second) :
    ∃ third, a.compare? c = some third := by
  obtain ⟨p, q, _, hp, hq, hpq, -⟩ := compare?_eq_some_iff.mp hab
  obtain ⟨q', r, _, hq', hr, hqr, -⟩ := compare?_eq_some_iff.mp hbc
  cases hq.symm.trans hq'
  obtain ⟨ordering, hpr⟩ := Place.exists_compare? hpq hqr
  exact ⟨_, compare?_eq_some_iff.mpr ⟨p, r, ordering, hp, hr, hpr, rfl⟩⟩

/-- What does not compare to a value does not compare to any that the value compares to. -/
theorem compare?_eq_none (hab : a.compare? b = some first) (hac : a.compare? c = none) :
    b.compare? c = none := by
  cases hbc : b.compare? c with
  | none => rfl
  | some second =>
    obtain ⟨third, hsome⟩ := exists_compare? hab hbc
    rw [hac] at hsome
    cases hsome

/-- "Not greater" passes on between three values that compare, unless one is level with both
others. -/
theorem isLE_trans (hab : a.compare? b = some first) (hbc : b.compare? c = some second)
    (hac : a.compare? c = some third) (hfirst : first.isLE = true) (hsecond : second.isLE = true) :
    third.isLE = true ∨ first = .eq ∧ second = .eq := by
  obtain ⟨p, q, o, hp, hq, hpq, rfl⟩ := compare?_eq_some_iff.mp hab
  obtain ⟨q', r, o', hq', hr, hqr, rfl⟩ := compare?_eq_some_iff.mp hbc
  obtain ⟨p', r', o'', hp', hr', hpr, rfl⟩ := compare?_eq_some_iff.mp hac
  cases hq.symm.trans hq'
  cases hp.symm.trans hp'
  cases hr.symm.trans hr'
  obtain ⟨hfirst, htie⟩ := Ordering.isLE_then_iff_and.mp hfirst
  obtain ⟨hsecond, htie'⟩ := Ordering.isLE_then_iff_and.mp hsecond
  obtain ⟨hthird, hlevel⟩ := Place.isLE_trans hpq hqr hpr hfirst hsecond
  cases o'' with
  | lt => exact .inl rfl
  | gt => cases hthird
  | eq =>
    obtain ⟨rfl, rfl⟩ := hlevel rfl
    exact tie_trans (by simpa using htie) (by simpa using htie')

end RowFilter.Value
