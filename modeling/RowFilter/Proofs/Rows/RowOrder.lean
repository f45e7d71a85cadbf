import Mathlib.Data.Set.Basic
import RowFilter.Proofs.Sorting
import RowFilter.Proofs.Value.Order
import RowFilter.Rows.Processor

/-! # The order of rows

Rows compare by the values of their keys. Two values of which neither is NULL compare if they have
places on one scale, and are level if they do not; two integers compare as integers, but an integer
and a float compare as floats. So what is level with one value need not be level with what that one
is level with. Where it is, the comparison is an order, and only there.
-/

namespace RowFilter.Row

/-- The value of a row under a property; what is absent counts as NULL. -/
def value (row : Row) (property : String) : Value :=
  (Named.get? property row).getD .null

theorem compareKey_eq (key : SortKey) (left right : Row) : compareKey key left right =
    key.order.apply (compareValues (left.value key.property) (right.value key.property)) :=
  rfl

/-! ## Values -/

variable {a b c : Value} {values : Set Value}

theorem compareValues_of_notNull (ha : a.isNull = false) (hb : b.isNull = false) :
    compareValues a b = (a.compare? b).getD .eq := by
  simp only [compareValues, ha, hb]

instance : Std.OrientedCmp compareValues where
  eq_swap {a b} := by
    cases ha : a.isNull <;> cases hb : b.isNull
    · rw [compareValues_of_notNull ha hb, compareValues_of_notNull hb ha, Value.compare?_swap b a]
      cases b.compare? a <;> rfl
    all_goals simp only [compareValues, ha, hb, Ordering.swap]

/-- Values that a third does not tell apart are level. -/
structure Consistent (values : Set Value) : Prop where
  /-- Those that are equal to a third are level: no two integers, and no two dates, are equal to
  one number of another kind. -/
  equal : ∀ a ∈ values, ∀ b ∈ values, ∀ c ∈ values, a.compare? c = some .eq →
    b.compare? c = some .eq → compareValues a b = .eq
  /-- Those that do not compare to a third are level: where there are values of several scales,
  those of each are level. -/
  apart : ∀ a ∈ values, ∀ b ∈ values, ∀ c ∈ values, a.compare? c = none → b.compare? c = none →
    compareValues a b = .eq

/-- Three values compare all or not at all, or one of them compares to neither of the others. -/
theorem Consistent.isLE_trans_of_notNull (h : Consistent values) (ha : a ∈ values)
    (hb : b ∈ values) (hc : c ∈ values) (hna : a.isNull = false) (hnb : b.isNull = false)
    (hnc : c.isNull = false) (hab : (compareValues a b).isLE = true)
    (hbc : (compareValues b c).isLE = true) : (compareValues a c).isLE = true := by
  rw [compareValues_of_notNull hna hnb] at hab
  rw [compareValues_of_notNull hnb hnc] at hbc
  cases hthird : a.compare? c with
  | none =>
    rw [compareValues_of_notNull hna hnc, hthird]
    rfl
  | some third =>
    cases hfirst : a.compare? b with
    | none =>
      refine Ordering.isLE_of_eq_eq (h.apart a ha c hc b hb hfirst ?_)
      exact Value.compare?_eq_none hthird hfirst
    | some first =>
      have hba : b.compare? a = some first.swap := by
        rw [Value.compare?_swap a b, hfirst]
        rfl
      obtain ⟨second, hsecond⟩ := Value.exists_compare? hba hthird
      rw [hfirst] at hab
      rw [hsecond] at hbc
      rcases Value.isLE_trans hfirst hsecond hthird hab hbc with hle | ⟨rfl, rfl⟩
      · rw [compareValues_of_notNull hna hnc, hthird]
        exact hle
      · refine Ordering.isLE_of_eq_eq (h.equal a ha c hc b hb hfirst ?_)
        rw [Value.compare?_swap b c, hsecond]
        rfl

/-- NULL comes before all other values, whatever they are. -/
theorem Consistent.isLE_trans (h : Consistent values) (ha : a.isNull = false → a ∈ values)
    (hb : b.isNull = false → b ∈ values) (hc : c.isNull = false → c ∈ values)
    (hab : (compareValues a b).isLE = true) (hbc : (compareValues b c).isLE = true) :
    (compareValues a c).isLE = true := by
  cases hna : a.isNull with
  | true => cases hnc : c.isNull <;> simp [compareValues, hna, hnc]
  | false =>
    cases hnb : b.isNull with
    | true => simp [compareValues, hna, hnb] at hab
    | false =>
      cases hnc : c.isNull with
      | true => simp [compareValues, hnb, hnc] at hbc
      | false => exact h.isLE_trans_of_notNull (ha hna) (hb hnb) (hc hnc) hna hnb hnc hab hbc

/-- An order of values does not tell apart what a third does not tell apart. -/
theorem consistent_of_isLE_trans (hnull : ∀ value ∈ values, value.isNull = false)
    (h : ∀ a ∈ values, ∀ b ∈ values, ∀ c ∈ values, (compareValues a b).isLE = true →
      (compareValues b c).isLE = true → (compareValues a c).isLE = true) : Consistent values := by
  have hlevel (a) (ha : a ∈ values) (b) (hb : b ∈ values) (c) (hc : c ∈ values)
      (hac : compareValues a c = .eq) (hbc : compareValues b c = .eq) :
      compareValues a b = .eq := by
    have hcb := Std.OrientedCmp.eq_symm hbc
    have hca := Std.OrientedCmp.eq_symm hac
    exact Std.OrientedCmp.isLE_antisymm
      (h a ha c hc b hb (Ordering.isLE_of_eq_eq hac) (Ordering.isLE_of_eq_eq hcb))
      (h b hb c hc a ha (Ordering.isLE_of_eq_eq hbc) (Ordering.isLE_of_eq_eq hca))
  have hvalue (a) (ha : a ∈ values) (c) (hc : c ∈ values)
      (h : (a.compare? c).getD .eq = .eq) : compareValues a c = .eq := by
    rw [compareValues_of_notNull (hnull a ha) (hnull c hc), h]
  constructor
  · intro a ha b hb c hc hac hbc
    exact hlevel a ha b hb c hc (hvalue a ha c hc (by rw [hac]; rfl))
      (hvalue b hb c hc (by rw [hbc]; rfl))
  · intro a ha b hb c hc hac hbc
    exact hlevel a ha b hb c hc (hvalue a ha c hc (by rw [hac]; rfl))
      (hvalue b hb c hc (by rw [hbc]; rfl))

/-! ## Rows -/

/-- The values that rows have under a property, NULL apart. -/
def presentValues (rows : Set Row) (property : String) : Set Value :=
  { value | value.isNull = false ∧ ∃ row ∈ rows, row.value property = value }

variable {rows : Set Row}

theorem transCmp_compareKey {key : SortKey} (h : Consistent (presentValues rows key.property)) :
    Std.TransCmp fun a b : rows => compareKey key a b := by
  have hvalues : Std.TransCmp fun a b : rows =>
      compareValues (a.1.value key.property) (b.1.value key.property) :=
    { eq_swap := Std.OrientedCmp.eq_swap
      isLE_trans := fun {a b c} => h.isLE_trans (fun hnull => ⟨hnull, a, a.2, rfl⟩)
        (fun hnull => ⟨hnull, b, b.2, rfl⟩) fun hnull => ⟨hnull, c, c.2, rfl⟩ }
  have happly : (fun a b : rows => compareKey key a b) = fun a b => key.order.apply
      (compareValues (a.1.value key.property) (b.1.value key.property)) := rfl
  rw [happly]
  exact SortOrder.transCmp_apply key.order

theorem transCmp_compareKeys {keys : List SortKey}
    (h : ∀ key ∈ keys, Consistent (presentValues rows key.property)) :
    Std.TransCmp fun a b : rows => compareKeys keys a b := by
  let byKeys (keys : List SortKey) (a b : rows) : Ordering := compareKeys keys a b
  have hcons (key : SortKey) (rest : List SortKey) (a b : rows) :
      byKeys (key :: rest) a b = (compareKey key a b).then (byKeys rest a b) := rfl
  exact transCmp_byKeys (fun _ _ => rfl) hcons fun key hkey => transCmp_compareKey (h key hkey)

instance (key : SortKey) : Std.OrientedCmp (compareKey key) where
  eq_swap {a b} := by
    rw [compareKey_eq, compareKey_eq, ← SortOrder.apply_swap, ← Std.OrientedCmp.eq_swap]

instance (keys : List SortKey) : Std.OrientedCmp (compareKeys keys) :=
  orientedCmp_byKeys (fun _ _ => rfl) (fun _ _ _ _ => rfl) fun _ _ => inferInstance

/-- One ascending key orders rows as it orders their values. -/
theorem compareKeys_singleton (property : String) (left right : Row) :
    compareKeys [⟨property, .ascending⟩] left right =
      compareValues (left.value property) (right.value property) := by
  rw [compareKeys, compareKeys, Ordering.then_eq]
  rfl

/-- Rows are level with themselves and the other way round when they change places, and "not
greater" passes on exactly where no value tells apart what another does not. -/
theorem compareKeys_preorder_iff (properties : Set String) (rows : Set Row) :
    (∀ keys a, compareKeys keys a a = .eq) ∧
    (∀ keys a b, compareKeys keys a b = (compareKeys keys b a).swap) ∧
    ((∀ keys, (∀ key ∈ keys, key.property ∈ properties) →
      ∀ a ∈ rows, ∀ b ∈ rows, ∀ c ∈ rows, (compareKeys keys a b).isLE = true →
        (compareKeys keys b c).isLE = true → (compareKeys keys a c).isLE = true) ↔
      ∀ property ∈ properties, Consistent (presentValues rows property)) := by
  refine ⟨fun keys a => Std.ReflCmp.compare_self, fun keys a b => Std.OrientedCmp.eq_swap,
    fun h property hproperty => ?_, fun h keys hkeys a ha b hb c hc => ?_⟩
  · refine consistent_of_isLE_trans (fun _ hvalue => hvalue.1) ?_
    rintro _ ⟨-, first, hfirst, rfl⟩ _ ⟨-, second, hsecond, rfl⟩ _ ⟨-, third, hthird, rfl⟩
    have htrans := h [⟨property, .ascending⟩] (by simpa using hproperty) first hfirst second hsecond
      third hthird
    simpa only [compareKeys_singleton] using htrans
  · have htrans := transCmp_compareKeys fun key hkey => h key.property (hkeys key hkey)
    exact htrans.isLE_trans (a := ⟨a, ha⟩) (b := ⟨b, hb⟩) (c := ⟨c, hc⟩)

/-- A row with one property. -/
def sizedRow (size : Value) : Row :=
  [("size", size)]

/-- 2^53 + 1 is equal to the float 2^53 and that to the integer 2^53, which comes before
2^53 + 1. -/
theorem not_transitive_compareKeys : ¬∀ keys a b c, (compareKeys keys a b).isLE = true →
    (compareKeys keys b c).isLE = true → (compareKeys keys a c).isLE = true := by
  intro h
  have hcircle := h [⟨"size", .ascending⟩] (sizedRow (.integer 9007199254740993))
    (sizedRow (.float ⟨0x4340000000000000⟩)) (sizedRow (.integer 9007199254740992))
    (by decide +kernel) (by decide +kernel)
  exact absurd hcircle (by decide +kernel)

end RowFilter.Row
