import Mathlib.Order.Compare
import RowFilter.Proofs.Number.FloatText

/-!
# Numerals of a fixed width

A number that is written in a fixed number of decimal digits can be told from what stands around
it, and numerals of one width come in the order of their numbers.
-/

namespace RowFilter.Number

variable {front back digits rest : List Char} {width width' : Nat} {m n : Int}

/-- A number is written in a fixed number of decimal digits. -/
structure IsNumeral (width : Nat) (n : Int) (digits : List Char) : Prop where
  length_eq : digits.length = width
  isDigit : ∀ c ∈ digits, c.isDigit = true
  digitsValue_eq : (digitsValue digits : Int) = n

/-- Two numerals in a row are a numeral of both widths. -/
theorem IsNumeral.append (hfront : IsNumeral width m front) (hback : IsNumeral width' n back) :
    IsNumeral (width + width') (m * 10 ^ width' + n) (front ++ back) where
  length_eq := by rw [List.length_append, hfront.length_eq, hback.length_eq]
  isDigit := List.forall_mem_append.mpr ⟨hfront.isDigit, hback.isDigit⟩
  digitsValue_eq := by
    rw [digitsValue_append, Nat.cast_add, Nat.cast_mul, Nat.cast_pow, hfront.digitsValue_eq,
      hback.digitsValue_eq, hback.length_eq, Nat.cast_ofNat]

theorem length_natText_le_iff {n : Nat} (hwidth : 0 < width) :
    (natText n).length ≤ width ↔ n < 10 ^ width :=
  Nat.length_toDigits_le_iff (by decide) hwidth

theorem compare_map {α β : Type} [LinearOrder α] [LinearOrder β] {f : α → β} (h : StrictMono f)
    {a b : α} : compare (f a) (f b) = compare a b := by
  rw [← cmp_eq_compare, ← cmp_eq_compare, h.cmp_map_eq]

/-- Digits come in the order of their values. -/
theorem compare_of_isDigit {c d : Char} (hc : c.isDigit = true) (hd : d.isDigit = true) :
    compare c d = compare (digitValue c) (digitValue d) := by
  have hcode {c : Char} (h : c.isDigit = true) : c.toNat = digitValue c + 48 := by
    have hrange := (Bool.and_eq_true _ _).mp h
    simp only [decide_eq_true_eq, UInt32.le_iff_toNat_le] at hrange
    have hzero : '0'.val.toNat = 48 := rfl
    have hnat : c.toNat = c.val.toNat := rfl
    unfold digitValue
    omega
  have hlt : c < d ↔ digitValue c < digitValue d := by
    rw [Char.lt_def, UInt32.lt_iff_toNat_lt]
    change c.toNat < d.toNat ↔ _
    rw [hcode hc, hcode hd]
    omega
  have heq : c = d ↔ digitValue c = digitValue d := by
    rw [← Char.toNat_inj, hcode hc, hcode hd]
    omega
  change compareOfLessAndEq c d = compareOfLessAndEq (digitValue c) (digitValue d)
  simp only [compareOfLessAndEq, hlt, heq]

theorem digitsValue_lt_digitsValue {c d : Char} (h : digitValue c < digitValue d)
    (hfront : ∀ c ∈ front, c.isDigit = true) (hlength : front.length = back.length) :
    digitsValue (c :: front) < digitsValue (d :: back) := by
  rw [digitsValue_cons, digitsValue_cons, ← hlength]
  have hrest := digitsValue_lt hfront
  have hhead : (digitValue c + 1) * 10 ^ front.length ≤ digitValue d * 10 ^ front.length :=
    Nat.mul_le_mul_right _ h
  rw [Nat.add_mul, Nat.one_mul] at hhead
  omega

/-- Digits of one length compare as their values, whatever follows them. -/
theorem compare_digits (hfront : ∀ c ∈ front, c.isDigit = true)
    (hback : ∀ c ∈ back, c.isDigit = true) (hlength : front.length = back.length) :
    compare (front ++ rest) (back ++ rest) = compare (digitsValue front) (digitsValue back) := by
  induction front generalizing back with
  | nil =>
    obtain rfl := List.eq_nil_of_length_eq_zero hlength.symm
    rw [Std.ReflOrd.compare_self, Std.ReflOrd.compare_self]
  | cons c front ih =>
    cases back with
    | nil => cases hlength
    | cons d back =>
      rw [List.forall_mem_cons] at hfront hback
      rw [List.length_cons, List.length_cons, Nat.add_right_cancel_iff] at hlength
      rw [List.cons_append, List.cons_append, List.compare_cons_cons]
      rw [compare_of_isDigit hfront.left hback.left]
      rcases lt_trichotomy (digitValue c) (digitValue d) with hlt | heq | hlt
      · have hless := digitsValue_lt_digitsValue hlt hfront.right hlength
        rw [compare_lt_iff_lt.mpr hlt, compare_lt_iff_lt.mpr hless]
        exact Ordering.then_eq_lt.mpr (.inl rfl)
      · rw [heq, Std.ReflOrd.compare_self, Ordering.then, ih hfront.right hback.right hlength,
          digitsValue_cons, digitsValue_cons, heq, hlength]
        exact (compare_map (strictMono_id.const_add _)).symm
      · have hless := digitsValue_lt_digitsValue hlt hback.right hlength.symm
        rw [compare_gt_iff_gt.mpr hlt, compare_gt_iff_gt.mpr hless]
        exact Ordering.then_eq_gt.mpr (.inl rfl)

/-- Numerals of one width come in the order of their numbers, whatever follows both of them. -/
theorem IsNumeral.compare_append (hfront : IsNumeral width m front)
    (hback : IsNumeral width n back) :
    compare (front ++ rest) (back ++ rest) = compare m n := by
  rw [compare_digits hfront.isDigit hback.isDigit
    (hfront.length_eq.trans hback.length_eq.symm), ← hfront.digitsValue_eq, ← hback.digitsValue_eq]
  exact (compare_map Nat.strictMono_cast).symm

/-- A number has one numeral of each width. -/
theorem IsNumeral.unique (hfront : IsNumeral width n front) (hback : IsNumeral width n back) :
    front = back := by
  have hcompare : compare (front ++ []) (back ++ []) = compare n n := hfront.compare_append hback
  rw [Std.ReflOrd.compare_self, List.append_nil, List.append_nil] at hcompare
  exact Std.LawfulEqOrd.eq_of_compare hcompare

/-- Digits with a letter after them are no number, unless the letter marks an exponent. -/
theorem readFloat?_append {c : Char} (hdigits : ∀ c ∈ digits, c.isDigit = true)
    (hne : digits ≠ []) (hletter : c.isDigit = false) (hpoint : c ≠ '.')
    (hmark : readExponent? [c] = none) : readFloat? (digits ++ [c]) = none := by
  obtain ⟨first, more, rfl⟩ := List.exists_cons_of_ne_nil hne
  have htake : (first :: more ++ [c]).takeWhile Char.isDigit = first :: more := by
    rw [List.takeWhile_append_of_pos hdigits]
    simp [hletter]
  have hdrop : (first :: more ++ [c]).dropWhile Char.isDigit = [c] := by
    rw [List.dropWhile_append_of_pos hdigits]
    simp [hletter]
  rw [List.cons_append, Binary64.readFloat?_of_digit (hdigits first List.mem_cons_self),
    ← List.cons_append, readDecimal?, htake, hdrop]
  simp [hpoint, hmark]

end RowFilter.Number
