import Mathlib.Algebra.Order.Field.Rat
import Mathlib.Data.Nat.Cast.Field
import Mathlib.Order.Monotone.Basic
import Mathlib.Tactic.FieldSimp
import Mathlib.Tactic.Linarith
import Mathlib.Tactic.NormNum
import Mathlib.Tactic.Positivity
import Mathlib.Tactic.Ring
import RowFilter.Number.Decimal

/-! # Rounding to floating-point numbers

The words of numbers without a sign are in the order of their values. A ratio between the midpoints
to the neighbours of a word rounds to this word.
-/

namespace RowFilter.Number

/-- The rational number of a ratio. -/
def Ratio.value (r : Ratio) : ℚ :=
  r.num / r.den

/-- The rational number of a decimal. -/
def Decimal.value (d : Decimal) : ℚ :=
  d.digits * (10 : ℚ) ^ d.exponent

namespace Ratio

variable {a b : Ratio}

/-- Ratios are ordered as their rational numbers are. -/
theorem order_lt_iff (ha : 0 < a.den) (hb : 0 < b.den) :
    a.order b = .lt ↔ a.value < b.value := by
  have ha' : (0 : ℚ) < a.den := by exact_mod_cast ha
  have hb' : (0 : ℚ) < b.den := by exact_mod_cast hb
  rw [order, Nat.compare_eq_lt, value, value, div_lt_div_iff₀ ha' hb']
  exact_mod_cast Iff.rfl

theorem order_eq_iff (ha : 0 < a.den) (hb : 0 < b.den) :
    a.order b = .eq ↔ a.value = b.value := by
  have ha' : (a.den : ℚ) ≠ 0 := by exact_mod_cast ha.ne'
  have hb' : (b.den : ℚ) ≠ 0 := by exact_mod_cast hb.ne'
  rw [order, Nat.compare_eq_eq, value, value, div_eq_div_iff ha' hb']
  exact_mod_cast Iff.rfl

theorem order_gt_iff (ha : 0 < a.den) (hb : 0 < b.den) :
    a.order b = .gt ↔ b.value < a.value := by
  have ha' : (0 : ℚ) < a.den := by exact_mod_cast ha
  have hb' : (0 : ℚ) < b.den := by exact_mod_cast hb
  rw [order, Nat.compare_eq_gt, value, value, div_lt_div_iff₀ hb' ha']
  exact_mod_cast Iff.rfl

theorem den_scaled_pos (n : Nat) {base : Nat} (hbase : 0 < base) (exponent : Int) :
    0 < (scaled n base exponent).den := by
  unfold scaled
  split
  next => exact Nat.one_pos
  next => exact Nat.pow_pos hbase

/-- A scaled ratio is worth its number times the power of the base. -/
theorem value_scaled (n : Nat) {base : Nat} (hbase : 0 < base) (exponent : Int) :
    (scaled n base exponent).value = n * (base : ℚ) ^ exponent := by
  have hbase' : (base : ℚ) ≠ 0 := by exact_mod_cast hbase.ne'
  unfold scaled value
  split
  next h =>
    obtain ⟨k, rfl⟩ := Int.eq_ofNat_of_zero_le h
    simp
  next h =>
    obtain ⟨k, hk⟩ := Int.eq_ofNat_of_zero_le (show 0 ≤ -exponent by omega)
    have hexponent : exponent = -(k : Int) := by omega
    subst hexponent
    simp [zpow_neg, div_eq_mul_inv]

theorem value_scaled_decimal (d : Decimal) :
    (scaled d.digits 10 d.exponent).value = d.value := by
  rw [value_scaled _ (by decide), Decimal.value]
  norm_num

end Ratio

/-! ## Words and their values -/

theorem units_lt_units_succ (word : Nat) : units word < units (word + 1) := by
  have hpos : 0 < Binary64.hiddenBit := by decide
  unfold units
  generalize Binary64.hiddenBit = hidden at hpos
  by_cases hsmall : word + 1 < hidden
  · rw [if_pos (by omega), if_pos hsmall]
    exact Nat.lt_succ_self word
  rw [if_neg hsmall]
  by_cases hlast : word < hidden
  · have heq : word + 1 = hidden := by omega
    rw [if_pos hlast, heq, Nat.mod_self, Nat.div_self hpos, Nat.sub_self, Nat.shiftLeft_zero]
    omega
  rw [if_neg hlast, Nat.shiftLeft_eq, Nat.shiftLeft_eq]
  have hquotient : 1 ≤ word / hidden := (Nat.one_le_div_iff hpos).mpr (by omega)
  have hmod := Nat.mod_lt word hpos
  by_cases hcarry : word % hidden + 1 = hidden
  · -- The fraction is full, so the next word begins the next binade.
    have hnext : word + 1 = hidden * (word / hidden + 1) := by
      have := Nat.div_add_mod word hidden
      rw [Nat.mul_add, Nat.mul_one]
      omega
    have hpow : 2 ^ (word / hidden + 1 - 1) = 2 * 2 ^ (word / hidden - 1) := by
      rw [← Nat.pow_succ']
      congr 1
      omega
    rw [hnext, Nat.mul_mod_right, Nat.mul_div_cancel_left _ hpos, hpow, ← Nat.mul_assoc]
    exact Nat.mul_lt_mul_of_pos_right (by omega) (by positivity)
  · have hdiv : (word + 1) / hidden = word / hidden := by
      rw [Nat.add_div hpos, if_neg]
      · rcases Nat.lt_or_ge 1 hidden with h | h
        · rw [Nat.div_eq_of_lt h]
          omega
        · omega
      · have : 1 % hidden ≤ 1 := Nat.mod_le 1 hidden
        omega
    have hrem : (word + 1) % hidden = word % hidden + 1 := by
      have h1 := Nat.div_add_mod word hidden
      have h2 := Nat.div_add_mod (word + 1) hidden
      rw [hdiv] at h2
      omega
    rw [hdiv, hrem]
    exact Nat.mul_lt_mul_of_pos_right (by omega) (by positivity)

/-- A larger word stands for a larger number. -/
theorem units_strictMono : StrictMono units :=
  strictMono_nat_of_lt_succ units_lt_units_succ

theorem den_midpoint_pos (word : Nat) : 0 < (midpoint word).den := by
  simp only [midpoint, Nat.one_shiftLeft]
  positivity

theorem value_midpoint (word : Nat) :
    (midpoint word).value = (units word + units (word + 1) : Nat) / (2 : ℚ) ^ 1075 := by
  rw [midpoint, Ratio.value, Nat.one_shiftLeft, Nat.cast_pow, Nat.cast_ofNat]

/-- The middle to the next word lies higher for a larger word. -/
theorem midpoint_strictMono : StrictMono fun word => (midpoint word).value := by
  intro v u h
  simp only [value_midpoint]
  have hunits := units_strictMono h
  have hnext := units_strictMono (Nat.succ_lt_succ h)
  refine div_lt_div_of_pos_right ?_ (by positivity)
  exact_mod_cast Nat.add_lt_add hunits hnext

/-! ## The nearest word -/

/-- A ratio rounds above a middle if it is past it, or in the middle where the word below is odd. -/
theorem Ratio.roundsAbove_iff {middle r : Ratio} (hmiddle : 0 < middle.den) (hr : 0 < r.den)
    (odd : Bool) : middle.roundsAbove odd r = true ↔
      middle.value < r.value ∨ middle.value = r.value ∧ odd = true := by
  unfold roundsAbove
  split
  next h => simpa using Or.inl ((order_lt_iff hmiddle hr).mp h)
  next h =>
    have heq := (order_eq_iff hmiddle hr).mp h
    simp [heq]
  next h =>
    have hgt := (order_gt_iff hmiddle hr).mp h
    simp [not_lt.mpr hgt.le, hgt.ne']

/-- A ratio rounds beyond a word if it is past the middle to the next one, or in the middle above an
odd word. -/
theorem roundsBeyond_iff (word : Nat) {r : Ratio} (hr : 0 < r.den) :
    roundsBeyond word r = true ↔ (midpoint word).value < r.value ∨
      (midpoint word).value = r.value ∧ word % 2 = 1 := by
  rw [roundsBeyond, Ratio.roundsAbove_iff (den_midpoint_pos word) hr, beq_iff_eq]

/-- A ratio that rounds to a word after this one does so for all words before it. -/
theorem roundsBeyond_antitone {r : Ratio} (hr : 0 < r.den) {v u : Nat} (hle : v ≤ u)
    (h : roundsBeyond u r = true) : roundsBeyond v r = true := by
  rcases Nat.eq_or_lt_of_le hle with rfl | hlt
  · exact h
  · have hvalue := midpoint_strictMono hlt
    rw [roundsBeyond_iff _ hr] at h ⊢
    rcases h with h | ⟨h, -⟩
    · exact Or.inl (hvalue.trans h)
    · exact Or.inl (hvalue.trans_eq h)

/-- The search finds the first word that is not passed. -/
theorem climb_eq {passes : Nat → Bool} {target : Nat}
    (h : ∀ word, passes word = true ↔ word < target) (bits : Nat) {word : Nat}
    (hlow : word ≤ target) (hhigh : target < word + 2 ^ bits) :
    climb passes bits word = target := by
  induction bits generalizing word with
  | zero =>
      rw [climb]
      omega
  | succ bits ih =>
      have hpos := Nat.two_pow_pos bits
      rw [Nat.pow_succ] at hhigh
      rw [climb, Nat.one_shiftLeft]
      by_cases hnext : word + 2 ^ bits - 1 < target
      · rw [if_pos ((h _).mpr hnext)]
        exact ih (by omega) (by omega)
      · rw [if_neg (mt (h _).mp hnext)]
        exact ih hlow (by omega)

/-- The ratios that round to a word are those between both middles, which belong to it if it is
even. -/
theorem RoundingInterval.contains_iff {interval : RoundingInterval} {r : Ratio}
    (hlow : 0 < interval.low.den) (hhigh : 0 < interval.high.den) (hr : 0 < r.den)
    (hlt : interval.low.value < interval.high.value) : interval.contains r = true ↔
      interval.low.roundsAbove interval.closed r = true ∧
        interval.high.roundsAbove (!interval.closed) r = false := by
  rw [← Bool.not_eq_true, Ratio.roundsAbove_iff hlow hr, Ratio.roundsAbove_iff hhigh hr]
  unfold contains
  rcases lt_trichotomy interval.low.value r.value with hl | hl | hl
  · rw [(Ratio.order_lt_iff hlow hr).mpr hl]
    rcases lt_trichotomy r.value interval.high.value with hh | hh | hh
    · rw [(Ratio.order_lt_iff hr hhigh).mpr hh]
      simp [hl, hh.le, hh.ne']
    · rw [(Ratio.order_eq_iff hr hhigh).mpr hh]
      simp [hlt, hh]
    · rw [(Ratio.order_gt_iff hr hhigh).mpr hh]
      simp [hh]
  · rw [(Ratio.order_eq_iff hlow hr).mpr hl]
    have hh : r.value < interval.high.value := hl ▸ hlt
    rw [(Ratio.order_lt_iff hr hhigh).mpr hh]
    simp [hl, hh.le, hh.ne']
  · rw [(Ratio.order_gt_iff hlow hr).mpr hl]
    simp [not_lt.mpr hl.le, hl.ne']

/-- A word's interval holds what rounds beyond the word before it and not beyond it. -/
theorem contains_iff {word : Nat} (hword : 0 < word) {r : Ratio} (hr : 0 < r.den) :
    (RoundingInterval.of word).contains r = true ↔
      roundsBeyond (word - 1) r = true ∧ roundsBeyond word r = false := by
  have hbelow : ((word - 1) % 2 == 1) = (word % 2 == 0) := by
    rw [Bool.eq_iff_iff, beq_iff_eq, beq_iff_eq]
    omega
  have hodd : (word % 2 == 1) = !(word % 2 == 0) := by
    rw [Bool.eq_iff_iff, Bool.not_eq_true', beq_iff_eq, beq_eq_false_iff_ne]
    omega
  have hlt := midpoint_strictMono (show word - 1 < word by omega)
  rw [roundsBeyond, roundsBeyond, hbelow, hodd]
  exact RoundingInterval.contains_iff (den_midpoint_pos (word - 1)) (den_midpoint_pos word) hr hlt

/-- What rounds to a word of a finite number is read as that number. -/
theorem round_of_contains {word : Nat} (hword : 0 < word)
    (hfinite : word ≤ Binary64.infinity.bits.toNat) {r : Ratio} (hr : 0 < r.den)
    (h : (RoundingInterval.of word).contains r = true) : r.round = ⟨UInt64.ofNat word⟩ := by
  obtain ⟨hbelow, hbeyond⟩ := (contains_iff hword hr).mp h
  have hrounds : ∀ v, roundsBeyond v r = true ↔ v < word := by
    intro v
    constructor
    · intro hv
      by_contra hle
      have := roundsBeyond_antitone hr (Nat.le_of_not_lt hle) hv
      rw [hbeyond] at this
      cases this
    · intro hv
      exact roundsBeyond_antitone hr (by omega) hbelow
  have hbound : Binary64.infinity.bits.toNat < 0 + 2 ^ 63 := by decide
  rw [Ratio.round, climb_eq hrounds 63 (Nat.zero_le _) (hfinite.trans_lt hbound),
    Nat.min_eq_right hfinite]

/-! ## The shortest decimal -/

/-- A decimal that is found on a grid lies in the interval. -/
theorem RoundingInterval.onGrid?_contains {interval : RoundingInterval} {exponent : Int}
    {d : Decimal} (h : interval.onGrid? exponent = some d) :
    interval.contains (.scaled d.digits 10 d.exponent) = true := by
  unfold onGrid? at h
  simp only at h
  split at h
  next hlower hupper =>
    split at h
    next => cases h; exact hlower
    next => cases h; exact hupper
  next hlower hupper => cases h; exact hlower
  next hlower hupper => cases h; exact hupper
  next => cases h

/-- The search ends in the interval if its last grid has the number itself. -/
theorem RoundingInterval.search_contains {interval : RoundingInterval}
    (hexact : ∀ d : Decimal, d.value = interval.value.value →
      interval.contains (.scaled d.digits 10 d.exponent) = true)
    (hden : 0 < interval.value.den)
    (hdvd : ∀ k, 1074 ≤ k → interval.value.den ∣ interval.value.num * 10 ^ k) (fuel : Nat)
    {exponent : Int} (hexponent : exponent ≤ fuel - 1074) :
    interval.contains (.scaled (interval.search fuel exponent).digits 10
      (interval.search fuel exponent).exponent) = true := by
  induction fuel generalizing exponent with
  | zero =>
      refine hexact _ ?_
      obtain ⟨k, hk⟩ := Int.eq_ofNat_of_zero_le (show 0 ≤ -exponent by omega)
      have hnegative : exponent = -(k : Int) := by omega
      have hden' : (interval.value.den : ℚ) ≠ 0 := by exact_mod_cast hden.ne'
      have hdigits : ((interval.value.num * 10 ^ k / interval.value.den : Nat) : ℚ) =
          interval.value.num * 10 ^ k / interval.value.den := by
        rw [Nat.cast_div (hdvd k (by omega)) hden']
        push_cast
        rfl
      rw [search, Decimal.value, Ratio.value, hnegative, Int.neg_neg, Int.toNat_natCast,
        zpow_neg, zpow_natCast]
      refine (congrArg (· * ((10 : ℚ) ^ k)⁻¹) hdigits).trans ?_
      field_simp
  | succ fuel ih =>
      rw [search]
      cases hgrid : interval.onGrid? exponent with
      | some d => exact onGrid?_contains hgrid
      | none => exact ih (by omega)

theorem one_shiftLeft_dvd (n : Nat) {bits places : Nat} (h : bits ≤ places + 1) :
    1 <<< bits ∣ 2 * n * 10 ^ places := by
  have hten : 2 * n * 10 ^ places = 2 ^ (places + 1) * (n * 5 ^ places) := by
    rw [show (10 : Nat) = 2 * 5 from rfl, Nat.mul_pow, Nat.pow_succ]
    ring
  rw [hten, Nat.one_shiftLeft]
  exact Dvd.dvd.mul_right (Nat.pow_dvd_pow 2 h) _

/-- The shortest decimal of a word rounds to it. -/
theorem shortest_contains {word : Nat} (hword : 0 < word) :
    (RoundingInterval.of word).contains
      (.scaled (shortest word).digits 10 (shortest word).exponent) = true := by
  have hvalue : (RoundingInterval.of word).value.value =
      (2 * units word : Nat) / (2 : ℚ) ^ 1075 := by
    rw [RoundingInterval.of, Ratio.value, Nat.one_shiftLeft, Nat.cast_pow, Nat.cast_ofNat]
  refine RoundingInterval.search_contains ?_ ?_ ?_ _ (by omega)
  · intro d hd
    have hden := Ratio.den_scaled_pos d.digits (show 0 < 10 by decide) d.exponent
    rw [hvalue, ← Ratio.value_scaled_decimal] at hd
    have hlt := units_strictMono (show word - 1 < word by omega)
    have hgt := units_strictMono (show word < word + 1 by omega)
    rw [contains_iff hword hden, ← Bool.not_eq_true, roundsBeyond_iff _ hden,
      roundsBeyond_iff _ hden, hd, value_midpoint, value_midpoint, Nat.sub_add_cancel hword]
    constructor
    · refine Or.inl (div_lt_div_of_pos_right ?_ (by positivity))
      exact_mod_cast (show units (word - 1) + units word < 2 * units word by omega)
    · have hbelow : ((2 * units word : Nat) : ℚ) / 2 ^ 1075 <
          (units word + units (word + 1) : Nat) / 2 ^ 1075 := by
        refine div_lt_div_of_pos_right ?_ (by positivity)
        exact_mod_cast (show 2 * units word < units word + units (word + 1) by omega)
      rintro (h | ⟨h, -⟩)
      · exact absurd h hbelow.asymm
      · exact absurd h hbelow.ne'
  · simp only [RoundingInterval.of, Nat.one_shiftLeft]
    positivity
  · intro k hk
    exact one_shiftLeft_dvd (units word) (by omega)

end RowFilter.Number
