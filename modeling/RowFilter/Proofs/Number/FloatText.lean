import Mathlib.Data.Bool.AllAny
import Mathlib.Data.List.TakeWhile
import RowFilter.Proofs.Number.DecimalText
import RowFilter.Proofs.Number.Rounding

/-! # Decimal text of floating-point numbers

The text of a finite floating-point number without a sign is read back as that number.
-/

namespace RowFilter.Number

/-! ## Digits -/

theorem digitValue_lt {c : Char} (h : c.isDigit = true) : digitValue c < 10 := by
  have hrange := (Bool.and_eq_true _ _).mp h
  simp only [decide_eq_true_eq, UInt32.le_iff_toNat_le] at hrange
  have hnine : '9'.val.toNat = 57 := rfl
  have hnat : c.toNat = c.val.toNat := rfl
  rw [digitValue]
  omega

theorem digitValue_pos {c : Char} (h : c.isDigit = true) (hzero : c ≠ '0') : 0 < digitValue c := by
  have hrange := (Bool.and_eq_true _ _).mp h
  simp only [decide_eq_true_eq, UInt32.le_iff_toNat_le] at hrange
  have hleast : '0'.val.toNat = 48 := rfl
  have hnat : c.toNat = c.val.toNat := rfl
  have hne : c.toNat ≠ 48 := by
    intro heq
    exact hzero (Char.toNat_inj.mp heq)
  rw [digitValue]
  omega

/-- Digits in front of others are worth as much more as there are others. -/
theorem digitsValue_append (front back : List Char) :
    digitsValue (front ++ back) = digitsValue front * 10 ^ back.length + digitsValue back := by
  have hfrom : ∀ (digits : List Char) (start : Nat),
      digits.foldl (fun n c => n * 10 + digitValue c) start =
        start * 10 ^ digits.length + digitsValue digits := by
    intro digits
    induction digits with
    | nil =>
        intro start
        simp [digitsValue]
    | cons c rest ih =>
        intro start
        rw [digitsValue, List.foldl_cons, List.foldl_cons, ih, ih, List.length_cons, Nat.pow_succ]
        ring
  rw [digitsValue, List.foldl_append, hfrom]
  rfl

theorem digitsValue_cons (c : Char) (rest : List Char) :
    digitsValue (c :: rest) = digitValue c * 10 ^ rest.length + digitsValue rest := by
  rw [← List.singleton_append, digitsValue_append]
  simp [digitsValue]

theorem digitsValue_zeros (count : Nat) : digitsValue (List.replicate count '0') = 0 := by
  induction count with
  | zero => rfl
  | succ count ih =>
      rw [List.replicate_succ, digitsValue_cons, ih]
      simp [digitValue]

/-- Digits are worth less than the next power of ten. -/
theorem digitsValue_lt {digits : List Char} (h : ∀ c ∈ digits, c.isDigit = true) :
    digitsValue digits < 10 ^ digits.length := by
  induction digits with
  | nil => exact Nat.one_pos
  | cons c rest ih =>
      rw [List.forall_mem_cons] at h
      have hdigit := digitValue_lt h.1
      have hrest := ih h.2
      have hle : digitValue c * 10 ^ rest.length ≤ 9 * 10 ^ rest.length :=
        Nat.mul_le_mul_right _ (by omega)
      rw [digitsValue_cons, List.length_cons, Nat.pow_succ]
      omega

/-- Zeros in front of digits do not change their value. -/
theorem digitsValue_dropWhile (digits : List Char) :
    digitsValue (digits.dropWhile (· == '0')) = digitsValue digits := by
  induction digits with
  | nil => rfl
  | cons c rest ih =>
      rw [List.dropWhile_cons]
      split
      next hc =>
        rw [ih, digitsValue_cons, beq_iff_eq.mp hc]
        simp [digitValue]
      next => rfl

/-- Digits with no zero in front have as many places as their number. -/
theorem le_digitsValue {c : Char} (hc : c.isDigit = true) (hzero : c ≠ '0') (rest : List Char) :
    10 ^ rest.length ≤ digitsValue (c :: rest) := by
  have hpos := digitValue_pos hc hzero
  have hle : 1 * 10 ^ rest.length ≤ digitValue c * 10 ^ rest.length :=
    Nat.mul_le_mul_right _ hpos
  rw [digitsValue_cons]
  omega

/-! ## Decimals -/

/-- Digits end in some zeros, or in none. -/
theorem exists_zeros_at_end (digits : List Char) : ∃ count,
    digits = (digits.reverse.dropWhile (· == '0')).reverse ++ List.replicate count '0' := by
  have hsplit := @List.takeWhile_append_dropWhile _ (· == '0') digits.reverse
  have hzeros : digits.reverse.takeWhile (· == '0') =
      List.replicate (digits.reverse.takeWhile (· == '0')).length '0' := by
    refine List.eq_replicate_of_mem fun c hc => ?_
    exact beq_iff_eq.mp (@List.mem_takeWhile_imp _ (· == '0') _ _ hc)
  refine ⟨(digits.reverse.takeWhile (· == '0')).length, ?_⟩
  calc digits = digits.reverse.reverse := (List.reverse_reverse digits).symm
    _ = (digits.reverse.dropWhile (· == '0')).reverse ++
          (digits.reverse.takeWhile (· == '0')).reverse := by
        rw [← List.reverse_append, hsplit]
    _ = (digits.reverse.dropWhile (· == '0')).reverse ++
          List.replicate (digits.reverse.takeWhile (· == '0')).length '0' := by
        rw [hzeros, List.reverse_replicate, List.length_replicate]

/-- A decimal is written with digits before the point and maybe some after it. -/
theorem Decimal.text_eq (d : Decimal) : ∃ whole fraction : List Char,
    d.text = (if fraction.isEmpty then whole else whole ++ '.' :: fraction) ∧ whole ≠ [] ∧
      (∀ c ∈ whole ++ fraction, c.isDigit = true) ∧
      (digitsValue (whole ++ fraction) : ℚ) * 10 ^ (-(fraction.length : Int)) = d.value := by
  unfold text
  split
  next h =>
    obtain ⟨k, hk⟩ := Int.eq_ofNat_of_zero_le h
    refine ⟨natText d.digits ++ List.replicate d.exponent.toNat '0', [], rfl, ?_, ?_, ?_⟩
    · simp [natText_ne_nil]
    · intro c hc
      rw [List.append_nil] at hc
      rcases List.mem_append.mp hc with hc | hc
      · exact isDigit_of_mem_natText hc
      · rw [(List.mem_replicate.mp hc).2]
        decide
    · rw [List.append_nil, digitsValue_append, digitsValue_natText, digitsValue_zeros,
        List.length_replicate, Decimal.value, hk]
      simp
  next h =>
    obtain ⟨k, hk⟩ := Int.eq_ofNat_of_zero_le (show 0 ≤ -d.exponent by omega)
    rw [hk]
    simp only [Int.toNat_natCast]
    -- Padding leaves a digit in front of the point. Zeros at the end of the places are dropped.
    generalize hpadded : List.replicate (k + 1 - (natText d.digits).length) '0' ++
      natText d.digits = padded
    have hlength : k + 1 ≤ padded.length := by
      rw [← hpadded, List.length_append, List.length_replicate]
      omega
    have hvalue : digitsValue padded = d.digits := by
      rw [← hpadded, digitsValue_append, digitsValue_zeros, digitsValue_natText]
      omega
    have hdigits : ∀ c ∈ padded, c.isDigit = true := by
      rw [← hpadded]
      intro c hc
      rcases List.mem_append.mp hc with hc | hc
      · rw [(List.mem_replicate.mp hc).2]
        decide
      · exact isDigit_of_mem_natText hc
    have hsplit := List.take_append_drop (padded.length - k) padded
    have hplaces : (padded.drop (padded.length - k)).length = k := by
      rw [List.length_drop]
      omega
    obtain ⟨count, hzeros⟩ := exists_zeros_at_end (padded.drop (padded.length - k))
    generalize hwhole : padded.take (padded.length - k) = whole at hsplit ⊢
    generalize padded.drop (padded.length - k) = places at hsplit hplaces hzeros ⊢
    generalize places.reverse.dropWhile (· == '0') = reversed at hzeros ⊢
    have htotal : reversed.reverse.length + count = k := by
      rw [← hplaces, hzeros, List.length_append, List.length_replicate]
    have hjoined : padded = (whole ++ reversed.reverse) ++ List.replicate count '0' := by
      rw [← hsplit, hzeros, List.append_assoc]
    refine ⟨whole, reversed.reverse, by simp, ?_, ?_, ?_⟩
    · rw [← hwhole]
      intro hnil
      have := congrArg List.length hnil
      rw [List.length_take, List.length_nil] at this
      omega
    · intro c hc
      exact hdigits c (hjoined ▸ List.mem_append_left _ hc)
    · have hexponent : d.exponent = -((reversed.reverse.length + count : Nat) : Int) := by omega
      have hscaled : digitsValue padded = digitsValue (whole ++ reversed.reverse) * 10 ^ count := by
        rw [hjoined, digitsValue_append _ (List.replicate count '0'), digitsValue_zeros,
          List.length_replicate, Nat.add_zero]
      rw [Decimal.value, ← hvalue, hscaled, hexponent]
      push_cast
      rw [neg_add, zpow_add₀ (by norm_num), zpow_neg _ (count : Int), zpow_natCast]
      field_simp

/-! ## Reading -/

/-- Digits with a point among them are read as the number nearest to their decimal value. -/
theorem readDecimal?_positional {whole fraction : List Char} (hwhole : whole ≠ [])
    (hdigits : ∀ c ∈ whole ++ fraction, c.isDigit = true) :
    readDecimal? (if fraction.isEmpty then whole else whole ++ '.' :: fraction) =
      some (nearest (whole ++ fraction) (-(fraction.length : Int))) := by
  have hleft : ∀ c ∈ whole, c.isDigit = true := fun c hc => hdigits c (List.mem_append_left _ hc)
  have hright : ∀ c ∈ fraction, c.isDigit = true :=
    fun c hc => hdigits c (List.mem_append_right _ hc)
  have hdot : '.'.isDigit = false := by decide
  unfold readDecimal?
  cases fraction with
  | nil =>
      have htake : whole.takeWhile Char.isDigit = whole := by
        exact List.takeWhile_eq_self_iff.mpr hleft
      have hdrop : whole.dropWhile Char.isDigit = [] := by
        exact List.dropWhile_eq_nil_iff.mpr hleft
      simp [htake, hdrop, hwhole, readExponent?]
  | cons c rest =>
      have htake : (whole ++ '.' :: c :: rest).takeWhile Char.isDigit = whole := by
        rw [List.takeWhile_append_of_pos hleft, List.takeWhile_cons_of_neg (by simp [hdot]),
          List.append_nil]
      have hdrop : (whole ++ '.' :: c :: rest).dropWhile Char.isDigit = '.' :: c :: rest := by
        rw [List.dropWhile_append_of_pos hleft, List.dropWhile_cons_of_neg (by simp [hdot])]
      have htakeAll : (c :: rest).takeWhile Char.isDigit = c :: rest := by
        exact List.takeWhile_eq_self_iff.mpr hright
      have hdropAll : (c :: rest).dropWhile Char.isDigit = [] := by
        exact List.dropWhile_eq_nil_iff.mpr hright
      rw [List.isEmpty_cons, if_neg Bool.false_ne_true]
      simp [htake, hdrop, htakeAll, hdropAll, hwhole, readExponent?]

/-- Whether a number rounds to a word depends on its value only, not on how it is written as a
ratio. -/
theorem contains_congr {word : Nat} (hword : 0 < word) {r s : Ratio} (hr : 0 < r.den)
    (hs : 0 < s.den) (hvalue : r.value = s.value)
    (h : (RoundingInterval.of word).contains r = true) :
    (RoundingInterval.of word).contains s = true := by
  rw [contains_iff hword hr, ← Bool.not_eq_true, roundsBeyond_iff _ hr, roundsBeyond_iff _ hr,
    hvalue] at h
  rw [contains_iff hword hs, ← Bool.not_eq_true, roundsBeyond_iff _ hs, roundsBeyond_iff _ hs]
  exact h

theorem two_pow_le_ten_pow : 2 ^ 1075 ≤ 10 ^ 400 := by decide +kernel

/-- The middle above the word of infinity is a number of at most four hundred digits. -/
theorem midpoint_infinity : units Binary64.infinity.bits.toNat +
    units (Binary64.infinity.bits.toNat + 1) < 10 ^ 400 * 2 ^ 1075 := by decide +kernel

/-- What rounds to a finite number other than zero is neither too small nor too great to be read. -/
theorem value_bounds {word : Nat} (hword : 0 < word)
    (hfinite : word ≤ Binary64.infinity.bits.toNat) {r : Ratio} (hr : 0 < r.den)
    (h : (RoundingInterval.of word).contains r = true) :
    (10 : ℚ) ^ (-400 : Int) ≤ r.value ∧ r.value < (10 : ℚ) ^ (400 : Int) := by
  rw [contains_iff hword hr, ← Bool.not_eq_true, roundsBeyond_iff _ hr, roundsBeyond_iff _ hr,
    not_or, not_lt] at h
  obtain ⟨hlow, hhigh, -⟩ := h
  have hscale : (0 : ℚ) < 2 ^ 1075 := by positivity
  constructor
  · have hunits : 1 ≤ units (word - 1) + units (word - 1 + 1) := by
      have := units_lt_units_succ (word - 1)
      omega
    calc (10 : ℚ) ^ (-400 : Int) = 1 / (10 ^ 400 : Nat) := by norm_num
      _ ≤ 1 / (2 ^ 1075 : Nat) := by
        refine one_div_le_one_div_of_le ?_ (by exact_mod_cast two_pow_le_ten_pow)
        exact_mod_cast hscale
      _ ≤ (midpoint (word - 1)).value := by
        rw [value_midpoint, Nat.cast_pow, Nat.cast_ofNat]
        exact div_le_div_of_nonneg_right (by exact_mod_cast hunits) hscale.le
      _ ≤ r.value := by
        rcases hlow with hlow | ⟨hlow, -⟩
        · exact hlow.le
        · exact hlow.le
  · have hunits := units_strictMono.monotone hfinite
    have hnext := units_strictMono.monotone (Nat.succ_le_succ hfinite)
    have hbound := midpoint_infinity
    refine hhigh.trans_lt ?_
    rw [value_midpoint, div_lt_iff₀ hscale]
    have hcast : ((units word + units (word + 1) : Nat) : ℚ) < (10 ^ 400 * 2 ^ 1075 : Nat) := by
      exact_mod_cast (Nat.add_le_add hunits hnext).trans_lt hbound
    refine hcast.trans_eq ?_
    rw [Nat.cast_mul, Nat.cast_pow, Nat.cast_pow, Nat.cast_ofNat, Nat.cast_ofNat,
      show ((400 : Int)) = ((400 : Nat) : Int) from rfl, zpow_natCast]

/-- Digits that stand for a number that rounds to a word are read as that word. -/
theorem nearest_of_contains {word : Nat} (hword : 0 < word)
    (hfinite : word ≤ Binary64.infinity.bits.toNat) {digits : List Char}
    (hdigits : ∀ c ∈ digits, c.isDigit = true) {exponent : Int}
    (h : (RoundingInterval.of word).contains (.scaled (digitsValue digits) 10 exponent) = true) :
    nearest digits exponent = ⟨UInt64.ofNat word⟩ := by
  have hden := Ratio.den_scaled_pos (digitsValue digits) (show 0 < 10 by decide) exponent
  obtain ⟨hlow, hhigh⟩ := value_bounds hword hfinite hden h
  rw [Ratio.value_scaled _ (by decide)] at hlow hhigh
  have hround := round_of_contains hword hfinite hden h
  have hvalue := digitsValue_dropWhile digits
  have hall : ∀ c ∈ digits.dropWhile (· == '0'), c.isDigit = true :=
    fun c hc => hdigits c (List.dropWhile_sublist _ |>.subset hc)
  have hten : (1 : ℚ) ≤ 10 := by norm_num
  unfold nearest
  simp only
  rw [← hvalue] at hlow hhigh hround
  cases hsignificant : digits.dropWhile (· == '0') with
  | nil =>
      rw [hsignificant, show digitsValue [] = 0 from rfl, Nat.cast_zero, zero_mul] at hlow
      exact absurd hlow (not_le.mpr (zpow_pos (by norm_num) _))
  | cons c rest =>
      rw [hsignificant] at hlow hhigh hround hall
      have hzero : c ≠ '0' := by
        have hhead := List.head_dropWhile_not (· == '0') (show digits.dropWhile (· == '0') ≠ [] by
          simp [hsignificant])
        simpa [hsignificant] using hhead
      have hle := le_digitsValue (hall c List.mem_cons_self) hzero rest
      have hlt := digitsValue_lt hall
      -- By the bounds on the value, it is neither too great nor too small to be rounded.
      rw [List.isEmpty_cons, if_neg Bool.false_ne_true, if_neg, if_neg]
      · exact hround
      · intro hsmall
        refine absurd hlow (not_le.mpr ?_)
        calc (digitsValue (c :: rest) : ℚ) * ((10 : Nat) : ℚ) ^ exponent
            < (10 : ℚ) ^ (c :: rest).length * 10 ^ exponent := by
              refine mul_lt_mul_of_pos_right ?_ (zpow_pos (by norm_num) _)
              exact_mod_cast hlt
          _ = (10 : ℚ) ^ (exponent + (c :: rest).length) := by
              rw [zpow_add₀ (by norm_num), zpow_natCast, mul_comm]
          _ ≤ (10 : ℚ) ^ (-400 : Int) := zpow_le_zpow_right₀ hten (by omega)
      · intro hgreat
        rw [List.length_cons] at hgreat
        refine absurd hhigh (not_lt.mpr ?_)
        calc (10 : ℚ) ^ (400 : Int) ≤ (10 : ℚ) ^ (exponent + rest.length) :=
              zpow_le_zpow_right₀ hten (by omega)
          _ = (10 : ℚ) ^ rest.length * 10 ^ exponent := by
              rw [zpow_add₀ (by norm_num), zpow_natCast, mul_comm]
          _ ≤ (digitsValue (c :: rest) : ℚ) * ((10 : Nat) : ℚ) ^ exponent := by
              refine mul_le_mul_of_nonneg_right ?_ (zpow_pos (by norm_num) _).le
              exact_mod_cast hle

/-! ## Words -/

namespace Binary64

/-- The number without its sign. -/
def unsigned (x : Binary64) : Binary64 :=
  ⟨UInt64.ofNat x.absolute⟩

/-- The text of a number without its sign. -/
def unsignedText (x : Binary64) : List Char :=
  if x.absolute = 0 then ['0'] else (shortest x.absolute).text

/-- A number is its sign and its absolute value. -/
theorem toNat_eq (x : Binary64) :
    x.bits.toNat = (if x.isNegative then 2 ^ 63 else 0) + x.absolute := by
  have hlt := x.bits.toNat_lt
  rw [isNegative, absolute, Nat.shiftRight_eq_div_pow, Nat.one_shiftLeft]
  split
  next h =>
    rw [beq_iff_eq] at h
    omega
  next h =>
    rw [beq_iff_eq] at h
    omega

theorem unsigned_of_nonneg {x : Binary64} (h : x.isNegative = false) : x.unsigned = x := by
  have hbits := x.toNat_eq
  rw [h, if_neg Bool.false_ne_true, Nat.zero_add] at hbits
  rw [unsigned, ← hbits, UInt64.ofNat_toNat]

/-- A word without the sign bit gets it by negation. -/
theorem xor_signBit {n : Nat} (h : n < 2 ^ 63) : n ^^^ 2 ^ 63 = 2 ^ 63 + n := by
  have hdiv : (n ^^^ 2 ^ 63) / 2 ^ 63 = 1 := by
    rw [Nat.xor_div_two_pow, Nat.div_eq_of_lt h, Nat.div_self (Nat.two_pow_pos 63), Nat.zero_xor]
  have hmod : (n ^^^ 2 ^ 63) % 2 ^ 63 = n := by
    rw [Nat.xor_mod_two_pow, Nat.mod_self, Nat.mod_eq_of_lt h, Nat.xor_zero]
  have hsplit := Nat.div_add_mod (n ^^^ 2 ^ 63) (2 ^ 63)
  rw [hdiv, hmod] at hsplit
  omega

theorem absolute_lt (x : Binary64) : x.absolute < 2 ^ 63 :=
  Nat.mod_lt _ (Nat.two_pow_pos 63)

/-- Without its sign a number is its absolute value. -/
theorem toNat_unsigned (x : Binary64) : x.unsigned.bits.toNat = x.absolute := by
  have hlt := x.absolute_lt
  rw [unsigned, UInt64.toNat_ofNat', Nat.mod_eq_of_lt (by omega)]

/-- A negative number is the negation of itself without the sign. -/
theorem neg_unsigned {x : Binary64} (h : x.isNegative = true) : -x.unsigned = x := by
  have hbits := x.toNat_eq
  rw [h, if_pos rfl] at hbits
  have hsign : (x.unsigned.bits ^^^ 0x8000000000000000).toNat = x.bits.toNat := by
    rw [UInt64.toNat_xor, toNat_unsigned, hbits]
    exact xor_signBit x.absolute_lt
  obtain ⟨bits⟩ := x
  exact congrArg Binary64.mk (UInt64.toNat.inj hsign)

theorem absolute_unsigned (x : Binary64) : x.unsigned.absolute = x.absolute := by
  rw [absolute, toNat_unsigned]
  exact Nat.mod_eq_of_lt x.absolute_lt

theorem isFinite_unsigned (x : Binary64) : x.unsigned.isFinite = x.isFinite := by
  rw [isFinite, isFinite, exponentField, exponentField, absolute_unsigned]

theorem absolute_neg (x : Binary64) : (-x).absolute = x.absolute := by
  have hmod : (x.bits.toNat ^^^ 2 ^ 63) % 2 ^ 63 = x.bits.toNat % 2 ^ 63 := by
    rw [Nat.xor_mod_two_pow, Nat.mod_self, Nat.xor_zero]
  exact (congrArg (· % 2 ^ 63) (UInt64.toNat_xor x.bits 0x8000000000000000)).trans hmod

theorem isFinite_neg (x : Binary64) : (-x).isFinite = x.isFinite := by
  rw [isFinite, isFinite, exponentField, exponentField, absolute_neg]

/-- The absolute value is made of the exponent and the fraction, in this order. -/
theorem absolute_eq_fields (x : Binary64) :
    x.absolute = x.exponentField * hiddenBit + x.fractionField := by
  rw [exponentField, fractionField, Nat.shiftRight_eq_div_pow]
  exact (Nat.div_add_mod' x.absolute (2 ^ 52)).symm

theorem absolute_lt_infinity {x : Binary64} (h : x.isFinite = true) :
    x.absolute < infinity.bits.toNat := by
  rw [isFinite, exponentField, decide_eq_true_eq, Nat.shiftRight_eq_div_pow,
    Nat.div_lt_iff_lt_mul (Nat.two_pow_pos 52)] at h
  have hinfinity : infinity.bits.toNat = 2047 * 2 ^ 52 := by decide
  rw [hinfinity]
  exact h

theorem isNaN_of_isFinite {x : Binary64} (h : x.isFinite = true) : x.isNaN = false := by
  have hfield : x.exponentField ≠ 2047 := by
    rw [isFinite, decide_eq_true_eq] at h
    omega
  simp [isNaN, hfield]

/-- A finite number is written as its sign and its text without one. -/
theorem floatText_eq {x : Binary64} (h : x.isFinite = true) : floatText x =
    String.ofList (if x.isNegative then '-' :: x.unsignedText else x.unsignedText) := by
  have hnan := isNaN_of_isFinite h
  have hfields := x.absolute_eq_fields
  have hhidden : 0 < hiddenBit := by decide
  rw [floatText, magnitude, hnan, if_neg Bool.false_ne_true, h, Bool.not_true,
    if_neg Bool.false_ne_true, unsignedText, hfields]
  by_cases hfield : x.exponentField = 0
  · simp [hfield]
  · have hzero : ¬ (x.exponentField * hiddenBit + x.fractionField = 0) := by
      have := Nat.mul_pos (Nat.pos_of_ne_zero hfield) hhidden
      omega
    simp [hfield]

/-- The text without a sign is digits with at most one point, which is not in front. -/
theorem unsignedText_positional (x : Binary64) : ∃ whole fraction : List Char,
    x.unsignedText = (if fraction.isEmpty then whole else whole ++ '.' :: fraction) ∧
      whole ≠ [] ∧ ∀ c ∈ whole ++ fraction, c.isDigit = true := by
  unfold unsignedText
  split
  next => exact ⟨['0'], [], rfl, by simp, List.all_iff_forall_prop.mp (by decide)⟩
  next =>
    obtain ⟨whole, fraction, htext, hwhole, hdigits, -⟩ := (shortest x.absolute).text_eq
    exact ⟨whole, fraction, htext, hwhole, hdigits⟩

/-- The text of a number without its sign starts with a digit. -/
theorem unsignedText_head (x : Binary64) : ∃ c rest, x.unsignedText = c :: rest ∧
    c.isDigit = true := by
  obtain ⟨whole, fraction, htext, hwhole, hdigits⟩ := x.unsignedText_positional
  obtain ⟨c, more, rfl⟩ := List.exists_cons_of_ne_nil hwhole
  have hc := hdigits c List.mem_cons_self
  rw [htext]
  split
  next => exact ⟨c, more, rfl, hc⟩
  next => exact ⟨c, more ++ '.' :: fraction, rfl, hc⟩

/-- The text of a number without its sign is of digits and a point. -/
theorem mem_unsignedText {x : Binary64} {c : Char} (h : c ∈ x.unsignedText) :
    c.isDigit = true ∨ c = '.' := by
  obtain ⟨whole, fraction, htext, -, hdigits⟩ := x.unsignedText_positional
  rw [htext] at h
  split at h
  next => exact Or.inl (hdigits c (List.mem_append_left _ h))
  next =>
    rcases List.mem_append.mp h with h | h
    · exact Or.inl (hdigits c (List.mem_append_left _ h))
    · rcases List.mem_cons.mp h with rfl | h
      · exact Or.inr rfl
      · exact Or.inl (hdigits c (List.mem_append_right _ h))

/-- A finite number is the nearest to its shortest text. -/
theorem readDecimal?_unsignedText {x : Binary64} (h : x.isFinite = true) :
    readDecimal? x.unsignedText = some x.unsigned := by
  by_cases hzero : x.absolute = 0
  · rw [unsignedText, if_pos hzero, unsigned, hzero]
    decide
  · obtain ⟨whole, fraction, htext, hwhole, hdigits, hvalue⟩ := (shortest x.absolute).text_eq
    have hword := Nat.pos_of_ne_zero hzero
    rw [unsignedText, if_neg hzero, htext, readDecimal?_positional hwhole hdigits]
    refine congrArg some (nearest_of_contains hword (absolute_lt_infinity h).le hdigits ?_)
    refine contains_congr hword (Ratio.den_scaled_pos _ (by decide) _)
      (Ratio.den_scaled_pos _ (by decide) _) ?_ (shortest_contains hword)
    rw [Ratio.value_scaled_decimal, Ratio.value_scaled _ (by decide), ← hvalue]
    norm_num

theorem toLower_of_isDigit {c : Char} (h : c.isDigit = true) : c.toLower = c := by
  have hrange := (Bool.and_eq_true _ _).mp h
  simp only [decide_eq_true_eq, UInt32.le_iff_toNat_le] at hrange
  have hnine : '9'.val.toNat = 57 := rfl
  have hcapital : 'A'.val.toNat = 65 := rfl
  have hcapital : ¬(c.val ≥ 'A'.val ∧ c.val ≤ 'Z'.val) := by
    rintro ⟨hcapitals, -⟩
    have := UInt32.le_iff_toNat_le.mp hcapitals
    omega
  exact dif_neg hcapital

/-- What starts with a digit is read as a magnitude, for it is neither signed nor a name. -/
theorem readFloat?_eq_readMagnitude? {c : Char} (h : c.isDigit = true) {rest : List Char} :
    readFloat? (c :: rest) = readMagnitude? (c :: rest) := by
  unfold readFloat?
  split
  next heq =>
    cases heq
    exact absurd h (by decide)
  next heq =>
    cases heq
    exact absurd h (by decide)
  next => rfl

/-- A text that begins with a digit has neither a sign nor a name. -/
theorem readFloat?_of_digit {c : Char} (h : c.isDigit = true) (rest : List Char) :
    readFloat? (c :: rest) = readDecimal? (c :: rest) := by
  have hname : ∀ d more, d.isDigit = false →
      String.ofList ((c :: rest).map Char.toLower) ≠ String.ofList (d :: more) := by
    intro d more hd heq
    rw [String.ofList_inj, List.map_cons, toLower_of_isDigit h] at heq
    cases heq
    exact absurd h (by simp [hd])
  rw [readFloat?_eq_readMagnitude? h, readMagnitude?]
  simp only [Bool.or_eq_true, beq_iff_eq]
  rw [if_neg, if_neg (hname 'n' ['a', 'n'] (by decide))]
  rintro (hinf | hinfinity)
  · exact hname 'i' ['n', 'f'] (by decide) hinf
  · exact hname 'i' ['n', 'f', 'i', 'n', 'i', 't', 'y'] (by decide) hinfinity

/-- A finite number without its sign is read back from its text. -/
theorem readFloat?_unsignedText {x : Binary64} (h : x.isFinite = true) :
    readFloat? x.unsignedText = some x.unsigned := by
  have hread := readDecimal?_unsignedText h
  obtain ⟨c, rest, htext, hc⟩ := x.unsignedText_head
  rw [htext] at hread ⊢
  rw [readFloat?_of_digit hc, hread]

end Binary64

end RowFilter.Number
