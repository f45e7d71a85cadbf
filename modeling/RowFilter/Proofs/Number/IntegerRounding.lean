import RowFilter.Proofs.Number.FloatText

/-! # Integers as floating-point numbers

Rounding never turns the order of two integers around, but it makes large ones fall together.
-/

namespace RowFilter.Number

/-- A greater ratio rounds beyond every word that a smaller one does. -/
theorem roundsBeyond_mono {r s : Ratio} (hr : 0 < r.den) (hs : 0 < s.den) (hle : r.value ≤ s.value)
    {word : Nat} (h : roundsBeyond word r = true) : roundsBeyond word s = true := by
  rw [roundsBeyond_iff word hr] at h
  rw [roundsBeyond_iff word hs]
  rcases h with h | ⟨h, hodd⟩
  · exact .inl (h.trans_le hle)
  · rcases (h.trans_le hle).lt_or_eq with hlt | heq
    · exact .inl hlt
    · exact .inr ⟨heq, hodd⟩

/-- A ratio below the midpoint behind infinity rounds to the first word it is not beyond. -/
theorem exists_word_of_round {r : Ratio} (hr : 0 < r.den)
    (hbound : roundsBeyond Binary64.infinity.bits.toNat r = false) :
    ∃ word ≤ Binary64.infinity.bits.toNat, r.round = ⟨UInt64.ofNat word⟩ ∧
      ∀ v, roundsBeyond v r = true ↔ v < word := by
  classical
  have hexists : ∃ word, roundsBeyond word r = false := ⟨_, hbound⟩
  have hle := Nat.find_min' hexists hbound
  have hrounds : ∀ v, roundsBeyond v r = true ↔ v < Nat.find hexists := by
    intro v
    constructor
    · intro hv
      by_contra hlt
      have hfirst := roundsBeyond_antitone hr (Nat.le_of_not_lt hlt) hv
      rw [Nat.find_spec hexists] at hfirst
      cases hfirst
    · exact fun hv => Bool.of_not_eq_false (Nat.find_min hexists hv)
  have hinfinity : Binary64.infinity.bits.toNat < 0 + 2 ^ 63 := by decide
  refine ⟨_, hle, ?_, hrounds⟩
  rw [Ratio.round, climb_eq hrounds 63 (Nat.zero_le _) (hle.trans_lt hinfinity),
    Nat.min_eq_right hle]

/-! ## Words of natural numbers -/

/-- The word of the number nearest to a natural number. -/
def naturalWord (n : Nat) : Nat :=
  (Ratio.mk n 1).round.absolute

theorem value_natural (n : Nat) : (Ratio.mk n 1).value = n := by
  rw [Ratio.value, Nat.cast_one, div_one]

/-- A natural number rounds beyond a word if it is past the middle to the next one, or in the middle
above an odd word. -/
theorem roundsBeyond_natural_iff (word n : Nat) : roundsBeyond word ⟨n, 1⟩ = true ↔
    units word + units (word + 1) < n * 2 ^ 1075 ∨
      units word + units (word + 1) = n * 2 ^ 1075 ∧ word % 2 = 1 := by
  have hscale : (0 : ℚ) < 2 ^ 1075 := by positivity
  rw [roundsBeyond_iff word Nat.one_pos, value_natural, value_midpoint, div_lt_iff₀ hscale,
    div_eq_iff hscale.ne']
  exact_mod_cast Iff.rfl

/-- The integers are far below what would round to infinity. -/
theorem lt_midpoint_infinity : 2 ^ 63 * 2 ^ 1075 <
    units Binary64.infinity.bits.toNat + units (Binary64.infinity.bits.toNat + 1) := by
  decide +kernel

section

variable {n : Nat} (hn : n ≤ 2 ^ 63)
include hn

theorem exists_naturalWord : ∃ word ≤ Binary64.infinity.bits.toNat,
    (Ratio.mk n 1).round = ⟨UInt64.ofNat word⟩ ∧ naturalWord n = word ∧
      ∀ v, roundsBeyond v ⟨n, 1⟩ = true ↔ v < word := by
  have hbound : roundsBeyond Binary64.infinity.bits.toNat ⟨n, 1⟩ = false := by
    have hle : n * 2 ^ 1075 ≤ 2 ^ 63 * 2 ^ 1075 := Nat.mul_le_mul_right _ hn
    have hlt := hle.trans_lt lt_midpoint_infinity
    rw [← Bool.not_eq_true, roundsBeyond_natural_iff]
    rintro (h | ⟨h, -⟩)
    · exact absurd h hlt.asymm
    · exact absurd h hlt.ne'
  obtain ⟨word, hword, hround, hrounds⟩ := exists_word_of_round Nat.one_pos hbound
  have hinfinity : Binary64.infinity.bits.toNat < 2 ^ 63 := by decide
  refine ⟨word, hword, hround, ?_, hrounds⟩
  rw [naturalWord, hround, Binary64.absolute, UInt64.toNat_ofNat', Nat.one_shiftLeft,
    Nat.mod_eq_of_lt (show word < 2 ^ 64 by omega), Nat.mod_eq_of_lt (by omega)]

theorem naturalWord_le : naturalWord n ≤ Binary64.infinity.bits.toNat := by
  obtain ⟨word, hword, -, heq, -⟩ := exists_naturalWord hn
  exact heq ▸ hword

/-- A natural number rounds to its word. -/
theorem round_natural : (Ratio.mk n 1).round = ⟨UInt64.ofNat (naturalWord n)⟩ := by
  obtain ⟨word, -, hround, heq, -⟩ := exists_naturalWord hn
  rw [heq, hround]

/-- The word of a natural number is above exactly those that it rounds beyond. -/
theorem lt_naturalWord_iff (v : Nat) : v < naturalWord n ↔ roundsBeyond v ⟨n, 1⟩ = true := by
  obtain ⟨word, -, -, heq, hrounds⟩ := exists_naturalWord hn
  rw [heq, hrounds]

/-- A larger natural number has no smaller word. -/
theorem naturalWord_mono {m : Nat} (hle : m ≤ n) : naturalWord m ≤ naturalWord n := by
  by_contra hlt
  have hbeyond := (lt_naturalWord_iff (hle.trans hn) _).mp (Nat.lt_of_not_le hlt)
  have hvalue : (Ratio.mk m 1).value ≤ (Ratio.mk n 1).value := by
    rw [value_natural, value_natural]
    exact_mod_cast hle
  have hself := roundsBeyond_mono Nat.one_pos Nat.one_pos hvalue hbeyond
  exact absurd ((lt_naturalWord_iff hn _).mpr hself) (Nat.lt_irrefl _)

theorem naturalWord_pos (hpos : 0 < n) : 0 < naturalWord n := by
  rw [lt_naturalWord_iff hn, roundsBeyond_natural_iff]
  have hunits : units 0 + units (0 + 1) = 1 := by decide
  have hscale : 1 < 2 ^ 1075 := Nat.one_lt_two_pow (by decide)
  rw [hunits]
  exact .inl (hscale.trans_le (Nat.le_mul_of_pos_left _ hpos))

/-- A word that stands for the number itself is the nearest one. -/
theorem naturalWord_of_units {word : Nat} (hunits : units word = n * 2 ^ 1074) :
    naturalWord n = word := by
  have hdouble : n * 2 ^ 1075 = units word + units word := by
    rw [hunits, ← Nat.two_mul, Nat.mul_left_comm, ← Nat.pow_succ']
  refine Nat.le_antisymm (Nat.le_of_not_lt fun hlt => ?_) (Nat.le_of_not_lt fun hlt => ?_)
  · have hnext := units_lt_units_succ word
    rw [lt_naturalWord_iff hn, roundsBeyond_natural_iff, hdouble] at hlt
    omega
  · have hbelow := units_strictMono hlt
    have hnext : units (naturalWord n + 1) ≤ units word := units_strictMono.monotone hlt
    have hself : ¬naturalWord n < naturalWord n := Nat.lt_irrefl _
    rw [lt_naturalWord_iff hn, roundsBeyond_natural_iff, hdouble] at hself
    omega

end

theorem naturalWord_zero : naturalWord 0 = 0 :=
  naturalWord_of_units (Nat.zero_le _) (Nat.zero_mul _).symm

/-! ## Integers with a sign -/

namespace Binary64

theorem isNegative_neg_of_nonneg {x : Binary64} (h : x.isNegative = false) :
    (-x).isNegative = true := by
  have hbits := x.toNat_eq
  rw [h, if_neg Bool.false_ne_true, Nat.zero_add] at hbits
  have hneg : (-x).bits.toNat = 2 ^ 63 + x.absolute := by
    refine (UInt64.toNat_xor x.bits 0x8000000000000000).trans ?_
    rw [hbits]
    exact xor_signBit x.absolute_lt
  have hlt := x.absolute_lt
  rw [isNegative, hneg, Nat.shiftRight_eq_div_pow, beq_iff_eq]
  omega

/-- Up to infinity the words are numbers. -/
theorem isNaN_of_absolute_le {x : Binary64} (h : x.absolute ≤ infinity.bits.toNat) :
    x.isNaN = false := by
  have hinfinity : infinity.bits.toNat = 2047 * hiddenBit := by decide
  have hpos : 0 < hiddenBit := by decide
  have hfields := x.absolute_eq_fields
  rw [isNaN, Bool.and_eq_false_iff]
  by_cases hexponent : x.exponentField = 2047
  · rw [hexponent] at hfields
    have hfraction : x.fractionField = 0 := by omega
    exact .inr (by rw [hfraction]; rfl)
  · exact .inl (beq_eq_false_iff_ne.mpr hexponent)

/-- The rank of a number other than zero tells which number it is. -/
theorem eq_of_rank_eq {x y : Binary64} (h : x.rank = y.rank) (hzero : x.rank ≠ 0) : x = y := by
  have hx := x.toNat_eq
  have hy := y.toNat_eq
  have hbits : x.bits.toNat = y.bits.toNat := by
    unfold rank at h hzero
    split at h <;> split at h <;> simp_all
  obtain ⟨bits⟩ := x
  exact congrArg Binary64.mk (UInt64.toNat.inj hbits)

theorem natAbs_toInt_le (n : Int64) : n.toInt.natAbs ≤ 2 ^ 63 := by
  have hlow := n.le_toInt
  have hhigh := n.toInt_lt
  omega

theorem isNegative_round_natural {n : Nat} (hn : n ≤ 2 ^ 63) :
    (Ratio.mk n 1).round.isNegative = false := by
  have hle := naturalWord_le hn
  have hinfinity : infinity.bits.toNat < 2 ^ 63 := by decide
  rw [round_natural hn, isNegative, UInt64.toNat_ofNat', Nat.mod_eq_of_lt (by omega),
    Nat.shiftRight_eq_div_pow, Nat.div_eq_of_lt (by omega)]
  rfl

/-- The float of an integer has the word of its absolute value. -/
theorem absolute_ofInt64 (n : Int64) : (ofInt64 n).absolute = naturalWord n.toInt.natAbs := by
  unfold ofInt64
  split
  next => rw [absolute_neg, naturalWord]
  next => rw [naturalWord]

/-- The rank of the number nearest to an integer is the word of its absolute value, with its
sign. -/
theorem rank_ofInt64 (n : Int64) : (ofInt64 n).rank =
    if n.toInt < 0 then -(naturalWord n.toInt.natAbs : Int) else naturalWord n.toInt.natAbs := by
  have hnonneg := isNegative_round_natural (natAbs_toInt_le n)
  rw [rank, absolute_ofInt64]
  unfold ofInt64
  split
  next => rw [isNegative_neg_of_nonneg hnonneg, if_pos rfl]
  next => rw [hnonneg, if_neg Bool.false_ne_true]

/-- The float of an integer is a number. -/
theorem isNaN_ofInt64 (n : Int64) : (ofInt64 n).isNaN = false := by
  apply isNaN_of_absolute_le
  rw [absolute_ofInt64]
  exact naturalWord_le (natAbs_toInt_le n)

/-- All numbers are ordered but those that are none. -/
theorem isSome_compare? (x y : Binary64) : (x.compare? y).isSome = !(x.isNaN || y.isNaN) := by
  unfold compare?
  split
  next h =>
    rw [h]
    rfl
  next h =>
    rw [Bool.not_eq_true] at h
    rw [h]
    rfl

/-- Rounding does not turn the order of two integers around. -/
theorem rank_ofInt64_mono {m n : Int64} (h : m.toInt ≤ n.toInt) :
    (ofInt64 m).rank ≤ (ofInt64 n).rank := by
  rw [rank_ofInt64, rank_ofInt64]
  split <;> split
  next hm hn =>
    have hword := naturalWord_mono (natAbs_toInt_le m)
      (show n.toInt.natAbs ≤ m.toInt.natAbs by omega)
    omega
  next => omega
  next => omega
  next hm hn =>
    have hword := naturalWord_mono (natAbs_toInt_le n)
      (show m.toInt.natAbs ≤ n.toInt.natAbs by omega)
    omega

theorem rank_ofInt64_eq_zero {n : Int64} (h : (ofInt64 n).rank = 0) : n.toInt = 0 := by
  by_contra hne
  have hpos := naturalWord_pos (natAbs_toInt_le n) (show 0 < n.toInt.natAbs by omega)
  rw [rank_ofInt64] at h
  split at h <;> omega

/-- Floats of integers are the same exactly if they have one rank among all floats. -/
theorem ofInt64_eq_iff_rank_eq {m n : Int64} :
    ofInt64 m = ofInt64 n ↔ (ofInt64 m).rank = (ofInt64 n).rank := by
  constructor
  · exact congrArg rank
  · intro h
    by_cases hzero : (ofInt64 m).rank = 0
    · have hm := rank_ofInt64_eq_zero hzero
      have hn := rank_ofInt64_eq_zero (h ▸ hzero)
      rw [Int64.toInt.inj (hm.trans hn.symm)]
    · exact eq_of_rank_eq h hzero

/-- As floating-point numbers two integers are in their order, unless they fall together. -/
theorem compare?_ofInt64 (m n : Int64) : (ofInt64 m).compare? (ofInt64 n) =
    some (if ofInt64 m = ofInt64 n then .eq else compare m.toInt n.toInt) := by
  rw [compare?, isNaN_ofInt64, isNaN_ofInt64, Bool.or_false, if_neg Bool.false_ne_true]
  congr 1
  split
  next heq => rw [heq, Int.compare_eq_eq]
  next hne =>
    rw [ofInt64_eq_iff_rank_eq] at hne
    rcases lt_trichotomy m.toInt n.toInt with hlt | heq | hlt
    · have hle := rank_ofInt64_mono hlt.le
      rw [Int.compare_eq_lt.mpr hlt, Int.compare_eq_lt.mpr (by omega)]
    · exact absurd (congrArg (fun n => (ofInt64 n).rank) (Int64.toInt.inj heq)) hne
    · have hle := rank_ofInt64_mono hlt.le
      rw [Int.compare_eq_gt.mpr hlt, Int.compare_eq_gt.mpr (by omega)]

/-! ## Texts of integers -/

theorem rank_round_natural {n : Nat} (hn : n ≤ 2 ^ 63) :
    (Ratio.mk n 1).round.rank = naturalWord n := by
  rw [rank, isNegative_round_natural hn, if_neg Bool.false_ne_true, naturalWord]

theorem rank_neg_round_natural {n : Nat} (hn : n ≤ 2 ^ 63) :
    (-(Ratio.mk n 1).round).rank = -(naturalWord n : Int) := by
  rw [rank, isNegative_neg_of_nonneg (isNegative_round_natural hn), if_pos rfl, absolute_neg,
    naturalWord]

/-- Digits of a number that is no larger than the integers are rounded as that number. -/
theorem nearest_natural {digits : List Char} (hdigits : ∀ c ∈ digits, c.isDigit = true)
    (hle : digitsValue digits ≤ 2 ^ 63) :
    nearest digits 0 = (Ratio.mk (digitsValue digits) 1).round := by
  rw [← digitsValue_dropWhile] at hle ⊢
  unfold nearest
  cases hsignificant : digits.dropWhile (· == '0') with
  | nil =>
    have hround := round_natural (Nat.zero_le (2 ^ 63))
    rw [naturalWord_zero] at hround
    exact hround.symm
  | cons c rest =>
    have hmem : c ∈ digits :=
      (List.dropWhile_suffix _).subset (hsignificant ▸ List.mem_cons_self)
    have hc := List.head?_dropWhile_not (· == '0') digits
    rw [hsignificant] at hc hle
    have hlength := le_digitsValue (hdigits c hmem) (beq_eq_false_iff_ne.mp hc) rest
    have hplaces : rest.length < 20 := by
      by_contra hlong
      have hpow := Nat.pow_le_pow_right (show 0 < 10 by decide) (Nat.le_of_not_lt hlong)
      have hbound : 2 ^ 63 < 10 ^ 20 := by decide
      omega
    have hscaled : Ratio.scaled (digitsValue (c :: rest)) 10 0 = ⟨digitsValue (c :: rest), 1⟩ := by
      rw [Ratio.scaled, if_pos le_rfl]
      exact congrArg (Ratio.mk · 1) (Nat.mul_one _)
    rw [if_neg (by simp), if_neg, if_neg]
    · rw [hscaled]
    · rw [List.length_cons]
      omega
    · rw [List.length_cons]
      omega

/-- A text of digits that fits an integer is read as the float of the integer. -/
theorem readMagnitude?_natural {digits : List Char} {n : Nat} (h : readNat? digits = some n)
    (hle : n ≤ 2 ^ 63) : readMagnitude? digits = some (Ratio.mk n 1).round := by
  obtain ⟨hne, hdigits, rfl⟩ := readNat?_eq_some h
  obtain ⟨c, rest, rfl⟩ := List.exists_cons_of_ne_nil hne
  have hfirst := hdigits c List.mem_cons_self
  have hplain : ∀ d ∈ c :: rest ++ [], d.isDigit = true := by simpa using hdigits
  have hread := readDecimal?_positional hne hplain
  rw [List.append_nil, List.isEmpty_nil, if_pos rfl] at hread
  rw [← readFloat?_eq_readMagnitude? hfirst, readFloat?_of_digit hfirst, hread]
  exact congrArg some (nearest_natural hdigits hle)

/-- A text that is read as an integer is read as the number nearest to it, a zero with its sign. -/
theorem readFloat?_of_readInt64? {text : List Char} {n : Int64} (h : readInt64? text = some n) :
    ∃ x, readFloat? text = some x ∧ x.isNaN = false ∧ x.rank = (ofInt64 n).rank := by
  obtain ⟨m, hm, hn⟩ := Option.bind_eq_some_iff.mp h
  have hint := toInt_of_int64? hn
  have hsize := natAbs_toInt_le n
  obtain ⟨digits, k, hk, ⟨rfl, rfl⟩ | ⟨htext, rfl⟩⟩ := readInt?_eq_some hm
  · have hle : k ≤ 2 ^ 63 := by omega
    refine ⟨-(Ratio.mk k 1).round, ?_, isNaN_of_absolute_le ?_, ?_⟩
    · rw [readFloat?, readMagnitude?_natural hk hle]
      rfl
    · rw [absolute_neg]
      exact naturalWord_le hle
    · rw [rank_neg_round_natural hle, rank_ofInt64, hint, Int.natAbs_neg, Int.natAbs_natCast]
      split
      next => rfl
      next hnonneg =>
        obtain rfl : k = 0 := by omega
        rw [naturalWord_zero]
        rfl
  · have hle : k ≤ 2 ^ 63 := by omega
    refine ⟨(Ratio.mk k 1).round, ?_, isNaN_of_absolute_le (naturalWord_le hle), ?_⟩
    · rcases htext with rfl | rfl
      · rw [readFloat?, readMagnitude?_natural hk hle]
      · obtain ⟨hne, hdigits, -⟩ := readNat?_eq_some hk
        obtain ⟨c, rest, rfl⟩ := List.exists_cons_of_ne_nil hne
        rw [readFloat?_eq_readMagnitude? (hdigits c List.mem_cons_self),
          readMagnitude?_natural hk hle]
    · rw [rank_round_natural hle, rank_ofInt64, hint, if_neg (by omega), Int.natAbs_natCast]

end Binary64

end RowFilter.Number
