import RowFilter.Number.Integer

/-! # Decimal text

The decimal text of an integer is read back as that integer.
-/

namespace RowFilter.Number

theorem isDigit_of_mem_natText {n : Nat} {c : Char} (hc : c ∈ natText n) : c.isDigit = true :=
  Nat.isDigit_of_mem_toDigits (by decide) (by decide) hc

theorem natText_ne_nil (n : Nat) : natText n ≠ [] :=
  Nat.toDigits_ne_nil

theorem digitsValue_natText (n : Nat) : digitsValue (natText n) = n := by
  have hdigits := Nat.ofDigitChars_ten_toDigits (n := n)
  rw [Nat.ofDigitChars_eq_foldl] at hdigits
  rw [digitsValue, natText]
  simpa only [Nat.mul_comm 10, digitValue, show '0'.toNat = 48 from rfl] using hdigits

/-- The decimal text of a natural number is read back as the number. -/
theorem readNat?_natText (n : Nat) : readNat? (natText n) = some n := by
  have hall : (natText n).all Char.isDigit = true := by
    rw [List.all_eq_true]
    intro c hc
    exact isDigit_of_mem_natText hc
  simp [readNat?, natText_ne_nil, hall, digitsValue_natText]

theorem readInt?_natText (n : Nat) : readInt? (natText n) = some (n : Int) := by
  have hread := readNat?_natText n
  cases htext : natText n with
  | nil => exact absurd htext (natText_ne_nil n)
  | cons c rest =>
      have hdigit : c.isDigit = true := isDigit_of_mem_natText (n := n) (by simp [htext])
      rw [htext] at hread
      unfold readInt?
      split
      next heq =>
        cases heq
        exact absurd hdigit (by decide)
      next heq =>
        cases heq
        exact absurd hdigit (by decide)
      next => rw [hread]; rfl

/-- The decimal text of an integer is read back as the integer, its sign included. -/
theorem readInt?_intText (n : Int) : readInt? (intText n) = some n := by
  unfold intText
  split
  next h =>
    rw [readInt?, readNat?_natText]
    have habs : -(n.natAbs : Int) = n := by omega
    exact congrArg some habs
  next h =>
    rw [readInt?_natText, Option.some.injEq]
    omega

theorem int64?_toInt (n : Int64) : int64? n.toInt = some n := by
  have hlow := n.le_toInt
  have hhigh := n.toInt_lt
  rw [int64?, if_pos, Int64.ofInt_toInt]
  simp only [Bool.and_eq_true, decide_eq_true_eq]
  omega

/-- A 64-bit integer is read back from its decimal text. -/
theorem readInt64?_intText (n : Int64) : readInt64? (intText n.toInt) = some n := by
  rw [readInt64?, readInt?_intText, Option.bind_some, int64?_toInt]

theorem toInt_of_int64? {n : Int} {m : Int64} (h : int64? n = some m) : m.toInt = n := by
  unfold int64? at h
  split at h
  next hrange =>
    cases h
    rw [Bool.and_eq_true, decide_eq_true_eq, decide_eq_true_eq] at hrange
    exact Int64.toInt_ofInt_of_le hrange.1 (by omega)
  next => cases h

/-- Digits that are read as an integer stand behind a sign or alone. -/
theorem readInt?_eq_some {text : List Char} {n : Int} (h : readInt? text = some n) :
    ∃ digits m, readNat? digits = some m ∧
      (text = '-' :: digits ∧ n = -(m : Int) ∨ (text = '+' :: digits ∨ text = digits) ∧ n = m) := by
  unfold readInt? at h
  split at h
  next digits =>
    obtain ⟨_, hread, rfl⟩ := Option.map_eq_some_iff.mp h
    obtain ⟨m, hm, hcast⟩ := Option.bind_eq_some_iff.mp hread
    cases hcast
    exact ⟨digits, m, hm, .inl ⟨rfl, rfl⟩⟩
  next digits =>
    obtain ⟨_, hread, rfl⟩ := Option.map_eq_some_iff.mp h
    obtain ⟨m, hm, hcast⟩ := Option.bind_eq_some_iff.mp hread
    cases hcast
    exact ⟨digits, m, hm, .inr ⟨.inl rfl, rfl⟩⟩
  next =>
    obtain ⟨_, hread, rfl⟩ := Option.map_eq_some_iff.mp h
    obtain ⟨m, hm, hcast⟩ := Option.bind_eq_some_iff.mp hread
    cases hcast
    exact ⟨text, m, hm, .inr ⟨.inr rfl, rfl⟩⟩

/-- What is read as a natural number is one or more digits with its value. -/
theorem readNat?_eq_some {digits : List Char} {n : Nat} (h : readNat? digits = some n) :
    digits ≠ [] ∧ (∀ c ∈ digits, c.isDigit = true) ∧ n = digitsValue digits := by
  unfold readNat? at h
  split at h
  next => cases h
  next hdigits =>
    rw [Bool.or_eq_true, not_or, List.isEmpty_iff, Bool.not_eq_true, Bool.not_eq_false',
      List.all_eq_true] at hdigits
    exact ⟨hdigits.1, hdigits.2, (Option.some.inj h).symm⟩

/-- A text without a sign in front is read as no negative number. -/
theorem readInt64?_nonneg {c : Char} (hc : c.isDigit = true) {rest : List Char} {n : Int64}
    (h : readInt64? (c :: rest) = some n) : 0 ≤ n.toInt := by
  obtain ⟨m, hm, hn⟩ := Option.bind_eq_some_iff.mp h
  obtain ⟨digits, k, -, ⟨htext, -⟩ | ⟨-, rfl⟩⟩ := readInt?_eq_some hm
  · cases htext
    exact absurd hc (by decide)
  · rw [toInt_of_int64? hn]
    exact Int.natCast_nonneg k

/-- Decimal text is made of digits and a minus sign. -/
theorem mem_intText {n : Int} {c : Char} (hc : c ∈ intText n) : c.isDigit = true ∨ c = '-' := by
  unfold intText at hc
  split at hc
  next h =>
    rcases List.mem_cons.mp hc with rfl | hc
    · exact Or.inr rfl
    · exact Or.inl (isDigit_of_mem_natText hc)
  next h => exact Or.inl (isDigit_of_mem_natText hc)

end RowFilter.Number
