import Mathlib.Data.Nat.Bitwise
import RowFilter.Text.LetterCase

/-! # Lower case

No character of a text in lower case has another lower case. The runs of the case table move no
code point to one that they move on, which is checked by the bits of all of them at once. They move
none before the letters either, so a text in lower case has the digits and the signs that it had.
-/

namespace RowFilter.Text

/-! ## The table -/

/-- A number with the bits of some numbers set. -/
def bitsOf (numbers : List Nat) : Nat :=
  numbers.foldr (fun n bits => bits ||| 1 <<< n) 0

/-- The bits that are set in a number are those it was made of. -/
theorem testBit_bitsOf {numbers : List Nat} {n : Nat} :
    (bitsOf numbers).testBit n = true ↔ n ∈ numbers := by
  induction numbers with
  | nil => simp [bitsOf]
  | cons first rest ih =>
      have hbits : bitsOf (first :: rest) = bitsOf rest ||| 2 ^ first := by
        rw [bitsOf, List.foldr_cons, Nat.one_shiftLeft, bitsOf]
      rw [hbits, Nat.testBit_or, Nat.testBit_two_pow, Bool.or_eq_true, ih, decide_eq_true_eq,
        List.mem_cons, or_comm, eq_comm]

/-- Numbers without a common bit are the numbers of lists without a common element. -/
theorem notMem_of_land_eq_zero {first second : List Nat} (h : bitsOf first &&& bitsOf second = 0)
    {n : Nat} (hn : n ∈ first) : n ∉ second := by
  intro hmem
  have hbit := Nat.testBit_and (bitsOf first) (bitsOf second) n
  rw [h, Nat.zero_testBit, testBit_bitsOf.mpr hn, testBit_bitsOf.mpr hmem] at hbit
  cases hbit

namespace CaseRun

/-- The code points that a run moves. -/
def codes : CaseRun → List Nat
  | (first, last, step, _) => (List.range ((last - first) / step + 1)).map fun k => first + k * step

/-- Where a run moves its code points to. -/
def targets (run : CaseRun) : List Nat :=
  run.codes.map fun n : Nat => (n + run.2.2.2 : Int).toNat

theorem mem_codes {first last step n : Nat} (hfirst : first ≤ n) (hlast : n ≤ last)
    (hstep : (n - first) % step = 0) (distance : Int) :
    n ∈ codes (first, last, step, distance) := by
  refine List.mem_map.mpr ⟨(n - first) / step, List.mem_range.mpr ?_, ?_⟩
  · exact Nat.lt_succ_of_le (Nat.div_le_div_right (by omega))
  · rw [Nat.div_mul_cancel (Nat.dvd_of_mod_eq_zero hstep)]
    omega

end CaseRun

/-- The code points outside ASCII that have a lower case of one character. -/
def loweredCodes : List Nat :=
  lowerRuns.flatMap CaseRun.codes

/-- What a case table can move a code point to: a code point of its own, no capital letter of ASCII
and none with a sequence for its lower case. -/
def isLoweredTo (n : Nat) : Bool :=
  (Nat.ble 128 n || Nat.ble 97 n && Nat.ble n 122) &&
    (Nat.ble n 55295 || Nat.ble 57344 n && Nat.ble n 1114111) && n != 304

theorem isLoweredTo_targets : ∀ n ∈ lowerRuns.flatMap CaseRun.targets, isLoweredTo n = true :=
  List.all_eq_true.mp (by decide +kernel)

/-- What a run moves to is not moved again by any run. -/
theorem targets_notMem_loweredCodes {n : Nat} (h : n ∈ lowerRuns.flatMap CaseRun.targets) :
    n ∉ loweredCodes :=
  notMem_of_land_eq_zero (by decide +kernel) h

/-! ## Characters -/

/-- The lower case of the character is the character, and it is not the capital sigma, which has
two of them. -/
def IsLower (c : Char) : Prop :=
  lowerChar c = [c] ∧ c ≠ 'Σ'

instance (c : Char) : Decidable (IsLower c) :=
  inferInstanceAs (Decidable (_ ∧ _))

/-- A code point outside ASCII that no run moves. -/
theorem isLower_of_notMem {c : Char} (hascii : 128 ≤ c.toNat) (hsequence : c.toNat ≠ 304)
    (hruns : c.toNat ∉ loweredCodes) : IsLower c := by
  have hfind : lowerRuns.find? (fun (first, last, step, _) =>
      first ≤ c.toNat && c.toNat ≤ last && (c.toNat - first) % step == 0) = none := by
    refine List.find?_eq_none.mpr fun run hrun hcovers => hruns ?_
    obtain ⟨first, last, step, distance⟩ := run
    simp only [Bool.and_eq_true, decide_eq_true_eq, beq_iff_eq] at hcovers
    exact List.mem_flatMap.mpr ⟨_, hrun, CaseRun.mem_codes hcovers.1.1 hcovers.1.2 hcovers.2 _⟩
  have hnone : lowerSequences.find? (fun sequence => sequence.1 == c.toNat) = none := by
    simp [lowerSequences, Ne.symm hsequence]
  constructor
  · rw [lowerChar, if_neg (by omega), mapCase, hnone]
    simp only [hfind]
  · rintro rfl
    exact hruns (by decide +kernel)

theorem isLower_toLower {c : Char} (h : c.toNat < 128) : IsLower c.toLower := by
  have hall : ∀ n < 128, IsLower (Char.ofNat n).toLower := by decide +kernel
  rw [← Char.ofNat_toNat c]
  exact hall _ h

theorem toNat_of_mem_targets {n : Nat} (h : n ∈ lowerRuns.flatMap CaseRun.targets) :
    (Char.ofNat n).toNat = n := by
  have htarget := isLoweredTo_targets n h
  simp only [isLoweredTo, Bool.and_eq_true, Bool.or_eq_true, Nat.ble_eq] at htarget
  have hchar : n.isValidChar := htarget.1.2.imp (by omega) (by omega)
  rw [Char.ofNat, dif_pos hchar]
  rfl

theorem isLower_of_mem_targets {n : Nat} (h : n ∈ lowerRuns.flatMap CaseRun.targets) :
    IsLower (Char.ofNat n) := by
  have hcode := toNat_of_mem_targets h
  have htarget := isLoweredTo_targets n h
  simp only [isLoweredTo, Bool.and_eq_true, Bool.or_eq_true, Nat.ble_eq, bne_iff_ne, ne_eq]
    at htarget
  obtain ⟨⟨hascii, -⟩, hsequence⟩ := htarget
  by_cases hlow : n < 128
  · have hall : ∀ m < 123, 97 ≤ m → IsLower (Char.ofNat m) := by decide +kernel
    exact hall n (by omega) (by omega)
  · refine isLower_of_notMem ?_ ?_ ?_ <;> rw [hcode]
    · exact Nat.le_of_not_lt hlow
    · exact hsequence
    · exact targets_notMem_loweredCodes h

/-- What a character is mapped to comes from ASCII, a sequence or a run, or is the character. -/
theorem lowerChar_cases {c d : Char} (h : d ∈ lowerChar c) :
    c.toNat < 128 ∧ d = c.toLower ∨
      (∃ sequence ∈ lowerSequences, d ∈ sequence.2.map Char.ofNat) ∨
      (∃ n ∈ lowerRuns.flatMap CaseRun.targets, d = Char.ofNat n) ∨
      d = c ∧ lowerChar c = [c] := by
  unfold lowerChar at h
  split at h
  next hascii => exact .inl ⟨hascii, List.mem_singleton.mp h⟩
  next hascii =>
    refine .inr ?_
    unfold mapCase at h
    split at h
    next sequence hsequence => exact .inl ⟨sequence, List.mem_of_find?_eq_some hsequence, h⟩
    next hsequence =>
      dsimp only at h
      refine .inr ?_
      split at h
      next first last step distance hrun =>
        have hcovers := List.find?_some hrun
        simp only [Bool.and_eq_true, decide_eq_true_eq, beq_iff_eq] at hcovers
        have hcode := CaseRun.mem_codes hcovers.1.1 hcovers.1.2 hcovers.2 distance
        exact .inl ⟨_, List.mem_flatMap.mpr ⟨_, List.mem_of_find?_eq_some hrun,
          List.mem_map.mpr ⟨c.toNat, hcode, rfl⟩⟩, List.mem_singleton.mp h⟩
      next hrun =>
        refine .inr ⟨List.mem_singleton.mp h, ?_⟩
        rw [lowerChar, if_neg hascii, mapCase, hsequence]
        simp only [hrun]

/-- What a character is mapped to is its own lower case. -/
theorem isLower_of_mem_lowerChar {c d : Char} (hc : c ≠ 'Σ') (h : d ∈ lowerChar c) : IsLower d := by
  rcases lowerChar_cases h with
    ⟨hascii, rfl⟩ | ⟨sequence, hsequence, hmem⟩ | ⟨n, hn, rfl⟩ | ⟨rfl, hself⟩
  · exact isLower_toLower hascii
  · have hall : lowerSequences.all (fun sequence =>
        (sequence.2.map Char.ofNat).all fun d => decide (IsLower d)) = true := by
      decide +kernel
    simp only [List.all_eq_true, decide_eq_true_eq] at hall
    exact hall sequence hsequence d hmem
  · exact isLower_of_mem_targets hn
  · exact ⟨hself, hc⟩

/-- The lower case of a character has no code point before the letters, other than the character. -/
theorem eq_of_mem_lowerChar {c d : Char} (hd : d.toNat < 65) (h : d ∈ lowerChar c) : d = c := by
  rcases lowerChar_cases h with
    ⟨hascii, rfl⟩ | ⟨sequence, hsequence, hmem⟩ | ⟨n, hn, rfl⟩ | ⟨rfl, -⟩
  · have hall : ∀ n < 128, (Char.ofNat n).toLower.toNat < 65 →
        (Char.ofNat n).toLower = Char.ofNat n := by decide +kernel
    have hc := hall c.toNat hascii
    rw [Char.ofNat_toNat] at hc
    exact hc hd
  · have hall : lowerSequences.all (fun sequence =>
        (sequence.2.map Char.ofNat).all fun d => Nat.ble 65 d.toNat) = true := rfl
    simp only [List.all_eq_true, Nat.ble_eq] at hall
    exact absurd hd (Nat.not_lt.mpr (hall sequence hsequence d hmem))
  · have htarget := isLoweredTo_targets n hn
    simp only [isLoweredTo, Bool.and_eq_true, Bool.or_eq_true, Nat.ble_eq] at htarget
    rw [toNat_of_mem_targets hn] at hd
    omega
  · rfl

/-! ## Texts -/

/-- Whatever stands before it, lowered text is in lower case. -/
theorem isLower_of_mem_lowerAfter {before text : List Char} {d : Char}
    (h : d ∈ lowerAfter before text) : IsLower d := by
  induction text generalizing before with
  | nil => cases h
  | cons c rest ih =>
      rw [lowerAfter] at h
      rcases List.mem_append.mp h with h | h
      · split at h
        next =>
          have hfinal : IsLower 'ς' := by decide +kernel
          have hsigma : IsLower 'σ' := by decide +kernel
          split at h <;> obtain rfl := List.mem_singleton.mp h <;> assumption
        next hc => exact isLower_of_mem_lowerChar (by simpa using hc) h
      · exact ih h

theorem isLower_of_mem_lower {text : List Char} {d : Char} (h : d ∈ lower text) : IsLower d :=
  isLower_of_mem_lowerAfter h

/-- Lower case has no character below the letters that was not there before. -/
theorem mem_of_mem_lowerAfter {before text : List Char} {d : Char} (hd : d.toNat < 65)
    (h : d ∈ lowerAfter before text) : d ∈ text := by
  induction text generalizing before with
  | nil => exact h
  | cons c rest ih =>
      rw [lowerAfter] at h
      rcases List.mem_append.mp h with h | h
      · split at h
        next =>
          have hfinal : ¬ 'ς'.toNat < 65 := by decide
          have hsigma : ¬ 'σ'.toNat < 65 := by decide
          split at h <;> obtain rfl := List.mem_singleton.mp h <;> contradiction
        next => exact eq_of_mem_lowerChar hd h ▸ List.mem_cons_self
      · exact List.mem_cons_of_mem c (ih h)

/-- A character before the letters is in the lower case of a text only if it is in the text. -/
theorem mem_of_mem_lower {text : List Char} {d : Char} (hd : d.toNat < 65) (h : d ∈ lower text) :
    d ∈ text :=
  mem_of_mem_lowerAfter hd h

/-- A text in lower case is its own lower case. -/
theorem lower_of_isLower {text : List Char} (h : ∀ c ∈ text, IsLower c) : lower text = text := by
  have hlower : ∀ before, lowerAfter before text = text := by
    induction text with
    | nil => exact fun before => rfl
    | cons c rest ih =>
        intro before
        obtain ⟨hc, hrest⟩ := List.forall_mem_cons.mp h
        rw [lowerAfter, if_neg (by simpa using hc.2), hc.1, ih hrest, List.singleton_append]
  exact hlower []

/-- Lowering a text once more changes nothing. -/
theorem lower_lower (text : List Char) : lower (lower text) = lower text :=
  lower_of_isLower fun _ => isLower_of_mem_lower

/-- ASCII letters alone have an ASCII lower case. -/
theorem lower_of_ascii {text : List Char} (h : ∀ c ∈ text, c.toNat < 128) :
    lower text = text.map Char.toLower := by
  have hlower : ∀ before, lowerAfter before text = text.map Char.toLower := by
    induction text with
    | nil => exact fun before => rfl
    | cons c rest ih =>
      intro before
      obtain ⟨hc, hrest⟩ := List.forall_mem_cons.mp h
      have hsigma : c ≠ 'Σ' := by
        rintro rfl
        exact absurd hc (by decide)
      rw [lowerAfter, if_neg (by simpa using hsigma), lowerChar, if_pos hc, ih hrest,
        List.singleton_append, List.map_cons]
  exact hlower []

end RowFilter.Text
