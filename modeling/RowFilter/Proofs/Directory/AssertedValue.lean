import RowFilter.Proofs.Directory.Denotation
import RowFilter.Proofs.Number.DecimalText

/-! # What bound values assert

A value is written into a filter so that reading it gives its bytes back: text as UTF-8, other
values as their text, and bytes as they are.
-/

namespace RowFilter.Directory

open Text

/-- The bytes that a value asserts. A value that cannot be bound has none. -/
def assertedBytes : Value → Bytes
  | .string text => bytesOf text
  | .integer n => bytesOf (Number.int64Text n)
  | .float x => bytesOf (Number.floatText x)
  | .boolean b => bytesOf (if b then "TRUE" else "FALSE")
  | .date seconds => bytesOf (generalizedTime seconds)
  | .bytes bytes => bytes
  | _ => []

/-- The text asserts the bytes and has nothing in it that ends or splits an assertion. -/
structure IsAssertion (text : List Char) (content : Bytes) : Prop where
  reads : unescape (encode text) = .ok content
  plain : ∀ c ∈ ['(', ')', '*'], c ∉ text

/-- Unescaping leaves bytes without backslashes as they are. -/
theorem unescape_append {bytes : Bytes} (h : byteOf '\\' ∉ bytes) (rest : Bytes) :
    unescape (bytes ++ rest) = (unescape rest).map (bytes ++ ·) := by
  induction bytes with
  | nil =>
      rw [List.nil_append]
      cases unescape rest <;> rfl
  | cons b more ih =>
      rw [List.mem_cons, not_or] at h
      rw [List.cons_append, unescape_cons_of_ne (Ne.symm h.1), ih h.2]
      cases unescape rest <;> rfl

theorem isAssertion_of_plain {text : List Char}
    (h : ∀ c ∈ text, c.isAlphanum = true ∨ c = '-') : IsAssertion text (encode text) where
  reads := by
    have hslash : byteOf '\\' ∉ encode text := fun hmem =>
      notMem_of_plain h (by decide) (byteOf_mem_encode (by decide) hmem)
    have hread := unescape_append hslash []
    rw [List.append_nil] at hread
    rw [hread]
    exact congrArg Except.ok (List.append_nil _)
  plain := by
    have hspecial : ∀ c ∈ ['(', ')', '*'], c ∈ specialCharacters :=
      List.all_iff_forall_prop.mp (by decide)
    exact fun c hc => notMem_of_plain h (hspecial c hc)

/-- Escaped bytes assert the bytes. -/
theorem isAssertion_escapeBytes (bytes : Bytes) : IsAssertion (escapeBytes bytes) bytes where
  reads := unescape_escapeBytes bytes
  plain := by
    have hspecial : ∀ c ∈ ['(', ')', '*'], isSpecial (byteOf c) = true ∧ c ≠ '\\' :=
      List.all_iff_forall_prop.mp (by decide)
    exact fun c hc => notMem_escapeBytes (hspecial c hc).1 (hspecial c hc).2

/-- An escaped character is read as its bytes. -/
theorem unescape_escapeChar (c : Char) (rest : Bytes) :
    unescape (encode (escapeChar c) ++ rest) = (unescape rest).map (encodeChar c ++ ·) := by
  unfold escapeChar
  split
  next hascii =>
    rw [unescape_escapeByte, encodeChar_of_ascii hascii]
    rfl
  next hascii =>
    have hslash : byteOf '\\' ∉ encode [c] := by
      intro hmem
      rw [← List.mem_singleton.mp (byteOf_mem_encode (by decide) hmem)] at hascii
      exact hascii (by decide)
    have hencode : encode [c] = encodeChar c := by
      rw [encode_cons]
      exact List.append_nil _
    rw [unescape_append hslash, hencode]

theorem notMem_escapeChar {c d : Char} (hd : d ∈ ['(', ')', '*']) : d ∉ escapeChar c := by
  have hspecial : ∀ d ∈ ['(', ')', '*'],
      isSpecial (byteOf d) = true ∧ d ≠ '\\' ∧ d.toNat < 128 :=
    List.all_iff_forall_prop.mp (by decide)
  obtain ⟨hd, hslash, hascii⟩ := hspecial d hd
  unfold escapeChar
  split
  next =>
    intro hmem
    obtain ⟨-, h | h⟩ := mem_escapeByte hmem
    · exact hslash h
    · rw [hd] at h
      cases h
  next hc =>
    intro hmem
    rw [List.mem_singleton.mp hmem] at hascii
    exact hc hascii

/-- An escaped text asserts the bytes of the text. -/
theorem isAssertion_escapeText (text : List Char) :
    IsAssertion (escapeText text) (encode text) where
  reads := by
    induction text with
    | nil => rfl
    | cons c rest ih =>
        rw [escapeText, List.flatMap_cons, encode_append, unescape_escapeChar, ← escapeText, ih]
        rfl
  plain := by
    intro d hd hmem
    obtain ⟨c, -, hmem⟩ := List.mem_flatMap.mp hmem
    exact notMem_escapeChar hd hmem

/-! ## Numbers and times -/

theorem isAlphanum_of_mem_natText {n : Nat} {c : Char} (hc : c ∈ Number.natText n) :
    c.isAlphanum = true := by
  rw [Char.isAlphanum, Number.isDigit_of_mem_natText hc, Bool.or_true]

theorem plain_intText (n : Int) : ∀ c ∈ Number.intText n, c.isAlphanum = true ∨ c = '-' := by
  intro c hc
  unfold Number.intText at hc
  split at hc
  next =>
    rcases List.mem_cons.mp hc with rfl | hc
    · exact Or.inr rfl
    · exact Or.inl (isAlphanum_of_mem_natText hc)
  next => exact Or.inl (isAlphanum_of_mem_natText hc)

/-- A padded number is of digits, with a minus sign if it is negative. -/
theorem plain_padded (width : Nat) (n : Int) :
    ∀ c ∈ padded width n, c.isAlphanum = true ∨ c = '-' := by
  have hpad : ∀ (count : Nat), ∀ c ∈ List.replicate count '0' ++ Number.natText n.natAbs,
      c.isAlphanum = true := by
    intro count c hc
    rcases List.mem_append.mp hc with hc | hc
    · rw [List.eq_of_mem_replicate hc]
      rfl
    · exact isAlphanum_of_mem_natText hc
  intro c hc
  simp only [padded] at hc
  split at hc
  next =>
    rcases List.mem_cons.mp hc with rfl | hc
    · exact Or.inr rfl
    · exact Or.inl (hpad _ c hc)
  next => exact Or.inl (hpad _ c hc)

/-- A generalized time is of digits and letters, with a minus sign before a negative year. -/
theorem plain_generalizedTimeChars (seconds : Int) :
    ∀ c ∈ generalizedTimeChars seconds, c.isAlphanum = true ∨ c = '-' := by
  intro c hc
  simp only [generalizedTimeChars, List.mem_append] at hc
  rcases hc with (((((hc | hc) | hc) | hc) | hc) | hc) | hc
  · exact plain_padded _ _ c hc
  · exact plain_padded _ _ c hc
  · exact plain_padded _ _ c hc
  · exact plain_padded _ _ c hc
  · exact plain_padded _ _ c hc
  · exact plain_padded _ _ c hc
  · rw [List.mem_singleton.mp hc]
    exact Or.inl rfl

/-- What is written for a value asserts its bytes. -/
theorem isAssertion_of_assertionText {value : Value} {text : List Char}
    (h : assertionText value = .ok text) : IsAssertion text (assertedBytes value) := by
  cases value with
  | string s =>
      cases h
      exact isAssertion_escapeText s.toList
  | integer n =>
      cases h
      rw [assertedBytes, bytesOf, Number.int64Text, String.toList_ofList]
      exact isAssertion_of_plain (plain_intText n.toInt)
  | float x =>
      cases h
      exact isAssertion_escapeText (Number.floatText x).toList
  | boolean b =>
      cases h
      refine isAssertion_of_plain (List.all_iff_forall_prop.mp ?_)
      cases b <;> decide
  | date seconds =>
      cases h
      rw [assertedBytes, bytesOf, generalizedTime, String.toList_ofList]
      exact isAssertion_of_plain (plain_generalizedTimeChars seconds.toInt)
  | bytes bytes =>
      cases h
      exact isAssertion_escapeBytes bytes
  | _ => cases h

end RowFilter.Directory
