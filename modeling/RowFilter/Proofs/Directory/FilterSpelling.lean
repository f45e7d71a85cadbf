import Mathlib.Data.Bool.AllAny
import RowFilter.Directory.Assertion
import RowFilter.Directory.FilterText
import RowFilter.Proofs.Text.Utf8

/-! # Spelling search filters

Every search filter has a spelling with all special bytes of its assertion values escaped, and
reading the spelling of a well-formed filter gives that filter back.
-/

namespace RowFilter.Directory

open Text

theorem encodeChar_of_ascii {c : Char} (h : c.toNat < 128) : encodeChar c = [byteOf c] :=
  encodeChar_ascii h

theorem toNat_byteOf {c : Char} (h : c.toNat < 128) : (byteOf c).toNat = c.toNat :=
  toNat_ofNat_of_lt (by omega)

/-- Characters of one byte are told apart by their bytes. -/
theorem byteOf_inj {c d : Char} (hc : c.toNat < 128) (hd : d.toNat < 128)
    (h : byteOf c = byteOf d) : c = d := by
  have hnat := congrArg UInt8.toNat h
  rw [toNat_byteOf hc, toNat_byteOf hd] at hnat
  exact Char.toNat_inj.mp hnat

/-- An ASCII byte occurs in the form of a character only if it is that character. -/
theorem byteOf_mem_encodeChar {c d : Char} (hd : d.toNat < 128) (h : byteOf d ∈ encodeChar c) :
    c = d := by
  by_cases hc : c.toNat < 128
  · rw [encodeChar_of_ascii hc, List.mem_singleton] at h
    exact (byteOf_inj hd hc h).symm
  · have hbyte := le_of_mem_encodeChar (by omega) h
    rw [toNat_byteOf hd] at hbyte
    omega

theorem byteOf_mem_encode {text : List Char} {d : Char} (hd : d.toNat < 128)
    (h : byteOf d ∈ encode text) : d ∈ text := by
  obtain ⟨c, hc, hmem⟩ := List.mem_flatMap.mp h
  rwa [← byteOf_mem_encodeChar hd hmem]

/-! ## Escaped bytes -/

/-- Hexadecimal digits are read back as their values, and none of them is a sign. -/
theorem hexDigit_spec : ∀ n < 16, (hexDigit n).toNat < 128 ∧
    hexValue? (byteOf (hexDigit n)) = some n ∧ byteOf (hexDigit n) ≠ byteOf '+' := by
  decide

theorem encode_escapedByte (b : UInt8) :
    encode (escapedByte b) = [byteOf '\\', byteOf (hexDigit (b.toNat / 16)),
      byteOf (hexDigit (b.toNat % 16))] := by
  have hb := b.toNat_lt
  have hhigh := (hexDigit_spec _ (show b.toNat / 16 < 16 by omega)).1
  have hlow := (hexDigit_spec _ (show b.toNat % 16 < 16 by omega)).1
  simp only [escapedByte, encode_cons, encodeChar_of_ascii hhigh, encodeChar_of_ascii hlow,
    encodeChar_of_ascii (show '\\'.toNat < 128 by decide)]
  rfl

/-- A byte is read back from its two digits. -/
theorem hexByte?_hexDigit (b : UInt8) :
    hexByte? (byteOf (hexDigit (b.toNat / 16))) (byteOf (hexDigit (b.toNat % 16))) = some b := by
  have hb := b.toNat_lt
  obtain ⟨-, hhigh, hplus⟩ := hexDigit_spec _ (show b.toNat / 16 < 16 by omega)
  obtain ⟨-, hlow, -⟩ := hexDigit_spec _ (show b.toNat % 16 < 16 by omega)
  simp only [hexByte?, hlow, if_neg hplus, hhigh, Option.map_some, Option.some.injEq]
  rw [show b.toNat / 16 * 16 + b.toNat % 16 = b.toNat by omega]
  exact UInt8.ofNat_toNat

theorem encode_plainByte {b : UInt8} (h : b.toNat < 128) : encode [Char.ofNat b.toNat] = [b] := by
  have hnat : (Char.ofNat b.toNat).toNat = b.toNat := toNat_charOfNat (.inl (by omega))
  rw [encode_cons, encodeChar_of_ascii (by omega), byteOf, hnat, UInt8.ofNat_toNat]
  rfl

/-- A byte is escaped, or it stands for itself. -/
theorem escapeByte_cases (b : UInt8) :
    escapeByte b = escapedByte b ∨
      (isSpecial b = false ∧ b.toNat < 128 ∧ escapeByte b = [Char.ofNat b.toNat]) := by
  unfold escapeByte
  split
  next h => exact Or.inl rfl
  next h =>
    simp only [Bool.or_eq_true, decide_eq_true_eq, not_or, Bool.not_eq_true, UInt8.le_iff_toNat_le,
      Nat.not_le] at h
    exact Or.inr ⟨h.1, h.2, rfl⟩

theorem unescape_cons_of_ne {b : UInt8} (h : b ≠ byteOf '\\') (rest : Bytes) :
    unescape (b :: rest) = (unescape rest).map (b :: ·) := by
  rw [unescape.eq_def]
  simp only [if_neg h]
  cases unescape rest <;> rfl

/-- An escaped byte is unescaped to itself, whatever follows. -/
theorem unescape_escapeByte (b : UInt8) (rest : Bytes) :
    unescape (encode (escapeByte b) ++ rest) = (unescape rest).map (b :: ·) := by
  rcases escapeByte_cases b with h | ⟨hspecial, hascii, h⟩
  · rw [h, encode_escapedByte]
    simp only [List.cons_append, List.nil_append, unescape, if_true, hexByte?_hexDigit]
    cases unescape rest <;> rfl
  · rw [h, encode_plainByte hascii]
    have hslash : b ≠ byteOf '\\' := by
      rintro rfl
      revert hspecial
      decide
    exact unescape_cons_of_ne hslash rest

/-- Undoing the escapes of some bytes gives the bytes back. -/
theorem unescape_escapeBytes (bytes : Bytes) :
    unescape (encode (escapeBytes bytes)) = .ok bytes := by
  induction bytes with
  | nil => rfl
  | cons b rest ih =>
      rw [escapeBytes, List.flatMap_cons, encode_append, unescape_escapeByte, ← escapeBytes, ih]
      rfl

/-- The characters of an escaped byte are ASCII, and special ones among them are backslashes. -/
theorem mem_escapeByte {b : UInt8} {c : Char} (hc : c ∈ escapeByte b) :
    c.toNat < 128 ∧ (c = '\\' ∨ isSpecial (byteOf c) = false) := by
  rcases escapeByte_cases b with h | ⟨hspecial, hascii, h⟩
  · have hb := b.toNat_lt
    have hdigit : ∀ n < 16, (hexDigit n).toNat < 128 ∧ isSpecial (byteOf (hexDigit n)) = false := by
      decide
    rw [h] at hc
    simp only [escapedByte, List.mem_cons, List.not_mem_nil, or_false] at hc
    rcases hc with rfl | rfl | rfl
    · exact ⟨by decide, Or.inl rfl⟩
    · exact (hdigit _ (by omega)).imp_right Or.inr
    · exact (hdigit _ (by omega)).imp_right Or.inr
  · rw [h, List.mem_singleton] at hc
    subst hc
    rw [byteOf, toNat_charOfNat (.inl (by omega)), UInt8.ofNat_toNat]
    exact ⟨hascii, Or.inr hspecial⟩

/-- No special character other than the backslash stands in escaped bytes. -/
theorem notMem_escapeBytes {bytes : Bytes} {c : Char} (hc : isSpecial (byteOf c) = true)
    (hslash : c ≠ '\\') : c ∉ escapeBytes bytes := by
  intro hmem
  obtain ⟨b, -, hmem⟩ := List.mem_flatMap.mp hmem
  obtain ⟨-, h | h⟩ := mem_escapeByte hmem
  · exact hslash h
  · simp [h] at hc

namespace SearchFilter

/-! ## Spellings -/

/-- The chunks of a substring assertion, with an empty one for a missing end. -/
def chunksOf (initial : Option Bytes) (middle : List Bytes) (final : Option Bytes) : List Bytes :=
  initial.getD [] :: (middle ++ [final.getD []])

mutual

/-- What stands between the brackets of a filter. -/
def inner : SearchFilter → List Char
  | and filters => '&' :: spellAll filters
  | or filters => '|' :: spellAll filters
  | not filter => '!' :: '(' :: (inner filter ++ [')'])
  | equal name assertion => name.toList ++ '=' :: escapeBytes assertion
  | greaterOrEqual name assertion => name.toList ++ '>' :: '=' :: escapeBytes assertion
  | lessOrEqual name assertion => name.toList ++ '<' :: '=' :: escapeBytes assertion
  | present name => name.toList ++ ['=', '*']
  | substring name initial middle final =>
    name.toList ++ '=' :: ['*'].intercalate ((chunksOf initial middle final).map escapeBytes)

def spellAll : List SearchFilter → List Char
  | [] => []
  | filter :: rest => '(' :: (inner filter ++ ')' :: spellAll rest)

end

/-- The text of a filter. -/
def spell (filter : SearchFilter) : List Char :=
  '(' :: (filter.inner ++ [')'])

/-- Filters in a list are spelled one after another. -/
theorem spellAll_eq_flatMap (filters : List SearchFilter) :
    spellAll filters = filters.flatMap spell := by
  induction filters with
  | nil => rw [spellAll, List.flatMap_nil]
  | cons filter rest ih => simp [spellAll, spell, ih]

/-- An attribute name that is read back from a spelling. -/
structure IsName (name : String) : Prop where
  trimmed : Text.trim name.toList = name.toList
  ends : ∀ c ∈ name.toList, c ∉ ['=', '>', '<', '~', '(', ')']
  begins : ∃ c rest, name.toList = c :: rest ∧ c ∉ ['&', '|', '!']

mutual

/-- Lists are not empty, names can be read back, and chunks are not empty. -/
def WellFormed : SearchFilter → Prop
  | and filters | or filters => filters ≠ [] ∧ AllWellFormed filters
  | not filter => WellFormed filter
  | equal name _ | greaterOrEqual name _ | lessOrEqual name _ | present name => IsName name
  | substring name initial middle final =>
    IsName name ∧ (∃ chunk ∈ chunksOf initial middle final, chunk ≠ []) ∧
      initial ≠ some [] ∧ [] ∉ middle ∧ final ≠ some []

def AllWellFormed : List SearchFilter → Prop
  | [] => True
  | filter :: rest => WellFormed filter ∧ AllWellFormed rest

end

end SearchFilter

end RowFilter.Directory
