import RowFilter.Text.Utf8

/-! # Reading what UTF-8 writes

The bytes of a text decode to that text, and no other bytes do. An ASCII character is one byte, and
no byte of any other character is in the ASCII range.
-/

namespace RowFilter.Text

theorem toNat_ofNat_of_lt {n : Nat} (h : n < 256) : (UInt8.ofNat n).toNat = n := by
  rw [UInt8.toNat_ofNat']
  exact Nat.mod_eq_of_lt h

theorem isContinuation_ofNat (n : Nat) : isContinuation (UInt8.ofNat (0x80 + n % 64)) = true := by
  rw [isContinuation, toNat_ofNat_of_lt (by omega)]
  simp only [beq_iff_eq]
  omega

/-- Letters and digits are in three ranges of ASCII. -/
theorem toNat_of_isAlphanum {c : Char} (h : c.isAlphanum = true) :
    (65 ≤ c.toNat ∧ c.toNat ≤ 90) ∨ (97 ≤ c.toNat ∧ c.toNat ≤ 122) ∨
      (48 ≤ c.toNat ∧ c.toNat ≤ 57) := by
  have hrange : ∀ low high : UInt32, low ≤ c.val ∧ c.val ≤ high →
      low.toNat ≤ c.toNat ∧ c.toNat ≤ high.toNat :=
    fun low high h => ⟨UInt32.le_iff_toNat_le.mp h.1, UInt32.le_iff_toNat_le.mp h.2⟩
  have hboth : ∀ low high : UInt32, (decide (low ≤ c.val) && decide (c.val ≤ high)) = true →
      low ≤ c.val ∧ c.val ≤ high := by
    intro low high h
    rwa [Bool.and_eq_true, decide_eq_true_eq, decide_eq_true_eq] at h
  rcases (Bool.or_eq_true _ _).mp h with h | h
  · rcases (Bool.or_eq_true _ _).mp h with h | h
    · exact Or.inl (hrange 65 90 (of_decide_eq_true h))
    · exact Or.inr (Or.inl (hrange 97 122 (hboth 97 122 h)))
  · exact Or.inr (Or.inr (hrange 48 57 (hboth 48 57 h)))

theorem encode_cons (c : Char) (text : List Char) :
    encode (c :: text) = encodeChar c ++ encode text := rfl

/-- Texts in a row are encoded in a row. -/
theorem encode_append (first second : List Char) :
    encode (first ++ second) = encode first ++ encode second :=
  List.flatMap_append

theorem encodeChar_ne_nil (c : Char) : encodeChar c ≠ [] := by
  simp only [encodeChar]
  repeat' split
  all_goals exact List.cons_ne_nil _ _

theorem encodeChar_ascii {c : Char} (h : c.toNat < 128) : encodeChar c = [UInt8.ofNat c.toNat] := by
  simp only [encodeChar, if_pos h]

/-- All bytes of a character outside ASCII are outside ASCII. -/
theorem le_of_mem_encodeChar {c : Char} (hc : 128 ≤ c.toNat) {b : UInt8}
    (hb : b ∈ encodeChar c) : 128 ≤ b.toNat := by
  have hvalid : c.toNat < 0xD800 ∨ (0xDFFF < c.toNat ∧ c.toNat < 0x110000) := c.valid
  simp only [encodeChar, if_neg (show ¬ c.toNat < 0x80 by omega)] at hb
  generalize c.toNat = n at hc hb hvalid
  split at hb
  · simp only [List.mem_cons, List.not_mem_nil, or_false] at hb
    rcases hb with rfl | rfl <;> rw [toNat_ofNat_of_lt (by omega)] <;> omega
  · split at hb
    · simp only [List.mem_cons, List.not_mem_nil, or_false] at hb
      rcases hb with rfl | rfl | rfl <;> rw [toNat_ofNat_of_lt (by omega)] <;> omega
    · simp only [List.mem_cons, List.not_mem_nil, or_false] at hb
      rcases hb with rfl | rfl | rfl | rfl <;> rw [toNat_ofNat_of_lt (by omega)] <;> omega

/-- The bytes of one character are read as that character. -/
theorem sequencesAfter_encodeChar (c : Char) (rest : Bytes) :
    sequencesAfter 0 (encodeChar c ++ rest) = some c :: sequencesAfter 0 rest := by
  -- a code point is no surrogate, which bounds the second byte of three
  have hvalid : c.toNat < 0xD800 ∨ (0xDFFF < c.toNat ∧ c.toNat < 0x110000) := c.valid
  have hc : Char.ofNat c.toNat = c := Char.ofNat_toNat c
  unfold encodeChar
  generalize c.toNat = n at hvalid hc
  subst hc
  simp only
  split
  next h =>
    simp only [List.cons_append, List.nil_append, sequencesAfter, decodeSequence,
      toNat_ofNat_of_lt (show n < 256 by omega), if_pos h]
  next h1 =>
  split
  next h =>
    have ha : (UInt8.ofNat (0xC0 + n / 64)).toNat = 0xC0 + n / 64 := toNat_ofNat_of_lt (by omega)
    have hb : (UInt8.ofNat (0x80 + n % 64)).toNat = 0x80 + n % 64 := toNat_ofNat_of_lt (by omega)
    simp only [List.cons_append, List.nil_append, sequencesAfter, decodeSequence, ha, hb,
      isContinuation_ofNat, if_true]
    rw [if_neg (by omega), if_pos (by simp; omega)]
    simp only [sequencesAfter, show (192 + n / 64) % 32 * 64 + (128 + n % 64) % 64 = n by omega]
  next h2 =>
  split
  next h =>
    have ha : (UInt8.ofNat (0xE0 + n / 4096)).toNat = 0xE0 + n / 4096 :=
      toNat_ofNat_of_lt (by omega)
    have hb : (UInt8.ofNat (0x80 + n / 64 % 64)).toNat = 0x80 + n / 64 % 64 :=
      toNat_ofNat_of_lt (by omega)
    have hd : (UInt8.ofNat (0x80 + n % 64)).toNat = 0x80 + n % 64 := toNat_ofNat_of_lt (by omega)
    have hopens : opensThree (0xE0 + n / 4096) (0x80 + n / 64 % 64) = true := by
      unfold opensThree
      split
      · simp_all; omega
      · split <;> simp_all <;> omega
    simp only [List.cons_append, List.nil_append, sequencesAfter, decodeSequence, ha, hb, hd,
      isContinuation_ofNat, hopens, if_true]
    rw [if_neg (by omega), if_neg (by simp; omega), if_pos (by simp; omega), if_neg (by simp)]
    simp only [sequencesAfter, show ((224 + n / 4096) % 16 * 64 + (128 + n / 64 % 64) % 64) * 64 +
      (128 + n % 64) % 64 = n by omega]
  next h3 =>
    have ha : (UInt8.ofNat (0xF0 + n / 262144)).toNat = 0xF0 + n / 262144 :=
      toNat_ofNat_of_lt (by omega)
    have hb : (UInt8.ofNat (0x80 + n / 4096 % 64)).toNat = 0x80 + n / 4096 % 64 :=
      toNat_ofNat_of_lt (by omega)
    have hd : (UInt8.ofNat (0x80 + n / 64 % 64)).toNat = 0x80 + n / 64 % 64 :=
      toNat_ofNat_of_lt (by omega)
    have he : (UInt8.ofNat (0x80 + n % 64)).toNat = 0x80 + n % 64 := toNat_ofNat_of_lt (by omega)
    have hopens : opensFour (0xF0 + n / 262144) (0x80 + n / 4096 % 64) = true := by
      unfold opensFour
      split
      · simp_all; omega
      · split <;> simp_all <;> omega
    simp only [List.cons_append, List.nil_append, sequencesAfter, decodeSequence, ha, hb, hd, he,
      isContinuation_ofNat, hopens, if_true]
    rw [if_neg (by omega), if_neg (by simp; omega), if_neg (by simp; omega),
      if_pos (by simp; omega), if_neg (by simp), if_neg (by simp)]
    simp only [sequencesAfter, show (((240 + n / 262144) % 8 * 64 + (128 + n / 4096 % 64) % 64) * 64
      + (128 + n / 64 % 64) % 64) * 64 + (128 + n % 64) % 64 = n by omega]

/-- An encoded text is cut at its characters. -/
theorem sequences_encode (text : List Char) : sequences (encode text) = text.map some := by
  induction text with
  | nil => rfl
  | cons c rest ih =>
      rw [sequences] at ih ⊢
      rw [encode_cons, sequencesAfter_encodeChar, ih, List.map_cons]

/-- An encoded text is decoded to the text. -/
theorem decode?_encode (text : List Char) : decode? (encode text) = some text := by
  rw [decode?, sequences_encode]
  induction text with
  | nil => rfl
  | cons c rest ih => simp_all

/-- Decoding that replaces what is wrong has nothing to replace in an encoded text. -/
theorem decodeLossy_encode (text : List Char) : decodeLossy (encode text) = text := by
  rw [decodeLossy, sequences_encode, List.map_map]
  simp [Function.comp_def]

/-! ## Well-formed bytes -/

theorem toNat_charOfNat {n : Nat} (h : n.isValidChar) :
    (Char.ofNat n).toNat = n := by
  rw [Char.ofNat, dif_pos h]
  rfl

theorem ofNat_eq_of_toNat {n : Nat} {b : UInt8} (h : n = b.toNat) : UInt8.ofNat n = b := by
  rw [h, UInt8.ofNat_toNat]

/-- A continuation byte is in the lower half of those outside ASCII. -/
theorem toNat_of_isContinuation {b : UInt8} (h : isContinuation b = true) :
    0x80 ≤ b.toNat ∧ b.toNat ≤ 0xBF := by
  rw [isContinuation, beq_iff_eq] at h
  omega

/-- The second of three bytes makes the form neither overlong nor a surrogate. -/
theorem toNat_of_opensThree {a b : Nat} (h : opensThree a b = true) :
    0x80 ≤ b ∧ b ≤ 0xBF ∧ (a = 0xE0 → 0xA0 ≤ b) ∧ (a = 0xED → b ≤ 0x9F) := by
  simp only [opensThree, beq_iff_eq] at h
  split at h
  · simp only [Bool.and_eq_true, decide_eq_true_eq] at h
    omega
  · split at h <;> simp only [Bool.and_eq_true, decide_eq_true_eq] at h <;> omega

/-- The second of four bytes makes the form neither overlong nor too large. -/
theorem toNat_of_opensFour {a b : Nat} (h : opensFour a b = true) :
    0x80 ≤ b ∧ b ≤ 0xBF ∧ (a = 0xF0 → 0x90 ≤ b) ∧ (a = 0xF4 → b ≤ 0x8F) := by
  simp only [opensFour, beq_iff_eq] at h
  split at h
  · simp only [Bool.and_eq_true, decide_eq_true_eq] at h
    omega
  · split at h <;> simp only [Bool.and_eq_true, decide_eq_true_eq] at h <;> omega

/-- A sequence of two bytes is the encoding of the character it stands for. -/
theorem encodeChar_two {a b : UInt8} (ha : 0xC2 ≤ a.toNat ∧ a.toNat ≤ 0xDF)
    (hb : isContinuation b = true) :
    encodeChar (Char.ofNat (a.toNat % 32 * 64 + b.toNat % 64)) = [a, b] := by
  have hb := toNat_of_isContinuation hb
  have hn : (Char.ofNat (a.toNat % 32 * 64 + b.toNat % 64)).toNat =
      a.toNat % 32 * 64 + b.toNat % 64 := toNat_charOfNat (.inl (by omega))
  rw [encodeChar, hn, if_neg (by omega), if_pos (by omega)]
  rw [show UInt8.ofNat _ = a from ofNat_eq_of_toNat (by omega),
    show UInt8.ofNat _ = b from ofNat_eq_of_toNat (by omega)]

/-- A sequence of three bytes is the encoding of the character it stands for. -/
theorem encodeChar_three {a b c : UInt8} (ha : 0xE0 ≤ a.toNat ∧ a.toNat ≤ 0xEF)
    (hb : opensThree a.toNat b.toNat = true) (hc : isContinuation c = true) :
    encodeChar (Char.ofNat ((a.toNat % 16 * 64 + b.toNat % 64) * 64 + c.toNat % 64)) =
      [a, b, c] := by
  have hb := toNat_of_opensThree hb
  have hc := toNat_of_isContinuation hc
  have hn : (Char.ofNat ((a.toNat % 16 * 64 + b.toNat % 64) * 64 + c.toNat % 64)).toNat =
      (a.toNat % 16 * 64 + b.toNat % 64) * 64 + c.toNat % 64 := by
    refine toNat_charOfNat ?_
    rw [Nat.isValidChar]
    omega
  rw [encodeChar, hn, if_neg (by omega), if_neg (by omega), if_pos (by omega)]
  rw [show UInt8.ofNat _ = a from ofNat_eq_of_toNat (by omega),
    show UInt8.ofNat _ = b from ofNat_eq_of_toNat (by omega),
    show UInt8.ofNat _ = c from ofNat_eq_of_toNat (by omega)]

/-- A sequence of four bytes is the encoding of the character it stands for. -/
theorem encodeChar_four {a b c d : UInt8} (ha : 0xF0 ≤ a.toNat ∧ a.toNat ≤ 0xF4)
    (hb : opensFour a.toNat b.toNat = true) (hc : isContinuation c = true)
    (hd : isContinuation d = true) :
    encodeChar (Char.ofNat (((a.toNat % 8 * 64 + b.toNat % 64) * 64 + c.toNat % 64) * 64
      + d.toNat % 64)) = [a, b, c, d] := by
  have hb := toNat_of_opensFour hb
  have hc := toNat_of_isContinuation hc
  have hd := toNat_of_isContinuation hd
  have hn : (Char.ofNat (((a.toNat % 8 * 64 + b.toNat % 64) * 64 + c.toNat % 64) * 64
      + d.toNat % 64)).toNat = ((a.toNat % 8 * 64 + b.toNat % 64) * 64 + c.toNat % 64) * 64
      + d.toNat % 64 := by
    refine toNat_charOfNat ?_
    rw [Nat.isValidChar]
    omega
  rw [encodeChar, hn, if_neg (by omega), if_neg (by omega), if_neg (by omega)]
  rw [show UInt8.ofNat _ = a from ofNat_eq_of_toNat (by omega),
    show UInt8.ofNat _ = b from ofNat_eq_of_toNat (by omega),
    show UInt8.ofNat _ = c from ofNat_eq_of_toNat (by omega),
    show UInt8.ofNat _ = d from ofNat_eq_of_toNat (by omega)]

/-- Bytes that are read as a character begin with the bytes of that character. -/
theorem encodeChar_of_decodeSequence {first : UInt8} {rest : Bytes} {c : Char} {taken : Nat}
    (h : decodeSequence first rest = (some c, taken)) :
    encodeChar c ++ rest.drop taken = first :: rest := by
  have hpair : ∀ {d : Char} {n : Nat}, (some d, n) = (some c, taken) → c = d ∧ taken = n := by
    intro d n heq
    cases heq
    exact ⟨rfl, rfl⟩
  simp only [decodeSequence] at h
  -- One case for each length of a sequence, and in it each byte is tested in turn.
  split at h
  next ha =>
    obtain ⟨rfl, rfl⟩ := hpair h
    have hn : (Char.ofNat first.toNat).toNat = first.toNat :=
      toNat_charOfNat (.inl (by omega))
    rw [encodeChar_ascii (by omega), hn, UInt8.ofNat_toNat]
    rfl
  next =>
  split at h
  next ha =>
    simp only [Bool.and_eq_true, decide_eq_true_eq] at ha
    split at h
    next b more =>
      split at h
      next hb =>
        obtain ⟨rfl, rfl⟩ := hpair h
        rw [encodeChar_two ha hb]
        rfl
      next => cases h
    next => cases h
  next =>
  split at h
  next ha =>
    simp only [Bool.and_eq_true, decide_eq_true_eq] at ha
    split at h
    next b more =>
      split at h
      next => cases h
      next hb =>
        split at h
        next c more =>
          split at h
          next hc =>
            obtain ⟨rfl, rfl⟩ := hpair h
            rw [encodeChar_three ha (by simpa using hb) hc]
            rfl
          next => cases h
        next => cases h
    next => cases h
  next =>
  split at h
  next ha =>
    simp only [Bool.and_eq_true, decide_eq_true_eq] at ha
    split at h
    next b more =>
      split at h
      next => cases h
      next hb =>
        split at h
        next c more =>
          split at h
          next => cases h
          next hc =>
            split at h
            next d more =>
              split at h
              next hd =>
                obtain ⟨rfl, rfl⟩ := hpair h
                rw [encodeChar_four ha (by simpa using hb) (by simpa using hc) hd]
                rfl
              next => cases h
            next => cases h
        next => cases h
    next => cases h
  next => cases h

theorem sequencesAfter_eq_drop (taken : Nat) (bytes : Bytes) :
    sequencesAfter taken bytes = sequences (bytes.drop taken) := by
  induction bytes generalizing taken with
  | nil => cases taken <;> rfl
  | cons b rest ih =>
      cases taken with
      | zero => rfl
      | succ taken => rw [sequencesAfter, ih, List.drop_succ_cons]

/-- Bytes that are cut into characters are the encoding of these. -/
theorem encode_of_sequences {text : List Char} {bytes : Bytes}
    (h : sequences bytes = text.map some) : encode text = bytes := by
  induction text generalizing bytes with
  | nil =>
      cases bytes with
      | nil => rfl
      | cons first rest => simp [sequences, sequencesAfter] at h
  | cons c text ih =>
      cases bytes with
      | nil => simp [sequences, sequencesAfter] at h
      | cons first rest =>
          rw [sequences, sequencesAfter, List.map_cons, List.cons.injEq] at h
          rw [encode_cons, ih (sequencesAfter_eq_drop _ _ ▸ h.2)]
          exact encodeChar_of_decodeSequence (Prod.ext h.1 rfl)

/-- Options have a list of values if each has one. -/
theorem eq_map_some_of_mapM {α : Type} {items : List (Option α)} {values : List α}
    (h : items.mapM id = some values) : items = values.map some := by
  induction items generalizing values with
  | nil =>
      rw [List.mapM_nil] at h
      cases h
      rfl
  | cons item rest ih =>
      rw [List.mapM_cons, Option.bind_eq_bind, Option.bind_eq_some_iff] at h
      obtain ⟨value, rfl, h⟩ := h
      rw [Option.bind_eq_bind, Option.bind_eq_some_iff] at h
      obtain ⟨others, hothers, h⟩ := h
      cases h
      rw [ih hothers, List.map_cons]

/-- Bytes are read as a text only if they are the bytes of that text. -/
theorem decode?_eq_some_iff {bytes : Bytes} {text : List Char} :
    decode? bytes = some text ↔ bytes = encode text := by
  constructor
  · intro h
    exact (encode_of_sequences (eq_map_some_of_mapM h)).symm
  · rintro rfl
    exact decode?_encode text

/-- Bytes are those of a text exactly if they decode to it. -/
theorem ofBytes?_eq_some_iff {bytes : Bytes} {text : String} :
    ofBytes? bytes = some text ↔ bytes = bytesOf text := by
  rw [ofBytes?, Option.map_eq_some_iff]
  constructor
  · rintro ⟨characters, h, rfl⟩
    rw [decode?_eq_some_iff.mp h, bytesOf, String.toList_ofList]
  · rintro rfl
    exact ⟨text.toList, decode?_encode _, String.ofList_toList⟩

end RowFilter.Text
