import Mathlib.Data.List.Forall2
import Mathlib.Data.List.Infix
import RowFilter.Proofs.Directory.FilterReading
import RowFilter.Proofs.Outcome

/-!
# The grammar of search filters

What a search filter is made of, byte by byte: brackets that are balanced, lists of one filter or
more, items with a name, and assertion values with escapes. The grammar leaves open which two
characters after a backslash stand for a byte. It is strict if these are hexadecimal digits.
-/

namespace RowFilter.Directory.SearchFilter

open Text

/-! ## Values -/

/-- The byte of two hexadecimal digits. -/
def hexPair? (high low : UInt8) : Option UInt8 :=
  (hexValue? high).bind fun h => (hexValue? low).map fun l => UInt8.ofNat (h * 16 + l)

variable {escape : UInt8 → UInt8 → Option UInt8}

/-- The bytes that the text of a value stands for: each backslash and the two characters after it
for one byte, all else for itself. -/
inductive Unescapes (escape : UInt8 → UInt8 → Option UInt8) : Bytes → Bytes → Prop
  | nil : Unescapes escape [] []
  | plain {b : UInt8} (hb : b ≠ byteOf '\\') {text content : Bytes}
      (h : Unescapes escape text content) : Unescapes escape (b :: text) (b :: content)
  | escaped {high low b : UInt8} (hb : escape high low = some b) {text content : Bytes}
      (h : Unescapes escape text content) :
      Unescapes escape (byteOf '\\' :: high :: low :: text) (b :: content)

/-- What a relation to the text of a value asserts. Only equality knows patterns: an asterisk
alone asks for presence, and others stand between the chunks of a substring assertion, of which
the empty ones are left out. -/
inductive Asserts (escape : UInt8 → UInt8 → Option UInt8) (name : String) :
    Relation → Bytes → SearchFilter → Prop
  | greaterOrEqual {text content : Bytes} (h : Unescapes escape text content) :
      Asserts escape name .greaterOrEqual text (.greaterOrEqual name content)
  | lessOrEqual {text content : Bytes} (h : Unescapes escape text content) :
      Asserts escape name .lessOrEqual text (.lessOrEqual name content)
  | approximate {text content : Bytes} (h : Unescapes escape text content) :
      Asserts escape name .approximate text (.equal name content)
  | equal {text content : Bytes} (hstar : byteOf '*' ∉ text) (h : Unescapes escape text content) :
      Asserts escape name .equal text (.equal name content)
  | present : Asserts escape name .equal [byteOf '*'] (.present name)
  | substring {texts contents : List Bytes} (hmany : 2 ≤ texts.length)
      (hlone : texts ≠ [[], []]) (hstar : ∀ text ∈ texts, byteOf '*' ∉ text)
      (h : List.Forall₂ (Unescapes escape) texts contents) :
      Asserts escape name .equal ([byteOf '*'].intercalate texts) (ofChunks name contents)

/-! ## Filters -/

/-- Bytes that spell an attribute name, with white space around it or without. -/
structure SpellsName (spelled : Bytes) (name : String) : Prop where
  trimmed : ∃ text, spelled = encode text ∧ name.toList = trim text
  ne_empty : name.toList ≠ []
  ends : ∀ b ∈ spelled, endsName b = false
  begins : ∀ c ∈ ['&', '|', '!'], spelled.head? ≠ some (byteOf c)

def inBrackets (bytes : Bytes) : Bytes :=
  byteOf '(' :: (bytes ++ [byteOf ')'])

/-- The bytes between the brackets of a filter. -/
inductive Spells (escape : UInt8 → UInt8 → Option UInt8) : Bytes → SearchFilter → Prop
  | and {items : List (Bytes × SearchFilter)} (hne : items ≠ [])
      (h : ∀ item ∈ items, Spells escape item.1 item.2) :
      Spells escape (byteOf '&' :: items.flatMap fun item => inBrackets item.1)
        (.and (items.map Prod.snd))
  | or {items : List (Bytes × SearchFilter)} (hne : items ≠ [])
      (h : ∀ item ∈ items, Spells escape item.1 item.2) :
      Spells escape (byteOf '|' :: items.flatMap fun item => inBrackets item.1)
        (.or (items.map Prod.snd))
  | not {bytes : Bytes} {filter : SearchFilter} (h : Spells escape bytes filter) :
      Spells escape (byteOf '!' :: inBrackets bytes) (.not filter)
  | item {spelled : Bytes} {name : String} (hname : SpellsName spelled name) (sign : Relation)
      {value : Bytes} (hvalue : ∀ b ∈ value, endsValue b = false) {filter : SearchFilter}
      (h : Asserts escape name sign value filter) :
      Spells escape (spelled ++ (encode sign.symbol ++ value)) filter

variable {bytes front back word spelled value text content : Bytes} {name : String}
  {filter : SearchFilter} {sign : Relation} {b : UInt8}

theorem endsValue_of_endsName (h : endsName b = false) : endsValue b = false := by
  rw [endsName, List.any_eq_false] at h
  simp only [endsValue, Bool.or_eq_false_iff, beq_eq_false_iff_ne]
  exact ⟨by simpa using h '(' (by simp), by simpa using h ')' (by simp)⟩

theorem endsValue_of_mem_symbol (h : b ∈ encode sign.symbol) : endsValue b = false := by
  have hall : ∀ b ∈ encode sign.symbol, endsValue b = false :=
    List.all_iff_forall_prop.mp (by cases sign <;> decide)
  exact hall b h

/-- There is no bracket in an item. -/
theorem SpellsName.endsValue_eq_false (hname : SpellsName spelled name)
    (hvalue : ∀ b ∈ value, endsValue b = false) :
    ∀ b ∈ spelled ++ (encode sign.symbol ++ value), endsValue b = false := by
  simp only [List.forall_mem_append]
  exact ⟨fun b hb => endsValue_of_endsName (hname.ends b hb),
    fun b hb => endsValue_of_mem_symbol hb, hvalue⟩

/-! ## Balanced brackets -/

/-- Every closing bracket has an opening bracket before it, and every opening bracket is closed. -/
structure Balanced (bytes : Bytes) : Prop where
  opened : ∀ front, front <+: bytes → front.count (byteOf ')') ≤ front.count (byteOf '(')
  closed : bytes.count (byteOf ')') = bytes.count (byteOf '(')

/-- Bytes without brackets are balanced. -/
theorem Balanced.of_forall (h : ∀ b ∈ bytes, endsValue b = false) : Balanced bytes := by
  have hclose : bytes.count (byteOf ')') = 0 :=
    List.count_eq_zero.mpr fun hmem => absurd (h _ hmem) (by decide)
  have hopen : bytes.count (byteOf '(') = 0 :=
    List.count_eq_zero.mpr fun hmem => absurd (h _ hmem) (by decide)
  refine ⟨fun front hfront => ?_, by rw [hclose, hopen]⟩
  have hcount := hfront.sublist.count_le (byteOf ')')
  omega

theorem prefix_of_append {front a b : Bytes} (h : front <+: a ++ b) :
    front <+: a ∨ ∃ back, front = a ++ back ∧ back <+: b := by
  rcases List.prefix_or_prefix_of_prefix h (List.prefix_append a b) with hfront | ⟨back, rfl⟩
  · exact .inl hfront
  · exact .inr ⟨back, rfl, (List.prefix_append_right_inj a).mp h⟩

/-- Two balanced texts in a row are balanced. -/
theorem Balanced.append (hfront : Balanced front) (hback : Balanced back) :
    Balanced (front ++ back) := by
  constructor
  · intro start hstart
    rcases prefix_of_append hstart with hstart | ⟨rest, rfl, hrest⟩
    · exact hfront.opened start hstart
    · have hopened := hback.opened rest hrest
      have hclosed := hfront.closed
      rw [List.count_append, List.count_append]
      omega
  · rw [List.count_append, List.count_append, hfront.closed, hback.closed]

/-- Brackets around a balanced text are balanced. -/
theorem Balanced.inBrackets (h : Balanced bytes) : Balanced (inBrackets bytes) := by
  have hopening : List.count (byteOf ')') [byteOf '('] = 0 := by decide
  have hne : byteOf '(' ≠ byteOf ')' := by decide
  constructor
  · intro start hstart
    rcases List.prefix_cons_iff.mp hstart with rfl | ⟨rest, rfl, hrest⟩
    · simp
    · rw [List.count_cons_of_ne hne, List.count_cons_self]
      rcases prefix_of_append hrest with hrest | ⟨last, rfl, hlast⟩
      · have hopened := h.opened rest hrest
        omega
      · have hclosed := h.closed
        have hcount := hlast.sublist.count_le (byteOf ')')
        rw [List.count_singleton_self] at hcount
        rw [List.count_append, List.count_append]
        omega
  · have hclosed := h.closed
    simp only [SearchFilter.inBrackets, List.count_cons_of_ne hne, List.count_cons_self,
      List.count_append, List.count_cons_of_ne hne.symm, List.count_nil]
    omega

theorem Balanced.flatMap {items : List (Bytes × SearchFilter)}
    (h : ∀ item ∈ items, Balanced item.1) :
    Balanced (items.flatMap fun item => SearchFilter.inBrackets item.1) := by
  induction items with
  | nil => exact .of_forall (by simp)
  | cons item rest ih =>
    rw [List.forall_mem_cons] at h
    rw [List.flatMap_cons]
    exact h.left.inBrackets.append (ih h.right)

/-- The brackets of a filter are balanced. -/
theorem Spells.balanced (h : Spells escape bytes filter) : Balanced bytes := by
  have hmark {c : Char} (hc : endsValue (byteOf c) = false) {rest : Bytes}
      (hrest : Balanced rest) : Balanced (byteOf c :: rest) := by
    rw [← List.singleton_append]
    exact (Balanced.of_forall (by simpa using hc)).append hrest
  induction h with
  | and hne h ih => exact hmark (by decide) (.flatMap ih)
  | or hne h ih => exact hmark (by decide) (.flatMap ih)
  | not h ih => exact hmark (by decide) ih.inBrackets
  | item hname sign hvalue h => exact .of_forall (hname.endsValue_eq_false hvalue)

/-! ## Signs in escapes -/

/-- A backslash in front of a plus sign. -/
def signedEscape : Bytes :=
  [byteOf '\\', byteOf '+']

/-- In an assertion value, which is what follows an equals sign up to a bracket, a backslash stands
in front of a plus sign. -/
def HasSignedEscape (bytes : Bytes) : Prop :=
  ∃ before : Bytes, (∀ b ∈ before, endsValue b = false) ∧
    byteOf '=' :: (before ++ signedEscape) <:+: bytes

/-- A word without the separator lies on one side of it. -/
theorem infix_append_cons {sep : UInt8} (h : sep ∉ word) :
    word <:+: front ++ sep :: back ↔ word <:+: front ∨ word <:+: back := by
  have hstart {rest : Bytes} (hrest : rest <+: sep :: back) (hsep : sep ∉ rest) : rest = [] := by
    rcases List.prefix_cons_iff.mp hrest with hnil | ⟨_, rfl, -⟩
    · exact hnil
    · exact absurd List.mem_cons_self hsep
  constructor
  · rw [List.infix_append_iff, List.infix_cons_iff]
    rintro (hword | (hword | hword) | ⟨first, second, rfl, hfirst, hsecond⟩)
    · exact .inl hword
    · exact .inl (hstart hword h ▸ List.nil_infix)
    · exact .inr hword
    · rw [hstart hsecond fun hsep => h (List.mem_append_right first hsep), List.append_nil]
      exact .inl hfirst.isInfix
  · rintro (hword | hword)
    · exact hword.trans (List.prefix_append _ _).isInfix
    · exact hword.trans ((List.suffix_cons sep back).trans (List.suffix_append _ _)).isInfix

/-- A word without the separator lies in one of the pieces between separators. -/
theorem infix_intercalate {sep : UInt8} (h : sep ∉ word) (hword : word ≠ [])
    {pieces : List Bytes} :
    word <:+: [sep].intercalate pieces ↔ ∃ piece ∈ pieces, word <:+: piece := by
  induction pieces with
  | nil => simpa using hword
  | cons piece rest ih =>
    cases rest with
    | nil => simp
    | cons second more =>
      rw [List.intercalate_cons_cons, List.append_assoc, List.singleton_append,
        infix_append_cons h, ih]
      simp

theorem signedEscape_infix_cons (h : b ≠ byteOf '\\') :
    signedEscape <:+: b :: text ↔ signedEscape <:+: text := by
  rw [List.infix_cons_iff, or_iff_right_iff_imp]
  intro hstarts
  rw [signedEscape, List.cons_prefix_cons] at hstarts
  exact absurd hstarts.left.symm h

/-- The digits of an escape are read strictly unless a sign stands before the second. -/
theorem hexByte?_of_ne {high low : UInt8} (h : high ≠ byteOf '+') :
    hexByte? high low = hexPair? high low := by
  rw [hexByte?, hexPair?]
  cases hexValue? low <;> cases hexValue? high <;> simp [h]

/-- Neither of two hexadecimal digits is another character. -/
theorem ne_of_hexPair? {high low : UInt8} (h : hexPair? high low = some b) {other : UInt8}
    (hother : hexValue? other = none) : high ≠ other ∧ low ≠ other := by
  constructor
  · rintro rfl
    simp [hexPair?, hother] at h
  · rintro rfl
    simp [hexPair?, hother] at h

/-- Hexadecimal digits are no signs. -/
theorem Unescapes.not_signedEscape (h : Unescapes hexPair? text content) :
    ¬signedEscape <:+: text := by
  induction h with
  | nil => simp [signedEscape]
  | plain hb h ih => rwa [signedEscape_infix_cons hb]
  | @escaped high low b hb text content h ih =>
    have hslash : hexValue? (byteOf '\\') = none := by decide
    have hsign : hexValue? (byteOf '+') = none := by decide
    obtain ⟨hhigh, hlow⟩ := ne_of_hexPair? hb hslash
    obtain ⟨hplus, -⟩ := ne_of_hexPair? hb hsign
    rw [List.infix_cons_iff, signedEscape_infix_cons hhigh, signedEscape_infix_cons hlow]
    rintro (hstarts | hwithin)
    · rw [signedEscape, List.cons_prefix_cons, List.cons_prefix_cons] at hstarts
      exact hplus hstarts.right.left.symm
    · exact ih hwithin

/-- Where no sign follows a backslash, two digits do. -/
theorem Unescapes.strict (h : Unescapes hexByte? text content)
    (hsign : ¬signedEscape <:+: text) : Unescapes hexPair? text content := by
  induction h with
  | nil => exact .nil
  | plain hb h ih => exact .plain hb (ih (by rwa [signedEscape_infix_cons hb] at hsign))
  | @escaped high low b hb text content h ih =>
    have hplus : high ≠ byteOf '+' := by
      rintro rfl
      exact hsign (List.prefix_append signedEscape (low :: text)).isInfix
    rw [hexByte?_of_ne hplus] at hb
    refine .escaped hb (ih fun hwithin => hsign ?_)
    exact hwithin.trans (List.suffix_append [byteOf '\\', high, low] text).isInfix

theorem signedEscape_notMem : byteOf '*' ∉ signedEscape := by
  decide

/-- By the strict rules no value has a signed escape in it. -/
theorem Asserts.not_signedEscape (h : Asserts hexPair? name sign value filter) :
    ¬signedEscape <:+: value := by
  induction h with
  | greaterOrEqual h | lessOrEqual h | approximate h => exact h.not_signedEscape
  | equal hstar h => exact h.not_signedEscape
  | present => decide
  | substring hmany hlone hstar h =>
    obtain ⟨hnot, -⟩ := (List.forall₂_and_left _ _).mp
      (h.imp fun text content hread => ⟨hread.not_signedEscape, hread⟩)
    rw [infix_intercalate signedEscape_notMem (List.cons_ne_nil _ _)]
    rintro ⟨text, htext, hwithin⟩
    exact hnot text htext hwithin

/-- Without signed escapes, what a value asserts is asserted by the strict rules. -/
theorem Asserts.strict (h : Asserts hexByte? name sign value filter)
    (hsign : ¬signedEscape <:+: value) : Asserts hexPair? name sign value filter := by
  induction h with
  | greaterOrEqual h => exact .greaterOrEqual (h.strict hsign)
  | lessOrEqual h => exact .lessOrEqual (h.strict hsign)
  | approximate h => exact .approximate (h.strict hsign)
  | equal hstar h => exact .equal hstar (h.strict hsign)
  | present => exact .present
  | substring hmany hlone hstar h =>
    rw [infix_intercalate signedEscape_notMem (List.cons_ne_nil _ _)] at hsign
    refine .substring hmany hlone hstar (forall₂_imp_of_mem h fun text htext _ _ hread => ?_)
    exact hread.strict fun hwithin => hsign ⟨text, htext, hwithin⟩

/-! ## Signs in filters -/

/-- No signed escape crosses a byte that ends a value. -/
theorem hasSignedEscape_append_cons (hb : endsValue b = true) :
    HasSignedEscape (front ++ b :: back) ↔ HasSignedEscape front ∨ HasSignedEscape back := by
  have hnot {before : Bytes} (h : ∀ b ∈ before, endsValue b = false) :
      b ∉ byteOf '=' :: (before ++ signedEscape) := by
    have hmark : ∀ b ∈ byteOf '=' :: signedEscape, endsValue b = false :=
      List.all_iff_forall_prop.mp (by decide)
    intro hmem
    rw [List.mem_cons, List.mem_append, or_left_comm, ← List.mem_cons] at hmem
    rcases hmem with hmem | hmem
    · simp [h b hmem] at hb
    · simp [hmark b hmem] at hb
  constructor
  · rintro ⟨before, hbefore, hwithin⟩
    exact ((infix_append_cons (hnot hbefore)).mp hwithin).imp (fun h => ⟨before, hbefore, h⟩)
      fun h => ⟨before, hbefore, h⟩
  · rintro (⟨before, hbefore, hwithin⟩ | ⟨before, hbefore, hwithin⟩)
    · exact ⟨before, hbefore, (infix_append_cons (hnot hbefore)).mpr (.inl hwithin)⟩
    · exact ⟨before, hbefore, (infix_append_cons (hnot hbefore)).mpr (.inr hwithin)⟩

theorem not_hasSignedEscape_nil : ¬HasSignedEscape [] := by
  rintro ⟨before, -, hwithin⟩
  simp at hwithin

theorem hasSignedEscape_cons (hb : b ≠ byteOf '=') :
    HasSignedEscape (b :: bytes) ↔ HasSignedEscape bytes := by
  refine exists_congr fun before => and_congr_right fun _ => ?_
  rw [List.infix_cons_iff, or_iff_right_iff_imp, List.cons_prefix_cons]
  exact fun hstarts => absurd hstarts.left.symm hb

theorem hasSignedEscape_append (hfront : byteOf '=' ∉ front) :
    HasSignedEscape (front ++ bytes) ↔ HasSignedEscape bytes := by
  induction front with
  | nil => rfl
  | cons b rest ih =>
    rw [List.mem_cons, not_or] at hfront
    rw [List.cons_append, hasSignedEscape_cons (Ne.symm hfront.left), ih hfront.right]

/-- Brackets around bytes neither make nor hide a signed escape. -/
theorem hasSignedEscape_inBrackets :
    HasSignedEscape (inBrackets bytes) ↔ HasSignedEscape bytes := by
  rw [inBrackets, hasSignedEscape_cons (by decide), hasSignedEscape_append_cons (by decide),
    or_iff_left not_hasSignedEscape_nil]

/-- Filters in a row have a signed escape exactly if one of them has. -/
theorem hasSignedEscape_flatMap {items : List (Bytes × SearchFilter)} :
    HasSignedEscape (items.flatMap fun item => inBrackets item.1) ↔
      ∃ item ∈ items, HasSignedEscape item.1 := by
  induction items with
  | nil => simpa using not_hasSignedEscape_nil
  | cons item rest ih =>
    rw [List.flatMap_cons, inBrackets, List.cons_append, List.append_assoc, List.singleton_append,
      hasSignedEscape_cons (by decide), hasSignedEscape_append_cons (by decide), ih]
    simp

/-- The value of an item is what follows its sign. -/
theorem SpellsName.hasSignedEscape_iff (hname : SpellsName spelled name)
    (hvalue : ∀ b ∈ value, endsValue b = false) :
    HasSignedEscape (spelled ++ (encode sign.symbol ++ value)) ↔ signedEscape <:+: value := by
  have hequals : HasSignedEscape (byteOf '=' :: value) ↔ signedEscape <:+: value := by
    constructor
    · rintro ⟨before, -, hwithin⟩
      have hword : signedEscape <:+: before ++ signedEscape := (List.suffix_append _ _).isInfix
      rcases List.infix_cons_iff.mp hwithin with hstarts | hwithin
      · rw [List.cons_prefix_cons] at hstarts
        exact hword.trans hstarts.right.isInfix
      · exact (hword.trans (List.suffix_cons _ _).isInfix).trans hwithin
    · rintro ⟨before, after, rfl⟩
      simp only [List.forall_mem_append] at hvalue
      exact ⟨before, hvalue.left.left, (List.prefix_append _ after).isInfix⟩
  have hfree : byteOf '=' ∉ spelled := fun hmem => absurd (hname.ends _ hmem) (by decide)
  rw [hasSignedEscape_append hfree]
  cases sign with
  | equal => exact hequals
  | greaterOrEqual | lessOrEqual | approximate =>
    exact (hasSignedEscape_cons (by decide)).trans hequals

/-- Read strictly, no value has a sign after a backslash. -/
theorem Spells.not_hasSignedEscape (h : Spells hexPair? bytes filter) :
    ¬HasSignedEscape bytes := by
  induction h with
  | and hne h ih | or hne h ih =>
    rw [hasSignedEscape_cons (by decide), hasSignedEscape_flatMap]
    rintro ⟨item, hitem, hsign⟩
    exact ih item hitem hsign
  | not h ih => rwa [hasSignedEscape_cons (by decide), hasSignedEscape_inBrackets]
  | item hname sign hvalue h =>
    rw [hname.hasSignedEscape_iff hvalue]
    exact h.not_signedEscape

/-- Without signs after backslashes a text is read strictly. -/
theorem Spells.strict (h : Spells hexByte? bytes filter) (hsign : ¬HasSignedEscape bytes) :
    Spells hexPair? bytes filter := by
  induction h with
  | and hne h ih =>
    rw [hasSignedEscape_cons (by decide), hasSignedEscape_flatMap] at hsign
    exact .and hne fun item hitem => ih item hitem fun h => hsign ⟨item, hitem, h⟩
  | or hne h ih =>
    rw [hasSignedEscape_cons (by decide), hasSignedEscape_flatMap] at hsign
    exact .or hne fun item hitem => ih item hitem fun h => hsign ⟨item, hitem, h⟩
  | not h ih =>
    rw [hasSignedEscape_cons (by decide), hasSignedEscape_inBrackets] at hsign
    exact .not (ih hsign)
  | item hname sign hvalue h =>
    rw [hname.hasSignedEscape_iff hvalue] at hsign
    exact .item hname sign hvalue (h.strict hsign)

end RowFilter.Directory.SearchFilter
