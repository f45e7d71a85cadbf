import RowFilter.Proofs.Directory.SubstringMatching
import RowFilter.Proofs.Directory.TemplateReading
import RowFilter.Proofs.Statement.Deferral
import RowFilter.Proofs.Text.LetterCase

/-! # Patterns in a directory

A pattern without single-character wildcards is asserted as the chunks between its runs. In lower
case ASCII, where the directory folds nothing, the assertion selects a value exactly if the pattern
matches it in memory.
-/

namespace RowFilter

namespace Text

/-- ASCII without capital letters. -/
def IsLowerAscii (text : List Char) : Prop :=
  ∀ c ∈ text, c.toNat < 128 ∧ c.isUpper = false

theorem isLower_of_ascii {c : Char} (h : c.toNat < 128) (hupper : c.isUpper = false) :
    IsLower c := by
  have hcapital : ¬(c.val ≥ 'A'.val ∧ c.val ≤ 'Z'.val) := of_decide_eq_false hupper
  constructor
  · rw [lowerChar, if_pos h]
    exact congrArg (fun folded => [folded]) (dif_neg hcapital)
  · rintro rfl
    exact absurd h (by decide)

theorem lower_of_isLowerAscii {text : List Char} (h : IsLowerAscii text) : lower text = text :=
  lower_of_isLower fun c hc => isLower_of_ascii (h c hc).1 (h c hc).2

end Text

namespace Directory

open Template SearchFilter

theorem foldedText_encode {text : List Char} (h : Text.IsLowerAscii text) :
    foldedText (Text.encode text) = text := by
  rw [foldedText, Text.decodeLossy_encode, Text.lower_of_isLowerAscii h]

theorem isPresent_of_values {entry : Entry} {name : String} {value : Bytes}
    (hvalue : entry.values? name = some [value]) : isPresent entry name = true := by
  rw [isPresent, hvalue]
  exact Bool.or_true _

/-- The item of two chunks or more selects an entry exactly if the pattern of the chunks fits the
value. -/
theorem selects_patternItem_iff {entry : Entry} {name : String} {value : Bytes}
    (hvalue : entry.values? name = some [value]) {first last : Bytes} {middle : List Bytes}
    (h : ∀ chunk ∈ first :: (middle ++ [last]), IsLiteral chunk) :
    (patternItem name (first :: (middle ++ [last]))).selects entry = true ↔
      Pattern.Fits (foldedText value)
        (['%'].intercalate ((first :: (middle ++ [last])).map foldedText)) := by
  simp only [List.forall_mem_cons, List.forall_mem_append, List.not_mem_nil, false_implies,
    implies_true, and_true] at h
  rw [← substringMatches_iff_fits h.1 h.2.1 h.2.2]
  unfold patternItem
  split
  next heq =>
    have hlength := congrArg List.length heq
    simp at hlength
  next heq =>
    -- Presence is asked for where the substring assertion would have nothing to find.
    cases middle with
    | nil =>
        cases heq
        refine iff_of_true ?_ rfl
        rw [selects, evaluate_present, isPresent_of_values hvalue]
        rfl
    | cons chunk more =>
        have hlength := congrArg List.length heq
        simp at hlength
  next =>
    rw [ofChunks, List.head?_cons, Option.bind_some, List.drop_succ_cons, List.drop_zero,
      List.dropLast_concat, ← List.cons_append, List.getLast?_concat, Option.bind_some,
      selects, evaluate, anyValue, hvalue]
    simp

/-- A pattern of lower case ASCII with a run and without single-character wildcards, cut at its
runs, selects the values that fit it. -/
theorem selects_pieces_iff {entry : Entry} {name : String} {value : Bytes}
    (hvalue : entry.values? name = some [value]) {pattern : List Char}
    (hpattern : Text.IsLowerAscii pattern) (hrun : '%' ∈ pattern) (hany : '_' ∉ pattern) :
    (patternItem name ((Text.pieces '%' pattern).map Text.encode)).selects entry = true ↔
      Pattern.Fits (foldedText value) pattern := by
  have hchunks : ∃ first middle last,
      (Text.pieces '%' pattern).map Text.encode = first :: (middle ++ [last]) := by
    obtain ⟨before, after, rfl, hbefore⟩ := List.eq_append_cons_of_mem hrun
    have hne : (Text.pieces '%' after).map Text.encode ≠ [] := by
      simpa using Text.pieces_ne_nil '%' after
    rw [Text.pieces_append_cons hbefore, List.map_cons]
    exact ⟨_, _, _, congrArg _ (List.dropLast_concat_getLast hne).symm⟩
  have hfolded : ∀ piece ∈ Text.pieces '%' pattern, foldedText (Text.encode piece) = piece :=
    fun piece hpiece => foldedText_encode fun c hc =>
      hpattern c (Text.mem_of_mem_pieces hpiece hc).2
  have hliteral : ∀ chunk ∈ (Text.pieces '%' pattern).map Text.encode, IsLiteral chunk := by
    refine List.forall_mem_map.mpr fun piece hpiece => ?_
    rw [IsLiteral, hfolded piece hpiece]
    exact ⟨fun hmem => (Text.mem_of_mem_pieces hpiece hmem).1 rfl,
      fun hmem => hany (Text.mem_of_mem_pieces hpiece hmem).2⟩
  have hjoined : ['%'].intercalate (((Text.pieces '%' pattern).map Text.encode).map foldedText) =
      pattern := by
    have hmap : ((Text.pieces '%' pattern).map Text.encode).map foldedText =
        Text.pieces '%' pattern := by
      rw [List.map_map]
      exact (List.map_congr_left hfolded).trans (List.map_id _)
    rw [hmap, Text.intercalate_pieces]
  obtain ⟨first, middle, last, hchunks⟩ := hchunks
  rw [hchunks] at hliteral hjoined ⊢
  rw [selects_patternItem_iff hvalue hliteral, hjoined]

/-- A pattern without single-character wildcards is written as its chunks. -/
theorem substring_lays {definition : Attribute} {pattern : String} (hany : '_' ∉ pattern.toList) :
    ∃ part, substring definition (.string pattern) = .ok part ∧
      part.Lays (Template.pattern definition.backendName
        ((Text.pieces '%' pattern.toList).map Text.encode)).text [] := by
  have hcontains : ¬ pattern.toList.contains '_' = true := by simpa using hany
  have hlays := Part.lays_ofText ("(" ++ definition.backendName ++ "=" ++
    String.ofList (patternAssertion pattern.toList) ++ ")") []
  rw [text_patternAssertion] at hlays
  refine ⟨_, ?_, hlays⟩
  rw [substring, show (Value.string pattern).coerceLiteral .string = .ok (.string pattern) from rfl]
  simp only [Bind.bind, Except.bind, if_neg hcontains]
  rfl

end Directory

namespace Filter

open Directory

variable {filter : Filter} {expr : Expr} {part : Part}

/-- A condition that is written as a pattern is read as the item of its chunks. -/
theorem reads_of_lays_pattern (hcompile : compilePart filter.backend filter.schema expr = .ok part)
    {name : String} (hname : SearchFilter.IsName name) (hplace : '?' ∉ name.toList)
    {chunks : List Bytes} (hne : chunks ≠ []) (h : part.Lays (Template.pattern name chunks).text [])
    (request : Request) : filter.Reads expr request (SearchFilter.patternItem name chunks) := by
  have hnotMem : '?' ∉ (Template.pattern name chunks).text := by
    have := Template.notMem_inner_pattern hplace chunks
    simpa [Template.text] using this
  have hbind : Directory.bind (String.ofList (Template.pattern name chunks).text) [] =
      .ok (String.ofList (Template.pattern name chunks).text) := by
    rw [Directory.bind, String.toList_ofList, bindChars_of_notMem hnotMem]
  refine ⟨_, _, _, compile_of_part hcompile, h _, hbind, ?_⟩
  rw [Template.text, Template.inner]
  exact (SearchFilter.spelled_chunks hname hne).parse

/-- A pattern with a run and without single-character wildcards, asserted of an attribute, selects
the entries whose one value of it the pattern matches in memory, if both are lower case ASCII and
there is no percent sign in the value. -/
theorem selects_like_iff_isMatch (hbackend : filter.backend = .directory) {path : String}
    {expected : ValueType} {definition : Attribute}
    (hattr : filter.schema.resolve path expected = .ok definition)
    (hname : SearchFilter.IsName definition.backendName)
    (hplace : '?' ∉ definition.backendName.toList) {pattern : String}
    (hpattern : Text.IsLowerAscii pattern.toList) (hrun : '%' ∈ pattern.toList)
    (hany : '_' ∉ pattern.toList) (type : ValueType) (request : Request) :
    ∃ parsed, filter.Reads (.binary .like (.reference path expected)
        (.literal (.string pattern) type)) request parsed ∧
      ∀ (entry : Entry) (text : String),
        entry.values? definition.backendName = some [Text.bytesOf text] →
        Text.IsLowerAscii text.toList → '%' ∉ text.toList →
        (parsed.selects entry = true ↔
          Pattern.isMatch text.toList pattern.toList = true) := by
  obtain ⟨part, hpart, hlays⟩ := @substring_lays definition pattern hany
  have hcompile : compilePart filter.backend filter.schema (.binary .like (.reference path expected)
      (.literal (.string pattern) type)) = .ok part := by
    refine compilePart_of_condition ?_
    rw [Compiler.compile_attr_literal hattr rfl, compiler, dialect, hbackend]
    exact congrArg (Except.map Compiled.condition) hpart
  have hne : (Text.pieces '%' pattern.toList).map Text.encode ≠ [] := by
    simpa using Text.pieces_ne_nil '%' pattern.toList
  refine ⟨_, reads_of_lays_pattern hcompile hname hplace hne hlays request, ?_⟩
  intro entry text hvalue htext hplain
  rw [selects_pieces_iff hvalue hpattern hrun hany, Pattern.isMatch_iff_fits hplain, Text.bytesOf,
    foldedText_encode htext]

private def plainText : Filter :=
  .new .directory [("a", ⟨"a", "a", .string, false, false⟩)]

private def textEntry (text : String) : Entry :=
  ⟨"cn=x", [("A", [Text.bytesOf text])]⟩

/-- Chunks do not overlap: the last letter of one is not the first of the next. -/
theorem selects_like_overlapping :
    ∃ parsed, plainText.Reads (.binary .like (.reference "object.a" .any)
        (.literal (.string "ab%%*b%ba") .string)) {} parsed ∧
      parsed.selects (textEntry "abb*b*bba") = true ∧
      parsed.selects (textEntry "ab*ba") = false := by
  have hattr : plainText.schema.resolve "object.a" .any =
      .ok ⟨"a", "a", .string, false, false⟩ := rfl
  have hname : IsPlainName "a" := ⟨by decide, List.all_iff_forall_prop.mp (by decide)⟩
  have hpattern : Text.IsLowerAscii "ab%%*b%ba".toList := List.all_iff_forall_prop.mp (by decide)
  have hlong : Text.IsLowerAscii "abb*b*bba".toList := List.all_iff_forall_prop.mp (by decide)
  have hshort : Text.IsLowerAscii "ab*ba".toList := List.all_iff_forall_prop.mp (by decide)
  have hbackend : plainText.backend = .directory := rfl
  obtain ⟨parsed, hreads, hselects⟩ := selects_like_iff_isMatch hbackend hattr hname.isName
    (by decide) hpattern (by decide) (by decide) .string {}
  refine ⟨parsed, hreads, ?_, ?_⟩
  · rw [hselects (textEntry "abb*b*bba") "abb*b*bba" (by decide) hlong (by decide)]
    simp [Pattern.isMatch, Pattern.advance, Pattern.matchesWithin]
  · rw [Bool.eq_false_iff, ne_eq,
      hselects (textEntry "ab*ba") "ab*ba" (by decide) hshort (by decide)]
    simp [Pattern.isMatch, Pattern.advance, Pattern.matchesWithin]

end Filter

end RowFilter
