import RowFilter.Proofs.Directory.Binding
import RowFilter.Proofs.Directory.FilterReading
import RowFilter.Statement.Filter

/-! # What directory conditions denote

A condition of the directory dialect denotes a search filter for a request: merged and bound, it is
the spelling of that filter. Each construct of the dialect denotes the filter that it stands for.
-/

namespace RowFilter

open Directory

/-- A name of ASCII letters, digits and hyphens. -/
structure IsPlainName (name : String) : Prop where
  ne_empty : name.toList ≠ []
  plain : ∀ c ∈ name.toList, c.isAlphanum = true ∨ c = '-'

theorem isPlainName_objectClass : IsPlainName "objectClass" :=
  ⟨by decide, List.all_iff_forall_prop.mp (by decide)⟩

/-- The code points of ASCII letters, digits and the hyphen. -/
theorem toNat_of_plain {c : Char} (h : c.isAlphanum = true ∨ c = '-') :
    (65 ≤ c.toNat ∧ c.toNat ≤ 90) ∨ (97 ≤ c.toNat ∧ c.toNat ≤ 122) ∨
      (48 ≤ c.toNat ∧ c.toNat ≤ 57) ∨ c.toNat = 45 := by
  rcases h with h | rfl
  · have hrange := Text.toNat_of_isAlphanum h
    omega
  · decide

theorem isWhitespace_of_plain {c : Char} (h : c.isAlphanum = true ∨ c = '-') :
    Text.isWhitespace c = false := by
  have hrange := toNat_of_plain h
  refine Bool.eq_false_iff.mpr fun h => ?_
  simp only [Text.isWhitespace, Text.inRanges, Text.whitespaceRanges, List.any_cons, List.any_nil,
    Bool.or_eq_true, Bool.and_eq_true, decide_eq_true_eq, Bool.false_eq_true, or_false] at h
  omega

/-- The characters that mean something in a filter, and the placeholder. -/
def specialCharacters : List Char :=
  ['=', '>', '<', '~', '(', ')', '&', '|', '!', '?', '*', '\\']

/-- Letters, digits and hyphens mean nothing in a filter. -/
theorem notMem_of_plain {text : List Char}
    (h : ∀ c ∈ text, c.isAlphanum = true ∨ c = '-') {c : Char}
    (hc : c ∈ specialCharacters) : c ∉ text := by
  intro hmem
  have hrange := toNat_of_plain (h c hmem)
  have hall : ∀ c ∈ specialCharacters,
      c.toNat < 45 ∨ (57 < c.toNat ∧ c.toNat < 65) ∨ (90 < c.toNat ∧ c.toNat < 97) ∨
        122 < c.toNat := List.all_iff_forall_prop.mp (by decide)
  have := hall c hc
  omega

namespace IsPlainName

variable {name : String}

theorem notMem (hname : IsPlainName name) {c : Char} (hc : c ∈ specialCharacters) :
    c ∉ name.toList :=
  notMem_of_plain hname.plain hc

/-- A plain name is read back from a spelling. -/
theorem isName (hname : IsPlainName name) : SearchFilter.IsName name where
  trimmed := Text.trim_of_notMem fun c hc => isWhitespace_of_plain (hname.plain c hc)
  ends := fun c hc hmem => by
    have hspecial : ∀ c ∈ ['=', '>', '<', '~', '(', ')'], c ∈ specialCharacters :=
      List.all_iff_forall_prop.mp (by decide)
    exact hname.notMem (hspecial c hmem) hc
  begins := by
    obtain ⟨c, rest, hcons⟩ := List.exists_cons_of_ne_nil hname.ne_empty
    refine ⟨c, rest, hcons, fun hmem => ?_⟩
    have hspecial : ∀ c ∈ ['&', '|', '!'], c ∈ specialCharacters :=
      List.all_iff_forall_prop.mp (by decide)
    exact hname.notMem (hspecial c hmem) (by simp [hcons])

end IsPlainName

namespace Part

/-- Merged for the request and bound, the part is the spelling of a well-formed filter. -/
structure Denotes (request : Request) (part : Part) (filter : SearchFilter) : Prop where
  writes : Writes request part filter.spell
  formed : filter.WellFormed

/-- Parts that merge alike denote the same filter. -/
theorem Denotes.of_merge_eq {request : Request} {part other : Part} {filter : SearchFilter}
    (h : Denotes request other filter) (hmerge : part.merge request = other.merge request) :
    Denotes request part filter :=
  ⟨h.writes.of_merge_eq hmerge, h.formed⟩

end Part

namespace Directory

open RowFilter.Part

variable {request : Request}

/-- The filter of a condition that always holds or never. -/
def truthFilter (holds : Bool) : SearchFilter :=
  if holds then .present "objectClass" else .not (.present "objectClass")

/-- The condition that always holds or never denotes the filter of that truth value. -/
theorem denotes_truth (holds : Bool) : Denotes request (truth holds) (truthFilter holds) := by
  have hname := isPlainName_objectClass.isName
  cases holds with
  | true => exact ⟨writes_startingWith (by decide), hname⟩
  | false => exact ⟨writes_startingWith (by decide), hname⟩

/-- The presence item of an attribute denotes that it is present. -/
theorem denotes_presence {definition : Attribute} (hname : IsPlainName definition.backendName) :
    Denotes request (presence definition) (.present definition.backendName) := by
  refine ⟨?_, hname.isName⟩
  have htext : ("(" ++ definition.backendName ++ "=*)").toList =
      (SearchFilter.present definition.backendName).spell := by
    simp [SearchFilter.spell, SearchFilter.inner]
  rw [← htext]
  refine writes_startingWith ?_
  have := hname.notMem (c := '?') (by decide)
  simp [this]

/-- A negated part denotes the negation of what the part denotes. -/
theorem denotes_negation {part : Part} {filter : SearchFilter}
    (hpart : Denotes request part filter) :
    Denotes request (negation part) (.not filter) := by
  refine ⟨?_, hpart.formed⟩
  have hwrites := ((writes_startingWith (show '?' ∉ "(!".toList by decide)).thenPart
    hpart.writes).thenText (show '?' ∉ ")".toList by decide)
  have htext : "(!".toList ++ filter.spell ++ ")".toList = (SearchFilter.not filter).spell := by
    simp [SearchFilter.spell, SearchFilter.inner]
  rw [← htext]
  exact hwrites

/-- The filter that a junction operator makes of others. -/
def junctionFilter (op : BinaryOp) (filters : List SearchFilter) : SearchFilter :=
  if op = .or then .or filters else .and filters

theorem allWellFormed_of_denotes {parts : List Part} {filters : List SearchFilter}
    (hparts : List.Forall₂ (Denotes request) parts filters) :
    SearchFilter.AllWellFormed filters := by
  induction hparts with
  | nil => trivial
  | cons hfirst hrest ih => exact ⟨hfirst.formed, ih⟩

/-- A junction denotes the junction of what its parts denote. -/
theorem denotes_junction (op : BinaryOp) {parts : List Part} {filters : List SearchFilter}
    (hparts : List.Forall₂ (Denotes request) parts filters) (hne : filters ≠ []) :
    Denotes request (junction op parts) (junctionFilter op filters) := by
  have hopening : '?' ∉ (if op = .or then "(|" else "(&").toList := by
    split <;> decide
  have hwrites := ((writes_startingWith hopening).foldl_thenPart SearchFilter.spell
    (hparts.imp fun _ _ h => h.writes)).thenText (show '?' ∉ ")".toList by decide)
  have hformed := allWellFormed_of_denotes hparts
  have hspell : (if op = .or then "(|" else "(&").toList ++ filters.flatMap SearchFilter.spell ++
      ")".toList = (junctionFilter op filters).spell := by
    unfold junctionFilter
    split
    next h =>
      rw [SearchFilter.spell, SearchFilter.inner, SearchFilter.spellAll_eq_flatMap]
      rfl
    next h =>
      rw [SearchFilter.spell, SearchFilter.inner, SearchFilter.spellAll_eq_flatMap]
      rfl
  refine ⟨hspell ▸ hwrites, ?_⟩
  unfold junctionFilter
  split
  next h => exact ⟨hne, hformed⟩
  next h => exact ⟨hne, hformed⟩

/-- A negated item of an attribute that may be missing denotes a filter that matches where it is. -/
theorem denotes_negated {definition : Attribute} (hname : IsPlainName definition.backendName)
    {part : Part} {filter : SearchFilter} (hpart : Denotes request part filter) :
    Denotes request (negated definition part)
      (if definition.nullable then
        .or [.not filter, .not (.present definition.backendName)] else .not filter) := by
  unfold negated
  split
  next h =>
    have hparts := List.Forall₂.cons (denotes_negation hpart)
      (.cons (denotes_negation (denotes_presence hname)) .nil)
    exact denotes_junction .or hparts (List.cons_ne_nil _ _)
  next h => exact denotes_negation hpart

/-- An assertion whose value needs no escapes denotes the filter of its relation. -/
theorem denotes_item {definition : Attribute} (hname : IsPlainName definition.backendName)
    {value coerced : Value} {target : ValueType} (hliteral : literal value target =
      .ok (Part.ofText "?" [coerced])) {assertion : Bytes}
    (htext : assertionText coerced = .ok (escapeBytes assertion)) {relation : String}
    (hrelation : '?' ∉ relation.toList) {filter : SearchFilter} (hformed : filter.WellFormed)
    (hinner : filter.inner =
      definition.backendName.toList ++ (relation.toList ++ escapeBytes assertion)) :
    ∃ part, item definition relation value target = .ok part ∧ Denotes request part filter := by
  have hopening : '?' ∉ ("(" ++ definition.backendName ++ relation).toList := by
    have := hname.notMem (c := '?') (by decide)
    simp [this, hrelation]
  have hplace : Writes request (Part.ofText "?" [coerced]) (escapeBytes assertion) := by
    refine writes_ofText ?_
    rw [show "?".toList = ['?'] from rfl, bindChars, if_pos rfl, htext]
    simp only [bindChars, Bind.bind, Except.bind, List.append_nil]
    rfl
  have hwrites := ((writes_startingWith hopening).thenPart hplace).thenText
    (show '?' ∉ ")".toList by decide)
  refine ⟨((Part.startingWith ("(" ++ definition.backendName ++ relation)).thenPart
    (Part.ofText "?" [coerced])).thenText ")", ?_, ?_, hformed⟩
  · rw [item, hliteral]
    rfl
  · have hspell : ("(" ++ definition.backendName ++ relation).toList ++ escapeBytes assertion ++
        ")".toList = filter.spell := by
      simp [SearchFilter.spell, hinner]
    exact hspell ▸ hwrites

end Directory

namespace Filter

open Directory

/-- Compiling, merging, binding and reading all succeed and give the search filter. -/
def Reads (filter : Filter) (expr : Expr) (request : Request) (parsed : SearchFilter) : Prop :=
  ∃ compiled statement text, filter.compile expr = (compiled, none) ∧
    compiled.merge request = .ok statement ∧
    Directory.bind statement.text statement.parameters = .ok text ∧
    SearchFilter.parse text = .ok parsed

/-- There is at most one search filter that an expression is read as. -/
theorem Reads.unique {filter : Filter} {expr : Expr} {request : Request}
    {parsed other : SearchFilter} (h : filter.Reads expr request parsed)
    (hother : filter.Reads expr request other) : parsed = other := by
  obtain ⟨compiled, statement, text, hcompile, hmerge, hbind, hparse⟩ := h
  obtain ⟨compiled', statement', text', hcompile', hmerge', hbind', hparse'⟩ := hother
  obtain ⟨rfl, -⟩ := Prod.mk.inj (hcompile.symm.trans hcompile')
  obtain rfl := Except.ok.inj (hmerge.symm.trans hmerge')
  obtain rfl := Except.ok.inj (hbind.symm.trans hbind')
  exact Except.ok.inj (hparse.symm.trans hparse')

/-- What a part denotes is read of the filter that is compiled to it. -/
theorem reads_of_denotes {filter : Filter} {expr : Expr} {request : Request} {part : Part}
    {parsed : SearchFilter} (hcompile : compilePart filter.backend filter.schema expr = .ok part)
    (hpart : part.Denotes (filter.bindRequest request) parsed) :
    filter.Reads expr request parsed := by
  obtain ⟨⟨statement, hmerge, hbind⟩, hformed⟩ := hpart
  refine ⟨{ filter with root := some part, expression := expr.text }, statement,
    String.ofList parsed.spell, ?_, hmerge, ?_, SearchFilter.parse_spell hformed⟩
  · rw [compile, hcompile]
  · rw [Directory.bind, hbind]

end Filter

end RowFilter
