import RowFilter.Proofs.Directory.AssertedValue

/-! # Filters with places for values

A template is a search filter in which some assertions are left open. Binding values to its text
gives a text that is read as the template with the bytes of the values in its places, in order, so
no value reaches beyond the place that it is bound to.
-/

namespace RowFilter.Directory

open SearchFilter Text

inductive Template where
  | and (templates : List Template)
  | or (templates : List Template)
  | not (template : Template)
  /-- An item with a place for what is asserted. -/
  | asserted (name : String) (sign : Relation)
  /-- An item that asserts chunks with an asterisk between any two. -/
  | pattern (name : String) (chunks : List Bytes)

namespace Template

mutual

/-- What stands between the brackets of a template, with a question mark for each place. -/
def inner : Template → List Char
  | and templates => '&' :: textAll templates
  | or templates => '|' :: textAll templates
  | not template => '!' :: '(' :: (template.inner ++ [')'])
  | asserted name sign => name.toList ++ (sign.symbol ++ ['?'])
  | pattern name chunks =>
    name.toList ++ (Relation.equal.symbol ++ ['*'].intercalate (chunks.map escapeBytes))

def textAll : List Template → List Char
  | [] => []
  | template :: rest => '(' :: (template.inner ++ ')' :: textAll rest)

end

/-- The text of a template. -/
def text (template : Template) : List Char :=
  '(' :: (template.inner ++ [')'])

mutual

/-- The filter with contents in the places of a template, in order, and the contents that are left.
There is none if they are too few. -/
def fill : Template → List Bytes → Option (SearchFilter × List Bytes)
  | and templates, contents =>
    (fillAll templates contents).map fun (filters, rest) => (.and filters, rest)
  | or templates, contents =>
    (fillAll templates contents).map fun (filters, rest) => (.or filters, rest)
  | not template, contents =>
    (template.fill contents).map fun (filter, rest) => (.not filter, rest)
  | asserted name sign, content :: rest => some (sign.assertion name content, rest)
  | asserted _ _, [] => none
  | pattern name chunks, contents => some (patternItem name chunks, contents)

def fillAll : List Template → List Bytes → Option (List SearchFilter × List Bytes)
  | [], contents => some ([], contents)
  | template :: more, contents => do
    let (filter, contents) ← template.fill contents
    let (filters, rest) ← fillAll more contents
    return (filter :: filters, rest)

end

/-- Lists are not empty and names are plain. -/
inductive WellFormed : Template → Prop
  | and {templates : List Template} (hne : templates ≠ [])
      (h : ∀ template ∈ templates, WellFormed template) : WellFormed (and templates)
  | or {templates : List Template} (hne : templates ≠ [])
      (h : ∀ template ∈ templates, WellFormed template) : WellFormed (or templates)
  | not {template : Template} (h : WellFormed template) : WellFormed (not template)
  | asserted {name : String} (hname : IsPlainName name) (sign : Relation) :
      WellFormed (asserted name sign)
  | pattern {name : String} (hname : IsPlainName name) {chunks : List Bytes} (hne : chunks ≠ []) :
      WellFormed (pattern name chunks)

theorem textAll_eq_flatMap (templates : List Template) :
    textAll templates = templates.flatMap text := by
  induction templates with
  | nil => rw [textAll, List.flatMap_nil]
  | cons template rest ih => simp [textAll, text, ih]

/-! ## Bound templates -/

/-- The values put into the text of the template give the text of a filter, and their bytes put into
the template give that filter. -/
def Binds (template : Template) : Prop :=
  ∀ {parameters : List Value} {bound : List Char},
    bindChars template.inner parameters = .ok bound →
      ∃ filter, Spelled bound filter ∧ ∀ more,
        template.fill (parameters.map assertedBytes ++ more) = some (filter, more)

theorem binds_asserted {name : String} (hname : IsPlainName name) (sign : Relation) :
    Binds (asserted name sign) := by
  intro parameters bound h
  -- Names and signs have no places, so the only one is the value.
  have hnotMem : '?' ∉ name.toList ++ sign.symbol := by
    rw [List.mem_append, not_or]
    refine ⟨hname.notMem (by decide), ?_⟩
    cases sign <;> decide
  rw [inner, ← List.append_assoc] at h
  obtain ⟨ps, qs, x, y, rfl, hx, hy, rfl⟩ := exists_of_bindChars_append h
  obtain ⟨rfl, rfl⟩ := eq_of_bindChars hnotMem hx
  obtain ⟨value, rfl, hvalue⟩ := exists_of_bindChars_placeholder hy
  have hassertion := isAssertion_of_assertionText hvalue
  refine ⟨sign.assertion name (assertedBytes value), ?_, fun more => rfl⟩
  rw [List.append_assoc]
  exact spelled_assertion hname.isName sign hassertion.plain hassertion.reads

/-- A pattern has no places. -/
theorem notMem_inner_pattern {name : String} (hname : '?' ∉ name.toList) (chunks : List Bytes) :
    '?' ∉ inner (pattern name chunks) := by
  rw [inner, List.mem_append, List.mem_append, not_or, not_or]
  exact ⟨hname, by decide, notMem_intercalate (by decide) (by decide) (by decide)⟩

theorem binds_pattern {name : String} (hname : IsPlainName name) {chunks : List Bytes}
    (hne : chunks ≠ []) : Binds (pattern name chunks) := by
  intro parameters bound h
  obtain ⟨rfl, rfl⟩ := eq_of_bindChars (notMem_inner_pattern (hname.notMem (by decide)) chunks) h
  refine ⟨patternItem name chunks, ?_, fun more => rfl⟩
  rw [inner]
  exact spelled_chunks hname.isName hne

/-- A text between brackets is bound between them. -/
theorem exists_of_bindChars_brackets {text bound : List Char} (opening : List Char)
    (h : '?' ∉ opening) {parameters : List Value}
    (hbind : bindChars (opening ++ (text ++ [')'])) parameters = .ok bound) :
    ∃ x, bound = opening ++ (x ++ [')']) ∧ bindChars text parameters = .ok x := by
  obtain ⟨ps, qs, x, y, rfl, hx, hy, rfl⟩ := exists_of_bindChars_append hbind
  obtain ⟨rfl, rfl⟩ := eq_of_bindChars h hx
  obtain ⟨inside, closing, z, w, rfl, hz, hw, rfl⟩ := exists_of_bindChars_append hy
  obtain ⟨rfl, rfl⟩ := eq_of_bindChars (by decide) hw
  refine ⟨z, rfl, ?_⟩
  rw [List.nil_append, List.append_nil]
  exact hz

/-- Templates in a row are bound one after another. -/
theorem binds_textAll {templates : List Template} (h : ∀ template ∈ templates, template.Binds)
    {parameters : List Value} {bound : List Char}
    (hbind : bindChars (textAll templates) parameters = .ok bound) :
    ∃ items : List (List Char × SearchFilter), items.length = templates.length ∧
      bound = items.flatMap (fun item => '(' :: (item.1 ++ [')'])) ∧
      (∀ item ∈ items, Spelled item.1 item.2) ∧
      ∀ more, fillAll templates (parameters.map assertedBytes ++ more) =
        some (items.map Prod.snd, more) := by
  induction templates generalizing parameters bound with
  | nil =>
      obtain ⟨rfl, rfl⟩ := eq_of_bindChars (by decide) hbind
      exact ⟨[], rfl, rfl, by simp, fun more => rfl⟩
  | cons template rest ih =>
      rw [List.forall_mem_cons] at h
      rw [textAll_eq_flatMap, List.flatMap_cons, ← textAll_eq_flatMap] at hbind
      obtain ⟨ps, qs, x, y, rfl, hx, hy, rfl⟩ := exists_of_bindChars_append hbind
      rw [text] at hx
      obtain ⟨z, rfl, hz⟩ := exists_of_bindChars_brackets ['('] (by decide) hx
      obtain ⟨filter, hspelled, hfill⟩ := h.1 hz
      obtain ⟨items, hlength, rfl, hall, hfills⟩ := ih h.2 hy
      refine ⟨(z, filter) :: items, by simp [hlength], rfl,
        List.forall_mem_cons.mpr ⟨hspelled, hall⟩, fun more => ?_⟩
      rw [List.map_append, List.append_assoc, fillAll, hfill]
      simp only [Option.bind_eq_bind, Option.bind_some, hfills]
      rfl

/-- A list of templates behind its sign is bound to a list of filters behind the same sign. -/
theorem binds_list {sign : Char} (hsign : '?' ∉ [sign]) {templates : List Template}
    (hne : templates ≠ []) (h : ∀ template ∈ templates, template.Binds)
    {parameters : List Value} {bound : List Char}
    (hbind : bindChars (sign :: textAll templates) parameters = .ok bound) :
    ∃ items : List (List Char × SearchFilter), items ≠ [] ∧
      bound = sign :: items.flatMap (fun item => '(' :: (item.1 ++ [')'])) ∧
      (∀ item ∈ items, Spelled item.1 item.2) ∧
      ∀ more, fillAll templates (parameters.map assertedBytes ++ more) =
        some (items.map Prod.snd, more) := by
  rw [← List.singleton_append] at hbind
  obtain ⟨ps, qs, x, y, rfl, hx, hy, rfl⟩ := exists_of_bindChars_append hbind
  obtain ⟨rfl, rfl⟩ := eq_of_bindChars hsign hx
  obtain ⟨items, hlength, rfl, hall, hfill⟩ := binds_textAll h hy
  refine ⟨items, ?_, rfl, hall, hfill⟩
  rintro rfl
  exact hne (List.length_eq_zero_iff.mp hlength.symm)

/-- Binding keeps the form of every well-formed template. -/
theorem WellFormed.binds {template : Template} (h : template.WellFormed) : template.Binds := by
  induction h with
  | asserted hname sign => exact binds_asserted hname sign
  | pattern hname hne => exact binds_pattern hname hne
  | @not template h ih =>
      intro parameters bound hbind
      rw [inner] at hbind
      obtain ⟨x, rfl, hx⟩ := exists_of_bindChars_brackets ['!', '('] (by decide) hbind
      obtain ⟨filter, hspelled, hfill⟩ := ih hx
      refine ⟨.not filter, .not hspelled, fun more => ?_⟩
      rw [fill, hfill]
      rfl
  | and hne h ih =>
      intro parameters bound hbind
      rw [inner] at hbind
      obtain ⟨items, hitems, rfl, hall, hfill⟩ := binds_list (by decide) hne ih hbind
      refine ⟨_, .and hitems hall, fun more => ?_⟩
      rw [fill, hfill]
      rfl
  | or hne h ih =>
      intro parameters bound hbind
      rw [inner] at hbind
      obtain ⟨items, hitems, rfl, hall, hfill⟩ := binds_list (by decide) hne ih hbind
      refine ⟨_, .or hitems hall, fun more => ?_⟩
      rw [fill, hfill]
      rfl

/-- A statement with the text of a template, once it is bound, is read as the template with the
bytes of the parameters in its places. -/
theorem WellFormed.parse_bind {template : Template} (h : template.WellFormed) {statement : String}
    (htext : statement.toList = template.text) {parameters : List Value} {bound : String}
    (hbind : Directory.bind statement parameters = .ok bound) :
    ∃ filter, SearchFilter.parse bound = .ok filter ∧
      template.fill (parameters.map assertedBytes) = some (filter, []) := by
  unfold Directory.bind at hbind
  split at hbind
  next chars hchars =>
    cases hbind
    rw [htext, text] at hchars
    obtain ⟨x, rfl, hx⟩ := exists_of_bindChars_brackets ['('] (by decide) hchars
    obtain ⟨filter, hspelled, hfill⟩ := h.binds hx
    have hfill := hfill []
    rw [List.append_nil] at hfill
    exact ⟨filter, hspelled.parse, hfill⟩
  next => cases hbind

end Template

end RowFilter.Directory
