import Mathlib.Computability.Language
import RowFilter.Proofs.Directory.DialectInvariant
import RowFilter.Proofs.Directory.Template
import RowFilter.Proofs.Statement.Upholding

/-! # Directory conditions are templates

Whatever request it is merged for, a condition of the directory dialect has the text of a template.
So the values that are bound to it do not change its form.
-/

namespace RowFilter

open Directory

namespace Part

/-- Whatever the part merges to has a text of the language. -/
def WrittenIn (language : Language Char) (part : Part) : Prop :=
  part.Upholds fun statement => statement.text.toList ∈ language

variable {l m : Language Char} {part inner : Part}

/-- A part is written in every larger language. -/
theorem WrittenIn.mono (h : part.WrittenIn l) (hmem : ∀ text ∈ l, text ∈ m) : part.WrittenIn m :=
  fun request => (h request).mono fun _ hstatement => hmem _ hstatement

theorem writtenIn_ofText {text : String} (h : text.toList ∈ l) (parameters : List Value) :
    (ofText text parameters).WrittenIn l := by
  intro request
  rw [merge_ofText]
  exact Yields.ok h

theorem writtenIn_startingWith (text : String) : (startingWith text).WrittenIn {text.toList} :=
  writtenIn_ofText (Set.mem_singleton text.toList) []

/-- Two parts in a row are written in the product of both languages. -/
theorem WrittenIn.thenPart (h : part.WrittenIn l) (hinner : inner.WrittenIn m) :
    (part.thenPart inner).WrittenIn (l * m) := by
  intro request statement hmerge
  rw [merge_thenPart] at hmerge
  obtain ⟨a, b, ha, hb, rfl⟩ := Statement.andThen_eq_ok.mp hmerge
  simp only [Statement.append, String.toList_append]
  exact Language.append_mem_mul (h request a ha) (hinner request b hb)

theorem WrittenIn.thenText (h : part.WrittenIn l) (text : String) :
    (part.thenText text).WrittenIn (l * {text.toList}) := by
  intro request statement hmerge
  rw [merge_thenText] at hmerge
  obtain ⟨a, b, ha, hb, rfl⟩ := Statement.andThen_eq_ok.mp hmerge
  cases hb
  simp only [Statement.append, String.toList_append]
  exact Language.append_mem_mul (h request a ha) rfl

/-- Parts in a row are written in the power of their language. -/
theorem WrittenIn.foldl_thenPart (h : part.WrittenIn l) {parts : List Part}
    (hparts : ∀ inner ∈ parts, inner.WrittenIn m) :
    (parts.foldl Part.thenPart part).WrittenIn (l * m ^ parts.length) := by
  induction parts generalizing part l with
  | nil => simpa using h
  | cons first rest ih =>
      rw [List.forall_mem_cons] at hparts
      rw [List.foldl_cons, List.length_cons, pow_succ', ← mul_assoc]
      exact ih (h.thenPart hparts.1) hparts.2

end Part

namespace Directory

open Template SearchFilter

/-- The texts of well-formed templates. -/
def templates : Language Char :=
  {text | ∃ template : Template, template.WellFormed ∧ text = template.text}

theorem mem_templates {template : Template} (h : template.WellFormed) : template.text ∈ templates :=
  ⟨template, h, rfl⟩

/-- Texts of templates are those of a list of well-formed templates. -/
theorem exists_templates {texts : List (List Char)} (h : ∀ text ∈ texts, text ∈ templates) :
    ∃ list : List Template, texts = list.map text ∧ ∀ template ∈ list, template.WellFormed := by
  induction texts with
  | nil => exact ⟨[], rfl, by simp⟩
  | cons first rest ih =>
      rw [List.forall_mem_cons] at h
      obtain ⟨⟨template, htemplate, rfl⟩, hrest⟩ := h
      obtain ⟨list, rfl, hall⟩ := ih hrest
      exact ⟨template :: list, rfl, List.forall_mem_cons.mpr ⟨htemplate, hall⟩⟩

/-- A negated template is a template. -/
theorem negation_mem_templates {text : List Char}
    (h : text ∈ {"(!".toList} * templates * {")".toList}) : text ∈ templates := by
  obtain ⟨_, hopened, _, rfl, rfl⟩ := Language.mem_mul.mp h
  obtain ⟨_, rfl, _, ⟨template, htemplate, rfl⟩, rfl⟩ := Language.mem_mul.mp hopened
  exact mem_templates (.not htemplate)

/-- A junction of at least one template is a template. -/
theorem junction_mem_templates {n : Nat} (hn : n ≠ 0) (op : BinaryOp) {text : List Char}
    (h : text ∈ {(if op = .or then "(|" else "(&").toList} * templates ^ n * {")".toList}) :
    text ∈ templates := by
  obtain ⟨_, hopened, _, rfl, rfl⟩ := Language.mem_mul.mp h
  obtain ⟨_, rfl, joined, hjoined, rfl⟩ := Language.mem_mul.mp hopened
  obtain ⟨texts, rfl, hlength, hall⟩ := Language.mem_pow.mp hjoined
  obtain ⟨list, rfl, hformed⟩ := exists_templates hall
  have hne : list ≠ [] := by
    rintro rfl
    exact hn hlength.symm
  rw [← List.flatMap_def, ← textAll_eq_flatMap]
  split
  next => exact mem_templates (.or hne hformed)
  next => exact mem_templates (.and hne hformed)

/-- A literal is one placeholder. -/
theorem literal_writtenIn (value : Value) (expected : ValueType) :
    Yields (Part.WrittenIn {['?']}) (literal value expected) := by
  refine Yields.step fun coerced _ => ?_
  split
  next => exact Yields.error _
  next => exact Yields.error _
  next => exact Yields.ok (Part.writtenIn_ofText (Set.mem_singleton ['?']) _)

/-- An item is the template of its name and relation. -/
theorem item_writtenIn {definition : Attribute} (hname : IsPlainName definition.backendName)
    (sign : Relation) {relation : String} (hrelation : relation.toList = sign.symbol)
    (value : Value) (target : ValueType) :
    Yields (Part.WrittenIn templates) (item definition relation value target) := by
  refine (literal_writtenIn value target).bind fun assertion hassertion => Yields.ok ?_
  refine (((Part.writtenIn_startingWith _).thenPart hassertion).thenText ")").mono fun text h => ?_
  obtain ⟨_, hopened, _, rfl, rfl⟩ := Language.mem_mul.mp h
  obtain ⟨_, rfl, _, rfl, rfl⟩ := Language.mem_mul.mp hopened
  have htext : ("(" ++ definition.backendName ++ relation).toList ++ ['?'] ++ ")".toList =
      (asserted definition.backendName sign).text := by
    rw [text, Template.inner, ← hrelation]
    simp
  rw [htext]
  exact mem_templates (.asserted hname sign)

/-- A text in brackets that asks for chunks is one of a template. -/
theorem pattern_writtenIn {name : String} (hname : IsPlainName name) {chunks : List Bytes}
    (hne : chunks ≠ []) {text : String} (h : text.toList = (pattern name chunks).text) :
    (Part.startingWith text).WrittenIn templates := by
  refine (Part.writtenIn_startingWith text).mono fun written hwritten => ?_
  obtain rfl : written = text.toList := hwritten
  rw [h]
  exact mem_templates (.pattern hname hne)

theorem presence_writtenIn {definition : Attribute} (hname : IsPlainName definition.backendName) :
    (presence definition).WrittenIn templates := by
  have hchunks : ([[], []] : List Bytes) ≠ [] := List.cons_ne_nil _ _
  refine pattern_writtenIn hname hchunks ?_
  rw [text, Template.inner]
  simp [Relation.symbol, escapeBytes, List.intercalate_cons_cons]

theorem negation_writtenIn {part : Part} (h : part.WrittenIn templates) :
    (negation part).WrittenIn templates :=
  (((Part.writtenIn_startingWith _).thenPart h).thenText _).mono fun _ => negation_mem_templates

/-- A junction of templates is written as one. -/
theorem junction_writtenIn (op : BinaryOp) {parts : List Part} (hne : parts ≠ [])
    (h : ∀ part ∈ parts, part.WrittenIn templates) : (junction op parts).WrittenIn templates := by
  have hlength : parts.length ≠ 0 := fun h => hne (List.length_eq_zero_iff.mp h)
  exact (((Part.writtenIn_startingWith _).foldl_thenPart h).thenText _).mono
    fun _ => junction_mem_templates hlength op

theorem truth_writtenIn (holds : Bool) : (truth holds).WrittenIn templates := by
  have hany : anyEntry.toList = (pattern "objectClass" [[], []]).text := by decide
  have hformed : WellFormed (pattern "objectClass" [[], []]) :=
    .pattern isPlainName_objectClass (List.cons_ne_nil _ _)
  cases holds with
  | true => exact pattern_writtenIn isPlainName_objectClass (List.cons_ne_nil _ _) hany
  | false =>
      have htext : ("(!" ++ anyEntry ++ ")").toList =
          (Template.not (pattern "objectClass" [[], []])).text := by decide
      exact Part.writtenIn_ofText (htext ▸ mem_templates (.not hformed)) []

/-- What is written of a pattern is the template of its chunks. -/
theorem text_patternAssertion (name : String) (runs : List Char) :
    ("(" ++ name ++ "=" ++ String.ofList (patternAssertion runs) ++ ")").toList =
      (pattern name ((Text.pieces '%' runs).map Text.encode)).text := by
  rw [Template.text, Template.inner, List.map_map]
  simp [patternAssertion, Relation.symbol, Function.comp_def]

/-- An item of a pattern is a template. -/
theorem substring_writtenIn {definition : Attribute} (hname : IsPlainName definition.backendName)
    (value : Value) : Yields (Part.WrittenIn templates) (substring definition value) := by
  refine Yields.step fun coerced _ => ?_
  cases coerced with
  | string text =>
      refine Yields.ite (fun _ => Yields.error _) fun _ => Yields.ok ?_
      have hchunks : (Text.pieces '%' text.toList).map Text.encode ≠ [] := by
        simpa using Text.pieces_ne_nil '%' text.toList
      exact pattern_writtenIn hname hchunks (text_patternAssertion _ _)
  | _ => exact Yields.ok (truth_writtenIn false)

/-- All conditions of the dialect are templates. -/
theorem builds_templates : Builds (fun definition => IsPlainName definition.backendName)
    (Part.WrittenIn templates) where
  item hname relation hrelation value target := by
    have hsign : ∃ sign : Relation, relation.toList = sign.symbol := by
      simp only [List.mem_cons, List.not_mem_nil, or_false] at hrelation
      rcases hrelation with rfl | rfl | rfl
      · exact ⟨.equal, rfl⟩
      · exact ⟨.greaterOrEqual, rfl⟩
      · exact ⟨.lessOrEqual, rfl⟩
    obtain ⟨sign, hsign⟩ := hsign
    exact item_writtenIn hname sign hsign value target
  substring hname pattern := substring_writtenIn hname pattern
  presence hname := presence_writtenIn hname
  negation h := negation_writtenIn h
  junction op _ hne h := junction_writtenIn op hne h
  truth holds := truth_writtenIn holds

end Directory

namespace Filter

open Directory

/-- Whatever a compiled filter of a directory merges to is the text of a template, and binding any
values to it gives a text that is read as that template with the bytes of the values in its places.
So two requests with statements of one text differ in nothing but what these places assert. -/
theorem parse_bound_eq_fill {filter compiled : Filter} {expr : Expr}
    (hbackend : filter.backend = .directory)
    (hnames : ∀ entry ∈ filter.schema, IsPlainName entry.2.backendName)
    (hcompile : filter.compile expr = (compiled, none)) {request : Request} {statement : Statement}
    (hmerge : compiled.merge request = .ok statement) :
    ∃ template : Template, template.text = statement.text.toList ∧
      ∀ parameters bound, Directory.bind statement.text parameters = .ok bound →
        ∃ parsed, SearchFilter.parse bound = .ok parsed ∧
          template.fill (parameters.map assertedBytes) = some (parsed, []) := by
  have hdialect : filter.dialect.Respects (fun definition => IsPlainName definition.backendName)
      (Part.Upholds fun statement => statement.text.toList ∈ templates) := by
    rw [dialect, hbackend]
    exact builds_templates.dialect_respects
  obtain ⟨template, hformed, htext⟩ :=
    merge_upholds hdialect hnames hcompile request statement hmerge
  exact ⟨template, htext.symm, fun parameters bound hbind => hformed.parse_bind htext hbind⟩

/-- An attribute that equals a value of the request. -/
private def isNamed : Expr :=
  .binary .eq (.reference "object.a" .any) (.reference "name" .any)

private def textAttribute : Filter :=
  .new .directory (Schema.ofList [⟨"a", "a", .string, false, false⟩])

/-- A request whose value would end the item and ask for any entry, if it were not escaped. -/
private def forgedRequest : Request :=
  { resolver := some fun path => if path = "name" then some (.string "x)(objectClass=*") else none }

/-- The brackets and the asterisk of a value do not show in the filter. -/
theorem parse_bound_forged_name :
    ∃ (compiled : Filter) (template : Template) (parsed : SearchFilter),
      textAttribute.backend = .directory ∧
      (∀ entry ∈ textAttribute.schema, IsPlainName entry.2.backendName) ∧
      textAttribute.compile isNamed = (compiled, none) ∧
      compiled.merge forgedRequest = .ok ⟨"(a=?)", [.string "x)(objectClass=*"]⟩ ∧
      Directory.bind "(a=?)" [.string "x)(objectClass=*"] =
        .ok "(a=x\\29\\28objectClass=\\2a)" ∧
      template.text = "(a=?)".toList ∧
      SearchFilter.parse "(a=x\\29\\28objectClass=\\2a)" = .ok parsed ∧
      template.fill [Text.bytesOf "x)(objectClass=*"] = some (parsed, []) := by
  have hattr : textAttribute.schema.resolve "object.a" .any =
      .ok ⟨"a", "a", .string, false, false⟩ := rfl
  have hnames : ∀ entry ∈ textAttribute.schema, IsPlainName entry.2.backendName := by
    intro entry hentry
    obtain rfl : entry = ("a", ⟨"a", "a", .string, false, false⟩) := List.mem_singleton.mp hentry
    exact ⟨by decide, List.all_iff_forall_prop.mp (by decide)⟩
  have hpart : ∃ part, compilePart textAttribute.backend textAttribute.schema isNamed = .ok part ∧
      part.merge (textAttribute.bindRequest forgedRequest) =
        .ok ⟨"(a=?)", [.string "x)(objectClass=*"]⟩ := by
    rw [compilePart, isNamed, Compiler.compile_comparison rfl
      (Compiler.compile_rowReference hattr) (Compiler.compile_reference rfl .any)]
    exact ⟨_, rfl, rfl⟩
  obtain ⟨part, hpart, hmerge⟩ := hpart
  have hcompile : textAttribute.compile isNamed = (_, none) := compile_of_part hpart
  have hbind : Directory.bind "(a=?)" [.string "x)(objectClass=*"] =
      .ok "(a=x\\29\\28objectClass=\\2a)" := by decide
  obtain ⟨template, htext, hfill⟩ := parse_bound_eq_fill rfl hnames hcompile hmerge
  obtain ⟨parsed, hparse, hparsed⟩ := hfill _ _ hbind
  exact ⟨_, template, parsed, rfl, hnames, hcompile, hmerge, hbind, htext, hparse, hparsed⟩

end Filter

end RowFilter
