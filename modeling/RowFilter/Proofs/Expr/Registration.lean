import RowFilter.Proofs.Expr.Scanning
import RowFilter.Proofs.Text.LetterCase

/-! # Registering keywords

Whatever is registered in whatever order, the four namespaces have no keyword in common, and each
keyword stays in the namespace in which it was registered first. What is refused for its spelling is
exactly what would not be scanned as one keyword.
-/

namespace RowFilter

namespace Token

/-- The text is scanned as one keyword that covers all of it, outside of quotation. -/
def ScansAsKeyword (text : List Char) : Prop :=
  ∀ escape position, scan ⟨escape, none⟩ position text =
    .ok (⟨.keyword, text, ⟨position, position + Text.byteLength text⟩, text⟩, [])

variable {text : List Char}

/-- Only constants have to do with the escape character. -/
theorem lexeme_of_not_isQuote (escape : Char) {c : Char} (h : isQuote c = false)
    (rest : List Char) : lexeme ⟨escape, none⟩ c rest = lexeme .standard c rest := by
  simp [lexeme, h, Quoting.standard]

/-- The test that registration makes of a keyword is that scanning gives it back whole. -/
theorem isSingleKeyword_iff_scansAsKeyword :
    isSingleKeyword text = true ↔ ScansAsKeyword text := by
  cases text with
  | nil => simp [isSingleKeyword, ScansAsKeyword, scan]
  | cons c rest =>
      constructor
      · intro h escape position
        have hend : Boundary [] := by rintro d ⟨⟩
        have hlexeme := Lexes.lexeme_keyword h hend
        have hquote : isQuote c = false := by
          rw [← Bool.not_eq_true]
          intro hquote
          rcases (Bool.or_eq_true _ _).mp hquote with hc | hc <;> obtain rfl := eq_of_beq hc <;>
            cases h
        rw [List.append_nil] at hlexeme
        simp only [scan, lexeme_of_not_isQuote escape hquote, hlexeme, List.take_length,
          List.drop_length]
      · intro h
        have hscan := h '\\' 0
        simp only [scan] at hscan
        split at hscan
        next kind text more hlexeme =>
          simp only [Except.ok.injEq, Prod.mk.injEq, Token.mk.injEq] at hscan
          obtain ⟨⟨rfl, rfl, -⟩, -⟩ := hscan
          exact (isScanned_of_lexeme hlexeme).2.single rfl
        next => cases hscan

theorem isWhitespace_of_isSymbolChar {c : Char} (h : isSymbolChar c = true) :
    Text.isWhitespace c = false := by
  have hall : ['=', '!', '<', '>', '&', '|', '+', '-', '*', '/', '%'].all
      (fun d => !Text.isWhitespace d) = true := by decide
  simpa using List.all_eq_true.mp hall c (List.contains_iff_mem.mp h)

/-- There is no white space in what can be a keyword. -/
theorem isWhitespace_of_isSingleKeyword (h : isSingleKeyword text = true) :
    ∀ c ∈ text, Text.isWhitespace c = false := by
  cases text with
  | nil => simp
  | cons c rest =>
      rw [isSingleKeyword] at h
      split at h
      next hsymbol =>
        rcases (Bool.or_eq_true _ _).mp h with hempty | hcompound
        · obtain rfl := List.isEmpty_iff.mp hempty
          intro d hd
          rw [List.mem_singleton.mp hd]
          exact isWhitespace_of_isSymbolChar hsymbol
        · have hall : compoundSymbols.all (List.all · isSymbolChar) = true := by decide
          intro d hd
          exact isWhitespace_of_isSymbolChar (List.all_eq_true.mp
            (List.all_eq_true.mp hall _ (List.contains_iff_mem.mp hcompound)) d hd)
      next hsymbol =>
        rw [Bool.and_eq_true, List.all_eq_true] at h
        intro d hd
        rcases List.mem_cons.mp hd with rfl | hd
        · exact isWhitespace_of_isWordChar h.1
        · exact isWhitespace_of_isWordChar (h.2 d hd)

end Token

namespace Vocabulary

/-- A normal form that can be a keyword is the normal form of itself. -/
theorem normalize_normalize {keyword : List Char}
    (h : Token.isSingleKeyword (normalize keyword) = true) :
    normalize (normalize keyword) = normalize keyword := by
  have hspace := Token.isWhitespace_of_isSingleKeyword h
  calc normalize (normalize keyword) = Text.lower (normalize keyword) := by
        rw [normalize, Text.trim_of_notMem hspace]
    _ = normalize keyword := Text.lower_lower _

/-! ## One call -/

/-- How a vocabulary answers the registration of a keyword. -/
inductive Answers (vocabulary : Vocabulary) (keyword : List Char) (operand : Operand) :
    Except VocabularyError (Vocabulary × Option Operand) → Prop
  | invalid (h : ¬Token.ScansAsKeyword (normalize keyword)) :
      Answers vocabulary keyword operand
        (.error (.invalidKeyword (String.ofList (normalize keyword))))
  | conflict (h : Token.ScansAsKeyword (normalize keyword)) {existing : Operand}
      (hfound : vocabulary.lookup keyword = some existing)
      (hother : existing.namespaceName ≠ operand.namespaceName) :
      Answers vocabulary keyword operand
        (.error (.conflict (String.ofList (normalize keyword)) existing operand))
  | accepted (h : Token.ScansAsKeyword (normalize keyword))
      (hadmits : vocabulary.Admits (String.ofList (normalize keyword)) operand) :
      Answers vocabulary keyword operand
        (.ok (vocabulary.put (String.ofList (normalize keyword)) operand,
          vocabulary.lookup keyword))

theorem answers_register (vocabulary : Vocabulary) (keyword : List Char) (operand : Operand) :
    Answers vocabulary keyword operand (vocabulary.register keyword operand) := by
  by_cases hsingle : Token.isSingleKeyword (normalize keyword) = true
  · have hscans := Token.isSingleKeyword_iff_scansAsKeyword.mp hsingle
    simp only [register, hsingle, Bool.not_true, Bool.false_eq_true, if_false]
    split
    next existing hfound =>
      split
      next hsame =>
        have hadmits : vocabulary.Admits (String.ofList (normalize keyword)) operand := by
          intro other hother
          rw [hfound] at hother
          exact Option.some.inj hother ▸ beq_iff_eq.mp hsame
        rw [hadmits.findWithin?_eq]
        exact .accepted hscans hadmits
      next hother => exact .conflict hscans hfound (by simpa using hother)
    next hnone =>
      have hadmits : vocabulary.Admits (String.ofList (normalize keyword)) operand :=
        admits_of_find?_eq_none hnone
      rw [hadmits.findWithin?_eq]
      exact .accepted hscans hadmits
  · have hscans := fun h => hsingle (Token.isSingleKeyword_iff_scansAsKeyword.mpr h)
    simp only [register, hsingle, Bool.not_false, if_true]
    exact .invalid hscans

/-- A keyword is invalid exactly if its normal form is not scanned as one keyword. -/
theorem register_invalid_iff {vocabulary : Vocabulary} {keyword : List Char} {operand : Operand} :
    (∃ name, vocabulary.register keyword operand = .error (.invalidKeyword name)) ↔
      ¬Token.ScansAsKeyword (normalize keyword) := by
  have hanswers := answers_register vocabulary keyword operand
  constructor
  · rintro ⟨name, hinvalid⟩
    rw [hinvalid] at hanswers
    cases hanswers
    assumption
  · intro hscans
    generalize vocabulary.register keyword operand = answer at hanswers ⊢
    cases hanswers with
    | invalid => exact ⟨_, rfl⟩
    | conflict h => exact absurd h hscans
    | accepted h => exact absurd h hscans

/-- Registration succeeds exactly if the keyword can be scanned and what has its name already is in
the same namespace. -/
theorem register_accepted_iff {vocabulary : Vocabulary} {keyword : List Char} {operand : Operand} :
    (∃ accepted, vocabulary.register keyword operand = .ok accepted) ↔
      Token.ScansAsKeyword (normalize keyword) ∧ ∀ existing,
        vocabulary.lookup keyword = some existing →
          existing.namespaceName = operand.namespaceName := by
  have hanswers := answers_register vocabulary keyword operand
  constructor
  · rintro ⟨accepted, haccepted⟩
    rw [haccepted] at hanswers
    cases hanswers with
    | accepted hscans hadmits => exact ⟨hscans, hadmits⟩
  · rintro ⟨hscans, hsame⟩
    generalize vocabulary.register keyword operand = answer at hanswers ⊢
    cases hanswers with
    | invalid h => exact absurd hscans h
    | conflict _ hfound hother => exact absurd (hsame _ hfound) hother
    | accepted => exact ⟨_, rfl⟩

/-- What an accepted call returns, and what is looked up after it. -/
theorem Answers.lookup {vocabulary extended : Vocabulary} {keyword : List Char} {operand : Operand}
    {previous : Option Operand}
    (h : vocabulary.Answers keyword operand (.ok (extended, previous))) :
    previous = vocabulary.lookup keyword ∧ ∀ word, extended.lookup word =
      if normalize word = normalize keyword then some operand else vocabulary.lookup word := by
  cases h with
  | accepted _ hadmits =>
    refine ⟨rfl, fun word => ?_⟩
    rw [Vocabulary.lookup, hadmits.find?_put, Vocabulary.lookup]
    simp only [String.ofList_inj]

/-- The vocabulary after a call, which leaves it as it is if it is refused. -/
def afterCall (vocabulary : Vocabulary) (call : List Char × Operand) : Vocabulary :=
  match vocabulary.register call.1 call.2 with
  | .ok (extended, _) => extended
  | .error _ => vocabulary

def afterCalls (vocabulary : Vocabulary) (calls : List (List Char × Operand)) : Vocabulary :=
  calls.foldl afterCall vocabulary

/-! ## Namespaces -/

/-- One operand of each namespace. -/
def ofEachNamespace : List Operand :=
  [.function .now, .leading .not, .trailing .isNull, .binary .or]

/-- The names in the namespace of an operand. -/
def namesWithin (vocabulary : Vocabulary) : Operand → List String
  | .function _ => vocabulary.functions.map Prod.fst
  | .leading _ => vocabulary.leading.map Prod.fst
  | .trailing _ => vocabulary.trailing.map Prod.fst
  | .binary _ => vocabulary.binary.map Prod.fst

/-- The names that the namespaces have, one namespace after another. -/
def names (vocabulary : Vocabulary) : List String :=
  ofEachNamespace.flatMap vocabulary.namesWithin

/-- Whether the namespace of an operand has the name. -/
def Holds (vocabulary : Vocabulary) (name : String) (operand : Operand) : Prop :=
  (vocabulary.findWithin? name operand).isSome = true

variable {vocabulary : Vocabulary} {name other : String} {operand within : Operand}

theorem length_names : vocabulary.names.length = vocabulary.size := by
  simp [names, ofEachNamespace, namesWithin, size, Nat.add_assoc]

theorem holds_iff_mem : vocabulary.Holds name within ↔ name ∈ vocabulary.namesWithin within := by
  have hget {α : Type} {items : Named α} :
      (items.get? name).isSome = true ↔ name ∈ items.map Prod.fst := by
    rw [← not_iff_not, Bool.not_eq_true, Option.isSome_eq_false_iff, Option.isNone_iff_eq_none,
      Named.get?_eq_none_iff]
  cases within <;> simp only [Holds, findWithin?, Option.isSome_map, namesWithin, hget]

/-- The names are those of the four namespaces together. -/
theorem mem_names_iff : name ∈ vocabulary.names ↔ ∃ within, vocabulary.Holds name within := by
  simp only [names, List.mem_flatMap, ← holds_iff_mem]
  constructor
  · rintro ⟨within, -, h⟩
    exact ⟨within, h⟩
  · rintro ⟨within, h⟩
    cases within with
    | function => exact ⟨.function .now, by decide, h⟩
    | leading => exact ⟨.leading .not, by decide, h⟩
    | trailing => exact ⟨.trailing .isNull, by decide, h⟩
    | binary => exact ⟨.binary .or, by decide, h⟩

theorem find?_eq_none_iff : vocabulary.find? name = none ↔ name ∉ vocabulary.names := by
  simp [find?, names, ofEachNamespace, namesWithin, Named.get?_eq_none_iff]

/-- Putting an operand under a name changes what that name means in the namespace of the operand,
and nothing else. -/
theorem findWithin?_put : (vocabulary.put name operand).findWithin? other within =
    if other = name ∧ within.namespaceName = operand.namespaceName then some operand
    else vocabulary.findWithin? other within := by
  by_cases hother : other = name <;> cases operand <;> cases within <;>
    simp [put, findWithin?, Named.get?_insert, Operand.namespaceName, hother]

/-- A name that is put is held by the namespace of the operand. Other names stay. -/
theorem holds_put : (vocabulary.put name operand).Holds other within ↔
    other = name ∧ within.namespaceName = operand.namespaceName ∨
      vocabulary.Holds other within := by
  unfold Holds
  rw [findWithin?_put]
  split <;> simp [*]

/-- What holds of a vocabulary after any calls. -/
structure Coherent (vocabulary : Vocabulary) : Prop where
  ascending : ∀ within, (vocabulary.namesWithin within).Pairwise (· < ·)
  /-- No name is in two namespaces. -/
  apart : ∀ name first second, vocabulary.Holds name first → vocabulary.Holds name second →
    first.namespaceName = second.namespaceName
  keywords : ∀ name within, vocabulary.Holds name within →
    Token.isSingleKeyword name.toList = true ∧ normalize name.toList = name.toList

theorem coherent_empty : Coherent empty where
  ascending := by
    intro within
    cases within <;> exact List.Pairwise.nil
  apart := by
    intro name first second hfirst
    cases first <;> cases hfirst
  keywords := by
    intro name within h
    cases within <;> cases h

theorem Coherent.nodup_names (h : vocabulary.Coherent) : vocabulary.names.Nodup := by
  have hnamespaces : ofEachNamespace.Pairwise fun first second =>
      first.namespaceName ≠ second.namespaceName := by decide
  refine List.nodup_flatMap.mpr ⟨fun within _ => ?_, hnamespaces.imp ?_⟩
  · exact List.nodup_iff_pairwise_ne.mpr ((h.ascending within).imp Std.ne_of_lt)
  · intro first second hne name hfirst hsecond
    exact hne (h.apart name first second (holds_iff_mem.mpr hfirst) (holds_iff_mem.mpr hsecond))

theorem holds_of_find?_eq_some (h : vocabulary.find? name = some operand) :
    vocabulary.Holds name operand := by
  unfold Holds
  cases hfunctions : Named.get? name vocabulary.functions <;>
    cases hleading : Named.get? name vocabulary.leading <;>
    cases htrailing : Named.get? name vocabulary.trailing <;>
    cases hbinary : Named.get? name vocabulary.binary <;>
    cases operand <;>
    simp_all [find?, findWithin?]

/-- The namespace of what is found is the only one that has the name. -/
theorem Coherent.admits_iff (h : vocabulary.Coherent) : vocabulary.Admits name operand ↔
    ∀ within, vocabulary.Holds name within → within.namespaceName = operand.namespaceName := by
  constructor
  · intro hadmits within hholds
    cases hfound : vocabulary.find? name with
    | none => exact absurd (mem_names_iff.mpr ⟨within, hholds⟩) (find?_eq_none_iff.mp hfound)
    | some existing =>
      calc within.namespaceName = existing.namespaceName :=
            h.apart name within existing hholds (holds_of_find?_eq_some hfound)
        _ = operand.namespaceName := hadmits existing hfound
  · intro hall existing hfound
    exact hall existing (holds_of_find?_eq_some hfound)

/-- Putting an operand where no other namespace has its name keeps the namespaces apart. -/
theorem Coherent.put (h : vocabulary.Coherent) (hadmits : vocabulary.Admits name operand)
    (hsingle : Token.isSingleKeyword name.toList = true)
    (hnormal : normalize name.toList = name.toList) : (vocabulary.put name operand).Coherent where
  ascending := by
    intro within
    have hwithin := h.ascending within
    cases within <;> cases operand <;>
      first | exact hwithin | exact Named.Ascending.insert hwithin _ _
  apart := by
    have hname := h.admits_iff.mp hadmits
    intro other first second hfirst hsecond
    rcases holds_put.mp hfirst with ⟨hother, hfirst⟩ | hfirst <;>
      rcases holds_put.mp hsecond with ⟨hother', hsecond⟩ | hsecond
    · exact hfirst.trans hsecond.symm
    · exact hfirst.trans (hname second (hother ▸ hsecond)).symm
    · exact (hname first (hother' ▸ hfirst)).trans hsecond.symm
    · exact h.apart other first second hfirst hsecond
  keywords := by
    intro other within hother
    rcases holds_put.mp hother with ⟨rfl, -⟩ | hother
    · exact ⟨hsingle, hnormal⟩
    · exact h.keywords other within hother

/-- Names that are all different belong to one namespace each. -/
theorem Coherent.foldl_put {operands : List (String × Operand)} (h : vocabulary.Coherent)
    (hnodup : (operands.map Prod.fst).Nodup)
    (hfresh : ∀ entry ∈ operands, vocabulary.find? entry.1 = none)
    (hkeywords : ∀ entry ∈ operands,
      Token.isSingleKeyword entry.1.toList = true ∧ normalize entry.1.toList = entry.1.toList) :
    (operands.foldl (fun vocabulary entry => vocabulary.put entry.1 entry.2)
      vocabulary).Coherent := by
  induction operands generalizing vocabulary with
  | nil => exact h
  | cons entry rest ih =>
    rw [List.map_cons, List.nodup_cons] at hnodup
    have hadmits : vocabulary.Admits entry.1 entry.2 :=
      admits_of_find?_eq_none (hfresh _ List.mem_cons_self)
    have hput := hkeywords _ List.mem_cons_self
    refine ih (h.put hadmits hput.1 hput.2) hnodup.2 (fun other hother => ?_)
      (fun other hother => hkeywords other (List.mem_cons_of_mem _ hother))
    have hne : other.1 ≠ entry.1 := fun heq =>
      hnodup.1 (List.mem_map.mpr ⟨other, hother, heq⟩)
    rw [hadmits.find?_put, if_neg hne]
    exact hfresh other (List.mem_cons_of_mem _ hother)

/-- The standard keywords are in one namespace each. -/
theorem coherent_standard : Coherent standard :=
  coherent_empty.foldl_put (by decide) (fun entry _ => find?_empty entry.1) (by decide)

/-! ## Calls -/

theorem Answers.coherent {keyword : List Char} {extended : Vocabulary} {previous : Option Operand}
    (hcoherent : vocabulary.Coherent)
    (h : vocabulary.Answers keyword operand (.ok (extended, previous))) : extended.Coherent := by
  cases h with
  | accepted hscans hadmits =>
    have hsingle := Token.isSingleKeyword_iff_scansAsKeyword.mpr hscans
    refine hcoherent.put hadmits ?_ ?_
    · rwa [String.toList_ofList]
    · rw [String.toList_ofList, normalize_normalize hsingle]

/-- Every call keeps the namespaces apart, whether it is refused or not. -/
theorem Coherent.afterCall (h : vocabulary.Coherent) (call : List Char × Operand) :
    (vocabulary.afterCall call).Coherent := by
  have hanswers := answers_register vocabulary call.1 call.2
  unfold Vocabulary.afterCall
  split
  next extended previous haccepted =>
    rw [haccepted] at hanswers
    exact hanswers.coherent h
  next => exact h

theorem Coherent.afterCalls (h : vocabulary.Coherent) (calls : List (List Char × Operand)) :
    (vocabulary.afterCalls calls).Coherent := by
  induction calls generalizing vocabulary with
  | nil => exact h
  | cons call rest ih => exact ih (h.afterCall call)

/-- A call takes no name out of a namespace. -/
theorem holds_afterCall (h : vocabulary.Holds name within) (call : List Char × Operand) :
    (vocabulary.afterCall call).Holds name within := by
  have hanswers := answers_register vocabulary call.1 call.2
  unfold afterCall
  split
  next extended previous haccepted =>
    rw [haccepted] at hanswers
    cases hanswers
    exact holds_put.mpr (.inr h)
  next => exact h

theorem holds_afterCalls (h : vocabulary.Holds name within) (calls : List (List Char × Operand)) :
    (vocabulary.afterCalls calls).Holds name within := by
  induction calls generalizing vocabulary with
  | nil => exact h
  | cons call rest ih => exact ih (holds_afterCall h call)

theorem lookup_isSome_iff {word : List Char} : (vocabulary.lookup word).isSome = true ↔
    String.ofList (normalize word) ∈ vocabulary.names := by
  rw [← not_iff_not, Bool.not_eq_true, Option.isSome_eq_false_iff, Option.isNone_iff_eq_none,
    lookup, find?_eq_none_iff]

/-- What registering does to every vocabulary that calls lead to, accepted or refused. The last part
is about one more call. -/
theorem register_keeps_namespaces {start : Vocabulary} (hstart : start = empty ∨ start = standard)
    (calls : List (List Char × Operand)) :
    let vocabulary := start.afterCalls calls
    (∀ name ∈ vocabulary.names,
      normalize name.toList = name.toList ∧ Token.ScansAsKeyword name.toList) ∧
    (∀ name first second, vocabulary.Holds name first → vocabulary.Holds name second →
      first.namespaceName = second.namespaceName) ∧
    (∀ name within more, vocabulary.Holds name within →
      (vocabulary.afterCalls more).Holds name within) ∧
    (vocabulary.names.Nodup ∧ vocabulary.size = vocabulary.names.length ∧
      ∀ word, (vocabulary.lookup word).isSome = true ↔
        String.ofList (normalize word) ∈ vocabulary.names) ∧
    ∀ keyword operand,
      ((∃ name, vocabulary.register keyword operand = .error (.invalidKeyword name)) ↔
        ¬Token.ScansAsKeyword (normalize keyword)) ∧
      ((∃ accepted, vocabulary.register keyword operand = .ok accepted) ↔
        Token.ScansAsKeyword (normalize keyword) ∧ ∀ existing,
          vocabulary.lookup keyword = some existing →
            existing.namespaceName = operand.namespaceName) ∧
      (∀ refusal, vocabulary.register keyword operand = .error refusal →
        vocabulary.afterCall (keyword, operand) = vocabulary) ∧
      ∀ extended previous, vocabulary.register keyword operand = .ok (extended, previous) →
        vocabulary.afterCall (keyword, operand) = extended ∧
        previous = vocabulary.lookup keyword ∧
        ∀ word, extended.lookup word =
          if normalize word = normalize keyword then some operand else vocabulary.lookup word := by
  have hcoherent : (start.afterCalls calls).Coherent := by
    rcases hstart with rfl | rfl
    · exact coherent_empty.afterCalls calls
    · exact coherent_standard.afterCalls calls
  refine ⟨fun name hname => ?_, hcoherent.apart, fun name within more h => holds_afterCalls h more,
    ⟨hcoherent.nodup_names, length_names.symm, fun word => lookup_isSome_iff⟩,
    fun keyword operand => ?_⟩
  · obtain ⟨within, hholds⟩ := mem_names_iff.mp hname
    obtain ⟨hsingle, hnormal⟩ := hcoherent.keywords name within hholds
    exact ⟨hnormal, Token.isSingleKeyword_iff_scansAsKeyword.mp hsingle⟩
  · refine ⟨register_invalid_iff, register_accepted_iff, fun refusal h => ?_,
      fun extended previous h => ⟨?_, ?_⟩⟩
    · simp only [afterCall, h]
    · simp only [afterCall, h]
    · exact Answers.lookup (h ▸ answers_register _ keyword operand)

/-- A keyword that is added, one that belongs to another namespace and one that is read as two. -/
theorem register_keeps_namespaces_neq :
    let calls := [(" NEQ ".toList, Operand.binary .ne), ("Not".toList, .binary .ne),
      ("=>".toList, .binary .ge)]
    (standard = empty ∨ standard = standard) ∧
    (standard.afterCalls calls).names.Nodup ∧
    (standard.afterCalls calls).size = standard.size + 1 ∧
    ((standard.afterCalls calls).lookup "neq".toList = some (.binary .ne)) ∧
    ((standard.afterCalls calls).lookup "NOT".toList = some (.leading .not)) ∧
    ((standard.afterCalls calls).lookup "=>".toList = none) := by
  intro calls
  have hkeeps := register_keeps_namespaces (.inr rfl : standard = empty ∨ standard = standard) calls
  refine ⟨.inr rfl, hkeeps.2.2.2.1.1, ?_, ?_, ?_, ?_⟩ <;> decide +kernel

end Vocabulary

end RowFilter
