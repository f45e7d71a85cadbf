import RowFilter.Proofs.Directory.DialectInvariant
import RowFilter.Proofs.Directory.FilterReading
import RowFilter.Proofs.Statement.Relation

/-! # What the dialects write

Both dialects put texts together that have no placeholders of their own, the placeholders of their
parameters, and the parts of their operands. So a relation between parts that is kept in this way
holds between all that they write of related operands.
-/

namespace RowFilter

/-- A relation between parts that is kept by putting them together with plain texts. -/
structure Part.Compatible (plain : String → Prop) (R : Part → Part → Prop) : Prop where
  plain_of_notMem : ∀ text : String, '?' ∉ text.toList → plain text
  plain_append : ∀ {first second : String}, plain first → plain second → plain (first ++ second)
  nil : R [] []
  ofText : ∀ {text : String} {parameters : List Value},
    text.toList.count '?' = parameters.length → R (ofText text parameters) (ofText text parameters)
  startingWith : ∀ {text : String}, plain text → R (startingWith text) (startingWith text)
  thenText : ∀ {part other : Part} {text : String}, R part other → plain text →
    R (part.thenText text) (other.thenText text)
  thenPart : ∀ {part other inner inner' : Part}, R part other → R inner inner' →
    R (part.thenPart inner) (other.thenPart inner')

variable {plain : String → Prop} {R : Part → Part → Prop}

namespace Part.Compatible

variable (hR : Compatible plain R)

include hR

/-- Parts that are related one by one stay related when one is put behind the other. -/
theorem foldl_thenPart {parts others : List Part} (hparts : List.Forall₂ R parts others) :
    ∀ {part other : Part}, R part other →
      R (parts.foldl Part.thenPart part) (others.foldl Part.thenPart other) := by
  induction hparts with
  | nil => exact fun h => h
  | cons hfirst hrest ih => exact fun h => ih (hR.thenPart h hfirst)

/-- Related parts stay related when they are joined with one plain separator. -/
theorem thenJoined {separator : String} (hseparator : plain separator) {parts others : List Part}
    (hparts : List.Forall₂ R parts others) : ∀ {part other : Part}, R part other →
      R (part.thenJoined separator parts) (other.thenJoined separator others) := by
  induction hparts with
  | nil => exact fun h => h
  | cons hfirst hrest ih =>
      intro part other h
      cases hrest with
      | nil => exact hR.thenPart h hfirst
      | cons hsecond hmore => exact ih (hR.thenText (hR.thenPart h hfirst) hseparator)

/-- Related parts between two texts. -/
theorem enclosed {part other : Part} (h : R part other) {opening closing : String}
    (hopening : plain opening) (hclosing : plain closing) :
    R (((Part.startingWith opening).thenPart part).thenText closing)
      (((Part.startingWith opening).thenPart other).thenText closing) :=
  hR.thenText (hR.thenPart (hR.startingWith hopening) h) hclosing

end Part.Compatible

/-- The backend name of the attribute is plain. -/
abbrev Attribute.IsPlain (plain : String → Prop) (definition : Attribute) : Prop :=
  plain definition.backendName

variable (hR : Part.Compatible plain R)

include hR

namespace Tabular

theorem literal_matches (value : Value) (expected : ValueType) :
    Matches R (literal value expected) (literal value expected) := by
  refine Matches.step fun coerced _ => ?_
  split
  next => exact .error _
  next => exact .ok (hR.ofText rfl)

/-- Related terms are written as related parts, or fail alike. -/
theorem termPart_matches {term other : Term} (h : term.Related (Attribute.IsPlain plain) R other)
    (expected : ValueType) : Matches R (termPart term expected) (termPart other expected) := by
  cases h with
  | attr hname => exact .ok (hR.startingWith hname)
  | computed hpart type => exact .ok hpart
  | value value => exact literal_matches hR value expected

theorem truth_related (holds : Bool) : R (truth holds) (truth holds) := by
  refine hR.startingWith (hR.plain_of_notMem _ ?_)
  cases holds <;> decide

theorem negation_related {part other : Part} (h : R part other) :
    R (negation part) (negation other) :=
  hR.enclosed h (hR.plain_of_notMem "NOT (" (by decide)) (hR.plain_of_notMem ")" (by decide))

/-- Junctions of parts that are related one by one are related. -/
theorem junction_related (op : BinaryOp) {parts others : List Part}
    (h : List.Forall₂ R parts others) : R (junction op parts) (junction op others) := by
  have hseparator : plain (if op = .or then " OR " else " AND ") := by
    refine hR.plain_of_notMem _ ?_
    split <;> decide
  have hopening := hR.startingWith (hR.plain_of_notMem "(" (by decide))
  exact hR.thenText (hR.thenJoined hseparator h hopening) (hR.plain_of_notMem _ (by decide))

theorem nullCheck_matches {term other : Term} (h : term.Related (Attribute.IsPlain plain) R other)
    (isNull : Bool) : Matches R (nullCheck term isNull) (nullCheck other isNull) := by
  have htext : plain (if isNull = true then " IS NULL" else " IS NOT NULL") := by
    refine hR.plain_of_notMem _ ?_
    cases isNull <;> decide
  cases h with
  | value value => exact .ok (truth_related hR _)
  | attr hname => exact .ok (hR.thenText (hR.startingWith hname) htext)
  | computed hpart type => exact .ok (hR.thenText hpart htext)

/-- A column may be NULL in related parts alike. -/
theorem orNull_related {condition condition' column column' : Part}
    (hcondition : R condition condition') (hcolumn : R column column') :
    R (orNull condition column) (orNull condition' column') := by
  have hopening := hR.startingWith (hR.plain_of_notMem "(" (by decide))
  have hor := hR.thenText (hR.thenPart hopening hcondition) (hR.plain_of_notMem " OR " (by decide))
  exact hR.thenText (hR.thenPart hor hcolumn) (hR.plain_of_notMem _ (by decide))

omit hR in
/-- A list of placeholders has one for each parameter. -/
theorem count_placeholders (parameters : List Value) :
    (", ".intercalate (parameters.map fun _ => "?")).toList.count '?' = parameters.length := by
  induction parameters with
  | nil => rfl
  | cons first rest ih =>
      cases rest with
      | nil => simp
      | cons second more =>
          have hcons : ", ".intercalate ((first :: second :: more).map fun _ => "?") =
              "?" ++ ", " ++ ", ".intercalate ((second :: more).map fun _ => "?") :=
            String.intercalate_cons_cons
          have hopening : ("?" ++ ", ").toList.count '?' = 1 := by decide
          rw [hcons, String.toList_append, List.count_append, ih, hopening, Nat.add_comm]
          rfl

omit hR in
/-- Related terms have one type and may be NULL alike. -/
theorem related_type {N : Attribute → Prop} {term other : Term} (h : term.Related N R other) :
    term.type = other.type ∧ term.isNullable = other.isNullable := by
  cases h with
  | attr hname => exact ⟨rfl, rfl⟩
  | computed hpart type => exact ⟨rfl, rfl⟩
  | value value => exact ⟨rfl, rfl⟩

/-- Memberships match: what is listed is known, and what is looked up is related. -/
theorem membership_matches (op : BinaryOp) {left left' right right' : Term}
    (hleft : left.Related (Attribute.IsPlain plain) R left')
    (hright : right.Related (Attribute.IsPlain plain) R right') :
    Matches R (membership op left right) (membership op left' right') := by
  obtain ⟨htype, hnullable⟩ := related_type hleft
  cases hright with
  | attr hname => exact .error _
  | computed hpart type => exact .error _
  | value candidates =>
      unfold membership
      simp only [← htype, ← hnullable]
      refine Matches.ite (fun _ => .error _) fun _ => ?_
      refine Matches.ite (fun _ => .ok (truth_related hR _)) fun _ => ?_
      refine Matches.step fun parameters _ => ?_
      refine (termPart_matches hR hleft _).bind fun column column' hcolumn => ?_
      have hkeyword : plain (if (op == .containsNone) = true then " NOT IN (" else " IN (") := by
        refine hR.plain_of_notMem _ ?_
        split <;> decide
      have hlist := hR.ofText (count_placeholders parameters)
      have hcolumnText := hR.thenText (hR.thenPart hR.nil hcolumn) hkeyword
      have hcondition := hR.thenText (hR.thenPart hcolumnText hlist)
        (hR.plain_of_notMem ")" (by decide))
      refine .ok ?_
      split
      next => exact orNull_related hR hcondition hcolumn
      next => exact hcondition

omit hR in
/-- No operator of comparison has a placeholder in its symbol. -/
theorem notMem_comparisonText {op : BinaryOp} {symbol : String}
    (h : comparisonText? op = some symbol) : '?' ∉ symbol.toList := by
  cases op <;> cases h <;> decide

theorem plainComparison_matches (op : BinaryOp) {left left' right right' : Term}
    (hleft : left.Related (Attribute.IsPlain plain) R left')
    (hright : right.Related (Attribute.IsPlain plain) R right') :
    Matches R (plainComparison op left right) (plainComparison op left' right') := by
  obtain ⟨htype, hnullable⟩ := related_type hleft
  obtain ⟨htype', -⟩ := related_type hright
  unfold plainComparison
  simp only [← htype, ← hnullable, ← htype']
  split
  next => exact .error _
  next symbol hsymbol =>
    have hplain := hR.plain_of_notMem symbol (notMem_comparisonText hsymbol)
    refine (termPart_matches hR hleft _).bind fun l l' hl => ?_
    refine (termPart_matches hR hright _).bind fun r r' hr => ?_
    have hcondition := hR.thenPart (hR.thenText (hR.thenPart hR.nil hl) hplain) hr
    refine .ok ?_
    split
    next => exact orNull_related hR hcondition hl
    next => exact hcondition

omit hR in
/-- Memberships are written before anything else is looked at. -/
theorem comparison_membership {op : BinaryOp} (hop : op = .containsOneOf ∨ op = .containsNone)
    (left right : Term) : comparison op left right = membership op left right := by
  rcases hop with rfl | rfl <;> rfl

omit hR in
/-- Only equality asks whether something is NULL. Nothing else holds of it. -/
theorem comparison_null (op : BinaryOp) (left : Term) :
    ¬(op = .containsOneOf ∨ op = .containsNone) → comparison op left (.value .null) =
      match op with
      | .eq => nullCheck left true
      | .ne => nullCheck left false
      | _ => .ok (truth false) := by
  intro hop
  cases op with
  | containsOneOf => exact absurd (Or.inl rfl) hop
  | containsNone => exact absurd (Or.inr rfl) hop
  | _ => cases left <;> rfl

omit hR in
/-- A condition that is compared with a truth value is the condition or its negation. -/
theorem comparison_truth (op : BinaryOp) (part : Part) (b : Bool) :
    ¬(op = .containsOneOf ∨ op = .containsNone) →
      comparison op (.computed part .boolean) (.value (.boolean b)) =
        match op with
        | .eq => .ok (if b then part else negation part)
        | .ne => .ok (if b then negation part else part)
        | _ => plainComparison op (.computed part .boolean) (.value (.boolean b)) := by
  intro hop
  cases op with
  | containsOneOf => exact absurd (Or.inl rfl) hop
  | containsNone => exact absurd (Or.inr rfl) hop
  | _ => rfl

omit hR in
/-- All other comparisons are written with the symbol of their operator. -/
theorem comparison_plain {op : BinaryOp} (hop : ¬(op = .containsOneOf ∨ op = .containsNone))
    {left right : Term} (hnull : right ≠ .value .null)
    (htruth : ∀ part b, left = .computed part .boolean → right ≠ .value (.boolean b)) :
    comparison op left right = plainComparison op left right := by
  rw [not_or] at hop
  unfold comparison
  split
  next => exact absurd rfl hop.1
  next => exact absurd rfl hop.2
  next =>
    split
    next => exact absurd rfl hnull
    next part b => exact absurd rfl (htruth part b rfl)
    next => rfl

/-- A computed truth value is kept or negated when it is compared with a truth value. -/
theorem ite_negation_related {part other : Part} (h : R part other) (b : Bool) :
    R (if b = true then part else negation part) (if b = true then other else negation other) ∧
      R (if b = true then negation part else part)
        (if b = true then negation other else other) := by
  cases b with
  | false => exact ⟨negation_related hR h, h⟩
  | true => exact ⟨h, negation_related hR h⟩

/-- Whatever is compared, related terms are compared in related parts, or fail alike. -/
theorem comparison_matches (op : BinaryOp) {left left' right right' : Term}
    (hleft : left.Related (Attribute.IsPlain plain) R left')
    (hright : right.Related (Attribute.IsPlain plain) R right') :
    Matches R (comparison op left right) (comparison op left' right') := by
  -- Related operands fall into the same case, so only one of the two has to be distinguished.
  have hplain := plainComparison_matches hR op hleft hright
  by_cases hop : op = .containsOneOf ∨ op = .containsNone
  · rw [comparison_membership hop, comparison_membership hop]
    exact membership_matches hR op hleft hright
  by_cases hnull : right = .value .null
  · subst hnull
    cases hright
    rw [comparison_null op left hop, comparison_null op left' hop]
    split
    next => exact nullCheck_matches hR hleft true
    next => exact nullCheck_matches hR hleft false
    next => exact .ok (truth_related hR false)
  by_cases htruth : ∃ part b, left = .computed part .boolean ∧ right = .value (.boolean b)
  · obtain ⟨part, b, rfl, rfl⟩ := htruth
    cases hleft with
    | computed hpart type =>
        cases hright
        obtain ⟨heq, hne⟩ := ite_negation_related hR hpart b
        rw [comparison_truth op _ b hop, comparison_truth op _ b hop]
        split
        next => exact .ok heq
        next => exact .ok hne
        next => exact hplain
  · have hnull' : right' ≠ .value .null := by
      cases hright with
      | value value => exact hnull
      | _ => simp
    have htruth' : ¬ ∃ part b, left' = .computed part .boolean ∧ right' = .value (.boolean b) := by
      rintro ⟨part, b, rfl, rfl⟩
      cases hleft
      cases hright
      exact htruth ⟨_, b, rfl, rfl⟩
    rwa [comparison_plain hop hnull fun part b hl hr => htruth ⟨part, b, hl, hr⟩,
      comparison_plain hop hnull' fun part b hl hr => htruth' ⟨part, b, hl, hr⟩]

omit hR in
/-- No operator of arithmetic has a placeholder in its symbol. -/
theorem notMem_arithmeticText {op : BinaryOp} {joinsText : Bool} {symbol : String}
    {target : ValueType} (h : arithmeticText? op joinsText = some (symbol, target)) :
    '?' ∉ symbol.toList := by
  cases op <;> cases joinsText <;> cases h <;> decide

theorem arithmetic_matches (op : BinaryOp) {left left' right right' : Term}
    (hleft : left.Related (Attribute.IsPlain plain) R left')
    (hright : right.Related (Attribute.IsPlain plain) R right') :
    Matches R (arithmetic op left right) (arithmetic op left' right') := by
  obtain ⟨htype, -⟩ := related_type hleft
  obtain ⟨htype', -⟩ := related_type hright
  unfold arithmetic
  simp only [← htype, ← htype']
  split
  next => exact .error _
  next symbol target hsymbol =>
    have hplain := hR.plain_of_notMem symbol (notMem_arithmeticText hsymbol)
    refine (termPart_matches hR hleft _).bind fun l l' hl => ?_
    refine (termPart_matches hR hright _).bind fun r r' hr => ?_
    have hopening := hR.startingWith (hR.plain_of_notMem "(" (by decide))
    have hjoined := hR.thenPart (hR.thenText (hR.thenPart hopening hl) hplain) hr
    exact .ok (hR.thenText hjoined (hR.plain_of_notMem _ (by decide)))

theorem call_related {name : String} (hname : '?' ∉ (name ++ "(").toList) {part other : Part}
    (h : R part other) : R (call name part) (call name other) :=
  hR.enclosed h (hR.plain_of_notMem _ hname) (hR.plain_of_notMem ")" (by decide))

/-- What is asked about being empty stands in the condition twice. -/
theorem isEmpty_related {part other : Part} (h : R part other) :
    R ((((((Part.startingWith "(").thenPart part).thenText " IS NULL OR ").thenPart part).thenPart
        (Part.ofText " = ?" [.string ""])).thenText ")")
      ((((((Part.startingWith "(").thenPart other).thenText " IS NULL OR ").thenPart other).thenPart
        (Part.ofText " = ?" [.string ""])).thenText ")") := by
  have hopening := hR.startingWith (hR.plain_of_notMem "(" (by decide))
  have hnull := hR.thenText (hR.thenPart hopening h) (hR.plain_of_notMem " IS NULL OR " (by decide))
  have hempty := hR.thenPart (hR.thenPart hnull h)
    (hR.ofText (by rfl : " = ?".toList.count '?' = [Value.string ""].length))
  exact hR.thenText hempty (hR.plain_of_notMem _ (by decide))

theorem function_matches (called : Builtin) {arguments others : List Term}
    (h : List.Forall₂ (Term.Related (Attribute.IsPlain plain) R) arguments others) :
    Matches R (function called arguments) (function called others) := by
  have hparts := Matches.mapM (h.imp fun _ _ hterm => termPart_matches hR hterm called.argumentType)
  refine hparts.bind fun parts parts' hall => ?_
  cases hall with
  | nil => cases called <;> exact .error _
  | cons hfirst hrest =>
      have hjoined := hR.thenText (hR.thenJoined (hR.plain_of_notMem " || " (by decide))
        (.cons hfirst hrest) (hR.startingWith (hR.plain_of_notMem "(" (by decide))))
        (hR.plain_of_notMem ")" (by decide))
      cases hrest with
      | nil =>
          cases called with
          | lower => exact .ok (call_related hR (by decide) hfirst)
          | upper => exact .ok (call_related hR (by decide) hfirst)
          | size => exact .ok (call_related hR (by decide) hfirst)
          | isEmpty => exact .ok (isEmpty_related hR hfirst)
          | concat => exact .ok hjoined
          | now => exact .error _
      | cons hsecond hmore =>
          cases called with
          | concat => exact .ok hjoined
          | _ => exact .error _

/-- The tabular dialect makes related parts of related terms. -/
theorem dialect_relates : dialect.Relates (Attribute.IsPlain plain) R where
  comparison op _ _ _ _ hleft hright := comparison_matches hR op hleft hright
  nullCheck isNull h := nullCheck_matches hR h isNull
  junction op _ _ h := junction_related hR op h
  negation h := negation_related hR h
  truth holds := truth_related hR holds
  arithmetic op _ _ _ _ hleft hright := arithmetic_matches hR op hleft hright
  function called _ _ h := function_matches hR called h

end Tabular

namespace Directory

theorem literal_yields (value : Value) (expected : ValueType) :
    Yields (fun part => R part part) (literal value expected) := by
  refine Yields.step fun coerced _ => ?_
  split
  next => exact Yields.error _
  next => exact Yields.error _
  next => exact Yields.ok (hR.ofText rfl)

/-- An item of a filter has a placeholder for its value and no other. -/
theorem item_yields {definition : Attribute} (hname : definition.IsPlain plain) {relation : String}
    (hrelation : '?' ∉ relation.toList) (value : Value) (target : ValueType) :
    Yields (fun part => R part part) (item definition relation value target) := by
  refine (literal_yields hR value target).bind fun assertion hassertion => Yields.ok ?_
  have hopening := hR.plain_append (hR.plain_append (hR.plain_of_notMem "(" (by decide)) hname)
    (hR.plain_of_notMem relation hrelation)
  exact hR.enclosed hassertion hopening (hR.plain_of_notMem ")" (by decide))

theorem presence_related {definition : Attribute} (hname : definition.IsPlain plain) :
    R (presence definition) (presence definition) := by
  have hopening := hR.plain_append (hR.plain_of_notMem "(" (by decide)) hname
  exact hR.startingWith (hR.plain_append hopening (hR.plain_of_notMem "=*)" (by decide)))

theorem negation_related {part other : Part} (h : R part other) :
    R (negation part) (negation other) :=
  hR.enclosed h (hR.plain_of_notMem "(!" (by decide)) (hR.plain_of_notMem ")" (by decide))

theorem junction_related (op : BinaryOp) {parts others : List Part}
    (h : List.Forall₂ R parts others) : R (junction op parts) (junction op others) := by
  have hopening : plain (if op = .or then "(|" else "(&") := by
    refine hR.plain_of_notMem _ ?_
    split <;> decide
  exact hR.thenText (hR.foldl_thenPart h (hR.startingWith hopening))
    (hR.plain_of_notMem _ (by decide))

theorem truth_related (holds : Bool) : R (truth holds) (truth holds) := by
  refine hR.startingWith (hR.plain_of_notMem _ ?_)
  cases holds <;> decide

omit hR in
/-- A question mark in a pattern is escaped. -/
theorem notMem_patternAssertion (pattern : List Char) : '?' ∉ patternAssertion pattern := by
  have hmap : ((Text.pieces '%' pattern).map fun piece => escapeBytes (Text.encode piece)) =
      ((Text.pieces '%' pattern).map Text.encode).map escapeBytes := by
    rw [List.map_map]
    rfl
  rw [patternAssertion, hmap]
  exact SearchFilter.notMem_intercalate (by decide) (by decide) (by decide)

theorem substring_yields {definition : Attribute} (hname : definition.IsPlain plain)
    (pattern : Value) : Yields (fun part => R part part) (substring definition pattern) := by
  refine Yields.step fun coerced _ => ?_
  cases coerced with
  | string text =>
      refine Yields.ite (fun _ => Yields.error _) fun _ => Yields.ok (hR.startingWith ?_)
      have hopening := hR.plain_append (hR.plain_of_notMem "(" (by decide)) hname
      have hequals := hR.plain_append hopening (hR.plain_of_notMem "=" (by decide))
      have hpattern : plain (String.ofList (patternAssertion text.toList)) := by
        refine hR.plain_of_notMem _ ?_
        rw [String.toList_ofList]
        exact notMem_patternAssertion text.toList
      exact hR.plain_append (hR.plain_append hequals hpattern) (hR.plain_of_notMem ")" (by decide))
  | _ => exact Yields.ok (truth_related hR false)

/-- What the directory dialect builds is related to itself. -/
theorem builds : Builds (Attribute.IsPlain plain) fun part => R part part where
  item hname relation hrelation value target := by
    have hplain : ∀ relation ∈ ["=", ">=", "<="], '?' ∉ relation.toList := by decide
    exact item_yields hR hname (hplain relation hrelation) value target
  substring hname pattern := substring_yields hR hname pattern
  presence hname := presence_related hR hname
  negation h := negation_related hR h
  junction op _ _ h := junction_related hR op (List.forall₂_same.mpr h)
  truth holds := truth_related hR holds

/-- Only attributes and values can be compared, so operands that are compared do not differ. -/
theorem comparison_matches (op : BinaryOp) {left left' right right' : Term}
    (hleft : left.Related (Attribute.IsPlain plain) R left')
    (hright : right.Related (Attribute.IsPlain plain) R right') :
    Matches R (comparison op left right) (comparison op left' right') := by
  cases hleft with
  | value value => exact .error _
  | computed hpart type => exact .error _
  | @attr definition hname =>
      cases hright with
      | attr hname => exact .error _
      | computed hpart type => exact .error _
      | value value =>
          have hattr : (Term.attr definition).Respects (Attribute.IsPlain plain)
            fun part => R part part := hname
          exact .of_yields ((builds hR).comparison op hattr (.value value))

/-- The directory dialect asks about NULL of attributes alone. -/
theorem nullCheck_matches {term other : Term} (h : term.Related (Attribute.IsPlain plain) R other)
    (isNull : Bool) : Matches R (nullCheck term isNull) (nullCheck other isNull) := by
  cases h with
  | value value => exact .ok (truth_related hR _)
  | computed hpart type => exact .error _
  | @attr definition hname =>
      have hattr : (Term.attr definition).Respects (Attribute.IsPlain plain)
        fun part => R part part := hname
      exact .of_yields ((builds hR).nullCheck hattr isNull)

/-- The directory dialect makes related parts of related terms. -/
theorem dialect_relates : dialect.Relates (Attribute.IsPlain plain) R where
  comparison op _ _ _ _ hleft hright := comparison_matches hR op hleft hright
  nullCheck isNull h := nullCheck_matches hR h isNull
  junction op _ _ h := junction_related hR op h
  negation h := negation_related hR h
  truth holds := truth_related hR holds
  arithmetic _ _ _ _ _ _ _ := .error _
  function _ _ _ _ := .error _

end Directory

/-- Both dialects keep a relation that is kept by putting parts and plain texts together. -/
theorem Backend.dialect_relates (backend : Backend) :
    backend.dialect.Relates (Attribute.IsPlain plain) R := by
  cases backend with
  | tabular => exact Tabular.dialect_relates hR
  | directory => exact Directory.dialect_relates hR

end RowFilter
