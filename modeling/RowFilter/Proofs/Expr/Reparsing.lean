import RowFilter.Proofs.Expr.Reading

/-! # Parsing printed expressions

The text of every tree of the parser is parsed as its reading, or refused where the reading finds
comparisons that are chained. Each tree is read at the precedence that it has, and from there at
every looser one; the operands of a chain are read from the left.
-/

namespace RowFilter

theorem Expr.one_le_precedence (expr : Expr) : 1 ≤ expr.precedence := by
  cases expr with
  | unary op _ => cases op <;> simp [precedence]
  | binary op _ _ => cases op <;> simp [precedence, BinaryOp.precedence]
  | _ => simp [precedence]

namespace Parser

variable {span : Span}

/-- A tree whose tokens, with null checks after them, are read as its reading. -/
def ReadsChecked (span : Span) (shapes : List Shape) (expr : Expr) : Prop :=
  ∀ (checks : List UnaryOp) (tokens checkTokens more : List Token),
    tokens.map Token.shape = shapes → IsChecks checks checkTokens → Follows 6 more →
      Reads (signed (Context.ending span) (tokens ++ (checkTokens ++ more)))
        (Expr.reading checks expr) more

/-- How the tokens of a tree are read, by what may follow them. -/
structure Rereads (span : Span) (expr : Expr) : Prop where
  checked : 6 ≤ expr.precedence → ReadsChecked span expr.shapes expr
  ended : ∀ n, 1 ≤ n → n ≤ 6 → n ≤ expr.precedence →
    ReadsAt span n expr.shapes (Expr.reading [] expr)
  continued : ∀ kind : Chain, kind.precedence ≤ expr.precedence →
    Continues span kind expr.shapes (Expr.reading [] expr)
  /-- A comparison that another one follows is refused. -/
  compared : expr.precedence = 3 → ∀ (tokens rest more : List Token) (next : Token)
    (op : BinaryOp), tokens.map Token.shape = expr.shapes →
      next.shape.meaning = some (.binary op) → op.isComparison = true →
        Reads (comparison (Context.ending span) (tokens ++ next :: rest)) none more

theorem IsChecks.nil : IsChecks [] [] :=
  ⟨by simp, rfl⟩

theorem IsChecks.cons {op : UnaryOp} {checks : List UnaryOp} {token : Token}
    {tokens : List Token} (hop : op.isTrailing = true)
    (hshape : token.shape = Shape.keyword op.keyword) (h : IsChecks checks tokens) :
    IsChecks (op :: checks) (token :: tokens) :=
  ⟨by simpa using ⟨hop, h.1⟩, by rw [List.map_cons, List.map_cons, hshape, h.2]⟩

/-- No call opens behind null checks that a level can follow. -/
theorem IsChecks.kind_ne {checks : List UnaryOp} {tokens more : List Token} {least : Nat}
    (h : IsChecks checks tokens) (hmore : Follows least more) :
    ∀ next ∈ (tokens ++ more).head?, next.kind ≠ .parenOpen := by
  obtain ⟨-, htokens⟩ := h
  cases checks with
  | nil =>
      obtain rfl := List.map_eq_nil_iff.mp htokens
      exact fun next hnext => (hmore next hnext).1
  | cons op checks =>
      obtain ⟨token, others, rfl, hshape, -⟩ := List.map_eq_cons_iff.mp htokens
      rintro _ ⟨⟩
      have hkind : token.kind = .keyword := congrArg Prod.fst hshape
      rw [hkind]
      decide

/-! ## Between brackets -/

namespace Rereads

variable {expr : Expr} (h : Rereads span expr)

include h

/-- An expression in brackets is read with the null checks after it put around it. -/
theorem signed_brackets {checks : List UnaryOp} {tokens checkTokens more : List Token}
    (htokens : tokens.map Token.shape = Shape.opening :: expr.shapes ++ [Shape.closing])
    (hchecks : IsChecks checks checkTokens) (hmore : Follows 6 more) :
    Reads (signed (Context.ending span) (tokens ++ (checkTokens ++ more)))
      ((Expr.reading [] expr).map (Expr.checkAll checks)) more := by
  rw [List.cons_append] at htokens
  obtain ⟨opening, others, rfl, hopening, hothers⟩ := List.map_eq_cons_iff.mp htokens
  obtain ⟨inner, last, rfl, hinner, hlast⟩ := List.map_eq_append_iff.mp hothers
  obtain ⟨closing, rfl, hclosing⟩ := List.map_eq_singleton_iff.mp hlast
  have hkind : closing.kind = .parenClose := congrArg Prod.fst hclosing
  have hopenkind : opening.kind = .parenOpen := congrArg Prod.fst hopening
  have hmeaning : opening.shape.meaning = none := if_neg (by
    rw [show opening.shape.1 = .parenOpen from hopenkind]
    decide)
  refine signed_reads_primary ?_ hchecks hmore ?_
  · rintro _ ⟨⟩
    rw [hmeaning]
    exact ⟨by simp, by simp⟩
  · rw [List.cons_append, List.append_assoc, List.singleton_append]
    refine primary_reads_brackets hopening hclosing ?_
    exact h.ended 1 (by decide) (by decide) expr.one_le_precedence inner _ hinner
      (Follows.cons (by rw [hkind]; decide) 1 _)

/-- With brackets if it needs them, an operand is read with the null checks after it. -/
theorem readsChecked_bracketed :
    ReadsChecked span (Shape.bracketed 6 expr expr.shapes) expr := by
  intro checks tokens checkTokens more htokens hchecks hmore
  by_cases hlt : expr.precedence < 6
  · rw [Shape.bracketed, if_pos hlt] at htokens
    rw [Expr.reading_of_precedence_lt hlt]
    exact h.signed_brackets htokens hchecks hmore
  · rw [Shape.bracketed, if_neg hlt] at htokens
    exact h.checked (by omega) checks tokens checkTokens more htokens hchecks hmore

/-- In brackets, an expression is read at every level. -/
theorem readsAt_brackets {n : Nat} (hpos : 1 ≤ n) (hle : n ≤ 6) :
    ReadsAt span n (Shape.opening :: expr.shapes ++ [Shape.closing]) (Expr.reading [] expr) := by
  intro tokens more htokens hmore
  have hsigned := h.signed_brackets htokens IsChecks.nil (hmore.mono hle)
  have hid : (Expr.reading [] expr).map (Expr.checkAll []) = Expr.reading [] expr :=
    Option.map_id'
  rw [hid] at hsigned
  refine level_mono hpos hle (Nat.le_refl 6) hmore ?_ hsigned
  obtain ⟨opening, others, rfl, hopening, -⟩ := List.map_eq_cons_iff.mp htokens
  rintro - _ ⟨⟩ op
  rw [hopening]
  exact (Shape.Begins.opening 3).2 (Nat.le_refl 3) op

theorem readsAt_bracketed {n : Nat} (hpos : 1 ≤ n) (hle : n ≤ 6) :
    ReadsAt span n (Shape.bracketed n expr expr.shapes) (Expr.reading [] expr) := by
  unfold Shape.bracketed
  split
  next => exact h.readsAt_brackets hpos hle
  next hlt => exact h.ended n hpos hle (by omega)

/-- With brackets if it needs them, an expression may continue any chain of that level. -/
theorem continues_bracketed (kind : Chain) :
    Continues span kind (Shape.bracketed kind.precedence expr expr.shapes)
      (Expr.reading [] expr) := by
  unfold Shape.bracketed
  split
  next =>
    refine continues_of_readsAt (h.readsAt_brackets (Nat.le_add_left 1 _) ?_)
    cases kind <;> decide
  next hlt => exact h.continued kind (by omega)

end Rereads

/-! ## Every construct -/

section

variable {expr : Expr} (hparsed : expr.Parsed)

include hparsed

/-- What is read at one level is read at all looser ones. -/
theorem readsAt_mono {n m : Nat} {outcome : Option Expr} (hpos : 1 ≤ n) (hnm : n ≤ m)
    (hm : m ≤ 6) (hloose : 3 < m → 3 ≤ expr.precedence)
    (h : ReadsAt span m expr.shapes outcome) : ReadsAt span n expr.shapes outcome := by
  intro tokens more htokens hmore
  refine level_mono hpos hnm hm hmore (fun hlt => ?_) (h tokens more htokens (hmore.mono hnm))
  obtain ⟨shape, rest, hshapes, hbegins⟩ := hparsed.begins
  obtain ⟨token, others, rfl, hshape, -⟩ := List.map_eq_cons_iff.mp (htokens.trans hshapes)
  rintro _ ⟨⟩ op
  rw [hshape]
  exact hbegins.2 (hloose hlt) op

/-- What binds tighter than every operator is read with the null checks after it. -/
theorem Rereads.of_checked (hprecedence : 6 ≤ expr.precedence)
    (h : ReadsChecked span expr.shapes expr) : Rereads span expr := by
  have hsix : ReadsAt span 6 expr.shapes (Expr.reading [] expr) :=
    fun tokens more htokens hmore => h [] tokens [] more htokens IsChecks.nil hmore
  have hended : ∀ n, 1 ≤ n → n ≤ 6 → ReadsAt span n expr.shapes (Expr.reading [] expr) :=
    fun n hpos hle => readsAt_mono hparsed hpos hle (Nat.le_refl 6) (fun _ => by omega) hsix
  exact {
    checked := fun _ => h
    ended := fun n hpos hle _ => hended n hpos hle
    continued := fun kind _ =>
      continues_of_readsAt (hended _ (Nat.le_add_left 1 _) (by cases kind <;> decide))
    compared := fun heq => absurd hprecedence (by omega) }

/-- A negated condition is reread if it is read where comparisons may stand. -/
theorem Rereads.of_negation (hprecedence : expr.precedence = 2)
    (h : ReadsAt span 3 expr.shapes (Expr.reading [] expr)) : Rereads span expr := by
  have hended : ∀ n, 1 ≤ n → n ≤ 3 → ReadsAt span n expr.shapes (Expr.reading [] expr) :=
    fun n hpos hle => readsAt_mono hparsed hpos hle (by decide) (by omega) h
  exact {
    checked := fun hle => absurd hle (by omega)
    ended := fun n hpos _ hle => hended n hpos (by omega)
    continued := fun kind hle =>
      continues_of_readsAt (hended _ (Nat.le_add_left 1 _) (by omega))
    compared := fun heq => absurd heq (by omega) }

/-- A comparison is reread if it is read as one and refused before another comparison operator. -/
theorem Rereads.of_comparison (hprecedence : expr.precedence = 3)
    (h : ReadsAt span 3 expr.shapes (Expr.reading [] expr))
    (hcompared : ∀ (tokens rest more : List Token) (next : Token) (op : BinaryOp),
      tokens.map Token.shape = expr.shapes → next.shape.meaning = some (.binary op) →
        op.isComparison = true →
          Reads (comparison (Context.ending span) (tokens ++ next :: rest)) none more) :
    Rereads span expr := by
  have hended : ∀ n, 1 ≤ n → n ≤ 3 → ReadsAt span n expr.shapes (Expr.reading [] expr) :=
    fun n hpos hle => readsAt_mono hparsed hpos hle (by decide) (by omega) h
  have hkinds : ∀ kind : Chain, kind.precedence ≤ 3 → kind.precedence + 1 ≤ 3 := by
    intro kind
    cases kind <;> decide
  exact {
    checked := fun hle => absurd hle (by omega)
    ended := fun n hpos _ hle => hended n hpos (by omega)
    continued := fun kind hle => continues_of_readsAt
      (hended _ (Nat.le_add_left 1 _) (hkinds kind (by omega)))
    compared := fun _ => hcompared }

theorem Rereads.of_continues {kind : Chain} (hprecedence : expr.precedence = kind.precedence)
    (h : Continues span kind expr.shapes (Expr.reading [] expr)) : Rereads span expr := by
  have hended : ∀ n, 1 ≤ n → n ≤ kind.precedence →
      ReadsAt span n expr.shapes (Expr.reading [] expr) :=
    fun n hpos hle => readsAt_mono hparsed hpos hle (by cases kind <;> decide) (by omega)
      (readsAt_of_continues h)
  have hinjective : ∀ other : Chain, other.precedence = kind.precedence → other = kind := by
    intro other
    cases other <;> cases kind <;> decide
  exact {
    checked := fun hle => absurd hle (by rw [hprecedence]; cases kind <;> decide)
    ended := fun n hpos _ hle => hended n hpos (by omega)
    continued := fun other hle => by
      by_cases heq : other.precedence = kind.precedence
      · rw [hinjective other heq]
        exact h
      · exact continues_of_readsAt (hended _ (Nat.le_add_left 1 _) (by omega))
    compared := fun heq => absurd heq (by rw [hprecedence]; cases kind <;> decide) }

end

section

variable {checks : List UnaryOp} {checkTokens more tokens : List Token}
  (hchecks : IsChecks checks checkTokens) (hmore : Follows 6 more)

include hchecks hmore

/-- A word that is no operand is read with the null checks after it. -/
theorem signed_reads_word {word : List Char} {expr : Expr}
    (hunknown : Vocabulary.standard.lookup word = none) (hword : ofWord word = .ok expr)
    (htokens : tokens.map Token.shape = [(.keyword, word)]) :
    Reads (signed (Context.ending span) (tokens ++ (checkTokens ++ more)))
      (some (Expr.checkAll checks expr)) more := by
  obtain ⟨token, rfl, hshape⟩ := List.map_eq_singleton_iff.mp htokens
  have hmeaning : token.shape.meaning = none := by
    rw [hshape, Shape.meaning, if_pos rfl, hunknown]
  have hsigned : NotSigned (token :: (checkTokens ++ more)) := by
    rintro _ ⟨⟩
    rw [hmeaning]
    exact ⟨by simp, by simp⟩
  exact signed_reads_primary hsigned hchecks hmore
    (primary_reads_word hshape hunknown hword (hchecks.kind_ne hmore))

/-- A sign in front of a word is read after the null checks behind it. -/
theorem signed_reads_number {word : List Char} {expr : Expr} (hnumber : IsNumberWord word)
    (hword : ofWord word = .ok expr) (negative : Prop) [Decidable negative]
    (htokens : tokens.map Token.shape =
      Shape.ofNumber (if negative then '-' :: word else word)) :
    Reads (signed (Context.ending span) (tokens ++ (checkTokens ++ more)))
      (some (if negative then negate (Expr.checkAll checks expr)
        else Expr.checkAll checks expr)) more := by
  have hunknown := Vocabulary.lookup_number hnumber
  split at htokens
  next hnegative =>
    obtain ⟨minus, others, rfl, hminus, hothers⟩ := List.map_eq_cons_iff.mp htokens
    rw [if_pos hnegative]
    exact signed_reads_minus (hminus ▸ Vocabulary.lookup_binary .sub)
      (signed_reads_word hchecks hmore hunknown hword hothers)
  next hnegative =>
    rw [if_neg hnegative]
    rw [hnumber.shapes_eq] at htokens
    exact signed_reads_word hchecks hmore hunknown hword htokens

end

/-- Every integer but the smallest is read with the null checks after it. -/
theorem readsChecked_integer {n : Int64} (h : -9223372036854775808 < n.toInt) :
    ReadsChecked span (Expr.ofValue (.integer n)).shapes (.ofValue (.integer n)) := by
  intro checks tokens checkTokens more htokens hchecks hmore
  rw [Expr.ofValue, Expr.shapes, Shape.ofLiteral, Value.literalText_integer] at htokens
  · have hword : ofWord (Number.natText n.toInt.natAbs) =
        .ok (.ofValue (.integer (if n.toInt < 0 then -n else n))) := by
      split
      next hneg =>
        have hopposite := (Expr.neg_bound h).2
        have habs : n.toInt.natAbs = (-n).toInt.natAbs := by omega
        rw [habs]
        exact ofWord_natText (by omega)
      next hneg => exact ofWord_natText (by omega)
    have houtcome : Expr.reading checks (.ofValue (.integer n)) = some (if n.toInt < 0
        then negate (Expr.checkAll checks (.ofValue (.integer (if n.toInt < 0 then -n else n))))
        else Expr.checkAll checks (.ofValue (.integer (if n.toInt < 0 then -n else n)))) := by
      rw [Expr.ofValue, Expr.reading, Expr.readingLiteral]
      split <;> rfl
    rw [houtcome]
    exact signed_reads_number hchecks hmore (isNumberWord_natText n.toInt.natAbs) hword
      (n.toInt < 0) htokens
  · simp

theorem readsChecked_float {x : Number.Binary64} (h : x.isFinite = true) :
    ReadsChecked span (Expr.ofValue (.float x)).shapes (.ofValue (.float x)) := by
  intro checks tokens checkTokens more htokens hchecks hmore
  rw [Expr.ofValue, Expr.shapes, Shape.ofLiteral, Value.literalText_float h] at htokens
  · exact signed_reads_number hchecks hmore (isNumberWord_unsignedText x)
      (ofWord_unsignedText h) (x.isNegative = true) htokens
  · simp

theorem readsChecked_string (s : String) :
    ReadsChecked span (Expr.ofValue (.string s)).shapes (.ofValue (.string s)) := by
  intro checks tokens checkTokens more htokens hchecks hmore
  obtain ⟨token, rfl, hshape⟩ := List.map_eq_singleton_iff.mp htokens
  have hsigned : NotSigned (token :: (checkTokens ++ more)) := by
    rintro _ ⟨⟩
    rw [hshape, Shape.meaning, if_neg (by simp)]
    exact ⟨by simp, by simp⟩
  have hprimary : Reads (primary (Context.ending span) (token :: (checkTokens ++ more)))
      (some (.ofValue (.string (String.ofList s.toList)))) (checkTokens ++ more) :=
    primary_reads_constant hshape
  rw [String.ofList_toList] at hprimary
  exact signed_reads_primary hsigned hchecks hmore hprimary

/-- A call is read with the null checks after it if its arguments are reread. -/
theorem readsChecked_call {function : Builtin} {arguments : List Expr} {type : ValueType}
    (hparsed : ∀ argument ∈ arguments, argument.Parsed)
    (htakes : function.takes arguments.length = true)
    (h : ∀ argument ∈ arguments, Rereads span argument) :
    ReadsChecked span
      (Expr.call function (arguments.map (Expr.withExpected function.argumentType)) type).shapes
      (.call function (arguments.map (Expr.withExpected function.argumentType)) type) := by
  intro checks tokens checkTokens more htokens hchecks hmore
  rw [Expr.shapes, Expr.shapesAll_map_withExpected] at htokens
  obtain ⟨name, others, rfl, hname, hothers⟩ := List.map_eq_cons_iff.mp htokens
  obtain ⟨opening, inner, rfl, hopening, hinner⟩ := List.map_eq_cons_iff.mp hothers
  obtain ⟨operands, last, rfl, hoperands, hlast⟩ := List.map_eq_append_iff.mp hinner
  obtain ⟨closing, rfl, hclosing⟩ := List.map_eq_singleton_iff.mp hlast
  have hsigned : NotSigned (name :: opening ::
      (operands ++ closing :: (checkTokens ++ more))) := by
    rintro _ ⟨⟩
    rw [hname, Shape.meaning_keyword, Vocabulary.lookup_function]
    exact ⟨by simp, by simp⟩
  have hbegins : ∀ argument ∈ arguments, ∃ shape rest, argument.shapes = shape :: rest ∧
      shape.1 ≠ .parenClose := by
    intro argument hargument
    obtain ⟨shape, rest, hshapes, hbegins⟩ := (hparsed argument hargument).begins
    exact ⟨shape, rest, hshapes, hbegins.1⟩
  have hmeaning : name.shape.meaning = some (.function function) := by
    rw [hname, Shape.meaning_keyword, Vocabulary.lookup_function]
  rw [Expr.shapesAll_eq_intercalate] at hoperands
  have hreads := signed_reads_primary hsigned hchecks hmore
    (primary_reads_call Expr.shapes (Expr.reading []) hbegins htakes (fun argument hargument =>
      (h argument hargument).ended 1 (by decide) (by decide) argument.one_le_precedence)
      hoperands hmeaning hopening hclosing)
  rw [Option.map_map] at hreads
  rw [Expr.reading, Expr.readingAll_map_withExpected, Expr.readingAll_eq_mapM, List.cons_append,
    List.cons_append, List.append_assoc]
  exact hreads

/-! ## Operators -/

section

variable {operand left right : Expr} {more : List Token}

theorem readsChecked_negate (h : Rereads span operand) :
    ReadsChecked span (applyUnary .negate operand).shapes (applyUnary .negate operand) := by
  intro checks tokens checkTokens more htokens hchecks hmore
  simp only [applyUnary, Expr.shapes, Expr.shapes_bracketed_withExpected,
    Expr.shapes_withExpected] at htokens
  obtain ⟨minus, others, rfl, hminus, hothers⟩ := List.map_eq_cons_iff.mp htokens
  have hreads := h.readsChecked_bracketed checks others checkTokens more hothers hchecks hmore
  rw [applyUnary, Expr.reading, Expr.reading_withExpected]
  exact signed_reads_minus (hminus ▸ Vocabulary.lookup_binary .sub) hreads

theorem readsChecked_check {op : UnaryOp} (hop : op.isTrailing = true)
    (h : Rereads span operand) :
    ReadsChecked span (applyUnary op operand).shapes (applyUnary op operand) := by
  have hshapes : (applyUnary op operand).shapes =
      Shape.bracketed 6 operand operand.shapes ++ [Shape.keyword op.keyword] := by
    cases op with
    | not => cases hop
    | negate => cases hop
    | isNull => simp [applyUnary, Expr.shapes]
    | notNull => simp [applyUnary, Expr.shapes]
  have hreading : ∀ checks, Expr.reading checks (applyUnary op operand) =
      Expr.reading (op :: checks) operand := by
    intro checks
    cases op with
    | not => cases hop
    | negate => cases hop
    | isNull => simp [applyUnary, Expr.reading]
    | notNull => simp [applyUnary, Expr.reading]
  intro checks tokens checkTokens more htokens hchecks hmore
  rw [hshapes] at htokens
  obtain ⟨inner, last, rfl, hinner, hlast⟩ := List.map_eq_append_iff.mp htokens
  obtain ⟨check, rfl, hcheck⟩ := List.map_eq_singleton_iff.mp hlast
  have hreads := h.readsChecked_bracketed (op :: checks) inner (check :: checkTokens) more hinner
    (hchecks.cons hop hcheck) hmore
  rw [hreading, List.append_assoc]
  exact hreads

theorem readsAt_not (h : Rereads span operand) :
    ReadsAt span 3 (applyUnary .not operand).shapes
      (Expr.reading [] (applyUnary .not operand)) := by
  have hmeaning : (Shape.keyword "not").meaning = some (.leading .not) := by
    rw [Shape.meaning_keyword, Vocabulary.lookup_not]
  have hreads := readsAt_negated hmeaning (h.readsAt_bracketed (by decide) (by decide))
  simp only [applyUnary, Expr.shapes, Expr.shapes_bracketed_withExpected,
    Expr.shapes_withExpected, Expr.reading, Expr.reading_withExpected]
  exact hreads

/-- The operands of a chain's operator are read from the left. -/
theorem continues_combine {kind : Chain} {op : BinaryOp} (hop : op.precedence = kind.precedence)
    (hleft : Rereads span left) (hright : Rereads span right) :
    Continues span kind (combine op left right).shapes
      (Expr.reading [] (combine op left right)) := by
  have hcomparison : op.isComparison = false := by
    rw [BinaryOp.isComparison, hop]
    cases kind <;> decide
  have hreading : Expr.reading [] (combine op left right) =
      (Expr.reading [] left).bind fun first => (Expr.reading [] right).map fun second =>
        combine op first second := by
    rw [Expr.reading_combine, hcomparison]
    rfl
  rw [Expr.shapes_combine, hreading, hop]
  exact continues_joined hop (Vocabulary.lookup_binary op) (hleft.continues_bracketed kind)
    (hright.readsAt_bracketed (Nat.le_add_left 1 _) (by cases kind <;> decide))

/-- A comparison ends before what binds looser and is refused before another comparison. -/
theorem comparison_reads_combine {op : BinaryOp} (hop : op.isComparison = true)
    (hleft : Rereads span left) (hright : Rereads span right) {tokens : List Token}
    (htokens : tokens.map Token.shape = (combine op left right).shapes) (hmore : Follows 4 more) :
    Reads (comparison (Context.ending span) (tokens ++ more))
      (if startsComparison more then none else Expr.reading [] (combine op left right)) more := by
  have hprecedence : op.precedence = 3 := beq_iff_eq.mp hop
  have hmeaning : (Shape.keyword op.keyword).meaning = some (.binary op) :=
    Vocabulary.lookup_binary op
  rw [Expr.shapes_combine, hprecedence] at htokens
  rw [Expr.reading_combine, hop, Bool.true_and]
  -- The left side is not bracketed if it is a comparison itself, and then the text is refused.
  by_cases hthree : left.precedence = 3
  · obtain ⟨leftTokens, others, rfl, hleftTokens, hothers⟩ := List.map_eq_append_iff.mp htokens
    obtain ⟨token, rightTokens, rfl, hshape, -⟩ := List.map_eq_cons_iff.mp hothers
    rw [Shape.bracketed, if_neg (by omega)] at hleftTokens
    rw [if_pos (beq_iff_eq.mpr hthree), ite_self, List.append_assoc, List.cons_append]
    exact hleft.compared hthree leftTokens _ more token op hleftTokens (hshape ▸ hmeaning) hop
  · have hfour : ReadsAt span 4 (Shape.bracketed 3 left left.shapes) (Expr.reading [] left) := by
      unfold Shape.bracketed
      split
      next => exact hleft.readsAt_brackets (by decide) (by decide)
      next hlt => exact hleft.ended 4 (by decide) (by decide) (by omega)
    have hreads := comparison_reads_joined hop hmeaning hfour
      (hright.readsAt_bracketed (by decide) (by decide)) htokens hmore
    have hloose : ¬ (left.precedence == 3) = true := by simpa using hthree
    have houtcome : (if startsComparison more = true then none else
        if (left.precedence == 3) = true then none else (Expr.reading [] left).bind fun first =>
          (Expr.reading [] right).map fun second =>
            Expr.checkAll [] (combine op first second)) =
          (Expr.reading [] left).bind fun first => (Expr.reading [] right).bind fun second =>
            if startsComparison more = true then none else some (combine op first second) := by
      rw [if_neg hloose]
      cases Expr.reading [] left <;> cases Expr.reading [] right <;>
        cases startsComparison more <;> rfl
    rw [houtcome]
    exact hreads

theorem rereads_comparison {op : BinaryOp} (hop : op.isComparison = true)
    (hparsed : (combine op left right).Parsed) (hleft : Rereads span left)
    (hright : Rereads span right) : Rereads span (combine op left right) := by
  refine Rereads.of_comparison hparsed (beq_iff_eq.mp hop) ?_ ?_
  · intro tokens more htokens hmore
    have hnone : startsComparison more = false := startsComparison_eq_false hmore
    have hreads := comparison_reads_combine hop hleft hright htokens (hmore.mono (by decide))
    rw [hnone, if_neg Bool.false_ne_true] at hreads
    change Reads (negation (Context.ending span) (tokens ++ more)) _ more
    obtain ⟨shape, rest, hshapes, hbegins⟩ := hparsed.begins
    obtain ⟨token, others, rfl, hshape, -⟩ := List.map_eq_cons_iff.mp (htokens.trans hshapes)
    rw [negation_eq_comparison]
    · exact hreads
    · rintro _ ⟨⟩ nextOp
      rw [hshape]
      exact hbegins.2 (beq_iff_eq.mp hop).ge nextOp
  · intro tokens rest more next nextOp htokens hnext hcomparison
    have hprecedence : nextOp.precedence = 3 := beq_iff_eq.mp hcomparison
    have hfollows : Follows 4 (next :: rest) := Follows.operator hnext (by omega) rest
    have hreads := comparison_reads_combine hop hleft hright htokens hfollows
    have hstarts : startsComparison (next :: rest) = true := by
      simp only [startsComparison, hnext, hcomparison]
    rw [hstarts, if_pos rfl] at hreads
    exact hreads

end

/-- Every operator but the comparisons belongs to a chain. -/
theorem Chain.exists_precedence {op : BinaryOp} (h : ¬ op.isComparison = true) :
    ∃ kind : Chain, op.precedence = kind.precedence := by
  cases op with
  | or => exact ⟨.disjunctions, rfl⟩
  | and => exact ⟨.conjunctions, rfl⟩
  | add | sub => exact ⟨.sums, rfl⟩
  | mul | div | mod => exact ⟨.products, rfl⟩
  | _ => exact absurd rfl h

/-- Every tree of the parser is read as its reading. -/
theorem rereads_of_parsed {expr : Expr} (h : expr.Parsed) : Rereads span expr := by
  -- NULL, truth values and paths are single words, which `ofWord` reads.
  have hword : ∀ (word : List Char) (expr : Expr), expr.Parsed → 6 ≤ expr.precedence →
      expr.shapes = [(.keyword, word)] → Vocabulary.standard.lookup word = none →
        ofWord word = .ok expr →
          (∀ checks, Expr.reading checks expr = some (Expr.checkAll checks expr)) →
            Rereads span expr := by
    intro word expr hparsed hprecedence hshapes hunknown hword hreading
    refine Rereads.of_checked hparsed hprecedence ?_
    intro checks tokens checkTokens more htokens hchecks hmore
    rw [hreading]
    exact signed_reads_word hchecks hmore hunknown hword (htokens.trans hshapes)
  have htight : 6 ≤ 255 := by decide
  induction h with
  | null =>
      exact hword "null".toList _ .null htight rfl (Vocabulary.lookup_eq_none (by decide))
        rfl fun _ => rfl
  | boolean b =>
      cases b
      · exact hword "false".toList _ (.boolean false) htight rfl
          (Vocabulary.lookup_eq_none (by decide)) rfl fun _ => rfl
      · exact hword "true".toList _ (.boolean true) htight rfl
          (Vocabulary.lookup_eq_none (by decide)) rfl fun _ => rfl
  | integer h => exact Rereads.of_checked (.integer h) htight (readsChecked_integer h)
  | float h => exact Rereads.of_checked (.float h) htight (readsChecked_float h)
  | string s => exact Rereads.of_checked (.string s) htight (readsChecked_string s)
  | @reference word h =>
      refine hword word _ (.reference h) htight ?_ h.unknown (ofWord_reference h)
        fun _ => rfl
      rw [Expr.shapes, Shape.keyword, String.toList_ofList]
  | call h htakes ih =>
      exact Rereads.of_checked (.call h htakes) htight (readsChecked_call h htakes ih)
  | negate h hnumber ih =>
      exact Rereads.of_checked (.negate h hnumber) (Nat.le_refl 6) (readsChecked_negate ih)
  | @unary op hop operand h ih =>
      cases op with
      | not => exact Rereads.of_negation (.unary hop h) rfl (readsAt_not ih)
      | negate => exact absurd rfl hop
      | isNull =>
          exact Rereads.of_checked (.unary hop h) (Nat.le_refl 6) (readsChecked_check rfl ih)
      | notNull =>
          exact Rereads.of_checked (.unary hop h) (Nat.le_refl 6) (readsChecked_check rfl ih)
  | @binary op left right hleft hright ihleft ihright =>
      by_cases hop : op.isComparison = true
      · exact rereads_comparison hop (.binary op hleft hright) ihleft ihright
      · obtain ⟨kind, hkind⟩ := Chain.exists_precedence hop
        exact Rereads.of_continues (.binary op hleft hright) hkind
          (continues_combine hkind ihleft ihright)

end Parser

/-- The text of every tree of the parser is parsed as its reading. It is refused where that is
none, because comparisons are chained. -/
theorem Expr.parse_print {expr : Expr} (h : expr.Parsed) :
    ParsesAs expr.print (reading [] expr) := by
  obtain ⟨tokens, htokens, hscan⟩ := h.lexes.scan_eq
  have hrereads : Parser.Rereads
      ⟨Text.byteLength expr.print, Text.byteLength expr.print⟩ expr := Parser.rereads_of_parsed h
  have hreads := hrereads.ended 1 (by decide) (by decide) expr.one_le_precedence tokens []
    htokens (Parser.Follows.nil 1)
  obtain ⟨shape, rest, hshapes, -⟩ := h.begins
  obtain ⟨token, others, rfl, -, -⟩ := List.map_eq_cons_iff.mp (htokens.trans hshapes)
  rw [List.append_nil] at hreads
  exact parse_of_reads hscan (List.cons_ne_nil _ _) hreads

end RowFilter
