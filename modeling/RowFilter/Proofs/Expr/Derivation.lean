import RowFilter.Proofs.Expr.Grammar

/-! # What the parser gives is derived

Each construct that the parser reads takes some tokens from the front, and these derive the tree
that it gives. The trees that are derived from scanned tokens are those that the parser builds.
-/

namespace RowFilter

namespace Parser

/-- A step that has taken some tokens from the front, with what they and its value have in common.
The text can be scanned up to the tokens that are left. -/
def Step.Takes {α : Type} {bound : Nat} (context : Context) (P : List Shape → α → Prop)
    (tokens : List Token) (step : Step α bound) : Prop :=
  ∃ taken, tokens = taken ++ step.rest ∧ context.stop.arrive step.rest = .ok () ∧
    P (taken.map Token.shape) step.value

/-- What is left after some tokens has more tokens in front. -/
theorem eq_append {tokens taken rest more after : List Token} (htokens : tokens = taken ++ rest)
    (hrest : rest = more ++ after) : tokens = (taken ++ more) ++ after := by
  rw [htokens, hrest, List.append_assoc]

/-- Only an outcome that may be left where it stops has to be settled. -/
theorem yields_arrive {α : Type} {P : α → Prop} {stop : Stop} {rest : List Token}
    {x : Except ParseError α} (h : stop.arrive rest = .ok () → Yields P x) :
    Yields P (do stop.arrive rest; x) := by
  intro value hvalue
  cases harrive : stop.arrive rest with
  | error error =>
      rw [harrive] at hvalue
      cases hvalue
  | ok =>
      rw [harrive] at hvalue
      exact h harrive value hvalue

variable {context : Context}

/-- In the standard vocabulary a token means what its shape means. -/
theorem meaning_eq (hvocabulary : context.vocabulary = Vocabulary.standard) (token : Token) :
    context.meaning token = token.shape.meaning := by
  rw [Context.meaning, hvocabulary]
  rfl

end Parser

namespace Shape

variable {token : Shape}

/-- The one leading operator negates conditions; a minus sign is read as the operator between. -/
theorem leading_eq_not {op : UnaryOp} (h : token.meaning = some (.leading op)) : op = .not := by
  unfold meaning at h
  split at h
  next => exact Vocabulary.leading_eq_not h
  next => cases h

theorem isTrailing_of_trailing {op : UnaryOp} (h : token.meaning = some (.trailing op)) :
    op.isTrailing = true := by
  unfold meaning at h
  split at h
  next => exact Vocabulary.isTrailing_of_trailing h
  next => cases h

theorem IsScanned.eq_opening (h : token.IsScanned) (hkind : token.1 = .parenOpen) :
    token = opening :=
  Prod.ext hkind (h.bare (by simp [hkind]))

/-- Of what can be scanned, only a bracket closes. -/
theorem IsScanned.eq_closing (h : token.IsScanned) (hkind : token.1 = .parenClose) :
    token = closing :=
  Prod.ext hkind (h.bare (by simp [hkind]))

theorem IsScanned.eq_comma (h : token.IsScanned) (hkind : token.1 = .argumentSeparator) :
    token = comma :=
  Prod.ext hkind (h.bare (by simp [hkind]))

end Shape

namespace Parser

variable {context : Context}

/-- A minus sign in front of a derived operand is derived, also where a number takes it over. -/
theorem derives_negate {token : Shape} (htoken : token.meaning = some (.binary .sub))
    {shapes : List Shape} {operand : Expr} (h : Derives .signed shapes operand) :
    Derives .signed (token :: shapes) (negate operand) := by
  unfold negate
  split
  next => exact .minusInteger htoken h
  next => exact .minusFloat htoken h
  next hinteger hfloat =>
    refine .minus htoken ?_ h
    unfold Expr.isNumber
    split
    next => exact absurd rfl (hinteger _ _)
    next => exact absurd rfl (hfloat _ _)
    next => rfl

/-- What is read of null checks is derived together with the operand in front of them. -/
theorem nullChecks_takes (hvocabulary : context.vocabulary = Vocabulary.standard)
    {operand : Expr} {before : List Shape} (hoperand : Derives .checked before operand)
    (tokens : List Token) (harrive : context.stop.arrive tokens = .ok ()) :
    Yields (Step.Takes context (fun shapes => Derives .checked (before ++ shapes)) tokens)
      (nullChecks context operand tokens) := by
  induction tokens generalizing operand before with
  | nil => exact Yields.ok ⟨[], rfl, harrive, by simpa using hoperand⟩
  | cons token rest ih =>
      rw [nullChecks, meaning_eq hvocabulary]
      split
      next op hmeaning =>
        refine yields_arrive fun hrest => ?_
        refine (ih (.checked hmeaning hoperand) hrest).bind fun step hstep => ?_
        obtain ⟨taken, htokens, hleft, hderives⟩ := hstep
        refine Yields.ok ⟨token :: taken, congrArg (token :: ·) htokens, hleft, ?_⟩
        rwa [List.append_assoc] at hderives
      next => exact Yields.ok ⟨[], rfl, harrive, by simpa using hoperand⟩

/-- A word that is no operand is derived as a primary. -/
theorem word_takes {token : Token} {rest : List Token} (hkind : token.kind = .keyword)
    (hunknown : Vocabulary.standard.lookup token.text = none) :
    Yields (Step.Takes context (Derives .primary) (token :: rest)) (word context token rest) := by
  have hshape : token.shape = (.keyword, token.text) := Prod.ext hkind rfl
  unfold word
  refine yields_arrive fun harrive => ?_
  extract_lets takeWord
  have htakes : Yields (Step.Takes context (Derives .primary) (token :: rest)) (takeWord ()) := by
    simp only [takeWord]
    split
    next expr hword =>
      refine Yields.ok ⟨[token], rfl, harrive, ?_⟩
      rw [List.map_singleton, hshape]
      exact .word hunknown (isWord_iff.mpr hword)
    next => exact Yields.error _
  split
  next =>
    split
    next => exact Yields.error _
    next => exact htakes
  next => exact htakes

/-- What the arguments of a call and the closing bracket derive. -/
def DerivesArguments (function : Builtin) (shapes : List Shape) (operands : List Expr) : Prop :=
  ∃ arguments : List (List Shape × Expr),
    (∀ argument ∈ arguments, Derives (.chain .disjunctions) argument.1 argument.2) ∧
      shapes = [Shape.comma].intercalate (arguments.map Prod.fst) ++ [Shape.closing] ∧
        operands = arguments.map fun argument => argument.2.withExpected function.argumentType

mutual

/-- Every construct that the parser reads is derived. -/
theorem chain_takes (hvocabulary : context.vocabulary = Vocabulary.standard) (kind : Chain)
    (tokens : List Token) (h : AllScanned tokens) :
    Yields (Step.Takes context (Derives (.chain kind)) tokens) (chain context kind tokens) := by
  rw [chain]
  refine (element_takes hvocabulary kind tokens h).bind fun first hfirst => ?_
  obtain ⟨taken, htokens, harrive, hderives⟩ := hfirst
  refine (chainMore_takes hvocabulary kind (.single hderives) first.rest (h.suffix htokens)
    harrive).bind fun step hstep => ?_
  obtain ⟨more, hrest, hleft, hmore⟩ := hstep
  refine Yields.ok ⟨taken ++ more, eq_append htokens hrest, hleft, ?_⟩
  rw [List.map_append]
  exact hmore
termination_by (tokens.length, kind.height)
decreasing_by
  · exact Prod.Lex.right _ (by cases kind <;> decide)
  · exact Prod.Lex.left _ _ first.shorter

/-- What is read of a chain is derived together with the operand that it begins with. -/
theorem chainMore_takes (hvocabulary : context.vocabulary = Vocabulary.standard) (kind : Chain)
    {left : Expr} {before : List Shape} (hleft : Derives (.chain kind) before left)
    (tokens : List Token) (h : AllScanned tokens) (harrive : context.stop.arrive tokens = .ok ()) :
    Yields (Step.Takes context (fun shapes => Derives (.chain kind) (before ++ shapes)) tokens)
      (chainMore context kind left tokens) := by
  match tokens, h, harrive with
  | [], h, harrive =>
      rw [chainMore]
      exact Yields.ok ⟨[], rfl, harrive, by simpa using hleft⟩
  | token :: rest, h, harrive =>
      have hstop : Derives (.chain kind) (before ++ [].map Token.shape) left := by simpa using hleft
      rw [chainMore, meaning_eq hvocabulary]
      split
      next op hmeaning =>
        split
        next hop =>
          refine yields_arrive fun _ => ?_
          refine (element_takes hvocabulary kind rest h.tail).bind fun right hright => ?_
          obtain ⟨taken, htokens, hafter, hderives⟩ := hright
          have hjoined := Derives.joined (Chain.mem_operators_iff.mpr hop) hmeaning hleft hderives
          refine (chainMore_takes hvocabulary kind hjoined right.rest (h.tail.suffix htokens)
            hafter).bind fun step hstep => ?_
          obtain ⟨more, hrest, hend, hmore⟩ := hstep
          refine Yields.ok ⟨token :: (taken ++ more),
            congrArg (token :: ·) (eq_append htokens hrest), hend, ?_⟩
          rwa [List.append_assoc, List.cons_append, ← List.map_append] at hmore
        next => exact Yields.ok ⟨[], rfl, harrive, hstop⟩
      next => exact Yields.ok ⟨[], rfl, harrive, hstop⟩
termination_by (tokens.length, 0)
decreasing_by
  · exact Prod.Lex.left _ _ (Nat.lt_succ_self _)
  · exact Prod.Lex.left _ _ (Nat.lt_succ_of_lt right.shorter)

theorem element_takes (hvocabulary : context.vocabulary = Vocabulary.standard) (kind : Chain)
    (tokens : List Token) (h : AllScanned tokens) :
    Yields (Step.Takes context (Derives (.element kind)) tokens)
      (element context kind tokens) := by
  cases kind with
  | disjunctions =>
      rw [element]
      exact chain_takes hvocabulary .conjunctions tokens h
  | conjunctions =>
      rw [element]
      exact negation_takes hvocabulary tokens h
  | sums =>
      rw [element]
      exact chain_takes hvocabulary .products tokens h
  | products =>
      rw [element]
      exact signed_takes hvocabulary tokens h
termination_by (tokens.length, kind.height - 1)
decreasing_by all_goals exact Prod.Lex.right _ (by decide)

/-- What is read of a negation is derived from its signs. -/
theorem negation_takes (hvocabulary : context.vocabulary = Vocabulary.standard)
    (tokens : List Token) (h : AllScanned tokens) :
    Yields (Step.Takes context (Derives .negation) tokens) (negation context tokens) := by
  match tokens, h with
  | [], h =>
      rw [negation]
      refine (comparison_takes hvocabulary [] h).mono fun step hstep => ?_
      obtain ⟨taken, htokens, hleft, hderives⟩ := hstep
      -- Without tokens nothing begins with a negation, so the plain rule applies.
      obtain rfl : taken = [] := (List.append_eq_nil_iff.mp htokens.symm).1
      exact ⟨[], htokens, hleft, .plain (by simp) hderives⟩
  | token :: rest, h =>
      rw [negation, meaning_eq hvocabulary]
      split
      next op hmeaning =>
        obtain rfl := Shape.leading_eq_not hmeaning
        refine yields_arrive fun _ => ?_
        refine (negation_takes hvocabulary rest h.tail).bind fun operand hoperand => ?_
        obtain ⟨taken, htokens, hleft, hderives⟩ := hoperand
        exact Yields.ok ⟨token :: taken, congrArg (token :: ·) htokens, hleft,
          .negated hmeaning hderives⟩
      next hmeaning =>
        refine (comparison_takes hvocabulary (token :: rest) h).mono fun step hstep => ?_
        obtain ⟨taken, htokens, hleft, hderives⟩ := hstep
        refine ⟨taken, htokens, hleft, .plain ?_ hderives⟩
        -- What was taken begins with the token that is no negation.
        cases taken with
        | nil => simp
        | cons first more =>
            obtain ⟨rfl, -⟩ := List.cons.inj htokens
            rintro _ ⟨⟩ hnot
            exact hmeaning _ hnot
termination_by (tokens.length, 9)
decreasing_by all_goals
  first
  | exact Prod.Lex.right _ (by decide)
  | exact Prod.Lex.left _ _ (by simp)

/-- What is read of a comparison is derived, and nothing is read of a second one. -/
theorem comparison_takes (hvocabulary : context.vocabulary = Vocabulary.standard)
    (tokens : List Token) (h : AllScanned tokens) :
    Yields (Step.Takes context (Derives .comparison) tokens) (comparison context tokens) := by
  rw [comparison]
  refine (chain_takes hvocabulary .sums tokens h).bind fun left hleft => ?_
  obtain ⟨taken, htokens, harrive, hderives⟩ := hleft
  have hsingle : Step.Takes context (Derives .comparison) tokens left :=
    ⟨taken, htokens, harrive, .uncompared hderives⟩
  split
  next => exact Yields.ok hsingle
  next token rest hrest =>
    have hshorter : rest.length < tokens.length := by
      have hlength := left.shorter
      rw [hrest, List.length_cons] at hlength
      omega
    have htail : AllScanned rest := by
      have hall := h.suffix htokens
      rw [hrest] at hall
      exact hall.tail
    rw [meaning_eq hvocabulary]
    split
    next op hmeaning =>
      split
      next hop =>
        refine yields_arrive fun _ => ?_
        refine (chain_takes hvocabulary .sums rest htail).bind fun right hright => ?_
        obtain ⟨more, hmore, hend, hsecond⟩ := hright
        -- The parser looks at one more token, but it takes none.
        have hpair : ∀ hlt, Step.Takes context (Derives .comparison) tokens
            (⟨combine op left.value right.value, right.rest, hlt⟩ : Step Expr tokens.length) := by
          refine fun hlt => ⟨taken ++ token :: more,
            eq_append htokens (hrest.trans (congrArg (token :: ·) hmore)), hend, ?_⟩
          rw [List.map_append, List.map_cons]
          exact .compared hop hmeaning hderives hsecond
        split
        next next _ =>
          by_cases hnext : next.isComparison = true
          · simp only [hnext, if_true]
            exact Yields.error _
          · simp only [hnext]
            exact Yields.ok (hpair _)
        next => exact Yields.ok (hpair _)
      next => exact Yields.ok hsingle
    next => exact Yields.ok hsingle
termination_by (tokens.length, 8)
decreasing_by
  · exact Prod.Lex.right _ (by decide)
  · exact Prod.Lex.left _ _ (by assumption)

theorem signed_takes (hvocabulary : context.vocabulary = Vocabulary.standard)
    (tokens : List Token) (h : AllScanned tokens) :
    Yields (Step.Takes context (Derives .signed) tokens) (signed context tokens) := by
  match tokens, h with
  | [], h =>
      rw [signed]
      refine (checked_takes hvocabulary [] h).mono fun step hstep => ?_
      obtain ⟨taken, htokens, hleft, hderives⟩ := hstep
      exact ⟨taken, htokens, hleft, .unsigned hderives⟩
  | token :: rest, h =>
      rw [signed, meaning_eq hvocabulary]
      split
      next op hmeaning =>
        obtain rfl := Shape.leading_eq_not hmeaning
        refine yields_arrive fun _ => ?_
        refine (signed_takes hvocabulary rest h.tail).bind fun operand hoperand => ?_
        obtain ⟨taken, htokens, hleft, hderives⟩ := hoperand
        exact Yields.ok ⟨token :: taken, congrArg (token :: ·) htokens, hleft,
          .not hmeaning hderives⟩
      next hmeaning =>
        refine yields_arrive fun _ => ?_
        refine (signed_takes hvocabulary rest h.tail).bind fun operand hoperand => ?_
        obtain ⟨taken, htokens, hleft, hderives⟩ := hoperand
        exact Yields.ok ⟨token :: taken, congrArg (token :: ·) htokens, hleft,
          derives_negate hmeaning hderives⟩
      next hmeaning =>
        refine yields_arrive fun _ => ?_
        refine (signed_takes hvocabulary rest h.tail).bind fun operand hoperand => ?_
        obtain ⟨taken, htokens, hleft, hderives⟩ := hoperand
        exact Yields.ok ⟨token :: taken, congrArg (token :: ·) htokens, hleft,
          .plus hmeaning hderives⟩
      next =>
        refine (checked_takes hvocabulary (token :: rest) h).mono fun step hstep => ?_
        obtain ⟨taken, htokens, hleft, hderives⟩ := hstep
        exact ⟨taken, htokens, hleft, .unsigned hderives⟩
termination_by (tokens.length, 3)
decreasing_by all_goals
  first
  | exact Prod.Lex.right _ (by decide)
  | exact Prod.Lex.left _ _ (by simp)

theorem checked_takes (hvocabulary : context.vocabulary = Vocabulary.standard)
    (tokens : List Token) (h : AllScanned tokens) :
    Yields (Step.Takes context (Derives .checked) tokens) (checked context tokens) := by
  rw [checked]
  refine (primary_takes hvocabulary tokens h).bind fun operand hoperand => ?_
  obtain ⟨taken, htokens, harrive, hderives⟩ := hoperand
  refine (nullChecks_takes hvocabulary (.unchecked hderives) operand.rest harrive).bind
    fun step hstep => ?_
  obtain ⟨more, hrest, hleft, hmore⟩ := hstep
  refine Yields.ok ⟨taken ++ more, eq_append htokens hrest, hleft, ?_⟩
  rw [List.map_append]
  exact hmore
termination_by (tokens.length, 2)
decreasing_by exact Prod.Lex.right _ (by decide)

/-- What is read of a primary is derived by the form that its first token has. -/
theorem primary_takes (hvocabulary : context.vocabulary = Vocabulary.standard)
    (tokens : List Token) (h : AllScanned tokens) :
    Yields (Step.Takes context (Derives .primary) tokens) (primary context tokens) := by
  match tokens, h with
  | [], h =>
      rw [primary]
      exact Yields.error _
  | token :: rest, h =>
      have hscanned := h token List.mem_cons_self
      rw [primary]
      split
      next hopen =>
        refine yields_arrive fun _ => ?_
        refine (chain_takes hvocabulary .disjunctions rest h.tail).bind fun inner hinner => ?_
        obtain ⟨taken, htokens, -, hderives⟩ := hinner
        split
        next close after hrest =>
          have hclosing := h.tail.suffix htokens close (by rw [hrest]; exact List.mem_cons_self)
          split
          next hclose =>
            refine yields_arrive fun hafter => Yields.ok ⟨token :: (taken ++ [close]),
              congrArg (token :: ·) (eq_append htokens hrest), hafter, ?_⟩
            rw [List.map_cons, List.map_append, List.map_singleton, hscanned.eq_opening hopen,
              hclosing.eq_closing hclose]
            exact .brackets hderives
          next => exact Yields.error _
        next => exact Yields.error _
      next hconstant =>
        refine yields_arrive fun harrive => Yields.ok ⟨[token], rfl, harrive, ?_⟩
        have hshape : token.shape = (.constant, token.text) := Prod.ext hconstant rfl
        rw [List.map_singleton, hshape]
        exact .string _
      next hkeyword =>
        rw [hvocabulary]
        split
        next function hfunction =>
          have hname : token.shape.meaning = some (.function function) := by
            rwa [Shape.meaning, if_pos (show token.shape.1 = .keyword from hkeyword)]
          exact call_takes hvocabulary hname rest h.tail
        next => exact Yields.error _
        next hunknown => exact word_takes hkeyword hunknown
      next => exact Yields.error _
termination_by (tokens.length, 1)
decreasing_by
  · exact Prod.Lex.left _ _ (by simp)
  · exact Prod.Lex.left _ _ (by simp)

/-- What is read of a call is derived from the name and the arguments between its brackets. -/
theorem call_takes (hvocabulary : context.vocabulary = Vocabulary.standard) {function : Builtin}
    {name : Token} (hname : name.shape.meaning = some (.function function)) (tokens : List Token)
    (h : AllScanned tokens) :
    Yields (Step.Takes context (Derives .primary) (name :: tokens))
      (call context function name tokens) := by
  match tokens, h with
  | [], h =>
      rw [call]
      exact yields_arrive fun _ => Yields.error _
  | opening :: rest, h =>
      rw [call]
      split
      next hopen =>
        refine yields_arrive fun _ => ?_
        refine (argumentList_takes hvocabulary function rest h.tail).bind ?_
        intro operands hoperands
        obtain ⟨taken, htokens, hleft, arguments, hall, hshapes, hvalues⟩ := hoperands
        split
        next htakes =>
          rw [hvalues, List.length_map] at htakes
          refine Yields.ok ⟨name :: opening :: taken,
            congrArg (fun tokens => name :: opening :: tokens) htokens, hleft, ?_⟩
          simp only [List.map_cons, (h opening List.mem_cons_self).eq_opening hopen, hshapes,
            hvalues]
          exact .call hname arguments htakes hall
        next => exact Yields.error _
      next => exact Yields.error _
termination_by (tokens.length, 0)
decreasing_by exact Prod.Lex.left _ _ (by simp)

/-- What is read up to the closing bracket is derived as the arguments of the function. -/
theorem argumentList_takes (hvocabulary : context.vocabulary = Vocabulary.standard)
    (function : Builtin) (tokens : List Token) (h : AllScanned tokens) :
    Yields (Step.Takes context (DerivesArguments function) tokens)
      (argumentList context function tokens) := by
  match tokens, h with
  | [], h =>
      rw [argumentList]
      refine (arguments_takes hvocabulary function [] h).mono fun step hstep => ?_
      obtain ⟨taken, htokens, hleft, -, hderives⟩ := hstep
      exact ⟨taken, htokens, hleft, hderives⟩
  | token :: rest, h =>
      rw [argumentList]
      split
      next hclose =>
        refine yields_arrive fun harrive => Yields.ok ⟨[token], rfl, harrive, [], by simp, ?_, rfl⟩
        rw [List.map_singleton, (h token List.mem_cons_self).eq_closing hclose]
        rfl
      next =>
        refine (arguments_takes hvocabulary function (token :: rest) h).mono fun step hstep => ?_
        obtain ⟨taken, htokens, hleft, -, hderives⟩ := hstep
        exact ⟨taken, htokens, hleft, hderives⟩
termination_by (tokens.length, 15)
decreasing_by all_goals exact Prod.Lex.right _ (by decide)

theorem arguments_takes (hvocabulary : context.vocabulary = Vocabulary.standard)
    (function : Builtin) (tokens : List Token) (h : AllScanned tokens) :
    Yields (Step.Takes context (fun shapes operands => operands ≠ [] ∧
      DerivesArguments function shapes operands) tokens) (arguments context function tokens) := by
  rw [arguments]
  refine (chain_takes hvocabulary .disjunctions tokens h).bind fun first hfirst => ?_
  obtain ⟨taken, htokens, -, hderives⟩ := hfirst
  simp only
  split
  next => exact Yields.error _
  next token rest hrest =>
    have hshorter : rest.length < tokens.length := by
      have hlength := first.shorter
      rw [hrest, List.length_cons] at hlength
      omega
    have hall := h.suffix htokens
    rw [hrest] at hall
    have hscanned := hall token List.mem_cons_self
    split
    next hcomma =>
      refine yields_arrive fun _ => ?_
      refine (arguments_takes hvocabulary function rest hall.tail).bind fun others hothers => ?_
      obtain ⟨more, hmore, hleft, hne, following, hfollowing, hshapes, hvalues⟩ := hothers
      refine Yields.ok ⟨taken ++ token :: more,
        eq_append htokens (hrest.trans (congrArg (token :: ·) hmore)), hleft, List.cons_ne_nil _ _,
        (taken.map Token.shape, first.value) :: following, ?_, ?_, ?_⟩
      · exact List.forall_mem_cons.mpr ⟨hderives, hfollowing⟩
      · -- After a comma there is another argument.
        cases following with
        | nil => exact absurd hvalues hne
        | cons second following =>
            rw [List.map_append, List.map_cons, hshapes, hscanned.eq_comma hcomma]
            simp [List.intercalate_cons_cons]
      · rw [List.map_cons, hvalues]
    next hclose =>
      refine yields_arrive fun harrive => Yields.ok ⟨taken ++ [token], eq_append htokens hrest,
        harrive, List.cons_ne_nil _ _, [(taken.map Token.shape, first.value)], ?_, ?_, rfl⟩
      · exact List.forall_mem_singleton.mpr hderives
      · rw [List.map_append, List.map_singleton, hscanned.eq_closing hclose]
        simp
    next => exact Yields.error _
termination_by (tokens.length, 14)
decreasing_by
  · exact Prod.Lex.right _ (by decide)
  · exact Prod.Lex.left _ _ (by assumption)

end

end Parser

/-! ## Trees -/

/-- A path or a constant that is a single keyword without a meaning is in the form of the parser. -/
theorem IsWord.parsed {word : List Char} {expr : Expr} (h : IsWord word expr)
    (hsingle : Token.isSingleKeyword word = true)
    (hunknown : Vocabulary.standard.lookup word = none) : expr.Parsed := by
  cases h with
  | isTrue => exact .boolean true
  | isFalse => exact .boolean false
  | isNull => exact .null
  | integer hdigit hread =>
      have hnonneg := Parser.nonneg_of_startsWithDigit hdigit hread
      exact .integer (by omega)
  | float hdigit hinteger hread hfinite => exact .float hfinite
  | path hliteral hpath =>
      exact .reference ⟨hsingle, hunknown, hpath, Parser.startsWithDigit_of_isPath hpath, hliteral⟩

/-- Operands that are given the types their operator expects keep the form of the parser. -/
theorem Expr.Parsed.expecting {op : BinaryOp} {left right : Expr} (hleft : left.Parsed)
    (hright : right.Parsed) :
    (Expr.binary op (left.expecting op.operandTypes.1)
      (right.expecting op.operandTypes.2)).Parsed :=
  .binary op hleft hright

theorem mem_intercalate {α : Type} {separator item : List α} {items : List (List α)} {a : α}
    (hitem : item ∈ items) (ha : a ∈ item) : a ∈ separator.intercalate items := by
  induction items with
  | nil => cases hitem
  | cons first rest ih =>
      cases rest with
      | nil =>
          obtain rfl := List.mem_singleton.mp hitem
          rwa [List.intercalate_singleton]
      | cons second rest =>
          rw [List.intercalate_cons_cons, List.append_assoc]
          rcases List.mem_cons.mp hitem with rfl | hrest
          · exact List.mem_append_left _ ha
          · exact List.mem_append_right _ (List.mem_append_right _ (ih hrest))

/-- The trees that scanned tokens derive are those that the parser builds. -/
theorem Derives.parsed {nonterminal : Nonterminal} {shapes : List Shape} {expr : Expr}
    (h : Derives nonterminal shapes expr) (hscanned : ∀ token ∈ shapes, token.IsScanned) :
    expr.Parsed := by
  induction h with
  | single _ ih => exact ih hscanned
  | joined _ _ _ _ ihleft ihright =>
      rw [List.forall_mem_append, List.forall_mem_cons] at hscanned
      exact .expecting (ihleft hscanned.1) (ihright hscanned.2.2)
  | negated _ _ ih =>
      exact .unary (by decide) (ih (List.forall_mem_cons.mp hscanned).2)
  | plain _ _ ih => exact ih hscanned
  | uncompared _ ih => exact ih hscanned
  | compared _ _ _ _ ihleft ihright =>
      rw [List.forall_mem_append, List.forall_mem_cons] at hscanned
      exact .expecting (ihleft hscanned.1) (ihright hscanned.2.2)
  | not _ _ ih => exact .unary (by decide) (ih (List.forall_mem_cons.mp hscanned).2)
  | minusInteger _ _ ih => exact (ih (List.forall_mem_cons.mp hscanned).2).sign
  | minusFloat _ _ ih => exact (ih (List.forall_mem_cons.mp hscanned).2).sign
  | minus _ hnumber _ ih => exact .negate (ih (List.forall_mem_cons.mp hscanned).2) hnumber
  | plus _ _ ih => exact ih (List.forall_mem_cons.mp hscanned).2
  | unsigned _ ih => exact ih hscanned
  | unchecked _ ih => exact ih hscanned
  | checked hmeaning _ ih =>
      have htrailing := Shape.isTrailing_of_trailing hmeaning
      -- A sign has a constructor of its own, and no null check is a sign.
      refine .unary ?_ (ih (List.forall_mem_append.mp hscanned).1)
      rintro rfl
      cases htrailing
  | brackets _ ih =>
      rw [List.cons_append, List.forall_mem_cons, List.forall_mem_append] at hscanned
      exact ih hscanned.2.1
  | string text => exact .string _
  | word hunknown hword =>
      have hsingle := (List.forall_mem_singleton.mp hscanned).single rfl
      exact hword.parsed hsingle hunknown
  | @call function token htoken arguments htakes _ ih =>
      have hmap : (arguments.map fun argument => argument.2.withExpected function.argumentType) =
          (arguments.map Prod.snd).map (Expr.withExpected function.argumentType) := by
        rw [List.map_map]
        rfl
      rw [hmap]
      refine .call ?_ (by rwa [List.length_map])
      intro expr hexpr
      obtain ⟨argument, hargument, rfl⟩ := List.mem_map.mp hexpr
      refine ih argument hargument fun shape hshape => hscanned shape ?_
      have hmem : shape ∈ [Shape.comma].intercalate (arguments.map Prod.fst) :=
        mem_intercalate (List.mem_map_of_mem hargument) hshape
      exact List.mem_append_left _ (List.mem_cons_of_mem _ (List.mem_cons_of_mem _ hmem))

/-- An accepted text is cut into tokens that derive its tree. -/
theorem Expr.derives_of_parse {code : List Char} {expr : Expr}
    (h : parse Vocabulary.standard code = .ok expr) :
    ∃ tokens, Token.Cuts 0 code tokens ∧ AllScanned tokens ∧
      Derives (.chain .disjunctions) (tokens.map Token.shape) expr := by
  have hat : Yields (fun parsed => ∀ expr, parsed.expr = some expr →
      Text.byteLength code ≤ parsed.stop → ∃ tokens, Token.Cuts 0 code tokens ∧
        AllScanned tokens ∧ Derives (.chain .disjunctions) (tokens.map Token.shape) expr)
      (parseAt Vocabulary.standard .standard code 0) := by
    have hdrop : Text.dropBytes? 0 code = some code := by rw [Text.dropBytes?]
    have hscanned := Scan.allScanned .standard 0 code
    rw [parseAt, hdrop]
    refine Parser.yields_arrive fun _ => ?_
    split
    next => exact Yields.ok (by simp)
    next =>
      refine (Parser.chain_takes rfl .disjunctions _ hscanned).bind fun step hstep => ?_
      obtain ⟨taken, htokens, harrive, hderives⟩ := hstep
      split
      next hrest =>
        rw [hrest] at htokens harrive
        rw [List.append_nil] at htokens
        refine Yields.ok ?_
        rintro expr ⟨⟩ hend
        refine ⟨_, ?_, hscanned, htokens ▸ hderives⟩
        -- What cannot be scanned would have been an error at the end of the tokens.
        cases hstop : (Scan.of .standard 0 code).stop with
        | failed error =>
            rw [hstop] at harrive
            cases harrive
        | reached span =>
            rw [hstop] at hend
            exact Scan.cuts_of_reached 0 code hstop (by rw [Nat.zero_add]; exact hend)
      next => exact Yields.error _
  have hparse : Yields (fun expr => ∃ tokens, Token.Cuts 0 code tokens ∧ AllScanned tokens ∧
      Derives (.chain .disjunctions) (tokens.map Token.shape) expr)
        (parse Vocabulary.standard code) := by
    refine hat.bind fun parsed hparsed => ?_
    by_cases hstop : parsed.stop < Text.byteLength code
    · simp only [hstop, if_true]
      cases parsed.expr <;> exact Yields.error _
    · simp only [hstop, if_false]
      cases hexpr : parsed.expr with
      | none => exact Yields.error _
      | some expr => exact Yields.ok (hparsed expr hexpr (Nat.le_of_not_lt hstop))
  exact hparse expr h

/-- What the parser accepts is one of its trees. -/
theorem Expr.parsed_of_parse {code : List Char} {expr : Expr}
    (h : parse Vocabulary.standard code = .ok expr) : expr.Parsed := by
  obtain ⟨tokens, -, hscanned, hderives⟩ := derives_of_parse h
  exact hderives.parsed (List.forall_mem_map.mpr hscanned)

end RowFilter
