import RowFilter.Proofs.Expr.Embedding

/-! # What parsing comes to

A construct that is read leaves the last of the tokens, and its tree has any property that the
constructs of the grammar hand on from their parts. One that is not read gives an error about a
token, about the tokens from one up to another, or about the place where the tokens end. The
vocabulary may be any.
-/

namespace RowFilter

namespace Parser

/-- The places that the errors about some tokens are at. -/
inductive Context.Reports (context : Context) (tokens : List Token) : Span → Prop
  | next {rest : List Token} (h : rest <:+ tokens) : Reports context tokens (context.spanAt rest)
  | upTo {token : Token} {rest after : List Token} (h : token :: rest <:+ tokens)
      (hafter : after <:+ rest) :
      Reports context tokens ⟨token.span.start, (context.spanAt after).start⟩

/-- A property of trees that each construct hands on from its parts. -/
structure HandsOn (P : Expr → Prop) : Prop where
  word {text : List Char} {expr : Expr} (h : ofWord text = .ok expr) : P expr
  string (text : String) : P (.ofValue (.string text))
  call {function : Builtin} {arguments : List Expr}
    (htakes : function.takes arguments.length = true) (h : ∀ argument ∈ arguments, P argument) :
    P (.call function arguments .any)
  withExpected {operand : Expr} (type : ValueType) (h : P operand) : P (operand.withExpected type)
  applyUnary {operand : Expr} (op : UnaryOp) (h : P operand) : P (applyUnary op operand)
  negate {operand : Expr} (h : P operand) : P (negate operand)
  combine {left right : Expr} (op : BinaryOp) (hleft : P left) (hright : P right) :
    P (combine op left right)

/-- A value with a property and the last of the tokens, up to which the text can be scanned, or an
error about the tokens. -/
inductive Settles {α : Type} {bound : Nat} (context : Context) (P : α → Prop)
    (tokens : List Token) : Except ParseError (Step α bound) → Prop
  | ok {step : Step α bound} (h : P step.value) (hrest : step.rest <:+ tokens)
      (harrive : context.stop.arrive step.rest = .ok ()) : Settles context P tokens (.ok step)
  | error {e : ParseError} (h : context.Reports tokens e.span) :
      Settles context P tokens (.error e)

variable {context : Context}

theorem Context.Reports.of_suffix {rest tokens : List Token} {span : Span}
    (h : context.Reports rest span) (hrest : rest <:+ tokens) : context.Reports tokens span := by
  cases h with
  | next h => exact .next (h.trans hrest)
  | upTo h hafter => exact .upTo (h.trans hrest) hafter

theorem Context.span_unexpected (context : Context) (tokens : List Token) :
    (context.unexpected tokens).span = context.spanAt tokens := by
  cases tokens <;> rfl

theorem Context.reports_unexpected {rest tokens : List Token} (h : rest <:+ tokens) :
    context.Reports tokens (context.unexpected rest).span := by
  rw [context.span_unexpected]
  exact .next h

namespace Settles

variable {α β : Type} {bound larger : Nat} {P : α → Prop} {Q : β → Prop}
  {rest tokens : List Token}

/-- What goes on from a construct among the last of the tokens. -/
theorem bind {x : Except ParseError (Step α bound)}
    {f : Step α bound → Except ParseError (Step β larger)} (h : Settles context P rest x)
    (hrest : rest <:+ tokens) (hf : ∀ step, P step.value → step.rest <:+ rest →
      context.stop.arrive step.rest = .ok () → Settles context Q tokens (f step)) :
    Settles context Q tokens (x >>= f) := by
  cases h with
  | ok h hstep harrive => exact hf _ h hstep harrive
  | error h => exact .error (h.of_suffix hrest)

/-- Moving on fails only where the tokens end. -/
theorem arrive {x : Except ParseError (Step α bound)}
    (h : context.stop.arrive rest = .ok () → Settles context P tokens x) :
    Settles context P tokens (do context.stop.arrive rest; x) := by
  cases harrive : context.stop.arrive rest with
  | ok => exact h harrive
  | error e =>
      unfold Stop.arrive at harrive
      split at harrive
      next error hstop =>
        cases harrive
        have hspan : context.spanAt [] = e.span := by
          rw [Context.spanAt, hstop]
          rfl
        exact .error (hspan ▸ .next (List.nil_suffix))
      next => cases harrive

end Settles

variable {P : Expr → Prop}

/-- Null checks behind an operand hand the property on. -/
theorem nullChecks_settles (hP : HandsOn P) {operand : Expr} (hoperand : P operand)
    (tokens : List Token) (harrive : context.stop.arrive tokens = .ok ()) :
    Settles context P tokens (nullChecks context operand tokens) := by
  induction tokens generalizing operand with
  | nil => exact .ok hoperand (List.suffix_refl _) harrive
  | cons token rest ih =>
      rw [nullChecks]
      split
      next op _ =>
        refine .arrive fun harrive => ?_
        refine (ih (hP.applyUnary op hoperand) harrive).bind (List.suffix_cons _ _)
          fun step hstep hrest hleft => ?_
        exact .ok hstep (hrest.trans (List.suffix_cons _ _)) hleft
      next => exact .ok hoperand (List.suffix_refl _) harrive

/-- A word is a path or a number, or it is the place of an error. -/
theorem word_settles (hP : HandsOn P) (token : Token) (rest : List Token) :
    Settles context P (token :: rest) (word context token rest) := by
  have htoken : context.Reports (token :: rest) token.span := .next (List.suffix_refl _)
  unfold word
  refine .arrive fun harrive => ?_
  extract_lets takeWord
  have htakes : Settles context P (token :: rest) (takeWord ()) := by
    simp only [takeWord]
    split
    next expr hword => exact .ok (hP.word hword) (List.suffix_cons _ _) harrive
    next => exact .error htoken
  split
  next =>
    split
    next => exact .error htoken
    next => exact htakes
  next => exact htakes

-- The induction is that of the parser: fewer tokens, or as many and a construct further inside.
mutual

/-- Every construct is read, with the property, or gives an error about its tokens. -/
theorem chain_settles (hP : HandsOn P) (kind : Chain) (tokens : List Token) :
    Settles context P tokens (chain context kind tokens) := by
  rw [chain]
  refine (element_settles hP kind tokens).bind (List.suffix_refl _)
    fun first hfirst hrest harrive => ?_
  refine (chainMore_settles hP kind hfirst first.rest harrive).bind hrest
    fun step hstep hleft hafter => ?_
  exact .ok hstep (hleft.trans hrest) hafter
termination_by (tokens.length, kind.height)
decreasing_by
  · exact Prod.Lex.right _ (by cases kind <;> decide)
  · exact Prod.Lex.left _ _ first.shorter

/-- What goes on with a chain hands the property on from operand to operand. -/
theorem chainMore_settles (hP : HandsOn P) (kind : Chain) {left : Expr} (hleft : P left)
    (tokens : List Token) (harrive : context.stop.arrive tokens = .ok ()) :
    Settles context P tokens (chainMore context kind left tokens) := by
  match tokens, harrive with
  | [], harrive =>
      rw [chainMore]
      exact .ok hleft (List.suffix_refl _) harrive
  | token :: rest, harrive =>
      have hstop : ∀ hlt, Settles context P (token :: rest)
          (.ok ⟨left, token :: rest, hlt⟩ : Except ParseError (Step Expr (rest.length + 1 + 1))) :=
        fun _ => .ok hleft (List.suffix_refl _) harrive
      rw [chainMore]
      split
      next op _ =>
        split
        next =>
          refine .arrive fun _ => ?_
          refine (element_settles hP kind rest).bind (List.suffix_cons _ _)
            fun right hright hsuffix hafter => ?_
          have htail := hsuffix.trans (List.suffix_cons token rest)
          refine (chainMore_settles hP kind (hP.combine op hleft hright) right.rest hafter).bind
            htail fun step hstep hleft hend => ?_
          exact .ok hstep (hleft.trans htail) hend
        next => exact hstop _
      next => exact hstop _
termination_by (tokens.length, 0)
decreasing_by
  · exact Prod.Lex.left _ _ (Nat.lt_succ_self _)
  · exact Prod.Lex.left _ _ (Nat.lt_succ_of_lt right.shorter)

/-- An operand of a chain is read, with the property, or gives an error about its tokens. -/
theorem element_settles (hP : HandsOn P) (kind : Chain) (tokens : List Token) :
    Settles context P tokens (element context kind tokens) := by
  cases kind with
  | disjunctions =>
      rw [element]
      exact chain_settles hP .conjunctions tokens
  | conjunctions =>
      rw [element]
      exact negation_settles hP tokens
  | sums =>
      rw [element]
      exact chain_settles hP .products tokens
  | products =>
      rw [element]
      exact signed_settles hP tokens
termination_by (tokens.length, kind.height - 1)
decreasing_by all_goals exact Prod.Lex.right _ (by decide)

theorem negation_settles (hP : HandsOn P) (tokens : List Token) :
    Settles context P tokens (negation context tokens) := by
  match tokens with
  | [] =>
      rw [negation]
      exact comparison_settles hP []
  | token :: rest =>
      rw [negation]
      split
      next op _ =>
        refine .arrive fun _ => ?_
        refine (negation_settles hP rest).bind (List.suffix_cons _ _)
          fun operand hoperand hrest hleft => ?_
        exact .ok (hP.applyUnary op hoperand) (hrest.trans (List.suffix_cons _ _)) hleft
      next => exact comparison_settles hP (token :: rest)
termination_by (tokens.length, 9)
decreasing_by all_goals
  first
  | exact Prod.Lex.right _ (by decide)
  | exact Prod.Lex.left _ _ (by simp)

/-- A comparison hands the property on from both its sides, and a second one is an error. -/
theorem comparison_settles (hP : HandsOn P) (tokens : List Token) :
    Settles context P tokens (comparison context tokens) := by
  rw [comparison]
  refine (chain_settles hP .sums tokens).bind (List.suffix_refl _)
    fun left hleft hsuffix harrive => ?_
  have hsingle : Settles context P tokens (.ok left) := .ok hleft hsuffix harrive
  split
  next => exact hsingle
  next token rest hrest =>
    have hshorter : rest.length < tokens.length := by
      have hlength := left.shorter
      rw [hrest, List.length_cons] at hlength
      omega
    have htail : rest <:+ tokens := (List.suffix_cons token rest).trans (hrest ▸ hsuffix)
    split
    next op _ =>
      split
      next =>
        refine .arrive fun _ => ?_
        refine (chain_settles hP .sums rest).bind htail fun right hright hafter hend => ?_
        replace hafter := hafter.trans htail
        have hpair : ∀ hlt, Settles context P tokens
            (.ok ⟨combine op left.value right.value, right.rest, hlt⟩ :
              Except ParseError (Step Expr tokens.length)) :=
          fun _ => .ok (hP.combine op hleft hright) hafter hend
        split
        next next _ =>
          by_cases hnext : next.isComparison = true
          · -- The second comparison is looked at but not taken.
            simp only [hnext, if_true]
            exact .error (.next hafter)
          · simp only [hnext]
            exact hpair _
        next => exact hpair _
      next => exact hsingle
    next => exact hsingle
termination_by (tokens.length, 8)
decreasing_by
  · exact Prod.Lex.right _ (by decide)
  · exact Prod.Lex.left _ _ (by assumption)

/-- Signs before an operand hand the property on. -/
theorem signed_settles (hP : HandsOn P) (tokens : List Token) :
    Settles context P tokens (signed context tokens) := by
  match tokens with
  | [] =>
      rw [signed]
      exact checked_settles hP []
  | token :: rest =>
      have htail : rest <:+ token :: rest := List.suffix_cons _ _
      rw [signed]
      split
      next op _ =>
        refine .arrive fun _ => ?_
        refine (signed_settles hP rest).bind htail fun operand hoperand hrest hleft => ?_
        exact .ok (hP.applyUnary op hoperand) (hrest.trans htail) hleft
      next =>
        refine .arrive fun _ => ?_
        refine (signed_settles hP rest).bind htail fun operand hoperand hrest hleft => ?_
        exact .ok (hP.negate hoperand) (hrest.trans htail) hleft
      next =>
        refine .arrive fun _ => ?_
        refine (signed_settles hP rest).bind htail fun operand hoperand hrest hleft => ?_
        exact .ok hoperand (hrest.trans htail) hleft
      next => exact checked_settles hP (token :: rest)
termination_by (tokens.length, 3)
decreasing_by all_goals
  first
  | exact Prod.Lex.right _ (by decide)
  | exact Prod.Lex.left _ _ (by simp)

theorem checked_settles (hP : HandsOn P) (tokens : List Token) :
    Settles context P tokens (checked context tokens) := by
  rw [checked]
  refine (primary_settles hP tokens).bind (List.suffix_refl _)
    fun operand hoperand hrest harrive => ?_
  refine (nullChecks_settles hP hoperand operand.rest harrive).bind hrest
    fun step hstep hleft hafter => ?_
  exact .ok hstep (hleft.trans hrest) hafter
termination_by (tokens.length, 2)
decreasing_by exact Prod.Lex.right _ (by decide)

/-- A primary expression has the property, or an error in it is about its tokens. -/
theorem primary_settles (hP : HandsOn P) (tokens : List Token) :
    Settles context P tokens (primary context tokens) := by
  match tokens with
  | [] =>
      rw [primary]
      exact .error (Context.reports_unexpected (List.suffix_refl _))
  | token :: rest =>
      rw [primary]
      split
      next =>
        refine .arrive fun _ => ?_
        refine (chain_settles hP .disjunctions rest).bind (List.suffix_cons _ _)
          fun inner hinner hsuffix _ => ?_
        split
        next close after hrest =>
          rw [hrest] at hsuffix
          replace hsuffix := hsuffix.trans (List.suffix_cons token rest)
          split
          next =>
            refine .arrive fun harrive => ?_
            exact .ok hinner ((List.suffix_cons close after).trans hsuffix) harrive
          next => exact .error (.next hsuffix)
        next => exact .error (.next List.nil_suffix)
      next =>
        exact .arrive fun harrive => .ok (hP.string _) (List.suffix_cons _ _) harrive
      next =>
        split
        next function _ => exact call_settles hP function token rest
        next => exact .error (.next (List.suffix_refl _))
        next => exact word_settles hP token rest
      next => exact .error (Context.reports_unexpected (List.suffix_refl _))
termination_by (tokens.length, 1)
decreasing_by
  · exact Prod.Lex.left _ _ (by simp)
  · exact Prod.Lex.left _ _ (by simp)

/-- The errors of a call may be about its name, which has been read. -/
theorem call_settles (hP : HandsOn P) (function : Builtin) (name : Token) (tokens : List Token) :
    Settles context P (name :: tokens) (call context function name tokens) := by
  match tokens with
  | [] =>
      rw [call]
      exact .arrive fun _ => .error (.next List.nil_suffix)
  | opening :: rest =>
      have hrest : rest <:+ opening :: rest := List.suffix_cons _ _
      have hname : opening :: rest <:+ name :: opening :: rest := List.suffix_cons _ _
      rw [call]
      split
      next =>
        refine .arrive fun _ => ?_
        refine (argumentList_settles hP function rest).bind (hrest.trans hname)
          fun operands hoperands hleft harrive => ?_
        replace hleft := hleft.trans hrest
        split
        next htakes => exact .ok (hP.call htakes hoperands) (hleft.trans hname) harrive
        next => exact .error (.upTo (List.suffix_refl _) hleft)
      next => exact .error (.next (List.suffix_cons _ _))
termination_by (tokens.length, 0)
decreasing_by exact Prod.Lex.left _ _ (by simp)

/-- All arguments of a call have the property, up to the bracket that closes them. -/
theorem argumentList_settles (hP : HandsOn P) (function : Builtin) (tokens : List Token) :
    Settles context (fun operands => ∀ operand ∈ operands, P operand) tokens
      (argumentList context function tokens) := by
  match tokens with
  | [] =>
      rw [argumentList]
      exact arguments_settles hP function []
  | token :: rest =>
      rw [argumentList]
      split
      next =>
        exact .arrive fun harrive => .ok (List.forall_mem_nil _) (List.suffix_cons _ _) harrive
      next => exact arguments_settles hP function (token :: rest)
termination_by (tokens.length, 15)
decreasing_by all_goals exact Prod.Lex.right _ (by decide)

theorem arguments_settles (hP : HandsOn P) (function : Builtin) (tokens : List Token) :
    Settles context (fun operands => ∀ operand ∈ operands, P operand) tokens
      (arguments context function tokens) := by
  rw [arguments]
  refine (chain_settles hP .disjunctions tokens).bind (List.suffix_refl _)
    fun first hfirst hsuffix _ => ?_
  have hoperand := hP.withExpected function.argumentType hfirst
  split
  next => exact .error (.next List.nil_suffix)
  next token rest hrest =>
    have hshorter : rest.length < tokens.length := by
      have hlength := first.shorter
      rw [hrest, List.length_cons] at hlength
      omega
    rw [hrest] at hsuffix
    have htail : rest <:+ tokens := (List.suffix_cons token rest).trans hsuffix
    split
    next =>
      refine .arrive fun _ => ?_
      refine (arguments_settles hP function rest).bind htail fun others hothers hleft hafter => ?_
      exact .ok (List.forall_mem_cons.mpr ⟨hoperand, hothers⟩) (hleft.trans htail) hafter
    next =>
      exact .arrive fun harrive => .ok (List.forall_mem_singleton.mpr hoperand) htail harrive
    next => exact .error (.next hsuffix)
termination_by (tokens.length, 14)
decreasing_by
  · exact Prod.Lex.right _ (by decide)
  · exact Prod.Lex.left _ _ (by assumption)

end

end Parser

/-- Scanned tokens give a tree with the property, or none, and the place where they end, or they
give an error about themselves. -/
theorem Scan.parse_settles {P : Expr → Prop} (hP : Parser.HandsOn P) (vocabulary : Vocabulary)
    (scan : Scan) :
    (∃ expr span, scan.stop = .reached span ∧ scan.parse vocabulary = .ok ⟨expr, span.start⟩ ∧
        ∀ tree ∈ expr, P tree) ∨
      ∃ error, scan.parse vocabulary = .error error ∧
        Parser.Context.Reports ⟨vocabulary, scan.stop⟩ scan.tokens error.span := by
  obtain ⟨tokens, stop⟩ := scan
  cases tokens with
  | nil =>
      cases stop with
      | reached span => exact .inl ⟨none, span, rfl, rfl, nofun⟩
      | failed error => exact .inr ⟨error, rfl, .next (List.suffix_refl [])⟩
  | cons token others =>
      have hsettles : Parser.Settles ⟨vocabulary, stop⟩ P (token :: others)
          (Parser.chain ⟨vocabulary, stop⟩ .disjunctions (token :: others)) :=
        Parser.chain_settles hP .disjunctions (token :: others)
      cases hchain : Parser.chain ⟨vocabulary, stop⟩ .disjunctions (token :: others) with
      | error error =>
          rw [hchain] at hsettles
          cases hsettles with
          | error h =>
              exact .inr ⟨error, bind_eq_error.mpr (.inr ⟨(), rfl,
                bind_eq_error.mpr (.inl hchain)⟩), h⟩
      | ok step =>
          rw [hchain] at hsettles
          obtain ⟨tree, rest, hshorter⟩ := step
          cases hsettles with
          | ok h hrest harrive =>
              cases rest with
              | nil =>
                  obtain ⟨span, rfl, -⟩ := reached_of_arrive harrive
                  refine .inl ⟨some tree, span, rfl, bind_eq_ok.mpr ⟨(), rfl,
                    bind_eq_ok.mpr ⟨_, hchain, rfl⟩⟩, ?_⟩
                  rintro _ ⟨⟩
                  exact h
              | cons next rest =>
                  exact .inr ⟨_, bind_eq_error.mpr (.inr ⟨(), rfl,
                    bind_eq_error.mpr (.inr ⟨_, hchain, rfl⟩)⟩),
                    Parser.Context.reports_unexpected hrest⟩

end RowFilter
