import RowFilter.Proofs.Expr.Grammar

/-! # Parsing the same tokens in another place

The parser reads the kinds and the texts of tokens. Where the tokens stand shows in its errors only,
so it gives one tree for two token lists of the same shapes, provided that the text of the second
can be scanned to its end. The vocabulary may be any.
-/

namespace RowFilter

/-- Token lists of the same shapes, which may stand in different places. -/
abbrev Moved : List Token → List Token → Prop :=
  List.Forall₂ fun token moved => token.shape = moved.shape

namespace Parser

/-- One vocabulary, and a place in which the tokens end without an error. -/
structure Relocates (context other : Context) : Prop where
  vocabulary : context.vocabulary = other.vocabulary
  reached : ∃ span, other.stop = .reached span

/-- What is read is the same, and what is left has the same shapes. -/
structure Step.Moved {α : Type} {m n : Nat} (step : Step α m) (moved : Step α n) : Prop where
  value : step.value = moved.value
  rest : RowFilter.Moved step.rest moved.rest

variable {context other : Context} {α β : Type} {m n k l : Nat}

/-- If there is a step, the other is the same step moved, and the text can be scanned up to what is
left. -/
def Carries (context : Context) (x : Except ParseError (Step α m))
    (y : Except ParseError (Step α n)) : Prop :=
  Yields (fun step => context.stop.arrive step.rest = .ok () ∧
    ∃ moved, y = .ok moved ∧ step.Moved moved) x

namespace Carries

/-- A step carries over to the step it is moved to if the text can be scanned up to what it leaves. -/
theorem ok {step : Step α m} {moved : Step α n}
    (harrive : context.stop.arrive step.rest = .ok ()) (h : step.Moved moved) :
    Carries context (.ok step) (.ok moved) :=
  Yields.ok ⟨harrive, moved, rfl, h⟩

theorem error (e : ParseError) (y : Except ParseError (Step α n)) :
    Carries context (.error e : Except ParseError (Step α m)) y :=
  Yields.error e

/-- Steps that carry over one after the other carry over together. -/
theorem bind {x : Except ParseError (Step α m)} {y : Except ParseError (Step α n)}
    {f : Step α m → Except ParseError (Step β k)} {g : Step α n → Except ParseError (Step β l)}
    (h : Carries context x y) (hf : ∀ step moved, step.Moved moved →
      context.stop.arrive step.rest = .ok () → Carries context (f step) (g moved)) :
    Carries context (x >>= f) (y >>= g) := by
  refine Yields.bind h fun step hstep => ?_
  obtain ⟨harrive, moved, rfl, hmoved⟩ := hstep
  exact hf step moved hmoved harrive

/-- Moved tokens may be left wherever the others may, since the text of the second can be scanned to
its end. -/
theorem arrive (hmove : Relocates context other) {x : Except ParseError (Step α m)}
    {y : Except ParseError (Step α n)} {tokens others : List Token}
    (h : context.stop.arrive tokens = .ok () → Carries context x y) :
    Carries context (do context.stop.arrive tokens; x) (do other.stop.arrive others; y) := by
  have hother : other.stop.arrive others = .ok () := by
    obtain ⟨span, hspan⟩ := hmove.reached
    rw [hspan]
    cases others <;> rfl
  intro step hstep
  obtain ⟨_, harrive, hstep⟩ := bind_eq_ok.mp hstep
  rw [hother]
  exact h harrive step hstep

end Carries

/-- The two contexts give one meaning to tokens of one shape. -/
theorem meaning_eq_of_shape (hmove : Relocates context other) {token moved : Token}
    (h : token.shape = moved.shape) : other.meaning moved = context.meaning token := by
  obtain ⟨hkind, htext⟩ := Prod.mk.inj h
  rw [Context.meaning, Context.meaning, ← hkind, ← htext, hmove.vocabulary]

theorem operandAt_eq_of_moved (hmove : Relocates context other) {tokens others : List Token}
    (h : Moved tokens others) : other.operandAt others = context.operandAt tokens := by
  cases h with
  | nil => rfl
  | cons hshape _ => exact meaning_eq_of_shape hmove hshape

/-- Null checks after an operand carry over, one more of them at a time. -/
theorem nullChecks_carries (hmove : Relocates context other) (operand : Expr)
    {tokens others : List Token} (h : Moved tokens others)
    (harrive : context.stop.arrive tokens = .ok ()) :
    Carries context (nullChecks context operand tokens) (nullChecks other operand others) := by
  induction h generalizing operand with
  | nil => exact .ok harrive ⟨rfl, .nil⟩
  | @cons token moved rest more hshape hrest ih =>
      rw [nullChecks, nullChecks, meaning_eq_of_shape hmove hshape]
      split
      next op hmeaning =>
        refine .arrive hmove fun hleft => (ih _ hleft).bind fun step moved hstep hleft => ?_
        exact .ok hleft ⟨hstep.value, hstep.rest⟩
      next => exact .ok harrive ⟨rfl, .cons hshape hrest⟩

/-- A word carries over: it is a path, a constant or the name of a function wherever it stands. -/
theorem word_carries (hmove : Relocates context other) {token moved : Token}
    (hshape : token.shape = moved.shape) {rest more : List Token} (h : Moved rest more) :
    Carries context (word context token rest) (word other moved more) := by
  obtain ⟨hkind, htext⟩ := Prod.mk.inj hshape
  unfold word
  refine .arrive hmove fun harrive => ?_
  extract_lets takeWord takeMoved
  have htakes : Carries context (takeWord ()) (takeMoved ()) := by
    simp only [takeWord, takeMoved, ← htext]
    split
    next expr hword => exact .ok harrive ⟨rfl, h⟩
    next => exact .error _ _
  cases h with
  | nil => exact htakes
  | @cons next moved' _ _ hnext hrest =>
      have hkind' : next.kind = moved'.kind := (Prod.mk.inj hnext).1
      by_cases hopen : next.kind = .parenOpen
      · simp only [if_pos hopen]
        exact .error _ _
      · simp only [if_neg hopen, ← hkind']
        exact htakes

mutual

/-- Every construct is read from moved tokens as it is from the tokens. -/
theorem chain_carries (hmove : Relocates context other) (kind : Chain) (tokens others : List Token)
    (h : Moved tokens others) :
    Carries context (chain context kind tokens) (chain other kind others) := by
  rw [chain, chain]
  refine (element_carries hmove kind tokens others h).bind fun first moved hfirst harrive => ?_
  rw [← hfirst.value]
  refine (chainMore_carries hmove kind first.value first.rest moved.rest hfirst.rest harrive).bind
    fun step moved hstep hleft => ?_
  exact .ok hleft ⟨hstep.value, hstep.rest⟩
termination_by (tokens.length, kind.height)
decreasing_by
  · exact Prod.Lex.right _ (by cases kind <;> decide)
  · exact Prod.Lex.left _ _ first.shorter

/-- The rest of a chain carries over, by the number of tokens that are left. -/
theorem chainMore_carries (hmove : Relocates context other) (kind : Chain) (left : Expr)
    (tokens others : List Token) (h : Moved tokens others)
    (harrive : context.stop.arrive tokens = .ok ()) :
    Carries context (chainMore context kind left tokens) (chainMore other kind left others) := by
  match tokens, others, h, harrive with
  | [], _, .nil, harrive =>
      rw [chainMore, chainMore]
      exact .ok harrive ⟨rfl, .nil⟩
  | token :: rest, moved :: more, .cons hshape hrest, harrive =>
      have hstop : Moved (token :: rest) (moved :: more) := .cons hshape hrest
      rw [chainMore, chainMore, meaning_eq_of_shape hmove hshape]
      split
      next op hmeaning =>
        split
        next hop =>
          refine .arrive hmove fun _ => ?_
          refine (element_carries hmove kind rest more hrest).bind
            fun right moved hright hafter => ?_
          rw [← hright.value]
          refine (chainMore_carries hmove kind (combine op left right.value) right.rest moved.rest
            hright.rest hafter).bind fun step moved hstep hleft => ?_
          exact .ok hleft ⟨hstep.value, hstep.rest⟩
        next => exact .ok harrive ⟨rfl, hstop⟩
      next => exact .ok harrive ⟨rfl, hstop⟩
termination_by (tokens.length, 0)
decreasing_by
  · exact Prod.Lex.left _ _ (Nat.lt_succ_self _)
  · exact Prod.Lex.left _ _ (Nat.lt_succ_of_lt right.shorter)

theorem element_carries (hmove : Relocates context other) (kind : Chain)
    (tokens others : List Token) (h : Moved tokens others) :
    Carries context (element context kind tokens) (element other kind others) := by
  cases kind with
  | disjunctions =>
      rw [element, element]
      exact chain_carries hmove .conjunctions tokens others h
  | conjunctions =>
      rw [element, element]
      exact negation_carries hmove tokens others h
  | sums =>
      rw [element, element]
      exact chain_carries hmove .products tokens others h
  | products =>
      rw [element, element]
      exact signed_carries hmove tokens others h
termination_by (tokens.length, kind.height - 1)
decreasing_by all_goals exact Prod.Lex.right _ (by decide)

/-- A negation carries over with all its signs and with the comparison behind them. -/
theorem negation_carries (hmove : Relocates context other) (tokens others : List Token)
    (h : Moved tokens others) :
    Carries context (negation context tokens) (negation other others) := by
  match tokens, others, h with
  | [], _, .nil =>
      rw [negation, negation]
      exact comparison_carries hmove [] [] .nil
  | token :: rest, moved :: more, .cons hshape hrest =>
      rw [negation, negation, meaning_eq_of_shape hmove hshape]
      split
      next op hmeaning =>
        refine .arrive hmove fun _ => ?_
        refine (negation_carries hmove rest more hrest).bind fun operand moved hoperand hleft => ?_
        exact .ok hleft ⟨congrArg (applyUnary op) hoperand.value, hoperand.rest⟩
      next => exact comparison_carries hmove (token :: rest) (moved :: more) (.cons hshape hrest)
termination_by (tokens.length, 9)
decreasing_by all_goals
  first
  | exact Prod.Lex.right _ (by decide)
  | exact Prod.Lex.left _ _ (by simp)

/-- A comparison carries over with what is on its right, if anything is. -/
theorem comparison_carries (hmove : Relocates context other) (tokens others : List Token)
    (h : Moved tokens others) :
    Carries context (comparison context tokens) (comparison other others) := by
  rw [comparison, comparison]
  refine (chain_carries hmove .sums tokens others h).bind fun left moved hleft harrive => ?_
  obtain ⟨expr, rest, hshorter⟩ := left
  obtain ⟨expr', more, _⟩ := moved
  obtain ⟨rfl, hrest⟩ := hleft
  dsimp only at hrest harrive ⊢
  cases hrest with
  | nil => exact .ok harrive ⟨rfl, .nil⟩
  | @cons token moved rest more hshape hrest =>
      have hsingle : ∀ hlt hlt', Carries context (.ok ⟨expr, token :: rest, hlt⟩ :
          Except ParseError (Step Expr tokens.length)) (.ok ⟨expr, moved :: more, hlt'⟩ :
          Except ParseError (Step Expr others.length)) :=
        fun _ _ => .ok harrive ⟨rfl, .cons hshape hrest⟩
      have hlength : rest.length < tokens.length := Nat.lt_of_succ_lt hshorter
      dsimp only
      rw [meaning_eq_of_shape hmove hshape]
      split
      next op hmeaning =>
        split
        next hop =>
          refine .arrive hmove fun _ => ?_
          refine (chain_carries hmove .sums rest more hrest).bind fun right moved hright hleft => ?_
          have hpair : ∀ hlt hlt', Carries context
              (.ok ⟨combine op expr right.value, right.rest, hlt⟩ :
                Except ParseError (Step Expr tokens.length))
              (.ok ⟨combine op expr moved.value, moved.rest, hlt'⟩ :
                Except ParseError (Step Expr others.length)) :=
            fun _ _ => .ok hleft ⟨congrArg (combine op expr) hright.value, hright.rest⟩
          rw [operandAt_eq_of_moved hmove hright.rest]
          split
          next next _ =>
            -- A second comparison operator is refused in both places.
            by_cases hnext : next.isComparison = true
            · simp only [hnext, if_true]
              exact .error _ _
            · simp only [hnext]
              exact hpair _ _
          next => exact hpair _ _
        next => exact hsingle _ _
      next => exact hsingle _ _
termination_by (tokens.length, 8)
decreasing_by
  · exact Prod.Lex.right _ (by decide)
  · exact Prod.Lex.left _ _ (by assumption)

theorem signed_carries (hmove : Relocates context other) (tokens others : List Token)
    (h : Moved tokens others) : Carries context (signed context tokens) (signed other others) := by
  match tokens, others, h with
  | [], _, .nil =>
      rw [signed, signed]
      exact checked_carries hmove [] [] .nil
  | token :: rest, moved :: more, .cons hshape hrest =>
      rw [signed, signed, meaning_eq_of_shape hmove hshape]
      split
      next op hmeaning =>
        refine .arrive hmove fun _ => ?_
        refine (signed_carries hmove rest more hrest).bind fun operand moved hoperand hleft => ?_
        exact .ok hleft ⟨congrArg (applyUnary op) hoperand.value, hoperand.rest⟩
      next =>
        refine .arrive hmove fun _ => ?_
        refine (signed_carries hmove rest more hrest).bind fun operand moved hoperand hleft => ?_
        exact .ok hleft ⟨congrArg negate hoperand.value, hoperand.rest⟩
      next =>
        refine .arrive hmove fun _ => ?_
        refine (signed_carries hmove rest more hrest).bind fun operand moved hoperand hleft => ?_
        exact .ok hleft ⟨hoperand.value, hoperand.rest⟩
      next => exact checked_carries hmove (token :: rest) (moved :: more) (.cons hshape hrest)
termination_by (tokens.length, 3)
decreasing_by all_goals
  first
  | exact Prod.Lex.right _ (by decide)
  | exact Prod.Lex.left _ _ (by simp)

theorem checked_carries (hmove : Relocates context other) (tokens others : List Token)
    (h : Moved tokens others) :
    Carries context (checked context tokens) (checked other others) := by
  rw [checked, checked]
  refine (primary_carries hmove tokens others h).bind fun operand moved hoperand harrive => ?_
  rw [← hoperand.value]
  refine (nullChecks_carries hmove operand.value hoperand.rest harrive).bind
    fun step moved hstep hleft => ?_
  exact .ok hleft ⟨hstep.value, hstep.rest⟩
termination_by (tokens.length, 2)
decreasing_by exact Prod.Lex.right _ (by decide)

/-- A primary carries over, whichever of its forms it has. -/
theorem primary_carries (hmove : Relocates context other) (tokens others : List Token)
    (h : Moved tokens others) :
    Carries context (primary context tokens) (primary other others) := by
  match tokens, others, h with
  | [], _, .nil =>
      rw [primary]
      exact .error _ _
  | token :: rest, moved :: more, .cons hshape hrest =>
      obtain ⟨hkind, htext⟩ := Prod.mk.inj hshape
      rw [primary, primary, ← hkind, ← htext, ← hmove.vocabulary]
      split
      next hopen =>
        refine .arrive hmove fun _ => ?_
        refine (chain_carries hmove .disjunctions rest more hrest).bind
          fun inner moved hinner _ => ?_
        obtain ⟨expr, rest, hshorter⟩ := inner
        obtain ⟨expr', more, _⟩ := moved
        obtain ⟨rfl, hrest⟩ := hinner
        dsimp only at hrest hshorter ⊢
        cases hrest with
        | nil => exact .error _ _
        | @cons close close' after after' hclose hafter =>
            obtain ⟨hkind, -⟩ := Prod.mk.inj hclose
            dsimp only
            rw [← hkind]
            split
            next => exact .arrive hmove fun hleft => .ok hleft ⟨rfl, hafter⟩
            next => exact .error _ _
      next hconstant => exact .arrive hmove fun harrive => .ok harrive ⟨rfl, hrest⟩
      next hkeyword =>
        split
        next function hfunction => exact call_carries hmove function token moved rest more hrest
        next => exact .error _ _
        next hunknown => exact word_carries hmove hshape hrest
      next => exact .error _ _
termination_by (tokens.length, 1)
decreasing_by
  · exact Prod.Lex.left _ _ (by simp)
  · exact Prod.Lex.left _ _ (by simp)

theorem call_carries (hmove : Relocates context other) (function : Builtin) (name moved : Token)
    (tokens others : List Token) (h : Moved tokens others) :
    Carries context (call context function name tokens) (call other function moved others) := by
  match tokens, others, h with
  | [], _, .nil =>
      rw [call, call]
      exact .arrive hmove fun _ => .error _ _
  | opening :: rest, opening' :: more, .cons hshape hrest =>
      obtain ⟨hkind, -⟩ := Prod.mk.inj hshape
      rw [call, call, ← hkind]
      split
      next hopen =>
        refine .arrive hmove fun _ => ?_
        refine (argumentList_carries hmove function rest more hrest).bind
          fun operands moved hoperands hleft => ?_
        rw [← hoperands.value]
        split
        next htakes => exact .ok hleft ⟨rfl, hoperands.rest⟩
        next => exact .error _ _
      next => exact .error _ _
termination_by (tokens.length, 0)
decreasing_by exact Prod.Lex.left _ _ (by simp)

/-- The arguments of a function carry over, and so does the refusal of their number. -/
theorem argumentList_carries (hmove : Relocates context other) (function : Builtin)
    (tokens others : List Token) (h : Moved tokens others) :
    Carries context (argumentList context function tokens)
      (argumentList other function others) := by
  match tokens, others, h with
  | [], _, .nil =>
      rw [argumentList, argumentList]
      exact arguments_carries hmove function [] [] .nil
  | token :: rest, moved :: more, .cons hshape hrest =>
      obtain ⟨hkind, -⟩ := Prod.mk.inj hshape
      rw [argumentList, argumentList, ← hkind]
      split
      next hclose => exact .arrive hmove fun harrive => .ok harrive ⟨rfl, hrest⟩
      next =>
        exact arguments_carries hmove function (token :: rest) (moved :: more) (.cons hshape hrest)
termination_by (tokens.length, 15)
decreasing_by all_goals exact Prod.Lex.right _ (by decide)

theorem arguments_carries (hmove : Relocates context other) (function : Builtin)
    (tokens others : List Token) (h : Moved tokens others) :
    Carries context (arguments context function tokens) (arguments other function others) := by
  rw [arguments, arguments]
  refine (chain_carries hmove .disjunctions tokens others h).bind fun first moved hfirst _ => ?_
  obtain ⟨expr, rest, hshorter⟩ := first
  obtain ⟨expr', more, _⟩ := moved
  obtain ⟨rfl, hrest⟩ := hfirst
  dsimp only at hrest ⊢
  cases hrest with
  | nil => exact .error _ _
  | @cons token moved rest more hshape hrest =>
      obtain ⟨hkind, -⟩ := Prod.mk.inj hshape
      have hlength : rest.length < tokens.length := Nat.lt_of_succ_lt hshorter
      dsimp only
      rw [← hkind]
      split
      next =>
        refine .arrive hmove fun _ => ?_
        refine (arguments_carries hmove function rest more hrest).bind
          fun operands moved hoperands hleft => ?_
        exact .ok hleft ⟨congrArg (List.cons _) hoperands.value, hoperands.rest⟩
      next => exact .arrive hmove fun hleft => .ok hleft ⟨rfl, hrest⟩
      next => exact .error _ _
termination_by (tokens.length, 14)
decreasing_by
  · exact Prod.Lex.right _ (by decide)
  · exact Prod.Lex.left _ _ (by assumption)

end

end Parser

end RowFilter
