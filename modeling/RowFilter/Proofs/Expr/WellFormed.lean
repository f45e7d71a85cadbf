import RowFilter.Expr.Evaluation
import RowFilter.Proofs.Expr.Parsing
import RowFilter.Proofs.Expr.Subexpressions
import RowFilter.Proofs.Expr.WireCodec

/-! # Well-formed trees

What the parser makes sure of at every node of a tree, whatever its keywords, and what follows from
it: a sign in front of an integer literal does not overflow, no call fails for the number of its
arguments, and the tree has a binary form.
-/

namespace RowFilter

/-- Names with dots between them; none is empty or begins with a digit. -/
def IsDotted (path : List Char) : Prop :=
  ∃ names, names ≠ [] ∧ path = ['.'].intercalate names ∧
    ∀ name ∈ names, '.' ∉ name ∧ ∃ c rest, name = c :: rest ∧ c.isDigit = false

/-- The values that texts have literals for. -/
def Value.IsLiteral : Value → Prop
  | .null | .boolean _ | .string _ => True
  | .integer n => n ≠ Int64.minValue
  | .float x => x.isFinite = true
  | .date _ | .collection _ | .bytes _ | .object _ => False

namespace Expr

/-- What the parser makes sure of at a node. -/
def IsSound : Expr → Prop
  | literal value type => value.IsLiteral ∧ type = value.type
  | reference path _ => IsDotted path.toList
  | call function arguments _ => function.takes arguments.length = true
  | unary _ _ | binary _ _ _ => True

def WellFormed (expr : Expr) : Prop :=
  ∀ node ∈ expr.subexpressions, node.IsSound

/-! ## Nodes and what is below them -/

theorem wellFormed_literal {value : Value} {type : ValueType} :
    (literal value type).WellFormed ↔ value.IsLiteral ∧ type = value.type := by
  rw [WellFormed, subexpressions, List.forall_mem_singleton, IsSound]

theorem wellFormed_reference {path : String} {expected : ValueType} :
    (reference path expected).WellFormed ↔ IsDotted path.toList := by
  rw [WellFormed, subexpressions, List.forall_mem_singleton, IsSound]

/-- Something holds of all parts of a list of arguments exactly if it holds of all parts of each. -/
theorem forall_mem_allSubexpressions {arguments : List Expr} {P : Expr → Prop} :
    (∀ node ∈ allSubexpressions arguments, P node) ↔
      ∀ argument ∈ arguments, ∀ node ∈ argument.subexpressions, P node := by
  induction arguments with
  | nil => simp [allSubexpressions]
  | cons first rest ih => rw [allSubexpressions, List.forall_mem_append, ih, List.forall_mem_cons]

/-- A call is well-formed exactly if its function takes that many arguments and each one is
well-formed. -/
theorem wellFormed_call {function : Builtin} {arguments : List Expr} {expected : ValueType} :
    (call function arguments expected).WellFormed ↔
      function.takes arguments.length = true ∧ ∀ argument ∈ arguments, argument.WellFormed := by
  rw [WellFormed, subexpressions, List.forall_mem_cons, IsSound, forall_mem_allSubexpressions]
  rfl

theorem wellFormed_unary {op : UnaryOp} {operand : Expr} :
    (unary op operand).WellFormed ↔ operand.WellFormed := by
  rw [WellFormed, subexpressions, List.forall_mem_cons, IsSound, true_and]
  rfl

/-- An operation is well-formed exactly if both its operands are. -/
theorem wellFormed_binary {op : BinaryOp} {left right : Expr} :
    (binary op left right).WellFormed ↔ left.WellFormed ∧ right.WellFormed := by
  rw [WellFormed, subexpressions, List.forall_mem_cons, IsSound, true_and, List.forall_mem_append]
  rfl

theorem wellFormed_ofValue {value : Value} (h : value.IsLiteral) : (ofValue value).WellFormed :=
  wellFormed_literal.mpr ⟨h, rfl⟩

theorem wellFormed_withExpected {expr : Expr} {type : ValueType} :
    (expr.withExpected type).WellFormed ↔ expr.WellFormed := by
  cases expr with
  | reference path expected => rw [withExpected, wellFormed_reference, wellFormed_reference]
  | call function arguments expected => rw [withExpected, wellFormed_call, wellFormed_call]
  | _ => rfl

/-- An operator on a well-formed operand makes something well-formed, be it a negated number. -/
theorem WellFormed.applyUnary {operand : Expr} (h : operand.WellFormed) (op : UnaryOp) :
    (Parser.applyUnary op operand).WellFormed :=
  wellFormed_unary.mpr (wellFormed_withExpected.mpr h)

theorem WellFormed.expecting {operand : Expr} (h : operand.WellFormed) (type : ValueType) :
    (operand.expecting type).WellFormed := by
  unfold Expr.expecting
  split
  next => exact h
  next => exact wellFormed_withExpected.mpr h

/-- What is made of an operator and two well-formed operands is well-formed, with the types each
expects of the other. -/
theorem WellFormed.combine {left right : Expr} (hleft : left.WellFormed)
    (hright : right.WellFormed) (op : BinaryOp) : (Parser.combine op left right).WellFormed :=
  wellFormed_binary.mpr ⟨hleft.expecting _, hright.expecting _⟩

/-! ## Signs -/

theorem lt_toInt_of_ne_minValue {n : Int64} (h : n ≠ Int64.minValue) :
    -9223372036854775808 < n.toInt := by
  have hle := Int64.le_toInt n
  have hne : n.toInt ≠ Int64.minValue.toInt := fun heq => h (Int64.toInt_inj.mp heq)
  have hmin : Int64.minValue.toInt = -9223372036854775808 := rfl
  omega

/-- The negation of an integer that has one is not the smallest integer. -/
theorem neg_ne_minValue {n : Int64} (h : n ≠ Int64.minValue) : -n ≠ Int64.minValue := by
  intro heq
  have hbound := (neg_bound (lt_toInt_of_ne_minValue h)).1
  rw [heq] at hbound
  exact absurd hbound (by decide)

/-- A sign in front of a well-formed literal becomes part of it. -/
theorem WellFormed.negate {operand : Expr} (h : operand.WellFormed) :
    (Parser.negate operand).WellFormed := by
  unfold Parser.negate
  split
  next => exact wellFormed_ofValue (neg_ne_minValue (wellFormed_literal.mp h).1)
  next =>
    exact wellFormed_ofValue ((Number.Binary64.isFinite_neg _).trans (wellFormed_literal.mp h).1)
  next => exact h.applyUnary .negate

/-- The opposite of an integer literal of a well-formed tree is in range. -/
theorem WellFormed.neg?_eq {n : Int64} {type : ValueType}
    (h : (literal (.integer n) type).WellFormed) : Number.neg? n = some (-n) := by
  have hlower := lt_toInt_of_ne_minValue (wellFormed_literal.mp h).1
  have hupper := n.toInt_lt
  rw [Number.neg?, Number.int64?, if_pos, Int64.ofInt_neg, Int64.ofInt_toInt]
  simp only [Bool.and_eq_true, decide_eq_true_eq]
  omega

end Expr

/-! ## Evaluation -/

def EvalError.isArgumentCount : EvalError → Bool
  | argumentCount _ _ => true
  | _ => false

/-- No error about the number of arguments. -/
def CountsFit {α : Type} (x : Except EvalError α) : Prop :=
  ∀ function count, x ≠ .error (.argumentCount function count)

namespace CountsFit

variable {α β : Type}

theorem ok (a : α) : CountsFit (.ok a : Except EvalError α) := by
  intro function count h
  cases h

theorem error {e : EvalError} (h : e.isArgumentCount = false) :
    CountsFit (.error e : Except EvalError α) := by
  intro function count heq
  cases heq
  cases h

/-- If neither of two steps fails for a number of arguments, one after the other does not. -/
theorem bind {x : Except EvalError α} {f : α → Except EvalError β} (hx : CountsFit x)
    (hf : ∀ a, x = .ok a → CountsFit (f a)) : CountsFit (x >>= f) := by
  intro function count h
  rcases bind_eq_error.mp h with hx' | ⟨a, ha, hfa⟩
  · exact hx function count hx'
  · exact hf a ha function count hfa

end CountsFit

/-- A function does not refuse a number of arguments that it takes. -/
theorem Builtin.countsFit_apply {function : Builtin} {arguments : List Value}
    (h : function.takes arguments.length = true) (now : Int64) :
    CountsFit (function.apply now arguments) := by
  unfold Builtin.apply
  rw [h, Bool.not_true, if_neg Bool.false_ne_true]
  cases arguments with
  | nil => cases function <;> first | exact .ok _ | cases h
  | cons value rest => cases function <;> cases value <;> exact .ok _

/-- Negating a number may overflow, but never fails for a number of arguments. -/
theorem countsFit_negateNumber? {value : Value} {result : Except EvalError Value}
    (h : negateNumber? value = some result) : CountsFit result := by
  cases value with
  | integer n =>
      rw [negateNumber?] at h
      cases hneg : Number.neg? n with
      | none =>
          rw [hneg] at h
          cases h
          exact .error rfl
      | some m =>
          rw [hneg] at h
          cases h
          exact .ok _
  | null | float => cases h; exact .ok _
  | _ => cases h

theorem UnaryOp.countsFit_apply (op : UnaryOp) (operand : Value) :
    CountsFit (op.apply operand) := by
  cases op with
  | not => cases operand <;> first | exact .ok _ | exact .error rfl
  | negate =>
      simp only [UnaryOp.apply]
      split
      next result hresult => exact countsFit_negateNumber? hresult
      next =>
        split
        next result hresult =>
          obtain ⟨number, -, hnumber⟩ := Option.bind_eq_some_iff.mp hresult
          exact countsFit_negateNumber? hnumber
        next => exact .error rfl
  | isNull | notNull => exact .ok _

theorem BinaryOp.countsFit_truth (op : BinaryOp) (value : Value) : CountsFit (op.truth value) := by
  cases value <;> first | exact .ok _ | exact .error rfl

theorem countsFit_integerResult (result : Option Int64) : CountsFit (integerResult result) := by
  cases result with
  | none => exact .error rfl
  | some n => exact .ok _

theorem countsFit_dateResult (result : Option Int64) : CountsFit (dateResult result) := by
  cases result with
  | none => exact .error rfl
  | some n => exact .ok _

/-- Integer arithmetic may overflow or divide by zero, but never fails for a number of arguments. -/
theorem countsFit_integerArithmetic (op : BinaryOp) (a b : Int64) :
    CountsFit (integerArithmetic op a b) := by
  unfold integerArithmetic
  split
  next => exact countsFit_integerResult _
  next => exact countsFit_integerResult _
  next => exact countsFit_integerResult _
  next =>
    split
    next => exact .error rfl
    next =>
      split
      next =>
        split
        next => exact countsFit_integerResult _
        next => exact .ok _
      next => exact .error rfl
  next =>
    split
    next => exact .error rfl
    next => exact countsFit_integerResult _

theorem countsFit_floatArithmetic (op : BinaryOp) (a b : Number.Binary64) :
    CountsFit (floatArithmetic op a b) := by
  unfold floatArithmetic
  split
  next => exact .ok _
  next => exact .ok _
  next => exact .ok _
  next => split <;> first | exact .ok _ | exact .error rfl
  next => split <;> first | exact .ok _ | exact .error rfl

theorem BinaryOp.countsFit_arithmetic (op : BinaryOp) (left right : Value) :
    CountsFit (op.arithmetic left right) := by
  unfold BinaryOp.arithmetic
  split
  next => exact .ok _
  next =>
    extract_lets general
    have hgeneral : CountsFit general := by
      simp only [general]
      split
      next => exact countsFit_floatArithmetic _ _ _
      next => exact .error rfl
    split
    next =>
      split
      next => exact countsFit_dateResult _
      next => exact countsFit_dateResult _
      next => exact hgeneral
    next => exact countsFit_integerArithmetic _ _ _
    next => exact hgeneral

/-- An operator on any two values never fails for a number of arguments. -/
theorem BinaryOp.countsFit_apply (op : BinaryOp) (left right : Value) :
    CountsFit (op.apply left right) := by
  have hunlessNull : ∀ {x : Except EvalError Value}, CountsFit x →
      CountsFit (if left.isNull || right.isNull then .ok .null else x) := by
    intro x hx
    split
    next => exact .ok _
    next => exact hx
  cases op with
  | and | or =>
      exact (BinaryOp.countsFit_truth _ left).bind fun l _ =>
        (BinaryOp.countsFit_truth _ right).bind fun r _ => .ok _
  | eq | ne | containsOneOf | containsNone => exact .ok _
  | lt | le | gt | ge =>
      refine hunlessNull ?_
      split
      next => exact .ok _
      next => exact .error rfl
  | like => exact hunlessNull (.ok _)
  | add | sub | mul | div | mod => exact hunlessNull (BinaryOp.countsFit_arithmetic _ left right)

namespace Expr

/-- Evaluating arguments fails for a number of arguments only where one of them does. -/
theorem countsFit_evaluateAll {env : Environment} {arguments : List Expr}
    (h : ∀ argument ∈ arguments, CountsFit (argument.evaluate env)) :
    CountsFit (evaluateAll env arguments) := by
  induction arguments with
  | nil =>
      rw [evaluateAll]
      exact .ok _
  | cons first rest ih =>
      rw [List.forall_mem_cons] at h
      rw [evaluateAll]
      exact h.1.bind fun value _ => (ih h.2).bind fun values _ => .ok _

/-- There are as many values as there are arguments. -/
theorem length_evaluateAll {env : Environment} {arguments : List Expr} {values : List Value}
    (h : evaluateAll env arguments = .ok values) : values.length = arguments.length := by
  induction arguments generalizing values with
  | nil =>
      rw [evaluateAll] at h
      cases h
      rfl
  | cons first rest ih =>
      rw [evaluateAll] at h
      obtain ⟨value, -, h⟩ := bind_eq_ok.mp h
      obtain ⟨others, hothers, h⟩ := bind_eq_ok.mp h
      cases h
      rw [List.length_cons, List.length_cons, ih hothers]

/-- No call in a well-formed tree is refused for the number of its arguments. -/
theorem WellFormed.countsFit_evaluate {expr : Expr} (h : expr.WellFormed) (env : Environment) :
    CountsFit (expr.evaluate env) := by
  induction expr using chain_induction with
  | literal value type =>
      rw [evaluate]
      exact .ok _
  | reference path expected =>
      rw [evaluate]
      exact .ok _
  | call function arguments expected ih =>
      obtain ⟨htakes, harguments⟩ := wellFormed_call.mp h
      rw [evaluate]
      refine (countsFit_evaluateAll fun argument hargument =>
        ih argument hargument (harguments argument hargument)).bind fun values hvalues => ?_
      exact Builtin.countsFit_apply (by rwa [length_evaluateAll hvalues]) env.now
  | unary op operand ih =>
      rw [evaluate]
      exact (ih (wellFormed_unary.mp h)).bind fun value _ => op.countsFit_apply value
  | binary op left right ihleft ihright _ =>
      obtain ⟨hleft, hright⟩ := wellFormed_binary.mp h
      rw [evaluate]
      split
      next =>
        refine (ihleft hleft).bind fun l _ => (op.countsFit_truth l).bind fun truth _ => ?_
        split
        next => exact .ok _
        next =>
          exact (ihright hright).bind fun r _ => (op.countsFit_truth r).bind fun _ _ => .ok _
      next =>
        exact (ihleft hleft).bind fun l _ => (ihright hright).bind fun r _ =>
          op.countsFit_apply l r

/-! ## Binary form -/

/-- Arguments hold an object only where one of them does. -/
theorem anyHoldsObject_eq_false {arguments : List Expr}
    (h : ∀ argument ∈ arguments, argument.holdsObject = false) :
    anyHoldsObject arguments = false := by
  induction arguments with
  | nil => rfl
  | cons first rest ih =>
      rw [List.forall_mem_cons] at h
      rw [anyHoldsObject, h.1, ih h.2, Bool.or_false]

/-- A well-formed expression has no object in it. -/
theorem WellFormed.holdsObject_eq_false {expr : Expr} (h : expr.WellFormed) :
    expr.holdsObject = false := by
  induction expr using chain_induction with
  | literal value type =>
      have hliteral := (wellFormed_literal.mp h).1
      cases value <;> first | rfl | cases hliteral
  | reference path expected => rfl
  | call function arguments expected ih =>
      exact anyHoldsObject_eq_false fun argument hargument =>
        ih argument hargument ((wellFormed_call.mp h).2 argument hargument)
  | unary op operand ih => exact ih (wellFormed_unary.mp h)
  | binary op left right ihleft ihright _ =>
      obtain ⟨hleft, hright⟩ := wellFormed_binary.mp h
      rw [holdsObject, ihleft hleft, ihright hright, Bool.or_false]

/-- A well-formed expression can be encoded. -/
theorem WellFormed.exists_encode {expr : Expr} (h : expr.WellFormed) :
    ∃ bytes, Wire.encode expr = .ok bytes := by
  have hsome : (Wire.tree? expr).isNone = false :=
    (Wire.isNone_tree? expr).trans h.holdsObject_eq_false
  obtain ⟨bytes, hbytes⟩ := Option.isSome_iff_exists.mp (Option.isNone_eq_false_iff.mp hsome)
  exact ⟨Wire.version :: bytes, by rw [Wire.encode, hbytes]⟩

/-! ## Parsing -/

/-- What the parser takes for a path is made of names with dots between them. -/
theorem isDotted_of_isPath {word : List Char} (h : Parser.isPath word = true) : IsDotted word := by
  refine ⟨Text.pieces '.' word, Text.pieces_ne_nil '.' word,
    (Text.intercalate_pieces '.' word).symm, fun name hname => ⟨?_, ?_⟩⟩
  · exact fun hdot => (Text.mem_of_mem_pieces hname hdot).1 rfl
  · have hfirst := List.all_eq_true.mp h name hname
    cases name with
    | nil => cases hfirst
    | cons c rest => exact ⟨c, rest, rfl, by simpa using hfirst⟩

/-- A number without a sign is not the least integer. -/
theorem wellFormed_of_isWord {word : List Char} {expr : Expr} (h : IsWord word expr) :
    expr.WellFormed := by
  cases h with
  | isTrue | isFalse | isNull => exact wellFormed_ofValue trivial
  | @integer n hdigit hread =>
      have hnonneg := Parser.nonneg_of_startsWithDigit hdigit hread
      refine wellFormed_ofValue fun hleast => ?_
      rw [hleast] at hnonneg
      exact absurd hnonneg (by decide)
  | float _ _ _ hfinite => exact wellFormed_ofValue hfinite
  | path _ hpath =>
      rw [wellFormed_reference, String.toList_ofList]
      exact isDotted_of_isPath hpath

/-- All that the parser builds is well-formed. -/
theorem handsOn_wellFormed : Parser.HandsOn WellFormed where
  word h := wellFormed_of_isWord (isWord_iff.mpr h)
  string _ := wellFormed_ofValue trivial
  call htakes h := wellFormed_call.mpr ⟨htakes, h⟩
  withExpected _ h := wellFormed_withExpected.mpr h
  applyUnary op h := h.applyUnary op
  negate h := h.negate
  combine op hleft hright := hleft.combine hright op

/-- Every tree that is parsed is well-formed, whatever the keywords and the text around it. So the
opposite of an integer literal that is read behind a sign is in range, no call fails for the number
of its arguments, and the tree has a binary form. -/
theorem parseAt_wellFormed {vocabulary : Vocabulary} {quoting : Quoting} {code : List Char}
    {start stop : Nat} {expr : Expr}
    (h : parseAt vocabulary quoting code start = .ok ⟨some expr, stop⟩) :
    expr.WellFormed ∧
      (∀ context tokens operand n type, Parser.signed context tokens = .ok operand →
        operand.value = .literal (.integer n) type → Number.neg? n = some (-n)) ∧
      (∀ environment function count,
        expr.evaluate environment ≠ .error (.argumentCount function count)) ∧
      ∃ bytes, Wire.encode expr = .ok bytes := by
  have hwell : expr.WellFormed := by
    cases hdrop : Text.dropBytes? start code with
    | none =>
        rw [parseAt, hdrop] at h
        cases h
    | some text =>
        rw [Scan.parseAt_eq_parse hdrop] at h
        obtain ⟨_, _, -, hparse, htree⟩ | ⟨_, herror, -⟩ :=
          Scan.parse_settles handsOn_wellFormed vocabulary (Scan.of quoting start text)
        · cases hparse.symm.trans h
          exact htree expr rfl
        · cases herror.symm.trans h
  refine ⟨hwell, ?_, fun environment => hwell.countsFit_evaluate environment, hwell.exists_encode⟩
  intro context tokens operand n type hsigned hvalue
  have hsettles : Parser.Settles context WellFormed tokens (Parser.signed context tokens) :=
    Parser.signed_settles handsOn_wellFormed tokens
  rw [hsigned] at hsettles
  cases hsettles with
  | ok hoperand _ _ =>
      rw [hvalue] at hoperand
      exact hoperand.neg?_eq

/-- A text that parses as a whole parses at its start, up to some position. -/
theorem exists_parseAt_of_parse {vocabulary : Vocabulary} {code : List Char} {expr : Expr}
    (h : parse vocabulary code = .ok expr) :
    ∃ stop, parseAt vocabulary .standard code 0 = .ok ⟨some expr, stop⟩ := by
  obtain ⟨⟨tree, stop⟩, hat, h⟩ := bind_eq_ok.mp h
  by_cases hstop : stop < Text.byteLength code
  · simp only [hstop, if_true] at h
    cases tree <;> cases h
  · simp only [hstop, if_false] at h
    cases tree with
    | none => cases h
    | some tree =>
        cases h
        exact ⟨stop, hat⟩

/-- A call, a path and a number with a sign. -/
def loweredEqualsMinusFive : Expr :=
  Parser.combine .eq (.call .lower [.reference "a" .string] .any) (.ofValue (.integer (-5)))

theorem parseAt_wellFormed_lowered :
    ∃ stop, parseAt .standard .standard "lower(a) == -5".toList 0 =
        .ok ⟨some loweredEqualsMinusFive, stop⟩ ∧
      loweredEqualsMinusFive.WellFormed ∧
      ∃ bytes, Wire.encode loweredEqualsMinusFive = .ok bytes := by
  have hpath : (reference "a" .any).Parsed := .reference (isPathWord_letter (by decide))
  have hcall : (call .lower ([.reference "a" .any].map (withExpected .string)) .any).Parsed :=
    .call (List.forall_mem_singleton.mpr hpath) rfl
  have hprint : loweredEqualsMinusFive.print = "lower(a) == -5".toList := by decide
  have hreading : reading [] loweredEqualsMinusFive = some loweredEqualsMinusFive := rfl
  have hparse := parse_print (.binary .eq hcall (.integer (n := -5) (by decide)))
  change ParsesAs loweredEqualsMinusFive.print (reading [] loweredEqualsMinusFive) at hparse
  rw [hprint, hreading] at hparse
  obtain ⟨stop, hat⟩ := exists_parseAt_of_parse hparse
  obtain ⟨hwell, -, -, hbytes⟩ := parseAt_wellFormed hat
  exact ⟨stop, hat, hwell, hbytes⟩

end Expr

end RowFilter
