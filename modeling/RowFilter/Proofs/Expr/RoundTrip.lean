import RowFilter.Expr.Evaluation
import RowFilter.Proofs.Expr.Acceptance
import RowFilter.Proofs.Expr.Reparsing

/-! # Which expressions survive printing

A tree comes back from its text unless a comparison is the left operand of a comparison, a null
check stands behind an operand that is printed with a sign in front, or a float is printed like an
integer.
-/

namespace RowFilter

namespace Expr

/-- Whether the text begins with a sign that null checks after the text come to stand behind. -/
def beginsWithSign : Expr → Bool
  | literal (.integer n) _ => n.toInt < 0
  | literal (.float x) _ => x.isNegative
  | unary .negate _ => true
  | unary .isNull operand => beginsWithSign operand
  | unary .notNull operand => beginsWithSign operand
  | _ => false

mutual

/-- Whether the text stands for the tree. -/
def isFaithful : Expr → Bool
  | literal (.float x) _ => (Number.readInt64? x.unsignedText).isNone
  | literal _ _ => true
  | reference _ _ => true
  | call _ arguments _ => allFaithful arguments
  | unary op operand => isFaithful operand && !(op.isTrailing && beginsWithSign operand)
  | binary op left right =>
    isFaithful left && isFaithful right && !(op.isComparison && left.precedence == 3)

def allFaithful : List Expr → Bool
  | [] => true
  | argument :: rest => isFaithful argument && allFaithful rest

end

variable (type : ValueType) (expr : Expr)

@[simp]
theorem beginsWithSign_withExpected :
    (expr.withExpected type).beginsWithSign = expr.beginsWithSign := by
  cases expr <;> rfl

/-- The type expected of an expression has no part in whether its text is faithful. -/
@[simp]
theorem isFaithful_withExpected : (expr.withExpected type).isFaithful = expr.isFaithful := by
  cases expr <;> simp [withExpected, isFaithful]

/-- A combined expression is faithful if its operands are and no comparison is the left operand of a
comparison. -/
theorem isFaithful_combine (op : BinaryOp) (left right : Expr) :
    (Parser.combine op left right).isFaithful = (left.isFaithful && right.isFaithful &&
      !(op.isComparison && left.precedence == 3)) := by
  obtain ⟨left', right', heq, hleft, hright⟩ := combine_eq op left right
  rw [heq, isFaithful]
  obtain rfl | ⟨_, rfl⟩ := hleft <;> obtain rfl | ⟨_, rfl⟩ := hright <;> simp

/-! ## Operands that differ stay different -/

/-- The parser's trees do not expect a type on their own. -/
theorem Parsed.withExpected_any {expr : Expr} (h : expr.Parsed) (type : ValueType) :
    (expr.withExpected type).withExpected .any = expr := by
  cases h <;> rfl

theorem Parsed.eq_of_withExpected {first second : Expr} (hfirst : first.Parsed)
    (hsecond : second.Parsed) {type : ValueType}
    (h : first.withExpected type = second.withExpected type) : first = second := by
  rw [← hfirst.withExpected_any type, h, hsecond.withExpected_any]

/-- An operator before or behind two trees of the parser tells them apart. -/
theorem Parsed.eq_of_applyUnary {op : UnaryOp} {first second : Expr} (hfirst : first.Parsed)
    (hsecond : second.Parsed)
    (h : Parser.applyUnary op first = Parser.applyUnary op second) : first = second :=
  hfirst.eq_of_withExpected hsecond (Expr.unary.inj h).2

/-- The operands of a combined expression can be read off it. -/
theorem Parsed.eq_of_combine {op : BinaryOp} {left right left' right' : Expr}
    (hleft : left.Parsed) (hleft' : left'.Parsed) (hright : right.Parsed)
    (hright' : right'.Parsed)
    (h : Parser.combine op left right = Parser.combine op left' right') :
    left = left' ∧ right = right' := by
  obtain ⟨-, hl, hr⟩ := Expr.binary.inj h
  dsimp only at hl hr
  constructor
  · split at hl
    next => exact hl
    next => exact hleft.eq_of_withExpected hleft' hl
  · split at hr
    next => exact hr
    next => exact hright.eq_of_withExpected hright' hr

/-- Arguments with a type put on them tell apart the trees they were made from. -/
theorem Parsed.eq_of_map {type : ValueType} {first second : List Expr}
    (hfirst : ∀ expr ∈ first, expr.Parsed) (hsecond : ∀ expr ∈ second, expr.Parsed)
    (h : first.map (withExpected type) = second.map (withExpected type)) : first = second := by
  have hid : ∀ exprs : List Expr, (∀ expr ∈ exprs, expr.Parsed) →
      (exprs.map (withExpected type)).map (withExpected .any) = exprs := by
    intro exprs hexprs
    have hcongr : exprs.map (withExpected .any ∘ withExpected type) = exprs.map id :=
      List.map_congr_left fun expr hexpr => (hexprs expr hexpr).withExpected_any type
    rw [List.map_map, hcongr, List.map_id]
  rw [← hid first hfirst, h, hid second hsecond]

/-! ## Null checks -/

/-- The same null checks behind two trees of the parser tell them apart. -/
theorem Parsed.eq_of_checkAll {checks : List UnaryOp}
    (hchecks : ∀ op ∈ checks, op.isTrailing = true) {first second : Expr}
    (hfirst : first.Parsed) (hsecond : second.Parsed)
    (h : Expr.checkAll checks first = Expr.checkAll checks second) : first = second := by
  induction checks generalizing first second with
  | nil => exact h
  | cons op checks ih =>
      have hop : op ≠ .negate := by
        rintro rfl
        cases hchecks .negate List.mem_cons_self
      exact hfirst.eq_of_applyUnary hsecond
        (ih (fun op hop => hchecks op (List.mem_cons_of_mem _ hop)) (.unary hop hfirst)
          (.unary hop hsecond) h)

/-- What is negated to an operation was made one: it was no number that took the sign. -/
theorem negate_eq_unary {expr operand : Expr} {op : UnaryOp}
    (h : Parser.negate expr = .unary op operand) :
    op = .negate ∧ expr.withExpected .number = operand := by
  unfold Parser.negate at h
  split at h
  next => cases h
  next => cases h
  next =>
    cases h
    exact ⟨rfl, rfl⟩

/-- What begins with a sign is no null check. -/
theorem negate_ne_checkAll {checks : List UnaryOp}
    (hchecks : ∀ op ∈ checks, op.isTrailing = true) (hne : checks ≠ []) (expr operand : Expr) :
    Parser.negate expr ≠ checkAll checks operand := by
  intro h
  have hlast : checks.getLast hne = .negate := by
    rw [← List.dropLast_append_getLast hne, checkAll, List.foldl_append] at h
    exact (negate_eq_unary h).1
  have htrailing := hchecks _ (List.getLast_mem hne)
  rw [hlast] at htrailing
  cases htrailing

/-! ## Readings -/

/-- What is read in the text of a tree of the parser is one again. -/
theorem Parsed.of_reading {expr result : Expr} (h : expr.Parsed)
    (hreading : reading [] expr = some result) : result.Parsed := by
  have hparse := parse_print h
  rw [hreading] at hparse
  exact parsed_of_parse hparse

theorem parsed_of_readingAll {arguments results : List Expr}
    (h : ∀ argument ∈ arguments, argument.Parsed)
    (hreading : readingAll arguments = some results) : ∀ result ∈ results, result.Parsed := by
  induction arguments generalizing results with
  | nil =>
      cases hreading
      simp
  | cons first rest ih =>
      rw [readingAll] at hreading
      obtain ⟨value, hvalue, hreading⟩ := Option.bind_eq_some_iff.mp hreading
      obtain ⟨others, hothers, rfl⟩ := Option.map_eq_some_iff.mp hreading
      have hrest := ih (fun argument hargument => h argument (List.mem_cons_of_mem _ hargument))
        hothers
      simpa using ⟨(h first List.mem_cons_self).of_reading hvalue, hrest⟩

/-- A tree is read in its own text and the null checks after it. -/
def ReadsItself (expr : Expr) : Prop :=
  ∀ checks : List UnaryOp, (∀ op ∈ checks, op.isTrailing = true) →
    (reading checks expr = some (checkAll checks expr) ↔
      expr.isFaithful = true ∧ (checks = [] ∨ expr.beginsWithSign = false))

theorem ReadsItself.alone {expr : Expr} (h : expr.ReadsItself) :
    reading [] expr = some expr ↔ expr.isFaithful = true :=
  (h [] (by simp)).trans ⟨fun hboth => hboth.1, fun hfaithful => ⟨hfaithful, Or.inl rfl⟩⟩

/-- A faithful tree without a sign is read as itself if it is read with all null checks after it. -/
theorem readsItself_of_reading {expr : Expr}
    (hreading : ∀ checks, reading checks expr = some (checkAll checks expr))
    (hfaithful : expr.isFaithful = true) (hsign : expr.beginsWithSign = false) :
    expr.ReadsItself :=
  fun checks _ => ⟨fun _ => ⟨hfaithful, Or.inr hsign⟩, fun _ => hreading checks⟩

/-- An integer is read as itself, with a sign or without it. -/
theorem readsItself_integer (n : Int64) :
    (ofValue (.integer n)).ReadsItself := by
  intro checks hchecks
  rw [ofValue, reading, readingLiteral, isFaithful, beginsWithSign]
  by_cases hneg : n.toInt < 0
  · rw [if_pos hneg, decide_eq_true hneg, Option.some.injEq]
    by_cases hne : checks = []
    · subst hne
      have hself : Parser.negate (ofValue (.integer (-n))) = ofValue (.integer n) := by
        rw [ofValue, Parser.negate, Int64.neg_neg]
      exact ⟨fun _ => ⟨rfl, Or.inl rfl⟩, fun _ => hself⟩
    · have hother := negate_ne_checkAll hchecks hne (checkAll checks (ofValue (.integer (-n))))
        (ofValue (.integer n))
      simp only [hne, false_or, Bool.true_eq_false, and_false, iff_false]
      exact hother
  · rw [if_neg hneg, decide_eq_false hneg]
    simp [ofValue]
  · simp

theorem parsed_ofNumberWord {x : Number.Binary64} (h : x.isFinite = true) :
    (ofNumberWord x.unsignedText x.unsigned).Parsed := by
  unfold ofNumberWord
  split
  next n hread =>
    have hdigit := (isNumberWord_unsignedText x).startsWithDigit
    have hnonneg := Parser.nonneg_of_startsWithDigit hdigit hread
    exact .integer (by omega)
  next => exact .float (x.isFinite_unsigned.trans h)

/-- A float is read as itself unless its text is an integer's. -/
theorem readsItself_float {x : Number.Binary64} (h : x.isFinite = true) :
    (ofValue (.float x)).ReadsItself := by
  intro checks hchecks
  have hsign : (ofValue (.float x)).beginsWithSign = x.isNegative := rfl
  have hfaithful : (ofValue (.float x)).isFaithful =
      (Number.readInt64? x.unsignedText).isNone := by
    rw [ofValue, isFaithful]
  have hreading : reading checks (ofValue (.float x)) = some (if x.isNegative = true
      then Parser.negate (checkAll checks (ofNumberWord x.unsignedText x.unsigned))
      else checkAll checks (ofNumberWord x.unsignedText x.unsigned)) := rfl
  rw [hreading, Option.some.injEq, hsign]
  by_cases hneg : x.isNegative = true
  · rw [if_pos hneg, hneg]
    by_cases hne : checks = []
    · subst hne
      have hself : Parser.negate (ofNumberWord x.unsignedText x.unsigned) = ofValue (.float x) ↔
          (ofValue (.float x)).isFaithful = true := by
        rw [ofNumberWord, hfaithful]
        cases Number.readInt64? x.unsignedText with
        | none => simp [Parser.negate, ofValue, Number.Binary64.neg_unsigned hneg]
        | some n => simp [Parser.negate, ofValue]
      exact hself.trans ⟨fun hfaithful => ⟨hfaithful, Or.inl rfl⟩, fun hboth => hboth.1⟩
    · have hother := negate_ne_checkAll hchecks hne
        (checkAll checks (ofNumberWord x.unsignedText x.unsigned)) (ofValue (.float x))
      simp only [hne, false_or, Bool.true_eq_false, and_false, iff_false]
      exact hother
  · have hself : ofNumberWord x.unsignedText x.unsigned = ofValue (.float x) ↔
        (ofValue (.float x)).isFaithful = true := by
      rw [ofNumberWord, hfaithful]
      have hunsigned := Number.Binary64.unsigned_of_nonneg (Bool.eq_false_iff.mpr hneg)
      cases Number.readInt64? x.unsignedText with
      | none => simp [ofValue, hunsigned]
      | some n => simp [ofValue]
    have hinjective : checkAll checks (ofNumberWord x.unsignedText x.unsigned) =
        checkAll checks (ofValue (.float x)) ↔
          ofNumberWord x.unsignedText x.unsigned = ofValue (.float x) :=
      ⟨(parsed_ofNumberWord h).eq_of_checkAll hchecks (.float h), fun heq => by rw [heq]⟩
    rw [if_neg hneg, hinjective, hself]
    exact ⟨fun hfaithful => ⟨hfaithful, Or.inr (Bool.eq_false_iff.mpr hneg)⟩,
      fun hboth => hboth.1⟩

theorem allFaithful_map_withExpected (arguments : List Expr) :
    allFaithful (arguments.map (withExpected type)) = allFaithful arguments := by
  induction arguments with
  | nil => rfl
  | cons first rest ih => simp [allFaithful, ih]

/-- Arguments are read as themselves if each of them is. -/
theorem readingAll_eq_some_iff {arguments : List Expr}
    (h : ∀ argument ∈ arguments, argument.ReadsItself) :
    readingAll arguments = some arguments ↔ allFaithful arguments = true := by
  induction arguments with
  | nil => simp [readingAll, allFaithful]
  | cons first rest ih =>
      rw [List.forall_mem_cons] at h
      rw [readingAll, allFaithful, Bool.and_eq_true, ← h.1.alone, ← ih h.2]
      cases reading [] first <;> cases readingAll rest <;> simp

/-- A call is read as itself if its arguments are. -/
theorem readsItself_call {function : Builtin} {arguments : List Expr}
    (hparsed : ∀ argument ∈ arguments, argument.Parsed)
    (htakes : function.takes arguments.length = true)
    (h : ∀ argument ∈ arguments, argument.ReadsItself) :
    (call function (arguments.map (withExpected function.argumentType)) .any).ReadsItself := by
  intro checks hchecks
  have hsign : (call function (arguments.map (withExpected function.argumentType))
      .any).beginsWithSign = false := rfl
  rw [reading, readingAll_map_withExpected, isFaithful, allFaithful_map_withExpected, hsign,
    ← readingAll_eq_some_iff h]
  simp only [or_true, and_true, Option.map_eq_some_iff]
  constructor
  · rintro ⟨operands, hoperands, heq⟩
    have hread := parsed_of_readingAll hparsed hoperands
    have hlength := length_of_mapM ((readingAll_eq_mapM arguments).symm.trans hoperands)
    have hcall := (Parsed.call hread (by rw [hlength]; exact htakes)).eq_of_checkAll hchecks
      (.call hparsed htakes) heq
    rw [hoperands, Parsed.eq_of_map hread hparsed (Expr.call.inj hcall).2.1]
  · intro hself
    exact ⟨arguments, hself, rfl⟩

/-- A sign is never read in front of a number: that number would have taken it. -/
theorem readsItself_negate {operand : Expr} (hparsed : operand.Parsed)
    (hnumber : operand.isNumber = false) (h : operand.ReadsItself) :
    (Parser.applyUnary .negate operand).ReadsItself := by
  intro checks hchecks
  have hsign : (Parser.applyUnary .negate operand).beginsWithSign = true := rfl
  rw [hsign, Parser.applyUnary, reading, reading_withExpected, isFaithful, isFaithful_withExpected]
  simp only [UnaryOp.isTrailing, Bool.false_and, Bool.not_false, Bool.and_true,
    Bool.true_eq_false, or_false, Option.map_eq_some_iff]
  rw [← h.alone]
  constructor
  · rintro ⟨result, hresult, heq⟩
    have hne : checks = [] := Classical.byContradiction fun hne =>
      negate_ne_checkAll hchecks hne _ _ heq
    subst hne
    have hread := hparsed.of_reading hresult
    have hunary : Parser.negate result = Parser.applyUnary .negate operand := heq
    have hresultNumber : result.isNumber = false := by
      unfold Parser.negate at hunary
      split at hunary
      next => cases hunary
      next => cases hunary
      next hinteger hfloat =>
        unfold isNumber
        split
        next n type => exact absurd rfl (hinteger n type)
        next x type => exact absurd rfl (hfloat x type)
        next => rfl
    rw [negate_of_isNumber_eq_false hresultNumber] at hunary
    rw [hresult, hread.eq_of_applyUnary hparsed hunary]
    exact ⟨rfl, rfl⟩
  · rintro ⟨hself, rfl⟩
    exact ⟨operand, hself, negate_of_isNumber_eq_false hnumber⟩

theorem readsItself_not {operand : Expr} (hparsed : operand.Parsed) (h : operand.ReadsItself) :
    (Parser.applyUnary .not operand).ReadsItself := by
  intro checks hchecks
  have hsign : (Parser.applyUnary .not operand).beginsWithSign = false := rfl
  rw [hsign, Parser.applyUnary, reading, reading_withExpected, isFaithful, isFaithful_withExpected]
  simp only [UnaryOp.isTrailing, Bool.false_and, Bool.not_false, Bool.and_true, or_true, and_true,
    Option.map_eq_some_iff]
  rw [← h.alone]
  constructor
  · rintro ⟨result, hresult, heq⟩
    have hread := hparsed.of_reading hresult
    have hnot : Parser.applyUnary .not result = Parser.applyUnary .not operand :=
      Parsed.eq_of_checkAll hchecks (.unary (by decide) hread) (.unary (by decide) hparsed) heq
    rw [hresult, hread.eq_of_applyUnary hparsed hnot]
  · intro hoperand
    exact ⟨operand, hoperand, rfl⟩

/-- A null check is the innermost of the checks after its operand. -/
theorem readsItself_check {op : UnaryOp} (hop : op.isTrailing = true) {operand : Expr}
    (h : operand.ReadsItself) : (Parser.applyUnary op operand).ReadsItself := by
  intro checks hchecks
  have hself := h (op :: checks) (by simpa using ⟨hop, hchecks⟩)
  have hreading : reading checks (Parser.applyUnary op operand) =
      reading (op :: checks) operand := by
    cases op with
    | isNull | notNull => rw [Parser.applyUnary, reading, reading_withExpected]
    | _ => cases hop
  have hsign : (Parser.applyUnary op operand).beginsWithSign = operand.beginsWithSign := by
    cases op with
    | isNull | notNull => rw [Parser.applyUnary, beginsWithSign, beginsWithSign_withExpected]
    | _ => cases hop
  have hfaithful : (Parser.applyUnary op operand).isFaithful =
      (operand.isFaithful && !operand.beginsWithSign) := by
    rw [Parser.applyUnary, isFaithful, hop, Bool.true_and, isFaithful_withExpected,
      beginsWithSign_withExpected]
  rw [hreading, hsign, hfaithful]
  refine Iff.trans hself ?_
  simp only [List.cons_ne_nil, false_or, Bool.and_eq_true, Bool.not_eq_true']
  exact ⟨fun h => ⟨h, Or.inr h.2⟩, fun h => h.1⟩

/-- A combined expression is read as itself if its operands are. -/
theorem readsItself_combine (op : BinaryOp) {left right : Expr} (hleft : left.Parsed)
    (hright : right.Parsed) (hleftSelf : left.ReadsItself) (hrightSelf : right.ReadsItself) :
    (Parser.combine op left right).ReadsItself := by
  intro checks hchecks
  have hsign : (Parser.combine op left right).beginsWithSign = false := rfl
  rw [reading_combine, isFaithful_combine, hsign]
  by_cases hchained : (op.isComparison && left.precedence == 3) = true
  · rw [if_pos hchained, hchained]
    simp
  · rw [if_neg hchained, Bool.eq_false_iff.mpr hchained]
    simp only [Bool.not_false, Bool.and_true, or_true, and_true, Bool.and_eq_true,
      Option.bind_eq_some_iff, Option.map_eq_some_iff]
    rw [← hleftSelf.alone, ← hrightSelf.alone]
    constructor
    · rintro ⟨first, hfirstRead, second, hsecondRead, heq⟩
      have hfirstParsed := hleft.of_reading hfirstRead
      have hsecondParsed := hright.of_reading hsecondRead
      have hcombine := Parsed.eq_of_checkAll hchecks (.binary op hfirstParsed hsecondParsed)
        (.binary op hleft hright) heq
      obtain ⟨rfl, rfl⟩ := Parsed.eq_of_combine hfirstParsed hleft hsecondParsed hright hcombine
      exact ⟨hfirstRead, hsecondRead⟩
    · rintro ⟨hfirstRead, hsecondRead⟩
      exact ⟨left, hfirstRead, right, hsecondRead, rfl⟩

/-- Every tree of the parser is read as itself exactly if it is faithful. -/
theorem readsItself_of_parsed {expr : Expr} (h : expr.Parsed) : expr.ReadsItself := by
  induction h with
  | null => exact readsItself_of_reading (fun _ => rfl) rfl rfl
  | boolean b => exact readsItself_of_reading (fun _ => rfl) rfl rfl
  | integer h => exact readsItself_integer _
  | float h => exact readsItself_float h
  | string s => exact readsItself_of_reading (fun _ => rfl) rfl rfl
  | reference h => exact readsItself_of_reading (fun _ => rfl) rfl rfl
  | call h htakes ih => exact readsItself_call h htakes ih
  | negate h hnumber ih => exact readsItself_negate h hnumber ih
  | @unary op hop operand h ih =>
      cases op with
      | not => exact readsItself_not h ih
      | negate => exact absurd rfl hop
      | isNull => exact readsItself_check rfl ih
      | notNull => exact readsItself_check rfl ih
  | binary op hleft hright ihleft ihright =>
      exact readsItself_combine op hleft hright ihleft ihright

/-! ## Texts that are refused -/

mutual

/-- Whether a comparison is the left operand of a comparison somewhere, so that the text has them
in a chain. -/
def chainsComparisons : Expr → Bool
  | literal _ _ => false
  | reference _ _ => false
  | call _ arguments _ => anyChainsComparisons arguments
  | unary _ operand => chainsComparisons operand
  | binary op left right =>
    op.isComparison && left.precedence == 3 || (chainsComparisons left || chainsComparisons right)

def anyChainsComparisons : List Expr → Bool
  | [] => false
  | argument :: rest => chainsComparisons argument || anyChainsComparisons rest

end

mutual

/-- An expression can be read back exactly if no comparisons in it form a chain. -/
theorem isSome_reading (checks : List UnaryOp) (expr : Expr) :
    (reading checks expr).isSome = !expr.chainsComparisons := by
  cases expr with
  | literal value type => rfl
  | reference path type => rfl
  | call function arguments type =>
      rw [reading, chainsComparisons, Option.isSome_map, isSome_readingAll arguments]
  | unary op operand =>
      cases op with
      | not =>
          rw [reading, chainsComparisons]
          simp only [Option.isSome_map]
          exact isSome_reading [] operand
      | negate =>
          rw [reading, chainsComparisons]
          simp only [Option.isSome_map]
          exact isSome_reading checks operand
      | isNull =>
          rw [reading, chainsComparisons]
          exact isSome_reading (.isNull :: checks) operand
      | notNull =>
          rw [reading, chainsComparisons]
          exact isSome_reading (.notNull :: checks) operand
  | binary op left right =>
      have hleft := isSome_reading [] left
      have hright := isSome_reading [] right
      rw [reading, chainsComparisons]
      -- A comparison as the left operand is printed without brackets, so there is no reading.
      by_cases hchained : (op.isComparison && left.precedence == 3) = true
      · rw [if_pos hchained, hchained]
        rfl
      · rw [if_neg hchained, Bool.eq_false_iff.mpr hchained, Bool.false_or, Bool.not_or, ← hleft,
          ← hright]
        cases reading [] left with
        | none => rfl
        | some first => simp

theorem isSome_readingAll (arguments : List Expr) :
    (readingAll arguments).isSome = !anyChainsComparisons arguments := by
  cases arguments with
  | nil => rfl
  | cons first rest =>
      have hfirst := isSome_reading [] first
      have hrest := isSome_readingAll rest
      rw [readingAll, anyChainsComparisons, Bool.not_or, ← hfirst, ← hrest]
      cases reading [] first with
      | none => rfl
      | some value => simp

end

/-- The text of an accepted expression is refused exactly if it has comparisons in a chain, and it
gives the same tree, so the same results, exactly if the tree is faithful. -/
theorem print_reparses {code : List Char} {expr : Expr}
    (h : parse Vocabulary.standard code = .ok expr) :
    ((∃ result, parse Vocabulary.standard expr.print = .ok result) ↔
        expr.chainsComparisons = false) ∧
      (parse Vocabulary.standard expr.print = .ok expr ↔ expr.isFaithful = true) ∧
        (expr.isFaithful = true → ∃ result, parse Vocabulary.standard expr.print = .ok result ∧
          ∀ environment, result.evaluate environment = expr.evaluate environment) := by
  have hparsed := parsed_of_parse h
  have hprint := parse_print hparsed
  have hself := (readsItself_of_parsed hparsed).alone
  have hsome := isSome_reading [] expr
  cases hreading : reading [] expr with
  | none =>
      rw [hreading] at hprint hself hsome
      obtain ⟨span, hrefused⟩ := hprint
      have hchained : expr.chainsComparisons = true := by simpa using hsome
      have hunfaithful : ¬ expr.isFaithful = true := fun hfaithful => nomatch hself.mpr hfaithful
      rw [hrefused]
      refine ⟨⟨?_, ?_⟩, ⟨?_, ?_⟩, ?_⟩
      · rintro ⟨result, ⟨⟩⟩
      · intro hunchained
        rw [hchained] at hunchained
        cases hunchained
      · rintro ⟨⟩
      · intro hfaithful
        exact absurd hfaithful hunfaithful
      · intro hfaithful
        exact absurd hfaithful hunfaithful
  | some result =>
      rw [hreading] at hprint hself hsome
      have haccepted : parse Vocabulary.standard expr.print = .ok result := hprint
      have hunchained : expr.chainsComparisons = false := by simpa using hsome
      rw [haccepted]
      refine ⟨⟨fun _ => hunchained, fun _ => ⟨result, rfl⟩⟩, ?_, fun hfaithful => ?_⟩
      · rw [← hself, Option.some.injEq, Except.ok.injEq]
      · obtain rfl := Option.some.inj (hself.mpr hfaithful)
        exact ⟨result, rfl, fun _ => rfl⟩

/-! ### A comparison of a comparison -/

theorem isPathWord_letter {c : Char} (h : c ∈ ['a', 'b', 'c']) : IsPathWord [c] := by
  have hall : ∀ c ∈ ['a', 'b', 'c'], Token.isSingleKeyword [c] = true ∧
      (∀ entry ∈ Vocabulary.standardOperands,
        entry.1 ≠ String.ofList (Vocabulary.normalize [c])) ∧
      Parser.isPath [c] = true ∧ Parser.startsWithDigit [c] = false ∧
      [c].map Char.toLower ∉ ["true".toList, "false".toList, "null".toList] :=
    List.all_iff_forall_prop.mp (by decide)
  obtain ⟨hsingle, hunknown, hpath, hdigit, hliteral⟩ := hall c h
  exact ⟨hsingle, Vocabulary.lookup_eq_none hunknown, hpath, hdigit, hliteral⟩

/-- The tokens of a word, as the operand of a comparison. -/
theorem derives_word {word : List Char} (h : IsPathWord word) :
    Derives (.chain .sums) [(.keyword, word)] (.reference (String.ofList word) .any) :=
  .single (.single (.unsigned (.unchecked (.word h.unknown (.path h.literal h.path)))))

/-- Two sums with an equality sign between them are a condition of the grammar. -/
theorem derives_equal {first : Shape} (hfirst : first.meaning = none) {before after : List Shape}
    {left right : Expr} (hleft : Derives (.chain .sums) (first :: before) left)
    (hright : Derives (.chain .sums) after right) :
    Derives (.chain .disjunctions) (first :: before ++ Shape.keyword "==" :: after)
      (Parser.combine .eq left right) := by
  have hmeaning : (Shape.keyword "==").meaning = some (.binary .eq) := by
    rw [Shape.meaning_keyword]
    exact Vocabulary.lookup_binary .eq
  refine .single (.single (.plain ?_ (.compared rfl hmeaning hleft hright)))
  rintro _ ⟨⟩
  simp [hfirst]

theorem lexes_equal {before after : List Char} {left right : List Shape}
    (hleft : Lexes Boundary before left) (hright : Lexes Boundary after right) :
    Lexes Boundary (before ++ " == ".toList ++ after) (left ++ Shape.keyword "==" :: right) := by
  have hmore := (lexes_binaryKeyword .eq).append (Lexes.blank.cons hright)
    fun rest _ => Boundary.cons (by decide) _
  rw [List.append_assoc]
  exact hleft.append (Lexes.blank.cons hmore) fun rest _ => Boundary.cons (by decide) _

theorem parse_equal_equal : parse Vocabulary.standard "(a == b) == c".toList =
    .ok (Parser.combine .eq (Parser.combine .eq (.reference "a" .any) (.reference "b" .any))
      (.reference "c" .any)) := by
  have ha := isPathWord_letter (c := 'a') (by decide)
  have hb := isPathWord_letter (c := 'b') (by decide)
  have hc := isPathWord_letter (c := 'c') (by decide)
  have hpair := lexes_equal (Lexes.keyword ha.single) (Lexes.keyword hb.single)
  have hclosing : Lexes Boundary [')'] [Shape.closing] := Lexes.closing.mono fun _ _ => trivial
  have hbrackets := Lexes.opening.cons (hpair.append hclosing
    fun rest _ => Boundary.cons (by decide) rest)
  obtain ⟨tokens, htokens, hscan⟩ := (lexes_equal hbrackets (Lexes.keyword hc.single)).scan_eq
  have hword : Shape.meaning (.keyword, ['a']) = none := (if_pos rfl).trans ha.unknown
  have hinner := derives_equal hword (derives_word ha) (derives_word hb)
  have hleft : Derives (.chain .sums) _ _ :=
    .single (.single (.unsigned (.unchecked (.brackets hinner))))
  have hopening : Shape.opening.meaning = none := if_neg (by decide)
  have houter := derives_equal hopening hleft (derives_word hc)
  exact parse_of_derives hscan (htokens ▸ houter)

theorem print_refused_eq_eq : ∃ expr, parse Vocabulary.standard "(a == b) == c".toList = .ok expr ∧
    ¬ ∃ result, parse Vocabulary.standard expr.print = .ok result := by
  refine ⟨_, parse_equal_equal, fun haccepted => ?_⟩
  have hunchained := (print_reparses parse_equal_equal).1.mp haccepted
  exact absurd hunchained (by decide)

end Expr

end RowFilter
