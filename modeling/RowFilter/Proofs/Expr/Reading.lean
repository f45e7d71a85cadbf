import RowFilter.Proofs.Expr.Scanning

/-! # Reading printed expressions

What the parser reads in the tokens of an expression's text. Each tree of the parser is followed
from the tightest construct that holds it to the loosest. Null checks that follow a text belong
to what the text ends with, so they are carried along.
-/

namespace RowFilter

theorem length_of_mapM {α β : Type} {f : α → Option β} {items : List α} {results : List β}
    (h : items.mapM f = some results) : results.length = items.length := by
  induction items generalizing results with
  | nil =>
      cases h
      rfl
  | cons first rest ih =>
      rw [List.mapM_cons] at h
      obtain ⟨value, -, h⟩ := Option.bind_eq_some_iff.mp h
      obtain ⟨others, hothers, h⟩ := Option.bind_eq_some_iff.mp h
      cases h
      rw [List.length_cons, List.length_cons, ih hothers]

namespace Expr

/-- The null checks after an operand, the first one innermost. -/
def checkAll (checks : List UnaryOp) (operand : Expr) : Expr :=
  checks.foldl (fun expr op => Parser.applyUnary op expr) operand

/-- A number without a sign, as its word is read. -/
def ofNumberWord (word : List Char) (x : Number.Binary64) : Expr :=
  match Number.readInt64? word with
  | some n => ofValue (.integer n)
  | none => ofValue (.float x)

/-- What is read in the text of a literal. A sign is read in front of the checks. -/
def readingLiteral (checks : List UnaryOp) : Value → Expr
  | .integer n =>
    if n.toInt < 0 then Parser.negate (checkAll checks (ofValue (.integer (-n))))
    else checkAll checks (ofValue (.integer n))
  | .float x =>
    let number := checkAll checks (ofNumberWord x.unsignedText x.unsigned)
    if x.isNegative then Parser.negate number else number
  | value => checkAll checks (ofValue value)

mutual

/-- What the parser reads in an expression's text and the null checks after it, unless it finds
comparisons that are chained. -/
def reading (checks : List UnaryOp) : Expr → Option Expr
  | literal value _ => some (readingLiteral checks value)
  | reference path _ => some (checkAll checks (.reference path .any))
  | call function arguments _ =>
    (readingAll arguments).map fun operands =>
      checkAll checks (.call function (operands.map (withExpected function.argumentType)) .any)
  | unary op operand =>
    match op with
    | .not => (reading [] operand).map fun expr => checkAll checks (Parser.applyUnary .not expr)
    | .negate => (reading checks operand).map Parser.negate
    | .isNull | .notNull => reading (op :: checks) operand
  | binary op left right =>
    if op.isComparison && left.precedence == 3 then none
    else (reading [] left).bind fun first => (reading [] right).map fun second =>
      checkAll checks (Parser.combine op first second)

def readingAll : List Expr → Option (List Expr)
  | [] => some []
  | argument :: rest =>
    (reading [] argument).bind fun first => (readingAll rest).map fun others => first :: others

end

@[simp]
theorem reading_withExpected (checks : List UnaryOp) (type : ValueType) (expr : Expr) :
    reading checks (expr.withExpected type) = reading checks expr := by
  cases expr <;> simp [withExpected, reading]

theorem readingAll_map_withExpected (type : ValueType) (arguments : List Expr) :
    readingAll (arguments.map (withExpected type)) = readingAll arguments := by
  induction arguments with
  | nil => rfl
  | cons first rest ih => simp [readingAll, ih]

/-- A combined comparison is not read back if its left operand is a comparison. All else is read as
the combination of what its operands are read as. -/
theorem reading_combine (checks : List UnaryOp) (op : BinaryOp) (left right : Expr) :
    reading checks (Parser.combine op left right) =
      if op.isComparison && left.precedence == 3 then none
      else (reading [] left).bind fun first => (reading [] right).map fun second =>
        checkAll checks (Parser.combine op first second) := by
  obtain ⟨left', right', heq, hleft, hright⟩ := combine_eq op left right
  rw [heq, reading]
  obtain rfl | ⟨_, rfl⟩ := hleft <;> obtain rfl | ⟨_, rfl⟩ := hright <;> simp

/-- Arguments are read back one by one, and all of them or none. -/
theorem readingAll_eq_mapM (arguments : List Expr) :
    readingAll arguments = arguments.mapM (reading []) := by
  induction arguments with
  | nil => rfl
  | cons first rest ih =>
      rw [readingAll, List.mapM_cons, ih]
      cases reading [] first with
      | none => rfl
      | some value => cases rest.mapM (reading []) <;> rfl

theorem shapesAll_eq_intercalate (arguments : List Expr) :
    shapesAll arguments = [Shape.comma].intercalate (arguments.map shapes) := by
  induction arguments with
  | nil => rfl
  | cons first rest ih =>
      cases rest with
      | nil => simp [shapesAll]
      | cons second rest =>
          rw [shapesAll, ih]
          · simp [List.intercalate_cons_cons]
          · simp

/-- Null checks after brackets belong to all that is between them. -/
theorem reading_of_precedence_lt {expr : Expr} (h : expr.precedence < 6) (checks : List UnaryOp) :
    reading checks expr = (reading [] expr).map (checkAll checks) := by
  cases expr with
  | literal => exact absurd h (by simp [precedence])
  | reference => exact absurd h (by simp [precedence])
  | call => exact absurd h (by simp [precedence])
  | unary op operand =>
      cases op with
      | not => simp [reading, checkAll, Function.comp_def]
      | _ => exact absurd h (by simp [precedence])
  | binary op left right =>
      simp only [reading]
      split
      next => rfl
      next => simp [Option.map_bind, checkAll, Function.comp_def]

end Expr

namespace Vocabulary

/-- The keyword of a binary operator names that operator in the standard vocabulary. -/
theorem lookup_binary (op : BinaryOp) :
    standard.lookup op.keyword.toList = some (.binary op) :=
  lookup_standard_iff.mpr (by cases op <;> decide)

theorem lookup_trailing {op : UnaryOp} (h : op.isTrailing = true) :
    standard.lookup op.keyword.toList = some (.trailing op) :=
  lookup_standard_iff.mpr (by cases op <;> first | decide | cases h)

theorem lookup_function (function : Builtin) :
    standard.lookup function.name.toList = some (.function function) :=
  lookup_standard_iff.mpr (by cases function <;> decide)

theorem lookup_not : standard.lookup "not".toList = some (.leading .not) :=
  lookup_standard_iff.mpr (by decide)

/-- A word that no standard operand has for its name, whatever its letter case, is unknown. -/
theorem lookup_eq_none {word : List Char}
    (h : ∀ entry ∈ standardOperands, entry.1 ≠ String.ofList (normalize word)) :
    standard.lookup word = none := by
  cases hlookup : standard.lookup word with
  | none => rfl
  | some operand => exact absurd rfl (h _ (lookup_standard_iff.mp hlookup))

/-- No keyword begins with a digit. -/
theorem lookup_number {word : List Char} (h : IsNumberWord word) :
    standard.lookup word = none := by
  have hspace : ∀ c ∈ word, Text.isWhitespace c = false :=
    fun c hc => Token.isWhitespace_of_isWordChar (h.isWordChar_of_mem hc)
  obtain ⟨c, rest, rfl, hdigit⟩ := h.1
  have hnormal : normalize (c :: rest) = c :: Text.lowerAfter [c] rest := by
    have hsigma : (c == 'Σ') = false := by
      rw [beq_eq_false_iff_ne]
      rintro rfl
      exact absurd hdigit (by decide)
    rw [normalize, Text.trim_of_notMem hspace, Text.lower, Text.lowerAfter, hsigma,
      if_neg Bool.false_ne_true, Text.lowerChar, if_pos (Text.lt_of_isDigit hdigit),
      Number.Binary64.toLower_of_isDigit hdigit]
    rfl
  refine lookup_eq_none fun entry hentry heq => ?_
  have hnames : ∀ entry ∈ standardOperands, Parser.startsWithDigit entry.1.toList = false := by
    decide
  have hhead := hnames entry hentry
  rw [heq, hnormal, String.toList_ofList, Parser.startsWithDigit, hdigit] at hhead
  cases hhead

end Vocabulary

namespace Parser

/-! ## Words -/

/-- A word of dotted names is a path of which no type is expected. -/
theorem ofWord_reference {word : List Char} (h : Expr.IsPathWord word) :
    ofWord word = .ok (.reference (String.ofList word) .any) := by
  have hliteral := h.literal
  simp only [List.mem_cons, List.not_mem_nil, or_false, not_or] at hliteral
  obtain ⟨htrue, hfalse, hnull⟩ := hliteral
  simp only [ofWord, htrue, hfalse, hnull, h.digit, h.path, if_false, if_true,
    Bool.false_eq_true]

/-- The text of a natural number that fits an integer is that integer. -/
theorem ofWord_natText {n : Int64} (h : 0 ≤ n.toInt) :
    ofWord (Number.natText n.toInt.natAbs) = .ok (.ofValue (.integer n)) := by
  have hread : Number.readInt64? (Number.natText n.toInt.natAbs) = some n := by
    have htext := Number.readInt64?_intText n
    rwa [Number.intText, if_neg (by omega)] at htext
  rw [ofWord_of_startsWithDigit (isNumberWord_natText _).startsWithDigit, hread]

/-- The text of a number without its sign is an integer or a float, as its word is read. -/
theorem ofWord_unsignedText {x : Number.Binary64} (h : x.isFinite = true) :
    ofWord x.unsignedText = .ok (Expr.ofNumberWord x.unsignedText x.unsigned) := by
  rw [ofWord_of_startsWithDigit (isNumberWord_unsignedText x).startsWithDigit, Expr.ofNumberWord]
  cases Number.readInt64? x.unsignedText with
  | some n => rfl
  | none =>
      rw [Number.Binary64.readFloat?_unsignedText h]
      simp only [Number.Binary64.isFinite_unsigned, h, if_true]

/-! ## Steps -/

/-- The context of a text of the standard vocabulary that is scanned to its end. -/
def Context.ending (span : Span) : Context :=
  ⟨.standard, .reached span⟩

variable {α β : Type} {bound larger : Nat} {more rest : List Token} {span : Span}

/-- What is read and what is left after it, unless comparisons are chained. -/
def Reads (x : Except ParseError (Step α bound)) (outcome : Option α) (more : List Token) :
    Prop :=
  match outcome with
  | some value => ∃ h, x = .ok ⟨value, more, h⟩
  | none => ∃ place, x = .error ⟨.chainedComparison, place⟩

namespace Reads

theorem ok {value : α} (h : more.length < bound) :
    Reads (.ok ⟨value, more, h⟩ : Except ParseError (Step α bound)) (some value) more :=
  ⟨h, rfl⟩

/-- Reading one thing and then another reads what the second makes of the first. -/
theorem bind {x : Except ParseError (Step α bound)} {f : Step α bound →
    Except ParseError (Step β larger)} {outcome : Option α} {g : α → Option β}
    (hx : Reads x outcome more)
    (hf : ∀ value h, outcome = some value → Reads (f ⟨value, more, h⟩) (g value) rest) :
    Reads (x >>= f) (outcome.bind g) rest := by
  cases outcome with
  | none =>
      obtain ⟨place, rfl⟩ := hx
      exact ⟨place, rfl⟩
  | some value =>
      obtain ⟨h, rfl⟩ := hx
      exact hf value h rfl

theorem bind_self {x : Except ParseError (Step α bound)} {f : Step α bound →
    Except ParseError (Step α larger)} {outcome : Option α} (hx : Reads x outcome more)
    (hf : ∀ value h, outcome = some value → Reads (f ⟨value, more, h⟩) (some value) rest) :
    Reads (x >>= f) outcome rest := by
  have hbind := hx.bind (g := some) hf
  rwa [Option.bind_fun_some] at hbind

/-- A step that goes on with a value made of the one before. -/
theorem map {x : Except ParseError (Step α bound)} {f : Step α bound →
    Except ParseError (Step β larger)} {outcome : Option α} {g : α → β}
    (hx : Reads x outcome more)
    (hf : ∀ value h, Reads (f ⟨value, more, h⟩) (some (g value)) rest) :
    Reads (x >>= f) (outcome.map g) rest := by
  rw [Option.map_eq_bind]
  exact hx.bind fun value h _ => hf value h

theorem weaken {x : Except ParseError (Step α bound)} {outcome : Option α}
    (hx : Reads x outcome more) (hle : bound ≤ larger) :
    Reads (do let step ← x; return step.weaken hle) outcome more := by
  cases outcome with
  | none =>
      obtain ⟨place, rfl⟩ := hx
      exact ⟨place, rfl⟩
  | some value =>
      obtain ⟨h, rfl⟩ := hx
      exact ⟨_, rfl⟩

/-- No text that is scanned to its end breaks off. -/
theorem arrive {x : Except ParseError (Step α bound)} {outcome : Option α} {tokens : List Token}
    (h : Reads x outcome more) :
    Reads (do (Context.ending span).stop.arrive tokens; x) outcome more := by
  cases tokens <;> exact h

end Reads

end Parser

/-- A text is parsed as a tree, or it is refused because comparisons are chained. -/
def Expr.ParsesAs (code : List Char) : Option Expr → Prop
  | some result => parse Vocabulary.standard code = .ok result
  | none => ∃ span, parse Vocabulary.standard code = .error ⟨.chainedComparison, span⟩

/-- A text that is scanned to its end is parsed as what is read in all of its tokens. -/
theorem Expr.parse_of_reads {code : List Char} {tokens : List Token} {outcome : Option Expr}
    (hscan : Scan.of .standard 0 code =
      ⟨tokens, .reached ⟨Text.byteLength code, Text.byteLength code⟩⟩) (hne : tokens ≠ [])
    (hreads : Parser.Reads (Parser.chain
      (Parser.Context.ending ⟨Text.byteLength code, Text.byteLength code⟩) .disjunctions tokens)
        outcome []) : ParsesAs code outcome := by
  obtain ⟨token, others, rfl⟩ := List.exists_cons_of_ne_nil hne
  change Parser.Reads (Parser.chain ⟨Vocabulary.standard, .reached _⟩ .disjunctions
    (token :: others)) _ [] at hreads
  have hdrop : Text.dropBytes? 0 code = some code := by rw [Text.dropBytes?]
  cases outcome with
  | none =>
      obtain ⟨span, hchain⟩ := hreads
      refine ⟨span, ?_⟩
      rw [parse, parseAt, hdrop]
      simp only [hscan]
      rw [hchain]
      rfl
  | some result =>
      obtain ⟨hshorter, hchain⟩ := hreads
      rw [ParsesAs, parse, parseAt, hdrop]
      simp only [hscan]
      rw [hchain]
      exact if_neg (Nat.lt_irrefl _)

/-! ## First tokens -/

/-- A token that may begin an operand of some precedence. -/
def Shape.Begins (shape : Shape) (least : Nat) : Prop :=
  shape.1 ≠ .parenClose ∧ (3 ≤ least → ∀ op, shape.meaning ≠ some (.leading op))

namespace Shape.Begins

theorem opening (least : Nat) : Shape.opening.Begins least :=
  ⟨by decide, fun _ op => by simp [Shape.meaning, Shape.opening]⟩

/-- A word that names no operator before an operand may begin any level. -/
theorem keyword {word : List Char} (h : ∀ op, Vocabulary.standard.lookup word ≠ some (.leading op))
    (least : Nat) : Shape.Begins (.keyword, word) least :=
  ⟨by simp, fun _ op => by rw [Shape.meaning, if_pos rfl]; exact h op⟩

theorem word {word : List Char} (h : Vocabulary.standard.lookup word = none) (least : Nat) :
    Shape.Begins (.keyword, word) least :=
  keyword (by simp [h]) least

theorem minus (least : Nat) : (Shape.keyword "-").Begins least :=
  keyword (by rw [show "-" = BinaryOp.sub.keyword from rfl, Vocabulary.lookup_binary]; simp) least

end Shape.Begins

/-- A printed number begins any level, with its sign or without it. -/
theorem Shape.begins_ofNumber {word : List Char} (h : IsNumberWord word) (least : Nat)
    {text : List Char} (htext : text = '-' :: word ∨ text = word) :
    ∃ shape rest, Shape.ofNumber text = shape :: rest ∧ shape.Begins least := by
  rcases htext with rfl | rfl
  · exact ⟨_, _, rfl, .minus least⟩
  · exact ⟨_, _, h.shapes_eq, .word (Vocabulary.lookup_number h) least⟩

theorem Shape.begins_bracketed {expr : Expr} {shapes : List Shape} (least : Nat)
    (h : ∃ shape rest, shapes = shape :: rest ∧ shape.Begins expr.precedence) :
    ∃ shape rest, Shape.bracketed least expr shapes = shape :: rest ∧ shape.Begins least := by
  unfold Shape.bracketed
  split
  next => exact ⟨_, _, rfl, .opening least⟩
  next hlt =>
    obtain ⟨shape, rest, rfl, hbegins⟩ := h
    exact ⟨shape, rest, rfl, hbegins.1, fun hle => hbegins.2 (by omega)⟩

/-- Only what binds looser than a comparison begins with a negation. -/
theorem Expr.Parsed.begins {expr : Expr} (h : expr.Parsed) :
    ∃ shape rest, expr.shapes = shape :: rest ∧ shape.Begins expr.precedence := by
  induction h with
  | null => exact ⟨_, _, rfl, .word (Vocabulary.lookup_eq_none (by decide)) _⟩
  | boolean b =>
      cases b
      · exact ⟨_, _, rfl, .word (Vocabulary.lookup_eq_none (by decide)) _⟩
      · exact ⟨_, _, rfl, .word (Vocabulary.lookup_eq_none (by decide)) _⟩
  | @integer n _ =>
      rw [ofValue, shapes, Shape.ofLiteral, Value.literalText_integer]
      · refine Shape.begins_ofNumber (isNumberWord_natText n.toInt.natAbs) _ ?_
        split
        next => exact Or.inl rfl
        next => exact Or.inr rfl
      · simp
  | @float x hfinite =>
      rw [ofValue, shapes, Shape.ofLiteral, Value.literalText_float hfinite]
      · refine Shape.begins_ofNumber (isNumberWord_unsignedText x) _ ?_
        split
        next => exact Or.inl rfl
        next => exact Or.inr rfl
      · simp
  | string s => exact ⟨_, _, rfl, by simp, fun _ op => by simp [Shape.meaning]⟩
  | @reference word hword =>
      refine ⟨(.keyword, word), [], ?_, .word hword.unknown _⟩
      rw [shapes, Shape.keyword, String.toList_ofList]
  | @call function arguments _ _ _ =>
      rw [shapes]
      exact ⟨_, _, rfl, .keyword (by rw [Vocabulary.lookup_function]; simp) _⟩
  | @negate operand _ _ _ =>
      rw [Parser.applyUnary, shapes]
      exact ⟨_, _, rfl, .minus _⟩
  | @unary op hop operand _ ih =>
      have hcheck : ∀ keyword : String, ∃ shape rest,
          Shape.bracketed 6 operand operand.shapes ++ [Shape.keyword keyword] = shape :: rest ∧
            shape.Begins 6 := by
        intro keyword
        obtain ⟨shape, rest, heq, hbegins⟩ := Shape.begins_bracketed 6 ih
        exact ⟨shape, rest ++ [Shape.keyword keyword], by rw [heq]; rfl, hbegins⟩
      simp only [Parser.applyUnary, shapes, shapes_bracketed_withExpected, shapes_withExpected]
      cases op with
      | not =>
          -- Its own precedence is looser, so a negation may begin it.
          refine ⟨_, _, rfl, by simp [Shape.keyword], fun hle => absurd hle ?_⟩
          simp [precedence]
      | negate => exact absurd rfl hop
      | isNull => exact hcheck _
      | notNull => exact hcheck _
  | @binary op left right _ _ ihleft _ =>
      obtain ⟨shape, rest, heq, hbegins⟩ := Shape.begins_bracketed op.precedence ihleft
      rw [shapes_combine, heq]
      exact ⟨_, _, rfl, hbegins⟩

namespace Parser

variable {more tokens : List Token} {span : Span}

/-- Up to the end of the expression, a token means what its shape does. -/
theorem meaning_ending (token : Token) :
    (Context.ending span).meaning token = token.shape.meaning := rfl

/-- Tokens that may follow a construct of some precedence: they end every tighter one. -/
def Follows (least : Nat) (more : List Token) : Prop :=
  ∀ token ∈ more.head?, token.kind ≠ .parenOpen ∧
    (∀ op, token.shape.meaning ≠ some (.trailing op)) ∧
      ∀ op, token.shape.meaning = some (.binary op) → op.precedence < least

theorem Follows.mono {least larger : Nat} (h : Follows least more) (hle : least ≤ larger) :
    Follows larger more :=
  fun token htoken => ⟨(h token htoken).1, (h token htoken).2.1,
    fun op hop => Nat.lt_of_lt_of_le ((h token htoken).2.2 op hop) hle⟩

theorem Follows.nil (least : Nat) : Follows least [] := by
  rintro token ⟨⟩

/-- A bracket or a comma ends every construct. -/
theorem Follows.cons {token : Token} (h : token.kind ≠ .parenOpen ∧ token.kind ≠ .keyword)
    (least : Nat) (rest : List Token) : Follows least (token :: rest) := by
  have hmeaning : token.shape.meaning = none := if_neg h.2
  rintro _ ⟨⟩
  rw [hmeaning]
  exact ⟨h.1, by simp, by simp⟩

/-- Nothing is read as a null check where none can follow. -/
theorem nullChecks_stop {least : Nat} (h : Follows least more) (operand : Expr) :
    Reads (nullChecks (Context.ending span) operand more) (some operand) more := by
  cases more with
  | nil => exact Reads.ok _
  | cons token rest =>
      rw [nullChecks, meaning_ending]
      split
      next op hmeaning => exact absurd hmeaning ((h token rfl).2.1 op)
      next => exact Reads.ok _

/-- The tokens of null checks. -/
def IsChecks (checks : List UnaryOp) (tokens : List Token) : Prop :=
  (∀ op ∈ checks, op.isTrailing = true) ∧
    tokens.map Token.shape = checks.map fun op => Shape.keyword op.keyword

/-- Null checks behind an operand are read as checks of it, the first one innermost. -/
theorem nullChecks_reads {least : Nat} {checks : List UnaryOp} (hchecks : IsChecks checks tokens)
    (h : Follows least more) (operand : Expr) :
    Reads (nullChecks (Context.ending span) operand (tokens ++ more))
      (some (Expr.checkAll checks operand)) more := by
  obtain ⟨htrailing, htokens⟩ := hchecks
  induction checks generalizing tokens operand with
  | nil =>
      obtain rfl := List.map_eq_nil_iff.mp htokens
      exact nullChecks_stop h operand
  | cons op checks ih =>
      obtain ⟨token, others, rfl, hshape, hothers⟩ := List.map_eq_cons_iff.mp htokens
      have hmeaning := Vocabulary.lookup_trailing (htrailing op List.mem_cons_self)
      rw [← Shape.meaning_keyword, ← show token.shape = Shape.keyword op.keyword from hshape]
        at hmeaning
      rw [List.cons_append, nullChecks, meaning_ending, hmeaning]
      have hmore := ih (applyUnary op operand)
        (fun op hop => htrailing op (List.mem_cons_of_mem _ hop)) hothers
      exact (hmore.weaken _).arrive

/-! ## Levels -/

/-- The constructs of each precedence, with a sign the tightest. -/
def level (context : Context) : Nat → (tokens : List Token) →
    Except ParseError (Step Expr tokens.length)
  | 1 => chain context .disjunctions
  | 2 => chain context .conjunctions
  | 3 => negation context
  | 4 => chain context .sums
  | 5 => chain context .products
  | _ => signed context

theorem element_eq_level (context : Context) (kind : Chain) (tokens : List Token) :
    element context kind tokens = level context (kind.precedence + 1) tokens := by
  cases kind <;> rw [element] <;> rfl

theorem chain_eq_level (context : Context) (kind : Chain) (tokens : List Token) :
    chain context kind tokens = level context kind.precedence tokens := by
  cases kind <;> rfl

/-- A chain ends before a token that binds no tighter than it does. -/
theorem chainMore_stop {kind : Chain} (h : Follows kind.precedence more) (operand : Expr) :
    Reads (chainMore (Context.ending span) kind operand more) (some operand) more := by
  cases more with
  | nil =>
      rw [chainMore]
      exact Reads.ok _
  | cons token rest =>
      rw [chainMore, meaning_ending]
      split
      next op hmeaning =>
        have hlt := (h token rfl).2.2 op hmeaning
        rw [if_neg (by omega)]
        exact Reads.ok _
      next => exact Reads.ok _

/-- A chain is its first operand, read one level down, and what the rest of it adds. -/
theorem chain_reads {kind : Chain} {outcome : Option Expr} {g : Expr → Option Expr}
    {rest : List Token}
    (h : Reads (level (Context.ending span) (kind.precedence + 1) tokens) outcome more)
    (hmore : ∀ value, outcome = some value →
      Reads (chainMore (Context.ending span) kind value more) (g value) rest) :
    Reads (chain (Context.ending span) kind tokens) (outcome.bind g) rest := by
  rw [chain, element_eq_level]
  exact h.bind fun value _ hvalue => (hmore value hvalue).weaken _

/-- Tokens that begin with no negation. -/
def NotLeading (tokens : List Token) : Prop :=
  ∀ token ∈ tokens.head?, ∀ op, token.shape.meaning ≠ some (.leading op)

/-- Where no operator stands before the operand, a negation is the comparison inside it. -/
theorem negation_eq_comparison (h : NotLeading tokens) :
    negation (Context.ending span) tokens = comparison (Context.ending span) tokens := by
  cases tokens with
  | nil => rw [negation]
  | cons token rest =>
      rw [negation, meaning_ending]
      split
      next op hmeaning => exact absurd hmeaning (h token rfl op)
      next => rfl

/-- Where no comparison operator follows, a comparison is its only operand. -/
theorem comparison_reads {outcome : Option Expr} (h : Follows 3 more)
    (hreads : Reads (chain (Context.ending span) .sums tokens) outcome more) :
    Reads (comparison (Context.ending span) tokens) outcome more := by
  rw [comparison]
  refine hreads.bind_self fun value hshorter _ => ?_
  cases more with
  | nil => exact Reads.ok _
  | cons token rest =>
      simp only [meaning_ending]
      split
      next op hmeaning =>
        have hlt := (h token rfl).2.2 op hmeaning
        have hcomparison : ¬ op.isComparison = true := by
          rw [BinaryOp.isComparison, beq_iff_eq]
          omega
        simp only [hcomparison]
        exact Reads.ok _
      next => exact Reads.ok _

/-- Where no operator of a chain follows, the chain is its only operand. -/
theorem chain_lift {kind : Chain} {outcome : Option Expr} (h : Follows kind.precedence more)
    (hreads : Reads (level (Context.ending span) (kind.precedence + 1) tokens) outcome more) :
    Reads (chain (Context.ending span) kind tokens) outcome more := by
  have hchain := chain_reads (g := some) hreads fun value _ => chainMore_stop h value
  rwa [Option.bind_fun_some] at hchain

theorem level_lift {n : Nat} (hpos : 1 ≤ n) (hle : n ≤ 5) {outcome : Option Expr}
    (h : Follows n more) (hleading : n = 3 → NotLeading tokens)
    (hreads : Reads (level (Context.ending span) (n + 1) tokens) outcome more) :
    Reads (level (Context.ending span) n tokens) outcome more := by
  obtain rfl | rfl | rfl | rfl | rfl : n = 1 ∨ n = 2 ∨ n = 3 ∨ n = 4 ∨ n = 5 := by omega
  · exact @chain_lift more tokens span .disjunctions _ h hreads
  · exact @chain_lift more tokens span .conjunctions _ h hreads
  · change Reads (negation (Context.ending span) tokens) outcome more
    rw [negation_eq_comparison (hleading rfl)]
    exact comparison_reads h hreads
  · exact @chain_lift more tokens span .sums _ h hreads
  · exact @chain_lift more tokens span .products _ h hreads

/-- What is read as a tight construct is read as a looser one if nothing goes on. -/
theorem level_mono {n m : Nat} (hpos : 1 ≤ n) (hnm : n ≤ m) (hm : m ≤ 6) {outcome : Option Expr}
    (h : Follows n more) (hleading : 3 < m → NotLeading tokens)
    (hreads : Reads (level (Context.ending span) m tokens) outcome more) :
    Reads (level (Context.ending span) n tokens) outcome more := by
  induction m with
  | zero => omega
  | succ m ih =>
      by_cases heq : n = m + 1
      · rw [heq]
        exact hreads
      · have hle : n ≤ m := by omega
        refine ih hle (by omega) (fun hlt => hleading (by omega)) ?_
        exact level_lift (by omega) (by omega) (h.mono hle) (fun h3 => hleading (by omega)) hreads

/-- Tokens that are read as a construct of some precedence, whatever may follow it. -/
def ReadsAt (span : Span) (n : Nat) (shapes : List Shape) (outcome : Option Expr) : Prop :=
  ∀ tokens more : List Token, tokens.map Token.shape = shapes → Follows n more →
    Reads (level (Context.ending span) n (tokens ++ more)) outcome more

/-- A negation in front of what is negated. -/
theorem readsAt_negated {shape : Shape} (hmeaning : shape.meaning = some (.leading .not))
    {shapes : List Shape} {outcome : Option Expr} (h : ReadsAt span 3 shapes outcome) :
    ReadsAt span 3 (shape :: shapes) (outcome.map (applyUnary .not)) := by
  intro tokens more htokens hfollows
  obtain ⟨token, rest, rfl, rfl, hrest⟩ := List.map_eq_cons_iff.mp htokens
  change Reads (negation (Context.ending span) (token :: (rest ++ more))) _ more
  rw [negation, meaning_ending, hmeaning]
  refine Reads.arrive ((h rest more hrest hfollows).map fun value _ => ?_)
  exact Reads.ok _

/-! ## Operators between operands -/

section

variable {first second : Option Expr} {before after : List Shape} {op : BinaryOp}

/-- Tokens that are read as the first operand of a chain, which may go on after them. -/
def Continues (span : Span) (kind : Chain) (shapes : List Shape) (outcome : Option Expr) : Prop :=
  ∀ (tokens more rest : List Token) (g : Expr → Option Expr), tokens.map Token.shape = shapes →
    Follows (kind.precedence + 1) more →
      (∀ value, outcome = some value →
        Reads (chainMore (Context.ending span) kind value more) (g value) rest) →
          Reads (chain (Context.ending span) kind (tokens ++ more)) (outcome.bind g) rest

/-- An operand read one level further down continues a chain with nothing to add. -/
theorem continues_of_readsAt {kind : Chain} {shapes : List Shape} {outcome : Option Expr}
    (h : ReadsAt span (kind.precedence + 1) shapes outcome) :
    Continues span kind shapes outcome :=
  fun tokens more _ _ htokens hfollows hmore => chain_reads (h tokens more htokens hfollows) hmore

theorem readsAt_of_continues {kind : Chain} {shapes : List Shape} {outcome : Option Expr}
    (h : Continues span kind shapes outcome) :
    ReadsAt span kind.precedence shapes outcome := by
  intro tokens more htokens hfollows
  have hreads := h tokens more more some htokens (hfollows.mono (Nat.le_succ _))
    fun value _ => chainMore_stop hfollows value
  rw [chain_eq_level, Option.bind_fun_some] at hreads
  exact hreads

/-- An operator that binds looser than a level ends it. -/
theorem Follows.operator {token : Token} (hmeaning : token.shape.meaning = some (.binary op))
    {least : Nat} (h : op.precedence < least) (rest : List Token) :
    Follows least (token :: rest) := by
  have hkind : token.kind = .keyword := Shape.kind_of_meaning hmeaning
  rintro _ ⟨⟩
  rw [hkind, hmeaning]
  refine ⟨by decide, by simp, ?_⟩
  rintro _ ⟨⟩
  exact h

/-- A chain that goes on with one more operand. -/
theorem continues_joined {kind : Chain} (hop : op.precedence = kind.precedence) {shape : Shape}
    (hmeaning : shape.meaning = some (.binary op)) (hleft : Continues span kind before first)
    (hright : ReadsAt span (kind.precedence + 1) after second) :
    Continues span kind (before ++ shape :: after)
      (first.bind fun l => second.map fun r => combine op l r) := by
  intro tokens more rest g htokens hfollows hmore
  obtain ⟨leftTokens, others, rfl, hleftTokens, hothers⟩ := List.map_eq_append_iff.mp htokens
  obtain ⟨token, rightTokens, rfl, rfl, hrightTokens⟩ := List.map_eq_cons_iff.mp hothers
  rw [Option.bind_assoc, List.append_assoc, List.cons_append]
  refine hleft leftTokens _ rest _ hleftTokens (Follows.operator hmeaning (by omega) _)
    fun l hl => ?_
  have helement := hright rightTokens more hrightTokens hfollows
  rw [← element_eq_level] at helement
  rw [chainMore, meaning_ending, hmeaning, Option.bind_map]
  simp only [hop, if_true]
  refine Reads.arrive (helement.bind fun r _ hr => ?_)
  refine (hmore (combine op l r) ?_).weaken _
  rw [hl, hr]
  rfl

/-- Whether the next token is a comparison. -/
def startsComparison : List Token → Bool
  | [] => false
  | token :: _ =>
    match token.shape.meaning with
    | some (.binary op) => op.isComparison
    | _ => false

/-- No comparison starts with a token that may follow one. -/
theorem startsComparison_eq_false (h : Follows 3 more) : startsComparison more = false := by
  cases more with
  | nil => rfl
  | cons token rest =>
      simp only [startsComparison]
      split
      next op hmeaning =>
        have hlt := (h token rfl).2.2 op hmeaning
        rw [BinaryOp.isComparison, beq_eq_false_iff_ne]
        omega
      next => rfl

/-- A comparison ends before what binds looser and is refused before another comparison. -/
theorem comparison_reads_joined (hop : op.isComparison = true) {shape : Shape}
    (hmeaning : shape.meaning = some (.binary op)) (hleft : ReadsAt span 4 before first)
    (hright : ReadsAt span 4 after second)
    (htokens : tokens.map Token.shape = before ++ shape :: after) (hmore : Follows 4 more) :
    Reads (comparison (Context.ending span) (tokens ++ more))
      (first.bind fun l => second.bind fun r =>
        if startsComparison more then none else some (combine op l r)) more := by
  have hprecedence : op.precedence = 3 := beq_iff_eq.mp hop
  obtain ⟨leftTokens, others, rfl, hleftTokens, hothers⟩ := List.map_eq_append_iff.mp htokens
  obtain ⟨token, rightTokens, rfl, rfl, hrightTokens⟩ := List.map_eq_cons_iff.mp hothers
  have hleftReads := hleft leftTokens (token :: (rightTokens ++ more)) hleftTokens
    (Follows.operator hmeaning (by omega) _)
  have hrightReads := hright rightTokens more hrightTokens hmore
  rw [List.append_assoc, List.cons_append, comparison]
  refine hleftReads.bind fun l _ _ => ?_
  simp only [meaning_ending, hmeaning, hop, if_true]
  refine Reads.arrive (hrightReads.bind fun r _ _ => ?_)
  -- The next token decides whether the comparison is refused.
  cases more with
  | nil => exact Reads.ok _
  | cons next rest =>
      simp only [Context.operandAt, meaning_ending]
      split
      next nextOp hnext =>
        have hstarts : startsComparison (next :: rest) = nextOp.isComparison := by
          simp only [startsComparison, hnext]
        rw [hstarts]
        by_cases hchained : nextOp.isComparison = true
        · simp only [hchained, if_true]
          exact ⟨_, rfl⟩
        · simp only [hchained]
          exact Reads.ok _
      next =>
        have hstarts : startsComparison (next :: rest) = false := by
          simp only [startsComparison]
        rw [hstarts]
        exact Reads.ok _

end

/-! ## Primary expressions -/

/-- Tokens that begin with neither a sign nor a negation. -/
def NotSigned (tokens : List Token) : Prop :=
  ∀ token ∈ tokens.head?, (∀ op, token.shape.meaning ≠ some (.leading op)) ∧
    ∀ op, token.shape.meaning ≠ some (.binary op)

theorem signed_eq_checked (h : NotSigned tokens) :
    signed (Context.ending span) tokens = checked (Context.ending span) tokens := by
  cases tokens with
  | nil => rw [signed]
  | cons token rest =>
      have hhead := h token rfl
      rw [signed, meaning_ending]
      split
      next op hmeaning => exact absurd hmeaning (hhead.1 op)
      next hmeaning => exact absurd hmeaning (hhead.2 .sub)
      next hmeaning => exact absurd hmeaning (hhead.2 .add)
      next => rfl

/-- A signed expression without a sign is a primary one with the null checks behind it. -/
theorem signed_reads_primary {checks : List UnaryOp} {checkTokens : List Token}
    {outcome : Option Expr} (h : NotSigned tokens) (hchecks : IsChecks checks checkTokens)
    (hmore : Follows 6 more)
    (hreads : Reads (primary (Context.ending span) tokens) outcome (checkTokens ++ more)) :
    Reads (signed (Context.ending span) tokens) (outcome.map (Expr.checkAll checks)) more := by
  rw [signed_eq_checked h, checked, Option.map_eq_bind]
  exact hreads.bind fun value _ _ => (nullChecks_reads hchecks hmore value).weaken _

/-- A minus before a signed expression negates what is read behind it. -/
theorem signed_reads_minus {token : Token} {outcome : Option Expr}
    (hmeaning : token.shape.meaning = some (.binary .sub))
    (hreads : Reads (signed (Context.ending span) tokens) outcome more) :
    Reads (signed (Context.ending span) (token :: tokens)) (outcome.map negate) more := by
  rw [signed, meaning_ending, hmeaning]
  refine Reads.arrive (hreads.map fun value h => ?_)
  exact Reads.ok _

/-- A word that is no operand and has no bracket behind it is the path or the number it spells. -/
theorem primary_reads_word {token : Token} {word : List Char} {expr : Expr}
    (hshape : token.shape = (.keyword, word))
    (hunknown : Vocabulary.standard.lookup word = none) (hword : ofWord word = .ok expr)
    (hmore : ∀ next ∈ more.head?, next.kind ≠ .parenOpen) :
    Reads (primary (Context.ending span) (token :: more)) (some expr) more := by
  obtain ⟨hkind, htext⟩ := Prod.mk.inj hshape
  have hlookup : (Context.ending span).vocabulary.lookup word = none := hunknown
  rw [primary]
  simp only [hkind, htext, hlookup, Parser.word, hword]
  refine Reads.arrive ?_
  cases more with
  | nil => exact Reads.ok _
  | cons next rest =>
      simp only [hmore next rfl, if_false]
      exact Reads.ok _

theorem primary_reads_constant {token : Token} {text : List Char}
    (hshape : token.shape = (.constant, text)) :
    Reads (primary (Context.ending span) (token :: more))
      (some (.ofValue (.string (String.ofList text)))) more := by
  obtain ⟨hkind, rfl⟩ := Prod.mk.inj hshape
  rw [primary]
  simp only [hkind]
  exact (Reads.ok _).arrive

/-- An expression in brackets is read as the expression. -/
theorem primary_reads_brackets {opening closing : Token} {outcome : Option Expr}
    (hopening : opening.shape = Shape.opening) (hclosing : closing.shape = Shape.closing)
    (hreads : Reads (chain (Context.ending span) .disjunctions tokens) outcome
      (closing :: more)) :
    Reads (primary (Context.ending span) (opening :: tokens)) outcome more := by
  obtain ⟨hkind, -⟩ := Prod.mk.inj hopening
  obtain ⟨hclose, -⟩ := Prod.mk.inj hclosing
  rw [primary]
  simp only [hkind]
  refine Reads.arrive (hreads.bind_self fun value h _ => ?_)
  simp only [hclose, if_true]
  exact (Reads.ok _).arrive

section

variable {α : Type} (shapes : α → List Shape) (outcome : α → Option Expr)

/-- The arguments of a call are read one after another. -/
theorem arguments_reads (function : Builtin) {arguments : List α} (hne : arguments ≠ [])
    (harguments : ∀ argument ∈ arguments, ReadsAt span 1 (shapes argument) (outcome argument))
    (htokens : tokens.map Token.shape = [Shape.comma].intercalate (arguments.map shapes))
    {closing : Token} (hclosing : closing.shape = Shape.closing) :
    Reads (Parser.arguments (Context.ending span) function (tokens ++ closing :: more))
      ((arguments.mapM outcome).map (List.map (Expr.withExpected function.argumentType)))
      more := by
  induction arguments generalizing tokens with
  | nil => exact absurd rfl hne
  | cons first rest ih =>
      have hfirst := harguments first List.mem_cons_self
      rw [Parser.arguments]
      cases rest with
      | nil =>
          -- The last argument ends at the closing bracket, any other one at a comma.
          have hkind : closing.kind = .parenClose := congrArg Prod.fst hclosing
          have hfollows : Follows 1 (closing :: more) :=
            Follows.cons (by rw [hkind]; decide) 1 more
          have houtcome : ([first].mapM outcome).map
              (List.map (Expr.withExpected function.argumentType)) =
                (outcome first).map fun value =>
                  [value.withExpected function.argumentType] := by
            rw [List.mapM_cons]
            cases outcome first <;> rfl
          rw [List.map_singleton, List.intercalate_singleton] at htokens
          rw [houtcome]
          refine (hfirst tokens _ htokens hfollows).map fun value h => ?_
          simp only [hkind]
          exact (Reads.ok _).arrive
      | cons second rest =>
          rw [List.map_cons, List.map_cons, List.intercalate_cons_cons, List.append_assoc,
            List.singleton_append] at htokens
          obtain ⟨firstTokens, others, rfl, hfirstTokens, hothers⟩ :=
            List.map_eq_append_iff.mp htokens
          obtain ⟨comma, otherTokens, rfl, hcomma, hotherTokens⟩ := List.map_eq_cons_iff.mp hothers
          have hkind : comma.kind = .argumentSeparator := congrArg Prod.fst hcomma
          have hfollows : Follows 1 (comma :: (otherTokens ++ closing :: more)) :=
            Follows.cons (by rw [hkind]; decide) 1 _
          have hrest := ih (List.cons_ne_nil _ _)
            (fun argument hargument => harguments argument (List.mem_cons_of_mem _ hargument))
            hotherTokens
          have houtcome : ((first :: second :: rest).mapM outcome).map
              (List.map (Expr.withExpected function.argumentType)) =
                (outcome first).bind fun value =>
                  (((second :: rest).mapM outcome).map
                    (List.map (Expr.withExpected function.argumentType))).map
                      fun values => value.withExpected function.argumentType :: values := by
            rw [List.mapM_cons]
            cases outcome first <;> cases (second :: rest).mapM outcome <;> rfl
          rw [houtcome, List.append_assoc, List.cons_append]
          refine (hfirst firstTokens _ hfirstTokens hfollows).bind fun value h _ => ?_
          simp only [hkind]
          refine Reads.arrive (hrest.map fun values hlt => ?_)
          exact Reads.ok _

/-- Arguments up to the closing bracket are read as the function expects them. -/
theorem argumentList_reads (function : Builtin) {arguments : List α}
    (hbegins : ∀ argument ∈ arguments, ∃ shape rest, shapes argument = shape :: rest ∧
      shape.1 ≠ .parenClose)
    (harguments : ∀ argument ∈ arguments, ReadsAt span 1 (shapes argument) (outcome argument))
    (htokens : tokens.map Token.shape = [Shape.comma].intercalate (arguments.map shapes))
    {closing : Token} (hclosing : closing.shape = Shape.closing) :
    Reads (argumentList (Context.ending span) function (tokens ++ closing :: more))
      ((arguments.mapM outcome).map (List.map (Expr.withExpected function.argumentType)))
      more := by
  cases arguments with
  | nil =>
      have hkind : closing.kind = .parenClose := congrArg Prod.fst hclosing
      obtain rfl := List.map_eq_nil_iff.mp htokens
      rw [List.nil_append, argumentList]
      simp only [hkind, if_true]
      exact (Reads.ok _).arrive
  | cons first rest =>
      have hreads : Reads (Parser.arguments (Context.ending span) function
          (tokens ++ closing :: more)) _ more := arguments_reads shapes outcome function
            (List.cons_ne_nil first rest) harguments htokens hclosing
      obtain ⟨shape, firstShapes, hshapes, hbegins⟩ := hbegins first List.mem_cons_self
      have hall : ∃ others,
          [Shape.comma].intercalate ((first :: rest).map shapes) = shape :: others := by
        cases rest with
        | nil => exact ⟨firstShapes, by simp [hshapes]⟩
        | cons second rest =>
            exact ⟨firstShapes ++ Shape.comma :: [Shape.comma].intercalate
              ((second :: rest).map shapes), by simp [List.intercalate_cons_cons, hshapes]⟩
      obtain ⟨others, hothers⟩ := hall
      -- The first argument begins with another token than the bracket that would end the list.
      obtain ⟨token, tail, rfl, rfl, -⟩ := List.map_eq_cons_iff.mp (htokens.trans hothers)
      have hkind : token.kind ≠ .parenClose := hbegins
      rw [List.cons_append, argumentList]
      simp only [hkind, if_false]
      exact hreads

/-- A call is read as one of the function that its name means, with as many arguments as the
function takes. -/
theorem primary_reads_call {function : Builtin} {arguments : List α}
    (hbegins : ∀ argument ∈ arguments, ∃ shape rest, shapes argument = shape :: rest ∧
      shape.1 ≠ .parenClose)
    (htakes : function.takes arguments.length = true)
    (harguments : ∀ argument ∈ arguments, ReadsAt span 1 (shapes argument) (outcome argument))
    (htokens : tokens.map Token.shape = [Shape.comma].intercalate (arguments.map shapes))
    {name opening closing : Token} (hname : name.shape.meaning = some (.function function))
    (hopening : opening.shape = Shape.opening) (hclosing : closing.shape = Shape.closing) :
    Reads (primary (Context.ending span) (name :: opening :: (tokens ++ closing :: more)))
      ((arguments.mapM outcome).map fun operands =>
        .call function (operands.map (Expr.withExpected function.argumentType)) .any) more := by
  have hkind : name.kind = .keyword := Shape.kind_of_meaning hname
  have hopen : opening.kind = .parenOpen := congrArg Prod.fst hopening
  have hlookup : (Context.ending span).vocabulary.lookup name.text =
      some (.function function) := by
    rwa [Shape.meaning, if_pos (show name.shape.1 = .keyword from hkind)] at hname
  have hreads : Reads (argumentList (Context.ending span) function (tokens ++ closing :: more))
      _ more := argumentList_reads shapes outcome function hbegins harguments htokens hclosing
  have houtcome : ((arguments.mapM outcome).map fun operands =>
      Expr.call function (operands.map (Expr.withExpected function.argumentType)) .any) =
        ((arguments.mapM outcome).map
          (List.map (Expr.withExpected function.argumentType))).bind
            fun operands => some (.call function operands .any) := by
    cases arguments.mapM outcome <;> rfl
  rw [primary]
  simp only [hkind, hlookup]
  rw [call, houtcome]
  simp only [hopen, if_true]
  refine Reads.arrive (hreads.bind fun operands h hoperands => ?_)
  have hlength : operands.length = arguments.length := by
    obtain ⟨values, hvalues, rfl⟩ := Option.map_eq_some_iff.mp hoperands
    rw [List.length_map, length_of_mapM hvalues]
  simp only [hlength, htakes, if_true]
  exact Reads.ok _

end

end Parser

end RowFilter
