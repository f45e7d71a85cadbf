import RowFilter.Proofs.Expr.Parsed

/-! # The grammar of expressions

A text is cut into tokens, and a list of tokens derives a tree by the rules of the grammar. What the
parser accepts is exactly what the grammar derives, with the tree of the derivation.
-/

namespace RowFilter

/-! ## Tokens without their places -/

/-- What the parser reads of a token. -/
abbrev Shape := TokenKind × List Char

namespace Shape

def opening : Shape := (.parenOpen, [])

def closing : Shape := (.parenClose, [])

def comma : Shape := (.argumentSeparator, [])

def keyword (text : String) : Shape := (.keyword, text.toList)

end Shape

/-- What the parser reads of a token. -/
def Token.shape (token : Token) : Shape :=
  (token.kind, token.text)

/-- What a token of the standard vocabulary means. -/
def Shape.meaning (shape : Shape) : Option Operand :=
  if shape.1 = .keyword then Vocabulary.standard.lookup shape.2 else none

/-- Only keywords have a meaning. -/
theorem Shape.kind_of_meaning {shape : Shape} {operand : Operand}
    (h : shape.meaning = some operand) : shape.1 = .keyword := by
  unfold meaning at h
  split at h
  next hkind => exact hkind
  next => cases h

theorem Shape.meaning_keyword (text : String) :
    (Shape.keyword text).meaning = Vocabulary.standard.lookup text.toList :=
  if_pos rfl

/-! ## The rules -/

/-- A text is cut into tokens up to its end; separators are dropped. -/
inductive Token.Cuts : Nat → List Char → List Token → Prop
  | finish {position : Nat} {text rest : List Char} {token : Token}
      (h : scan .standard position text = .ok (token, rest)) (hkind : token.kind = .finish) :
      Cuts position text []
  | separator {position : Nat} {text rest : List Char} {token : Token} {tokens : List Token}
      (h : scan .standard position text = .ok (token, rest)) (hkind : token.kind = .separator)
      (hrest : Cuts token.span.stop rest tokens) : Cuts position text tokens
  | token {position : Nat} {text rest : List Char} {token : Token} {tokens : List Token}
      (h : scan .standard position text = .ok (token, rest))
      (hkind : token.kind ≠ .finish ∧ token.kind ≠ .terminator ∧ token.kind ≠ .separator)
      (hrest : Cuts token.span.stop rest tokens) : Cuts position text (token :: tokens)

namespace Parser

/-- The operators of a chain. -/
def Chain.operators : Chain → List BinaryOp
  | disjunctions => [.or]
  | conjunctions => [.and]
  | sums => [.add, .sub]
  | products => [.mul, .div, .mod]

/-- The operators of a chain are those of its precedence. -/
theorem Chain.mem_operators_iff {kind : Chain} {op : BinaryOp} :
    op ∈ kind.operators ↔ op.precedence = kind.precedence := by
  cases kind <;> cases op <;> decide

end Parser

/-- The constructs that the rules of the grammar are about. -/
inductive Nonterminal where
  | chain (kind : Parser.Chain)
  | negation | comparison
  /-- Signs and negations before an operand. -/
  | signed
  /-- An operand with null checks after it. -/
  | checked
  | primary

/-- What the operators of a chain stand between. -/
def Nonterminal.element : Parser.Chain → Nonterminal
  | .disjunctions => chain .conjunctions
  | .conjunctions => negation
  | .sums => chain .products
  | .products => signed

/-- A word that is no keyword: a truth value or NULL in any ASCII case, a number or a path. -/
inductive IsWord : List Char → Expr → Prop
  | isTrue {word : List Char} (h : word.map Char.toLower = "true".toList) :
      IsWord word (.ofValue (.boolean true))
  | isFalse {word : List Char} (h : word.map Char.toLower = "false".toList) :
      IsWord word (.ofValue (.boolean false))
  | isNull {word : List Char} (h : word.map Char.toLower = "null".toList) :
      IsWord word (.ofValue .null)
  | integer {word : List Char} {n : Int64} (hdigit : Parser.startsWithDigit word = true)
      (h : Number.readInt64? word = some n) : IsWord word (.ofValue (.integer n))
  | float {word : List Char} {x : Number.Binary64} (hdigit : Parser.startsWithDigit word = true)
      (hinteger : Number.readInt64? word = none) (h : Number.readFloat? word = some x)
      (hfinite : x.isFinite = true) : IsWord word (.ofValue (.float x))
  | path {word : List Char}
      (hliteral : word.map Char.toLower ∉ ["true".toList, "false".toList, "null".toList])
      (h : Parser.isPath word = true) : IsWord word (.reference (String.ofList word) .any)

/-- An operand with the type that its operator expects, if that is a particular one. -/
def Expr.expecting (type : ValueType) (operand : Expr) : Expr :=
  if type = .any then operand else operand.withExpected type

/-- The rules of the grammar, each with the tree that it gives. -/
inductive Derives : Nonterminal → List Shape → Expr → Prop
  | single {kind : Parser.Chain} {shapes : List Shape} {expr : Expr}
      (h : Derives (.element kind) shapes expr) : Derives (.chain kind) shapes expr
  | joined {kind : Parser.Chain} {op : BinaryOp} (hop : op ∈ kind.operators)
      {before after : List Shape} {token : Shape} (htoken : token.meaning = some (.binary op))
      {left right : Expr} (hleft : Derives (.chain kind) before left)
      (hright : Derives (.element kind) after right) :
      Derives (.chain kind) (before ++ token :: after)
        (.binary op (left.expecting op.operandTypes.1) (right.expecting op.operandTypes.2))
  | negated {token : Shape} (htoken : token.meaning = some (.leading .not)) {shapes : List Shape}
      {operand : Expr} (h : Derives .negation shapes operand) :
      Derives .negation (token :: shapes) (.unary .not (operand.withExpected .boolean))
  | plain {shapes : List Shape} {expr : Expr}
      (hhead : ∀ token ∈ shapes.head?, token.meaning ≠ some (.leading .not))
      (h : Derives .comparison shapes expr) : Derives .negation shapes expr
  | uncompared {shapes : List Shape} {expr : Expr} (h : Derives (.chain .sums) shapes expr) :
      Derives .comparison shapes expr
  | compared {op : BinaryOp} (hop : op.isComparison = true) {before after : List Shape}
      {token : Shape} (htoken : token.meaning = some (.binary op)) {left right : Expr}
      (hleft : Derives (.chain .sums) before left) (hright : Derives (.chain .sums) after right) :
      Derives .comparison (before ++ token :: after)
        (.binary op (left.expecting op.operandTypes.1) (right.expecting op.operandTypes.2))
  | not {token : Shape} (htoken : token.meaning = some (.leading .not)) {shapes : List Shape}
      {operand : Expr} (h : Derives .signed shapes operand) :
      Derives .signed (token :: shapes) (.unary .not (operand.withExpected .boolean))
  | minusInteger {token : Shape} (htoken : token.meaning = some (.binary .sub))
      {shapes : List Shape} {n : Int64} {type : ValueType}
      (h : Derives .signed shapes (.literal (.integer n) type)) :
      Derives .signed (token :: shapes) (.ofValue (.integer (-n)))
  | minusFloat {token : Shape} (htoken : token.meaning = some (.binary .sub))
      {shapes : List Shape} {x : Number.Binary64} {type : ValueType}
      (h : Derives .signed shapes (.literal (.float x) type)) :
      Derives .signed (token :: shapes) (.ofValue (.float (-x)))
  | minus {token : Shape} (htoken : token.meaning = some (.binary .sub)) {shapes : List Shape}
      {operand : Expr} (hnumber : operand.isNumber = false) (h : Derives .signed shapes operand) :
      Derives .signed (token :: shapes) (.unary .negate (operand.withExpected .number))
  | plus {token : Shape} (htoken : token.meaning = some (.binary .add)) {shapes : List Shape}
      {operand : Expr} (h : Derives .signed shapes operand) :
      Derives .signed (token :: shapes) operand
  | unsigned {shapes : List Shape} {expr : Expr} (h : Derives .checked shapes expr) :
      Derives .signed shapes expr
  | unchecked {shapes : List Shape} {expr : Expr} (h : Derives .primary shapes expr) :
      Derives .checked shapes expr
  | checked {op : UnaryOp} {token : Shape} (htoken : token.meaning = some (.trailing op))
      {shapes : List Shape} {operand : Expr} (h : Derives .checked shapes operand) :
      Derives .checked (shapes ++ [token]) (.unary op (operand.withExpected op.operandType))
  | brackets {shapes : List Shape} {expr : Expr} (h : Derives (.chain .disjunctions) shapes expr) :
      Derives .primary (Shape.opening :: shapes ++ [Shape.closing]) expr
  | string (text : List Char) :
      Derives .primary [(.constant, text)] (.ofValue (.string (String.ofList text)))
  | word {word : List Char} (hunknown : Vocabulary.standard.lookup word = none) {expr : Expr}
      (h : IsWord word expr) : Derives .primary [(.keyword, word)] expr
  | call {function : Builtin} {token : Shape} (htoken : token.meaning = some (.function function))
      (arguments : List (List Shape × Expr)) (htakes : function.takes arguments.length = true)
      (h : ∀ argument ∈ arguments, Derives (.chain .disjunctions) argument.1 argument.2) :
      Derives .primary
        (token :: Shape.opening :: [Shape.comma].intercalate (arguments.map Prod.fst) ++
          [Shape.closing])
        (.call function (arguments.map fun argument =>
          argument.2.withExpected function.argumentType) .any)

/-! ## Words -/

namespace Parser

theorem exists_of_startsWithDigit {word : List Char} (h : startsWithDigit word = true) :
    ∃ c rest, word = c :: rest ∧ c.isDigit = true := by
  cases word with
  | nil => cases h
  | cons c rest => exact ⟨c, rest, rfl, h⟩

/-- A number that is read of a word is not negative, since the sign is no part of the word. -/
theorem nonneg_of_startsWithDigit {word : List Char} {n : Int64} (h : startsWithDigit word = true)
    (hread : Number.readInt64? word = some n) : 0 ≤ n.toInt := by
  obtain ⟨c, rest, rfl, hdigit⟩ := exists_of_startsWithDigit h
  exact Number.readInt64?_nonneg hdigit hread

/-- No literal word begins with a digit. -/
theorem notMem_literals {word : List Char} (h : startsWithDigit word = true) :
    word.map Char.toLower ∉ ["true".toList, "false".toList, "null".toList] := by
  obtain ⟨c, rest, rfl, hdigit⟩ := exists_of_startsWithDigit h
  have hletters : ∀ name ∈ ["true".toList, "false".toList, "null".toList],
      startsWithDigit name = false := List.all_iff_forall_prop.mp (by decide)
  intro hmem
  have hhead := hletters _ hmem
  rw [List.map_cons, Number.Binary64.toLower_of_isDigit hdigit, startsWithDigit, hdigit] at hhead
  cases hhead

/-- A word that begins with a digit is an integer if it fits, else a finite number, else nothing. -/
theorem ofWord_of_startsWithDigit {word : List Char} (h : startsWithDigit word = true) :
    ofWord word =
      match Number.readInt64? word with
      | some n => .ok (.ofValue (.integer n))
      | none =>
        match Number.readFloat? word with
        | some x =>
          if x.isFinite then .ok (.ofValue (.float x)) else .error (.invalidNumber word)
        | none => .error (.invalidNumber word) := by
  have hliteral := notMem_literals h
  simp only [List.mem_cons, List.not_mem_nil, or_false, not_or] at hliteral
  obtain ⟨htrue, hfalse, hnull⟩ := hliteral
  exact (if_neg htrue).trans ((if_neg hfalse).trans ((if_neg hnull).trans (if_pos h)))

/-- A path begins with no digit. -/
theorem startsWithDigit_of_isPath {word : List Char} (h : isPath word = true) :
    startsWithDigit word = false := by
  cases word with
  | nil => rfl
  | cons c rest =>
      rw [isPath, Text.pieces] at h
      split at h
      next => cases h
      next =>
        -- The first piece begins with the first character.
        have hpieces := Text.pieces_ne_nil '.' rest
        split at h
        next hnil => exact absurd hnil hpieces
        next =>
          rw [List.all_cons, Bool.and_eq_true, Bool.not_eq_true'] at h
          exact h.1

end Parser

/-- The words of the grammar are those that the parser takes for operands. -/
theorem isWord_iff {word : List Char} {expr : Expr} :
    IsWord word expr ↔ Parser.ofWord word = .ok expr := by
  constructor
  · intro h
    cases h with
    | isTrue h => rw [Parser.ofWord, if_pos h]
    | isFalse h => rw [Parser.ofWord, if_neg (by rw [h]; decide), if_pos h]
    | isNull h =>
        rw [Parser.ofWord, if_neg (by rw [h]; decide), if_neg (by rw [h]; decide), if_pos h]
    | integer hdigit h => rw [Parser.ofWord_of_startsWithDigit hdigit, h]
    | float hdigit hinteger h hfinite =>
        rw [Parser.ofWord_of_startsWithDigit hdigit, hinteger, h]
        exact if_pos hfinite
    | path hliteral h =>
        simp only [List.mem_cons, List.not_mem_nil, or_false, not_or] at hliteral
        obtain ⟨htrue, hfalse, hnull⟩ := hliteral
        have hdigit := Parser.startsWithDigit_of_isPath h
        rw [Parser.ofWord, if_neg htrue, if_neg hfalse, if_neg hnull, if_neg (by simp [hdigit]),
          if_pos h]
  · intro h
    -- The cases in the order in which a word is read: literals, numbers, paths.
    unfold Parser.ofWord at h
    simp only at h
    split at h
    next htrue => cases h; exact .isTrue htrue
    split at h
    next hfalse => cases h; exact .isFalse hfalse
    split at h
    next hnull => cases h; exact .isNull hnull
    next htrue hfalse hnull =>
      split at h
      next hdigit =>
        split at h
        next n hread => cases h; exact .integer hdigit hread
        next hinteger =>
          split at h
          next x hread =>
            split at h
            next hfinite => cases h; exact .float hdigit hinteger hread hfinite
            next => cases h
          next => cases h
      next hdigit =>
        split at h
        next hpath =>
          cases h
          refine .path ?_ hpath
          simp only [List.mem_cons, List.not_mem_nil, or_false, not_or]
          exact ⟨htrue, hfalse, hnull⟩
        next => cases h

/-! ## Scanned tokens -/

namespace Text

theorem byteLength_cons (c : Char) (text : List Char) :
    byteLength (c :: text) = c.utf8Size + byteLength text := rfl

theorem byteLength_append (first second : List Char) :
    byteLength (first ++ second) = byteLength first + byteLength second := by
  induction first with
  | nil => simp [byteLength]
  | cons c rest ih => rw [List.cons_append, byteLength_cons, byteLength_cons, ih, Nat.add_assoc]

end Text

/-- What scanning makes sure of: a keyword is a symbol or a word, and brackets and commas carry no
text. -/
structure Shape.IsScanned (shape : Shape) : Prop where
  single : shape.1 = .keyword → Token.isSingleKeyword shape.2 = true
  bare : shape.1 ∈ [.parenOpen, .parenClose, .argumentSeparator] → shape.2 = []

namespace Shape.IsScanned

theorem empty {kind : TokenKind} (h : kind ≠ .keyword) : IsScanned (kind, []) :=
  ⟨fun hkind => absurd hkind h, fun _ => rfl⟩

theorem keyword {word : List Char} (h : Token.isSingleKeyword word = true) :
    IsScanned (.keyword, word) :=
  ⟨fun _ => h, fun hkind => by simp at hkind⟩

end Shape.IsScanned

namespace Token

variable {quoting : Quoting} {position more : Nat} {text rest : List Char} {token : Token}

/-- The lexemes that begin with a character, by what they hold: the character that ends an
expression, nothing, the content of a constant, or all that a word or a symbol is made of. -/
inductive Begins (quoting : Quoting) (c : Char) (rest : List Char) :
    TokenKind → List Char → Nat → Prop
  | terminator (h : some c = quoting.enclosing ∨ c = ';') :
      Begins quoting c rest .terminator [c] 0
  | bare {kind : TokenKind} {more : Nat}
      (h : kind ∈ [.parenOpen, .parenClose, .argumentSeparator, .separator]) :
      Begins quoting c rest kind [] more
  | constant {content : List Char} {length : Nat}
      (h : readConstant quoting c rest = .closed content length) :
      Begins quoting c rest .constant content length
  | keyword {more : Nat} (h : isSingleKeyword (c :: rest.take more) = true) :
      Begins quoting c rest .keyword (c :: rest.take more) more

/-- What a lexeme holds is settled by the character it begins with. -/
theorem begins_of_lexeme {c : Char} {kind : TokenKind}
    (h : lexeme quoting c rest = .found kind text more) : Begins quoting c rest kind text more := by
  -- One case for each way in which a token begins, in the order in which they are tried.
  unfold lexeme at h
  split at h
  next hends =>
    cases h
    exact .terminator (by simpa using hends)
  split at h
  next =>
    cases h
    exact .bare (by decide)
  split at h
  next =>
    cases h
    exact .bare (by decide)
  split at h
  next =>
    cases h
    exact .bare (by decide)
  split at h
  next =>
    split at h
    next hread =>
      cases h
      exact .constant hread
    next => cases h
  split at h
  next =>
    cases h
    exact .bare (by decide)
  split at h
  next hsymbol =>
    have hsingle : isSingleKeyword (c :: rest.take 0) = true := by
      simp [isSingleKeyword, hsymbol]
    have hone : Begins quoting c rest .keyword [c] 0 := .keyword hsingle
    split at h
    next d after =>
      split at h
      next hcompound =>
        cases h
        have hpair : isSingleKeyword (c :: (d :: after).take 1) = true := by
          rw [List.take_succ_cons, List.take_zero, isSingleKeyword, if_pos hsymbol, hcompound,
            Bool.or_true]
        exact .keyword hpair
      next =>
        cases h
        exact hone
    next =>
      cases h
      exact hone
  next hsymbol =>
    split at h
    next hword =>
      cases h
      have htaken : rest.takeWhile isWordChar = rest.take (rest.takeWhile isWordChar).length :=
        List.prefix_iff_eq_take.mp (List.takeWhile_prefix _)
      have hall : isSingleKeyword (c :: rest.take (rest.takeWhile isWordChar).length) = true := by
        rw [← htaken, isSingleKeyword, if_neg hsymbol, hword, Bool.true_and, List.all_takeWhile]
      have hkeyword : Begins quoting c rest .keyword _ _ := .keyword hall
      rwa [← htaken] at hkeyword
    next => cases h

/-- What is found in a text is not its end, and its shape can be scanned. -/
theorem isScanned_of_lexeme {c : Char} {kind : TokenKind}
    (h : lexeme quoting c rest = .found kind text more) :
    kind ≠ .finish ∧ Shape.IsScanned (kind, text) := by
  cases begins_of_lexeme h with
  | terminator => exact ⟨by decide, by simp, by simp⟩
  | bare hkind => exact ⟨by rintro rfl; simp at hkind, .empty (by rintro rfl; simp at hkind)⟩
  | constant => exact ⟨by decide, by simp, by simp⟩
  | keyword hsingle => exact ⟨by decide, .keyword hsingle⟩

/-- A token is made of the first characters of a text, none only at its end. -/
theorem source_of_scan (h : scan quoting position text = .ok (token, rest)) :
    text = token.source ++ rest ∧
      token.span = ⟨position, position + Text.byteLength token.source⟩ ∧
      (token.source = [] → token.kind = .finish) ∧
      (token.kind = .keyword → token.text = token.source) := by
  cases text with
  | nil =>
      cases h
      exact ⟨rfl, rfl, fun _ => rfl, fun hkeyword => by cases hkeyword⟩
  | cons c tail =>
      simp only [scan] at h
      split at h
      next kind content more hlexeme =>
        cases h
        refine ⟨?_, rfl, fun hnil => absurd hnil (List.cons_ne_nil _ _), fun hkeyword => ?_⟩
        · rw [List.cons_append, List.take_append_drop]
        · cases begins_of_lexeme hlexeme with
          | keyword => rfl
          | bare hkind =>
              subst hkeyword
              simp at hkind
          | terminator => cases hkeyword
          | constant => cases hkeyword
      next => cases h

/-- A token covers what is scanned up to the rest of the text. -/
theorem span_of_scan (h : scan quoting position text = .ok (token, rest)) :
    token.span.start = position ∧
      token.span.stop + Text.byteLength rest = position + Text.byteLength text := by
  obtain ⟨rfl, hspan, -, -⟩ := source_of_scan h
  rw [hspan, Text.byteLength_append]
  exact ⟨rfl, Nat.add_assoc _ _ _⟩

theorem isScanned_of_scan (h : scan quoting position text = .ok (token, rest)) :
    token.shape.IsScanned := by
  cases text with
  | nil =>
      cases h
      exact .empty (by simp)
  | cons c tail =>
      simp only [scan] at h
      split at h
      next kind content more hlexeme =>
        cases h
        exact (isScanned_of_lexeme hlexeme).2
      next => cases h

/-- Only the end of a text is scanned as an end. -/
theorem scan_finish (h : scan quoting position text = .ok (token, rest))
    (hkind : token.kind = .finish) : text = [] ∧ token.span = ⟨position, position⟩ := by
  cases text with
  | nil =>
      cases h
      exact ⟨rfl, rfl⟩
  | cons c tail =>
      simp only [scan] at h
      split at h
      next kind content more hlexeme =>
        cases h
        exact absurd hkind (isScanned_of_lexeme hlexeme).1
      next => cases h

/-- The tokens of a text that is scanned to its end. -/
theorem Cuts.scan_eq {tokens : List Token} (h : Cuts position text tokens) :
    Scan.of .standard position text = ⟨tokens, .reached
      ⟨position + Text.byteLength text, position + Text.byteLength text⟩⟩ := by
  induction h with
  | finish h hkind =>
      obtain ⟨rfl, hspan⟩ := scan_finish h hkind
      rw [Scan.of]
      rfl
  | @separator position text rest token tokens h hkind hrest ih =>
      unfold Scan.of
      split
      next error herror => rw [h] at herror; cases herror
      next other after hother =>
        rw [h] at hother
        cases hother
        simp only [hkind, reduceCtorEq, dite_false, if_false, if_true]
        rw [ih, (span_of_scan h).2]
  | @token position text rest token tokens h hkind hrest ih =>
      unfold Scan.of
      split
      next error herror => rw [h] at herror; cases herror
      next other after hother =>
        rw [h] at hother
        cases hother
        simp only [hkind, dite_false, if_false]
        rw [ih, (span_of_scan h).2]

end Token

/-- A scan that is reached ends before the end of the text, or the text is cut into its tokens. -/
theorem Scan.cuts_of_reached (position : Nat) (text : List Char) {span : Span}
    (h : (Scan.of .standard position text).stop = .reached span)
    (hend : position + Text.byteLength text ≤ span.start) :
    Token.Cuts position text (Scan.of .standard position text).tokens := by
  fun_induction Scan.of .standard position text with
  | case1 => cases h
  | case2 position text token rest hscan hfinish => exact .finish hscan hfinish
  | case3 position text token rest hscan hfinish hterminator =>
      cases h
      cases text with
      | nil =>
          cases hscan
          exact absurd rfl hfinish
      | cons c tail =>
          -- A terminator stands before the end.
          have hpositive := Char.utf8Size_pos c
          rw [(Token.span_of_scan hscan).1, Text.byteLength_cons] at hend
          omega
  | case4 position text token rest hscan hfinish hterminator hshorter following hseparator ih =>
      exact .separator hscan hseparator (ih h (by rw [(Token.span_of_scan hscan).2]; exact hend))
  | case5 position text token rest hscan hfinish hterminator hshorter following hseparator ih =>
      exact .token hscan ⟨hfinish, hterminator, hseparator⟩
        (ih h (by rw [(Token.span_of_scan hscan).2]; exact hend))

/-- Tokens as scanning gives them. -/
def AllScanned (tokens : List Token) : Prop :=
  ∀ token ∈ tokens, token.shape.IsScanned

namespace AllScanned

variable {tokens taken after : List Token} {token : Token}

/-- Tokens that can be scanned can be scanned behind others too. -/
theorem suffix (h : AllScanned tokens) (htokens : tokens = taken ++ after) : AllScanned after :=
  fun token htoken => h token (htokens ▸ List.mem_append_right taken htoken)

theorem tail (h : AllScanned (token :: after)) : AllScanned after :=
  fun other hother => h other (List.mem_cons_of_mem _ hother)

end AllScanned

/-- All tokens of a scan have shapes that can be scanned. -/
theorem Scan.allScanned (quoting : Quoting) (position : Nat) (text : List Char) :
    AllScanned (Scan.of quoting position text).tokens := by
  fun_induction Scan.of quoting position text with
  | case1 => exact fun token h => absurd h List.not_mem_nil
  | case2 => exact fun token h => absurd h List.not_mem_nil
  | case3 => exact fun token h => absurd h List.not_mem_nil
  | case4 position text token rest h hfinish hterminator hshorter following hseparator ih =>
      exact ih
  | case5 position text token rest h hfinish hterminator hshorter following hseparator ih =>
      intro other hother
      rcases List.mem_cons.mp hother with rfl | hother
      · exact Token.isScanned_of_scan h
      · exact ih other hother

end RowFilter
