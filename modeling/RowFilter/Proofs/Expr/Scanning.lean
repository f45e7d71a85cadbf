import RowFilter.Expr.Printer
import RowFilter.Proofs.Expr.Grammar
import RowFilter.Proofs.Text.Utf8

/-! # Scanning printed expressions

The tokens that the text of an expression is scanned into, without their places in the text. A text
is scanned piece by piece: what follows a piece matters only where a word or a symbol could go on.
-/

namespace RowFilter

namespace Shape

/-- A word with the sign in front of it, if there is one. -/
def ofNumber : List Char → List Shape
  | '-' :: rest => [keyword "-", (.keyword, rest)]
  | text => [(.keyword, text)]

def ofLiteral : Value → List Shape
  | .string s => [(.constant, s.toList)]
  | value => ofNumber value.literalText

def bracketed (least : Nat) (operand : Expr) (shapes : List Shape) : List Shape :=
  if operand.precedence < least then opening :: shapes ++ [closing] else shapes

end Shape

namespace Expr

mutual

/-- The tokens of an expression's text. -/
def shapes : Expr → List Shape
  | literal value _ => Shape.ofLiteral value
  | reference path _ => [Shape.keyword path]
  | call function arguments _ =>
    Shape.keyword function.name :: Shape.opening :: shapesAll arguments ++ [Shape.closing]
  | unary op operand =>
    match op with
    | .not => Shape.keyword "not" :: Shape.bracketed 3 operand (shapes operand)
    | .negate => Shape.keyword "-" :: Shape.bracketed 6 operand (shapes operand)
    | .isNull | .notNull => Shape.bracketed 6 operand (shapes operand) ++ [Shape.keyword op.keyword]
  | binary op left right =>
    Shape.bracketed op.precedence left (shapes left) ++ Shape.keyword op.keyword ::
      Shape.bracketed (op.precedence + 1) right (shapes right)

def shapesAll : List Expr → List Shape
  | [] => []
  | [argument] => shapes argument
  | argument :: rest => shapes argument ++ Shape.comma :: shapesAll rest

end

variable (type : ValueType) (expr : Expr)

@[simp]
theorem precedence_withExpected : (expr.withExpected type).precedence = expr.precedence := by
  cases expr <;> rfl

/-- The type expected of an expression is not printed. -/
@[simp]
theorem print_withExpected : (expr.withExpected type).print = expr.print := by
  cases expr <;> simp [withExpected, print]

@[simp]
theorem shapes_withExpected : (expr.withExpected type).shapes = expr.shapes := by
  cases expr <;> simp [withExpected, shapes]

@[simp]
theorem bracketed_withExpected (least : Nat) (text : List Char) :
    bracketed least (expr.withExpected type) text = bracketed least expr text := by
  simp [bracketed]

@[simp]
theorem shapes_bracketed_withExpected (least : Nat) (shapes : List Shape) :
    Shape.bracketed least (expr.withExpected type) shapes =
      Shape.bracketed least expr shapes := by
  simp [Shape.bracketed]

variable {arguments : List Expr}

theorem printAll_map_withExpected :
    printAll (arguments.map (withExpected type)) = printAll arguments := by
  induction arguments with
  | nil => rfl
  | cons first rest ih =>
      cases rest with
      | nil => simp [printAll]
      | cons second rest =>
          simp only [List.map_cons, printAll] at ih ⊢
          rw [ih, print_withExpected]

theorem shapesAll_map_withExpected :
    shapesAll (arguments.map (withExpected type)) = shapesAll arguments := by
  induction arguments with
  | nil => rfl
  | cons first rest ih =>
      cases rest with
      | nil => simp [shapesAll]
      | cons second rest =>
          simp only [List.map_cons, shapesAll] at ih ⊢
          rw [ih, shapes_withExpected]

/-- Joining operands changes nothing about how they are printed. -/
theorem combine_eq (op : BinaryOp) (left right : Expr) : ∃ left' right',
    Parser.combine op left right = .binary op left' right' ∧
      (left' = left ∨ ∃ type, left' = left.withExpected type) ∧
      (right' = right ∨ ∃ type, right' = right.withExpected type) := by
  refine ⟨_, _, rfl, ?_, ?_⟩
  · dsimp only
    split
    next => exact Or.inl rfl
    next => exact Or.inr ⟨_, rfl⟩
  · dsimp only
    split
    next => exact Or.inl rfl
    next => exact Or.inr ⟨_, rfl⟩

/-- A combined expression prints as its operation would, its operands unchanged but for the types
expected of them. -/
theorem print_combine (op : BinaryOp) (left right : Expr) :
    (Parser.combine op left right).print =
      bracketed op.precedence left left.print ++ ' ' :: op.keyword.toList ++
        ' ' :: bracketed (op.precedence + 1) right right.print := by
  obtain ⟨left', right', heq, hleft, hright⟩ := combine_eq op left right
  rw [heq, print]
  obtain rfl | ⟨_, rfl⟩ := hleft <;> obtain rfl | ⟨_, rfl⟩ := hright <;> simp

/-- The shapes of a combined expression are those of its operation on the operands it was given. -/
theorem shapes_combine (op : BinaryOp) (left right : Expr) :
    (Parser.combine op left right).shapes =
      Shape.bracketed op.precedence left left.shapes ++ Shape.keyword op.keyword ::
        Shape.bracketed (op.precedence + 1) right right.shapes := by
  obtain ⟨left', right', heq, hleft, hright⟩ := combine_eq op left right
  rw [heq, shapes]
  obtain rfl | ⟨_, rfl⟩ := hleft <;> obtain rfl | ⟨_, rfl⟩ := hright <;> simp

end Expr

/-! ## Scanning a piece -/

namespace Text

theorem lt_of_isDigit {c : Char} (h : c.isDigit = true) : c.toNat < 128 := by
  have hrange := (Bool.and_eq_true _ _).mp h
  simp only [decide_eq_true_eq, UInt32.le_iff_toNat_le] at hrange
  have hnine : '9'.val.toNat = 57 := rfl
  change c.val.toNat < 128
  omega

theorem le_of_isAlphanum {c : Char} (h : c.isAlphanum = true) : 48 ≤ c.toNat := by
  have hrange := toNat_of_isAlphanum h
  omega

/-- White space is neither a letter nor a digit. -/
theorem isAlphanumeric_of_isWhitespace {c : Char} (h : isWhitespace c = true) :
    isAlphanumeric c = false := by
  have hdisjoint : ∀ range ∈ whitespaceRanges,
      ∀ n ∈ List.range' range.1 (range.2 + 1 - range.1), n < 48 ∨ (128 ≤ n ∧
        (alphanumericRanges.any fun other => other.1 ≤ n && n ≤ other.2) = false) := by
    decide +kernel
  obtain ⟨range, hrange, hmem⟩ := List.any_eq_true.mp h
  rw [Bool.and_eq_true, decide_eq_true_eq, decide_eq_true_eq] at hmem
  unfold isAlphanumeric
  rcases hdisjoint range hrange c.toNat (List.mem_range'_1.mpr (by omega)) with hlow | htable
  · rw [if_pos (by omega)]
    cases hc : c.isAlphanum with
    | false => rfl
    | true =>
        have := le_of_isAlphanum hc
        omega
  · rw [if_neg (by omega)]
    exact htable.2

end Text

namespace Token

/-- Characters that stand for themselves, or begin a string, are in no word. -/
theorem isWordChar_eq_false : ∀ c ∈ [' ', ';', '(', ')', ',', '\x27', '\x22', '=', '!', '<', '>',
    '&', '|', '+', '-', '*', '/', '%'], isWordChar c = false :=
  List.all_iff_forall_prop.mp (by decide)

/-- A character of a word is not white space. -/
theorem isWhitespace_of_isWordChar {c : Char} (h : isWordChar c = true) :
    Text.isWhitespace c = false := by
  cases hspace : Text.isWhitespace c with
  | false => rfl
  | true =>
      have hothers : ∀ d ∈ ['_', '.', '$'], Text.isWhitespace d = false :=
        List.all_iff_forall_prop.mp (by decide)
      simp only [isWordChar, Text.isAlphanumeric_of_isWhitespace hspace, Bool.false_or,
        Bool.or_eq_true, beq_iff_eq] at h
      rcases h with (rfl | rfl) | rfl <;> cases hspace

/-- A character of a word starts a keyword that reaches as far as the characters of words do. -/
theorem lexeme_word {c : Char} (h : isWordChar c = true) (rest : List Char) :
    lexeme .standard c rest =
      .found .keyword (c :: rest.takeWhile isWordChar) (rest.takeWhile isWordChar).length := by
  have hother : ∀ d, isWordChar d = false → (c == d) = false := by
    intro d hd
    rw [beq_eq_false_iff_ne]
    rintro rfl
    exact absurd h (by simp [hd])
  have hsymbol : isSymbolChar c = false := by
    cases hc : isSymbolChar c with
    | false => rfl
    | true =>
        have hmem := List.contains_iff_mem.mp hc
        have := isWordChar_eq_false c (by simp_all)
        exact absurd h (by simp [this])
  unfold lexeme
  have h1 := hother ';' (by decide)
  have h2 := hother '(' (by decide)
  have h3 := hother ')' (by decide)
  have h4 := hother ',' (by decide)
  have h5 := hother '\x27' (by decide)
  have h6 := hother '\x22' (by decide)
  simp [h1, h2, h3, h4, isQuote, h5, h6, isWhitespace_of_isWordChar h, hsymbol, h, Quoting.standard]

/-- A symbol takes the next character with it exactly when the two are a compound symbol. -/
theorem lexeme_symbol {c : Char} (h : isSymbolChar c = true) (rest : List Char) :
    lexeme .standard c rest =
      match rest with
      | d :: _ => if compoundSymbols.contains [c, d] then .found .keyword [c, d] 1
        else .found .keyword [c] 0
      | [] => .found .keyword [c] 0 := by
  have hmem := List.contains_iff_mem.mp h
  simp only [List.mem_cons, List.not_mem_nil, or_false] at hmem
  rcases hmem with rfl | rfl | rfl | rfl | rfl | rfl | rfl | rfl | rfl | rfl | rfl <;> rfl

end Token

namespace Scan

/-- A scan with tokens in front. -/
def after (tokens : List Token) (scan : Scan) : Scan :=
  ⟨tokens ++ scan.tokens, scan.stop⟩

/-- A lexeme that is no end is scanned as a token with its span, and scanning goes on behind it. -/
theorem of_lexeme {quoting : Quoting} {c : Char} {rest text : List Char} {kind : TokenKind}
    {more : Nat} (h : Token.lexeme quoting c rest = .found kind text more)
    (hkind : kind ≠ .finish ∧ kind ≠ .terminator) (position : Nat) :
    of quoting position (c :: rest) =
      let span := ⟨position, position + Text.byteLength (c :: rest.take more)⟩
      let following := of quoting span.stop (rest.drop more)
      if kind = .separator then following
      else following.after [⟨kind, text, span, c :: rest.take more⟩] := by
  have hscan : Token.scan quoting position (c :: rest) = .ok
      (⟨kind, text, ⟨position, position + Text.byteLength (c :: rest.take more)⟩,
        c :: rest.take more⟩, rest.drop more) := by
    rw [Token.scan, h]
  rw [of]
  split
  next heq =>
    rw [hscan] at heq
    cases heq
  next heq =>
    rw [hscan] at heq
    cases heq
    rw [dif_neg hkind.1, if_neg hkind.2]
    rfl

end Scan

/-- White space is one separator, as long as the white space is. -/
theorem Token.lexeme_whitespace {c : Char} (h : Text.isWhitespace c = true) (rest : List Char) :
    lexeme .standard c rest =
      .found .separator [] (rest.takeWhile Text.isWhitespace).length := by
  have hother : ∀ d, Text.isWhitespace d = false → (c == d) = false := by
    intro d hd
    rw [beq_eq_false_iff_ne]
    rintro rfl
    exact absurd h (by simp [hd])
  unfold lexeme
  simp [hother ';' (by decide), hother '(' (by decide), hother ')' (by decide),
    hother ',' (by decide), isQuote, hother '\x27' (by decide), hother '\x22' (by decide), h,
    Quoting.standard]

/-- Scanning skips white space and goes on at the first character behind it. -/
theorem Scan.of_whitespace {c : Char} (h : Text.isWhitespace c = true) (position : Nat)
    (rest : List Char) : of .standard position (c :: rest) =
      of .standard (position + Text.byteLength (c :: rest.takeWhile Text.isWhitespace))
        (rest.dropWhile Text.isWhitespace) := by
  have hsplit := List.takeWhile_append_dropWhile (p := Text.isWhitespace) (l := rest)
  have htake : (rest.takeWhile Text.isWhitespace ++ rest.dropWhile Text.isWhitespace).take
      (rest.takeWhile Text.isWhitespace).length = _ := List.take_left' rfl
  have hdrop : (rest.takeWhile Text.isWhitespace ++ rest.dropWhile Text.isWhitespace).drop
      (rest.takeWhile Text.isWhitespace).length = _ := List.drop_left' rfl
  rw [hsplit] at htake hdrop
  rw [of_lexeme (Token.lexeme_whitespace h rest) (by decide)]
  simp only [if_true, htake, hdrop]

/-- What may follow a word or a symbol without becoming part of it. -/
def Boundary (rest : List Char) : Prop :=
  ∀ c ∈ rest.head?, c ∈ [' ', '(', ')', ',']

/-- A text is scanned into some tokens, whatever of some kind follows it. -/
def Lexes (P : List Char → Prop) (text : List Char) (shapes : List Shape) : Prop :=
  ∀ position rest, P rest → ∃ tokens : List Token, tokens.map Token.shape = shapes ∧
    Scan.of .standard position (text ++ rest) =
      (Scan.of .standard (position + Text.byteLength text) rest).after tokens

/-- What follows does not matter. -/
def Anything (_ : List Char) : Prop := True

namespace Lexes

variable {P Q : List Char → Prop} {first second : List Char} {shapes more : List Shape}

theorem mono (h : Lexes P first shapes) (hpq : ∀ rest, Q rest → P rest) :
    Lexes Q first shapes :=
  fun position rest hrest => h position rest (hpq rest hrest)

/-- Two texts in a row have their shapes in a row, where the second may follow the first. -/
theorem append (h : Lexes P first shapes) (hsecond : Lexes Q second more)
    (hrest : ∀ rest, Q rest → P (second ++ rest)) : Lexes Q (first ++ second) (shapes ++ more) := by
  intro position rest hq
  obtain ⟨tokens, htokens, hscan⟩ := h position (second ++ rest) (hrest rest hq)
  obtain ⟨others, hothers, hmore⟩ := hsecond (position + Text.byteLength first) rest hq
  refine ⟨tokens ++ others, by rw [List.map_append, htokens, hothers], ?_⟩
  rw [List.append_assoc, hscan, hmore, Text.byteLength_append, Nat.add_assoc, Scan.after,
    Scan.after, Scan.after, List.append_assoc]

/-- Nothing need be asked of the second text where anything may follow the first. -/
theorem cons (h : Lexes Anything first shapes) (hsecond : Lexes P second more) :
    Lexes P (first ++ second) (shapes ++ more) :=
  h.append hsecond fun _ _ => trivial

/-- A text that is one lexeme is scanned into one token. -/
theorem single {c : Char} {rest text : List Char} {kind : TokenKind}
    (hkind : kind ≠ .finish ∧ kind ≠ .terminator ∧ kind ≠ .separator)
    (h : ∀ following, P following →
      Token.lexeme .standard c (rest ++ following) = .found kind text rest.length) :
    Lexes P (c :: rest) [(kind, text)] := by
  intro position following hfollowing
  refine ⟨[⟨kind, text, ⟨position, position + Text.byteLength (c :: rest)⟩, c :: rest⟩], rfl, ?_⟩
  rw [List.cons_append, Scan.of_lexeme (h following hfollowing) ⟨hkind.1, hkind.2.1⟩]
  simp only [if_neg hkind.2.2, List.take_left, List.drop_left]

theorem opening : Lexes Anything ['('] [Shape.opening] :=
  single (by decide) fun _ _ => rfl

theorem closing : Lexes Anything [')'] [Shape.closing] :=
  single (by decide) fun _ _ => rfl

theorem comma : Lexes Anything [','] [Shape.comma] :=
  single (by decide) fun _ _ => rfl

theorem minus : Lexes Anything ['-'] [Shape.keyword "-"] := by
  refine single (by decide) fun following _ => ?_
  rw [List.nil_append, Token.lexeme_symbol (by decide)]
  cases following with
  | nil => rfl
  | cons d _ => simp [Token.compoundSymbols]

/-- A blank separates and does nothing else. -/
theorem blank : Lexes Anything [' '] [] := by
  intro position rest _
  have hblank : Text.isWhitespace ' ' = true := by decide
  refine ⟨[], rfl, ?_⟩
  change Scan.of .standard position (' ' :: rest) = Scan.of .standard (position + 1) rest
  rw [Scan.of_whitespace hblank]
  cases rest with
  | nil => rfl
  | cons c rest =>
      by_cases hc : Text.isWhitespace c = true
      · -- The run of white space is as long as the one that begins after the blank.
        rw [List.takeWhile_cons_of_pos hc, List.dropWhile_cons_of_pos hc, Text.byteLength_cons,
          ← Nat.add_assoc, Scan.of_whitespace hc]
        rfl
      · rw [List.takeWhile_cons_of_neg hc, List.dropWhile_cons_of_neg hc]
        rfl

/-- A word ends where no character of a word follows. -/
theorem takeWhile_isWordChar {tail rest : List Char} (h : tail.all Token.isWordChar = true)
    (hrest : Boundary rest) : (tail ++ rest).takeWhile Token.isWordChar = tail := by
  have hstop : rest.takeWhile Token.isWordChar = [] := by
    cases rest with
    | nil => rfl
    | cons c rest =>
        have hc := hrest c rfl
        rw [List.takeWhile_cons_of_neg]
        have hmem : c ∈ [' ', ';', '(', ')', ','] := by
          simp only [List.mem_cons, List.not_mem_nil, or_false] at hc ⊢
          rcases hc with rfl | rfl | rfl | rfl <;> simp
        simp [Token.isWordChar_eq_false c (List.mem_append_left _ hmem)]
  rw [List.takeWhile_append_of_pos (List.all_eq_true.mp h), hstop, List.append_nil]

/-- No compound symbol has a blank, a bracket or a comma as its second character. -/
theorem compoundSymbols_boundary {c d : Char} (h : d ∈ [' ', '(', ')', ',']) :
    Token.compoundSymbols.contains [c, d] = false := by
  simp only [List.mem_cons, List.not_mem_nil, or_false] at h
  rcases h with rfl | rfl | rfl | rfl <;> simp [Token.compoundSymbols]

/-- A keyword is one lexeme, unless what follows could go on with it. -/
theorem lexeme_keyword {c : Char} {tail following : List Char}
    (h : Token.isSingleKeyword (c :: tail) = true) (hfollowing : Boundary following) :
    Token.lexeme .standard c (tail ++ following) = .found .keyword (c :: tail) tail.length := by
  by_cases hsymbol : Token.isSymbolChar c = true
  · rw [Token.lexeme_symbol hsymbol]
    rw [Token.isSingleKeyword, if_pos hsymbol, Bool.or_eq_true] at h
    rcases h with hempty | hcompound
    · obtain rfl := List.isEmpty_iff.mp hempty
      cases following with
      | nil => rfl
      | cons d rest =>
          have hpair := compoundSymbols_boundary (c := c) (hfollowing d rfl)
          simp only [List.nil_append, hpair, Bool.false_eq_true, if_false]
          rfl
    · have hmem := List.contains_iff_mem.mp hcompound
      have hlength : ∀ symbol ∈ Token.compoundSymbols, symbol.length = 2 := by decide
      obtain ⟨d, rfl⟩ := List.length_eq_one_iff.mp
        (Nat.succ.inj (hlength (c :: tail) hmem))
      simp only [List.cons_append, hcompound, if_true]
      rfl
  · rw [Token.isSingleKeyword, if_neg hsymbol, Bool.and_eq_true] at h
    rw [Token.lexeme_word h.1, takeWhile_isWordChar h.2 hfollowing]

/-- A word or a symbol is scanned as one keyword. -/
theorem keyword {word : List Char} (h : Token.isSingleKeyword word = true) :
    Lexes Boundary word [(.keyword, word)] := by
  cases word with
  | nil => cases h
  | cons c tail => exact single (by decide) fun following hfollowing => lexeme_keyword h hfollowing

/-- A text that is scanned on its own. -/
theorem scan_eq {code : List Char} (h : Lexes Boundary code shapes) :
    ∃ tokens : List Token, tokens.map Token.shape = shapes ∧ Scan.of .standard 0 code =
      ⟨tokens, .reached ⟨Text.byteLength code, Text.byteLength code⟩⟩ := by
  obtain ⟨tokens, htokens, hscan⟩ := h 0 [] (by rintro c ⟨⟩)
  have hend : ∀ position, Scan.of .standard position [] =
      ⟨[], .reached ⟨position, position⟩⟩ := by
    intro position
    rw [Scan.of]
    rfl
  rw [List.append_nil, hend, Nat.zero_add, Scan.after, List.append_nil] at hscan
  exact ⟨tokens, htokens, hscan⟩

end Lexes

namespace Token

/-- A text is read back from a constant in which each of its characters is. -/
theorem readConstant_flatMap {quoting : Quoting} {quote : Char} (hquote : quote ≠ quoting.escape)
    {write : Char → List Char} (hwrite : ∀ c rest, readConstant quoting quote (write c ++ rest) =
      (readConstant quoting quote rest).after (write c).length [c]) (text rest : List Char) :
    readConstant quoting quote (text.flatMap write ++ quote :: rest) =
      .closed text ((text.flatMap write).length + 1) := by
  induction text with
  | nil =>
      rw [List.flatMap_nil, List.nil_append, readConstant.eq_def]
      simp [hquote]
  | cons c text ih =>
      rw [List.flatMap_cons, List.append_assoc, hwrite, ih, ConstantEnd.after, List.length_append,
        List.singleton_append, Nat.add_assoc]

/-- A quoted text that is closed is one constant token. -/
theorem lexeme_constant {quoting : Quoting} {quote : Char}
    (hquote : quote = '\x27' ∨ quote = '\x22') (henclosing : quoting.enclosing ≠ some quote)
    {rest content : List Char} {length : Nat}
    (h : readConstant quoting quote rest = .closed content length) :
    lexeme quoting quote rest = .found .constant content length := by
  have hends : ¬(some quote == quoting.enclosing || quote == ';') = true := by
    simp only [Bool.or_eq_true, beq_iff_eq, not_or]
    exact ⟨henclosing.symm, by rcases hquote with rfl | rfl <;> decide⟩
  unfold lexeme
  rw [if_neg hends, h]
  rcases hquote with rfl | rfl <;> rfl

/-- A printed character of a text is read back as that character, a doubled quote as one. -/
theorem readConstant_quotedChar (c : Char) (rest : List Char) :
    readConstant .standard '\x27' (quotedChar c ++ rest) =
      (readConstant .standard '\x27' rest).after (quotedChar c).length [c] := by
  unfold quotedChar
  split
  next => simp [readConstant, Quoting.standard, unescape]
  next => simp [readConstant, Quoting.standard, unescape]
  next => simp [readConstant, Quoting.standard, unescape]
  next => simp [readConstant, Quoting.standard, unescape]
  next hescape =>
    split
    next hquote =>
      obtain rfl := beq_iff_eq.mp hquote
      simp [readConstant, Quoting.standard, unescape]
    next hquote =>
      have hc : ¬ (c == '\\') = true := by simpa using hescape
      rw [List.singleton_append, readConstant.eq_def]
      simp only [Quoting.standard, hc, hquote, Bool.false_eq_true, if_false]
      rfl

end Token

namespace Lexes

/-- A printed text is one constant token with the text itself, whatever follows. -/
theorem quoted (text : List Char) : Lexes Anything (quoted text) [(.constant, text)] := by
  refine single (by decide) fun following _ => ?_
  have hread := Token.readConstant_flatMap (by decide) Token.readConstant_quotedChar text following
  have htail : (text.flatMap quotedChar).append ['\x27'] ++ following =
      text.flatMap quotedChar ++ '\x27' :: following := List.append_assoc _ _ _
  have hlength : ((text.flatMap quotedChar).append ['\x27']).length =
      (text.flatMap quotedChar).length + 1 := List.length_append
  rw [htail, Token.lexeme_constant (.inl rfl) (by decide) hread, hlength]

end Lexes

/-! ## Scanning an expression -/

/-- Digits and points after a digit. -/
def IsNumberWord (word : List Char) : Prop :=
  (∃ c rest, word = c :: rest ∧ c.isDigit = true) ∧ ∀ c ∈ word, c.isDigit = true ∨ c = '.'

/-- A natural number is printed as a word that starts with a digit. -/
theorem isNumberWord_natText (n : Nat) : IsNumberWord (Number.natText n) := by
  obtain ⟨c, rest, htext⟩ := List.exists_cons_of_ne_nil (Number.natText_ne_nil n)
  refine ⟨⟨c, rest, htext, Number.isDigit_of_mem_natText (n := n) ?_⟩, ?_⟩
  · rw [htext]
    exact List.mem_cons_self
  · exact fun c hc => Or.inl (Number.isDigit_of_mem_natText hc)

theorem isNumberWord_unsignedText (x : Number.Binary64) : IsNumberWord x.unsignedText :=
  ⟨x.unsignedText_head, fun _ hc => Number.Binary64.mem_unsignedText hc⟩

namespace IsNumberWord

variable {word : List Char} (h : IsNumberWord word)

include h

theorem startsWithDigit : Parser.startsWithDigit word = true := by
  obtain ⟨c, rest, rfl, hdigit⟩ := h.1
  exact hdigit

theorem isWordChar_of_mem {c : Char} (hc : c ∈ word) : Token.isWordChar c = true := by
  rcases h.2 c hc with hdigit | rfl
  · have halphanum : c.isAlphanum = true := (Bool.or_eq_true _ _).mpr (Or.inr hdigit)
    simp [Token.isWordChar, Text.isAlphanumeric, Text.lt_of_isDigit hdigit, halphanum]
  · decide

theorem isSingleKeyword : Token.isSingleKeyword word = true := by
  obtain ⟨c, rest, rfl, hdigit⟩ := h.1
  have hsymbol : Token.isSymbolChar c = false := by
    cases hc : Token.isSymbolChar c with
    | false => rfl
    | true =>
        have hnone : ∀ d ∈ ['=', '!', '<', '>', '&', '|', '+', '-', '*', '/', '%'],
            d.isDigit = false := List.all_iff_forall_prop.mp (by decide)
        exact absurd hdigit (by simp [hnone c (List.contains_iff_mem.mp hc)])
  rw [Token.isSingleKeyword, hsymbol, if_neg Bool.false_ne_true, Bool.and_eq_true,
    List.all_eq_true]
  exact ⟨h.isWordChar_of_mem List.mem_cons_self,
    fun d hd => h.isWordChar_of_mem (List.mem_cons_of_mem _ hd)⟩

/-- The word of a number that has no sign is one keyword. -/
theorem shapes_eq : Shape.ofNumber word = [(.keyword, word)] := by
  obtain ⟨c, rest, rfl, hdigit⟩ := h.1
  unfold Shape.ofNumber
  split
  next heq =>
    cases heq
    exact absurd hdigit (by decide)
  next => rfl

theorem lexes : Lexes Boundary word (Shape.ofNumber word) := by
  rw [h.shapes_eq]
  exact Lexes.keyword h.isSingleKeyword

theorem lexes_negative : Lexes Boundary ('-' :: word) (Shape.ofNumber ('-' :: word)) :=
  Lexes.minus.cons (Lexes.keyword h.isSingleKeyword)

end IsNumberWord

theorem Value.literalText_integer (n : Int64) : (Value.integer n).literalText =
    if n.toInt < 0 then '-' :: Number.natText n.toInt.natAbs
      else Number.natText n.toInt.natAbs := by
  have htext : (Value.integer n).literalText = Number.intText n.toInt := by
    rw [Value.literalText, Value.text, Number.int64Text, String.toList_ofList]
    all_goals simp
  rw [htext]
  rfl

theorem Value.literalText_float {x : Number.Binary64} (h : x.isFinite = true) :
    (Value.float x).literalText =
      if x.isNegative then '-' :: x.unsignedText else x.unsignedText := by
  rw [Value.literalText, Value.text, Number.Binary64.floatText_eq h, String.toList_ofList]
  all_goals simp

theorem Boundary.cons {c : Char} (h : c ∈ [' ', '(', ')', ',']) (rest : List Char) :
    Boundary (c :: rest) := by
  rintro d ⟨⟩
  exact h

namespace Lexes

variable {text : List Char} {shapes : List Shape}

/-- Brackets around a text, where they are printed, are two more shapes around its own. -/
theorem bracketed (h : Lexes Boundary text shapes) (least : Nat) (operand : Expr) :
    Lexes Boundary (Expr.bracketed least operand text)
      (Shape.bracketed least operand shapes) := by
  unfold Expr.bracketed Shape.bracketed
  split
  next =>
    exact opening.cons (h.append (closing.mono fun _ _ => trivial)
      fun rest _ => Boundary.cons (by decide) rest)
  next => exact h

end Lexes

namespace Expr

/-- Every binary operator is printed as one keyword. -/
theorem lexes_binaryKeyword (op : BinaryOp) :
    Lexes Boundary op.keyword.toList [Shape.keyword op.keyword] :=
  Lexes.keyword (by cases op <;> decide)

/-- Printed arguments are scanned one after another, with a comma between any two. -/
theorem lexes_printAll {arguments : List Expr}
    (h : ∀ argument ∈ arguments, Lexes Boundary argument.print argument.shapes) :
    Lexes Boundary (printAll arguments) (shapesAll arguments) := by
  induction arguments with
  | nil => exact fun position rest _ => ⟨[], rfl, rfl⟩
  | cons first rest ih =>
      have hfirst := h first List.mem_cons_self
      have hrest := ih fun argument hargument => h argument (List.mem_cons_of_mem _ hargument)
      cases rest with
      | nil => exact hfirst
      | cons second rest =>
          have hmore := Lexes.comma.cons (Lexes.blank.cons hrest)
          exact hfirst.append hmore fun following _ => Boundary.cons (by decide) _

/-- The text of a tree of the parser is scanned into its tokens. -/
theorem Parsed.lexes {expr : Expr} (h : expr.Parsed) : Lexes Boundary expr.print expr.shapes := by
  induction h with
  | null => exact Lexes.keyword (by decide)
  | boolean b => cases b <;> exact Lexes.keyword (by decide)
  | @integer n _ =>
      have hnat := isNumberWord_natText n.toInt.natAbs
      rw [ofValue, print, shapes, Shape.ofLiteral, Value.literalText_integer]
      · -- The sign of a negative number is a token of its own.
        split
        next => exact hnat.lexes_negative
        next => exact hnat.lexes
      · simp
  | @float x hfinite =>
      have hnat := isNumberWord_unsignedText x
      rw [ofValue, print, shapes, Shape.ofLiteral, Value.literalText_float hfinite]
      · split
        next => exact hnat.lexes_negative
        next => exact hnat.lexes
      · simp
  | string s =>
      rw [ofValue, print, Value.literalText]
      exact (Lexes.quoted s.toList).mono fun _ _ => trivial
  | @reference word hword =>
      rw [print, String.toList_ofList, shapes, Shape.keyword, String.toList_ofList]
      exact Lexes.keyword hword.single
  | @call function arguments _ _ ih =>
      rw [print, shapes, printAll_map_withExpected, shapesAll_map_withExpected]
      have hname : Lexes Boundary function.name.toList [Shape.keyword function.name] :=
        Lexes.keyword (by cases function <;> decide)
      have hclose : Lexes Boundary (printAll arguments ++ [')'])
          (shapesAll arguments ++ [Shape.closing]) :=
        (lexes_printAll ih).append (Lexes.closing.mono fun _ _ => trivial)
          fun rest _ => Boundary.cons (by decide) _
      rw [List.append_assoc]
      exact hname.append (Lexes.opening.cons hclose) fun rest _ => Boundary.cons (by decide) _
  | @negate operand _ _ ih =>
      simp only [Parser.applyUnary, print, shapes, bracketed_withExpected, print_withExpected,
        shapes_bracketed_withExpected, shapes_withExpected]
      exact Lexes.minus.cons (ih.bracketed 6 operand)
  | @unary op hop operand _ ih =>
      have hcheck : ∀ keyword : String, Token.isSingleKeyword keyword.toList = true →
          Lexes Boundary (bracketed 6 operand operand.print ++ ' ' :: keyword.toList)
            (Shape.bracketed 6 operand operand.shapes ++ [Shape.keyword keyword]) :=
        fun keyword hkeyword => (ih.bracketed 6 operand).append
          (Lexes.blank.cons (Lexes.keyword hkeyword)) fun rest _ => Boundary.cons (by decide) _
      simp only [Parser.applyUnary, print, shapes, bracketed_withExpected, print_withExpected,
        shapes_bracketed_withExpected, shapes_withExpected]
      cases op with
      | not =>
          have hnot : Lexes Boundary "not".toList [Shape.keyword "not"] :=
            Lexes.keyword (by decide)
          exact hnot.append (Lexes.blank.cons (ih.bracketed 3 operand))
            fun rest _ => Boundary.cons (by decide) _
      | negate => exact absurd rfl hop
      | isNull => exact hcheck _ (by decide)
      | notNull => exact hcheck _ (by decide)
  | @binary op left right _ _ ihleft ihright =>
      rw [print_combine, shapes_combine]
      have hright := (lexes_binaryKeyword op).append
        (Lexes.blank.cons (ihright.bracketed (op.precedence + 1) right))
        fun rest _ => Boundary.cons (by decide) _
      rw [List.append_assoc]
      exact (ihleft.bracketed op.precedence left).append (Lexes.blank.cons hright)
        fun rest _ => Boundary.cons (by decide) _

end Expr

end RowFilter
