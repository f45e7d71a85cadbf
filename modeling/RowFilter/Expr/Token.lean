import RowFilter.Expr.ParseError
import RowFilter.Text.Letters

/-!
# Tokens

The text of an expression is cut into tokens from left to right. An expression may stand inside
a larger text, where it ends at a semicolon or at the character that encloses it. Positions count
the bytes of the UTF-8 form.
-/

namespace RowFilter

inductive TokenKind where
  | parenOpen | parenClose
  /-- A run of white space. -/
  | separator
  | argumentSeparator
  /-- A semicolon or the enclosing character. -/
  | terminator
  /-- A quoted string. -/
  | constant
  /-- A word or an operator symbol. -/
  | keyword
  /-- The end of the text. -/
  | finish
deriving DecidableEq, Repr

/-- A token. The text of a constant is its content; brackets, commas and separators have none. -/
structure Token where
  kind : TokenKind
  text : List Char
  span : Span
  /-- The characters that the token is made of. -/
  source : List Char
deriving Repr

/-- How an expression is written inside its text. -/
structure Quoting where
  escape : Char
  enclosing : Option Char

def Quoting.standard : Quoting := ⟨'\\', none⟩

namespace Text

/-- The number of bytes in the UTF-8 form. -/
def byteLength (text : List Char) : Nat :=
  text.foldr (fun c total => c.utf8Size + total) 0

/-- What follows the first bytes of a text, unless they end inside a character or beyond it. -/
def dropBytes? : Nat → List Char → Option (List Char)
  | 0, text => some text
  | _ + 1, [] => none
  | count + 1, c :: rest =>
    if c.utf8Size ≤ count + 1 then dropBytes? (count + 1 - c.utf8Size) rest else none

end Text

namespace Token

def isSymbolChar (c : Char) : Bool :=
  ['=', '!', '<', '>', '&', '|', '+', '-', '*', '/', '%'].contains c

def isWordChar (c : Char) : Bool :=
  Text.isAlphanumeric c || c == '_' || c == '.' || c == '$'

/-- Symbols of two characters, which go before those of one. -/
def compoundSymbols : List (List Char) :=
  [['=', '='], ['!', '='], ['<', '='], ['>', '='], ['&', '&'], ['|', '|']]

/-- Whether a text is scanned as one keyword. -/
def isSingleKeyword : List Char → Bool
  | [] => false
  | c :: rest =>
    if isSymbolChar c then rest.isEmpty || compoundSymbols.contains (c :: rest)
    else isWordChar c && rest.all isWordChar

def isQuote (c : Char) : Bool :=
  c == '\x27' || c == '\x22'

/-- What an escaped character of a constant stands for. -/
def unescape : Char → Char
  | 'n' => '\n'
  | 't' => '\t'
  | 'r' => '\r'
  | c => c

/-- What is found after the opening quote of a constant, with the number of characters read. -/
inductive ConstantEnd where
  /-- The content, read up to and with the closing quote. -/
  | closed (content : List Char) (length : Nat)
  /-- The constant breaks off. -/
  | unterminated (length : Nat)

/-- Puts some characters, and the content they stand for, in front. -/
def ConstantEnd.after (count : Nat) (content : List Char) : ConstantEnd → ConstantEnd
  | closed content' length => closed (content ++ content') (count + length)
  | unterminated length => unterminated (count + length)

/-- Reads a constant up to its closing quote. An escaped character never ends it; the enclosing
character breaks it off. -/
def readConstant (quoting : Quoting) (quote : Char) : List Char → ConstantEnd
  | [] => .unterminated 0
  | c :: rest =>
    if c == quoting.escape then
      match rest with
      | [] => .unterminated 1
      | escaped :: more => (readConstant quoting quote more).after 2 [unescape escaped]
    else if c == quote then .closed [] 1
    else if some c == quoting.enclosing then .unterminated 0
    else (readConstant quoting quote rest).after 1 [c]

/-- A token at the start of a text. -/
inductive Lexeme where
  /-- Its kind and text, and the number of characters after its first. -/
  | found (kind : TokenKind) (text : List Char) (more : Nat)
  /-- The number of characters after the first that the error is about. -/
  | failed (cause : ParseErrorCause) (more : Nat)

/-- The lexeme that begins with a character and goes on in the text after it. -/
def lexeme (quoting : Quoting) (c : Char) (rest : List Char) : Lexeme :=
  if some c == quoting.enclosing || c == ';' then .found .terminator [c] 0
  else if c == '(' then .found .parenOpen [] 0
  else if c == ')' then .found .parenClose [] 0
  else if c == ',' then .found .argumentSeparator [] 0
  else if isQuote c then
    match readConstant quoting c rest with
    | .closed content length => .found .constant content length
    | .unterminated length => .failed .unterminatedString length
  else if Text.isWhitespace c then
    .found .separator [] (rest.takeWhile Text.isWhitespace).length
  else if isSymbolChar c then
    match rest with
    | d :: _ => if compoundSymbols.contains [c, d] then .found .keyword [c, d] 1
      else .found .keyword [c] 0
    | [] => .found .keyword [c] 0
  else if isWordChar c then
    let tail := rest.takeWhile isWordChar
    .found .keyword (c :: tail) tail.length
  else .failed (.unexpectedCharacter c) 0

/-- The token at the start of a text that begins at a position, and what follows the token. -/
def scan (quoting : Quoting) (position : Nat) : List Char → Except ParseError (Token × List Char)
  | [] => .ok (⟨.finish, [], ⟨position, position⟩, []⟩, [])
  | c :: rest =>
    let spanOf (more : Nat) : Span := ⟨position, position + Text.byteLength (c :: rest.take more)⟩
    match lexeme quoting c rest with
    | .found kind text more => .ok (⟨kind, text, spanOf more, c :: rest.take more⟩, rest.drop more)
    | .failed cause more => .error ⟨cause, spanOf more⟩

/-- A token takes at least one character, unless the text is at its end. -/
theorem scan_shorter {quoting : Quoting} {position : Nat} {text rest : List Char} {token : Token}
    (h : scan quoting position text = .ok (token, rest)) :
    token.kind = .finish ∨ rest.length < text.length := by
  cases text with
  | nil =>
    simp only [scan, Except.ok.injEq, Prod.mk.injEq] at h
    exact Or.inl (by rw [← h.1])
  | cons c more =>
    right
    simp only [scan] at h
    split at h
    · simp only [Except.ok.injEq, Prod.mk.injEq] at h
      rw [← h.2, List.length_drop, List.length_cons]
      omega
    · simp at h

end Token

/-- Where the tokens of an expression end. -/
inductive Stop where
  /-- The end of the text or a terminator. -/
  | reached (span : Span)
  /-- What cannot be scanned. -/
  | failed (error : ParseError)

/-- The tokens of an expression other than separators, and where they end. -/
structure Scan where
  tokens : List Token
  stop : Stop

/-- Scans up to the end of the text, a terminator or an error. -/
def Scan.of (quoting : Quoting) (position : Nat) (text : List Char) : Scan :=
  match h : Token.scan quoting position text with
  | .error error => ⟨[], .failed error⟩
  | .ok (token, rest) =>
    if hk : token.kind = .finish then ⟨[], .reached token.span⟩
    else if token.kind = .terminator then ⟨[], .reached token.span⟩
    else
      have : rest.length < text.length := (Token.scan_shorter h).resolve_left hk
      let following := Scan.of quoting token.span.stop rest
      if token.kind = .separator then following
      else ⟨token :: following.tokens, following.stop⟩
termination_by text.length

/-- The last token that was scanned, kept between scans at arbitrary positions. -/
structure Scanner where
  kind : TokenKind
  text : List Char
  span : Span

def Scanner.initial : Scanner := ⟨.finish, [], ⟨0, 0⟩⟩

/-- Scans the token at a byte position and gives the position after it. A position outside the
text or inside a character is an end. A failed scan forgets the text of the last token only. -/
def Scanner.next (scanner : Scanner) (quoting : Quoting) (code : List Char) (position : Nat) :
    Scanner × Except ParseError Nat :=
  match Token.scan quoting position ((Text.dropBytes? position code).getD []) with
  | .ok (token, _) => (⟨token.kind, token.text, token.span⟩, .ok token.span.stop)
  | .error error => ({ scanner with text := [] }, .error error)

end RowFilter
