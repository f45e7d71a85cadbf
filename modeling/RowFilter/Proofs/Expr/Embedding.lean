import RowFilter.Proofs.Expr.Relocation
import RowFilter.Proofs.Expr.RoundTrip

/-! # Expressions inside other texts

An expression ends at the character that encloses it or at a semicolon. No token that begins before
such a character goes on into it, unless it is a constant that takes it in, and then the end is not
found where the expression ends. So what stands around an expression does not show in its tokens.
-/

namespace RowFilter

/-- The character ends an expression and belongs to no token that begins before it. -/
structure Quoting.Delimits (quoting : Quoting) (close : Char) : Prop where
  ends : some close = quoting.enclosing ∨ close = ';'
  space : Text.isWhitespace close = false
  word : Token.isWordChar close = false
  equals : close ≠ '='

namespace Token

variable {quoting : Quoting} {close c quote : Char} {rest after : List Char}

/-! ## Constants -/

namespace ConstantEnd

/-- What becomes of the end of a constant when a text of some length goes on: a closed constant
stays, and one that breaks off is closed, if at all, only behind the text. -/
def Extends (bound : Nat) (found whole : ConstantEnd) : Prop :=
  match found with
  | closed content length => whole = closed content length ∧ length ≤ bound
  | unterminated _ => ∀ content length, whole = closed content length → bound < length

theorem after_eq_closed {count length : Nat} {content text : List Char} {found : ConstantEnd}
    (h : found.after count content = .closed text length) :
    ∃ text' length', found = .closed text' length' ∧ length = count + length' := by
  cases found with
  | closed text' length' =>
      cases h
      exact ⟨text', length', rfl, rfl⟩
  | unterminated length' => cases h

theorem Extends.prepend {bound : Nat} {found whole : ConstantEnd} (h : found.Extends bound whole)
    (count : Nat) (content : List Char) :
    (found.after count content).Extends (bound + count) (whole.after count content) := by
  cases found with
  | closed text length =>
      obtain ⟨rfl, hlength⟩ := h
      exact ⟨rfl, by omega⟩
  | unterminated length =>
      intro text length' hwhole
      obtain ⟨text', length'', hclosed, rfl⟩ := after_eq_closed hwhole
      have hbound := h text' length'' hclosed
      omega

end ConstantEnd
/-- Closing a constant takes its quote at least. -/
theorem length_pos_of_closed {content : List Char} {length : Nat}
    (h : readConstant quoting quote rest = .closed content length) : 0 < length := by
  unfold readConstant at h
  split at h
  next => cases h
  next =>
    split at h
    next =>
      split at h
      next => cases h
      next =>
        obtain ⟨_, length', -, rfl⟩ := ConstantEnd.after_eq_closed h
        omega
    next =>
      split at h
      next =>
        cases h
        exact Nat.one_pos
      next =>
        split at h
        next => cases h
        next =>
          obtain ⟨_, length', -, rfl⟩ := ConstantEnd.after_eq_closed h
          omega

/-- What follows a text changes nothing about a constant, unless it breaks off there. -/
theorem readConstant_append (quoting : Quoting) (quote : Char) (rest after : List Char) :
    (readConstant quoting quote rest).Extends rest.length
      (readConstant quoting quote (rest ++ after)) := by
  fun_induction readConstant quoting quote rest with
  | case1 => exact fun content length hwhole => length_pos_of_closed hwhole
  | case2 c hescape =>
      intro content length hwhole
      rw [List.singleton_append, readConstant.eq_def] at hwhole
      simp only [if_pos hescape] at hwhole
      split at hwhole
      next => cases hwhole
      next =>
        obtain ⟨_, length', -, rfl⟩ := ConstantEnd.after_eq_closed hwhole
        rw [List.length_singleton]
        omega
  | case3 c hescape escaped more ih =>
      rw [List.cons_append, List.cons_append, readConstant, if_pos hescape]
      exact ih.prepend 2 _
  | case4 c more hescape hquote =>
      rw [List.cons_append, readConstant.eq_def]
      simp only [if_neg hescape, if_pos hquote]
      exact ⟨rfl, Nat.succ_pos _⟩
  | case5 c more hescape hquote henclosing =>
      rw [List.cons_append, readConstant.eq_def]
      simp only [if_neg hescape, if_neg hquote, if_pos henclosing]
      rintro content length ⟨⟩
  | case6 c more hescape hquote henclosing ih =>
      rw [List.cons_append, readConstant.eq_def quoting quote (c :: (more ++ after))]
      simp only [if_neg hescape, if_neg hquote, if_neg henclosing]
      exact ih.prepend 1 _

/-! ## Tokens -/

theorem takeWhile_append_close {p : Char → Bool} (hclose : p close = false)
    (text after : List Char) : (text ++ close :: after).takeWhile p = text.takeWhile p := by
  induction text with
  | nil => rw [List.nil_append, List.takeWhile_cons_of_neg (by simp [hclose]), List.takeWhile_nil]
  | cons c text ih =>
      rw [List.cons_append, List.takeWhile_cons, List.takeWhile_cons, ih]

/-- The second character of a compound symbol is the first one again or an equals sign. -/
theorem eq_of_compound {c d : Char} (h : compoundSymbols.contains [c, d] = true) :
    d = '=' ∨ c = d := by
  have hmem := List.contains_iff_mem.mp h
  simp only [compoundSymbols, List.mem_cons, List.cons.injEq, and_true, List.not_mem_nil,
    or_false] at hmem
  rcases hmem with ⟨-, rfl⟩ | ⟨-, rfl⟩ | ⟨-, rfl⟩ | ⟨-, rfl⟩ | ⟨rfl, rfl⟩ | ⟨rfl, rfl⟩ <;> simp

/-- What becomes of a lexeme when a text of some length goes on: a token stays, and what is none
becomes one, if at all, only with what stands behind the text. -/
def Lexeme.Extends (bound : Nat) (found whole : Lexeme) : Prop :=
  match found with
  | .found kind text more => whole = .found kind text more ∧ more ≤ bound
  | .failed _ _ => ∀ kind text more, whole = .found kind text more → bound < more

/-- A symbol does not go on into a delimiter. -/
theorem not_compound_delimiter (hclose : quoting.Delimits close)
    (hends : ¬(some c == quoting.enclosing || c == ';') = true) :
    ¬compoundSymbols.contains [c, close] = true := by
  intro hcontains
  rcases eq_of_compound hcontains with heq | rfl
  · exact hclose.equals heq
  · -- The first character would have ended the expression.
    simp only [Bool.or_eq_true, beq_iff_eq] at hends
    exact hends hclose.ends

/-- A delimiter behind a text, and what follows it, change nothing about a token that begins in the
text, unless a constant breaks off there. -/
theorem lexeme_append (hclose : quoting.Delimits close) (c : Char) (rest after : List Char) :
    (lexeme quoting c rest).Extends rest.length
      (lexeme quoting c (rest ++ close :: after)) := by
  -- One case for each way in which a token begins, in the order in which they are tried.
  unfold lexeme
  split_ifs with hends hopen hparen hcomma hquote hspace hsymbol hword
  · exact ⟨rfl, Nat.zero_le _⟩
  · exact ⟨rfl, Nat.zero_le _⟩
  · exact ⟨rfl, Nat.zero_le _⟩
  · exact ⟨rfl, Nat.zero_le _⟩
  · have hread := readConstant_append quoting c rest (close :: after)
    cases hfound : readConstant quoting c rest with
    | closed content length =>
        rw [hfound] at hread
        rw [hread.1]
        exact ⟨rfl, hread.2⟩
    | unterminated length =>
        rw [hfound] at hread
        intro kind text more hwhole
        split at hwhole
        next content length hclosed =>
          cases hwhole
          exact hread _ _ hclosed
        next => cases hwhole
  · rw [takeWhile_append_close hclose.space]
    exact ⟨rfl, (List.takeWhile_prefix _).length_le⟩
  · cases rest with
    | nil => exact ⟨if_neg (not_compound_delimiter hclose hends), Nat.le_refl _⟩
    | cons d rest =>
        simp only [List.cons_append]
        split
        next => exact ⟨rfl, Nat.succ_pos _⟩
        next => exact ⟨rfl, Nat.zero_le _⟩
  · simp only [takeWhile_append_close hclose.word]
    exact ⟨rfl, (List.takeWhile_prefix _).length_le⟩
  · rintro kind text more ⟨⟩

end Token

/-! ## Scans -/

namespace Scan

variable {quoting : Quoting} {close : Char}

/-- The tokens have the given shapes, and they end without an error at the given position. -/
def Covers (scan : Scan) (stop : Nat) (shapes : List Shape) : Prop :=
  (∃ span, scan.stop = .reached span ∧ span.start = stop) ∧ scan.tokens.map Token.shape = shapes

theorem of_nil (position : Nat) :
    of quoting position [] = ⟨[], .reached ⟨position, position⟩⟩ := by
  rw [of]
  rfl

/-- The tokens end at a character that ends the expression. -/
theorem of_terminator {c : Char} {rest text : List Char} {more : Nat}
    (h : Token.lexeme quoting c rest = .found .terminator text more) (position : Nat) :
    of quoting position (c :: rest) =
      ⟨[], .reached ⟨position, position + Text.byteLength (c :: rest.take more)⟩⟩ := by
  have hscan : Token.scan quoting position (c :: rest) = .ok
      (⟨.terminator, text, ⟨position, position + Text.byteLength (c :: rest.take more)⟩,
        c :: rest.take more⟩, rest.drop more) := by
    rw [Token.scan, h]
  rw [of]
  split
  next heq => cases heq.symm.trans hscan
  next heq =>
    cases heq.symm.trans hscan
    rfl

/-- What cannot be scanned ends the tokens with an error. -/
theorem of_failed {c : Char} {rest : List Char} {cause : ParseErrorCause} {more : Nat}
    (h : Token.lexeme quoting c rest = .failed cause more) (position : Nat) :
    of quoting position (c :: rest) = ⟨[], .failed
      ⟨cause, ⟨position, position + Text.byteLength (c :: rest.take more)⟩⟩⟩ := by
  have hscan : Token.scan quoting position (c :: rest) = .error
      ⟨cause, ⟨position, position + Text.byteLength (c :: rest.take more)⟩⟩ := by
    rw [Token.scan, h]
  rw [of]
  split
  next heq =>
    cases heq.symm.trans hscan
    rfl
  next heq => cases heq.symm.trans hscan

theorem covers_nil {position stop : Nat} {shapes : List Shape} :
    (of quoting position []).Covers stop shapes ↔ position = stop ∧ [] = shapes := by
  simp [of_nil, Covers]

theorem covers_terminator {c : Char} {rest content : List Char} {more : Nat}
    (h : Token.lexeme quoting c rest = .found .terminator content more) {position stop : Nat}
    {shapes : List Shape} :
    (of quoting position (c :: rest)).Covers stop shapes ↔ position = stop ∧ [] = shapes := by
  simp [of_terminator h, Covers]

theorem not_covers_failed {c : Char} {rest : List Char} {cause : ParseErrorCause} {more : Nat}
    (h : Token.lexeme quoting c rest = .failed cause more) {position stop : Nat}
    {shapes : List Shape} : ¬(of quoting position (c :: rest)).Covers stop shapes := by
  simp [of_failed h position, Covers]

/-- Behind one token, unless it is a separator, come the others. -/
theorem covers_lexeme {c : Char} {rest content : List Char} {kind : TokenKind} {more : Nat}
    (h : Token.lexeme quoting c rest = .found kind content more) (hkind : kind ≠ .terminator)
    {position stop : Nat} {shapes : List Shape} :
    (of quoting position (c :: rest)).Covers stop shapes ↔
      ∃ others, shapes = (if kind = .separator then others else (kind, content) :: others) ∧
        (of quoting (position + Text.byteLength (c :: rest.take more)) (rest.drop more)).Covers stop
          others := by
  rw [of_lexeme h ⟨(Token.isScanned_of_lexeme h).1, hkind⟩]
  simp only
  split
  next => simp
  next =>
    rw [Covers, after, List.map_append, List.map_singleton, List.singleton_append]
    constructor
    · rintro ⟨hstop, rfl⟩
      exact ⟨_, rfl, hstop, rfl⟩
    · rintro ⟨_, rfl, hstop, rfl⟩
      exact ⟨hstop, rfl⟩

/-- Tokens do not end before the place where they begin. -/
theorem le_of_covers {position stop : Nat} {text : List Char} {shapes : List Shape}
    (h : (of quoting position text).Covers stop shapes) : position ≤ stop := by
  induction hlength : text.length using Nat.strongRecOn generalizing position text shapes with
  | ind length ih =>
      subst hlength
      cases text with
      | nil => exact (covers_nil.mp h).1.le
      | cons c rest =>
          cases hlexeme : Token.lexeme quoting c rest with
          | failed cause more => exact absurd h (not_covers_failed hlexeme)
          | found kind content more =>
              by_cases hkind : kind = .terminator
              · subst hkind
                exact ((covers_terminator hlexeme).mp h).1.le
              · obtain ⟨others, -, hothers⟩ := (covers_lexeme hlexeme hkind).mp h
                have hle := ih _ (by rw [List.length_drop, List.length_cons]; omega) hothers rfl
                omega

/-- A token that goes beyond a text goes beyond its bytes. -/
theorem byteLength_lt_take {rest : List Char} {more : Nat} (h : rest.length < more) (close : Char)
    (after : List Char) :
    Text.byteLength rest < Text.byteLength ((rest ++ close :: after).take more) := by
  obtain ⟨beyond, rfl⟩ := Nat.exists_eq_add_of_lt h
  have hpositive := Char.utf8Size_pos close
  rw [List.take_append, List.take_of_length_le (by omega), Text.byteLength_append,
    show rest.length + beyond + 1 - rest.length = beyond + 1 by omega, List.take_succ_cons,
    Text.byteLength_cons]
  omega

/-- Some tokens end where a delimiter follows a text exactly if the text has these tokens and ends
with them when it stands alone, at any position. -/
theorem covers_append_iff (hclose : quoting.Delimits close) (text after : List Char)
    (position other : Nat) (shapes : List Shape) :
    (of quoting position (text ++ close :: after)).Covers (position + Text.byteLength text) shapes ↔
      (of quoting other text).Covers (other + Text.byteLength text) shapes := by
  induction hlength : text.length using Nat.strongRecOn generalizing position other text shapes with
  | ind length ih =>
      subst hlength
      cases text with
      | nil =>
          have hends : Token.lexeme quoting close after = .found .terminator [close] 0 := by
            refine if_pos ?_
            simpa using hclose.ends
          rw [List.nil_append, covers_terminator hends, covers_nil]
          simp [Text.byteLength]
      | cons c rest =>
          have hpositive := Char.utf8Size_pos c
          rw [List.cons_append]
          have hextends := Token.lexeme_append hclose c rest after
          cases hlexeme : Token.lexeme quoting c rest with
          | failed cause more =>
              rw [hlexeme] at hextends
              refine iff_of_false ?_ (not_covers_failed hlexeme)
              cases hwhole : Token.lexeme quoting c (rest ++ close :: after) with
              | failed cause more => exact not_covers_failed hwhole
              | found kind content more =>
                  intro h
                  -- A token that takes in the delimiter begins before it and ends behind it.
                  have hbeyond := byteLength_lt_take (hextends _ _ _ hwhole) close after
                  by_cases hkind : kind = .terminator
                  · subst hkind
                    have hstop := ((covers_terminator hwhole).mp h).1
                    rw [Text.byteLength_cons] at hstop
                    omega
                  · obtain ⟨others, -, hothers⟩ := (covers_lexeme hwhole hkind).mp h
                    have hle := le_of_covers hothers
                    simp only [Text.byteLength_cons] at hle
                    omega
          | found kind content more =>
              rw [hlexeme] at hextends
              obtain ⟨hwhole, hmore⟩ := hextends
              by_cases hkind : kind = .terminator
              · subst hkind
                rw [covers_terminator hwhole, covers_terminator hlexeme, Text.byteLength_cons]
                refine iff_of_false ?_ ?_ <;> omega
              · have hsplit : Text.byteLength (c :: rest) =
                    Text.byteLength (c :: rest.take more) + Text.byteLength (rest.drop more) := by
                  rw [← Text.byteLength_append, List.cons_append, List.take_append_drop]
                rw [covers_lexeme hwhole hkind, covers_lexeme hlexeme hkind,
                  List.take_append_of_le_length hmore, List.drop_append_of_le_length hmore, hsplit,
                  ← Nat.add_assoc, ← Nat.add_assoc]
                refine exists_congr fun others => and_congr_right fun _ => ?_
                exact ih _ (by rw [List.length_drop, List.length_cons]; omega) _ _ _ _ rfl

/-! ## Parsing what is scanned -/

variable {vocabulary : Vocabulary} {expr : Option Expr}

/-- What is parsed from scanned tokens. -/
def parse (vocabulary : Vocabulary) (scan : Scan) : Except ParseError Parsed := do
  let context : Parser.Context := ⟨vocabulary, scan.stop⟩
  scan.stop.arrive scan.tokens
  match scan.tokens with
  | [] => return ⟨none, scan.stop.span.start⟩
  | tokens =>
    let step ← Parser.chain context .disjunctions tokens
    match step.rest with
    | [] => return ⟨some step.value, scan.stop.span.start⟩
    | rest => throw (context.unexpected rest)

/-- Parsing at a start is scanning from there and parsing the tokens. -/
theorem parseAt_eq_parse {code text : List Char} {start : Nat}
    (h : Text.dropBytes? start code = some text) :
    Expr.parseAt vocabulary quoting code start = (of quoting start text).parse vocabulary := by
  rw [Expr.parseAt, h]
  rfl

theorem reached_of_arrive {stop : Stop} (h : stop.arrive [] = .ok ()) :
    ∃ span, stop = .reached span ∧ span = stop.span := by
  cases stop with
  | reached span => exact ⟨span, rfl, rfl⟩
  | failed error => cases h

/-- What is parsed from some tokens is parsed from them in another place, up to where they end
there. They end without an error in both. -/
theorem parse_moved {scan other : Scan} (hmoved : Moved scan.tokens other.tokens) {span : Span}
    (hspan : other.stop = .reached span) {stop : Nat}
    (h : scan.parse vocabulary = .ok ⟨expr, stop⟩) :
    (∃ span, scan.stop = .reached span ∧ span.start = stop) ∧
      other.parse vocabulary = .ok ⟨expr, span.start⟩ := by
  obtain ⟨tokens, reached⟩ := scan
  obtain ⟨others, _⟩ := other
  dsimp only at hmoved hspan
  subst hspan
  obtain ⟨_, harrive, h⟩ := bind_eq_ok.mp h
  dsimp only at harrive h ⊢
  cases hmoved with
  | nil =>
      obtain ⟨found, hfound, heq⟩ := reached_of_arrive harrive
      cases h
      exact ⟨⟨found, hfound, congrArg Span.start heq⟩, rfl⟩
  | @cons token moved rest more hshape hrest =>
      have hmove : Parser.Relocates ⟨vocabulary, reached⟩ ⟨vocabulary, .reached span⟩ :=
        ⟨rfl, span, rfl⟩
      obtain ⟨step, hstep, h⟩ := bind_eq_ok.mp h
      obtain ⟨hleft, movedStep, hmovedStep, hsame⟩ := Parser.chain_carries hmove .disjunctions _ _
        (.cons hshape hrest) step hstep
      have hrests := hsame.rest
      have hvalue := hsame.value
      split at h
      next hnil =>
        -- Nothing is left in one place, so nothing is left in the other.
        cases h
        rw [hnil] at hleft hrests
        obtain ⟨found, hfound, heq⟩ := reached_of_arrive hleft
        refine ⟨⟨found, hfound, congrArg Span.start heq⟩, ?_⟩
        refine bind_eq_ok.mpr ⟨(), rfl, bind_eq_ok.mpr ⟨movedStep, hmovedStep, ?_⟩⟩
        rw [List.forall₂_nil_left_iff.mp hrests, hvalue]
        rfl
      next => cases h

theorem moved_refl (tokens : List Token) : Moved tokens tokens :=
  List.forall₂_same.mpr fun _ _ => rfl

theorem moved_of_map_eq {tokens others : List Token}
    (h : tokens.map Token.shape = others.map Token.shape) : Moved tokens others := by
  rw [← List.forall₂_eq_eq_eq, List.forall₂_map_left_iff, List.forall₂_map_right_iff] at h
  exact h

/-- A scan that covers what another covers gives what the other gives, up to its own end. -/
theorem parse_of_covers {scan other : Scan} {stop stop' : Nat}
    (hcovers : ∀ shapes, scan.Covers stop shapes → other.Covers stop' shapes)
    (h : scan.parse vocabulary = .ok ⟨expr, stop⟩) :
    other.parse vocabulary = .ok ⟨expr, stop'⟩ := by
  have hself : Moved scan.tokens (Scan.mk scan.tokens (.reached ⟨0, 0⟩)).tokens := moved_refl _
  obtain ⟨hreached, -⟩ := parse_moved hself rfl h
  obtain ⟨⟨span, hspan, rfl⟩, hshapes⟩ := hcovers _ ⟨hreached, rfl⟩
  exact (parse_moved (moved_of_map_eq hshapes.symm) hspan h).2

end Scan

/-- What is left behind a prefix of a text is the rest of it. -/
theorem Text.dropBytes?_append (before text : List Char) :
    dropBytes? (byteLength before) (before ++ text) = some text := by
  induction before with
  | nil => exact dropBytes?.eq_1 text
  | cons c rest ih =>
      have hpositive := Char.utf8Size_pos c
      obtain ⟨count, hcount⟩ := Nat.exists_eq_add_of_lt
        (show 0 < byteLength (c :: rest) by rw [byteLength_cons]; omega)
      rw [Nat.zero_add] at hcount
      have hle : c.utf8Size ≤ count + 1 := by
        rw [← hcount, byteLength_cons]
        omega
      have hrest : count + 1 - c.utf8Size = byteLength rest := by
        rw [← hcount, byteLength_cons]
        omega
      rw [hcount, List.cons_append, dropBytes?, if_pos hle, hrest, ih]

/-- An expression before the character that encloses it, or before a semicolon, is parsed as if it
stood alone, whatever stands around it. The enclosing character must not be able to go on a word, a
separator or a symbol. -/
theorem Expr.parseAt_embedded_iff (vocabulary : Vocabulary) (escape : Char) {enclosing : Char}
    (hspace : Text.isWhitespace enclosing = false) (hword : Token.isWordChar enclosing = false)
    (hequals : enclosing ≠ '=') {close : Char} (hclose : close = enclosing ∨ close = ';')
    (before text after : List Char) (expr : Option Expr) :
    Expr.parseAt vocabulary ⟨escape, some enclosing⟩ (before ++ text ++ close :: after)
        (Text.byteLength before) = .ok ⟨expr, Text.byteLength before + Text.byteLength text⟩ ↔
      Expr.parseAt vocabulary ⟨escape, some enclosing⟩ text 0 =
        .ok ⟨expr, Text.byteLength text⟩ := by
  have hdelimits : Quoting.Delimits ⟨escape, some enclosing⟩ close := by
    rcases hclose with rfl | rfl
    · exact ⟨.inl rfl, hspace, hword, hequals⟩
    · exact ⟨.inr rfl, by decide, by decide, by decide⟩
  have hcovers := Scan.covers_append_iff hdelimits text after (Text.byteLength before) 0
  rw [List.append_assoc, Scan.parseAt_eq_parse (Text.dropBytes?_append before _),
    Scan.parseAt_eq_parse (Text.dropBytes?.eq_1 text)]
  rw [Nat.zero_add] at hcovers
  constructor
  · exact Scan.parse_of_covers fun shapes => (hcovers shapes).mp
  · exact Scan.parse_of_covers fun shapes => (hcovers shapes).mpr

/-- A word between braces, behind a character of two bytes and before what is no expression. -/
theorem parseAt_braced_word :
    Expr.parseAt .standard ⟨'\\', some '}'⟩
      ("é\x7b".toList ++ ['a'] ++ '}' :: "\x7d == 'c".toList) 3 =
      .ok ⟨some (.reference "a" .any), 4⟩ := by
  have hword : Expr.IsPathWord ['a'] := Expr.isPathWord_letter (by decide)
  have hscan : Scan.of ⟨'\\', some '}'⟩ 0 ['a'] =
      ⟨[⟨.keyword, ['a'], ⟨0, 1⟩, ['a']⟩], .reached ⟨1, 1⟩⟩ := by
    have hlexeme : Token.lexeme ⟨'\\', some '}'⟩ 'a' [] = .found .keyword ['a'] 0 := rfl
    rw [Scan.of_lexeme hlexeme (by decide)]
    exact congrArg (Scan.after _) (Scan.of_nil 1)
  have hderives : Derives (.chain .disjunctions) [(.keyword, ['a'])] (.reference "a" .any) := by
    have hmeaning : Shape.meaning (.keyword, ['a']) = none := (if_pos rfl).trans hword.unknown
    refine .single (.single (.plain ?_ (.uncompared (Expr.derives_word hword))))
    rintro _ ⟨⟩
    simp [hmeaning]
  have halone : Expr.parseAt .standard ⟨'\\', some '}'⟩ ['a'] 0 =
      .ok ⟨some (.reference "a" .any), 1⟩ := by
    have hread : Parser.IsRead ⟨1, 1⟩ (.chain .disjunctions) [(.keyword, ['a'])] _ :=
      Parser.isRead_of_derives hderives
    obtain ⟨_, hchain⟩ := Parser.readsAt_of_continues hread
      [⟨.keyword, ['a'], ⟨0, 1⟩, ['a']⟩] [] rfl (Parser.Follows.nil 1)
    rw [Scan.parseAt_eq_parse (Text.dropBytes?.eq_1 _), hscan]
    exact bind_eq_ok.mpr ⟨(), rfl, bind_eq_ok.mpr ⟨_, hchain, rfl⟩⟩
  exact (Expr.parseAt_embedded_iff .standard '\\' (by decide) (by decide) (by decide) (.inl rfl)
    "é\x7b".toList ['a'] "\x7d == 'c".toList _).mpr halone

end RowFilter
