import RowFilter.Proofs.Expr.Parsing

/-! # Where expressions and errors stand

Positions count bytes, and a character may have several. Tokens stand one behind another, and an
error is about tokens, about what cannot be scanned behind them or about the place where they end.
So the positions that the parser gives lie between characters of the text, in order, and none is
before the position at which it began.
-/

namespace RowFilter

/-- A byte position at which a character begins or the text ends. -/
def Text.IsBoundary (text : List Char) (position : Nat) : Prop :=
  ∃ before after, text = before ++ after ∧ position = byteLength before

/-- What may stand behind an expression. -/
def Quoting.EndsAt (quoting : Quoting) : List Char → Prop
  | [] => True
  | c :: _ => c = ';' ∨ quoting.enclosing = some c

/-! ## Spans -/

namespace Span

/-- From one boundary of a text to another that is not before it, and not before a position. -/
structure Within (text : List Char) (least : Nat) (span : Span) : Prop where
  least_le : least ≤ span.start
  ordered : span.start ≤ span.stop
  start : Text.IsBoundary text span.start
  stop : Text.IsBoundary text span.stop

variable {text : List Char} {least : Nat} {span : Span}

theorem Within.mono {other : Nat} (h : span.Within text least) (hle : other ≤ least) :
    span.Within text other :=
  { h with least_le := hle.trans h.least_le }

/-- What is taken from the middle of a text lies between the boundaries before and behind it. -/
theorem within_taken (before taken rest : List Char) :
    Within (before ++ (taken ++ rest)) (Text.byteLength before)
      ⟨Text.byteLength before, Text.byteLength before + Text.byteLength taken⟩ where
  least_le := le_rfl
  ordered := Nat.le_add_right _ _
  start := ⟨before, taken ++ rest, rfl, rfl⟩
  stop := ⟨before ++ taken, rest, (List.append_assoc _ _ _).symm, (Text.byteLength_append _ _).symm⟩

end Span

/-! ## Scanned tokens -/

/-- The scan ends only at what may stand behind an expression. -/
theorem Token.endsAt_of_lexeme {quoting : Quoting} {c : Char} {rest text : List Char} {more : Nat}
    (h : lexeme quoting c rest = .found .terminator text more) : quoting.EndsAt (c :: rest) := by
  cases begins_of_lexeme h with
  | terminator hends => exact hends.symm.imp_right Eq.symm
  | bare hkind => simp at hkind

namespace Scan

/-- Tokens of a text, one behind another from a position on, and where they end. -/
inductive Runs (quoting : Quoting) (text : List Char) : Nat → List Token → Stop → Prop
  | reached {position : Nat} {before after : List Char} {span : Span}
      (htext : text = before ++ after) (hstart : span.start = Text.byteLength before)
      (hends : quoting.EndsAt after) (h : span.Within text position) :
      Runs quoting text position [] (.reached span)
  | failed {position : Nat} {error : ParseError} (h : error.span.Within text position) :
      Runs quoting text position [] (.failed error)
  | token {position : Nat} {token : Token} {tokens : List Token} {stop : Stop}
      (h : token.span.Within text position)
      (hrest : Runs quoting text token.span.stop tokens stop) :
      Runs quoting text position (token :: tokens) stop

namespace Runs

variable {quoting : Quoting} {text : List Char} {position : Nat} {tokens : List Token}
  {stop : Stop} {context : Parser.Context}

theorem mono {other : Nat} (h : Runs quoting text position tokens stop) (hle : other ≤ position) :
    Runs quoting text other tokens stop := by
  cases h with
  | reached htext hstart hends h => exact .reached htext hstart hends (h.mono hle)
  | failed h => exact .failed (h.mono hle)
  | token h hrest => exact .token (h.mono hle) hrest

/-- The last of the tokens run from where the first ones started. -/
theorem of_suffix {rest : List Token} (h : Runs quoting text position tokens stop)
    (hrest : rest <:+ tokens) : Runs quoting text position rest stop := by
  induction h with
  | reached htext hstart hends h =>
      obtain rfl := List.suffix_nil.mp hrest
      exact .reached htext hstart hends h
  | failed h =>
      obtain rfl := List.suffix_nil.mp hrest
      exact .failed h
  | token h hmore ih =>
      rcases List.suffix_cons_iff.mp hrest with rfl | hrest
      · exact .token h hmore
      · exact (ih hrest).mono (h.least_le.trans h.ordered)

/-- Where parsing stands lies in the text, not before the first token. -/
theorem within_spanAt (h : Runs quoting text position tokens context.stop) :
    (context.spanAt tokens).Within text position := by
  obtain ⟨vocabulary, stop⟩ := context
  cases h with
  | reached _ _ _ h => exact h
  | failed h => exact h
  | token h _ => exact h

/-- An error about some tokens stands among them. -/
theorem within_of_reports (h : Runs quoting text position tokens context.stop) {span : Span}
    (hreports : context.Reports tokens span) : span.Within text position := by
  cases hreports with
  | next hrest => exact (h.of_suffix hrest).within_spanAt
  | upTo hrest hafter =>
      cases h.of_suffix hrest with
      | token htoken hmore =>
          have hnext := (hmore.of_suffix hafter).within_spanAt
          exact ⟨htoken.least_le, htoken.ordered.trans hnext.least_le, htoken.start, hnext.start⟩

end Runs

/-- Scanning runs through the text, from the position of its beginning in a longer one. -/
theorem runs_of (quoting : Quoting) (before text : List Char) :
    Runs quoting (before ++ text) (Text.byteLength before)
      (of quoting (Text.byteLength before) text).tokens
      (of quoting (Text.byteLength before) text).stop := by
  induction hlength : text.length using Nat.strongRecOn generalizing before text with
  | ind length ih =>
      subst hlength
      cases text with
      | nil =>
          rw [of_nil]
          exact .reached rfl rfl trivial (Span.within_taken before [] [])
      | cons c rest =>
          have hwithin : ∀ more, Span.Within (before ++ c :: rest) (Text.byteLength before)
              ⟨Text.byteLength before,
                Text.byteLength before + Text.byteLength (c :: rest.take more)⟩ := by
            intro more
            have htaken := Span.within_taken before (c :: rest.take more) (rest.drop more)
            rwa [List.cons_append, List.take_append_drop] at htaken
          cases hlexeme : Token.lexeme quoting c rest with
          | failed cause more =>
              rw [of_failed hlexeme]
              exact .failed (hwithin more)
          | found kind content more =>
              by_cases hkind : kind = .terminator
              · subst hkind
                rw [of_terminator hlexeme]
                exact .reached rfl rfl (Token.endsAt_of_lexeme hlexeme) (hwithin more)
              · have hmore := ih _ (by rw [List.length_drop, List.length_cons]; omega)
                  (before ++ c :: rest.take more) (rest.drop more) rfl
                rw [List.append_assoc, List.cons_append, List.take_append_drop,
                  Text.byteLength_append] at hmore
                rw [of_lexeme hlexeme ⟨(Token.isScanned_of_lexeme hlexeme).1, hkind⟩]
                simp only
                split
                next => exact hmore.mono (Nat.le_add_right _ _)
                next => exact .token (hwithin more) hmore

end Scan

/-! ## Parsing -/

/-- Parsing from a boundary of a text comes to an end. It ends at a boundary that is not before it,
where the text does or in front of a semicolon or the enclosing character, or with an error about a
part of the text that is not before it. -/
theorem Expr.parseAt_offsets (vocabulary : Vocabulary) (quoting : Quoting) {code : List Char}
    {start : Nat} (hstart : Text.IsBoundary code start) :
    (∃ parsed, parseAt vocabulary quoting code start = .ok parsed ∧ start ≤ parsed.stop ∧
        ∃ before after, code = before ++ after ∧ parsed.stop = Text.byteLength before ∧
          quoting.EndsAt after) ∨
      ∃ error, parseAt vocabulary quoting code start = .error error ∧
        error.span.Within code start := by
  obtain ⟨before, text, rfl, rfl⟩ := hstart
  have hruns := Scan.runs_of quoting before text
  have hany : Parser.HandsOn fun _ => True := by
    constructor <;> intros <;> trivial
  rw [Scan.parseAt_eq_parse (Text.dropBytes?_append before text)]
  obtain ⟨expr, span, hstop, hparse, -⟩ | ⟨error, herror, hreports⟩ :=
    Scan.parse_settles hany vocabulary (Scan.of quoting (Text.byteLength before) text)
  · rw [hstop] at hruns
    refine .inl ⟨_, hparse, ?_⟩
    cases hruns.of_suffix List.nil_suffix with
    | reached htext hat hends h => exact ⟨h.least_le, _, _, htext, hat, hends⟩
  · exact .inr ⟨error, herror, hruns.within_of_reports hreports⟩

/-- A constant that breaks off, with a character of two bytes in it and one before it. -/
theorem parseAt_offsets_unterminated : Text.IsBoundary "é\x27ü".toList 2 ∧
    Expr.parseAt .standard .standard "é\x27ü".toList 2 = .error ⟨.unterminatedString, ⟨2, 5⟩⟩ ∧
      Span.Within "é\x27ü".toList 2 ⟨2, 5⟩ := by
  have hboundary : Text.IsBoundary "é\x27ü".toList 2 := ⟨['é'], ['\x27', 'ü'], rfl, rfl⟩
  have hlexeme : Token.lexeme .standard '\x27' ['ü'] = .failed .unterminatedString 1 := rfl
  have hfails : Expr.parseAt .standard .standard "é\x27ü".toList 2 =
      .error ⟨.unterminatedString, ⟨2, 5⟩⟩ := by
    refine (Scan.parseAt_eq_parse (Text.dropBytes?_append ['é'] ['\x27', 'ü'])).trans ?_
    rw [Scan.of_failed hlexeme]
    rfl
  refine ⟨hboundary, hfails, ?_⟩
  obtain ⟨_, hparse, -⟩ | ⟨error, herror, hwithin⟩ :=
    Expr.parseAt_offsets .standard .standard hboundary
  · cases hparse.symm.trans hfails
  · cases herror.symm.trans hfails
    exact hwithin

end RowFilter
