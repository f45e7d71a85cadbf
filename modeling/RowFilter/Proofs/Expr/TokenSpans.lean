import RowFilter.Proofs.Expr.Offsets

/-! # The spans of tokens

A scan at a boundary of a text comes to the end of the text, or takes at least one character and
stops at a boundary behind it. So scanning over and over, each time from where the last token ended,
takes no more tokens than there are characters, and their spans stand one behind another up to the
end of the text or the place of the error.
-/

namespace RowFilter

/-- Spans one behind another, from one position up to another, none of them empty. -/
inductive Span.Tiles : Nat → List Span → Nat → Prop
  | nil (position : Nat) : Tiles position [] position
  | cons {position stop : Nat} {span : Span} {rest : List Span} (hstart : span.start = position)
      (hlt : position < span.stop) (hrest : Tiles span.stop rest stop) :
      Tiles position (span :: rest) stop

theorem Text.byteLength_pos {text : List Char} (h : text ≠ []) : 0 < byteLength text := by
  obtain ⟨c, rest, rfl⟩ := List.exists_cons_of_ne_nil h
  rw [byteLength_cons]
  have hpositive := Char.utf8Size_pos c
  omega

theorem Text.IsBoundary.le {text : List Char} {position : Nat} (h : IsBoundary text position) :
    position ≤ byteLength text := by
  obtain ⟨before, after, rfl, rfl⟩ := h
  rw [byteLength_append]
  exact Nat.le_add_right _ _

/-- An error of the scanner is about what starts where it stands. -/
theorem Token.span_of_scan_error {quoting : Quoting} {position : Nat} {text : List Char}
    {error : ParseError} (h : scan quoting position text = .error error) :
    error.span.start = position := by
  cases text with
  | nil => cases h
  | cons c tail =>
      simp only [scan] at h
      split at h
      next => cases h
      next =>
        cases h
        rfl

namespace Scanner

/-! ## One scan -/

/-- The token of a scanner stands between two positions of a text, and a keyword is what stands
there. -/
structure Spans (scanner : Scanner) (code : List Char) (position stop : Nat) : Prop where
  kind : scanner.kind ≠ .finish
  lt : position < stop
  boundary : Text.IsBoundary code stop
  le : stop ≤ Text.byteLength code
  span : scanner.span = ⟨position, stop⟩
  keyword : scanner.kind = .keyword → ∃ before after, code = before ++ (scanner.text ++ after) ∧
    position = Text.byteLength before ∧ stop = position + Text.byteLength scanner.text

variable {scanner next : Scanner} {quoting : Quoting} {before remaining : List Char}

/-- The scanner moves to the end of the token that it found. -/
theorem next_of_scan {token : Token} {rest : List Char}
    (h : Token.scan quoting (Text.byteLength before) remaining = .ok (token, rest)) :
    scanner.next quoting (before ++ remaining) (Text.byteLength before) =
      (⟨token.kind, token.text, token.span⟩, .ok token.span.stop) := by
  rw [Scanner.next, Text.dropBytes?_append, Option.getD_some, h]

theorem next_of_scan_error {error : ParseError}
    (h : Token.scan quoting (Text.byteLength before) remaining = .error error) :
    scanner.next quoting (before ++ remaining) (Text.byteLength before) =
      ({ scanner with text := [] }, .error error) := by
  rw [Scanner.next, Text.dropBytes?_append, Option.getD_some, h]

/-- A successful scan is at the end, or it takes some of the characters that remain. -/
theorem exists_taken {stop : Nat}
    (h : scanner.next quoting (before ++ remaining) (Text.byteLength before) = (next, .ok stop)) :
    next.kind = .finish ∧ remaining = [] ∧ stop = Text.byteLength before ∨
      ∃ taken rest, taken ≠ [] ∧ remaining = taken ++ rest ∧
        stop = Text.byteLength (before ++ taken) ∧
        next.Spans (before ++ remaining) (Text.byteLength before) stop := by
  cases hscan : Token.scan quoting (Text.byteLength before) remaining with
  | error error => cases (next_of_scan_error hscan).symm.trans h
  | ok found =>
      obtain ⟨token, rest⟩ := found
      cases (next_of_scan hscan).symm.trans h
      obtain ⟨hsource, hspan, hempty, htext⟩ := Token.source_of_scan hscan
      by_cases hkind : token.kind = .finish
      · obtain ⟨rfl, hend⟩ := Token.scan_finish hscan hkind
        exact .inl ⟨hkind, rfl, by rw [hend]⟩
      · have hne := fun hnil => hkind (hempty hnil)
        have hpositive := Text.byteLength_pos hne
        have hboundary : Text.IsBoundary (before ++ remaining) token.span.stop := by
          refine ⟨before ++ token.source, rest, ?_, ?_⟩
          · rw [hsource, List.append_assoc]
          · rw [hspan, Text.byteLength_append]
        refine .inr ⟨token.source, rest, hne, hsource, ?_, hkind, ?_, hboundary, hboundary.le, ?_,
          fun hkeyword => ⟨before, rest, ?_, rfl, ?_⟩⟩
        · rw [hspan, Text.byteLength_append]
        · rw [hspan]
          exact Nat.lt_add_of_pos_right hpositive
        · rw [hspan]
        · rw [htext hkeyword, hsource]
        · rw [htext hkeyword, hspan]

/-- An error of the scanner starts where the scanner stands. -/
theorem start_of_next_error {error : ParseError}
    (h : scanner.next quoting (before ++ remaining) (Text.byteLength before) =
      (next, .error error)) : error.span.start = Text.byteLength before := by
  cases hscan : Token.scan quoting (Text.byteLength before) remaining with
  | ok found => cases (next_of_scan hscan).symm.trans h
  | error other =>
      cases (next_of_scan_error hscan).symm.trans h
      exact Token.span_of_scan_error hscan

/-! ## One scan after another -/

/-- Scanning over and over from a position, each time from where the last token ended, up to the end
of the text or an error: the spans of the tokens, and what the last scan gives. -/
inductive Runs (quoting : Quoting) (code : List Char) :
    Scanner → Nat → List Span → Except ParseError Nat → Prop
  | finished {scanner next : Scanner} {position stop : Nat}
      (h : scanner.next quoting code position = (next, .ok stop)) (hkind : next.kind = .finish) :
      Runs quoting code scanner position [] (.ok stop)
  | failed {scanner next : Scanner} {position : Nat} {error : ParseError}
      (h : scanner.next quoting code position = (next, .error error)) :
      Runs quoting code scanner position [] (.error error)
  | token {scanner next : Scanner} {position stop : Nat} {spans : List Span}
      {outcome : Except ParseError Nat} (h : scanner.next quoting code position = (next, .ok stop))
      (hkind : next.kind ≠ .finish) (hrest : Runs quoting code next stop spans outcome) :
      Runs quoting code scanner position (next.span :: spans) outcome

/-- Where scanning comes to its end: at the end of the text, or at what cannot be scanned. -/
def endOf : Except ParseError Nat → Nat
  | .ok stop => stop
  | .error error => error.span.start

variable {spans : List Span} {outcome : Except ParseError Nat}

/-- The tokens of a run stand one behind another, and each takes a character. -/
theorem Runs.tiles
    (h : Runs quoting (before ++ remaining) scanner (Text.byteLength before) spans outcome) :
    Span.Tiles (Text.byteLength before) spans (endOf outcome) ∧
      spans.length ≤ remaining.length ∧
      ∀ stop, outcome = .ok stop → stop = Text.byteLength (before ++ remaining) := by
  generalize hcode : before ++ remaining = code at h
  generalize hposition : Text.byteLength before = position at h ⊢
  induction h generalizing before remaining with
  | finished h hkind =>
      subst hcode hposition
      obtain ⟨-, rfl, rfl⟩ | ⟨_, _, _, _, _, hspans⟩ := exists_taken h
      · refine ⟨.nil _, Nat.zero_le _, ?_⟩
        rintro _ ⟨⟩
        rw [List.append_nil]
      · exact absurd hkind hspans.kind
  | failed h =>
      subst hcode hposition
      refine ⟨?_, Nat.zero_le _, nofun⟩
      rw [endOf, start_of_next_error h]
      exact .nil _
  | token h hkind hrest ih =>
      subst hcode hposition
      obtain ⟨hfinish, -, -⟩ | ⟨taken, rest, hne, rfl, rfl, hspans⟩ := exists_taken h
      · exact absurd hfinish hkind
      · obtain ⟨htiles, hlength, hend⟩ := ih (List.append_assoc _ _ _) rfl
        have hpositive := List.length_pos_of_ne_nil hne
        refine ⟨.cons ?_ ?_ ?_, ?_, hend⟩
        · rw [hspans.span]
        · rw [hspans.span]
          exact hspans.lt
        · rw [hspans.span]
          exact htiles
        · rw [List.length_cons, List.length_append]
          omega

theorem exists_runs (scanner : Scanner) (quoting : Quoting) (before remaining : List Char) :
    ∃ spans outcome,
      Runs quoting (before ++ remaining) scanner (Text.byteLength before) spans outcome := by
  induction hlength : remaining.length using Nat.strongRecOn
    generalizing scanner before remaining with
  | ind length ih =>
      subst hlength
      rcases hnext : scanner.next quoting (before ++ remaining) (Text.byteLength before) with
        ⟨next, error | stop⟩
      · exact ⟨[], _, .failed hnext⟩
      · obtain ⟨hkind, -, -⟩ | ⟨taken, rest, hne, rfl, rfl, hspans⟩ := exists_taken hnext
        · exact ⟨[], _, .finished hnext hkind⟩
        · have hshorter : rest.length < (taken ++ rest).length := by
            rw [List.length_append]
            exact Nat.lt_add_of_pos_left (List.length_pos_of_ne_nil hne)
          obtain ⟨spans, outcome, hruns⟩ := ih _ hshorter next (before ++ taken) rest rfl
          rw [List.append_assoc] at hruns
          exact ⟨_, outcome, .token hnext hspans.kind hruns⟩

/-- A successful scan from a boundary of a text is at its end, or gives a token that stands between
the boundary and a later one. So scanning over and over comes to an end, after at most as many
tokens as characters remain, and their spans stand one behind another up to that end. -/
theorem next_spans (scanner : Scanner) (quoting : Quoting) {code : List Char} {position : Nat}
    (hposition : Text.IsBoundary code position) :
    (∀ next stop, scanner.next quoting code position = (next, .ok stop) →
      next.kind = .finish ∧ position = Text.byteLength code ∧ stop = position ∨
        next.Spans code position stop) ∧
    (∃ spans outcome, Runs quoting code scanner position spans outcome) ∧
    ∃ remaining, Text.dropBytes? position code = some remaining ∧
      ∀ spans outcome, Runs quoting code scanner position spans outcome →
        Span.Tiles position spans (endOf outcome) ∧ spans.length ≤ remaining.length ∧
          ∀ stop, outcome = .ok stop → stop = Text.byteLength code := by
  obtain ⟨before, remaining, rfl, rfl⟩ := hposition
  refine ⟨fun next stop hnext => ?_, exists_runs scanner quoting before remaining,
    remaining, Text.dropBytes?_append before remaining, fun spans outcome hruns => hruns.tiles⟩
  obtain ⟨hkind, rfl, rfl⟩ | ⟨_, _, _, _, _, hspans⟩ := exists_taken hnext
  · exact .inl ⟨hkind, by rw [List.append_nil], rfl⟩
  · exact .inr hspans

/-- A constant that holds its own quote, and a symbol, behind a character of two bytes. -/
theorem next_spans_quote_symbol :
    let remaining := ['\x27', '\\', '\x27', '\x27', '=', '=']
    let code := 'é' :: remaining
    let constant : Scanner := ⟨.constant, ['\x27'], ⟨2, 6⟩⟩
    Text.IsBoundary code 2 ∧ initial.next .standard code 2 = (constant, .ok 6) ∧
      constant.Spans code 2 6 ∧ Runs .standard code initial 2 [⟨2, 6⟩, ⟨6, 8⟩] (.ok 8) ∧
      Span.Tiles 2 [⟨2, 6⟩, ⟨6, 8⟩] 8 ∧ [Span.mk 2 6, ⟨6, 8⟩].length ≤ remaining.length ∧
      8 = Text.byteLength code := by
  intro remaining code constant
  have hboundary : Text.IsBoundary code 2 := ⟨['é'], remaining, rfl, rfl⟩
  have hconstant : initial.next .standard code 2 = (constant, .ok 6) := rfl
  have hsymbol : constant.next .standard code 6 = (⟨.keyword, ['=', '='], ⟨6, 8⟩⟩, .ok 8) := rfl
  have hruns : Runs .standard code initial 2 [⟨2, 6⟩, ⟨6, 8⟩] (.ok 8) :=
    .token hconstant (by decide) (.token hsymbol (by decide) (.finished rfl rfl))
  obtain ⟨hnext, -, other, hremaining, hall⟩ := next_spans initial .standard hboundary
  have hdrop : Text.dropBytes? 2 code = some remaining := rfl
  cases hdrop.symm.trans hremaining
  obtain ⟨htiles, hlength, hend⟩ := hall _ _ hruns
  have hspans := (hnext _ _ hconstant).resolve_left fun h => absurd h.1 (by decide)
  exact ⟨hboundary, hconstant, hspans, hruns, htiles, hlength, hend 8 rfl⟩

end Scanner

end RowFilter
