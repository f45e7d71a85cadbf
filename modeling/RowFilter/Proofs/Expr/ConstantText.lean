import RowFilter.Proofs.Expr.TokenSpans

/-! # Texts as constants

Any text can be written as a constant: between quotes, with the escape in front of every quote,
every escape and every enclosing character in it. One that is escaped stands for itself unless it is
a letter that an escape changes, so none of the three may be such a letter.
-/

namespace RowFilter

/-- A quote that constants can be written with. The escape and the enclosing character differ from
it, and are none of the letters that an escape changes. -/
structure Quoting.Quotes (quoting : Quoting) (quote : Char) : Prop where
  isQuote : quote = '\x27' ∨ quote = '\x22'
  escape : quoting.escape ∉ [quote, 'n', 't', 'r']
  enclosing : ∀ c, quoting.enclosing = some c → c ∉ [quote, 'n', 't', 'r']

/-- A character of a constant, with the escape in front if it would not stand for itself. -/
def Quoting.escaped (quoting : Quoting) (quote c : Char) : List Char :=
  if c = quote ∨ c = quoting.escape ∨ quoting.enclosing = some c then [quoting.escape, c] else [c]

/-- A text as a constant. -/
def Quoting.constant (quoting : Quoting) (quote : Char) (text : List Char) : List Char :=
  quote :: (text.flatMap (quoting.escaped quote) ++ [quote])

variable {quoting : Quoting} {quote : Char}

theorem Token.unescape_of_notMem {c : Char} (h : c ∉ ['n', 't', 'r']) : unescape c = c := by
  simp only [List.mem_cons, List.not_mem_nil, or_false, not_or] at h
  unfold unescape
  split
  · exact absurd rfl h.1
  · exact absurd rfl h.2.1
  · exact absurd rfl h.2.2
  · rfl

namespace Quoting.Quotes

/-- What is escaped is none of the letters that an escape changes. -/
theorem unescape_eq (h : quoting.Quotes quote) {c : Char}
    (hc : c = quote ∨ c = quoting.escape ∨ quoting.enclosing = some c) : Token.unescape c = c := by
  refine Token.unescape_of_notMem ?_
  rcases hc with rfl | rfl | hc
  · rcases h.isQuote with rfl | rfl <;> decide
  · exact fun hmem => h.escape (List.mem_cons_of_mem _ hmem)
  · exact fun hmem => h.enclosing c hc (List.mem_cons_of_mem _ hmem)

theorem readConstant_escaped (h : quoting.Quotes quote) (c : Char) (rest : List Char) :
    Token.readConstant quoting quote (quoting.escaped quote c ++ rest) =
      (Token.readConstant quoting quote rest).after (quoting.escaped quote c).length [c] := by
  unfold Quoting.escaped
  split
  next hescaped =>
    rw [List.cons_append, List.singleton_append, Token.readConstant, if_pos (beq_self_eq_true _),
      h.unescape_eq hescaped]
    rfl
  next hplain =>
    simp only [not_or] at hplain
    obtain ⟨hquote, hescape, henclosing⟩ := hplain
    rw [List.singleton_append, Token.readConstant.eq_def]
    simp only [beq_iff_eq, if_neg hescape, if_neg hquote, if_neg (Ne.symm henclosing)]
    rfl

end Quoting.Quotes

/-- What follows a constant is of no influence on its lexeme. -/
theorem Quoting.Quotes.lexeme_eq (h : quoting.Quotes quote) (text after : List Char) :
    Token.lexeme quoting quote (text.flatMap (quoting.escaped quote) ++ [quote] ++ after) =
      .found .constant text (text.flatMap (quoting.escaped quote) ++ [quote]).length := by
  have hescape : quote ≠ quoting.escape := fun heq => h.escape (heq ▸ List.mem_cons_self)
  have henclosing : quoting.enclosing ≠ some quote :=
    fun heq => h.enclosing quote heq List.mem_cons_self
  rw [List.append_assoc, List.singleton_append, List.length_append, List.length_singleton]
  exact Token.lexeme_constant h.isQuote henclosing
    (Token.readConstant_flatMap hescape h.readConstant_escaped text after)

/-- The constant of a text is scanned as one token, whatever follows it: its text is the one that
was written, and it ends right behind the closing quote. -/
theorem Scanner.next_constant (scanner : Scanner) (h : quoting.Quotes quote)
    (before text after : List Char) :
    let stop := Text.byteLength (before ++ quoting.constant quote text)
    scanner.next quoting (before ++ (quoting.constant quote text ++ after))
        (Text.byteLength before) =
      (⟨.constant, text, ⟨Text.byteLength before, stop⟩⟩, .ok stop) := by
  intro stop
  have hscan : Token.scan quoting (Text.byteLength before) (quoting.constant quote text ++ after) =
      .ok (⟨.constant, text, ⟨Text.byteLength before, stop⟩, quoting.constant quote text⟩,
        after) := by
    rw [Quoting.constant, List.cons_append, Token.scan, h.lexeme_eq text after]
    simp only [List.take_left, List.drop_left]
    rw [← Quoting.constant, ← Text.byteLength_append]
  rw [next_of_scan hscan]

/-- A quote, escapes and an enclosing character, and an escape before the closing quote. -/
theorem next_constant_escapes : Quoting.Quotes ⟨'~', some '\x22'⟩ '\x27' ∧
    Scanner.initial.next ⟨'~', some '\x22'⟩ "é\x27~~~\x27n~\x22~~\x27\x22".toList 2 =
      (⟨.constant, "~\x27n\x22~".toList, ⟨2, 13⟩⟩, .ok 13) := by
  have hquotes : Quoting.Quotes ⟨'~', some '\x22'⟩ '\x27' := by
    refine ⟨.inl rfl, by decide, ?_⟩
    rintro _ ⟨⟩
    decide
  exact ⟨hquotes, Scanner.next_constant .initial hquotes ['é'] "~\x27n\x22~".toList ['\x22']⟩

end RowFilter
