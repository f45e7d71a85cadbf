import RowFilter.Proofs.Expr.Derivation
import RowFilter.Proofs.Expr.Reading

/-! # What is derived is accepted

The parser reads every list of tokens that the grammar derives and gives the tree of the derivation.
So it accepts exactly the texts whose tokens the grammar derives.
-/

namespace RowFilter

/-- A token that a construct may begin with. Only what contains signs may begin with an operator. -/
def Nonterminal.Begins (nonterminal : Nonterminal) (token : Shape) : Prop :=
  token.1 ≠ .parenClose ∧ (nonterminal = .checked ∨ nonterminal = .primary →
    (∀ op, token.meaning ≠ some (.leading op)) ∧ ∀ op, token.meaning ≠ some (.binary op))

namespace Nonterminal.Begins

variable {nonterminal other : Nonterminal} {token : Shape}

/-- What may begin an operand or more may begin the constructs that contain signs. -/
theorem looser (h : other.Begins token) (hne : nonterminal ≠ .checked ∧ nonterminal ≠ .primary) :
    nonterminal.Begins token := by
  refine ⟨h.1, ?_⟩
  rintro (rfl | rfl)
  · exact absurd rfl hne.1
  · exact absurd rfl hne.2

theorem operator {operand : Operand} (h : token.meaning = some operand)
    (hne : nonterminal ≠ .checked ∧ nonterminal ≠ .primary) : nonterminal.Begins token := by
  refine ⟨by simp [Shape.kind_of_meaning h], ?_⟩
  rintro (rfl | rfl)
  · exact absurd rfl hne.1
  · exact absurd rfl hne.2

theorem primary (hclose : token.1 ≠ .parenClose)
    (h : token.meaning = none ∨ ∃ function, token.meaning = some (.function function)) :
    Begins .primary token := by
  refine ⟨hclose, fun _ => ?_⟩
  rcases h with h | ⟨function, h⟩
  · simp [h]
  · simp [h]

end Nonterminal.Begins

/-- No derivation is empty or begins with a closing bracket. -/
theorem Derives.begins {nonterminal : Nonterminal} {shapes : List Shape} {expr : Expr}
    (h : Derives nonterminal shapes expr) :
    ∃ token rest, shapes = token :: rest ∧ nonterminal.Begins token := by
  induction h with
  | single _ ih =>
      obtain ⟨token, rest, rfl, hbegins⟩ := ih
      exact ⟨token, rest, rfl, hbegins.looser (by simp)⟩
  | joined _ _ _ _ ih _ =>
      obtain ⟨token, rest, rfl, hbegins⟩ := ih
      exact ⟨token, _, rfl, hbegins⟩
  | negated htoken _ _ => exact ⟨_, _, rfl, .operator htoken (by simp)⟩
  | plain _ _ ih =>
      obtain ⟨token, rest, rfl, hbegins⟩ := ih
      exact ⟨token, rest, rfl, hbegins.looser (by simp)⟩
  | uncompared _ ih =>
      obtain ⟨token, rest, rfl, hbegins⟩ := ih
      exact ⟨token, rest, rfl, hbegins.looser (by simp)⟩
  | compared _ _ _ _ ih _ =>
      obtain ⟨token, rest, rfl, hbegins⟩ := ih
      exact ⟨token, _, rfl, hbegins.looser (by simp)⟩
  | not htoken _ _ => exact ⟨_, _, rfl, .operator htoken (by simp)⟩
  | minusInteger htoken _ _ => exact ⟨_, _, rfl, .operator htoken (by simp)⟩
  | minusFloat htoken _ _ => exact ⟨_, _, rfl, .operator htoken (by simp)⟩
  | minus htoken _ _ _ => exact ⟨_, _, rfl, .operator htoken (by simp)⟩
  | plus htoken _ _ => exact ⟨_, _, rfl, .operator htoken (by simp)⟩
  | unsigned _ ih =>
      obtain ⟨token, rest, rfl, hbegins⟩ := ih
      exact ⟨token, rest, rfl, hbegins.looser (by simp)⟩
  | unchecked _ ih =>
      obtain ⟨token, rest, rfl, hbegins⟩ := ih
      exact ⟨token, rest, rfl, hbegins.1, fun _ => hbegins.2 (Or.inr rfl)⟩
  | checked _ _ ih =>
      obtain ⟨token, rest, rfl, hbegins⟩ := ih
      exact ⟨token, _, rfl, hbegins⟩
  | brackets _ _ => exact ⟨_, _, rfl, .primary (by decide) (Or.inl (if_neg (by decide)))⟩
  | string text => exact ⟨_, _, rfl, .primary (by simp) (Or.inl (if_neg (by simp)))⟩
  | word hunknown _ =>
      exact ⟨_, _, rfl, .primary (by simp) (Or.inl ((if_pos rfl).trans hunknown))⟩
  | call htoken _ _ _ _ =>
      exact ⟨_, _, rfl, .primary (by simp [Shape.kind_of_meaning htoken]) (Or.inr ⟨_, htoken⟩)⟩

namespace Parser

/-- Tokens are read as a construct with a tree, whatever may follow it. -/
def IsRead (span : Span) : Nonterminal → List Shape → Expr → Prop
  | .chain kind, shapes, expr => Continues span kind shapes (some expr)
  | .negation, shapes, expr => ReadsAt span 3 shapes (some expr)
  | .comparison, shapes, expr => ∀ tokens more : List Token, tokens.map Token.shape = shapes →
      Follows 3 more →
        Reads (comparison (Context.ending span) (tokens ++ more)) (some expr) more
  | .signed, shapes, expr => ReadsAt span 6 shapes (some expr)
  | .checked, shapes, expr => ∀ (tokens more rest : List Token) (value : Expr),
      tokens.map Token.shape = shapes → (∀ next ∈ more.head?, next.kind ≠ .parenOpen) →
        Reads (nullChecks (Context.ending span) expr more) (some value) rest →
          Reads (checked (Context.ending span) (tokens ++ more)) (some value) rest
  | .primary, shapes, expr => ∀ tokens more : List Token, tokens.map Token.shape = shapes →
      (∀ next ∈ more.head?, next.kind ≠ .parenOpen) →
        Reads (primary (Context.ending span) (tokens ++ more)) (some expr) more

variable {span : Span}

/-- What the operators of a chain stand between is read one level tighter. -/
theorem IsRead.readsAt_element {kind : Chain} {shapes : List Shape} {expr : Expr}
    (h : IsRead span (.element kind) shapes expr) :
    ReadsAt span (kind.precedence + 1) shapes (some expr) := by
  cases kind with
  | disjunctions => exact readsAt_of_continues h
  | conjunctions => exact h
  | sums => exact readsAt_of_continues h
  | products => exact h

/-! ## Operators in front -/

/-- A comparison that does not begin with an operator is not taken for a negated one. -/
theorem notLeading_append {shapes : List Shape} {expr : Expr}
    (h : Derives .comparison shapes expr)
    (hhead : ∀ token ∈ shapes.head?, token.meaning ≠ some (.leading .not))
    {tokens : List Token} (htokens : tokens.map Token.shape = shapes) (more : List Token) :
    NotLeading (tokens ++ more) := by
  obtain ⟨shape, shapes, rfl, -⟩ := h.begins
  obtain ⟨token, rest, rfl, rfl, -⟩ := List.map_eq_cons_iff.mp htokens
  rintro _ ⟨⟩ op hmeaning
  obtain rfl := Shape.leading_eq_not hmeaning
  exact hhead token.shape rfl hmeaning

theorem readsAt_signedNot {token : Shape} (htoken : token.meaning = some (.leading .not))
    {shapes : List Shape} {operand : Expr} (h : ReadsAt span 6 shapes (some operand)) :
    ReadsAt span 6 (token :: shapes) (some (applyUnary .not operand)) := by
  intro tokens more htokens hfollows
  obtain ⟨token, rest, rfl, rfl, hrest⟩ := List.map_eq_cons_iff.mp htokens
  change Reads (signed (Context.ending span) (token :: (rest ++ more))) _ more
  rw [signed, meaning_ending, htoken]
  exact Reads.arrive ((h rest more hrest hfollows).map fun value h => Reads.ok _)

theorem readsAt_minus {token : Shape} (htoken : token.meaning = some (.binary .sub))
    {shapes : List Shape} {operand : Expr} (h : ReadsAt span 6 shapes (some operand)) :
    ReadsAt span 6 (token :: shapes) (some (negate operand)) := by
  intro tokens more htokens hfollows
  obtain ⟨token, rest, rfl, rfl, hrest⟩ := List.map_eq_cons_iff.mp htokens
  exact signed_reads_minus htoken (h rest more hrest hfollows)

/-- A plus sign before an operand is read and forgotten. -/
theorem readsAt_plus {token : Shape} (htoken : token.meaning = some (.binary .add))
    {shapes : List Shape} {operand : Expr} (h : ReadsAt span 6 shapes (some operand)) :
    ReadsAt span 6 (token :: shapes) (some operand) := by
  intro tokens more htokens hfollows
  obtain ⟨token, rest, rfl, rfl, hrest⟩ := List.map_eq_cons_iff.mp htokens
  change Reads (signed (Context.ending span) (token :: (rest ++ more))) _ more
  rw [signed, meaning_ending, htoken]
  exact Reads.arrive ((h rest more hrest hfollows).weaken _)

/-- No sign stands in front of an operand with null checks. -/
theorem notSigned_append {shapes : List Shape} {expr : Expr} (h : Derives .checked shapes expr)
    {tokens : List Token} (htokens : tokens.map Token.shape = shapes) (more : List Token) :
    NotSigned (tokens ++ more) := by
  obtain ⟨shape, shapes, rfl, hbegins⟩ := h.begins
  obtain ⟨token, rest, rfl, rfl, -⟩ := List.map_eq_cons_iff.mp htokens
  rintro _ ⟨⟩
  exact hbegins.2 (Or.inl rfl)

/-! ## Brackets and calls -/

/-- An expression in brackets is read as a primary one. -/
theorem isRead_brackets {shapes : List Shape} {expr : Expr}
    (h : IsRead span (.chain .disjunctions) shapes expr) :
    IsRead span .primary (Shape.opening :: shapes ++ [Shape.closing]) expr := by
  intro tokens more htokens hmore
  rw [List.cons_append] at htokens
  obtain ⟨opening, rest, rfl, hopening, hrest⟩ := List.map_eq_cons_iff.mp htokens
  obtain ⟨inner, last, rfl, hinner, hlast⟩ := List.map_eq_append_iff.mp hrest
  obtain ⟨closing, rfl, hclosing⟩ := List.map_eq_singleton_iff.mp hlast
  have hkind : closing.kind = .parenClose := congrArg Prod.fst hclosing
  have hfollows : Follows 1 (closing :: more) := Follows.cons (by rw [hkind]; decide) 1 more
  have hreads := readsAt_of_continues h inner (closing :: more) hinner hfollows
  rw [List.cons_append, List.append_assoc, List.singleton_append]
  exact primary_reads_brackets hopening hclosing hreads

/-- A call is read if its arguments are. -/
theorem isRead_call {function : Builtin} {token : Shape}
    (htoken : token.meaning = some (.function function)) {arguments : List (List Shape × Expr)}
    (htakes : function.takes arguments.length = true)
    (hderives : ∀ argument ∈ arguments, Derives (.chain .disjunctions) argument.1 argument.2)
    (h : ∀ argument ∈ arguments, IsRead span (.chain .disjunctions) argument.1 argument.2) :
    IsRead span .primary
      (token :: Shape.opening :: [Shape.comma].intercalate (arguments.map Prod.fst) ++
        [Shape.closing])
      (.call function (arguments.map fun argument =>
        argument.2.withExpected function.argumentType) .any) := by
  intro tokens more htokens hmore
  rw [List.cons_append, List.cons_append] at htokens
  obtain ⟨name, others, rfl, rfl, hothers⟩ := List.map_eq_cons_iff.mp htokens
  obtain ⟨opening, rest, rfl, hopening, hrest⟩ := List.map_eq_cons_iff.mp hothers
  obtain ⟨inner, last, rfl, hinner, hlast⟩ := List.map_eq_append_iff.mp hrest
  obtain ⟨closing, rfl, hclosing⟩ := List.map_eq_singleton_iff.mp hlast
  have hbegins : ∀ argument ∈ arguments, ∃ first rest, argument.1 = first :: rest ∧
      first.1 ≠ .parenClose := by
    intro argument hargument
    obtain ⟨first, rest, hfirst, hbegins⟩ := (hderives argument hargument).begins
    exact ⟨first, rest, hfirst, hbegins.1⟩
  have hreads : Reads (primary (Context.ending span)
      (name :: opening :: (inner ++ closing :: more))) _ more :=
    primary_reads_call Prod.fst (fun argument => some argument.2) hbegins htakes
      (fun argument hargument => readsAt_of_continues (h argument hargument)) hinner htoken
      hopening hclosing
  have houtcome : arguments.mapM (fun argument => some argument.2) =
      some (arguments.map Prod.snd) := List.mapM_pure
  rw [houtcome, Option.map_some, List.map_map] at hreads
  rw [List.cons_append, List.cons_append, List.append_assoc, List.singleton_append]
  exact hreads

/-! ## Derivations -/

/-- What the grammar derives is read with the tree of the derivation. -/
theorem isRead_of_derives {nonterminal : Nonterminal} {shapes : List Shape} {expr : Expr}
    (h : Derives nonterminal shapes expr) : IsRead span nonterminal shapes expr := by
  induction h with
  | single _ ih => exact continues_of_readsAt ih.readsAt_element
  | joined hop htoken _ _ ihleft ihright =>
      exact continues_joined (Chain.mem_operators_iff.mp hop) htoken ihleft ihright.readsAt_element
  | negated htoken _ ih => exact readsAt_negated htoken ih
  | plain hhead hcomparison ih =>
      intro tokens more htokens hfollows
      change Reads (negation (Context.ending span) (tokens ++ more)) _ more
      rw [negation_eq_comparison (notLeading_append hcomparison hhead htokens more)]
      exact ih tokens more htokens hfollows
  | uncompared _ ih =>
      intro tokens more htokens hfollows
      have hreads := readsAt_of_continues ih tokens more htokens (hfollows.mono (by decide))
      exact comparison_reads hfollows hreads
  | compared hop htoken _ _ ihleft ihright =>
      intro tokens more htokens hfollows
      have hreads := comparison_reads_joined hop htoken (readsAt_of_continues ihleft)
        (readsAt_of_continues ihright) htokens (hfollows.mono (by decide))
      -- What may follow begins no other comparison, so this one is not refused.
      rw [startsComparison_eq_false hfollows] at hreads
      exact hreads
  | not htoken _ ih => exact readsAt_signedNot htoken ih
  | minusInteger htoken _ ih => exact readsAt_minus htoken ih
  | minusFloat htoken _ ih => exact readsAt_minus htoken ih
  | minus htoken hnumber _ ih =>
      have hreads := readsAt_minus htoken ih
      rwa [Expr.negate_of_isNumber_eq_false hnumber] at hreads
  | plus htoken _ ih => exact readsAt_plus htoken ih
  | unsigned hchecked ih =>
      intro tokens more htokens hfollows
      change Reads (signed (Context.ending span) (tokens ++ more)) _ more
      rw [signed_eq_checked (notSigned_append hchecked htokens more)]
      -- What may follow is no null check, so the checks end at the operand.
      exact ih tokens more more _ htokens (fun next hnext => (hfollows next hnext).1)
        (nullChecks_stop hfollows _)
  | unchecked _ ih =>
      intro tokens more rest value htokens hmore hchecks
      rw [checked]
      have hprimary := ih tokens more htokens hmore
      exact hprimary.bind (g := fun _ => some value) fun _ _ heq => by
        cases heq
        exact hchecks.weaken _
  | checked htoken _ ih =>
      intro tokens more rest value htokens hmore hchecks
      obtain ⟨operandTokens, last, rfl, hoperand, hlast⟩ := List.map_eq_append_iff.mp htokens
      obtain ⟨token, rfl, rfl⟩ := List.map_eq_singleton_iff.mp hlast
      have hkind : token.kind = .keyword := Shape.kind_of_meaning htoken
      rw [List.append_assoc, List.singleton_append]
      -- For the operand without the check, the check is what follows.
      refine ih operandTokens (token :: more) rest value hoperand ?_ ?_
      · rintro _ ⟨⟩
        rw [hkind]
        decide
      · rw [nullChecks, meaning_ending, htoken]
        exact Reads.arrive (hchecks.weaken _)
  | brackets _ ih => exact isRead_brackets ih
  | string text =>
      intro tokens more htokens hmore
      obtain ⟨token, rfl, hshape⟩ := List.map_eq_singleton_iff.mp htokens
      exact primary_reads_constant hshape
  | word hunknown hword =>
      intro tokens more htokens hmore
      obtain ⟨token, rfl, hshape⟩ := List.map_eq_singleton_iff.mp htokens
      exact primary_reads_word hshape hunknown (isWord_iff.mp hword) hmore
  | call htoken _ htakes hderives ih => exact isRead_call htoken htakes hderives ih

end Parser

namespace Expr

/-- A text is accepted if it is scanned into tokens that the grammar derives. -/
theorem parse_of_derives {code : List Char} {tokens : List Token} {expr : Expr}
    (hscan : Scan.of .standard 0 code =
      ⟨tokens, .reached ⟨Text.byteLength code, Text.byteLength code⟩⟩)
    (hderives : Derives (.chain .disjunctions) (tokens.map Token.shape) expr) :
    parse Vocabulary.standard code = .ok expr := by
  have hne : tokens ≠ [] := by
    rintro rfl
    obtain ⟨token, rest, hempty, -⟩ := hderives.begins
    cases hempty
  have hread : Parser.IsRead ⟨Text.byteLength code, Text.byteLength code⟩
      (.chain .disjunctions) (tokens.map Token.shape) expr := Parser.isRead_of_derives hderives
  have hreads := Parser.readsAt_of_continues hread tokens [] rfl (Parser.Follows.nil 1)
  rw [List.append_nil] at hreads
  exact parse_of_reads hscan hne hreads

/-- The parser accepts a text exactly if the grammar derives its tokens, and it gives the tree of
the derivation. -/
theorem parse_eq_ok_iff_derives (code : List Char) (expr : Expr) :
    parse Vocabulary.standard code = .ok expr ↔
      ∃ tokens, Token.Cuts 0 code tokens ∧
        Derives (.chain .disjunctions) (tokens.map Token.shape) expr := by
  constructor
  · intro h
    obtain ⟨tokens, hcuts, -, hderives⟩ := derives_of_parse h
    exact ⟨tokens, hcuts, hderives⟩
  · rintro ⟨tokens, hcuts, hderives⟩
    have hscan := hcuts.scan_eq
    rw [Nat.zero_add] at hscan
    exact parse_of_derives hscan hderives

end Expr

end RowFilter
