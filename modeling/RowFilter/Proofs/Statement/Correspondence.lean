import RowFilter.Proofs.Statement.DialectClosure

/-! # Corresponding compilations

Expressions with one value for a request compile to parts that merge to the same statements, if
their operands do. Which error there is instead may differ: it shows the text of the expression.
-/

namespace RowFilter

section

variable (request : Request)

/-- For the request, the parts merge to the same statement or do not merge. -/
def Part.Alike (part other : Part) : Prop :=
  ∀ statement, part.merge request = .ok statement ↔ other.merge request = .ok statement

/-- Operands that differ in nothing but parts that merge alike. -/
abbrev Term.Alike : Term → Term → Prop :=
  Term.Related (fun _ => True) (Part.Alike request)

inductive Slot.Alike : Slot → Slot → Prop
  | ready {term other : Term} (h : term.Alike request other) : Alike (.ready term) (.ready other)
  | deferred {expr other : Expr} (h : request.evaluate expr = request.evaluate other) :
      Alike (.deferred expr) (.deferred other)

/-- What is compiled gives the same for the request. -/
inductive Compiled.Alike : Compiled → Compiled → Prop
  | constant (value : Value) : Alike (.constant value) (.constant value)
  | dynamic {expr other : Expr} (h : request.evaluate expr = request.evaluate other) :
      Alike (.dynamic expr) (.dynamic other)
  | attr (definition : Attribute) : Alike (.attr definition) (.attr definition)
  | computed {part other : Part} (h : part.Alike request other) (type : ValueType) :
      Alike (.computed part type) (.computed other type)
  | condition {part other : Part} (h : part.Alike request other) :
      Alike (.condition part) (.condition other)

/-- Expressions with one value for the request, which are one expression if they are constant. -/
structure Expr.Alike (expr other : Expr) : Prop where
  evaluate : request.evaluate expr = request.evaluate other
  isConstant : expr.isConstant = other.isConstant
  eq : expr.isConstant = true → expr = other

end

variable {request : Request}

/-- Being alike for a request is kept by putting parts together, with any texts. -/
theorem Part.compatible_alike : Compatible (fun _ => True) (Part.Alike request) where
  plain_of_notMem _ _ := trivial
  plain_append _ _ := trivial
  nil _ := Iff.rfl
  ofText _ _ := Iff.rfl
  startingWith _ _ := Iff.rfl
  thenText h _ statement := by
    rw [merge_thenText, merge_thenText, Statement.andThen_eq_ok, Statement.andThen_eq_ok]
    simp only [h _]
  thenPart h hinner statement := by
    rw [merge_thenPart, merge_thenPart, Statement.andThen_eq_ok, Statement.andThen_eq_ok]
    simp only [h _, hinner _]

/-- What is compiled alike is known alike. -/
theorem Compiled.Alike.isValue_eq {c other : Compiled} (h : c.Alike request other) :
    c.isValue = other.isValue ∧ c.isConstant = other.isConstant := by
  cases h <;> exact ⟨rfl, rfl⟩

/-- Operands that are compiled alike are known alike, one by one. -/
theorem Compiled.Alike.all_eq {operands others : List Compiled}
    (h : List.Forall₂ (Compiled.Alike request) operands others) :
    operands.all Compiled.isValue = others.all Compiled.isValue ∧
      operands.all Compiled.isConstant = others.all Compiled.isConstant := by
  induction h with
  | nil => exact ⟨rfl, rfl⟩
  | cons hfirst hrest ih =>
      obtain ⟨hvalue, hconstant⟩ := hfirst.isValue_eq
      rw [List.all_cons, List.all_cons, List.all_cons, List.all_cons, hvalue, hconstant, ih.1, ih.2]
      exact ⟨rfl, rfl⟩

/-! ## Renderings -/

theorem Slot.Alike.trial {slot other : Slot} (h : slot.Alike request other) :
    slot.trial.Alike request other.trial := by
  cases h with
  | ready h => exact h
  | deferred h => exact .value .null

theorem Slot.Alike.isText_eq {slot other : Slot} (h : slot.Alike request other) :
    slot.isText = other.isText := by
  cases h with
  | deferred h => rfl
  | ready h => cases h <;> rfl

/-- The terms of operands for the request are alike, or there is none of either. -/
theorem Slot.Alike.term {slot other : Slot} (h : slot.Alike request other) :
    (∃ term term', slot.term request = .ok term ∧ other.term request = .ok term' ∧
      term.Alike request term') ∨
    ∃ error error', slot.term request = .error error ∧ other.term request = .error error' := by
  cases h with
  | ready h => exact Or.inl ⟨_, _, rfl, rfl, h⟩
  | deferred h =>
      rw [Slot.term, Slot.term, h]
      split
      next value _ => exact Or.inl ⟨_, _, rfl, rfl, .value value⟩
      next error _ => exact Or.inr ⟨_, _, rfl, rfl⟩

/-- Alike slots have alike terms for the request, or both lists fail. -/
theorem mapM_term_alike {slots others : List Slot}
    (h : List.Forall₂ (Slot.Alike request) slots others) :
    (∃ terms terms', slots.mapM (Slot.term request) = .ok terms ∧
      others.mapM (Slot.term request) = .ok terms' ∧
      List.Forall₂ (Term.Alike request) terms terms') ∨
    ∃ error error', slots.mapM (Slot.term request) = .error error ∧
      others.mapM (Slot.term request) = .error error' := by
  induction h with
  | nil => exact Or.inl ⟨[], [], rfl, rfl, .nil⟩
  | @cons slot other slots others hfirst hrest ih =>
      rw [List.mapM_cons, List.mapM_cons]
      rcases hfirst.term with ⟨term, term', hterm, hterm', hrelated⟩ |
        ⟨error, error', hterm, hterm'⟩
      · rw [hterm, hterm']
        rcases ih with ⟨terms, terms', hterms, hterms', hall⟩ | ⟨error, error', hterms, hterms'⟩
        · rw [hterms, hterms']
          exact Or.inl ⟨_, _, rfl, rfl, .cons hrelated hall⟩
        · rw [hterms, hterms']
          exact Or.inr ⟨error, error', rfl, rfl⟩
      · rw [hterm, hterm']
        exact Or.inr ⟨error, error', rfl, rfl⟩

namespace Compiler

variable {dialect : Dialect} {schema : Schema} {source source' : String}

/-- Renderings of operands that are alike merge alike. -/
theorem render_alike {slots others : List Slot}
    (hslots : List.Forall₂ (Slot.Alike request) slots others) {write : List Term → Rendering}
    (hwrite : ∀ terms terms', List.Forall₂ (Term.Alike request) terms terms' →
      Matches (Part.Alike request) (write terms) (write terms')) :
    Matches (Part.Alike request) (Compiler.render ⟨dialect, schema, source⟩ slots write)
      (Compiler.render ⟨dialect, schema, source'⟩ others write) := by
  have htrials : List.Forall₂ (Term.Alike request) (slots.map Slot.trial)
      (others.map Slot.trial) := by
    rw [List.forall₂_map_left_iff, List.forall₂_map_right_iff]
    exact hslots.imp fun _ _ h => h.trial
  -- The trials decide whether there are parts, the terms of the request what these merge to.
  rcases (hwrite _ _ htrials).cases with ⟨trial, trial', hleft, hright, -⟩ | ⟨fault, hleft, hright⟩
  · obtain ⟨part, hpart⟩ := @render_ok ⟨dialect, schema, source⟩ slots write trial hleft
    obtain ⟨part', hpart'⟩ := @render_ok ⟨dialect, schema, source'⟩ others write trial' hright
    rw [hpart, hpart']
    refine .ok fun statement => ?_
    rw [merge_render hpart, merge_render hpart']
    rcases mapM_term_alike hslots with ⟨terms, terms', hterms, hterms', hall⟩ |
      ⟨error, error', hterms, hterms'⟩
    · rw [hterms, hterms', Except.bind, Except.bind]
      rcases (hwrite terms terms' hall).cases with
        ⟨written, written', hwritten, hwritten', halike⟩ | ⟨fault, hwritten, hwritten'⟩
      · rw [hwritten, hwritten']
        exact halike statement
      · rw [hwritten, hwritten']
        simp [mergeRendering]
    · rw [hterms, hterms']
      simp [Except.bind]
  · rw [Compiler.render, Compiler.render, hleft, hright]
    exact .error fault

theorem renderOne_alike {slot other : Slot} (hslot : slot.Alike request other)
    {write : Term → Rendering} (hwrite : ∀ {term term' : Term}, term.Alike request term' →
      Matches (Part.Alike request) (write term) (write term')) :
    Matches (Part.Alike request) (Compiler.renderOne ⟨dialect, schema, source⟩ slot write)
      (Compiler.renderOne ⟨dialect, schema, source'⟩ other write) := by
  refine render_alike (.cons hslot .nil) fun terms terms' hterms => ?_
  cases hterms with
  | nil => exact .ok fun _ => Iff.rfl
  | cons hterm hrest =>
      cases hrest with
      | nil => exact hwrite hterm
      | cons hsecond hmore => exact .ok fun _ => Iff.rfl

/-- What is rendered of two slots is alike if what is written of their terms is. -/
theorem renderTwo_alike {left left' right right' : Slot} (hleft : left.Alike request left')
    (hright : right.Alike request right') {write : Term → Term → Rendering}
    (hwrite : ∀ {l l' r r' : Term}, l.Alike request l' → r.Alike request r' →
      Matches (Part.Alike request) (write l r) (write l' r')) :
    Matches (Part.Alike request) (Compiler.renderTwo ⟨dialect, schema, source⟩ left right write)
      (Compiler.renderTwo ⟨dialect, schema, source'⟩ left' right' write) := by
  refine render_alike (.cons hleft (.cons hright .nil)) fun terms terms' hterms => ?_
  cases hterms with
  | nil => exact .ok fun _ => Iff.rfl
  | cons hl hrest =>
      cases hrest with
      | nil => exact .ok fun _ => Iff.rfl
      | cons hr hmore =>
          cases hmore with
          | nil => exact hwrite hl hr
          | cons hthird hothers => exact .ok fun _ => Iff.rfl

theorem ofCompiled_alike {c other : Compiled} (h : c.Alike request other) :
    Matches (Slot.Alike request) (Slot.ofCompiled c) (Slot.ofCompiled other) := by
  cases h with
  | constant value => exact .ok (.ready (.value value))
  | dynamic h => exact .ok (.deferred h)
  | attr definition => exact .ok (.ready (.attr trivial))
  | computed h type => exact .ok (.ready (.computed h type))
  | condition h => exact .error _

/-! ## Nodes -/

variable (hdialect : dialect.Relates (fun _ => True) (Part.Alike request))

/-- Folding gives one value for both expressions, or neither is folded and the rest decides. -/
theorem fold_alike {expr other : Expr} (hexpr : expr.Alike request other)
    {operands operands' : List Compiled}
    (h : List.Forall₂ (Compiled.Alike request) operands operands')
    {rest rest' : Except CompileFault Compiled}
    (hrest : operands.all Compiled.isValue = false → Matches (Compiled.Alike request) rest rest') :
    Matches (Compiled.Alike request)
      (do match ← fold? expr operands with
        | some folded => return folded
        | none => rest)
      (do match ← fold? other operands' with
        | some folded => return folded
        | none => rest') := by
  have hvalues := Compiled.Alike.all_eq h
  have hfold : Matches (Option.Rel (Compiled.Alike request)) (fold? expr operands)
      (fold? other operands') := by
    unfold fold?
    rw [← hvalues.1, ← hvalues.2, ← hexpr.isConstant]
    refine Matches.ite (fun _ => .ok .none) fun _ => ?_
    refine Matches.ite (fun hconstant => ?_) fun _ => .ok (.some (.dynamic hexpr.evaluate))
    rw [Bool.and_eq_true] at hconstant
    -- What is constant is the same expression, so it is folded to the same value.
    rw [← hexpr.eq hconstant.1]
    split
    next value _ => exact .ok (.some (.constant value))
    next => exact .error _
  rcases hfold.cases with ⟨folded, folded', hleft, hright, hfolded⟩ | ⟨fault, hleft, hright⟩
  · rw [hleft, hright]
    cases hfolded with
    | none => exact hrest (isValue_of_fold?_eq_none hleft)
    | some halike => exact .ok halike
  · rw [hleft, hright]
    exact .error fault

include hdialect

/-- Alike operands are alike as conditions. -/
theorem condition_alike {c other : Compiled} (h : c.Alike request other) :
    Matches (Part.Alike request) (Compiler.condition ⟨dialect, schema, source⟩ c)
      (Compiler.condition ⟨dialect, schema, source'⟩ other) := by
  have htruth : ∀ value : Value, Matches (Part.Alike request)
      (do return dialect.truth (← value.conditionTruth))
      (do return dialect.truth (← value.conditionTruth)) :=
    fun value => Matches.step fun holds _ => .ok (hdialect.truth holds)
  cases h with
  | condition h => exact .ok h
  | constant value => exact htruth value
  | dynamic h =>
      refine renderOne_alike (.deferred h) fun hterm => ?_
      cases hterm with
      | value value => exact htruth value
      | attr _ => exact .ok fun _ => Iff.rfl
      | computed _ type => exact .ok fun _ => Iff.rfl
  | attr definition =>
      refine Matches.ite (fun _ => ?_) fun _ => .error _
      exact hdialect.comparison .eq (.attr trivial) (.value (.boolean true))
  | computed h type =>
      refine Matches.ite (fun _ => ?_) fun _ => .error _
      exact hdialect.comparison .eq (.computed h type) (.value (.boolean true))

/-- The same operands of a junction are left out of both, and the others are alike. -/
theorem junctionParts_alike (deciding : Bool) {operands others : List Compiled}
    (h : List.Forall₂ (Compiled.Alike request) operands others) :
    Matches (Option.Rel (List.Forall₂ (Part.Alike request)))
      (Compiler.junctionParts ⟨dialect, schema, source⟩ deciding operands)
      (Compiler.junctionParts ⟨dialect, schema, source'⟩ deciding others) := by
  induction h with
  | nil => exact .ok (.some .nil)
  | @cons c other operands others hfirst hrest ih =>
      by_cases hconstant : c.isConstant = true
      · cases hfirst with
        | constant value =>
            rw [junctionParts, junctionParts]
            refine Matches.step fun holds _ => ?_
            exact Matches.ite (fun _ => .ok .none) fun _ => ih
        | _ => cases hconstant
      · have hother : other.isConstant = false := by
          rw [← hfirst.isValue_eq.2]
          simpa using hconstant
        rw [junctionParts_cons deciding (by simpa using hconstant),
          junctionParts_cons deciding hother]
        refine (condition_alike hdialect hfirst).bind fun part part' hpart => ?_
        rcases ih.cases with ⟨parts, parts', hparts, hparts', hall⟩ | ⟨fault, hparts, hparts'⟩
        · rw [hparts, hparts']
          cases hall with
          | none => exact .ok .none
          | some hall => exact .ok (.some (.cons hpart hall))
        · rw [hparts, hparts']
          exact .error fault

/-- Junctions of alike operands are alike. -/
theorem junction_alike {expr other : Expr} (hexpr : expr.Alike request other) (op : BinaryOp)
    {operands others : List Compiled} (h : List.Forall₂ (Compiled.Alike request) operands others) :
    Matches (Compiled.Alike request) (Compiler.junction ⟨dialect, schema, source⟩ expr op operands)
      (Compiler.junction ⟨dialect, schema, source'⟩ other op others) := by
  refine fold_alike hexpr h fun _ => ?_
  refine (junctionParts_alike hdialect op.deciding h).bind fun parts parts' hparts => ?_
  cases hparts with
  | none => exact .ok (.constant _)
  | some hall =>
      cases hall with
      | nil => exact .ok (.condition (hdialect.junction op .nil))
      | cons hfirst hrest =>
          cases hrest with
          | nil => exact .ok (.condition hfirst)
          | cons hsecond hmore =>
              exact .ok (.condition (hdialect.junction op (.cons hfirst (.cons hsecond hmore))))

/-- Comparisons of alike operands are alike, exchanged or not. -/
theorem comparison_alike {expr other : Expr} (hexpr : expr.Alike request other) (op : BinaryOp)
    {left left' right right' : Compiled} (hleft : left.Alike request left')
    (hright : right.Alike request right') :
    Matches (Compiled.Alike request)
      (Compiler.comparison ⟨dialect, schema, source⟩ expr op left right)
      (Compiler.comparison ⟨dialect, schema, source'⟩ other op left' right') := by
  refine fold_alike hexpr (.cons hleft (.cons hright .nil)) fun _ => ?_
  have hcondition : ∀ (op : BinaryOp) {first first' second second' : Compiled},
      first.Alike request first' → second.Alike request second' →
      Matches (Compiled.Alike request)
        (do
          let leftSlot ← Slot.ofCompiled first
          let rightSlot ← Slot.ofCompiled second
          return Compiled.condition (← Compiler.renderTwo ⟨dialect, schema, source⟩ leftSlot
            rightSlot (dialect.comparison op)))
        (do
          let leftSlot ← Slot.ofCompiled first'
          let rightSlot ← Slot.ofCompiled second'
          return Compiled.condition (← Compiler.renderTwo ⟨dialect, schema, source'⟩ leftSlot
            rightSlot (dialect.comparison op))) := by
    intro op first first' second second' hfirst hsecond
    refine (ofCompiled_alike hfirst).bind fun l l' hl => ?_
    refine (ofCompiled_alike hsecond).bind fun r r' hr => ?_
    exact (renderTwo_alike hl hr (hdialect.comparison op)).bind fun part part' hpart =>
      .ok (.condition hpart)
  simp only [← hleft.isValue_eq.1]
  split
  next => exact Matches.step fun flipped _ => hcondition flipped hright hleft
  next => exact hcondition op hleft hright

theorem arithmetic_alike {expr other : Expr} (hexpr : expr.Alike request other) (op : BinaryOp)
    {left left' right right' : Compiled} (hleft : left.Alike request left')
    (hright : right.Alike request right') :
    Matches (Compiled.Alike request)
      (Compiler.arithmetic ⟨dialect, schema, source⟩ expr op left right)
      (Compiler.arithmetic ⟨dialect, schema, source'⟩ other op left' right') := by
  refine fold_alike hexpr (.cons hleft (.cons hright .nil)) fun _ => ?_
  refine (ofCompiled_alike hleft).bind fun l l' hl => ?_
  refine (ofCompiled_alike hright).bind fun r r' hr => ?_
  refine (renderTwo_alike hl hr (hdialect.arithmetic op)).bind fun part part' hpart => ?_
  rw [← hl.isText_eq, ← hr.isText_eq]
  exact .ok (.computed hpart _)

/-- Calls with alike arguments are alike. -/
theorem call_alike {expr other : Expr} (hexpr : expr.Alike request other) (function : Builtin)
    {arguments others : List Compiled}
    (h : List.Forall₂ (Compiled.Alike request) arguments others) :
    Matches (Compiled.Alike request)
      (Compiler.call ⟨dialect, schema, source⟩ expr function arguments)
      (Compiler.call ⟨dialect, schema, source'⟩ other function others) := by
  refine fold_alike hexpr h fun _ => ?_
  refine (Matches.mapM (h.imp fun _ _ halike => ofCompiled_alike halike)).bind
    fun slots slots' hslots => ?_
  exact (render_alike hslots fun _ _ hterms => hdialect.function function hterms).bind
    fun part part' hpart => .ok (.computed hpart _)

theorem nullCheck_alike (op : UnaryOp) {operand other : Compiled}
    (h : operand.Alike request other) :
    Matches (Compiled.Alike request) (Compiler.nullCheck ⟨dialect, schema, source⟩ op operand)
      (Compiler.nullCheck ⟨dialect, schema, source'⟩ op other) := by
  have hcheck : Matches (Compiled.Alike request)
      (do
        let slot ← Slot.ofCompiled operand
        return Compiled.condition (← Compiler.renderOne ⟨dialect, schema, source⟩ slot fun term =>
          dialect.nullCheck term (op == .isNull)))
      (do
        let slot ← Slot.ofCompiled other
        return Compiled.condition (← Compiler.renderOne ⟨dialect, schema, source'⟩ slot fun term =>
          dialect.nullCheck term (op == .isNull))) := by
    refine (ofCompiled_alike h).bind fun slot slot' hslot => ?_
    exact (renderOne_alike hslot fun hterm => hdialect.nullCheck _ hterm).bind
      fun part part' hpart => .ok (.condition hpart)
  cases h with
  | condition h => exact .error _
  | constant value => exact hcheck
  | dynamic h => exact hcheck
  | attr definition => exact hcheck
  | computed h type => exact hcheck

theorem unary_alike {expr other : Expr} (hexpr : expr.Alike request other) (op : UnaryOp)
    {operand operand' : Compiled} (h : operand.Alike request operand') :
    Matches (Compiled.Alike request) (Compiler.unary ⟨dialect, schema, source⟩ expr op operand)
      (Compiler.unary ⟨dialect, schema, source'⟩ other op operand') := by
  refine fold_alike hexpr (.cons h .nil) fun _ => ?_
  cases op with
  | not =>
      exact (condition_alike hdialect h).bind fun part part' hpart =>
        .ok (.condition (hdialect.negation hpart))
  | negate =>
      refine (ofCompiled_alike h).bind fun slot slot' hslot => ?_
      have hzero : (Slot.ready (.value (.integer 0))).Alike request
          (.ready (.value (.integer 0))) := .ready (.value (.integer 0))
      exact (renderTwo_alike hzero hslot (hdialect.arithmetic .sub)).bind fun part part' hpart =>
        .ok (.computed hpart _)
  | isNull => exact nullCheck_alike hdialect .isNull h
  | notNull => exact nullCheck_alike hdialect .notNull h

end Compiler

end RowFilter
