import RowFilter.Proofs.Statement.Parameters

/-! # Parameters that memberships offer

A dialect may look at every value that becomes a parameter but those that a membership has for
candidates. Then the statement of a condition has a parameter of a kind exactly if a membership that
stands in it offers a candidate of that kind.
-/

namespace RowFilter

variable {request : Request} {Q E : Value → Prop}

/-- For the request, no computation of the backend has a parameter with a property. -/
def Term.Lacks (request : Request) (Q : Value → Prop) : Term → Prop
  | .computed part _ => ¬part.Carries request Q
  | _ => True

def Compiled.Lacks (request : Request) (Q : Value → Prop) : Compiled → Prop
  | .computed part _ => ¬part.Carries request Q
  | _ => True

/-- A dialect has parameters with one property only for the candidates with another, and for those
that its operands have already. -/
structure Dialect.Guards (dialect : Dialect) (request : Request) (Q E : Value → Prop) : Prop where
  truth : ∀ holds, ¬(dialect.truth holds).Carries request Q
  negation : ∀ {part}, (dialect.negation part).Merges request →
    part.Merges request ∧ ((dialect.negation part).Carries request Q ↔ part.Carries request Q)
  junction : ∀ {op parts}, (dialect.junction op parts).Merges request →
    (∀ part ∈ parts, part.Merges request) ∧
      ((dialect.junction op parts).Carries request Q ↔ ∃ part ∈ parts, part.Carries request Q)
  nullCheck : ∀ {term isNull part}, term.Lacks request Q →
    dialect.nullCheck term isNull = .ok part → ¬part.Carries request Q
  comparison : ∀ {op left right part}, left.Lacks request Q → right.Lacks request Q →
    dialect.comparison op left right = .ok part → part.Merges request →
      (part.Carries request Q ↔ (op = .containsOneOf ∨ op = .containsNone) ∧
        ∃ value, right = .value value ∧ ∃ element ∈ value.elements, E element)
  arithmetic : ∀ {op left right part}, left.Lacks request Q → right.Lacks request Q →
    dialect.arithmetic op left right = .ok part → ¬part.Carries request Q
  function : ∀ {builtin arguments part}, (∀ argument ∈ arguments, argument.Lacks request Q) →
    dialect.function builtin arguments = .ok part → ¬part.Carries request Q

namespace Compiler

variable {compiler : Compiler} {expr : Expr}

/-! ## What stands in a statement -/

/-- An expression stands in the statement of another one if all from the one to the other are
conditions of the backend. -/
inductive Stands (compiler : Compiler) (sub : Expr) : Expr → Prop
  | self {part : Part} (h : compiler.compile sub = .ok (.condition part)) : Stands compiler sub sub
  | operand {expr operand : Expr} {part : Part}
      (h : compiler.compile expr = .ok (.condition part)) (hoperand : operand ∈ expr.operands)
      (hsub : Stands compiler sub operand) : Stands compiler sub expr

/-- An expression with a property stands in the statement of another one. -/
def States (compiler : Compiler) (P : Expr → Prop) (expr : Expr) : Prop :=
  ∃ sub, compiler.Stands sub expr ∧ P sub

/-- A membership has a candidate with a property for the request. -/
def Offers (compiler : Compiler) (request : Request) (E : Value → Prop) : Expr → Prop
  | .binary op left right => (op = .containsOneOf ∨ op = .containsNone) ∧
      ∃ side ∈ [left, right], ∃ c value, compiler.compile side = .ok c ∧
        c.Supplies request value ∧ ∃ element ∈ value.elements, E element
  | _ => False

variable {P : Expr → Prop}

/-- What stands in the statement of a condition is the condition itself or stands in an operand of
it. -/
theorem states_iff {c : Compiled} (h : compiler.compile expr = .ok c) :
    compiler.States P expr ↔ (∃ part, c = .condition part) ∧
      (P expr ∨ ∃ operand ∈ expr.operands, compiler.States P operand) := by
  constructor
  · rintro ⟨sub, hstands, hP⟩
    cases hstands with
    | self hsub => exact ⟨⟨_, Except.ok.inj (h.symm.trans hsub)⟩, Or.inl hP⟩
    | operand hexpr hoperand hsub =>
        exact ⟨⟨_, Except.ok.inj (h.symm.trans hexpr)⟩, Or.inr ⟨_, hoperand, sub, hsub, hP⟩⟩
  · rintro ⟨⟨part, rfl⟩, hP | ⟨operand, hoperand, sub, hsub, hP⟩⟩
    · exact ⟨expr, .self h, hP⟩
    · exact ⟨sub, .operand h hoperand hsub, hP⟩

/-- What is no condition states nothing. -/
theorem not_states {c : Compiled} (h : compiler.compile expr = .ok c)
    (hne : ∀ part, c ≠ .condition part) : ¬compiler.States P expr := by
  rw [states_iff h]
  rintro ⟨⟨part, rfl⟩, -⟩
  exact hne part rfl

/-- Only conditions have parameters, and they have those of what stands in them. -/
theorem carries_iff_states {c : Compiled} (h : compiler.compile expr = .ok c)
    (hcondition : ∀ part, c = .condition part → part.Merges request →
      (part.Carries request Q ↔ P expr ∨ ∃ operand ∈ expr.operands, compiler.States P operand))
    (hmerges : c.Merges request) : c.Carries request Q ↔ compiler.States P expr := by
  cases c with
  | condition part =>
      rw [states_iff h, and_iff_right ⟨part, rfl⟩]
      exact hcondition part rfl hmerges
  | _ => exact iff_of_false id (not_states h fun part hpart => by cases hpart)

/-- Exchanging the sides of a comparison neither makes nor loses a membership. -/
theorem exchange_membership {op flipped : BinaryOp} (h : exchange op = .ok flipped) :
    (flipped = .containsOneOf ∨ flipped = .containsNone) ↔
      (op = .containsOneOf ∨ op = .containsNone) := by
  cases op <;> cases h <;> simp

/-! ## Operands -/

/-- A node that is no value is not folded, and not all its operands are values. -/
theorem unfolded {operands : List Compiled} {rest : Except CompileFault Compiled} {c : Compiled}
    (hvalue : c.isValue = false) (h : (do
      match ← fold? expr operands with
      | some folded => return folded
      | none => rest) = .ok c) : operands.all Compiled.isValue = false ∧ rest = .ok c := by
  obtain ⟨folded, hfold, h⟩ := bind_eq_ok.mp h
  cases folded with
  | none => exact ⟨isValue_of_fold?_eq_none hfold, h⟩
  | some folded =>
      cases h
      rcases fold?_eq_some hfold with ⟨value, rfl⟩ | rfl
      · cases hvalue
      · cases hvalue

/-- What the backend computes for a slot lacks what the compiled operand lacked. -/
theorem lacks_of_term {c : Compiled} {slot : Slot} {term : Term} (hc : c.Lacks request Q)
    (hslot : Slot.ofCompiled c = .ok slot) (hterm : slot.term request = .ok term) :
    term.Lacks request Q := by
  cases c with
  | condition part => cases hslot
  | dynamic expr =>
      cases hslot
      rw [Slot.term] at hterm
      split at hterm
      next =>
        cases hterm
        trivial
      next => cases hterm
  | _ =>
      cases hslot
      cases hterm
      exact hc

/-- A rendering with a parameter is what is written of its operands for the request. -/
theorem exists_of_merges_render {slots : List Slot} {write : List Term → Rendering} {part : Part}
    (h : compiler.render slots write = .ok part) (hmerges : part.Merges request) :
    ∃ terms rendered, slots.mapM (Slot.term request) = .ok terms ∧ write terms = .ok rendered ∧
      part.merge request = rendered.merge request := by
  obtain ⟨statement, hmerge⟩ := hmerges
  have hterms := hmerge
  rw [merge_render h] at hterms
  obtain ⟨terms, hterm, hwritten⟩ := bind_eq_ok.mp hterms
  obtain ⟨rendered, hwrite, hrendered⟩ := exists_of_mergeRendering hwritten
  exact ⟨terms, rendered, hterm, hwrite, hmerge.trans hrendered.symm⟩

/-- What is supplied for a request is the value that the operand has then. -/
theorem supplies_iff {c : Compiled} {slot : Slot} {term : Term}
    (hslot : Slot.ofCompiled c = .ok slot) (hterm : slot.term request = .ok term) (value : Value) :
    c.Supplies request value ↔ term = .value value := by
  cases c with
  | condition part => cases hslot
  | constant known =>
      cases hslot
      cases hterm
      rw [Compiled.Supplies, Term.value.injEq, eq_comm]
  | dynamic expr =>
      cases hslot
      rw [Slot.term] at hterm
      split at hterm
      next found hfound =>
        cases hterm
        rw [Compiled.Supplies, hfound, Except.ok.injEq, Term.value.injEq]
      next => cases hterm
  | attr | computed =>
      cases hslot
      cases hterm
      exact iff_of_false id nofun

theorem not_supplies {c : Compiled} (h : c.isValue = false) (value : Value) :
    ¬c.Supplies request value := by
  cases c with
  | constant | dynamic => cases h
  | _ => exact id

variable (hguards : compiler.dialect.Guards request Q E)

include hguards

/-! ## Computations -/

/-- Arithmetic carries nothing that both its operands lack. -/
theorem not_carries_arithmetic {op : BinaryOp} {left right : Slot} {part : Part}
    (hleft : ∀ term, left.term request = .ok term → term.Lacks request Q)
    (hright : ∀ term, right.term request = .ok term → term.Lacks request Q)
    (h : compiler.renderTwo left right (compiler.dialect.arithmetic op) = .ok part) :
    ¬part.Carries request Q := by
  intro hcarries
  obtain ⟨l, r, rendered, hl, hr, hwrite, hmerge⟩ := exists_of_merges_renderTwo h hcarries.merges
  rw [Part.carries_congr hmerge] at hcarries
  exact hguards.arithmetic (hleft l hl) (hright r hr) hwrite hcarries

theorem call_lacks {function : Builtin} {arguments : List Compiled}
    (harguments : ∀ argument ∈ arguments, argument.Lacks request Q) :
    Yields (Compiled.Lacks request Q) (compiler.call expr function arguments) := by
  intro c hc
  cases c with
  | computed part type =>
      obtain ⟨-, h⟩ := unfolded rfl hc
      obtain ⟨slots, hslots, h⟩ := bind_eq_ok.mp h
      obtain ⟨written, hwritten, h⟩ := bind_eq_ok.mp h
      cases h
      intro hcarries
      obtain ⟨terms, rendered, hterms, hwrite, hmerge⟩ :=
        exists_of_merges_render hwritten hcarries.merges
      rw [Part.carries_congr hmerge] at hcarries
      refine hguards.function (fun term hterm => ?_) hwrite hcarries
      obtain ⟨slot, hslot, hterm⟩ := exists_of_forall₂ (mapM_eq_ok.mp hterms) hterm
      obtain ⟨argument, hargument, hslot⟩ := exists_of_forall₂ (mapM_eq_ok.mp hslots) hslot
      exact lacks_of_term (harguments argument hargument) hslot hterm
  | _ => trivial

theorem arithmetic_lacks {op : BinaryOp} {left right : Compiled} (hleft : left.Lacks request Q)
    (hright : right.Lacks request Q) :
    Yields (Compiled.Lacks request Q) (compiler.arithmetic expr op left right) := by
  intro c hc
  cases c with
  | computed part type =>
      obtain ⟨-, h⟩ := unfolded rfl hc
      obtain ⟨leftSlot, hl, h⟩ := bind_eq_ok.mp h
      obtain ⟨rightSlot, hr, h⟩ := bind_eq_ok.mp h
      obtain ⟨written, hwritten, h⟩ := bind_eq_ok.mp h
      cases h
      exact not_carries_arithmetic hguards (fun _ => lacks_of_term hleft hl)
        (fun _ => lacks_of_term hright hr) hwritten
  | _ => trivial

theorem unary_lacks {op : UnaryOp} {operand : Compiled} (hoperand : operand.Lacks request Q) :
    Yields (Compiled.Lacks request Q) (compiler.unary expr op operand) := by
  intro c hc
  cases c with
  | computed part type =>
      obtain ⟨-, h⟩ := unfolded rfl hc
      have hnullCheck {op : UnaryOp} :
          compiler.nullCheck op operand ≠ .ok (.computed part type) := by
        intro h
        unfold nullCheck at h
        split at h
        next => cases h
        next =>
          obtain ⟨slot, -, h⟩ := bind_eq_ok.mp h
          obtain ⟨written, -, h⟩ := bind_eq_ok.mp h
          cases h
      cases op with
      | not =>
          obtain ⟨inner, -, h⟩ := bind_eq_ok.mp h
          cases h
      | negate =>
          obtain ⟨slot, hslot, h⟩ := bind_eq_ok.mp h
          obtain ⟨written, hwritten, h⟩ := bind_eq_ok.mp h
          cases h
          refine not_carries_arithmetic hguards (fun term hterm => ?_)
            (fun _ => lacks_of_term hoperand hslot) hwritten
          cases hterm
          trivial
      | isNull => exact absurd h hnullCheck
      | notNull => exact absurd h hnullCheck
  | _ => trivial

omit hguards in
/-- No comparison is a computation, so it lacks everything. -/
theorem comparison_lacks {op : BinaryOp} {left right : Compiled} :
    Yields (Compiled.Lacks request Q) (compiler.comparison expr op left right) := by
  intro c hc
  cases c with
  | computed part type =>
      have hcondition (op : BinaryOp) (left right : Compiled) : (do
          let leftSlot ← Slot.ofCompiled left
          let rightSlot ← Slot.ofCompiled right
          return Compiled.condition (← compiler.renderTwo leftSlot rightSlot
            (compiler.dialect.comparison op))) ≠ .ok (.computed part type) := by
        intro h
        obtain ⟨leftSlot, -, h⟩ := bind_eq_ok.mp h
        obtain ⟨rightSlot, -, h⟩ := bind_eq_ok.mp h
        obtain ⟨written, -, h⟩ := bind_eq_ok.mp h
        cases h
      obtain ⟨-, h⟩ := unfolded rfl hc
      simp only at h
      split at h
      next =>
        obtain ⟨flipped, -, h⟩ := bind_eq_ok.mp h
        exact absurd h (hcondition flipped right left)
      next => exact absurd h (hcondition op left right)
  | _ => trivial

omit hguards in
theorem junction_lacks {op : BinaryOp} {operands : List Compiled} :
    Yields (Compiled.Lacks request Q) (compiler.junction expr op operands) := by
  intro c hc
  cases c with
  | computed part type =>
      obtain ⟨-, h⟩ := unfolded rfl hc
      obtain ⟨parts?, -, h⟩ := bind_eq_ok.mp h
      split at h <;> cases h
  | _ => trivial

/-- No computation of the backend that is compiled has such a parameter. -/
theorem compile_lacks : Yields (Compiled.Lacks request Q) (compiler.compile expr) := by
  refine compile_induction (motive := fun _ => Compiled.Lacks request Q)
    (fun _ _ => trivial) (fun _ _ _ _ => trivial) (fun _ _ _ => trivial) ?call ?unary ?junction
      ?binary
  case call =>
    intro function arguments expected compiled c _ harguments hc
    refine call_lacks hguards (fun argument hargument => ?_) c hc
    obtain ⟨_, -, -, hlacks⟩ := exists_of_forall₂ harguments hargument
    exact hlacks
  case unary =>
    intro op operand compiled c _ _ hlacks hc
    exact unary_lacks hguards hlacks c hc
  case junction =>
    intro op left right operands c _ _ _ hc
    exact junction_lacks c hc
  case binary =>
    intro op left right first second c _ _ _ hfirst _ hsecond hc
    split at hc
    next => exact comparison_lacks c hc
    next => exact arithmetic_lacks hguards hfirst hsecond c hc

/-! ## Conditions -/

theorem not_carries_holdsTrue {term : Term} {part : Part} (hterm : term.Lacks request Q)
    (h : compiler.holdsTrue term = .ok part) (hmerges : part.Merges request) :
    ¬part.Carries request Q := by
  have hvalue : (Term.value (.boolean true)).Lacks request Q := trivial
  rw [hguards.comparison hterm hvalue h hmerges]
  rintro ⟨hop | hop, -⟩
  · cases hop
  · cases hop

/-- Making a condition of something adds no parameter with the property. -/
theorem carries_condition_iff {c : Compiled} {part : Part} (hc : c.Lacks request Q)
    (h : compiler.condition c = .ok part) (hmerges : part.Merges request) :
    part.Carries request Q ↔ c.Carries request Q := by
  have htruth : ∀ {value : Value} {part : Part},
      (do return compiler.dialect.truth (← value.conditionTruth)) = Except.ok part →
        ¬part.Carries request Q := by
    intro value part h
    obtain ⟨holds, -, h⟩ := bind_eq_ok.mp h
    cases h
    exact hguards.truth holds
  cases c with
  | condition condition =>
      cases h
      exact Iff.rfl
  | constant value => exact iff_of_false (htruth h) id
  | dynamic expr =>
      obtain ⟨term, rendered, hterm, hwrite, hmerge⟩ := exists_of_merges_renderOne h hmerges
      rw [Slot.term] at hterm
      split at hterm
      next value _ =>
        cases hterm
        rw [Part.carries_congr hmerge]
        exact iff_of_false (htruth hwrite) id
      next => cases hterm
  | attr definition =>
      rw [condition] at h
      split at h
      next =>
        have hattr : (Term.attr definition).Lacks request Q := trivial
        exact iff_of_false (not_carries_holdsTrue hguards hattr h hmerges) id
      next => cases h
  | computed inner type =>
      rw [condition] at h
      split at h
      next =>
        have hinner : (Term.computed inner type).Lacks request Q := hc
        exact iff_of_false (not_carries_holdsTrue hguards hinner h hmerges) id
      next => cases h

/-- A comparison has such a parameter exactly if it is a membership whose right side supplies it.
Its left side is no value. -/
theorem carries_rendered {op : BinaryOp} {left right : Compiled} {part : Part}
    (hvalue : left.isValue = false) (hleft : left.Lacks request Q) (hright : right.Lacks request Q)
    (h : (do
      let leftSlot ← Slot.ofCompiled left
      let rightSlot ← Slot.ofCompiled right
      return Compiled.condition (← compiler.renderTwo leftSlot rightSlot
        (compiler.dialect.comparison op))) = .ok (.condition part))
    (hmerges : part.Merges request) :
    ((∀ part, left ≠ .condition part) ∧ ∀ part, right ≠ .condition part) ∧
    (part.Carries request Q ↔ (op = .containsOneOf ∨ op = .containsNone) ∧
      ∃ side ∈ [left, right], ∃ value, side.Supplies request value ∧
        ∃ element ∈ value.elements, E element) := by
  obtain ⟨leftSlot, hl, h⟩ := bind_eq_ok.mp h
  obtain ⟨rightSlot, hr, h⟩ := bind_eq_ok.mp h
  obtain ⟨written, hwritten, h⟩ := bind_eq_ok.mp h
  cases h
  refine ⟨⟨ne_condition_of_ofCompiled hl, ne_condition_of_ofCompiled hr⟩, ?_⟩
  obtain ⟨l, r, rendered, hlterm, hrterm, hcomparison, hmerge⟩ :=
    exists_of_merges_renderTwo hwritten hmerges
  have hmerges : rendered.Merges request := by
    rwa [Part.Merges, ← hmerge]
  rw [Part.carries_congr hmerge, hguards.comparison (lacks_of_term hleft hl hlterm)
    (lacks_of_term hright hr hrterm) hcomparison hmerges]
  simp [not_supplies hvalue, supplies_iff hr hrterm]

/-- A comparison carries exactly the candidates that a side of a membership supplies. -/
theorem carries_of_comparison {op : BinaryOp} {left right : Compiled} {part : Part}
    (hleft : left.Lacks request Q) (hright : right.Lacks request Q)
    (h : compiler.comparison expr op left right = .ok (.condition part))
    (hmerges : part.Merges request) :
    ((∀ part, left ≠ .condition part) ∧ ∀ part, right ≠ .condition part) ∧
    (part.Carries request Q ↔ (op = .containsOneOf ∨ op = .containsNone) ∧
      ∃ side ∈ [left, right], ∃ value, side.Supplies request value ∧
        ∃ element ∈ value.elements, E element) := by
  obtain ⟨hvalues, h⟩ := unfolded rfl h
  simp only at h
  split at h
  next hvalue =>
    obtain ⟨flipped, hflip, h⟩ := bind_eq_ok.mp h
    have hother : right.isValue = false := by simpa [hvalue] using hvalues
    obtain ⟨⟨hne, hne'⟩, hcarries⟩ := carries_rendered hguards hother hright hleft h hmerges
    refine ⟨⟨hne', hne⟩, ?_⟩
    rw [hcarries, exchange_membership hflip]
    simp [or_comm]
  next hvalue =>
    exact carries_rendered hguards (by simpa using hvalue) hleft hright h hmerges

/-- An operation on a condition carries what the condition does. -/
theorem carries_of_unary {op : UnaryOp} {operand : Compiled} {part : Part}
    (hoperand : operand.Lacks request Q)
    (h : compiler.unary expr op operand = .ok (.condition part)) (hmerges : part.Merges request) :
    operand.Merges request ∧ (part.Carries request Q ↔ operand.Carries request Q) := by
  obtain ⟨-, h⟩ := unfolded rfl h
  have hnullCheck : ∀ {op}, compiler.nullCheck op operand = .ok (.condition part) →
      operand.Merges request ∧ (part.Carries request Q ↔ operand.Carries request Q) := by
    intro op h
    unfold nullCheck at h
    split at h
    next => cases h
    next hne =>
      obtain ⟨slot, hslot, h⟩ := bind_eq_ok.mp h
      obtain ⟨written, hwritten, h⟩ := bind_eq_ok.mp h
      cases h
      obtain ⟨term, rendered, hterm, hwrite, hmerge⟩ := exists_of_merges_renderOne hwritten hmerges
      refine ⟨merges_of_ofCompiled hslot, ?_⟩
      rw [Part.carries_congr hmerge]
      refine iff_of_false (hguards.nullCheck (lacks_of_term hoperand hslot hterm) hwrite) ?_
      cases operand with
      | condition inner => exact absurd rfl (hne inner)
      | _ => exact id
  cases op with
  | not =>
      obtain ⟨inner, hinner, h⟩ := bind_eq_ok.mp h
      cases h
      obtain ⟨hmerges, hcarries⟩ := hguards.negation hmerges
      refine ⟨merges_of_condition hinner hmerges, ?_⟩
      rw [hcarries, carries_condition_iff hguards hoperand hinner hmerges]
  | negate =>
      obtain ⟨slot, -, h⟩ := bind_eq_ok.mp h
      obtain ⟨written, -, h⟩ := bind_eq_ok.mp h
      cases h
  | isNull => exact hnullCheck h
  | notNull => exact hnullCheck h

/-- The parts of a junction carry what its operands do: those left out are values. -/
theorem carries_junctionParts {deciding : Bool} {operands : List Compiled} {parts : List Part}
    (hoperands : ∀ c ∈ operands, c.Lacks request Q)
    (h : compiler.junctionParts deciding operands = .ok (some parts))
    (hparts : ∀ part ∈ parts, part.Merges request) :
    (∃ part ∈ parts, part.Carries request Q) ↔ ∃ c ∈ operands, c.Carries request Q := by
  induction operands generalizing parts with
  | nil =>
      cases h
      simp
  | cons c rest ih =>
      rw [List.forall_mem_cons] at hoperands
      by_cases hconstant : c.isConstant = true
      · cases c with
        | constant value =>
            rw [junctionParts] at h
            obtain ⟨holds, -, h⟩ := bind_eq_ok.mp h
            split at h
            next => cases h
            next => simp [ih hoperands.2 h hparts, Compiled.Carries]
        | _ => cases hconstant
      · rw [junctionParts_cons deciding (by simpa using hconstant)] at h
        obtain ⟨part, hpart, h⟩ := bind_eq_ok.mp h
        obtain ⟨others, hothers, h⟩ := map_eq_ok.mp h
        obtain ⟨others, rfl, rfl⟩ := Option.map_eq_some_iff.mp h
        rw [List.forall_mem_cons] at hparts
        rw [List.exists_mem_cons_iff, List.exists_mem_cons_iff, ih hoperands.2 hothers hparts.2,
          carries_condition_iff hguards hoperands.1 hpart hparts.1]

/-- A junction carries what any of its operands carries. -/
theorem carries_of_junction {op : BinaryOp} {operands : List Compiled} {part : Part}
    (hoperands : ∀ c ∈ operands, c.Lacks request Q)
    (h : compiler.junction expr op operands = .ok (.condition part))
    (hmerges : part.Merges request) :
    (∀ c ∈ operands, c.Merges request) ∧
      (part.Carries request Q ↔ ∃ c ∈ operands, c.Carries request Q) := by
  obtain ⟨-, h⟩ := unfolded rfl h
  obtain ⟨parts?, hparts, h⟩ := bind_eq_ok.mp h
  -- The parts that the operands leave merge, and the junction carries what they carry.
  have hjoined : ∀ {parts}, parts? = some parts → (∀ part ∈ parts, part.Merges request) →
      (part.Carries request Q ↔ ∃ part ∈ parts, part.Carries request Q) →
        (∀ c ∈ operands, c.Merges request) ∧
          (part.Carries request Q ↔ ∃ c ∈ operands, c.Carries request Q) := by
    rintro parts rfl hall hcarries
    exact ⟨merges_of_junctionParts hparts hall,
      hcarries.trans (carries_junctionParts hguards hoperands hparts hall)⟩
  cases parts? with
  | none => cases h
  | some parts =>
      split at h
      next heq => cases heq
      next single heq =>
        cases heq
        cases h
        exact hjoined rfl (List.forall_mem_singleton.mpr hmerges) (by simp)
      next others _ heq =>
        cases heq
        cases h
        obtain ⟨hall, hcarries⟩ := hguards.junction hmerges
        exact hjoined rfl hall hcarries

/-- What is compiled has a parameter of the kind exactly if a membership that stands in it offers a
candidate of the kind. -/
theorem compile_carries_iff : Yields (fun c => c.Merges request →
    (c.Carries request Q ↔ compiler.States (compiler.Offers request E) expr))
      (compiler.compile expr) := by
  refine compile_induction (motive := fun expr c => c.Merges request →
    (c.Carries request Q ↔ compiler.States (compiler.Offers request E) expr))
    ?literal ?row ?other ?call ?unary ?junction ?binary
  case literal =>
    intro value type
    exact carries_iff_states (by rw [compile]) fun part hpart => by cases hpart
  case row =>
    intro path expected definition hresolve
    exact carries_iff_states (compile_rowReference hresolve) fun part hpart => by cases hpart
  case other =>
    intro path expected hcompile
    exact carries_iff_states hcompile fun part hpart => by cases hpart
  case call =>
    intro function arguments expected compiled c hcompile _ hc
    refine carries_iff_states hcompile fun part hpart _ => ?_
    subst hpart
    obtain ⟨slots, -, h⟩ := bind_eq_ok.mp (unfolded rfl hc).2
    obtain ⟨written, -, h⟩ := bind_eq_ok.mp h
    cases h
  case unary =>
    intro op operand compiled c hcompile hoperand ih hc
    refine carries_iff_states hcompile fun part hpart hmerges => ?_
    subst hpart
    obtain ⟨hmerges, hcarries⟩ :=
      carries_of_unary hguards (compile_lacks hguards compiled hoperand) hc hmerges
    rw [hcarries, ih hmerges]
    simp [Offers, Expr.operands]
  case junction =>
    intro op left right operands c hlogical hcompile hoperands hc
    refine carries_iff_states hcompile fun part hpart hmerges => ?_
    subst hpart
    have hlacks (c : Compiled) (hc : c ∈ operands) : c.Lacks request Q := by
      obtain ⟨operand, -, hcompiled, -⟩ := exists_of_forall₂ hoperands hc
      exact compile_lacks hguards c hcompiled
    obtain ⟨hall, hcarries⟩ := carries_of_junction hguards hlacks hc hmerges
    -- No junction is a membership, so only its operands can be what is stated.
    have hnot : ¬compiler.Offers request E (.binary op left right) := by
      rintro ⟨rfl | rfl, -⟩
      · cases hlogical
      · cases hlogical
    rw [hcarries, or_iff_right hnot, Expr.operands, if_pos hlogical]
    constructor
    · rintro ⟨c, hc, hcarries⟩
      obtain ⟨operand, hoperand, -, hmotive⟩ := exists_of_forall₂ hoperands hc
      exact ⟨operand, hoperand, (hmotive (hall c hc)).mp hcarries⟩
    · rintro ⟨operand, hoperand, hstates⟩
      obtain ⟨c, hc, -, hmotive⟩ := exists_of_forall₂ hoperands.flip hoperand
      exact ⟨c, hc, (hmotive (hall c hc)).mpr hstates⟩
  case binary =>
    intro op left right first second c hlogical hcompile hfirst _ hsecond _ hc
    refine carries_iff_states hcompile fun part hpart hmerges => ?_
    subst hpart
    split at hc
    next =>
      obtain ⟨⟨hleft, hright⟩, hcarries⟩ := carries_of_comparison hguards
        (compile_lacks hguards first hfirst) (compile_lacks hguards second hsecond) hc hmerges
      -- The sides of a comparison are no conditions, so nothing is stated in them.
      have hnone : ¬∃ operand ∈ (Expr.binary op left right).operands,
          compiler.States (compiler.Offers request E) operand := by
        simp [Expr.operands, hlogical, not_states hfirst hleft, not_states hsecond hright]
      rw [hcarries, or_iff_left hnone]
      simp [Offers, hfirst, hsecond]
    next =>
      obtain ⟨leftSlot, -, h⟩ := bind_eq_ok.mp (unfolded rfl hc).2
      obtain ⟨rightSlot, -, h⟩ := bind_eq_ok.mp h
      obtain ⟨written, -, h⟩ := bind_eq_ok.mp h
      cases h

end Compiler

end RowFilter
