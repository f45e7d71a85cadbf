import RowFilter.Proofs.Statement.CompileInduction
import RowFilter.Statement.Filter

/-! # Properties of compiled parts

A property of parts that every construct of a dialect keeps, and that rendering operands keeps for
whatever they are deferred to, holds of everything that an expression compiles to.
-/

namespace RowFilter

section

variable (N : Attribute → Prop) (D : Expr → Prop) (P : Part → Prop)

/-- Attributes and what the backend computes have their properties. -/
def Term.Respects : Term → Prop
  | .attr definition => N definition
  | .computed part _ => P part
  | .value _ => True

def Slot.Respects : Slot → Prop
  | .ready term => term.Respects N P
  | .deferred expr => D expr

def Compiled.Respects : Compiled → Prop
  | .constant _ => True
  | .dynamic expr => D expr
  | .attr definition => N definition
  | .computed part _ | .condition part => P part

/-- What a dialect writes of terms and parts that have their properties has them too. -/
structure Dialect.Respects (dialect : Dialect) : Prop where
  comparison : ∀ op left right, left.Respects N P → right.Respects N P →
    Yields P (dialect.comparison op left right)
  nullCheck : ∀ term isNull, term.Respects N P → Yields P (dialect.nullCheck term isNull)
  junction : ∀ op parts, parts ≠ [] → (∀ part ∈ parts, P part) → P (dialect.junction op parts)
  negation : ∀ part, P part → P (dialect.negation part)
  truth : ∀ holds, P (dialect.truth holds)
  arithmetic : ∀ op left right, left.Respects N P → right.Respects N P →
    Yields P (dialect.arithmetic op left right)
  function : ∀ function arguments, (∀ term ∈ arguments, term.Respects N P) →
    Yields P (dialect.function function arguments)

/-- A rendering has a property that all have that are written of its operands for a request. -/
def Deferrable : Prop :=
  ∀ (compiler : Compiler) (slots : List Slot) (write : List Term → Rendering),
    (∀ expr, Slot.deferred expr ∈ slots → D expr) →
    (∀ request terms, slots.mapM (Slot.term request) = .ok terms → Yields P (write terms)) →
      Yields P (compiler.render slots write)

end

variable {N : Attribute → Prop} {D : Expr → Prop} {P : Part → Prop}

/-! ## Renderings -/

/-- The term of a slot has its properties for every request. -/
theorem Slot.Respects.term {slot : Slot} (h : slot.Respects N D P) (request : Request) :
    Yields (Term.Respects N P) (slot.term request) := by
  cases slot with
  | ready term => exact Yields.ok h
  | deferred expr =>
      rw [Slot.term]
      split
      next => exact Yields.ok trivial
      next => exact Yields.error _

theorem ofCompiled_respects {c : Compiled} (h : c.Respects N D P) :
    Yields (Slot.Respects N D P) (Slot.ofCompiled c) := by
  cases c with
  | constant value => exact Yields.ok trivial
  | dynamic expr => exact Yields.ok h
  | attr definition => exact Yields.ok h
  | computed part type => exact Yields.ok h
  | condition part => exact Yields.error _

namespace Compiler

variable {compiler : Compiler} (hrender : Deferrable D P)

include hrender

/-- What is rendered of slots has a property that all has that is written of their terms. -/
theorem render_respects {slots : List Slot} (hslots : ∀ slot ∈ slots, slot.Respects N D P)
    {write : List Term → Rendering} (hwrite : ∀ terms, (∀ term ∈ terms, term.Respects N P) →
      Yields P (write terms)) : Yields P (compiler.render slots write) := by
  refine hrender compiler slots write (fun expr hexpr => hslots _ hexpr) ?_
  intro request terms hterms
  exact hwrite terms (Yields.mapM (fun slot hslot => (hslots slot hslot).term request) terms hterms)

/-- One slot is rendered with the property if what is written of its terms has it. -/
theorem renderOne_respects {slot : Slot} (hslot : slot.Respects N D P) {write : Term → Rendering}
    (hwrite : ∀ request term, slot.term request = .ok term → Yields P (write term)) :
    Yields P (compiler.renderOne slot write) := by
  refine hrender compiler [slot] _ ?_ fun request terms hterms => ?_
  · intro expr hexpr
    obtain rfl := List.mem_singleton.mp hexpr
    exact hslot
  · obtain ⟨term, others, hterm, hothers, rfl⟩ :=
      List.forall₂_cons_left_iff.mp (mapM_eq_ok.mp hterms)
    obtain rfl := List.forall₂_nil_left_iff.mp hothers
    exact hwrite request term hterm

theorem renderTwo_respects {left right : Slot} (hleft : left.Respects N D P)
    (hright : right.Respects N D P) {write : Term → Term → Rendering}
    (hwrite : ∀ l r, l.Respects N P → r.Respects N P → Yields P (write l r)) :
    Yields P (compiler.renderTwo left right write) := by
  refine hrender compiler [left, right] _ ?_ fun request terms hterms => ?_
  · intro expr hexpr
    rcases List.mem_cons.mp hexpr with rfl | hexpr
    · exact hleft
    · obtain rfl := List.mem_singleton.mp hexpr
      exact hright
  · obtain ⟨l, others, hl, hothers, rfl⟩ := List.forall₂_cons_left_iff.mp (mapM_eq_ok.mp hterms)
    obtain ⟨r, rest, hr, hrest, rfl⟩ := List.forall₂_cons_left_iff.mp hothers
    obtain rfl := List.forall₂_nil_left_iff.mp hrest
    exact hwrite l r (hleft.term request l hl) (hright.term request r hr)

variable (hdialect : compiler.dialect.Respects N P)

include hdialect

/-! ## Nodes -/

/-- If what is compiled can be made a condition, the condition has the property. -/
theorem condition_respects {c : Compiled} (h : c.Respects N D P) :
    Yields P (compiler.condition c) := by
  have htruth : ∀ value : Value, Yields P
      (do return compiler.dialect.truth (← value.conditionTruth)) :=
    fun value => Yields.step fun holds _ => Yields.ok (hdialect.truth holds)
  cases c with
  | condition part => exact Yields.ok h
  | constant value => exact htruth value
  | dynamic expr =>
      have hslot : (Slot.deferred expr).Respects N D P := h
      refine renderOne_respects hrender hslot fun request term hterm => ?_
      rw [Slot.term] at hterm
      split at hterm
      next value _ =>
        cases hterm
        exact htruth value
      next => cases hterm
  | attr definition =>
      refine Yields.ite (fun _ => ?_) fun _ => Yields.error _
      exact hdialect.comparison .eq (.attr definition) (.value (.boolean true)) h trivial
  | computed part type =>
      refine Yields.ite (fun _ => ?_) fun _ => Yields.error _
      exact hdialect.comparison .eq (.computed part type) (.value (.boolean true)) h trivial

/-- The parts of a junction have the property, and there are some unless all operands are
constants. -/
theorem junctionParts_respects (deciding : Bool) {operands : List Compiled}
    (h : ∀ c ∈ operands, c.Respects N D P) {parts : List Part}
    (hparts : compiler.junctionParts deciding operands = .ok (some parts)) :
    (∀ part ∈ parts, P part) ∧ (operands.all Compiled.isConstant = false → parts ≠ []) := by
  induction operands generalizing parts with
  | nil =>
      cases hparts
      exact ⟨by simp, by simp⟩
  | cons c rest ih =>
      rw [List.forall_mem_cons] at h
      by_cases hconstant : c.isConstant = true
      · cases c with
        | constant value =>
            rw [junctionParts] at hparts
            obtain ⟨holds, -, hparts⟩ := bind_eq_ok.mp hparts
            split at hparts
            next => cases hparts
            next =>
              obtain ⟨hall, hne⟩ := ih h.2 hparts
              exact ⟨hall, fun hsome => hne (by simpa [Compiled.isConstant] using hsome)⟩
        | _ => cases hconstant
      · rw [junctionParts_cons deciding (by simpa using hconstant)] at hparts
        obtain ⟨part, hpart, hparts⟩ := bind_eq_ok.mp hparts
        cases hrest : compiler.junctionParts deciding rest with
        | error fault => rw [hrest] at hparts; cases hparts
        | ok others =>
            cases others with
            | none => rw [hrest] at hparts; cases hparts
            | some others =>
                rw [hrest] at hparts
                cases hparts
                have hfirst := condition_respects hrender hdialect h.1 part hpart
                exact ⟨List.forall_mem_cons.mpr ⟨hfirst, (ih h.2 hrest).1⟩,
                  fun _ => List.cons_ne_nil _ _⟩

omit hrender hdialect

/-- What a node is compiled to has its property, or the node is deferred as a whole. -/
abbrev RespectsOr (N : Attribute → Prop) (D : Expr → Prop) (P : Part → Prop) (expr : Expr)
    (c : Compiled) : Prop :=
  c.Respects N D P ∨ c = .dynamic expr

/-- A node that is not folded is what the rest makes of it, and not all of its operands are
values. -/
theorem fold_respects {expr : Expr} {operands : List Compiled} {rest : Except CompileFault Compiled}
    (h : operands.all Compiled.isValue = false → Yields (Compiled.Respects N D P) rest) :
    Yields (RespectsOr N D P expr) (do
      match ← fold? expr operands with
      | some folded => return folded
      | none => rest) := by
  refine Yields.step fun folded hfolded => ?_
  cases folded with
  | some folded =>
      rcases fold?_eq_some hfolded with ⟨value, rfl⟩ | rfl
      · exact Yields.ok (Or.inl trivial)
      · exact Yields.ok (Or.inr rfl)
  | none => exact (h (isValue_of_fold?_eq_none hfolded)).mono fun c hc => Or.inl hc

include hrender hdialect

/-- A junction has the property, or is deferred as a whole. -/
theorem junction_respects {expr : Expr} {op : BinaryOp} {operands : List Compiled}
    (h : ∀ c ∈ operands, c.Respects N D P) :
    Yields (RespectsOr N D P expr) (compiler.junction expr op operands) := by
  refine fold_respects fun hvalues => Yields.step fun parts? hparts => ?_
  -- Constants are values, so some operand is left in the junction.
  have hconstant : operands.all Compiled.isConstant = false := by
    rw [List.all_eq_false] at hvalues ⊢
    obtain ⟨c, hc, hvalue⟩ := hvalues
    refine ⟨c, hc, fun hconstant => hvalue ?_⟩
    cases c with
    | constant value => rfl
    | _ => cases hconstant
  cases parts? with
  | none => exact Yields.ok trivial
  | some parts =>
      obtain ⟨hall, hne⟩ := junctionParts_respects hrender hdialect op.deciding h hparts
      split
      next heq => cases heq
      next part heq =>
        cases heq
        exact Yields.ok (hall part List.mem_cons_self)
      next others _ heq =>
        cases heq
        exact Yields.ok (hdialect.junction op parts (hne hconstant) hall)

/-- A comparison has the property, or is deferred as a whole. -/
theorem comparison_respects {expr : Expr} {op : BinaryOp} {left right : Compiled}
    (hleft : left.Respects N D P) (hright : right.Respects N D P) :
    Yields (RespectsOr N D P expr) (compiler.comparison expr op left right) := by
  refine fold_respects fun _ => ?_
  have hcondition : ∀ (op : BinaryOp) (first second : Compiled), first.Respects N D P →
      second.Respects N D P → Yields (Compiled.Respects N D P) (do
        let leftSlot ← Slot.ofCompiled first
        let rightSlot ← Slot.ofCompiled second
        return Compiled.condition (← compiler.renderTwo leftSlot rightSlot
          (compiler.dialect.comparison op))) := by
    intro op first second hfirst hsecond
    refine (ofCompiled_respects hfirst).bind fun leftSlot hl => ?_
    refine (ofCompiled_respects hsecond).bind fun rightSlot hr => ?_
    exact (renderTwo_respects hrender hl hr (hdialect.comparison op)).bind fun part hpart =>
      Yields.ok hpart
  simp only
  split
  next => exact Yields.step fun flipped _ => hcondition flipped right left hright hleft
  next => exact hcondition op left right hleft hright

theorem arithmetic_respects {expr : Expr} {op : BinaryOp} {left right : Compiled}
    (hleft : left.Respects N D P) (hright : right.Respects N D P) :
    Yields (RespectsOr N D P expr) (compiler.arithmetic expr op left right) := by
  refine fold_respects fun _ => ?_
  refine (ofCompiled_respects hleft).bind fun leftSlot hl => ?_
  refine (ofCompiled_respects hright).bind fun rightSlot hr => ?_
  exact (renderTwo_respects hrender hl hr (hdialect.arithmetic op)).bind fun part hpart =>
    Yields.ok hpart

theorem call_respects {expr : Expr} {function : Builtin} {arguments : List Compiled}
    (h : ∀ c ∈ arguments, c.Respects N D P) :
    Yields (RespectsOr N D P expr) (compiler.call expr function arguments) := by
  refine fold_respects fun _ => ?_
  have hslots : Yields (fun slots => ∀ slot ∈ slots, slot.Respects N D P)
      (arguments.mapM Slot.ofCompiled) := Yields.mapM fun c hc => ofCompiled_respects (h c hc)
  refine hslots.bind fun slots hall => ?_
  exact (render_respects hrender hall (hdialect.function function)).bind fun part hpart =>
    Yields.ok hpart

theorem nullCheck_respects {op : UnaryOp} {operand : Compiled} (h : operand.Respects N D P) :
    Yields (Compiled.Respects N D P) (compiler.nullCheck op operand) := by
  unfold nullCheck
  split
  next => exact Yields.error _
  next =>
    refine (ofCompiled_respects h).bind fun slot hslot => ?_
    have hcheck : Yields P (compiler.renderOne slot fun term =>
        compiler.dialect.nullCheck term (op == .isNull)) :=
      renderOne_respects hrender hslot fun request term hterm =>
        hdialect.nullCheck term _ (hslot.term request term hterm)
    exact hcheck.bind fun part hpart => Yields.ok hpart

/-- An operation on one operand has the property, or is deferred as a whole. -/
theorem unary_respects {expr : Expr} {op : UnaryOp} {operand : Compiled}
    (h : operand.Respects N D P) :
    Yields (RespectsOr N D P expr) (compiler.unary expr op operand) := by
  refine fold_respects fun _ => ?_
  cases op with
  | not =>
      exact (condition_respects hrender hdialect h).bind fun part hpart =>
        Yields.ok (hdialect.negation part hpart)
  | negate =>
      refine (ofCompiled_respects h).bind fun slot hslot => ?_
      have hzero : (Slot.ready (.value (.integer 0))).Respects N D P := trivial
      exact (renderTwo_respects hrender hzero hslot (hdialect.arithmetic .sub)).bind
        fun part hpart => Yields.ok hpart
  | isNull => exact nullCheck_respects hrender hdialect h
  | notNull => exact nullCheck_respects hrender hdialect h

/-! ## Expressions -/

/-- What an expression compiles to has its property if everything in it that is deferred as a whole
may be. -/
theorem compile_respects (hschema : ∀ entry ∈ compiler.schema, N entry.2) {expr : Expr}
    (hdeferred : ∀ sub ∈ expr.subexpressions, compiler.compile sub = .ok (.dynamic sub) → D sub) :
    Yields (Compiled.Respects N D P) (compiler.compile expr) := by
  -- What is deferred as a whole is the expression itself, so the hypothesis speaks of it.
  have hwhole : ∀ {expr : Expr} {c : Compiled}, compiler.compile expr = .ok c →
      RespectsOr N D P expr c →
      (∀ sub ∈ expr.subexpressions, compiler.compile sub = .ok (.dynamic sub) → D sub) →
        c.Respects N D P := by
    rintro expr c hcompile (hc | rfl) hall
    · exact hc
    · exact hall expr expr.mem_subexpressions_self hcompile
  refine fun c hc => compile_induction (motive := fun expr c =>
    (∀ sub ∈ expr.subexpressions, compiler.compile sub = .ok (.dynamic sub) → D sub) →
      c.Respects N D P)
    ?literal ?row ?other ?call ?unary ?junction ?binary c hc hdeferred
  case literal =>
    intro value type _
    trivial
  case row =>
    intro path expected definition hresolve _
    obtain ⟨name, -, -, hfound, -⟩ := Schema.resolve_eq_ok hresolve
    exact hschema (String.ofList name, definition) (Named.mem_of_get? hfound)
  case other =>
    intro path expected hcompile hall
    exact hall _ (Expr.mem_subexpressions_self _) hcompile
  case call =>
    intro function arguments expected compiled c hcompile hcompiled hc hall
    refine hwhole hcompile (call_respects hrender hdialect (fun c hc => ?_) c hc) hall
    obtain ⟨argument, hargument, -, hmotive⟩ := exists_of_forall₂ hcompiled hc
    exact hmotive fun sub hsub => hall sub (Expr.subexpressions_argument hargument hsub)
  case unary =>
    intro op operand compiled c hcompile _ hcompiled hc hall
    refine hwhole hcompile
      (unary_respects hrender hdialect (hcompiled fun sub hsub => ?_) c hc) hall
    exact hall sub (List.mem_cons_of_mem _ hsub)
  case junction =>
    intro op left right operands c _ hcompile hoperands hc hall
    refine hwhole hcompile (junction_respects hrender hdialect (fun c hc => ?_) c hc) hall
    obtain ⟨operand, hoperand, -, hmotive⟩ := exists_of_forall₂ hoperands hc
    exact hmotive fun sub hsub => hall sub (Expr.subexpressions_chain hoperand hsub)
  case binary =>
    intro op left right first second c _ hcompile _ hfirst _ hsecond hc hall
    have hleft := hfirst fun sub hsub =>
      hall sub (List.mem_cons_of_mem _ (List.mem_append_left _ hsub))
    have hright := hsecond fun sub hsub =>
      hall sub (List.mem_cons_of_mem _ (List.mem_append_right _ hsub))
    refine hwhole hcompile (Yields.ite (fun _ => ?_) (fun _ => ?_) c hc) hall
    · exact comparison_respects hrender hdialect hleft hright
    · exact arithmetic_respects hrender hdialect hleft hright

end Compiler

end RowFilter
