import RowFilter.Proofs.Statement.Bracketing
import RowFilter.Proofs.Statement.Correspondence
import RowFilter.Proofs.Statement.Upholding

/-! # Statements in source order

A condition of tests of attributes is left to the backend operand by operand. Its statement is put
together from those that its operands have as filters of their own: those of a chain stand in one
bracket, in the order of the source, and so do their parameters.
-/

namespace RowFilter

/-! ## Conditions -/

namespace Expr

/-- A literal, or a variable that a request supplies. -/
inductive IsSupplied : Expr → Prop
  | literal (value : Value) (type : ValueType) : IsSupplied (.literal value type)
  | variable {path : String} (hpath : isRowPath path = false) (expected : ValueType) :
      IsSupplied (.reference path expected)

/-- An attribute, a null check of one, or a comparison of one with what is supplied. -/
inductive IsTest : Expr → Prop
  | attr {path : String} (hpath : isRowPath path = true) (expected : ValueType) :
      IsTest (.reference path expected)
  | nullCheck {op : UnaryOp} (hop : op.isTrailing = true) {path : String}
      (hpath : isRowPath path = true) (expected : ValueType) :
      IsTest (.unary op (.reference path expected))
  | onLeft {op : BinaryOp} (hop : op.isComparison = true) {path : String}
      (hpath : isRowPath path = true) (expected : ValueType) {operand : Expr}
      (hoperand : operand.IsSupplied) : IsTest (.binary op (.reference path expected) operand)
  | onRight {op : BinaryOp} (hop : op.isComparison = true) {path : String}
      (hpath : isRowPath path = true) (expected : ValueType) {operand : Expr}
      (hoperand : operand.IsSupplied) : IsTest (.binary op operand (.reference path expected))

/-- A tree of conjunctions, disjunctions and negations of tests. -/
inductive IsCondition : Expr → Prop
  | test {expr : Expr} (h : expr.IsTest) : IsCondition expr
  | negation {operand : Expr} (h : operand.IsCondition) : IsCondition (.unary .not operand)
  | junction {op : BinaryOp} (hop : op.isLogical = true) {left right : Expr}
      (hleft : left.IsCondition) (hright : right.IsCondition) :
      IsCondition (.binary op left right)

namespace IsCondition

variable {op : BinaryOp} {left right operand : Expr}

theorem of_unary {op : UnaryOp} (h : (Expr.unary op operand).IsCondition) :
    operand.IsCondition := by
  cases h with
  | negation h => exact h
  | test h =>
    cases h with
    | nullCheck _ hpath expected => exact .test (.attr hpath expected)

theorem of_junction (hop : op.isLogical = true) (h : (Expr.binary op left right).IsCondition) :
    left.IsCondition ∧ right.IsCondition := by
  cases h with
  | junction _ hleft hright => exact ⟨hleft, hright⟩
  | test h =>
    cases h with
    | onLeft hcomparison => cases op <;> first | cases hop; done | cases hcomparison
    | onRight hcomparison => cases op <;> first | cases hop; done | cases hcomparison

/-- The operands of a chain are conditions. -/
theorem chain (hop : op.isLogical = true) {expr : Expr} (h : expr.IsCondition) :
    ∀ operand ∈ expr.chain op, operand.IsCondition := by
  fun_induction Expr.chain op expr with
  | case1 left right ihleft ihright =>
      obtain ⟨hleft, hright⟩ := h.of_junction hop
      exact List.forall_mem_append.mpr ⟨ihleft hleft, ihright hright⟩
  | case2 => exact List.forall_mem_singleton.mpr h
  | case3 => exact List.forall_mem_singleton.mpr h

end IsCondition

end Expr

variable {request : Request} {compiler : Compiler}

/-- A node with an operand that is left to the backend is left to it as well. -/
theorem Compiled.Arises.isValue_eq_false {dialect : Dialect} {expr : Expr}
    {operands : List Compiled} {c : Compiled} (h : c.Arises dialect expr operands)
    {operand : Compiled} (hmem : operand ∈ operands) (hoperand : operand.isValue = false) :
    c.isValue = false := by
  cases h with
  | folded hvalues =>
    rw [hvalues operand hmem] at hoperand
    cases hoperand
  | rendered hvalue => exact hvalue

theorem Compiled.isConstant_eq_false {c : Compiled} (h : c.isValue = false) :
    c.isConstant = false := by
  cases c <;> first | rfl | cases h

namespace Compiler

/-- No part of a condition is a value. -/
theorem isValue_of_isCondition {expr : Expr} (h : expr.IsCondition) :
    Yields (fun c => c.isValue = false) (compiler.compile expr) := by
  revert h
  refine fun h c hc => compile_induction (motive := fun expr c => expr.IsCondition →
    c.isValue = false) ?literal ?row ?other ?call ?unary ?junction ?binary c hc h
  case literal => rintro value type (h | _ | _); cases h
  case row => exact fun _ _ _ _ _ => rfl
  case other =>
    rintro path expected hcompile (h | _ | _)
    cases h with
    | attr hpath =>
      rw [compile_row hpath] at hcompile
      obtain ⟨definition, -, hattr⟩ := map_eq_ok.mp hcompile
      cases hattr
  case call => rintro function arguments expected compiled c - - - (h | _ | _); cases h
  case unary =>
    intro op operand compiled c _ _ hmotive hc h
    exact (unary_arises c hc).isValue_eq_false List.mem_cons_self (hmotive h.of_unary)
  case junction =>
    intro op left right operands c hop _ hall hc h
    have hvalues : ∀ operand ∈ operands, operand.isValue = false := by
      intro operand hoperand
      obtain ⟨expr, hexpr, -, hmotive⟩ := exists_of_forall₂ hall hoperand
      exact hmotive (h.chain hop expr hexpr)
    rcases junction_arises c hc with harises | ⟨-, operand, hmem, hconstant⟩
    · have hne : operands ≠ [] := by
        rintro rfl
        exact Expr.chain_ne_nil op _ (List.forall₂_nil_right_iff.mp hall)
      obtain ⟨operand, hmem⟩ := List.exists_mem_of_ne_nil _ hne
      exact harises.isValue_eq_false hmem (hvalues operand hmem)
    · rw [Compiled.isConstant_eq_false (hvalues operand hmem)] at hconstant
      cases hconstant
  case binary =>
    intro op left right first second c hop _ _ hmotive _ hmotive' hc h
    have harises := binary_arises c hc
    cases h with
    | junction hlogical => exact absurd hlogical hop
    | test h =>
      cases h with
      | onLeft _ hpath expected =>
        exact harises.isValue_eq_false List.mem_cons_self (hmotive (.test (.attr hpath expected)))
      | onRight _ hpath expected =>
        exact harises.isValue_eq_false (List.mem_cons_of_mem _ List.mem_cons_self)
          (hmotive' (.test (.attr hpath expected)))

/-- What is left to the backend is negated there. -/
theorem unary_not {c : Compiled} (h : c.isValue = false) (expr : Expr) :
    compiler.unary expr .not c =
      (compiler.condition c).map fun part => .condition (compiler.dialect.negation part) := by
  rw [unary, fold?_eq_none expr (List.mem_singleton_self c) h]
  cases compiler.condition c <;> rfl

/-- Without constants, every operand of a junction is a part of it. -/
theorem junctionParts_eq_mapM (deciding : Bool) {operands : List Compiled}
    (h : ∀ operand ∈ operands, operand.isConstant = false) :
    compiler.junctionParts deciding operands = (operands.mapM compiler.condition).map some := by
  induction operands with
  | nil => rfl
  | cons operand rest ih =>
    rw [List.forall_mem_cons] at h
    rw [junctionParts_cons deciding h.1, ih h.2, List.mapM_cons]
    cases compiler.condition operand with
    | error fault => rfl
    | ok part => cases rest.mapM compiler.condition <;> rfl

/-- Several operands that are left to the backend are joined there. -/
theorem junction_eq {operands : List Compiled} (h : ∀ operand ∈ operands, operand.isValue = false)
    (hlength : 2 ≤ operands.length) (expr : Expr) (op : BinaryOp) :
    compiler.junction expr op operands = (operands.mapM compiler.condition).map fun parts =>
      .condition (compiler.dialect.junction op parts) := by
  obtain ⟨first, rest, rfl⟩ := List.exists_cons_of_length_pos (Nat.zero_lt_of_lt hlength)
  rw [junction, fold?_eq_none expr List.mem_cons_self (h first List.mem_cons_self)]
  simp only [Bind.bind, Except.bind]
  rw [junctionParts_eq_mapM op.deciding fun operand hmem =>
    Compiled.isConstant_eq_false (h operand hmem)]
  cases hparts : (first :: rest).mapM compiler.condition with
  | error fault => rfl
  | ok parts =>
    have hcount := (mapM_eq_ok.mp hparts).length_eq
    cases parts with
    | nil => rfl
    | cons part others =>
      cases others with
      | nil =>
        rw [hcount] at hlength
        contradiction
      | cons second more => rfl

/-- For the request, the expression is compiled to a condition with this statement. -/
def Renders (compiler : Compiler) (request : Request) (expr : Expr)
    (statement : Statement) : Prop :=
  ∃ c, compiler.compile expr = .ok c ∧ ∃ part, compiler.condition c = .ok part ∧
    part.merge request = .ok statement

section

variable {backend : Backend} (hdialect : compiler.dialect = backend.dialect) {statement : Statement}

include hdialect

/-- The statement of a negation is that of its operand, negated. -/
theorem renders_not_iff {operand : Expr} (h : operand.IsCondition) :
    compiler.Renders request (.unary .not operand) statement ↔
      ∃ inner, compiler.Renders request operand inner ∧ statement = backend.negated inner := by
  constructor
  · rintro ⟨c, hc, part, hpart, hmerge⟩
    rw [compile] at hc
    obtain ⟨compiled, hcompiled, hc⟩ := bind_eq_ok.mp hc
    rw [unary_not (isValue_of_isCondition h compiled hcompiled)] at hc
    obtain ⟨inner, hinner, rfl⟩ := map_eq_ok.mp hc
    cases hpart
    rw [hdialect, backend.merge_negation] at hmerge
    obtain ⟨own, hown, rfl⟩ := map_eq_ok.mp hmerge
    exact ⟨own, ⟨compiled, hcompiled, inner, hinner, hown⟩, rfl⟩
  · rintro ⟨inner, ⟨c, hc, part, hpart, hmerge⟩, rfl⟩
    refine ⟨.condition (compiler.dialect.negation part), ?_, _, rfl, ?_⟩
    · rw [compile, hc]
      change compiler.unary _ .not c = _
      rw [unary_not (isValue_of_isCondition h c hc), hpart]
      rfl
    · rw [hdialect, backend.merge_negation, hmerge]
      rfl

/-- The statement of a junction is that of its chain in order, bracketed. -/
theorem renders_junction_iff {op : BinaryOp} (hop : op.isLogical = true) {left right : Expr}
    (h : (Expr.binary op left right).IsCondition) :
    compiler.Renders request (.binary op left right) statement ↔
      ∃ statements, List.Forall₂ (compiler.Renders request)
        ((Expr.binary op left right).chain op) statements ∧
          statement = backend.bracketed op statements := by
  have hcompile : compiler.compile (.binary op left right) = _ := compile_junction hop left right
  rw [operands_eq_mapM] at hcompile
  have hjunction {operands : List Compiled} (hall : List.Forall₂ (compiler.compile · = .ok ·)
      ((Expr.binary op left right).chain op) operands) :
      compiler.junction (.binary op left right) op operands =
        (operands.mapM compiler.condition).map fun parts =>
          .condition (compiler.dialect.junction op parts) := by
    refine junction_eq (fun operand hmem => ?_) (hall.length_eq ▸ Expr.one_lt_length_chain ..) _ _
    obtain ⟨expr, hexpr, hoperand⟩ := exists_of_forall₂ hall hmem
    exact isValue_of_isCondition (h.chain hop expr hexpr) operand hoperand
  constructor
  · rintro ⟨c, hc, part, hpart, hmerge⟩
    rw [hcompile] at hc
    obtain ⟨operands, hoperands, hc⟩ := bind_eq_ok.mp hc
    have hall := mapM_eq_ok.mp hoperands
    rw [hjunction hall] at hc
    obtain ⟨parts, hparts, rfl⟩ := map_eq_ok.mp hc
    cases hpart
    rw [hdialect, backend.merge_junction] at hmerge
    obtain ⟨statements, hstatements, rfl⟩ := map_eq_ok.mp hmerge
    have hown := forall₂_exists_iff.mpr ⟨parts, mapM_eq_ok.mp hparts, mapM_eq_ok.mp hstatements⟩
    exact ⟨statements, forall₂_exists_iff.mpr ⟨operands, hall, hown⟩, rfl⟩
  · rintro ⟨statements, hrenders, rfl⟩
    obtain ⟨operands, hall, hown⟩ := forall₂_exists_iff.mp hrenders
    obtain ⟨parts, hparts, hmerges⟩ := forall₂_exists_iff.mp hown
    refine ⟨.condition (compiler.dialect.junction op parts), ?_, _, rfl, ?_⟩
    · rw [hcompile, mapM_eq_ok.mpr hall]
      change compiler.junction _ op operands = _
      rw [hjunction hall, mapM_eq_ok.mpr hparts]
      rfl
    · rw [hdialect, backend.merge_junction, mapM_eq_ok.mpr hmerges]
      rfl

end

/-! ## Compiling for a filter -/

section

variable {dialect : Dialect} {schema : Schema} {source source' : String}

/-- The text of the whole expression shows in errors only. -/
theorem compile_alike (hdialect : dialect.Relates (fun _ => True) (Part.Alike request))
    (expr : Expr) : Matches (Compiled.Alike request)
      (Compiler.compile ⟨dialect, schema, source⟩ expr)
      (Compiler.compile ⟨dialect, schema, source'⟩ expr) := by
  have hself (expr : Expr) : expr.Alike request expr := ⟨rfl, rfl, fun _ => rfl⟩
  induction expr using Expr.chain_induction with
  | literal value type =>
    rw [compile, compile]
    exact .ok (.constant value)
  | reference path expected =>
    by_cases hpath : isRowPath path = true
    · rw [compile_row hpath, compile_row hpath]
      cases schema.resolve path expected with
      | error fault => exact .error fault
      | ok definition => exact .ok (.attr definition)
    · rw [compile_reference (by simpa using hpath), compile_reference (by simpa using hpath)]
      exact .ok (.dynamic rfl)
  | call function arguments expected ih =>
    rw [compile, compile, compileAll_eq_mapM, compileAll_eq_mapM]
    exact (Matches.mapM (List.forall₂_same.mpr ih)).bind fun compiled compiled' hall =>
      call_alike hdialect (hself _) function hall
  | unary op operand ih =>
    rw [compile, compile]
    exact ih.bind fun compiled compiled' halike => unary_alike hdialect (hself _) op halike
  | binary op left right ihleft ihright ihchain =>
    by_cases hop : op.isLogical = true
    · rw [compile_junction hop, compile_junction hop, operands_eq_mapM, operands_eq_mapM]
      exact (Matches.mapM (List.forall₂_same.mpr ihchain)).bind fun operands operands' hall =>
        junction_alike hdialect (hself _) op hall
    · rw [compile, compile, if_neg hop, if_neg hop]
      refine ihleft.bind fun first first' hfirst => ihright.bind fun second second' hsecond => ?_
      exact Matches.ite (fun _ => comparison_alike hdialect (hself _) op hfirst hsecond) fun _ =>
        arithmetic_alike hdialect (hself _) op hfirst hsecond

/-- The source text of a filter has no part in its statements. -/
theorem Renders.of_source (hdialect : dialect.Relates (fun _ => True) (Part.Alike request))
    {expr : Expr} {statement : Statement}
    (h : Compiler.Renders ⟨dialect, schema, source⟩ request expr statement) :
    Compiler.Renders ⟨dialect, schema, source'⟩ request expr statement := by
  obtain ⟨c, hc, part, hpart, hmerge⟩ := h
  obtain ⟨c', hc', halike⟩ := (compile_alike hdialect expr).exists_right hc
  obtain ⟨part', hpart', hparts⟩ := (condition_alike hdialect halike).exists_right hpart
  exact ⟨c', hc', part', hpart', (hparts statement).mp hmerge⟩

end

end Compiler

namespace Filter

/-- As a filter of its own, the expression has this statement for the request. -/
def Gives (filter : Filter) (request : Request) (expr : Expr) (statement : Statement) : Prop :=
  ∃ compiled, filter.compile expr = (compiled, none) ∧ compiled.merge request = .ok statement

/-- A filter gives what its compiler renders, whichever expression the compiler is made for. -/
theorem gives_iff_renders (filter : Filter) (whole expr : Expr) (statement : Statement) :
    filter.Gives request expr statement ↔
      (filter.compiler whole).Renders (filter.bindRequest request) expr statement := by
  have hdialect : filter.dialect.Relates (fun _ => True)
      (Part.Alike (filter.bindRequest request)) :=
    filter.backend.dialect_relates Part.compatible_alike
  constructor
  · rintro ⟨compiled, hcompile, hmerge⟩
    obtain ⟨c, part, hc, hpart, hmerges⟩ := compile_eq_ok hcompile
    rw [hmerges] at hmerge
    have hrenders : (filter.compiler expr).Renders (filter.bindRequest request) expr statement :=
      ⟨c, hc, part, hpart, hmerge⟩
    exact hrenders.of_source hdialect
  · intro h
    obtain ⟨c, hc, part, hpart, hmerge⟩ :
        (filter.compiler expr).Renders (filter.bindRequest request) expr statement :=
      h.of_source hdialect
    exact ⟨_, compile_of_condition hc hpart, hmerge⟩

/-- The statement of a condition is put together from those that its operands have as filters of
their own. A negation stands in a bracket, and a chain of one operator in one, with its operands in
the order of the source. -/
inductive InSourceOrder (filter : Filter) (request : Request) : Expr → Statement → Prop
  | test {expr : Expr} (h : expr.IsTest) {statement : Statement}
      (hown : filter.Gives request expr statement) : InSourceOrder filter request expr statement
  | negation {operand : Expr} {inner : Statement} (hown : filter.Gives request operand inner)
      (hinner : InSourceOrder filter request operand inner) :
      InSourceOrder filter request (.unary .not operand) (filter.backend.negated inner)
  | junction {op : BinaryOp} (hop : op.isLogical = true) {left right : Expr}
      {statements : List Statement}
      (hown : List.Forall₂ (filter.Gives request) ((Expr.binary op left right).chain op) statements)
      (hinner : List.Forall₂ (InSourceOrder filter request)
        ((Expr.binary op left right).chain op) statements) :
      InSourceOrder filter request (.binary op left right)
        (filter.backend.bracketed op statements)

theorem gives_not_iff (filter : Filter) {operand : Expr} (h : operand.IsCondition)
    {statement : Statement} : filter.Gives request (.unary .not operand) statement ↔
      ∃ inner, filter.Gives request operand inner ∧ statement = filter.backend.negated inner := by
  simp only [filter.gives_iff_renders (.unary .not operand)]
  exact Compiler.renders_not_iff rfl h

theorem gives_junction_iff (filter : Filter) {op : BinaryOp} (hop : op.isLogical = true)
    {left right : Expr} (h : (Expr.binary op left right).IsCondition) {statement : Statement} :
    filter.Gives request (.binary op left right) statement ↔
      ∃ statements, List.Forall₂ (filter.Gives request) ((Expr.binary op left right).chain op)
        statements ∧ statement = filter.backend.bracketed op statements := by
  have hgives : filter.Gives request =
      (filter.compiler (.binary op left right)).Renders (filter.bindRequest request) := by
    funext expr statement
    exact propext (filter.gives_iff_renders (.binary op left right) expr statement)
  rw [hgives]
  exact Compiler.renders_junction_iff rfl hop h

/-- What a filter gives is put together in the order of its source. -/
theorem Gives.inSourceOrder {filter : Filter} {expr : Expr} (h : expr.IsCondition)
    {statement : Statement} (hgives : filter.Gives request expr statement) :
    filter.InSourceOrder request expr statement := by
  induction expr using Expr.chain_induction generalizing statement with
  | literal value type =>
    cases h with
    | test h => exact .test h hgives
  | reference path expected =>
    cases h with
    | test h => exact .test h hgives
  | call function arguments expected ih =>
    cases h with
    | test h => exact .test h hgives
  | unary op operand ih =>
    cases h with
    | test h => exact .test h hgives
    | negation h =>
      obtain ⟨inner, hown, rfl⟩ := (filter.gives_not_iff h).mp hgives
      exact .negation hown (ih h hown)
  | binary op left right ihleft ihright ihchain =>
    cases h with
    | test h => exact .test h hgives
    | junction hop hleft hright =>
      have h : (Expr.binary op left right).IsCondition := .junction hop hleft hright
      obtain ⟨statements, hown, rfl⟩ := (filter.gives_junction_iff hop h).mp hgives
      exact .junction hop hown (forall₂_imp_of_mem hown fun operand hmem _ _ hstatement =>
        ihchain operand hmem (h.chain hop operand hmem) hstatement)

/-- What is put together in the order of the source is what the filter gives. -/
theorem InSourceOrder.gives {filter : Filter} {expr : Expr} (h : expr.IsCondition)
    {statement : Statement} (horder : filter.InSourceOrder request expr statement) :
    filter.Gives request expr statement := by
  cases horder with
  | test _ hown => exact hown
  | negation hown _ => exact (filter.gives_not_iff h.of_unary).mpr ⟨_, hown, rfl⟩
  | junction hop hown _ => exact (filter.gives_junction_iff hop h).mpr ⟨_, hown, rfl⟩

/-- A condition compiles and merges to a statement exactly if the statement is put together from
those of its operands in source order, at every depth. -/
theorem gives_iff_inSourceOrder (filter : Filter) (request : Request) {expr : Expr}
    (h : expr.IsCondition) (statement : Statement) :
    filter.Gives request expr statement ↔ filter.InSourceOrder request expr statement :=
  ⟨Gives.inSourceOrder h, InSourceOrder.gives h⟩

private def keyOrFlag : Expr :=
  .binary .or (.binary .eq (.reference "object.b" .any) (.ofValue (.string "k")))
    (.reference "object.c" .boolean)

/-- An attribute that differs from a variable, another that is NULL, and a negated disjunction. -/
private def nestedCondition : Expr :=
  .binary .and
    (.binary .and (.binary .ne (.reference "limit" .any) (.reference "object.a" .any))
      (.unary .isNull (.reference "object.b" .any)))
    (.unary .not keyOrFlag)

private def threeColumns : Filter :=
  .new .tabular (Schema.ofList
    [⟨"a", "a", .number, true, false⟩, ⟨"b", "b", .string, false, false⟩,
      ⟨"c", "c", .boolean, false, false⟩])

private def limitThree : Request :=
  { resolver := some fun path => if path = "limit" then some (.integer 3) else none }

theorem gives_iff_inSourceOrder_nested :
    nestedCondition.IsCondition ∧
      threeColumns.Gives limitThree nestedCondition
        ⟨"((a != ? OR a IS NULL) AND b IS NULL AND NOT ((b = ? OR c = ?)))",
          [.integer 3, .string "k", .boolean true]⟩ ∧
      threeColumns.InSourceOrder limitThree nestedCondition
        ⟨"((a != ? OR a IS NULL) AND b IS NULL AND NOT ((b = ? OR c = ?)))",
          [.integer 3, .string "k", .boolean true]⟩ := by
  have hkeyOrFlag : keyOrFlag.IsCondition :=
    .junction rfl (.test (.onLeft rfl rfl .any (.literal (.string "k") .string)))
      (.test (.attr rfl .boolean))
  have hcondition : nestedCondition.IsCondition :=
    .junction rfl (.junction rfl (.test (.onRight rfl rfl .any (.variable rfl .any)))
      (.test (.nullCheck rfl rfl .any))) (.negation hkeyOrFlag)
  -- The tests are compiled one by one.
  have hlimit : threeColumns.Gives limitThree
      (.binary .ne (.reference "limit" .any) (.reference "object.a" .any))
      ⟨"(a != ? OR a IS NULL)", [.integer 3]⟩ :=
    ⟨_, compile_of_condition ((Compiler.compile_comparison rfl
      (Compiler.compile_reference rfl .any) (Compiler.compile_rowReference rfl)).trans rfl) rfl,
        rfl⟩
  have hnull : threeColumns.Gives limitThree (.unary .isNull (.reference "object.b" .any))
      ⟨"b IS NULL", []⟩ :=
    ⟨_, compile_of_condition ((Compiler.compile_nullCheck rfl
      (Compiler.compile_rowReference rfl)).trans rfl) rfl, rfl⟩
  have hkey : threeColumns.Gives limitThree
      (.binary .eq (.reference "object.b" .any) (.ofValue (.string "k")))
      ⟨"b = ?", [.string "k"]⟩ :=
    ⟨_, compile_of_condition ((Compiler.compile_comparison rfl
      (Compiler.compile_rowReference rfl) Compiler.compile_ofValue).trans rfl) rfl, rfl⟩
  have hflag : threeColumns.Gives limitThree (.reference "object.c" .boolean)
      ⟨"c = ?", [.boolean true]⟩ :=
    ⟨_, compile_of_condition (Compiler.compile_rowReference rfl) rfl, rfl⟩
  have hor : threeColumns.Gives limitThree keyOrFlag
      ⟨"(b = ? OR c = ?)", [.string "k", .boolean true]⟩ := by
    refine (threeColumns.gives_junction_iff rfl hkeyOrFlag).mpr
      ⟨[⟨"b = ?", [.string "k"]⟩, ⟨"c = ?", [.boolean true]⟩], ?_, rfl⟩
    simp only [Expr.chain]
    exact .cons hkey (.cons hflag .nil)
  have hnot : threeColumns.Gives limitThree (.unary .not keyOrFlag)
      ⟨"NOT ((b = ? OR c = ?))", [.string "k", .boolean true]⟩ :=
    (threeColumns.gives_not_iff hkeyOrFlag).mpr ⟨_, hor, rfl⟩
  have hand : threeColumns.Gives limitThree nestedCondition
      ⟨"((a != ? OR a IS NULL) AND b IS NULL AND NOT ((b = ? OR c = ?)))",
        [.integer 3, .string "k", .boolean true]⟩ := by
    refine (threeColumns.gives_junction_iff rfl hcondition).mpr
      ⟨[⟨"(a != ? OR a IS NULL)", [.integer 3]⟩, ⟨"b IS NULL", []⟩,
        ⟨"NOT ((b = ? OR c = ?))", [.string "k", .boolean true]⟩], ?_, rfl⟩
    simp only [Expr.chain]
    exact .cons hlimit (.cons hnull (.cons hnot .nil))
  exact ⟨hcondition, hand, (gives_iff_inSourceOrder threeColumns limitThree hcondition _).mp hand⟩

end Filter

end RowFilter
