import RowFilter.Proofs.Statement.Deferral

/-! # Filters with values for their variables

An expression with the values of a request in place of its variables compiles to what merges, for
the request, to the same statement. So it does not matter where a value comes from.
-/

namespace RowFilter

variable {request : Request}

/-- Inlining variables that are only compared with the row keeps the value. -/
theorem Expr.ComparesVariables.alike {expr : Expr} (h : expr.ComparesVariables) :
    expr.Alike request (expr.inlined request.environment.resolve) where
  evaluate := (evaluate_inlined request.environment expr).symm
  isConstant := h.isConstant_inlined.symm
  eq hconstant := (inlined_of_isConstant hconstant).symm

/-- A path that the request does not resolve has the value NULL. -/
theorem Request.evaluate_reference (path : String) (expected : ValueType) :
    request.evaluate (.reference path expected) =
      .ok ((request.environment.resolve path).getD .null) := by
  rw [evaluate, Expr.evaluate]

namespace Compiler

variable {dialect : Dialect} {schema : Schema} {source source' : String}

section

variable (hdialect : dialect.Relates (fun _ => True) (Part.Alike request))

include hdialect

/-! ## Nodes

If operands with and without values for their variables compile alike, so does the node. -/

/-- Calls with inlined arguments are compiled alike if the arguments are. -/
theorem call_inlined {function : Builtin} {arguments : List Expr} {expected : ValueType}
    (h : (Expr.call function arguments expected).ComparesVariables)
    {compiled compiled' : List Compiled}
    (hcompiled : arguments.mapM (Compiler.compile ⟨dialect, schema, source⟩) = .ok compiled)
    (hcompiled' : (arguments.map (Expr.inlined request.environment.resolve)).mapM
      (Compiler.compile ⟨dialect, schema, source'⟩) = .ok compiled')
    (hall : List.Forall₂ (Compiled.Alike request) compiled compiled') :
    Matches (Compiled.Alike request)
      (Compiler.compile ⟨dialect, schema, source⟩ (.call function arguments expected))
      (Compiler.compile ⟨dialect, schema, source'⟩
        ((Expr.call function arguments expected).inlined request.environment.resolve)) := by
  have hexpr : Expr.Alike request _ _ := h.alike
  rw [Expr.inlined] at hexpr ⊢
  rw [compile, compile, compileAll_eq_mapM, compileAll_eq_mapM, hcompiled, Expr.inlinedAll_eq_map,
    hcompiled', ← Expr.inlinedAll_eq_map]
  exact call_alike hdialect hexpr function hall

theorem unary_inlined {op : UnaryOp} {operand : Expr}
    (h : (Expr.unary op operand).ComparesVariables) {compiled compiled' : Compiled}
    (hcompiled : Compiler.compile ⟨dialect, schema, source⟩ operand = .ok compiled)
    (hcompiled' : Compiler.compile ⟨dialect, schema, source'⟩
      (operand.inlined request.environment.resolve) = .ok compiled')
    (halike : compiled.Alike request compiled') :
    Matches (Compiled.Alike request)
      (Compiler.compile ⟨dialect, schema, source⟩ (.unary op operand))
      (Compiler.compile ⟨dialect, schema, source'⟩
        ((Expr.unary op operand).inlined request.environment.resolve)) := by
  have hexpr : Expr.Alike request _ _ := h.alike
  rw [Expr.inlined] at hexpr ⊢
  rw [compile, compile, hcompiled, hcompiled']
  exact unary_alike hdialect hexpr op halike

/-- A junction of inlined operands is compiled alike if the operands are. -/
theorem junction_inlined {op : BinaryOp} (hop : op.isLogical = true) {left right : Expr}
    (h : (Expr.binary op left right).ComparesVariables) {operands operands' : List Compiled}
    (hoperands : ((Expr.binary op left right).chain op).mapM
      (Compiler.compile ⟨dialect, schema, source⟩) = .ok operands)
    (hoperands' : (((Expr.binary op left right).chain op).map
      (Expr.inlined request.environment.resolve)).mapM
        (Compiler.compile ⟨dialect, schema, source'⟩) = .ok operands')
    (hall : List.Forall₂ (Compiled.Alike request) operands operands') :
    Matches (Compiled.Alike request)
      (Compiler.compile ⟨dialect, schema, source⟩ (.binary op left right))
      (Compiler.compile ⟨dialect, schema, source'⟩
        ((Expr.binary op left right).inlined request.environment.resolve)) := by
  have hexpr : Expr.Alike request _ _ := h.alike
  rw [← Expr.chain_inlined] at hoperands'
  rw [Expr.inlined] at hexpr hoperands' ⊢
  rw [compile_junction hop, compile_junction hop, operands_eq_mapM, operands_eq_mapM, hoperands,
    hoperands']
  exact junction_alike hdialect hexpr op hall

theorem binary_inlined {op : BinaryOp} (hop : ¬op.isLogical = true) {left right : Expr}
    (h : (Expr.binary op left right).ComparesVariables) {first first' second second' : Compiled}
    (hfirst : Compiler.compile ⟨dialect, schema, source⟩ left = .ok first)
    (hfirst' : Compiler.compile ⟨dialect, schema, source'⟩
      (left.inlined request.environment.resolve) = .ok first')
    (hsecond : Compiler.compile ⟨dialect, schema, source⟩ right = .ok second)
    (hsecond' : Compiler.compile ⟨dialect, schema, source'⟩
      (right.inlined request.environment.resolve) = .ok second')
    (hleft : first.Alike request first') (hright : second.Alike request second') :
    Matches (Compiled.Alike request)
      (Compiler.compile ⟨dialect, schema, source⟩ (.binary op left right))
      (Compiler.compile ⟨dialect, schema, source'⟩
        ((Expr.binary op left right).inlined request.environment.resolve)) := by
  have hexpr : Expr.Alike request _ _ := h.alike
  rw [Expr.inlined] at hexpr ⊢
  rw [compile, compile, if_neg hop, if_neg hop, hfirst, hfirst', hsecond, hsecond']
  refine Matches.ite (fun _ => ?_) fun _ => ?_
  · exact comparison_alike hdialect hexpr op hleft hright
  · exact arithmetic_alike hdialect hexpr op hleft hright

end

/-! ## Comparisons with variables -/

section

variable {op : BinaryOp} (hop : op.isComparison = true) {row path : String}
  (hrow : isRowPath row = true) (hpath : isRowPath path = false) {expected expected' : ValueType}

include hop hrow hpath

/-- A comparison that compiles with the value of its variable compiles with the variable, which is
deferred. -/
theorem compile_of_onRight_inlined (hdefers : dialect.Defers) {c' : Compiled}
    (h : Compiler.compile ⟨dialect, schema, source'⟩
      ((Expr.binary op (.reference row expected) (.reference path expected')).inlined
        request.environment.resolve) = .ok c') :
    ∃ c, Compiler.compile ⟨dialect, schema, source⟩
      (.binary op (.reference row expected) (.reference path expected')) = .ok c ∧
        c.Alike request c' := by
  rw [Expr.inlined, Expr.inlined_row hrow, Expr.inlined_variable hpath,
    compile_rowOnLeft_eq_ok hop hrow compile_ofValue rfl] at h
  obtain ⟨definition, written, hresolve, hwritten, rfl⟩ := h
  obtain ⟨part, hpart, halike⟩ := exists_deferred_comparison
    (request.evaluate_reference path expected') hdefers hwritten
  refine ⟨.condition part, ?_, .condition halike⟩
  rw [compile_rowOnLeft_eq_ok hop hrow (compile_reference hpath _) rfl]
  exact ⟨definition, part, hresolve, hpart, rfl⟩

theorem compile_of_onLeft_inlined (hdefers : dialect.Defers) {c' : Compiled}
    (h : Compiler.compile ⟨dialect, schema, source'⟩
      ((Expr.binary op (.reference path expected') (.reference row expected)).inlined
        request.environment.resolve) = .ok c') :
    ∃ c, Compiler.compile ⟨dialect, schema, source⟩
      (.binary op (.reference path expected') (.reference row expected)) = .ok c ∧
        c.Alike request c' := by
  rw [Expr.inlined, Expr.inlined_row hrow, Expr.inlined_variable hpath,
    compile_rowOnRight_eq_ok hop hrow compile_ofValue rfl rfl] at h
  obtain ⟨flipped, definition, written, hflip, hresolve, hwritten, rfl⟩ := h
  obtain ⟨part, hpart, halike⟩ := exists_deferred_comparison
    (request.evaluate_reference path expected') hdefers hwritten
  refine ⟨.condition part, ?_, .condition halike⟩
  rw [compile_rowOnRight_eq_ok hop hrow (compile_reference hpath _) rfl rfl]
  exact ⟨flipped, definition, part, hflip, hresolve, hpart, rfl⟩

/-- A comparison with a variable that merges for the request compiles with the value in place of the
variable. -/
theorem compile_inlined_of_onRight {c : Compiled}
    (h : Compiler.compile ⟨dialect, schema, source⟩
      (.binary op (.reference row expected) (.reference path expected')) = .ok c)
    (hmerges : c.Merges request) :
    ∃ c', Compiler.compile ⟨dialect, schema, source'⟩
      ((Expr.binary op (.reference row expected) (.reference path expected')).inlined
        request.environment.resolve) = .ok c' ∧ c.Alike request c' := by
  rw [compile_rowOnLeft_eq_ok hop hrow (compile_reference hpath _) rfl] at h
  obtain ⟨definition, part, hresolve, hpart, rfl⟩ := h
  obtain ⟨written, hwritten, halike⟩ := exists_written_comparison
    (request.evaluate_reference path expected') hpart hmerges
  refine ⟨.condition written, ?_, .condition halike⟩
  rw [Expr.inlined, Expr.inlined_row hrow, Expr.inlined_variable hpath,
    compile_rowOnLeft_eq_ok hop hrow compile_ofValue rfl]
  exact ⟨definition, written, hresolve, hwritten, rfl⟩

theorem compile_inlined_of_onLeft {c : Compiled}
    (h : Compiler.compile ⟨dialect, schema, source⟩
      (.binary op (.reference path expected') (.reference row expected)) = .ok c)
    (hmerges : c.Merges request) :
    ∃ c', Compiler.compile ⟨dialect, schema, source'⟩
      ((Expr.binary op (.reference path expected') (.reference row expected)).inlined
        request.environment.resolve) = .ok c' ∧ c.Alike request c' := by
  rw [compile_rowOnRight_eq_ok hop hrow (compile_reference hpath _) rfl rfl] at h
  obtain ⟨flipped, definition, part, hflip, hresolve, hpart, rfl⟩ := h
  obtain ⟨written, hwritten, halike⟩ := exists_written_comparison
    (request.evaluate_reference path expected') hpart hmerges
  refine ⟨.condition written, ?_, .condition halike⟩
  rw [Expr.inlined, Expr.inlined_row hrow, Expr.inlined_variable hpath,
    compile_rowOnRight_eq_ok hop hrow compile_ofValue rfl rfl]
  exact ⟨flipped, definition, written, hflip, hresolve, hwritten, rfl⟩

end

/-! ## Expressions -/

section

variable (hdialect : dialect.Relates (fun _ => True) (Part.Alike request))
  (hdefers : dialect.Defers)

include hdialect hdefers

/-- If an expression compiles with values for its variables, so does the expression itself. -/
theorem compile_of_inlined {expr : Expr} (h : expr.ComparesVariables) {c' : Compiled}
    (hc' : Compiler.compile ⟨dialect, schema, source'⟩
      (expr.inlined request.environment.resolve) = .ok c') :
    ∃ c, Compiler.compile ⟨dialect, schema, source⟩ expr = .ok c ∧ c.Alike request c' := by
  have hcompile := hc'
  induction expr using Expr.chain_induction generalizing c' with
  | literal value type =>
      rw [Expr.inlined, compile] at hc'
      cases hc'
      exact ⟨_, by rw [compile], .constant value⟩
  | reference path expected =>
      rw [Expr.inlined_row h.isRowPath, compile_row h.isRowPath] at hc'
      obtain ⟨definition, hdefinition, rfl⟩ := map_eq_ok.mp hc'
      exact ⟨_, compile_rowReference hdefinition, .attr definition⟩
  | call function arguments expected ih =>
      rw [Expr.inlined, compile, compileAll_eq_mapM, Expr.inlinedAll_eq_map] at hc'
      obtain ⟨compiled', hcompiled', -⟩ := bind_eq_ok.mp hc'
      have hargument := h.arguments
      obtain ⟨compiled, hcompiled, hall⟩ := exists_mapM (forall₂_imp_of_mem
        (List.forall₂_map_left_iff.mp (mapM_eq_ok.mp hcompiled')) fun argument hmem c' _ hc' =>
          ih argument hmem (hargument argument hmem) hc' hc')
      exact (call_inlined hdialect h hcompiled hcompiled' hall.flip).exists_left hcompile
  | unary op operand ih =>
      rw [Expr.inlined, compile] at hc'
      obtain ⟨compiled', hcompiled', -⟩ := bind_eq_ok.mp hc'
      obtain ⟨compiled, hcompiled, halike⟩ := ih h.operand hcompiled' hcompiled'
      exact (unary_inlined hdialect h hcompiled hcompiled' halike).exists_left hcompile
  | binary op left right ihleft ihright ihchain =>
      -- A variable beside an attribute is no operand that could be inlined by itself: the
      -- comparison is written as a whole.
      cases h with
      | onRight hop hrow hpath => exact compile_of_onRight_inlined hop hrow hpath hdefers hcompile
      | onLeft hop hrow hpath => exact compile_of_onLeft_inlined hop hrow hpath hdefers hcompile
      | binary _ hleft hright =>
          have h : (Expr.binary op left right).ComparesVariables := .binary op hleft hright
          by_cases hop : op.isLogical = true
          · rw [Expr.inlined, compile_junction hop, operands_eq_mapM, ← Expr.inlined,
              Expr.chain_inlined] at hc'
            obtain ⟨operands', hoperands', -⟩ := bind_eq_ok.mp hc'
            obtain ⟨operands, hoperands, hall⟩ := exists_mapM (forall₂_imp_of_mem
              (List.forall₂_map_left_iff.mp (mapM_eq_ok.mp hoperands')) fun operand hmem c' _ hc' =>
                ihchain operand hmem (h.chain hop hmem) hc' hc')
            have hmatches := junction_inlined hdialect hop h hoperands hoperands' hall.flip
            exact hmatches.exists_left hcompile
          · rw [Expr.inlined, compile, if_neg hop] at hc'
            obtain ⟨first', hfirst', hc'⟩ := bind_eq_ok.mp hc'
            obtain ⟨second', hsecond', -⟩ := bind_eq_ok.mp hc'
            obtain ⟨first, hfirst, hleft⟩ := ihleft hleft hfirst' hfirst'
            obtain ⟨second, hsecond, hright⟩ := ihright hright hsecond' hsecond'
            have hmatches := binary_inlined hdialect hop h hfirst hfirst' hsecond hsecond' hleft
              hright
            exact hmatches.exists_left hcompile

/-- If an expression compiles and what is compiled merges, it compiles with values for its
variables too. -/
theorem compile_inlined {expr : Expr} (h : expr.ComparesVariables) (hvary : expr.JunctionsVary)
    {c : Compiled} (hc : Compiler.compile ⟨dialect, schema, source⟩ expr = .ok c)
    (hmerges : c.Merges request) :
    ∃ c', Compiler.compile ⟨dialect, schema, source'⟩
      (expr.inlined request.environment.resolve) = .ok c' ∧ c.Alike request c' := by
  have hexposes := hdefers.toExposes
  revert h hvary hmerges
  refine compile_induction (motive := fun expr c => expr.ComparesVariables → expr.JunctionsVary →
    c.Merges request → ∃ c', Compiler.compile ⟨dialect, schema, source'⟩
      (expr.inlined request.environment.resolve) = .ok c' ∧ c.Alike request c')
    ?literal ?row ?other ?call ?unary ?junction ?binary c hc
  case literal =>
    intro value type _ _ _
    exact ⟨_, by rw [Expr.inlined, compile], .constant value⟩
  case row =>
    intro path expected definition hresolve h _ _
    rw [Expr.inlined_row h.isRowPath]
    exact ⟨_, compile_rowReference hresolve, .attr definition⟩
  case other =>
    intro path expected hcompile h _ _
    rw [compile_row h.isRowPath] at hcompile
    obtain ⟨definition, -, hattr⟩ := map_eq_ok.mp hcompile
    cases hattr
  case call =>
    intro function arguments expected compiled c hcompile hall hc h hvary hmerges
    have hoperand := (call_arises c hc).merges hexposes hmerges
    have harguments := h.arguments
    obtain ⟨compiled', hcompiled', halike⟩ := exists_mapM (List.forall₂_map_left_iff.mpr
      (forall₂_imp_of_mem hall fun argument hargument operand hmem hmotive =>
        hmotive.2 (harguments argument hargument)
          (hvary.mono (Expr.subexpressions_argument hargument)) (hoperand operand hmem)))
    have hcompiled := mapM_eq_ok.mpr (hall.imp fun _ _ hmotive => hmotive.1)
    exact (call_inlined hdialect h hcompiled hcompiled' halike).exists_right hcompile
  case unary =>
    intro op operand compiled c hcompile hcompiled hmotive hc h hvary hmerges
    have hoperand := (unary_arises c hc).merges hexposes hmerges compiled List.mem_cons_self
    obtain ⟨compiled', hcompiled', halike⟩ := hmotive h.operand
      (hvary.mono fun sub hsub => List.mem_cons_of_mem _ hsub) hoperand
    exact (unary_inlined hdialect h hcompiled hcompiled' halike).exists_right hcompile
  case junction =>
    intro op left right operands c hop hcompile hall hc h hvary hmerges
    obtain ⟨hleft, hright⟩ := hvary op left right (Expr.mem_subexpressions_self _) hop
    -- No operand is a constant, so the junction is not decided and all conditions are parts of it.
    have hconstant : ∀ operand ∈ operands, operand.isConstant = false := by
      intro operand hoperand
      obtain ⟨expr, hexpr, hcompiled, -⟩ := exists_of_forall₂ hall hoperand
      have hpaths : (Expr.binary op left right).paths ≠ [] := by
        rw [Expr.paths]
        exact List.append_ne_nil_of_left_ne_nil hleft _
      exact isConstant_eq_false (hvary.mono (Expr.subexpressions_chain hexpr))
        (hvary.chain hop hpaths hexpr) operand hcompiled
    have hoperand : ∀ operand ∈ operands, operand.Merges request := by
      rcases junction_arises c hc with h | ⟨-, operand, hoperand, hdecides⟩
      · exact h.merges hexposes hmerges
      · rw [hconstant operand hoperand] at hdecides
        cases hdecides
    obtain ⟨operands', hoperands', halike⟩ := exists_mapM (List.forall₂_map_left_iff.mpr
      (forall₂_imp_of_mem hall fun expr hexpr operand hmem hmotive =>
        hmotive.2 (h.chain hop hexpr) (hvary.mono (Expr.subexpressions_chain hexpr))
          (hoperand operand hmem)))
    have hoperands := mapM_eq_ok.mpr (hall.imp fun _ _ hmotive => hmotive.1)
    exact (junction_inlined hdialect hop h hoperands hoperands' halike).exists_right hcompile
  case binary =>
    intro op left right first second c hop hcompile hfirst hmotive hsecond hmotive' hc h hvary
      hmerges
    have hoperand := (binary_arises c hc).merges hexposes hmerges
    rw [List.forall_mem_cons, List.forall_mem_singleton] at hoperand
    cases h with
    | onRight hcomparison hrow hpath =>
        exact compile_inlined_of_onRight hcomparison hrow hpath hcompile hmerges
    | onLeft hcomparison hrow hpath =>
        exact compile_inlined_of_onLeft hcomparison hrow hpath hcompile hmerges
    | binary _ hleft hright =>
        obtain ⟨first', hfirst', hl⟩ := hmotive hleft (hvary.mono fun sub hsub =>
          List.mem_cons_of_mem _ (List.mem_append_left _ hsub)) hoperand.1
        obtain ⟨second', hsecond', hr⟩ := hmotive' hright (hvary.mono fun sub hsub =>
          List.mem_cons_of_mem _ (List.mem_append_right _ hsub)) hoperand.2
        have hmatches := binary_inlined hdialect hop (.binary op hleft hright) hfirst hfirst'
          hsecond hsecond' hl hr
        exact hmatches.exists_right hcompile

end

end Compiler

namespace Filter

/-- Whether the values that attributes are compared with stand in an expression or come with the
request, the filter merges to the same statement. With the values in it, the expression may fail
to compile although without them it merges, but only if a junction in it has an operand without
paths. -/
theorem merge_inlined (filter : Filter) (request : Request) {expr : Expr}
    (h : expr.ComparesVariables) :
    (∀ inlined statement,
      filter.compile (expr.inlined (filter.resolverFor request)) = (inlined, none) →
      inlined.merge request = .ok statement →
        ∃ compiled, filter.compile expr = (compiled, none) ∧
          compiled.merge request = .ok statement) ∧
    (expr.JunctionsVary → ∀ compiled statement, filter.compile expr = (compiled, none) →
      compiled.merge request = .ok statement →
        ∃ inlined,
          filter.compile (expr.inlined (filter.resolverFor request)) = (inlined, none) ∧
            inlined.merge request = .ok statement) := by
  have hdialect : filter.dialect.Relates (fun _ => True)
      (Part.Alike (filter.bindRequest request)) :=
    filter.backend.dialect_relates Part.compatible_alike
  have hdefers : filter.dialect.Defers := filter.backend.dialect_defers
  have hcondition : ∀ {c c' : Compiled}, c.Alike (filter.bindRequest request) c' →
      Matches (Part.Alike (filter.bindRequest request)) ((filter.compiler expr).condition c)
        ((filter.compiler (expr.inlined (filter.resolverFor request))).condition c') :=
    Compiler.condition_alike hdialect
  refine ⟨fun inlined statement hcompile hmerge => ?_,
    fun hvary compiled statement hcompile hmerge => ?_⟩
  · obtain ⟨c', part', hc', hpart', hmerges'⟩ := compile_eq_ok hcompile
    rw [hmerges'] at hmerge
    obtain ⟨c, hc, halike⟩ : ∃ c, (filter.compiler expr).compile expr = .ok c ∧
        c.Alike (filter.bindRequest request) c' :=
      Compiler.compile_of_inlined hdialect hdefers h hc'
    obtain ⟨part, hpart, hparts⟩ := (hcondition halike).exists_left hpart'
    exact ⟨_, compile_of_condition hc hpart, (hparts statement).mpr hmerge⟩
  · obtain ⟨c, part, hc, hpart, hmerges⟩ := compile_eq_ok hcompile
    rw [hmerges] at hmerge
    have hoperand := Compiler.merges_of_condition hpart ⟨statement, hmerge⟩
    obtain ⟨c', hc', halike⟩ : ∃ c', (filter.compiler _).compile
        (expr.inlined (filter.resolverFor request)) = .ok c' ∧
          c.Alike (filter.bindRequest request) c' :=
      Compiler.compile_inlined hdialect hdefers h hvary hc hoperand
    obtain ⟨part', hpart', hparts⟩ := (hcondition halike).exists_right hpart
    exact ⟨_, compile_of_condition hc' hpart', (hparts statement).mp hmerge⟩

/-- An attribute that differs from a value and does not pass another. -/
private def withinLimits : Expr :=
  .binary .and (.binary .ne (.reference "object.a" .any) (.reference "limit" .any))
    (.unary .not (.binary .gt (.reference "floor" .any) (.reference "object.a" .any)))

private def nullableColumn : Filter :=
  .new .tabular (Schema.ofList [⟨"a", "a", .number, true, false⟩])

/-- A request for one of the values. The other is NULL. -/
private def oneLimitRequest : Request :=
  { resolver := some fun path => if path = "limit" then some (.integer 3) else none }

private theorem junctionsVary_withinLimits : withinLimits.JunctionsVary := by
  intro op left right hmem hop
  simp only [withinLimits, Expr.subexpressions, List.cons_append, List.nil_append, List.mem_cons,
    List.not_mem_nil, Expr.binary.injEq, reduceCtorEq, false_or, or_false] at hmem
  rcases hmem with ⟨rfl, rfl, rfl⟩ | ⟨rfl, -, -⟩ | ⟨rfl, -, -⟩
  · simp [Expr.paths]
  · cases hop
  · cases hop

/-- The value that the request has and the one that is missing are written as if they stood in the
expression. -/
theorem merge_inlined_within_limits :
    ∃ inlined compiled, withinLimits.ComparesVariables ∧ withinLimits.JunctionsVary ∧
      nullableColumn.compile (withinLimits.inlined (nullableColumn.resolverFor oneLimitRequest)) =
        (inlined, none) ∧
      inlined.merge oneLimitRequest =
        .ok ⟨"((a != ? OR a IS NULL) AND NOT (1 = 0))", [.integer 3]⟩ ∧
      nullableColumn.compile withinLimits = (compiled, none) ∧
      compiled.merge oneLimitRequest =
        .ok ⟨"((a != ? OR a IS NULL) AND NOT (1 = 0))", [.integer 3]⟩ := by
  have hattr : nullableColumn.schema.resolve "object.a" .any =
      .ok ⟨"a", "a", .number, true, false⟩ := rfl
  have hcompares : withinLimits.ComparesVariables :=
    .binary .and (.onRight rfl rfl rfl .any .any) (.unary .not (.onLeft rfl rfl rfl .any .any))
  have hvary := junctionsVary_withinLimits
  have hinlined : withinLimits.inlined (nullableColumn.resolverFor oneLimitRequest) =
      .binary .and (.binary .ne (.reference "object.a" .any) (.ofValue (.integer 3)))
        (.unary .not (.binary .gt (.ofValue .null) (.reference "object.a" .any))) := by
    simp only [withinLimits, Expr.inlined]
    rfl
  have hchain : (withinLimits.inlined (nullableColumn.resolverFor oneLimitRequest)).chain .and =
      [.binary .ne (.reference "object.a" .any) (.ofValue (.integer 3)),
        .unary .not (.binary .gt (.ofValue .null) (.reference "object.a" .any))] := by
    rw [hinlined]
    simp [Expr.chain]
  have hpart : ∃ part, compilePart nullableColumn.backend nullableColumn.schema
      (withinLimits.inlined (nullableColumn.resolverFor oneLimitRequest)) = .ok part ∧
        part.merge (nullableColumn.bindRequest oneLimitRequest) =
          .ok ⟨"((a != ? OR a IS NULL) AND NOT (1 = 0))", [.integer 3]⟩ := by
    rw [hinlined] at hchain ⊢
    rw [compilePart, Compiler.compile_junction rfl, Compiler.operands_eq_mapM, hchain,
      List.mapM_cons, List.mapM_cons, List.mapM_nil, Compiler.compile_comparison rfl
        (Compiler.compile_rowReference hattr) Compiler.compile_ofValue, Compiler.compile,
      Compiler.compile_comparison rfl Compiler.compile_ofValue
        (Compiler.compile_rowReference hattr)]
    exact ⟨_, rfl, rfl⟩
  obtain ⟨part, hrendering, hpart⟩ := hpart
  have hsame := merge_inlined nullableColumn oneLimitRequest hcompares
  obtain ⟨compiled, hcompiled, hmerge⟩ := hsame.1 _ _ (compile_of_part hrendering) hpart
  obtain ⟨inlined, hinlined, hmerge'⟩ := hsame.2 hvary compiled _ hcompiled hmerge
  exact ⟨inlined, compiled, hcompares, hvary, hinlined, hmerge', hcompiled, hmerge⟩

end Filter

end RowFilter
