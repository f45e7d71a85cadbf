import RowFilter.Proofs.Expr.Evaluation
import RowFilter.Proofs.Outcome
import RowFilter.Proofs.Statement.Operands
import RowFilter.Proofs.Statement.Sameness
import RowFilter.Proofs.Statement.Upholding

/-! # What merging reads of the row's paths

Two requests that agree on all paths outside the row merge a filter alike unless they evaluate an
expression differently that mentions the row and was nevertheless deferred to the request.
-/

namespace RowFilter

variable {request other : Request}

namespace Expr

mutual

/-- An expression refers to the row if one of its paths does. -/
theorem referencesRow_eq_any : (expr : Expr) → expr.referencesRow = expr.paths.any isRowPath
  | literal _ _ => by rw [referencesRow, paths, List.any_nil]
  | reference path _ => by simp [referencesRow, paths]
  | call _ arguments _ => by rw [referencesRow, paths, anyReferencesRow_eq_any arguments]
  | unary _ operand => by rw [referencesRow, paths, referencesRow_eq_any operand]
  | binary _ left right => by
      rw [referencesRow, paths, List.any_append, referencesRow_eq_any left,
        referencesRow_eq_any right]

theorem anyReferencesRow_eq_any : (arguments : List Expr) →
    anyReferencesRow arguments = (allPaths arguments).any isRowPath
  | [] => by rw [anyReferencesRow, allPaths, List.any_nil]
  | argument :: rest => by
      rw [anyReferencesRow, allPaths, List.any_append, referencesRow_eq_any argument,
        anyReferencesRow_eq_any rest]

end

/-- If some arguments mention the row, one of them does. -/
theorem exists_of_anyReferencesRow {arguments : List Expr} (h : anyReferencesRow arguments = true) :
    ∃ argument ∈ arguments, argument.referencesRow = true := by
  induction arguments with
  | nil => cases h
  | cons first rest ih =>
      rw [anyReferencesRow, Bool.or_eq_true] at h
      rcases h with h | h
      · exact ⟨first, List.mem_cons_self, h⟩
      · obtain ⟨argument, hargument, hrow⟩ := ih h
        exact ⟨argument, List.mem_cons_of_mem _ hargument, hrow⟩

theorem exists_referencesRow_chain (op : BinaryOp) {expr : Expr} (h : expr.referencesRow = true) :
    ∃ operand ∈ expr.chain op, operand.referencesRow = true := by
  fun_induction chain op expr with
  | case1 left right ihleft ihright =>
      rw [referencesRow, Bool.or_eq_true] at h
      rcases h with h | h
      · obtain ⟨operand, hoperand, hrow⟩ := ihleft h
        exact ⟨operand, List.mem_append_left _ hoperand, hrow⟩
      · obtain ⟨operand, hoperand, hrow⟩ := ihright h
        exact ⟨operand, List.mem_append_right _ hoperand, hrow⟩
  | case2 => exact ⟨_, List.mem_singleton_self _, h⟩
  | case3 => exact ⟨_, List.mem_singleton_self _, h⟩

end Expr

/-- Requests of one time that give the same values to all paths outside the row. -/
structure AgreeOutsideRow (request other : Request) : Prop where
  now : request.now = other.now
  resolve : ∀ path, isRowPath path = false →
    request.environment.resolve path = other.environment.resolve path

/-- Requests that agree outside the row give one value to what does not mention it. -/
theorem AgreeOutsideRow.evaluate_eq (h : AgreeOutsideRow request other) {expr : Expr}
    (hrow : expr.referencesRow = false) : request.evaluate expr = other.evaluate expr := by
  refine expr.evaluate_congr (fun _ => h.now) fun path hpath => h.resolve path ?_
  rw [Expr.referencesRow_eq_any, List.any_eq_false] at hrow
  simpa using hrow path hpath

variable (request other) in
/-- Whatever of an expression is deferred although it mentions the row has the same value for both
requests. -/
def Compiler.DefersAlike (compiler : Compiler) (expr : Expr) : Prop :=
  ∀ sub ∈ expr.subexpressions, sub.referencesRow = true →
    compiler.compile sub = .ok (.dynamic sub) → request.evaluate sub = other.evaluate sub

namespace Compiler

variable {compiler : Compiler}

/-- Requests that agree outside the row give the same value to all that is deferred, if they do to
what mentions the row. -/
theorem DefersAlike.evaluate_eq {expr sub : Expr} (h : compiler.DefersAlike request other expr)
    (hagree : AgreeOutsideRow request other) (hsub : sub ∈ expr.subexpressions)
    (hcompile : compiler.compile sub = .ok (.dynamic sub)) :
    request.evaluate sub = other.evaluate sub := by
  by_cases hrow : sub.referencesRow = true
  · exact h sub hsub hrow hcompile
  · exact hagree.evaluate_eq (by simpa using hrow)

/-! ## What is deferred although it mentions the row -/

/-- Something in the expression that mentions the row was compiled to a constant. -/
def Decides (compiler : Compiler) (subexpressions : List Expr) : Prop :=
  ∃ sub ∈ subexpressions, sub.referencesRow = true ∧
    ∃ value, compiler.compile sub = .ok (.constant value)

theorem Decides.mono {subs others : List Expr} (h : compiler.Decides subs) (hsub : subs ⊆ others) :
    compiler.Decides others := by
  obtain ⟨sub, hmem, hrow, hconstant⟩ := h
  exact ⟨sub, hsub hmem, hrow, hconstant⟩

/-- What arises from operands as a value was decided by something that mentions the row. -/
theorem decides_of_arises {expr : Expr} {operands : List Compiled} {c : Compiled}
    (h : c.Arises compiler.dialect expr operands) (hvalue : c.isValue = true)
    (hoperands : (∀ operand ∈ operands, operand.isValue = true) →
      compiler.Decides expr.subexpressions) : compiler.Decides expr.subexpressions := by
  cases h with
  | folded hvalues => exact hoperands hvalues
  | rendered hrendered =>
      rw [hrendered] at hvalue
      cases hvalue

/-- An expression that mentions the row and is left to the request contains one that mentions the
row and was decided by a constant. -/
theorem exists_decided {expr : Expr} (hrow : expr.referencesRow = true) :
    Yields (fun c => c.isValue = true → compiler.Decides expr.subexpressions)
      (compiler.compile expr) := by
  refine fun c hc hvalue => compile_induction (motive := fun expr c => expr.referencesRow = true →
    c.isValue = true → compiler.Decides expr.subexpressions)
    ?literal ?row ?other ?call ?unary ?junction ?binary c hc hrow hvalue
  case literal =>
    intro value type hrow
    cases hrow
  case row =>
    intro path expected definition _ _ hvalue
    cases hvalue
  case other =>
    intro path expected hcompile hrow
    -- A reference to the row is an attribute and never deferred.
    rw [compile_row hrow] at hcompile
    obtain ⟨definition, -, hattr⟩ := map_eq_ok.mp hcompile
    cases hattr
  case call =>
    intro function arguments expected compiled c _ hall hc hrow hvalue
    refine decides_of_arises (call_arises c hc) hvalue fun hvalues => ?_
    obtain ⟨argument, hargument, hrow⟩ := Expr.exists_of_anyReferencesRow hrow
    obtain ⟨operand, hoperand, -, hmotive⟩ := exists_of_forall₂ hall.flip hargument
    exact (hmotive hrow (hvalues operand hoperand)).mono (Expr.subexpressions_argument hargument)
  case unary =>
    intro op operand compiled c _ _ hmotive hc hrow hvalue
    refine decides_of_arises (unary_arises c hc) hvalue fun hvalues => ?_
    exact (hmotive hrow (hvalues compiled List.mem_cons_self)).mono (List.subset_cons_self _ _)
  case junction =>
    intro op left right operands c _ hcompile hall hc hrow hvalue
    rcases junction_arises c hc with h | ⟨hconstant, -⟩
    · refine decides_of_arises h hvalue fun hvalues => ?_
      obtain ⟨expr, hexpr, hrow⟩ := Expr.exists_referencesRow_chain op hrow
      obtain ⟨operand, hoperand, -, hmotive⟩ := exists_of_forall₂ hall.flip hexpr
      exact (hmotive hrow (hvalues operand hoperand)).mono (Expr.subexpressions_chain hexpr)
    · -- The junction was decided, so it is itself what was looked for.
      cases c with
      | constant value => exact ⟨_, Expr.mem_subexpressions_self _, hrow, value, hcompile⟩
      | _ => cases hconstant
  case binary =>
    intro op left right first second c _ _ _ hmotive _ hmotive' hc hrow hvalue
    refine decides_of_arises (binary_arises c hc) hvalue fun hvalues => ?_
    rw [List.forall_mem_cons, List.forall_mem_singleton] at hvalues
    rw [Expr.referencesRow, Bool.or_eq_true] at hrow
    rcases hrow with hrow | hrow
    · exact (hmotive hrow hvalues.1).mono fun _ h =>
        List.mem_cons_of_mem _ (List.mem_append_left _ h)
    · exact (hmotive' hrow hvalues.2).mono fun _ h =>
        List.mem_cons_of_mem _ (List.mem_append_right _ h)

/-- Nothing that mentions the row is left to the request if no part that mentions it is decided
by a constant. -/
theorem defersAlike_of_not_decides {expr : Expr} (h : ¬ compiler.Decides expr.subexpressions) :
    compiler.DefersAlike request other expr := by
  intro sub hsub hrow hdynamic
  exact absurd ((exists_decided hrow _ hdynamic rfl).mono
    (Expr.subexpressions_subset expr hsub)) h

end Compiler

/-! ## Filters -/

/-- What an expression says as a condition for a request: its truth, the fault of a value that has
none, or the error of its evaluation. -/
def Request.truth (request : Request) (expr : Expr) : Except EvalError (Except CompileFault Bool) :=
  (request.evaluate expr).map Value.conditionTruth

namespace Filter

variable {filter compiled : Filter} {expr : Expr}

/-- What a filter merges to that is nothing but a truth value. -/
def ofTruth (filter : Filter) (expr : Expr) : Except EvalError (Except CompileFault Bool) →
    Except MergeError Statement
  | .error error => .error (.evaluation expr.text error)
  | .ok (.error fault) => .error (.render (⟨filter.dialect.name, expr.text, fault⟩ : CompileError))
  | .ok (.ok holds) => (filter.dialect.truth holds).merge {}

/-- The two truth values of a dialect are different statements, the same for every request. -/
theorem merge_truth (filter : Filter) : ∃ text : Bool → String, text true ≠ text false ∧
    ∀ holds request, (filter.dialect.truth holds).merge request = .ok ⟨text holds, []⟩ := by
  rw [dialect]
  cases filter.backend with
  | tabular =>
      exact ⟨fun holds => if holds then "1 = 1" else "1 = 0", by decide,
        fun holds request => Part.merge_ofText _ _ []⟩
  | directory =>
      exact ⟨fun holds => if holds then Directory.anyEntry else "(!" ++ Directory.anyEntry ++ ")",
        by decide, fun holds request => Part.merge_ofText _ _ []⟩

/-- Different outcomes of a condition are different outcomes of the filter. -/
theorem ofTruth_injective (filter : Filter) (expr : Expr) {truth also : Except EvalError
    (Except CompileFault Bool)} (h : filter.ofTruth expr truth = filter.ofTruth expr also) :
    truth = also := by
  obtain ⟨text, hne, hmerge⟩ := filter.merge_truth
  unfold ofTruth at h
  rcases truth with error | (fault | _ | _) <;> rcases also with other | (other | _ | _) <;>
    simp_all

/-- A filter that is deferred as a whole merges to the truth of its expression. -/
theorem merge_eq_ofTruth (h : filter.compile expr = (compiled, none))
    (hdynamic : (filter.compiler expr).compile expr = .ok (.dynamic expr)) (request : Request) :
    compiled.merge request =
      filter.ofTruth expr ((filter.bindRequest request).truth expr) := by
  obtain ⟨c, part, hc, hcondition, hmerge⟩ := compile_eq_ok h
  rw [hdynamic] at hc
  cases hc
  rw [Compiler.condition] at hcondition
  rw [hmerge, Compiler.merge_renderOne hcondition, Slot.term, Request.truth]
  obtain ⟨text, -, htruth⟩ := filter.merge_truth
  cases (filter.bindRequest request).evaluate expr with
  | error error => rfl
  | ok value =>
      cases hvalue : value.conditionTruth with
      | error fault => simp [Except.bind, Except.map, Compiler.dynamicTruth, hvalue, ofTruth,
          Compiler.mergeRendering, compiler, Bind.bind]
      | ok holds => simp [Except.bind, Except.map, Compiler.dynamicTruth, hvalue, ofTruth,
          Compiler.mergeRendering, compiler, Bind.bind, Pure.pure, Except.pure, htruth]

theorem agreeOutsideRow {request other : Request} (hnow : request.now = other.now)
    (hagree : ∀ path, isRowPath path = false →
      (request.resolver.bind fun resolver => resolver path) =
        other.resolver.bind fun resolver => resolver path) :
    AgreeOutsideRow (filter.bindRequest request) (filter.bindRequest other) where
  now := hnow
  resolve path hpath := by
    simp only [bindRequest, Request.rebind, Request.environment, Option.getD_some]
    unfold resolverFor
    rw [hagree path hpath]

/-- Requests of one time that agree outside the row merge a filter alike if everything that is
deferred although it mentions the row has the same value for both, so at any rate if no part that
mentions the row is decided by a constant. A filter that is deferred as a whole merges alike only
then, up to the truth of its value. -/
theorem merge_same_outside_row {request other : Request}
    (hcompile : filter.compile expr = (compiled, none)) (hnow : request.now = other.now)
    (hagree : ∀ path, isRowPath path = false →
      (request.resolver.bind fun resolver => resolver path) =
        other.resolver.bind fun resolver => resolver path) :
    ((filter.compiler expr).DefersAlike (filter.bindRequest request) (filter.bindRequest other)
        expr → compiled.merge request = compiled.merge other) ∧
    (¬ (filter.compiler expr).Decides expr.subexpressions →
      compiled.merge request = compiled.merge other) ∧
    ((filter.compiler expr).compile expr = .ok (.dynamic expr) →
      (compiled.merge request = compiled.merge other ↔
        (filter.bindRequest request).truth expr = (filter.bindRequest other).truth expr)) := by
  have hsame : (filter.compiler expr).DefersAlike (filter.bindRequest request)
      (filter.bindRequest other) expr → compiled.merge request = compiled.merge other := by
    intro halike
    obtain ⟨c, part, hc, hcondition, hmerge⟩ := compile_eq_ok hcompile
    rw [hmerge, hmerge]
    exact same_of_compilePart (bind_eq_ok.mpr ⟨c, hc, hcondition⟩) fun sub hsub =>
      halike.evaluate_eq (agreeOutsideRow hnow hagree) hsub
  refine ⟨hsame, fun hdecides => hsame (Compiler.defersAlike_of_not_decides hdecides),
    fun hdynamic => ?_⟩
  rw [merge_eq_ofTruth hcompile hdynamic, merge_eq_ofTruth hcompile hdynamic]
  exact ⟨filter.ofTruth_injective expr, congrArg _⟩

/-- A comparison of the row with 1 that a NULL beside it decides, negated. -/
private def notOneAndNull : Expr :=
  .unary .not (.binary .and (.binary .eq (.reference "object.a" .any) (.literal (.integer 1) .any))
    (.literal .null .any))

private def oneColumn : Filter :=
  .new .tabular (Schema.ofList [⟨"a", "a", .number, false, false⟩])

private theorem compile_notOneAndNull :
    (oneColumn.compiler notOneAndNull).compile notOneAndNull = .ok (.dynamic notOneAndNull) := by
  have hleft : ∃ part, (oneColumn.compiler notOneAndNull).compile
      (.binary .eq (.reference "object.a" .any) (.literal (.integer 1) .any)) =
        .ok (.condition part) := by
    have hattr : (oneColumn.compiler notOneAndNull).schema.resolve "object.a" .any =
        .ok ⟨"a", "a", .number, false, false⟩ := rfl
    rw [Compiler.compile_comparison rfl (Compiler.compile_rowReference hattr)
      (by rw [Compiler.compile])]
    exact ⟨_, rfl⟩
  obtain ⟨part, hleft⟩ := hleft
  have hoperands : (oneColumn.compiler notOneAndNull).operands .and
      (.binary .and (.binary .eq (.reference "object.a" .any) (.literal (.integer 1) .any))
        (.literal .null .any)) = .ok [.condition part, .constant .null] := by
    rw [Compiler.operands, if_pos rfl, Compiler.operands_of_other (by simp), hleft,
      Compiler.operands_of_other (by simp), Compiler.compile]
    rfl
  rw [notOneAndNull, Compiler.compile, Compiler.compile_junction rfl]
  rw [notOneAndNull] at hoperands
  rw [hoperands]
  rfl

/-- A request that resolves a path of the row to 1 and nothing else. -/
private def rowRequest : Request :=
  { resolver := some fun path => if path = "object.a" then some (.integer 1) else none }

/-- What a request says of the row decides whether a condition on the row always holds. -/
theorem merge_differs_not_and_null :
    ∃ compiled, oneColumn.compile notOneAndNull = (compiled, none) ∧
      (∀ path, isRowPath path = false →
        (({} : Request).resolver.bind fun resolver => resolver path) =
          rowRequest.resolver.bind fun resolver => resolver path) ∧
      compiled.merge {} ≠ compiled.merge rowRequest := by
  have hcompile : oneColumn.compile notOneAndNull =
      ((oneColumn.compile notOneAndNull).1, none) := by
    have hpart : ∃ part, compilePart oneColumn.backend oneColumn.schema notOneAndNull =
        .ok part := by
      have h := compile_notOneAndNull
      rw [compiler] at h
      rw [compilePart]
      simp only [dialect] at h
      rw [h]
      exact ⟨_, rfl⟩
    obtain ⟨part, hpart⟩ := hpart
    rw [Filter.compile, hpart]
  have hagree : ∀ path, isRowPath path = false →
      (({} : Request).resolver.bind fun resolver => resolver path) =
        rowRequest.resolver.bind fun resolver => resolver path := by
    intro path hpath
    have hne : path ≠ "object.a" := by
      rintro rfl
      cases hpath
    simp [rowRequest, hne]
  have hmerge := merge_same_outside_row hcompile (show ({} : Request).now = rowRequest.now from rfl)
    hagree
  refine ⟨_, hcompile, hagree, fun h => ?_⟩
  have htruth := (hmerge.2.2 compile_notOneAndNull).mp h
  exact absurd htruth (by decide)

end Filter

end RowFilter
