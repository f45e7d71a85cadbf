import RowFilter.Proofs.Directory.IntegerComparison
import RowFilter.Proofs.Expr.Evaluation

/-! # Conditions on integers

Conditions that compare attributes with integers or check them for NULL, joined by and, or and not,
are filters on the server that hold of an entry exactly if the condition holds of its row.
-/

namespace RowFilter

namespace Expr

mutual

/-- The paths that stand under a negation in an expression. -/
def negatedPaths : Expr → List String
  | literal _ _ | reference _ _ => []
  | call _ arguments _ => allNegatedPaths arguments
  | unary .not operand => paths operand
  | unary _ operand => negatedPaths operand
  | binary _ left right => negatedPaths left ++ negatedPaths right

def allNegatedPaths : List Expr → List String
  | [] => []
  | argument :: rest => negatedPaths argument ++ allNegatedPaths rest

end

mutual

theorem negatedPaths_subset : (expr : Expr) → expr.negatedPaths ⊆ expr.paths
  | literal _ _ => List.nil_subset _
  | reference _ _ => List.nil_subset _
  | call _ arguments _ => allNegatedPaths_subset arguments
  | unary op operand => by
      cases op with
      | not => exact List.Subset.refl _
      | _ => exact negatedPaths_subset operand
  | binary _ left right => by
      have hleft := negatedPaths_subset left
      have hright := negatedPaths_subset right
      rw [negatedPaths, paths]
      exact List.append_subset.mpr ⟨List.subset_append_of_subset_left _ hleft,
        List.subset_append_of_subset_right _ hright⟩

theorem allNegatedPaths_subset : (arguments : List Expr) →
    allNegatedPaths arguments ⊆ allPaths arguments
  | [] => List.nil_subset _
  | argument :: rest => by
      have hfirst := negatedPaths_subset argument
      have hrest := allNegatedPaths_subset rest
      rw [allNegatedPaths, allPaths]
      exact List.append_subset.mpr ⟨List.subset_append_of_subset_left _ hfirst,
        List.subset_append_of_subset_right _ hrest⟩

end

end Expr

/-- The integer that a path stands for. -/
def Environment.integer? (env : Environment) (path : String) : Option Int64 :=
  match env.resolve path with
  | some (.integer n) => some n
  | _ => none

/-- An operand that is an integer: a literal, or a path outside the row. -/
inductive IntegerOperand (resolve : Resolver) : Expr → Int64 → Prop
  | literal (n : Int64) (type : ValueType) : IntegerOperand resolve (.literal (.integer n) type) n
  | reference {path : String} {n : Int64} (hpath : isRowPath path = false)
      (hvalue : resolve path = some (.integer n)) (expected : ValueType) :
      IntegerOperand resolve (.reference path expected) n

/-- Comparisons of attributes with integers and null checks, joined by and, or and not. -/
inductive IntegerCondition (attributes : List Attribute) (resolve : Resolver) : Expr → Prop
  | truth (b : Bool) (type : ValueType) :
      IntegerCondition attributes resolve (.literal (.boolean b) type)
  | comparison {attr : Attribute} (hattr : attr ∈ attributes) {expected : ValueType}
      (haccepts : expected.accepts .number = true) {op flipped : BinaryOp}
      (hop : op.flip = some flipped) {operand : Expr} {n : Int64}
      (hoperand : IntegerOperand resolve operand n) :
      IntegerCondition attributes resolve (.binary op (.reference attr.rowPath expected) operand)
  | exchanged {attr : Attribute} (hattr : attr ∈ attributes) {expected : ValueType}
      (haccepts : expected.accepts .number = true) {op flipped : BinaryOp}
      (hop : op.flip = some flipped) {operand : Expr} {n : Int64}
      (hoperand : IntegerOperand resolve operand n) :
      IntegerCondition attributes resolve (.binary op operand (.reference attr.rowPath expected))
  | nullCheck {attr : Attribute} (hattr : attr ∈ attributes) {expected : ValueType}
      (haccepts : expected.accepts .number = true) {op : UnaryOp} (hop : op.isTrailing = true) :
      IntegerCondition attributes resolve (.unary op (.reference attr.rowPath expected))
  | not {operand : Expr} (hoperand : IntegerCondition attributes resolve operand) :
      IntegerCondition attributes resolve (.unary .not operand)
  | junction {op : BinaryOp} (hop : op.isLogical = true) {left right : Expr}
      (hleft : IntegerCondition attributes resolve left)
      (hright : IntegerCondition attributes resolve right) :
      IntegerCondition attributes resolve (.binary op left right)

/-- Environments that differ only in which integers the attributes of the row are, if any. -/
structure IntegerEnvironment (attributes : List Attribute) (resolve : Resolver)
    (env : Environment) : Prop where
  outside : ∀ path, isRowPath path = false → env.resolve path = resolve path
  inside : ∀ attr ∈ attributes,
    (env.resolve attr.rowPath).getD .null = Value.ofInteger? (env.integer? attr.rowPath)

namespace Directory

/-- A request and an entry of integers, with the environment of its row. -/
structure Scene where
  config : DirectoryConfig
  attributes : List Attribute
  request : Request
  entry : Entry
  row : Environment
  numbers : NumberAttributes config attributes
  integers : IntegerEntry attributes entry
  absent : ∀ attr ∈ attributes, entry.integer? attr.backendName = none → attr.nullable = true ∧
    Text.sameIgnoringCase attr.backendName "objectClass" = false
  request_possible : IntegerEnvironment attributes request.environment.resolve request.environment
  row_possible : IntegerEnvironment attributes request.environment.resolve row
  row_integer : ∀ attr ∈ attributes, row.integer? attr.rowPath = entry.integer? attr.backendName

namespace Scene

/-- The environments of rows of integers under the scene's request. -/
def Possible (scene : Scene) (env : Environment) : Prop :=
  IntegerEnvironment scene.attributes scene.request.environment.resolve env

/-- None of the paths is one of an attribute that the entry lacks. -/
def Definite (scene : Scene) (paths : List String) : Prop :=
  ∀ attr ∈ scene.attributes, scene.entry.integer? attr.backendName = none → attr.rowPath ∉ paths

theorem Definite.mono {scene : Scene} {paths others : List String} (h : scene.Definite paths)
    (hsub : ∀ path ∈ others, path ∈ paths) : scene.Definite others :=
  fun attr hattr hnone hmem => h attr hattr hnone (hsub _ hmem)

/-- What a condition compiles to agrees with its truth in the environments of rows. What is not
left to the backend is the same for all of them. -/
inductive Agrees (scene : Scene) (definite : Prop) : Compiled → (Environment → Truth) → Prop
  | constant {b : Bool} {truth : Environment → Truth}
      (htruth : ∀ env, scene.Possible env → truth env = some b) :
      Agrees scene definite (.constant (.boolean b)) truth
  | dynamic {b : Bool} {expr : Expr} {truth : Environment → Truth}
      (htruth : ∀ env, scene.Possible env → truth env = some b)
      (hvalue : scene.request.evaluate expr = .ok (.boolean b)) :
      Agrees scene definite (.dynamic expr) truth
  | condition {part : Part} {filter : SearchFilter} {truth : Environment → Truth}
      (hpart : part.Denotes scene.request filter)
      (hreflects : Reflects definite (filter.evaluate scene.entry) (truth scene.row)) :
      Agrees scene definite (.condition part) truth

variable {scene : Scene} {compiler : Compiler} {definite : Prop}

theorem Agrees.mono {c : Compiled} {truth : Environment → Truth}
    (h : scene.Agrees definite c truth) {other : Prop} (himp : other → definite) :
    scene.Agrees other c truth := by
  cases h with
  | constant htruth => exact .constant htruth
  | dynamic htruth hvalue => exact .dynamic htruth hvalue
  | condition hpart hreflects => exact .condition hpart (hreflects.mono himp)

/-- What is not left to the backend has one truth value. -/
theorem Agrees.truth_of_isValue {c : Compiled} {truth : Environment → Truth}
    (h : scene.Agrees definite c truth) (hvalue : c.isValue = true) :
    ∃ b, ∀ env, scene.Possible env → truth env = some b := by
  cases h with
  | constant htruth => exact ⟨_, htruth⟩
  | dynamic htruth _ => exact ⟨_, htruth⟩
  | condition _ _ => cases hvalue

/-! ## Conditions of compiled values -/

theorem evaluate_truthFilter (entry : Entry) (b : Bool) :
    (truthFilter b).evaluate entry = some b := by
  cases b with
  | true => rfl
  | false => rfl

/-- A constant that is used as a condition denotes its truth. -/
theorem condition_constant (hdialect : compiler.dialect = Directory.dialect) {value : Value}
    {b : Bool} (h : value.conditionTruth = .ok b) :
    compiler.condition (.constant value) = .ok (Directory.truth b) := by
  rw [Compiler.condition, h, hdialect]
  rfl

/-- What the request supplies, used as a condition, denotes its truth. -/
theorem condition_dynamic (hdialect : compiler.dialect = Directory.dialect) {request : Request}
    {expr : Expr} {value : Value} (hvalue : request.evaluate expr = .ok value) {b : Bool}
    (h : value.conditionTruth = .ok b) :
    ∃ part, compiler.condition (.dynamic expr) = .ok part ∧
      part.Denotes request (truthFilter b) := by
  have hwrite : ∀ value b, value.conditionTruth = .ok b →
      compiler.dynamicTruth (.value value) = .ok (Directory.truth b) := by
    intro value b hcondition
    rw [Compiler.dynamicTruth, hcondition, hdialect]
    rfl
  have hrender : ∃ part, compiler.renderOne (.deferred expr) compiler.dynamicTruth = .ok part :=
    Compiler.renderOne_ok (hwrite .null false rfl)
  obtain ⟨part, hpart⟩ := hrender
  refine ⟨part, hpart, (denotes_truth b).of_merge_eq ?_⟩
  rw [Compiler.merge_renderOne hpart, Slot.term, hvalue]
  simp only [Except.bind, hwrite value b h, Compiler.mergeRendering]

/-- Used as a condition, what was compiled denotes a filter that reflects its truth. -/
theorem Agrees.condition_denotes (hdialect : compiler.dialect = Directory.dialect) {c : Compiled}
    {truth : Environment → Truth} (h : scene.Agrees definite c truth) :
    ∃ part filter, compiler.condition c = .ok part ∧ part.Denotes scene.request filter ∧
      Reflects definite (filter.evaluate scene.entry) (truth scene.row) := by
  cases h with
  | @constant b _ htruth =>
      refine ⟨Directory.truth b, truthFilter b, condition_constant hdialect rfl, denotes_truth b,
        Reflects.of_eq ?_⟩
      rw [evaluate_truthFilter, htruth _ scene.row_possible]
  | @dynamic b expr _ htruth hvalue =>
      obtain ⟨part, hpart, hdenotes⟩ := condition_dynamic hdialect hvalue rfl
      refine ⟨part, truthFilter b, hpart, hdenotes, Reflects.of_eq ?_⟩
      rw [evaluate_truthFilter, htruth _ scene.row_possible]
  | condition hpart hreflects => exact ⟨_, _, rfl, hpart, hreflects⟩

/-- A node whose operands are not left to the backend is not either. -/
theorem fold_agrees (definite : Prop) {expr : Expr} {operands : List Compiled}
    (hvalues : operands.all Compiled.isValue = true) {truth : Environment → Truth} {b : Bool}
    (htruth : ∀ env, scene.Possible env → truth env = some b)
    (hevaluate : ∀ env, scene.Possible env → expr.evaluate env = .ok (Value.ofTruth (truth env))) :
    ∃ c, Compiler.fold? expr operands = .ok (some c) ∧ scene.Agrees definite c truth := by
  have hboolean : ∀ env, scene.Possible env → expr.evaluate env = .ok (.boolean b) := by
    intro env henv
    rw [hevaluate env henv, htruth env henv]
    rfl
  rw [Compiler.fold?, if_neg (by simp [hvalues])]
  by_cases hconstant : (expr.isConstant && operands.all Compiled.isConstant) = true
  · rw [Bool.and_eq_true] at hconstant
    refine ⟨.constant (.boolean b), ?_, .constant htruth⟩
    rw [if_pos (by simp [hconstant]), Expr.evaluate_of_isConstant Environment.empty scene.row expr
      hconstant.1, hboolean _ scene.row_possible]
  · refine ⟨.dynamic expr, ?_, .dynamic htruth (hboolean _ scene.request_possible)⟩
    rw [if_neg hconstant]

/-! ## Junctions -/

/-- The operands of a junction that remain denote filters that join to its truth; without any, one
of the operands decides it for all rows. -/
theorem junctionParts_agrees (hdialect : compiler.dialect = Directory.dialect) (deciding : Bool)
    {operands : List Compiled} {truths : List (Environment → Truth)}
    (h : List.Forall₂ (scene.Agrees definite) operands truths) :
    (compiler.junctionParts deciding operands = .ok none ∧ ∀ env, scene.Possible env →
      Truth.joinAll deciding (truths.map fun truth => truth env) = some deciding) ∨
    ∃ parts filters, compiler.junctionParts deciding operands = .ok (some parts) ∧
      List.Forall₂ (Part.Denotes scene.request) parts filters ∧
      Reflects definite
        (Truth.joinAll deciding (filters.map (SearchFilter.evaluate scene.entry)))
        (Truth.joinAll deciding (truths.map fun truth => truth scene.row)) ∧
      ((∃ operand ∈ operands, operand.isValue = false) → filters ≠ []) := by
  induction h with
  | nil =>
      refine Or.inr ⟨[], [], rfl, .nil, Reflects.of_eq rfl, ?_⟩
      rintro ⟨_, hmem, _⟩
      cases hmem
  | @cons operand truth rest truths hfirst hrest ih =>
      by_cases hconstant : operand.isConstant = true
      · cases hfirst with
        | @constant b _ htruth =>
            -- A constant decides the junction or has no influence on it.
            by_cases hdecides : b = deciding
            · refine Or.inl ⟨Compiler.junctionParts_decided (by rw [hdecides]; rfl) rest,
                fun env henv => ?_⟩
              rw [List.map_cons, Truth.joinAll_cons, htruth env henv, hdecides, Truth.join_deciding]
            · have hskip : compiler.junctionParts deciding (.constant (.boolean b) :: rest) =
                  compiler.junctionParts deciding rest :=
                Compiler.junctionParts_constant rfl hdecides rest
              have hneutral : ∀ env, scene.Possible env → ∀ truths,
                  Truth.joinAll deciding (truth env :: truths) = Truth.joinAll deciding truths := by
                intro env henv truths
                rw [Truth.joinAll_cons, htruth env henv, Bool.eq_not_of_ne hdecides,
                  Truth.join_comm, Truth.join_neutral]
              rw [hskip]
              rcases ih with ⟨hparts, hall⟩ | ⟨parts, filters, hparts, hdenote, hreflects, hsome⟩
              · refine Or.inl ⟨hparts, fun env henv => ?_⟩
                rw [List.map_cons, hneutral env henv, hall env henv]
              · refine Or.inr ⟨parts, filters, hparts, hdenote, ?_, ?_⟩
                · rwa [List.map_cons, hneutral _ scene.row_possible]
                · rintro ⟨other, hmem, hvalue⟩
                  rcases List.mem_cons.mp hmem with rfl | hmem
                  · cases hvalue
                  · exact hsome ⟨other, hmem, hvalue⟩
        | dynamic => cases hconstant
        | condition => cases hconstant
      · obtain ⟨part, filter, hpart, hdenotes, hreflects⟩ := hfirst.condition_denotes hdialect
        -- A constant among the other operands may still decide the junction.
        rcases ih with ⟨hparts, hall⟩ | ⟨parts, filters, hparts, hdenote, hrests, -⟩
        · refine Or.inl ⟨?_, fun env henv => ?_⟩
          · rw [Compiler.junctionParts_cons deciding (by simpa using hconstant), hpart, hparts]
            rfl
          · rw [List.map_cons, Truth.joinAll_cons, hall env henv, Truth.join_comm,
              Truth.join_deciding]
        · refine Or.inr ⟨part :: parts, filter :: filters, ?_, .cons hdenotes hdenote, ?_, ?_⟩
          · rw [Compiler.junctionParts_cons deciding (by simpa using hconstant), hpart, hparts]
            rfl
          · exact hreflects.join deciding hrests
          · intro _
            exact List.cons_ne_nil _ _

theorem evaluate_junctionFilter {op : BinaryOp} (hop : op.isLogical = true) (entry : Entry)
    (filters : List SearchFilter) :
    (junctionFilter op filters).evaluate entry =
      Truth.joinAll op.deciding (filters.map (SearchFilter.evaluate entry)) := by
  cases op with
  | or => exact SearchFilter.evaluate_or entry filters
  | and => exact SearchFilter.evaluate_and entry filters
  | _ => cases hop

/-- The conditions that remain of a junction are joined on the server. -/
theorem junction_denotes (hdialect : compiler.dialect = Directory.dialect) {op : BinaryOp}
    (hop : op.isLogical = true) (expr : Expr) {operands : List Compiled}
    (hbackend : ∃ operand ∈ operands, operand.isValue = false) {parts : List Part}
    (hparts : compiler.junctionParts op.deciding operands = .ok (some parts)) {request : Request}
    {filters : List SearchFilter} (hdenote : List.Forall₂ (Part.Denotes request) parts filters)
    (hne : filters ≠ []) :
    ∃ part filter, compiler.junction expr op operands = .ok (.condition part) ∧
      part.Denotes request filter ∧ ∀ entry, filter.evaluate entry =
        Truth.joinAll op.deciding (filters.map (SearchFilter.evaluate entry)) := by
  obtain ⟨operand, hmem, hvalue⟩ := hbackend
  have hdenotes : (compiler.dialect.junction op parts).Denotes request
      (junctionFilter op filters) := by
    rw [hdialect]
    exact denotes_junction op hdenote hne
  rw [Compiler.junction, Compiler.fold?_eq_none expr hmem hvalue]
  simp only [Bind.bind, Except.bind, hparts]
  cases hdenote with
  | nil => exact absurd rfl hne
  | @cons part filter rest others hfirst hrest =>
      cases hrest with
      | nil =>
          refine ⟨part, filter, rfl, hfirst, fun entry => ?_⟩
          rw [List.map_singleton, Truth.joinAll_singleton]
      | cons hsecond hmore => exact ⟨_, _, rfl, hdenotes, (evaluate_junctionFilter hop · _)⟩

theorem joinAll_values (deciding : Bool) {operands : List Compiled}
    {truths : List (Environment → Truth)}
    (h : List.Forall₂ (scene.Agrees definite) operands truths)
    (hvalues : operands.all Compiled.isValue = true) :
    ∃ b, ∀ env, scene.Possible env →
      Truth.joinAll deciding (truths.map fun truth => truth env) = some b := by
  induction h with
  | nil => exact ⟨!deciding, fun _ _ => rfl⟩
  | cons hfirst hrest ih =>
      rw [List.all_cons, Bool.and_eq_true] at hvalues
      obtain ⟨b, hb⟩ := hfirst.truth_of_isValue hvalues.1
      obtain ⟨c, hc⟩ := ih hvalues.2
      have hjoin : ∀ b c : Bool, ∃ d, Truth.join deciding (some b) (some c) = some d := by
        cases deciding <;> decide
      obtain ⟨d, hd⟩ := hjoin b c
      refine ⟨d, fun env henv => ?_⟩
      rw [List.map_cons, Truth.joinAll_cons, hb env henv, hc env henv, hd]

/-- A junction of operands that agree with their truths agrees with the truth they join to. -/
theorem junction_agrees (hdialect : compiler.dialect = Directory.dialect) {op : BinaryOp}
    (hop : op.isLogical = true) {expr : Expr} {operands : List Compiled}
    {truths : List (Environment → Truth)}
    (h : List.Forall₂ (scene.Agrees definite) operands truths)
    (hevaluate : ∀ env, scene.Possible env → expr.evaluate env =
      .ok (Value.ofTruth (Truth.joinAll op.deciding (truths.map fun truth => truth env)))) :
    ∃ c, compiler.junction expr op operands = .ok c ∧ scene.Agrees definite c
      fun env => Truth.joinAll op.deciding (truths.map fun truth => truth env) := by
  by_cases hvalues : operands.all Compiled.isValue = true
  · obtain ⟨b, hb⟩ := joinAll_values op.deciding h hvalues
    obtain ⟨c, hfold, hagrees⟩ := fold_agrees definite hvalues hb hevaluate
    refine ⟨c, ?_, hagrees⟩
    rw [Compiler.junction, hfold]
    rfl
  · have hbackend : ∃ operand ∈ operands, operand.isValue = false := by
      simpa using hvalues
    rcases junctionParts_agrees hdialect op.deciding h with
      ⟨hparts, hall⟩ | ⟨parts, filters, hparts, hdenote, hreflects, hsome⟩
    · refine ⟨.constant (.boolean op.deciding), ?_, .constant hall⟩
      obtain ⟨operand, hmem, hvalue⟩ := hbackend
      rw [Compiler.junction, Compiler.fold?_eq_none expr hmem hvalue]
      simp only [Bind.bind, Except.bind, hparts]
      rfl
    · obtain ⟨part, filter, hjunction, hdenotes, hfilter⟩ :=
        junction_denotes hdialect hop expr hbackend hparts hdenote (hsome hbackend)
      refine ⟨.condition part, hjunction, .condition hdenotes ?_⟩
      rwa [hfilter]

/-- A negation agrees with the opposite truth if its operand is definite. -/
theorem negation_agrees (hdialect : compiler.dialect = Directory.dialect) (hdefinite : definite)
    {operand : Expr} {c : Compiled} {truth : Environment → Truth}
    (h : scene.Agrees definite c truth)
    (hevaluate : ∀ env, scene.Possible env →
      operand.evaluate env = .ok (Value.ofTruth (truth env))) :
    ∃ c', compiler.unary (.unary .not operand) .not c = .ok c' ∧
      scene.Agrees definite c' fun env => (truth env).negate := by
  by_cases hvalue : c.isValue = true
  · obtain ⟨b, hb⟩ := h.truth_of_isValue hvalue
    have hnegated : ∀ env, scene.Possible env → (truth env).negate = some !b := by
      intro env henv
      rw [hb env henv]
      rfl
    have hvalues : [c].all Compiled.isValue = true := by simp [hvalue]
    obtain ⟨c', hfold, hagrees⟩ := fold_agrees definite hvalues hnegated
      fun env henv => Expr.evaluate_not (hevaluate env henv)
    refine ⟨c', ?_, hagrees⟩
    rw [Compiler.unary, hfold]
    rfl
  · have hfold := Compiler.fold?_eq_none (.unary .not operand) (List.mem_singleton_self c)
      (by simpa using hvalue)
    cases h with
    | constant => exact absurd rfl hvalue
    | dynamic => exact absurd rfl hvalue
    | @condition part filter _ hpart hreflects =>
        have hdenotes : (compiler.dialect.negation part).Denotes scene.request (.not filter) := by
          rw [hdialect]
          exact denotes_negation hpart
        rw [Compiler.unary, hfold]
        refine ⟨_, rfl, .condition hdenotes ?_⟩
        rw [SearchFilter.evaluate_not]
        exact hreflects.negate hdefinite

end Scene

end Directory

end RowFilter
