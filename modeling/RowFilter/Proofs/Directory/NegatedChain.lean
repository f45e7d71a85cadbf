import RowFilter.Proofs.Directory.Refinement
import RowFilter.Proofs.Statement.Deferral

/-! # Negated chains with constants

A constant that decides a chain is found when the chain is compiled, and one that does not decide it
is left out; for both, NULL is read as false. What is then negated is either evaluated without a
row, or a condition on the comparisons alone. Evaluation on the row is three-valued instead, so the
two may differ for a chain with NULL in it.
-/

namespace RowFilter

namespace Expr

/-- The truth of a condition in an environment, unknown unless it is a truth value. -/
def truth (env : Environment) (expr : Expr) : Truth :=
  match expr.evaluate env with
  | .ok (.boolean b) => some b
  | _ => none

variable {env : Environment}

theorem truth_of_evaluate {expr : Expr} {truth : Truth}
    (h : expr.evaluate env = .ok (Value.ofTruth truth)) : expr.truth env = truth := by
  rw [Expr.truth, h]
  cases truth <;> rfl

theorem truth_literal (truth : Truth) (type : ValueType) :
    (literal (Value.ofTruth truth) type).truth env = truth :=
  truth_of_evaluate (by rw [evaluate])

/-- A chain joins the truth values of its operands. -/
theorem evaluate_chain {op : BinaryOp} (hop : op.isLogical = true) {expr : Expr}
    (h : ∀ operand ∈ expr.chain op,
      operand.evaluate env = .ok (Value.ofTruth (operand.truth env))) :
    expr.evaluate env =
      .ok (Value.ofTruth (Truth.joinAll op.deciding ((expr.chain op).map (truth env)))) := by
  fun_induction chain op expr with
  | case1 left right ihleft ihright =>
      rw [List.forall_mem_append] at h
      rw [List.map_append, Truth.joinAll_append]
      exact evaluate_junction hop (ihleft h.1) (ihright h.2)
  | case2 inner left right hne =>
      rw [List.map_singleton, Truth.joinAll_singleton]
      exact h _ (List.mem_singleton_self _)
  | case3 =>
      rw [List.map_singleton, Truth.joinAll_singleton]
      exact h _ (List.mem_singleton_self _)

/-- A literal that decides a junction when it is compiled, where NULL counts as false. -/
def Decides (deciding : Bool) (expr : Expr) : Prop :=
  ∃ truth type, expr = .literal (Value.ofTruth truth) type ∧ (truth == some true) = deciding

/-- Operands of a chain that is compiled without its row: all are literals, or one decides it. -/
def DecidedBy (deciding : Bool) (operands : List Expr) : Prop :=
  (∀ operand ∈ operands, operand.isConstant = true) ∨
    ∃ operand ∈ operands, operand.Decides deciding

theorem decides_literal {deciding : Bool} {truth : Truth} {type : ValueType} :
    (literal (Value.ofTruth truth) type).Decides deciding ↔ (truth == some true) = deciding := by
  constructor
  · rintro ⟨truth', type', heq, hdecides⟩
    rwa [← @truth_literal Environment.empty truth type, heq, truth_literal]
  · intro hdecides
    exact ⟨truth, type, rfl, hdecides⟩

theorem truth_of_isConstant (env env' : Environment) {expr : Expr} (h : expr.isConstant = true) :
    expr.truth env = expr.truth env' := by
  rw [truth, truth, evaluate_of_isConstant env env' expr h]

theorem joinAll_and_eq_false {operands : List Expr} :
    Truth.joinAll BinaryOp.and.deciding (operands.map (truth env)) = some false ↔
      ∃ operand ∈ operands, operand.truth env = some false :=
  Truth.joinAll_eq_deciding.trans List.mem_map

theorem joinAll_or_eq_false {operands : List Expr} :
    Truth.joinAll BinaryOp.or.deciding (operands.map (truth env)) = some false ↔
      ∀ operand ∈ operands, operand.truth env = some false :=
  Truth.joinAll_eq_neutral.trans List.forall_mem_map

end Expr

/-- A literal truth value or NULL, or a comparison of an attribute with a literal integer. -/
inductive ChainOperand (attributes : List Attribute) : Expr → Prop
  | truth (truth : Truth) (type : ValueType) :
      ChainOperand attributes (.literal (Value.ofTruth truth) type)
  | comparison {attr : Attribute} (hattr : attr ∈ attributes) {expected : ValueType}
      (haccepts : expected.accepts .number = true) {op flipped : BinaryOp}
      (hop : op.flip = some flipped) (n : Int64) (type : ValueType) :
      ChainOperand attributes
        (.binary op (.reference attr.rowPath expected) (.literal (.integer n) type))

namespace ChainOperand

variable {attributes : List Attribute} {operand : Expr}

theorem eq_literal (h : ChainOperand attributes operand) (hconstant : operand.isConstant = true) :
    ∃ truth type, operand = .literal (Value.ofTruth truth) type := by
  cases h with
  | truth truth type => exact ⟨truth, type, rfl⟩
  | comparison => simp [Expr.isConstant] at hconstant

theorem evaluate_comparison {resolve : Resolver} {env : Environment}
    (henv : IntegerEnvironment attributes resolve env) {attr : Attribute}
    (hattr : attr ∈ attributes) (expected : ValueType) {op flipped : BinaryOp}
    (hop : op.flip = some flipped) (n : Int64) (type : ValueType) :
    (Expr.binary op (.reference attr.rowPath expected) (.literal (.integer n) type)).evaluate env =
      .ok (Value.ofTruth (op.compareInteger (env.integer? attr.rowPath) n)) := by
  have hlogical := BinaryOp.isLogical_of_flip hop
  rw [Expr.evaluate, if_neg (by simp [hlogical]), Expr.evaluate, Expr.evaluate,
    henv.inside attr hattr]
  exact BinaryOp.apply_integer hop _ n

/-- An operand of a chain has a truth value wherever the attributes are integers. -/
theorem evaluate_eq {resolve : Resolver} {env : Environment}
    (h : ChainOperand attributes operand) (henv : IntegerEnvironment attributes resolve env) :
    operand.evaluate env = .ok (Value.ofTruth (operand.truth env)) := by
  cases h with
  | truth truth type => rw [Expr.truth_literal, Expr.evaluate]
  | @comparison attr hattr expected haccepts op flipped hop n type =>
      have hevaluate := evaluate_comparison henv hattr expected hop n type
      rw [Expr.truth_of_evaluate hevaluate, hevaluate]

end ChainOperand

theorem Value.conditionTruth_ofTruth (truth : Truth) :
    (Value.ofTruth truth).conditionTruth = .ok (truth == some true) := by
  rcases truth with _ | _ | _ <;> rfl

namespace Directory

/-- What an operand of a chain compiles to: a literal stays as it is, and a comparison becomes a
condition that the server knows for an entry as evaluation does for its row. -/
inductive OperandCompiles (request : Request) (entry : Entry) (row : Environment) :
    Expr → Compiled → Prop
  | literal (truth : Truth) (type : ValueType) :
      OperandCompiles request entry row (.literal (Value.ofTruth truth) type)
        (.constant (Value.ofTruth truth))
  | condition {operand : Expr} (hconstant : operand.isConstant = false) {part : Part}
      {filter : SearchFilter} (hpart : part.Denotes request filter)
      (hevaluate : filter.evaluate entry = operand.truth row)
      (hknown : operand.truth row ≠ none) :
      OperandCompiles request entry row operand (.condition part)

section

variable {config : DirectoryConfig} {attributes : List Attribute} {compiler : Compiler}
  {request : Request} {entry : Entry} {row : Environment} {resolve : Resolver} {expr : Expr}
  {op : BinaryOp} {compiled : List Compiled}

/-- On a row with an integer for every attribute, comparisons are known. -/
theorem exists_operandCompiles (hdialect : compiler.dialect = Directory.dialect)
    (hschema : compiler.schema = Schema.ofList attributes)
    (hattributes : NumberAttributes config attributes) (hentry : IntegerEntry attributes entry)
    (htotal : ∀ attr ∈ attributes, entry.values? attr.backendName ≠ none)
    (hrow : IntegerEnvironment attributes resolve row)
    (hinteger : ∀ attr ∈ attributes, row.integer? attr.rowPath = entry.integer? attr.backendName)
    {operand : Expr} (h : ChainOperand attributes operand) :
    ∃ c, compiler.compile operand = .ok c ∧ OperandCompiles request entry row operand c := by
  cases h with
  | truth truth type => exact ⟨_, by rw [Compiler.compile], .literal truth type⟩
  | @comparison attr hattr expected haccepts op flipped hop n type =>
      have hresolve : compiler.schema.resolve attr.rowPath expected = .ok attr := by
        rw [hschema]
        obtain ⟨hname, -, -⟩ := hattributes.named attr hattr
        refine Schema.resolve_rowPath hname (get?_ofList hattributes hattr) ?_
        rwa [hattributes.number attr hattr]
      obtain ⟨part, hpart, hdenotes⟩ := denotes_comparison request (hattributes.plain attr hattr)
        (hattributes.number attr hattr) hop n
      have hpresent : entry.integer? attr.backendName ≠ none := by
        intro hnone
        refine htotal attr hattr ?_
        rw [values?_eq hentry, hnone]
        rfl
      have htruth := Expr.truth_of_evaluate
        (ChainOperand.evaluate_comparison hrow hattr expected hop n type)
      rw [hinteger attr hattr] at htruth
      refine ⟨.condition part, ?_, .condition ?_ hdenotes ?_ ?_⟩
      · rw [Compiler.compile_attr_literal hresolve (BinaryOp.isComparison_of_flip hop), hdialect]
        exact congrArg (Except.map Compiled.condition) hpart
      · simp [Expr.isConstant]
      · rw [htruth]
        refine (reflects_comparison hentry hop n fun hnone => absurd hnone hpresent).exact ?_
        exact Option.isSome_iff_ne_none.mpr hpresent
      · rw [htruth]
        obtain ⟨m, hm⟩ := Option.ne_none_iff_exists'.mp hpresent
        rw [hm]
        cases op <;> simp [BinaryOp.compareInteger]

/-- A junction is decided by a literal, or what remains of it are its comparisons. -/
theorem junctionParts_denote (deciding : Bool) {operands : List Expr}
    (h : List.Forall₂ (OperandCompiles request entry row) operands compiled) :
    (compiler.junctionParts deciding compiled = .ok none ∧
      ∃ operand ∈ operands, operand.Decides deciding) ∨
    ∃ parts filters, compiler.junctionParts deciding compiled = .ok (some parts) ∧
      (∀ operand ∈ operands, ¬ operand.Decides deciding) ∧
      List.Forall₂ (Part.Denotes request) parts filters ∧
      filters.map (SearchFilter.evaluate entry) =
        (operands.filter fun operand => !operand.isConstant).map (Expr.truth row) := by
  induction h with
  | nil => exact .inr ⟨[], [], rfl, nofun, .nil, rfl⟩
  | @cons operand c operands rest hfirst hrest ih =>
      cases hfirst with
      | literal truth type =>
          by_cases hdecides : (truth == some true) = deciding
          · refine .inl ⟨?_, _, List.mem_cons_self, truth, type, rfl, hdecides⟩
            exact Compiler.junctionParts_decided
              (by rw [Value.conditionTruth_ofTruth, hdecides]) rest
          · rw [Compiler.junctionParts_constant (Value.conditionTruth_ofTruth truth) hdecides]
            rcases ih with ⟨hparts, operand, hmem, hoperand⟩ |
              ⟨parts, filters, hparts, hnone, hdenote, hevaluate⟩
            · exact .inl ⟨hparts, operand, List.mem_cons_of_mem _ hmem, hoperand⟩
            · exact .inr ⟨parts, filters, hparts, List.forall_mem_cons.mpr
                ⟨fun h => hdecides (Expr.decides_literal.mp h), hnone⟩, hdenote, hevaluate⟩
      | @condition _ hconstant part filter hpart hevaluate hknown =>
          have hother : ¬ operand.Decides deciding := by
            rintro ⟨truth, type, rfl, -⟩
            cases hconstant
          rw [Compiler.junctionParts_cons deciding rfl]
          rcases ih with ⟨hparts, decider, hmem, hdecides⟩ |
            ⟨parts, filters, hparts, hnone, hdenote, hrests⟩
          · refine .inl ⟨?_, decider, List.mem_cons_of_mem _ hmem, hdecides⟩
            rw [hparts]
            rfl
          · refine .inr ⟨part :: parts, filter :: filters, ?_,
              List.forall_mem_cons.mpr ⟨hother, hnone⟩, .cons hpart hdenote, ?_⟩
            · rw [hparts]
              rfl
            · rw [List.filter_cons_of_pos (by simp [hconstant]), List.map_cons, List.map_cons,
                hevaluate, hrests]

/-- Only literals are compiled to values, and they are compiled to constants. -/
theorem all_isValue_iff {operands : List Expr}
    (h : List.Forall₂ (OperandCompiles request entry row) operands compiled) :
    compiled.all Compiled.isValue = compiled.all Compiled.isConstant ∧
      (compiled.all Compiled.isValue = true ↔ ∀ operand ∈ operands, operand.isConstant = true) := by
  induction h with
  | nil => exact ⟨rfl, iff_of_true rfl nofun⟩
  | cons hfirst hrest ih =>
      rw [List.all_cons, List.all_cons, List.forall_mem_cons, Bool.and_eq_true, ih.2, ih.1]
      cases hfirst with
      | literal truth type => exact ⟨rfl, and_congr_left' (iff_of_true rfl rfl)⟩
      | condition hconstant =>
          rw [hconstant]
          exact ⟨rfl, Iff.rfl⟩

theorem known_comparisons {operands : List Expr}
    (h : List.Forall₂ (OperandCompiles request entry row) operands compiled) :
    ∀ operand ∈ operands.filter (fun operand => !operand.isConstant), operand.truth row ≠ none := by
  intro operand hmem
  obtain ⟨hoperand, hconstant⟩ := List.mem_filter.mp hmem
  obtain ⟨c, -, hcompiles⟩ := exists_of_forall₂ h.flip hoperand
  cases hcompiles with
  | literal truth type => cases hconstant
  | condition _ _ _ hknown => exact hknown

/-- A chain is compiled from its operands, also if there is only one. -/
theorem compile_eq_junction (hop : op.isLogical = true)
    (hcompile : (expr.chain op).mapM compiler.compile = .ok compiled)
    (h : List.Forall₂ (OperandCompiles request entry row) (expr.chain op) compiled) :
    compiler.compile expr = compiler.junction expr op compiled := by
  by_cases hchain : ∃ left right, expr = .binary op left right
  · obtain ⟨left, right, rfl⟩ := hchain
    rw [Compiler.compile_junction hop, Compiler.operands_eq_mapM, hcompile]
    rfl
  · have hsingle : expr.chain op = [expr] :=
      Expr.chain_of_ne fun left right heq => hchain ⟨left, right, heq⟩
    rw [hsingle] at h hcompile
    obtain ⟨c, _, hfirst, hnil, rfl⟩ := List.forall₂_cons_left_iff.mp h
    obtain rfl := List.forall₂_nil_left_iff.mp hnil
    obtain ⟨_, _, hc, hnil', heq⟩ := List.forall₂_cons_left_iff.mp (mapM_eq_ok.mp hcompile)
    obtain ⟨rfl, rfl⟩ := List.cons.inj heq
    rw [hc]
    cases hfirst with
    | literal truth type => rfl
    | condition =>
        rw [Compiler.junction, Compiler.fold?_eq_none expr (List.mem_singleton_self _) rfl]
        rfl

/-- A chain that is compiled without its row becomes a constant, and any other a condition that
joins its comparisons. -/
theorem compile_chain (hdialect : compiler.dialect = Directory.dialect) (hop : op.isLogical = true)
    {value : Value} (hevaluate : request.evaluate expr = .ok value)
    (hcompile : (expr.chain op).mapM compiler.compile = .ok compiled)
    (h : List.Forall₂ (OperandCompiles request entry row) (expr.chain op) compiled) :
    (Expr.DecidedBy op.deciding (expr.chain op) ∧
      ∃ value, compiler.compile expr = .ok (.constant value)) ∨
    ¬ Expr.DecidedBy op.deciding (expr.chain op) ∧
      ∃ part filter, compiler.compile expr = .ok (.condition part) ∧ part.Denotes request filter ∧
        filter.evaluate entry = Truth.joinAll op.deciding
          (((expr.chain op).filter fun operand => !operand.isConstant).map (Expr.truth row)) := by
  rw [compile_eq_junction hop hcompile h]
  obtain ⟨hconstants, hall⟩ := all_isValue_iff h
  by_cases hvalues : compiled.all Compiled.isValue = true
  · have hliterals := hall.mp hvalues
    have hexpr := (expr.isConstant_chain op).mpr hliterals
    have hempty : expr.evaluate Environment.empty = .ok value :=
      (Expr.evaluate_of_isConstant _ _ expr hexpr).trans hevaluate
    refine .inl ⟨.inl hliterals, value, ?_⟩
    simp only [Compiler.junction, Compiler.fold?, hvalues, hexpr, ← hconstants, hempty]
    rfl
  · have hbackend : ∃ operand ∈ compiled, operand.isValue = false := by simpa using hvalues
    rw [hall] at hvalues
    rcases @junctionParts_denote compiler _ _ _ _ op.deciding _ h with
      ⟨hparts, hdecides⟩ | ⟨parts, filters, hparts, hnone, hdenote, hfilters⟩
    · obtain ⟨operand, hmem, hvalue⟩ := hbackend
      refine .inl ⟨.inr hdecides, .boolean op.deciding, ?_⟩
      rw [Compiler.junction, Compiler.fold?_eq_none expr hmem hvalue]
      simp only [Bind.bind, Except.bind, hparts]
      rfl
    · have hne : filters ≠ [] := by
        rintro rfl
        have hnil := List.filter_eq_nil_iff.mp (List.map_eq_nil_iff.mp hfilters.symm)
        exact hvalues fun operand hmem => by simpa using hnil operand hmem
      obtain ⟨part, filter, hjunction, hdenotes, hevaluates⟩ :=
        Scene.junction_denotes hdialect hop expr hbackend hparts hdenote hne
      refine .inr ⟨?_, part, filter, hjunction, hdenotes, by rw [hevaluates, hfilters]⟩
      rintro (hliterals | ⟨operand, hmem, hdecides⟩)
      · exact hvalues hliterals
      · exact hnone operand hmem hdecides

/-- The negation of a constant is folded, but if it mentions the row it waits for a request. -/
theorem compile_not_constant {value : Value}
    (hcompile : compiler.compile expr = .ok (.constant value)) {truth : Truth}
    (hevaluate : request.evaluate expr = .ok (Value.ofTruth truth)) :
    compiler.compile (.unary .not expr) = .ok
      (if expr.isConstant then .constant (Value.ofTruth truth.negate)
        else .dynamic (.unary .not expr)) := by
  have hvalue : [Compiled.constant value].all Compiled.isValue = true := rfl
  have hisConstant : (Expr.unary .not expr).isConstant = expr.isConstant := by rw [Expr.isConstant]
  rw [Compiler.compile, hcompile]
  simp only [Bind.bind, Except.bind, Compiler.unary, Compiler.fold?, hvalue, hisConstant]
  by_cases hconstant : expr.isConstant = true
  · have hempty : (Expr.unary .not expr).evaluate Environment.empty =
        .ok (Value.ofTruth truth.negate) := by
      rw [Expr.evaluate_of_isConstant _ request.environment (.unary .not expr) hconstant]
      exact Expr.evaluate_not hevaluate
    rw [hconstant, hempty]
    rfl
  · rw [Bool.eq_false_iff.mpr hconstant]
    rfl

/-- The negation of what compiles to a constant is decided by evaluation without a row. -/
theorem not_constant_denotes (hdialect : compiler.dialect = Directory.dialect) {value : Value}
    (hcompile : compiler.compile expr = .ok (.constant value)) {truth : Truth}
    (hevaluate : request.evaluate expr = .ok (Value.ofTruth truth)) :
    ∃ part, (compiler.compile (.unary .not expr)).bind compiler.condition = .ok part ∧
      part.Denotes request (truthFilter (truth == some false)) := by
  have htruth : (Value.ofTruth truth.negate).conditionTruth = .ok (truth == some false) := by
    rw [Value.conditionTruth_ofTruth]
    rcases truth with _ | _ | _ <;> rfl
  rw [compile_not_constant hcompile hevaluate]
  by_cases hconstant : expr.isConstant = true
  · rw [if_pos hconstant]
    exact ⟨_, Scene.condition_constant hdialect htruth, denotes_truth _⟩
  · rw [if_neg hconstant]
    exact Scene.condition_dynamic hdialect (Expr.evaluate_not hevaluate) htruth

end

/-! ## Where a chain loses its NULL -/

section

variable {attributes : List Attribute} {operands : List Expr} {row bare : Environment}
  {selected holds : Prop} (hchain : ∀ operand ∈ operands, ChainOperand attributes operand)

include hchain

/-- What is false in a chain and decides nothing is a comparison. -/
theorem exists_comparison_iff (hdecides : ∀ operand ∈ operands, ¬ operand.Decides false) :
    (∃ operand ∈ operands.filter (fun operand => !operand.isConstant),
      operand.truth row = some false) ↔ ∃ operand ∈ operands, operand.truth row = some false := by
  constructor
  · rintro ⟨operand, hmem, hfalse⟩
    exact ⟨operand, (List.mem_filter.mp hmem).1, hfalse⟩
  · rintro ⟨operand, hmem, hfalse⟩
    refine ⟨operand, List.mem_filter.mpr ⟨hmem, ?_⟩, hfalse⟩
    rw [Bool.not_eq_true', Bool.eq_false_iff]
    intro hconstant
    obtain ⟨truth, type, rfl⟩ := (hchain operand hmem).eq_literal hconstant
    rw [Expr.truth_literal] at hfalse
    exact hdecides _ hmem (Expr.decides_literal.mpr (by rw [hfalse]; rfl))

/-- The negation of a conjunction that a literal decides is evaluated without the row. That differs
from evaluation on the row only if the literal is NULL, which decides nothing there. -/
theorem and_agrees_iff
    (hselected : Expr.DecidedBy false operands ∧
        (selected ↔ ∃ operand ∈ operands, operand.truth bare = some false) ∨
      ¬ Expr.DecidedBy false operands ∧
        (selected ↔ ∃ operand ∈ operands.filter fun operand => !operand.isConstant,
          operand.truth row = some false))
    (hholds : holds ↔ ∃ operand ∈ operands, operand.truth row = some false) :
    (selected ↔ holds) ↔ (∀ type, .literal .null type ∉ operands) ∨
      ((∃ operand ∈ operands, operand.truth row = some false) ↔
        ∃ operand ∈ operands, operand.truth bare = some false) := by
  rcases hselected with ⟨hdecided, hselected⟩ | ⟨hnone, hselected⟩
  · rw [hselected, hholds]
    refine ⟨fun h => .inr h.symm, ?_⟩
    rintro (hnull | h)
    · rcases hdecided with hliterals | ⟨operand, hmem, truth, type, rfl, hdecides⟩
      · refine exists_congr fun operand => and_congr_right fun hmem => ?_
        rw [Expr.truth_of_isConstant bare row (hliterals operand hmem)]
      · have hfalse : truth = some false := by
          refine Truth.eq_false_of_ne ?_ (by simpa using hdecides)
          rintro rfl
          exact hnull type hmem
        exact iff_of_true ⟨_, hmem, (Expr.truth_literal _ _).trans hfalse⟩
          ⟨_, hmem, (Expr.truth_literal _ _).trans hfalse⟩
    · exact h.symm
  · refine iff_of_true ?_ (.inl fun type hmem => hnone (.inr ⟨_, hmem, none, type, rfl, rfl⟩))
    rw [hselected, hholds]
    exact exists_comparison_iff hchain fun operand hmem hdecides =>
      hnone (.inr ⟨operand, hmem, hdecides⟩)

variable (hknown : ∀ operand ∈ operands.filter (fun operand => !operand.isConstant),
  operand.truth row ≠ none)

include hknown

theorem truth_ne_none (hnull : ∀ type, .literal .null type ∉ operands) :
    ∀ operand ∈ operands, operand.truth row ≠ none := by
  intro operand hmem
  by_cases hconstant : operand.isConstant = true
  · obtain ⟨truth, type, rfl⟩ := (hchain operand hmem).eq_literal hconstant
    rw [Expr.truth_literal]
    rintro rfl
    exact hnull type hmem
  · exact hknown operand (List.mem_filter.mpr ⟨hmem, by simpa using hconstant⟩)

/-- All comparisons are false exactly if nothing in a chain that no literal decides is true. -/
theorem forall_comparison_iff (hdecides : ∀ operand ∈ operands, ¬ operand.Decides true) :
    (∀ operand ∈ operands.filter (fun operand => !operand.isConstant),
      operand.truth row = some false) ↔ ∀ operand ∈ operands, operand.truth row ≠ some true := by
  constructor
  · intro h operand hmem htrue
    by_cases hconstant : operand.isConstant = true
    · obtain ⟨truth, type, rfl⟩ := (hchain operand hmem).eq_literal hconstant
      rw [Expr.truth_literal] at htrue
      exact hdecides _ hmem (Expr.decides_literal.mpr (by rw [htrue]; rfl))
    · have hfalse := h operand (List.mem_filter.mpr ⟨hmem, by simpa using hconstant⟩)
      rw [hfalse] at htrue
      cases htrue
  · intro h operand hmem
    exact Truth.eq_false_of_ne (hknown operand hmem) (h operand (List.mem_filter.mp hmem).1)

/-- The negation of a disjunction that no literal decides asks for its comparisons only. That
differs from evaluation on the row only if NULL stands in the disjunction and nothing holds. -/
theorem or_agrees_iff
    (hselected : Expr.DecidedBy true operands ∧
        (selected ↔ ∀ operand ∈ operands, operand.truth bare = some false) ∨
      ¬ Expr.DecidedBy true operands ∧
        (selected ↔ ∀ operand ∈ operands.filter fun operand => !operand.isConstant,
          operand.truth row = some false))
    (hholds : holds ↔ ∀ operand ∈ operands, operand.truth row = some false) :
    (selected ↔ holds) ↔ (∀ type, .literal .null type ∉ operands) ∨
      (∀ operand ∈ operands, operand.isConstant = true) ∨
        ∃ operand ∈ operands, operand.truth row = some true := by
  have hrefuted : ∀ env, (∃ operand ∈ operands, operand.truth env = some true) →
      ¬ ∀ operand ∈ operands, operand.truth env = some false := by
    rintro env ⟨operand, hmem, htrue⟩ h
    rw [h operand hmem] at htrue
    cases htrue
  rcases hselected with ⟨hdecided, hselected⟩ | ⟨hnone, hselected⟩
  · rw [hselected, hholds]
    rcases hdecided with hliterals | ⟨operand, hmem, truth, type, rfl, hdecides⟩
    · refine iff_of_true (forall₂_congr fun operand hmem => ?_) (.inr (.inl hliterals))
      rw [Expr.truth_of_isConstant bare row (hliterals operand hmem)]
    · obtain rfl : truth = some true := by simpa using hdecides
      have htrue : ∀ env, ∃ operand ∈ operands, operand.truth env = some true :=
        fun env => ⟨_, hmem, Expr.truth_literal _ type⟩
      exact iff_of_true (iff_of_false (hrefuted bare (htrue bare)) (hrefuted row (htrue row)))
        (.inr (.inr (htrue row)))
  · rw [forall_comparison_iff hchain hknown fun operand hmem hdecides =>
      hnone (.inr ⟨operand, hmem, hdecides⟩)] at hselected
    rw [hselected, hholds]
    constructor
    · intro h
      -- Without a true operand, an unknown one leaves the disjunction unknown, which is not
      -- refuted.
      by_contra hother
      push Not at hother
      obtain ⟨⟨type, hnull⟩, -, hnever⟩ := hother
      have hunknown : (Expr.literal .null type).truth row = none := Expr.truth_literal none type
      rw [h.mp hnever _ hnull] at hunknown
      cases hunknown
    · rintro (hnull | hliterals | ⟨operand, hmem, htrue⟩)
      · refine forall₂_congr fun operand hmem => ⟨Truth.eq_false_of_ne ?_, fun hfalse => ?_⟩
        · exact truth_ne_none hchain hknown hnull operand hmem
        · rw [hfalse]
          nofun
      · exact absurd (.inl hliterals) hnone
      · exact iff_of_false (fun h => h operand hmem htrue) (hrefuted row ⟨operand, hmem, htrue⟩)

end

/-! ## Entries with all attributes -/

section

variable {config : DirectoryConfig} {attributes : List Attribute} {filter : Filter}
  {request : Request} {entry : Entry} {op : BinaryOp} {expr : Expr}

/-- The negation of a chain that is compiled without its row is read as what evaluation without a
row gives, and that of any other as what its comparisons give on the row. -/
theorem reads_not_chain (hattributes : NumberAttributes config attributes)
    (hbackend : filter.backend = .directory) (hschema : filter.schema = Schema.ofList attributes)
    (hop : op.isLogical = true)
    (hchain : ∀ operand ∈ expr.chain op, ChainOperand attributes operand)
    (hentry : IntegerEntry attributes entry)
    (htotal : ∀ attr ∈ attributes, entry.values? attr.backendName ≠ none) {row : Environment}
    (hrow : IntegerEnvironment attributes (filter.resolverFor request) row)
    (hinteger : ∀ attr ∈ attributes, row.integer? attr.rowPath = entry.integer? attr.backendName)
    (hbare : IntegerEnvironment attributes (filter.resolverFor request)
      (filter.bindRequest request).environment) :
    let comparisons := (expr.chain op).filter fun operand => !operand.isConstant
    (∀ operand ∈ comparisons, operand.truth row ≠ none) ∧
    ∃ parsed, filter.Reads (.unary .not expr) request parsed ∧
      (Expr.DecidedBy op.deciding (expr.chain op) ∧
          (parsed.selects entry = true ↔ Truth.joinAll op.deciding
            ((expr.chain op).map (Expr.truth (filter.bindRequest request).environment)) =
              some false) ∨
        ¬ Expr.DecidedBy op.deciding (expr.chain op) ∧
          (parsed.selects entry = true ↔
            Truth.joinAll op.deciding (comparisons.map (Expr.truth row)) = some false)) := by
  intro comparisons
  have hdialect : (filter.compiler (.unary .not expr)).dialect = Directory.dialect :=
    congrArg Backend.dialect hbackend
  have hoperands : List.Forall₂ (fun operand other =>
      ∃ c, (filter.compiler (.unary .not expr)).compile operand = .ok c ∧
        OperandCompiles (filter.bindRequest request) entry row other c)
      (expr.chain op) (expr.chain op) :=
    List.forall₂_same.mpr fun operand hmem => exists_operandCompiles hdialect hschema hattributes
      hentry htotal hrow hinteger (hchain operand hmem)
  obtain ⟨compiled, hcompile, hall⟩ := exists_mapM hoperands
  refine ⟨known_comparisons hall, ?_⟩
  have hevaluate := Expr.evaluate_chain hop fun operand hmem =>
    (hchain operand hmem).evaluate_eq hbare
  -- Either a constant decided the chain when it was compiled, or its comparisons are written.
  rcases compile_chain hdialect hop hevaluate hcompile hall with ⟨hdecided, value, hconstant⟩ |
    ⟨hnone, part, server, hcondition, hdenotes, hserver⟩
  · obtain ⟨part, hpart, hdenotes⟩ := not_constant_denotes hdialect hconstant hevaluate
    refine ⟨_, Filter.reads_of_denotes hpart hdenotes, .inl ⟨hdecided, ?_⟩⟩
    rw [SearchFilter.selects, Scene.evaluate_truthFilter]
    simp
  · have hpart : Filter.compilePart filter.backend filter.schema (.unary .not expr) =
        .ok (negation part) := by
      refine Filter.compilePart_of_condition ?_
      rw [Compiler.compile_not hcondition, hdialect]
      rfl
    refine ⟨_, Filter.reads_of_denotes hpart (denotes_negation hdenotes), .inr ⟨hnone, ?_⟩⟩
    rw [SearchFilter.selects, SearchFilter.evaluate_not, hserver]
    exact beq_iff_eq.trans Truth.negate_eq_true

/-- The negation of a chain of truth values, NULL and comparisons with integers, compiled, merged,
bound and read, selects an entry with an integer for every attribute exactly if it holds of the
entry's row, unless NULL stands in the chain. Then a conjunction is evaluated without the row, and a
disjunction loses NULL, which shows wherever nothing else decides it. -/
theorem selects_not_chain_iff (hattributes : NumberAttributes config attributes)
    (hbackend : filter.backend = .directory) (hschema : filter.schema = Schema.ofList attributes)
    (hrequest : ∀ path, isRowPath path = true → filter.resolverFor request path = none)
    (hop : op.isLogical = true)
    (hchain : ∀ operand ∈ expr.chain op, ChainOperand attributes operand)
    (hentry : IntegerEntry attributes entry)
    (htotal : ∀ attr ∈ attributes, entry.values? attr.backendName ≠ none) (data : Value) :
    let row := rowEnvironment config filter.schema entry data (filter.resolverFor request)
      request.now
    let bare := (filter.bindRequest request).environment
    ∃ parsed, filter.Reads (.unary .not expr) request parsed ∧
      ((parsed.selects entry = true ↔ (Expr.unary .not expr).holds row = .ok true) ↔
        (∀ type, .literal .null type ∉ expr.chain op) ∨
        op = .and ∧ ((∃ operand ∈ expr.chain op, operand.truth row = some false) ↔
          ∃ operand ∈ expr.chain op, operand.truth bare = some false) ∨
        op = .or ∧ ((∀ operand ∈ expr.chain op, operand.isConstant = true) ∨
          ∃ operand ∈ expr.chain op, operand.truth row = some true)) := by
  intro row bare
  have hrow : IntegerEnvironment attributes (filter.resolverFor request) row := by
    have h := rowEnvironment_possible hattributes hentry data (filter.resolverFor request)
      request.now
    rwa [← hschema] at h
  have hinteger : ∀ attr ∈ attributes,
      row.integer? attr.rowPath = entry.integer? attr.backendName := by
    intro attr hattr
    have h := rowEnvironment_integer? hattributes hentry hattr data (filter.resolverFor request)
      request.now
    rwa [← hschema] at h
  -- Without a row no attribute has an integer.
  have hbare : IntegerEnvironment attributes (filter.resolverFor request) bare := by
    refine ⟨fun _ _ => rfl, fun attr _ => ?_⟩
    have hunresolved : bare.resolve attr.rowPath = none := hrequest _ attr.isRowPath_rowPath
    rw [Environment.integer?, hunresolved]
    rfl
  obtain ⟨hknown, parsed, hreads, hselected⟩ := reads_not_chain hattributes hbackend hschema hop
    hchain hentry htotal hrow hinteger hbare
  refine ⟨parsed, hreads, ?_⟩
  have hholds : (Expr.unary .not expr).holds row = .ok true ↔
      Truth.joinAll op.deciding ((expr.chain op).map (Expr.truth row)) = some false := by
    have hevaluate := Expr.evaluate_chain hop fun operand hmem =>
      (hchain operand hmem).evaluate_eq hrow
    rw [holds_iff (Expr.evaluate_not hevaluate), Truth.negate_eq_true]
  -- A conjunction is refuted by one operand, a disjunction by all of them.
  cases op with
  | and =>
      simp only [Expr.joinAll_and_eq_false] at hselected hholds
      refine (and_agrees_iff hchain hselected hholds).trans ?_
      simp [bare]
  | or =>
      simp only [Expr.joinAll_or_eq_false] at hselected hholds
      refine (or_agrees_iff hchain hknown hselected hholds).trans ?_
      simp
  | _ => cases hop

end

private def oneNumber : List Attribute :=
  [⟨"a", "a", .number, false, false⟩]

private def equalsOne : Expr :=
  .binary .eq (.reference "object.a" .any) (.literal (.integer 1) .number)

/-- NULL is lost from a disjunction under a negation: the entry is selected although the condition
does not hold of its row. -/
theorem selects_not_or_null : ∃ parsed,
    (Filter.new .directory (Schema.ofList oneNumber)).Reads
      (.unary .not (.binary .or equalsOne (.literal .null .any))) {} parsed ∧
    parsed.selects ⟨"cn=x", [("a", [rawInteger 2])]⟩ = true ∧
    (Expr.unary .not (.binary .or equalsOne (.literal .null .any))).holds (rowEnvironment {}
      (Schema.ofList oneNumber) ⟨"cn=x", [("a", [rawInteger 2])]⟩ .null Resolver.empty 0) =
        .ok false := by
  have hnumbers : NumberAttributes {} oneNumber :=
    ⟨by decide, by decide, by decide, List.forall_mem_singleton.mpr
      ⟨by decide, List.all_iff_forall_prop.mp (by decide)⟩, by decide, by decide⟩
  have hchain : ∀ operand ∈ [equalsOne, .literal .null .any], ChainOperand oneNumber operand :=
    List.forall_mem_cons.mpr ⟨@ChainOperand.comparison _ ⟨"a", "a", .number, false, false⟩
      (by decide) .any (by decide) .eq _ rfl 1 .number, List.forall_mem_singleton.mpr
        (.truth none .any)⟩
  have hentry : IntegerEntry oneNumber ⟨"cn=x", [("a", [rawInteger 2])]⟩ :=
    ⟨by decide, by simp, by decide⟩
  obtain ⟨parsed, hreads, hiff⟩ := @selects_not_chain_iff _ _
    (Filter.new .directory (Schema.ofList oneNumber)) {} _ .or
    (.binary .or equalsOne (.literal .null .any)) hnumbers rfl rfl (fun _ _ => rfl) rfl hchain
    hentry (by decide) .null
  refine ⟨parsed, hreads, ?_, by decide +kernel⟩
  by_contra hselects
  rcases hiff.mp (iff_of_false hselects (by decide +kernel)) with h | ⟨h, -⟩ | ⟨-, h | h⟩
  · exact h .any (List.mem_cons_of_mem _ List.mem_cons_self)
  · cases h
  · exact absurd (h equalsOne List.mem_cons_self) (by decide)
  · obtain ⟨operand, hmem, htrue⟩ := h
    have hnever : ∀ operand ∈ [equalsOne, .literal .null .any], operand.truth (rowEnvironment {}
        (Schema.ofList oneNumber) ⟨"cn=x", [("a", [rawInteger 2])]⟩ .null Resolver.empty 0) ≠
          some true := List.forall_mem_cons.mpr
      ⟨by decide +kernel, List.forall_mem_singleton.mpr (by decide +kernel)⟩
    exact hnever operand hmem htrue

end Directory

end RowFilter
