import RowFilter.Proofs.Directory.IntegerCondition

/-! # Directory conditions mean what they say

A condition on integers that is compiled for a directory selects exactly the entries for whose rows
it holds.
-/

namespace RowFilter

/-- The path of a declared attribute is resolved. -/
theorem Schema.resolve_rowPath {schema : Schema} {attr : Attribute} (hname : attr.name ≠ "")
    (hfound : Named.get? attr.name schema = some attr) {expected : ValueType}
    (haccepts : expected.accepts attr.type = true) :
    schema.resolve attr.rowPath expected = .ok attr := by
  have hprefix : List.isPrefixOf? (rowRoot ++ ".").toList attr.rowPath.toList =
      some attr.name.toList := by
    rw [List.isPrefixOf?_eq_some_iff_append_eq, Attribute.rowPath]
    simp only [String.toList_append]
  cases hlist : attr.name.toList with
  | nil => exact absurd (String.toList_eq_nil_iff.mp hlist) hname
  | cons c rest =>
      have hback : String.ofList (c :: rest) = attr.name := by
        rw [← hlist, String.ofList_toList]
      rw [resolve, hprefix, hlist]
      simp only [hback, hfound, if_pos haccepts]

theorem Attribute.isRowPath_rowPath (attr : Attribute) : isRowPath attr.rowPath = true := by
  have hpath : attr.rowPath.toList = rowRoot.toList ++ '.' :: attr.name.toList := by
    simp [rowPath]
  exact isRowPath_of_append hpath

namespace Directory

namespace Scene

variable {scene : Scene} {compiler : Compiler} {definite : Prop}

theorem evaluate_rowPath {attr : Attribute} (hattr : attr ∈ scene.attributes)
    (expected : ValueType) {env : Environment} (henv : scene.Possible env) :
    (Expr.reference attr.rowPath expected).evaluate env =
      .ok (Value.ofInteger? (env.integer? attr.rowPath)) := by
  rw [Expr.evaluate, henv.inside attr hattr]

/-- An operand that is an integer is one in all environments of rows. -/
theorem evaluate_operand {operand : Expr} {n : Int64}
    (h : IntegerOperand scene.request.environment.resolve operand n) {env : Environment}
    (henv : scene.Possible env) : operand.evaluate env = .ok (.integer n) := by
  cases h with
  | literal => rw [Expr.evaluate]
  | reference hpath hvalue =>
      rw [Expr.evaluate, henv.outside _ hpath, hvalue]
      rfl

theorem compile_rowPath (hschema : compiler.schema = Schema.ofList scene.attributes)
    {attr : Attribute} (hattr : attr ∈ scene.attributes) {expected : ValueType}
    (haccepts : expected.accepts .number = true) :
    compiler.compile (.reference attr.rowPath expected) = .ok (.attr attr) := by
  obtain ⟨hname, -, -⟩ := scene.numbers.named attr hattr
  refine Compiler.compile_rowReference ?_
  rw [hschema]
  refine Schema.resolve_rowPath hname (get?_ofList scene.numbers hattr) ?_
  rwa [scene.numbers.number attr hattr]

/-- An operand that is an integer is a value, and one that the request supplies. -/
theorem compile_operand (compiler : Compiler) {operand : Expr} {n : Int64}
    (h : IntegerOperand scene.request.environment.resolve operand n) :
    ∃ c slot, compiler.compile operand = .ok c ∧ c.isValue = true ∧ Slot.ofCompiled c = .ok slot ∧
      slot.term scene.request = .ok (.value (.integer n)) ∧
      (slot.trial = .value (.integer n) ∨ slot.trial = .value .null) := by
  have hvalue := evaluate_operand h scene.request_possible
  cases h with
  | literal => exact ⟨_, _, by rw [Compiler.compile], rfl, rfl, rfl, Or.inl rfl⟩
  | @reference path _ hpath _ expected =>
      refine ⟨_, _, Compiler.compile_reference hpath expected, rfl, rfl, ?_, Or.inr rfl⟩
      rw [Slot.term, Request.evaluate, hvalue]

/-- The rendering of a comparison with an integer denotes its filter. -/
theorem render_comparison (hdialect : compiler.dialect = Directory.dialect) {attr : Attribute}
    (hattr : attr ∈ scene.attributes) {op flipped : BinaryOp} (hop : op.flip = some flipped)
    {slot : Slot} {n : Int64} (hterm : slot.term scene.request = .ok (.value (.integer n)))
    (htrial : slot.trial = .value (.integer n) ∨ slot.trial = .value .null) :
    ∃ part, compiler.renderTwo (.ready (.attr attr)) slot (compiler.dialect.comparison op) =
      .ok part ∧ part.Denotes scene.request (comparisonFilter attr n op) := by
  obtain ⟨written, hwritten, hdenotes⟩ := denotes_comparison scene.request
    (scene.numbers.plain attr hattr) (scene.numbers.number attr hattr) hop n
  have hwrite : compiler.dialect.comparison = comparison := by
    rw [hdialect]
    rfl
  have hpart : ∃ part, compiler.renderTwo (.ready (.attr attr)) slot
      (compiler.dialect.comparison op) = .ok part := by
    rw [hwrite]
    rcases htrial with htrial | htrial
    · exact @Compiler.renderTwo_ok _ _ _ _ written (by rw [htrial]; exact hwritten)
    · obtain ⟨trial, hnull⟩ := comparison_trial hop attr
      exact @Compiler.renderTwo_ok _ _ _ _ trial (by rw [htrial]; exact hnull)
  obtain ⟨part, hpart⟩ := hpart
  refine ⟨part, hpart, hdenotes.of_merge_eq ?_⟩
  rw [Compiler.merge_renderTwo hpart, hterm, Slot.term, hwrite]
  simp only [Except.bind, hwritten, Compiler.mergeRendering]

theorem comparison_reflects {attr : Attribute} (hattr : attr ∈ scene.attributes)
    {op flipped : BinaryOp} (hop : op.flip = some flipped) (n : Int64) {paths : List String}
    (hmem : attr.rowPath ∈ paths) :
    Reflects (scene.Definite paths) ((comparisonFilter attr n op).evaluate scene.entry)
      (op.compareInteger (scene.row.integer? attr.rowPath) n) := by
  rw [scene.row_integer attr hattr]
  refine (reflects_comparison scene.integers hop n (scene.absent attr hattr)).mono ?_
  intro hdefinite
  rw [Option.isSome_iff_ne_none]
  intro hnone
  exact hdefinite attr hattr hnone hmem

/-- What a condition compiles to, with its truth in the environments of rows. -/
def CompileAgrees (scene : Scene) (compiler : Compiler) (expr : Expr) : Prop :=
  ∃ c truth, compiler.compile expr = .ok c ∧
    (∀ env, scene.Possible env → expr.evaluate env = .ok (Value.ofTruth (truth env))) ∧
    scene.Agrees (scene.Definite expr.paths) c truth

/-- What the operands of a chain of one operator compile to, with their truths. -/
def OperandsAgree (scene : Scene) (compiler : Compiler) (op : BinaryOp) (expr : Expr) : Prop :=
  ∃ operands truths, compiler.operands op expr = .ok operands ∧
    (∀ env, scene.Possible env → expr.evaluate env =
      .ok (Value.ofTruth (Truth.joinAll op.deciding (truths.map fun truth => truth env)))) ∧
    List.Forall₂ (scene.Agrees (scene.Definite expr.paths)) operands truths

theorem comparison_agrees (hdialect : compiler.dialect = Directory.dialect)
    (hschema : compiler.schema = Schema.ofList scene.attributes) {attr : Attribute}
    (hattr : attr ∈ scene.attributes) {expected : ValueType}
    (haccepts : expected.accepts .number = true) {op flipped : BinaryOp}
    (hop : op.flip = some flipped) {operand : Expr} {n : Int64}
    (hoperand : IntegerOperand scene.request.environment.resolve operand n) :
    CompileAgrees scene compiler (.binary op (.reference attr.rowPath expected) operand) := by
  obtain ⟨c, slot, hcompile, -, hslot, hterm, htrial⟩ := compile_operand compiler hoperand
  obtain ⟨part, hpart, hdenotes⟩ := render_comparison hdialect hattr hop hterm htrial
  have hcomparison := BinaryOp.isComparison_of_flip hop
  refine ⟨.condition part, fun env => op.compareInteger (env.integer? attr.rowPath) n, ?_, ?_,
    .condition hdenotes (comparison_reflects hattr hop n (by simp [Expr.paths]))⟩
  · rw [Compiler.compile_comparison hcomparison (compile_rowPath hschema hattr haccepts) hcompile,
      Compiler.comparison_attr _ op attr hslot, hpart]
    rfl
  · intro env henv
    have hlogical := BinaryOp.isLogical_of_flip hop
    rw [Expr.evaluate, if_neg (by simp [hlogical]), evaluate_rowPath hattr expected henv,
      evaluate_operand hoperand henv]
    exact BinaryOp.apply_integer hop _ n

theorem exchanged_agrees (hdialect : compiler.dialect = Directory.dialect)
    (hschema : compiler.schema = Schema.ofList scene.attributes) {attr : Attribute}
    (hattr : attr ∈ scene.attributes) {expected : ValueType}
    (haccepts : expected.accepts .number = true) {op flipped : BinaryOp}
    (hop : op.flip = some flipped) {operand : Expr} {n : Int64}
    (hoperand : IntegerOperand scene.request.environment.resolve operand n) :
    CompileAgrees scene compiler (.binary op operand (.reference attr.rowPath expected)) := by
  obtain ⟨c, slot, hcompile, hvalue, hslot, hterm, htrial⟩ :=
    compile_operand compiler hoperand
  have hflipped := BinaryOp.flip_flip hop
  obtain ⟨part, hpart, hdenotes⟩ := render_comparison hdialect hattr hflipped hterm htrial
  have hcomparison := BinaryOp.isComparison_of_flip hop
  refine ⟨.condition part, fun env => flipped.compareInteger (env.integer? attr.rowPath) n, ?_, ?_,
    .condition hdenotes (comparison_reflects hattr hflipped n (by simp [Expr.paths]))⟩
  · rw [Compiler.compile_comparison hcomparison hcompile (compile_rowPath hschema hattr haccepts),
      Compiler.comparison_exchange _ (Compiler.exchange_of_flip hop) attr hvalue hslot, hpart]
    rfl
  · intro env henv
    have hlogical := BinaryOp.isLogical_of_flip hop
    rw [Expr.evaluate, if_neg (by simp [hlogical]), evaluate_rowPath hattr expected henv,
      evaluate_operand hoperand henv]
    exact BinaryOp.integer_apply hop n _

/-- The rendering of a null check denotes presence or its opposite. -/
theorem render_nullCheck (hdialect : compiler.dialect = Directory.dialect) {attr : Attribute}
    (hattr : attr ∈ scene.attributes) (isNull : Bool) :
    ∃ part filter, (compiler.renderOne (.ready (.attr attr)) fun term =>
        compiler.dialect.nullCheck term isNull) = .ok part ∧
      part.Denotes scene.request filter ∧
      filter.evaluate scene.entry =
        some ((scene.entry.integer? attr.backendName).isSome != isNull) := by
  have hpresence : (presence attr).Denotes scene.request (.present attr.backendName) :=
    denotes_presence (scene.numbers.plain attr hattr)
  have hpresent := isPresent_integer scene.integers fun h => (scene.absent attr hattr h).2
  have hwrite : ∃ part filter, compiler.dialect.nullCheck (.attr attr) isNull = .ok part ∧
      part.Denotes scene.request filter ∧ filter.evaluate scene.entry =
        some ((scene.entry.integer? attr.backendName).isSome != isNull) := by
    rw [hdialect]
    cases isNull with
    | true =>
        refine ⟨_, _, rfl, denotes_negation hpresence, ?_⟩
        rw [SearchFilter.evaluate_not, SearchFilter.evaluate_present, hpresent]
        cases scene.entry.integer? attr.backendName <;> rfl
    | false =>
        refine ⟨_, _, rfl, hpresence, ?_⟩
        rw [SearchFilter.evaluate_present, hpresent]
        cases scene.entry.integer? attr.backendName <;> rfl
  obtain ⟨written, filter, hwritten, hdenotes, hevaluate⟩ := hwrite
  have hrender : ∃ part, (compiler.renderOne (.ready (.attr attr)) fun term =>
      compiler.dialect.nullCheck term isNull) = .ok part := Compiler.renderOne_ok hwritten
  obtain ⟨part, hpart⟩ := hrender
  refine ⟨part, filter, hpart, hdenotes.of_merge_eq ?_, hevaluate⟩
  rw [Compiler.merge_renderOne hpart, Slot.term]
  simp only [Except.bind, hwritten, Compiler.mergeRendering]

theorem nullCheck_agrees (hdialect : compiler.dialect = Directory.dialect)
    (hschema : compiler.schema = Schema.ofList scene.attributes) {attr : Attribute}
    (hattr : attr ∈ scene.attributes) {expected : ValueType}
    (haccepts : expected.accepts .number = true) {op : UnaryOp} (hop : op.isTrailing = true) :
    CompileAgrees scene compiler (.unary op (.reference attr.rowPath expected)) := by
  obtain ⟨part, filter, hpart, hdenotes, hfilter⟩ :=
    render_nullCheck hdialect hattr (op == .isNull)
  refine ⟨.condition part,
    fun env => some ((env.integer? attr.rowPath).isSome != (op == .isNull)), ?_, ?_,
    .condition hdenotes (Reflects.of_eq ?_)⟩
  · rw [Compiler.compile_nullCheck hop (compile_rowPath hschema hattr haccepts), hpart]
    rfl
  · intro env henv
    rw [Expr.evaluate, evaluate_rowPath hattr expected henv]
    beta_reduce
    cases env.integer? attr.rowPath <;> cases op <;> first | rfl | cases hop
  · rw [hfilter, scene.row_integer attr hattr]

/-- An expression that is not of the chain is one operand of it. -/
theorem CompileAgrees.operandsAgree {expr : Expr} (h : CompileAgrees scene compiler expr)
    {op : BinaryOp} (hother : ∀ left right, expr ≠ .binary op left right) :
    OperandsAgree scene compiler op expr := by
  obtain ⟨c, truth, hcompile, hevaluate, hagrees⟩ := h
  refine ⟨[c], [truth], ?_, ?_, .cons hagrees .nil⟩
  · rw [Compiler.operands_of_other hother, hcompile]
    rfl
  · intro env henv
    rw [hevaluate env henv, List.map_singleton, Truth.joinAll_singleton]

/-- A junction joins the operands of its sides. -/
theorem OperandsAgree.junction {op : BinaryOp} (hop : op.isLogical = true) {left right : Expr}
    (hleft : OperandsAgree scene compiler op left)
    (hright : OperandsAgree scene compiler op right) :
    OperandsAgree scene compiler op (.binary op left right) := by
  obtain ⟨first, truths, hfirst, hevaluate, hagrees⟩ := hleft
  obtain ⟨second, truths', hsecond, hevaluate', hagrees'⟩ := hright
  refine ⟨first ++ second, truths ++ truths', ?_, ?_, ?_⟩
  · rw [Compiler.operands, if_pos rfl, hfirst, hsecond]
    rfl
  · intro env henv
    rw [Expr.evaluate_junction hop (hevaluate env henv) (hevaluate' env henv), List.map_append,
      Truth.joinAll_append]
  · refine List.rel_append (hagrees.imp ?_) (hagrees'.imp ?_)
    · intro c truth h
      refine h.mono fun hdefinite => hdefinite.mono fun path hmem => ?_
      exact List.mem_append_left _ hmem
    · intro c truth h
      refine h.mono fun hdefinite => hdefinite.mono fun path hmem => ?_
      exact List.mem_append_right _ hmem

/-- Compiling a condition on integers succeeds and keeps its truth. -/
theorem compile_agrees (hdialect : compiler.dialect = Directory.dialect)
    (hschema : compiler.schema = Schema.ofList scene.attributes) {expr : Expr}
    (h : IntegerCondition scene.attributes scene.request.environment.resolve expr)
    (hnegated : scene.Definite expr.negatedPaths) :
    CompileAgrees scene compiler expr ∧
      ∀ op, op.isLogical = true → OperandsAgree scene compiler op expr := by
  induction h with
  | truth b type =>
      have hcompile : CompileAgrees scene compiler (.literal (.boolean b) type) := by
        refine ⟨.constant (.boolean b), fun _ => some b, ?_, ?_, .constant fun _ _ => rfl⟩
        · rw [Compiler.compile]
        · intro env henv
          rw [Expr.evaluate]
          rfl
      exact ⟨hcompile, fun op _ => hcompile.operandsAgree fun _ _ => by simp⟩
  | comparison hattr haccepts hop hoperand =>
      have hcompile := comparison_agrees hdialect hschema hattr haccepts hop hoperand
      refine ⟨hcompile, fun op hlogical => hcompile.operandsAgree fun _ _ heq => ?_⟩
      cases heq
      simp [BinaryOp.isLogical_of_flip hop] at hlogical
  | exchanged hattr haccepts hop hoperand =>
      have hcompile := exchanged_agrees hdialect hschema hattr haccepts hop hoperand
      refine ⟨hcompile, fun op hlogical => hcompile.operandsAgree fun _ _ heq => ?_⟩
      cases heq
      simp [BinaryOp.isLogical_of_flip hop] at hlogical
  | nullCheck hattr haccepts hop =>
      have hcompile := nullCheck_agrees hdialect hschema hattr haccepts hop
      exact ⟨hcompile, fun op _ => hcompile.operandsAgree fun _ _ => by simp⟩
  | @not operand hoperand ih =>
      -- Under a negation everything is definite, so the operand's truth is the server's.
      have hdefinite : scene.Definite operand.paths := hnegated
      obtain ⟨⟨c, truth, hoperandCompile, hevaluate, hagrees⟩, -⟩ :=
        ih (hdefinite.mono fun _ hmem => operand.negatedPaths_subset hmem)
      obtain ⟨c', hunary, hagrees'⟩ := negation_agrees hdialect hdefinite hagrees hevaluate
      have hcompile : CompileAgrees scene compiler (.unary .not operand) := by
        refine ⟨c', _, ?_, fun env henv => Expr.evaluate_not (hevaluate env henv), hagrees'⟩
        rw [Compiler.compile, hoperandCompile]
        exact hunary
      exact ⟨hcompile, fun op _ => hcompile.operandsAgree fun _ _ => by simp⟩
  | @junction op hop left right hleft hright ihleft ihright =>
      obtain ⟨-, hleftOperands⟩ := ihleft
        (hnegated.mono fun _ hmem => List.mem_append_left _ hmem)
      obtain ⟨-, hrightOperands⟩ := ihright
        (hnegated.mono fun _ hmem => List.mem_append_right _ hmem)
      have hoperands := (hleftOperands op hop).junction hop (hrightOperands op hop)
      have hcompile : CompileAgrees scene compiler (.binary op left right) := by
        obtain ⟨operands, truths, hcompile, hevaluate, hagrees⟩ := hoperands
        obtain ⟨c, hjunction, hagrees'⟩ := junction_agrees hdialect hop hagrees hevaluate
        refine ⟨c, _, ?_, hevaluate, hagrees'⟩
        rw [Compiler.compile_junction hop, hcompile]
        exact hjunction
      refine ⟨hcompile, fun other hother => ?_⟩
      by_cases heq : op = other
      · subst heq
        exact hoperands
      · refine hcompile.operandsAgree fun _ _ h => ?_
        cases h
        exact heq rfl

end Scene

/-- The environment of an entry's row: paths of the row lead into it, and all others are resolved
by the request. -/
def rowEnvironment (config : DirectoryConfig) (schema : Schema) (entry : Entry) (data : Value)
    (resolve : Resolver) (now : Int64) : Environment where
  resolve path :=
    if isRowPath path then rowResolver (toRow config schema entry) data path else resolve path
  now := now

section

variable {config : DirectoryConfig} {attributes : List Attribute} {entry : Entry}

theorem rowEnvironment_rowPath (hattributes : NumberAttributes config attributes)
    (hentry : IntegerEntry attributes entry) {attr : Attribute} (hattr : attr ∈ attributes)
    (data : Value) (resolve : Resolver) (now : Int64) :
    (rowEnvironment config (Schema.ofList attributes) entry data resolve now).resolve
      attr.rowPath = (entry.integer? attr.backendName).map Value.integer := by
  simp only [rowEnvironment, attr.isRowPath_rowPath, if_true]
  exact rowResolver_rowPath hattributes hentry hattr data

theorem rowEnvironment_integer? (hattributes : NumberAttributes config attributes)
    (hentry : IntegerEntry attributes entry) {attr : Attribute} (hattr : attr ∈ attributes)
    (data : Value) (resolve : Resolver) (now : Int64) :
    (rowEnvironment config (Schema.ofList attributes) entry data resolve now).integer?
      attr.rowPath = entry.integer? attr.backendName := by
  rw [Environment.integer?, rowEnvironment_rowPath hattributes hentry hattr]
  cases entry.integer? attr.backendName <;> rfl

theorem rowEnvironment_possible (hattributes : NumberAttributes config attributes)
    (hentry : IntegerEntry attributes entry) (data : Value) (resolve : Resolver) (now : Int64) :
    IntegerEnvironment attributes resolve
      (rowEnvironment config (Schema.ofList attributes) entry data resolve now) where
  outside path hpath := by
    simp [rowEnvironment, hpath]
  inside attr hattr := by
    rw [rowEnvironment_rowPath hattributes hentry hattr,
      rowEnvironment_integer? hattributes hentry hattr]
    cases entry.integer? attr.backendName <;> rfl

end

/-- An expression that has a truth value holds exactly if that is true. -/
theorem holds_iff {env : Environment} {expr : Expr} {truth : Truth}
    (h : expr.evaluate env = .ok (Value.ofTruth truth)) :
    expr.holds env = .ok true ↔ truth = some true := by
  rw [Expr.holds, h]
  rcases truth with _ | _ | _ <;> decide

/-- A condition on integers that is compiled, merged, bound and read selects an entry exactly if it
holds of the entry's row. The entry may lack attributes that may be NULL, that do not stand under a
negation and that are not the object class, which every entry has. -/
theorem selects_iff_holds {config : DirectoryConfig} {attributes : List Attribute}
    (hattributes : NumberAttributes config attributes) {filter : Filter}
    (hbackend : filter.backend = .directory) (hschema : filter.schema = Schema.ofList attributes)
    {request : Request} (hrequest : ∀ path, isRowPath path = true →
      filter.resolverFor request path = none)
    {expr : Expr} (hexpr : IntegerCondition attributes (filter.resolverFor request) expr)
    {entry : Entry} (hentry : IntegerEntry attributes entry)
    (habsent : ∀ attr ∈ attributes, entry.values? attr.backendName = none →
      attr.nullable = true ∧ attr.rowPath ∉ expr.negatedPaths ∧
        Text.sameIgnoringCase attr.backendName "objectClass" = false) (data : Value) :
    ∃ parsed, filter.Reads expr request parsed ∧
      (parsed.selects entry = true ↔ expr.holds (rowEnvironment config filter.schema entry data
        (filter.resolverFor request) request.now) = .ok true) := by
  have hnone : ∀ attr : Attribute, entry.integer? attr.backendName = none →
      entry.values? attr.backendName = none := by
    intro attr h
    rw [values?_eq hentry, h]
    rfl
  -- The same condition is evaluated in two environments, by the request and by the row.
  let scene : Scene := {
    config, attributes, entry
    request := filter.bindRequest request
    row := rowEnvironment config (Schema.ofList attributes) entry data
      (filter.resolverFor request) request.now
    numbers := hattributes
    integers := hentry
    absent := fun attr hattr h =>
      ⟨(habsent attr hattr (hnone attr h)).1, (habsent attr hattr (hnone attr h)).2.2⟩
    request_possible := by
      refine ⟨fun _ _ => rfl, fun attr _ => ?_⟩
      have hunresolved := hrequest attr.rowPath attr.isRowPath_rowPath
      have henvironment : (filter.bindRequest request).environment.resolve attr.rowPath = none :=
        hunresolved
      rw [Environment.integer?, henvironment]
      rfl
    row_possible := rowEnvironment_possible hattributes hentry data _ _
    row_integer := fun attr hattr => rowEnvironment_integer? hattributes hentry hattr data _ _ }
  have hnegated : scene.Definite expr.negatedPaths := fun attr hattr h =>
    (habsent attr hattr (hnone attr h)).2.1
  have hdialect : filter.backend.dialect = Directory.dialect := by
    rw [hbackend]
    rfl
  let compiler : Compiler := ⟨filter.backend.dialect, filter.schema, expr.text⟩
  obtain ⟨⟨c, truth, hcompile, hevaluate, hagrees⟩, -⟩ :=
    @Scene.compile_agrees scene compiler hdialect hschema expr hexpr hnegated
  obtain ⟨part, parsed, hpart, hdenotes, hreflects⟩ :=
    @Scene.Agrees.condition_denotes scene compiler _ hdialect _ _ hagrees
  have hcompilePart : Filter.compilePart filter.backend filter.schema expr = .ok part := by
    rw [Filter.compilePart, hcompile]
    exact hpart
  refine ⟨parsed, Filter.reads_of_denotes hcompilePart hdenotes, ?_⟩
  · rw [hschema, holds_iff (hevaluate scene.row scene.row_possible), SearchFilter.selects,
      beq_iff_eq]
    exact hreflects.holds

/-- An entry with the integer 3 is selected as less than 5. -/
theorem selects_lt_five : ∃ parsed,
    (Filter.new .directory (Schema.ofList [⟨"a", "a", .number, false, false⟩])).Reads
      (.binary .lt (.reference "object.a" .any) (.literal (.integer 5) .number)) {} parsed ∧
    parsed.selects ⟨"cn=x", [("a", [rawInteger 3])]⟩ = true := by
  have hnumbers : NumberAttributes {} [⟨"a", "a", .number, false, false⟩] :=
    ⟨by decide, by decide, by decide, List.forall_mem_singleton.mpr
      ⟨by decide, List.all_iff_forall_prop.mp (by decide)⟩, by decide, by decide⟩
  have hexpr : IntegerCondition [⟨"a", "a", .number, false, false⟩] Resolver.empty
      (.binary .lt (.reference "object.a" .any) (.literal (.integer 5) .number)) :=
    @IntegerCondition.comparison _ _ ⟨"a", "a", .number, false, false⟩ (by decide) .any (by decide)
      .lt _ rfl _ _ (.literal 5 .number)
  have hentry : IntegerEntry [⟨"a", "a", .number, false, false⟩]
      ⟨"cn=x", [("a", [rawInteger 3])]⟩ := ⟨by decide, by simp, by decide⟩
  let filter := Filter.new .directory (Schema.ofList [⟨"a", "a", .number, false, false⟩])
  obtain ⟨parsed, hreads, hselects⟩ := @selects_iff_holds _ _ hnumbers filter rfl rfl {}
    (fun _ _ => rfl) _ hexpr _ hentry (by simp [Entry.values?]; decide) .null
  refine ⟨parsed, hreads, hselects.mpr ?_⟩
  decide +kernel

/-- An entry without the object class is not selected as lacking it, although its row does. -/
theorem not_selects_objectClass_isNull :
    NumberAttributes {} [⟨"a", "objectClass", .number, true, false⟩] ∧
    IntegerEntry [⟨"a", "objectClass", .number, true, false⟩] ⟨"cn=x", []⟩ ∧
    IntegerCondition [⟨"a", "objectClass", .number, true, false⟩] Resolver.empty
      (.unary .isNull (.reference "object.a" .any)) ∧
    (Expr.unary .isNull (.reference "object.a" .any)).negatedPaths = [] ∧
    (Expr.unary .isNull (.reference "object.a" .any)).holds (rowEnvironment {}
      (Schema.ofList [⟨"a", "objectClass", .number, true, false⟩]) ⟨"cn=x", []⟩ .null
      Resolver.empty 0) = .ok true ∧
    ∀ parsed, (Filter.new .directory
        (Schema.ofList [⟨"a", "objectClass", .number, true, false⟩])).Reads
      (.unary .isNull (.reference "object.a" .any)) {} parsed →
      parsed.selects ⟨"cn=x", []⟩ = false := by
  refine ⟨⟨by decide, by decide, by decide, List.forall_mem_singleton.mpr isPlainName_objectClass,
    by decide, by decide⟩, ⟨by decide, by simp, by decide⟩, @IntegerCondition.nullCheck _ _
      ⟨"a", "objectClass", .number, true, false⟩ (by decide) .any (by decide) _ rfl,
    by decide, by decide +kernel, ?_⟩
  intro parsed hreads
  have hpresence : (presence ⟨"a", "objectClass", .number, true, false⟩).Denotes
      ((Filter.new .directory (Schema.ofList
        [⟨"a", "objectClass", .number, true, false⟩])).bindRequest {})
      (.present "objectClass") := denotes_presence isPlainName_objectClass
  have hdenotes := denotes_negation hpresence
  have hcompile : Filter.compilePart .directory
      (Schema.ofList [⟨"a", "objectClass", .number, true, false⟩])
      (.unary .isNull (.reference "object.a" .any)) =
        .ok (negation (presence ⟨"a", "objectClass", .number, true, false⟩)) := by
    have hattr : (Schema.ofList [⟨"a", "objectClass", .number, true, false⟩]).resolve "object.a"
        .any = .ok ⟨"a", "objectClass", .number, true, false⟩ := by rfl
    rw [Filter.compilePart, Compiler.compile_nullCheck rfl (Compiler.compile_rowReference hattr)]
    rfl
  rw [hreads.unique (Filter.reads_of_denotes hcompile hdenotes)]
  rfl

end Directory

end RowFilter
