import RowFilter.Proofs.Statement.RowIsolation

/-! # Histories of filters

What a filter merges to and how it resolves paths is determined by the calls that were made on it:
by the last expression, the last custom resolver and the last base object of each name, whatever
calls came between and whichever of them failed. Only an expression that asks for the time merges
one request to different statements at different times.
-/

namespace RowFilter

/-! ## Paths -/

namespace Text

/-- A path is cut into its first step and those of the rest. -/
theorem pieces_eq_cutOnce {α : Type} [BEq α] (separator : α) (text : List α) :
    pieces separator text = match cutOnce separator text with
      | some (before, after) => before :: pieces separator after
      | none => [text] := by
  induction text with
  | nil => rfl
  | cons c rest ih =>
      rw [pieces, cutOnce]
      split
      next => rfl
      next =>
        rw [ih]
        cases cutOnce separator rest <;> rfl

theorem piecesOf_eq_cutAt (separator : Char) (text : String) :
    piecesOf separator text = match cutAt separator text with
      | some (before, after) => before :: piecesOf separator after
      | none => [text] := by
  rw [piecesOf, cutAt, pieces_eq_cutOnce]
  cases cutOnce separator text.toList with
  | none => simp
  | some cut => simp [piecesOf]

end Text

/-- Resolves paths that start at one of some named objects, with all steps cut at once. -/
def Resolver.ofObjects (object? : String → Option Properties) : Resolver := fun path =>
  match Text.piecesOf '.' path with
  | [] => none
  | root :: steps =>
    (object? root).bind fun properties => Value.navigate steps (.object properties)

/-- It does not matter whether the root is cut from the path before the other steps. -/
theorem Roots.resolve_eq_ofObjects (roots : Roots) :
    roots.resolve = Resolver.ofObjects fun name => Named.get? name roots := by
  funext path
  rw [resolve, Resolver.ofObjects, Text.piecesOf_eq_cutAt, splitRoot]
  cases Text.cutAt '.' path with
  | none => rfl
  | some cut => rfl

/-! ## Merging what was compiled -/

/-- Whatever the request, merging the part does not find that nothing was compiled. -/
def Part.IsCompiled (part : Part) : Prop :=
  ∀ request, part.merge request ≠ .error .notCompiled

/-- Statements in a row have no error that neither of them has. -/
theorem Statement.andThen_ne_error {x y : Except MergeError Statement} {e : MergeError}
    (hx : x ≠ .error e) (hy : y ≠ .error e) : andThen x y ≠ .error e := by
  intro h
  rcases bind_eq_error.mp h with h | ⟨a, -, h⟩
  · exact hx h
  · rcases bind_eq_error.mp h with h | ⟨b, -, h⟩
    · exact hy h
    · cases h

/-- Putting parts together leaves nothing out that was compiled. -/
theorem Part.compatible_isCompiled :
    Compatible (fun _ => True) fun part _ => part.IsCompiled where
  plain_of_notMem _ _ := trivial
  plain_append _ _ := trivial
  nil request := by simp [merge_nil]
  ofText _ request := by simp [merge_ofText]
  startingWith _ request := by simp [Part.startingWith, merge_ofText]
  thenText h _ request := by
    rw [merge_thenText]
    exact Statement.andThen_ne_error (h request) (by simp)
  thenPart h hinner request := by
    rw [merge_thenPart]
    exact Statement.andThen_ne_error (h request) (hinner request)

theorem mapM_term_ne_notCompiled (slots : List Slot) (request : Request) :
    slots.mapM (Slot.term request) ≠ .error .notCompiled := by
  induction slots with
  | nil => exact nofun
  | cons slot rest ih =>
      rw [List.mapM_cons]
      intro h
      rcases bind_eq_error.mp h with h | ⟨term, -, h⟩
      · cases slot with
        | ready term => cases h
        | deferred expr =>
            rw [Slot.term] at h
            split at h <;> cases h
      · rcases bind_eq_error.mp h with h | ⟨terms, -, h⟩
        · exact ih h
        · cases h

/-- What goes wrong in a deferred part is an evaluation or a rendering. -/
theorem deferrable_isCompiled : Deferrable (fun _ => True) Part.IsCompiled := by
  intro compiler slots write _ hwrite part hpart request hmerge
  rw [Compiler.merge_render hpart] at hmerge
  rcases bind_eq_error.mp hmerge with hterms | ⟨terms, hterms, hmerge⟩
  · exact mapM_term_ne_notCompiled slots request hterms
  · cases hrendered : write terms with
    | error fault =>
        rw [hrendered] at hmerge
        cases hmerge
    | ok rendered =>
        rw [hrendered] at hmerge
        exact hwrite request terms hterms rendered hrendered request hmerge

namespace Filter

variable {backend : Backend} {schema : Schema}

/-- Whatever was compiled successfully can be merged without that error. -/
theorem isCompiled_of_compilePart {expr : Expr} {part : Part}
    (h : compilePart backend schema expr = .ok part) : part.IsCompiled := by
  obtain ⟨c, hc, hpart⟩ := bind_eq_ok.mp h
  have hdialect : Dialect.Respects (fun _ => True) Part.IsCompiled backend.dialect :=
    (backend.dialect_relates Part.compatible_isCompiled).respects
  have hrespects := Compiler.compile_respects deferrable_isCompiled hdialect
    (fun _ _ => trivial) (fun _ _ _ => trivial) c hc
  exact Compiler.condition_respects deferrable_isCompiled hdialect hrespects part hpart

/-! ## Calls -/

/-- A call that may change a filter. -/
inductive Call where
  | compile (expr : Expr)
  | addBase (name : String) (object : Properties)
  | setCustom (resolver : Option Resolver)
  | addProcessor (processor : Processor) (data : Expr)

/-- The filter after a call. It stays as it was if the name of a base object is refused. -/
def perform (filter : Filter) : Call → Filter
  | .compile expr => (filter.compile expr).1
  | .addBase name object =>
    match filter.addBase name object with
    | .ok (extended, _) => extended
    | .error _ => filter
  | .setCustom resolver => filter.setCustom resolver
  | .addProcessor processor data => filter.addProcessor processor data

/-- What was a new filter, after calls, the last one first. -/
def after (backend : Backend) (schema : Schema) : List Call → Filter
  | [] => new backend schema
  | call :: earlier => (after backend schema earlier).perform call

/-- The expression compiled last, whether or not that succeeded. -/
def lastExpr? (calls : List Call) : Option Expr :=
  calls.findSome? fun
    | .compile expr => some expr
    | _ => none

/-- What the last compilation answered. -/
def lastOutcome? (backend : Backend) (schema : Schema) : List Call → Option (Option CompileError)
  | [] => none
  | .compile expr :: earlier => some ((after backend schema earlier).compile expr).2
  | _ :: earlier => lastOutcome? backend schema earlier

/-- The custom resolver that was set last, unless none was set after it. -/
def lastCustom? (calls : List Call) : Option Resolver :=
  (calls.findSome? fun
    | .setCustom resolver => some resolver
    | _ => none).join

/-- The base object that was given a name last. -/
def lastObject? (calls : List Call) (name : String) : Option Properties :=
  calls.findSome? fun
    | .addBase other object => if name = other ∧ other ≠ rowRoot then some object else none
    | _ => none

/-- The processors in the order in which they were added. -/
def addedProcessors : List Call → List BoundProcessor
  | [] => []
  | .addProcessor processor data :: earlier => addedProcessors earlier ++ [⟨processor, data⟩]
  | _ :: earlier => addedProcessors earlier

/-- The value of a path after calls: that of the custom resolver if one is set, else that among the
base objects, and if there is none that of the request. -/
def answer (calls : List Call) (request : Request) : Resolver := fun path =>
  ((lastCustom? calls).getD (.ofObjects (lastObject? calls)) path).or
    (request.resolver.bind fun resolver => resolver path)

/-- What a filter keeps of the calls made on it. -/
structure Recalls (backend : Backend) (schema : Schema) (calls : List Call) (filter : Filter) :
    Prop where
  backend_eq : filter.backend = backend
  schema_eq : filter.schema = schema
  bases : ∀ name, Named.get? name filter.bases = lastObject? calls name
  custom : filter.custom = lastCustom? calls
  root : filter.root = (lastExpr? calls).bind fun expr =>
    (compilePart backend schema expr).toOption
  processors : filter.processors = addedProcessors calls

theorem recalls_new (backend : Backend) (schema : Schema) :
    Recalls backend schema [] (new backend schema) :=
  ⟨rfl, rfl, fun _ => rfl, rfl, rfl, rfl⟩

/-- Compiling replaces the compiled expression and nothing else. -/
theorem compile_eq (filter : Filter) (expr : Expr) :
    (filter.compile expr).1 = { filter with
      root := (compilePart filter.backend filter.schema expr).toOption
      expression := expr.text } := by
  rw [compile]
  cases compilePart filter.backend filter.schema expr <;> rfl

/-- Each call is recalled with those before it. -/
theorem Recalls.perform {filter : Filter} {calls : List Call}
    (h : Recalls backend schema calls filter) (call : Call) :
    Recalls backend schema (call :: calls) (filter.perform call) := by
  obtain ⟨rfl, rfl, hbases, hcustom, hroot, hprocessors⟩ := h
  cases call with
  | compile expr =>
      rw [Filter.perform, compile_eq]
      exact ⟨rfl, rfl, hbases, hcustom, rfl, hprocessors⟩
  | addBase name object =>
      by_cases hname : name = rowRoot
      · rw [Filter.perform, addBase, if_pos hname]
        refine ⟨rfl, rfl, fun other => ?_, hcustom, hroot, hprocessors⟩
        simp [lastObject?, hname, hbases]
      · rw [Filter.perform, addBase, if_neg hname]
        refine ⟨rfl, rfl, fun other => ?_, hcustom, hroot, hprocessors⟩
        rw [Named.get?_insert, hbases]
        by_cases hother : other = name <;> simp [lastObject?, hname, hother]
  | setCustom resolver => exact ⟨rfl, rfl, hbases, rfl, hroot, hprocessors⟩
  | addProcessor processor data =>
      refine ⟨rfl, rfl, hbases, hcustom, hroot, ?_⟩
      rw [addedProcessors, ← hprocessors]
      rfl

theorem recalls_after (backend : Backend) (schema : Schema) (calls : List Call) :
    Recalls backend schema calls (after backend schema calls) := by
  induction calls with
  | nil => exact recalls_new backend schema
  | cons call earlier ih => exact ih.perform call

/-- A filter resolves paths as its calls say. -/
theorem Recalls.resolverFor {filter : Filter} {calls : List Call}
    (h : Recalls backend schema calls filter) (request : Request) :
    filter.resolverFor request = answer calls request := by
  have hown : filter.ownResolver = (lastCustom? calls).getD (.ofObjects (lastObject? calls)) := by
    rw [ownResolver, h.custom, Roots.resolve_eq_ofObjects, funext h.bases]
  funext path
  rw [Filter.resolverFor, hown, answer]
  cases (lastCustom? calls).getD (.ofObjects (lastObject? calls)) path <;> rfl

/-- A filter compiles exactly the expressions that there is a part for. -/
theorem compile_succeeds_iff {filter : Filter} {expr : Expr} :
    (filter.compile expr).2 = none ↔
      ∃ part, compilePart filter.backend filter.schema expr = .ok part := by
  refine ⟨exists_compilePart, fun ⟨part, hpart⟩ => ?_⟩
  rw [compile_of_part hpart]

/-- The last compilation succeeded if the last expression compiles at all. -/
theorem lastOutcome?_eq_iff {calls : List Call} :
    lastOutcome? backend schema calls = some none ↔
      ∃ expr part, lastExpr? calls = some expr ∧ compilePart backend schema expr = .ok part := by
  induction calls with
  | nil => simp [lastOutcome?, lastExpr?]
  | cons call earlier ih =>
      cases call with
      | compile expr =>
          have hrecalls := recalls_after backend schema earlier
          have hlast : lastExpr? (.compile expr :: earlier) = some expr := rfl
          rw [lastOutcome?, hlast, Option.some_inj, compile_succeeds_iff, hrecalls.backend_eq,
            hrecalls.schema_eq]
          simp
      | addBase | setCustom | addProcessor => exact ih

/-- Nothing was compiled if the last compilation, if there was one, failed. -/
theorem Recalls.root_eq_some_iff {filter : Filter} {calls : List Call}
    (h : Recalls backend schema calls filter) {part : Part} :
    filter.root = some part ↔
      ∃ expr, lastExpr? calls = some expr ∧ compilePart backend schema expr = .ok part := by
  rw [h.root, Option.bind_eq_some_iff]
  refine exists_congr fun expr => and_congr_right fun _ => ?_
  cases compilePart backend schema expr <;> simp [Except.toOption]

theorem lastObject?_rowRoot (calls : List Call) : lastObject? calls rowRoot = none := by
  rw [lastObject?, List.findSome?_eq_none_iff]
  intro call _
  split
  next other object => exact if_neg fun h => h.2 h.1.symm
  next => rfl

/-- Calls that add no base object leave those there are. -/
theorem lastObject?_append {between : List Call}
    (h : ∀ name object, Call.addBase name object ∉ between) (calls : List Call) :
    lastObject? (between ++ calls) = lastObject? calls := by
  funext name
  rw [lastObject?, List.findSome?_append, List.findSome?_eq_none_iff.mpr, Option.none_or,
    lastObject?]
  intro call hcall
  split
  next other object => exact absurd hcall (h other object)
  next => rfl

/-- Nothing is found compiled exactly if the last compilation did not succeed. -/
theorem Recalls.mergeAt_notCompiled {filter : Filter} {calls : List Call}
    (h : Recalls backend schema calls filter) (clock : Int64) (request : Request) :
    filter.mergeAt clock request = .error .notCompiled ↔
      lastOutcome? backend schema calls ≠ some none := by
  rw [Ne, lastOutcome?_eq_iff, mergeAt, merge]
  cases hroot : filter.root with
  | none =>
      refine iff_of_true rfl ?_
      rintro ⟨expr, part, hlast, hpart⟩
      rw [h.root_eq_some_iff.mpr ⟨expr, hlast, hpart⟩] at hroot
      cases hroot
  | some part =>
      obtain ⟨expr, hlast, hpart⟩ := h.root_eq_some_iff.mp hroot
      exact iff_of_false (isCompiled_of_compilePart hpart _) fun hnot =>
        hnot ⟨expr, part, hlast, hpart⟩

/-- The clock has no influence on an expression that does not ask for the time. -/
theorem merge_atTime_eq {expr : Expr} {part : Part}
    (hpart : compilePart backend schema expr = .ok part)
    (htime : ¬expr.AsksTime) (clock later : Int64) (request : Request) (resolver : Resolver) :
    part.merge ((request.atTime clock).rebind resolver) =
      part.merge ((request.atTime later).rebind resolver) :=
  same_of_compilePart hpart fun sub hsub _ =>
    sub.evaluate_congr (fun h => absurd (h.of_sub hsub) htime) fun _ _ => rfl

/-- After a compilation that succeeded, merging is that of its part with the clock put into the
request. -/
theorem Recalls.mergeAt_of_ok {filter : Filter} {calls : List Call}
    (h : Recalls backend schema calls filter)
    (hok : lastOutcome? backend schema calls = some none) :
    ∃ expr part, lastExpr? calls = some expr ∧ compilePart backend schema expr = .ok part ∧
      (∀ clock request, filter.mergeAt clock request =
        part.merge ((request.atTime clock).rebind (answer calls request))) ∧
      (¬expr.AsksTime → ∀ clock later request,
        filter.mergeAt clock request = filter.mergeAt later request) := by
  obtain ⟨expr, part, hlast, hpart⟩ := lastOutcome?_eq_iff.mp hok
  have hmerge : ∀ clock request, filter.mergeAt clock request =
      part.merge ((request.atTime clock).rebind (answer calls request)) := by
    intro clock request
    rw [mergeAt, merge, h.root_eq_some_iff.mpr ⟨expr, hlast, hpart⟩, bindRequest, h.resolverFor]
    rfl
  refine ⟨expr, part, hlast, hpart, hmerge, fun htime clock later request => ?_⟩
  rw [hmerge, hmerge]
  exact merge_atTime_eq hpart htime clock later request _

theorem Recalls.addBase {filter : Filter} {calls : List Call}
    (h : Recalls backend schema calls filter) (name : String) (object : Properties) :
    match filter.addBase name object with
    | .error error => name = rowRoot ∧ error = filter.error (.reservedName name) ∧
        filter.perform (.addBase name object) = filter
    | .ok (_, previous) => name ≠ rowRoot ∧ previous = lastObject? calls name := by
  by_cases hname : name = rowRoot
  · have hrefused : filter.addBase name object = .error (filter.error (.reservedName name)) :=
      if_pos hname
    rw [Filter.perform, hrefused]
    exact ⟨hname, rfl, rfl⟩
  · rw [Filter.addBase, if_neg hname]
    exact ⟨hname, h.bases name⟩

/-- Setting a custom resolver and clearing it again leaves no trace. -/
theorem answer_of_cleared {calls between : List Call} (hcustom : lastCustom? calls = none)
    (hbetween : ∀ name object, Call.addBase name object ∉ between) (resolver : Option Resolver)
    (request : Request) :
    answer (.setCustom none :: (between ++ .setCustom resolver :: calls)) request =
      answer calls request := by
  have hobjects : lastObject? (.setCustom none :: (between ++ .setCustom resolver :: calls)) =
      lastObject? calls := lastObject?_append hbetween (.setCustom resolver :: calls)
  have hcleared :
      lastCustom? (.setCustom none :: (between ++ .setCustom resolver :: calls)) = none := rfl
  funext path
  rw [answer, answer, hobjects, hcleared, hcustom]

/-- In whatever order a filter is used: the row root never becomes a base object, and a refused
base object changes nothing. Merging finds nothing compiled exactly if the last compilation did not
succeed, and otherwise merges what the last expression compiles to with the values that the calls
and the request give to paths, and with what the clock shows, which is of no influence unless the
expression asks for the time. Compiling changes no resolution and no processor. A custom resolver
that is set and cleared again leaves no trace. -/
theorem after_calls (backend : Backend) (schema : Schema) (calls : List Call) :
    let filter := after backend schema calls
    Named.get? rowRoot filter.bases = none ∧
    (∀ name object, match filter.addBase name object with
      | .error error => name = rowRoot ∧ error = filter.error (.reservedName name) ∧
          filter.perform (.addBase name object) = filter
      | .ok (_, previous) => name ≠ rowRoot ∧ previous = lastObject? calls name) ∧
    (∀ clock request, filter.mergeAt clock request = .error .notCompiled ↔
      lastOutcome? backend schema calls ≠ some none) ∧
    (lastOutcome? backend schema calls = some none → ∃ expr part, lastExpr? calls = some expr ∧
      compilePart backend schema expr = .ok part ∧
      (∀ clock request, filter.mergeAt clock request =
        part.merge ((request.atTime clock).rebind (answer calls request))) ∧
      (¬expr.AsksTime → ∀ clock later request,
        filter.mergeAt clock request = filter.mergeAt later request)) ∧
    (∀ expr, ∃ root, (filter.compile expr).1 = { filter with root, expression := expr.text }) ∧
    filter.processors = addedProcessors calls ∧
    (∀ request, filter.resolverFor request = answer calls request) ∧
    ∀ resolver between request, lastCustom? calls = none →
      (∀ name object, Call.addBase name object ∉ between) →
        (after backend schema
          (.setCustom none :: (between ++ .setCustom resolver :: calls))).resolverFor request =
          filter.resolverFor request := by
  intro filter
  have hrecalls : Recalls backend schema calls filter := recalls_after backend schema calls
  refine ⟨?_, hrecalls.addBase, hrecalls.mergeAt_notCompiled, hrecalls.mergeAt_of_ok,
    fun expr => ⟨_, compile_eq filter expr⟩, hrecalls.processors, hrecalls.resolverFor, ?_⟩
  · rw [hrecalls.bases, lastObject?_rowRoot]
  · intro resolver between request hcustom hbetween
    rw [hrecalls.resolverFor, (recalls_after backend schema _).resolverFor,
      answer_of_cleared hcustom hbetween]

/-- Whether a billion seconds have passed since the start of 1970. -/
private def billionPassed : Expr :=
  .binary .ge (.call .now [] .any) (.literal (.integer 1000000000) .number)

private theorem compile_billionPassed (compiler : Compiler) :
    compiler.compile billionPassed = .ok (.dynamic billionPassed) := by
  have hnow : compiler.compile (.call .now [] .any) = .ok (.dynamic (.call .now [] .any)) := by
    rw [Compiler.compile, Compiler.compileAll]
    rfl
  rw [billionPassed, Compiler.compile_comparison rfl hnow (by rw [Compiler.compile])]
  rfl

/-- One request at two times, without a call in between: a filter that asks for the time merges to
two statements. -/
theorem mergeAt_differs_by_clock :
    let filter := after .tabular [] [.compile billionPassed]
    lastOutcome? .tabular [] [.compile billionPassed] = some none ∧
      filter.mergeAt 999999999 {} = .ok ⟨"1 = 0", []⟩ ∧
      filter.mergeAt 1000000000 {} = .ok ⟨"1 = 1", []⟩ := by
  intro filter
  have hdynamic := compile_billionPassed ((new .tabular []).compiler billionPassed)
  have hsuccess : ((new .tabular []).compile billionPassed).2 = none :=
    compile_succeeds_iff.mpr ⟨_, bind_eq_ok.mpr ⟨_, hdynamic, rfl⟩⟩
  have hcompile : (new .tabular []).compile billionPassed = (filter, none) :=
    Prod.ext rfl hsuccess
  have hbefore : ((new .tabular []).bindRequest (Request.atTime {} 999999999)).truth billionPassed =
      .ok (.ok false) := by decide +kernel
  have hafter : ((new .tabular []).bindRequest (Request.atTime {} 1000000000)).truth billionPassed =
      .ok (.ok true) := by decide +kernel
  refine ⟨congrArg some hsuccess, ?_, ?_⟩
  · rw [mergeAt, merge_eq_ofTruth hcompile hdynamic, hbefore]
    rfl
  · rw [mergeAt, merge_eq_ofTruth hcompile hdynamic, hafter]
    rfl

end Filter

end RowFilter
