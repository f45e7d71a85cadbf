import RowFilter.Proofs.Statement.DialectClosure
import RowFilter.Proofs.Statement.Upholding

/-! # Placeholders and parameters

Whatever a filter is compiled to, its statements have one placeholder for each parameter. So binding
a directory filter never finds too many or too few of either.
-/

namespace RowFilter

namespace Statement

/-- There is a question mark in the text for each parameter. -/
def Balanced (statement : Statement) : Prop :=
  statement.text.toList.count '?' = statement.parameters.length

theorem balanced_of_notMem {text : String} (h : '?' ∉ text.toList) : Balanced ⟨text, []⟩ :=
  List.count_eq_zero.mpr h

theorem Balanced.append {first second : Statement} (hfirst : first.Balanced)
    (hsecond : second.Balanced) : (first.append second).Balanced := by
  rw [Balanced] at hfirst hsecond ⊢
  simp only [Statement.append, String.toList_append, List.count_append, List.length_append]
  rw [hfirst, hsecond]

end Statement

namespace Part

open Statement

theorem upholds_balanced_of_andThen {part : Part} {first second : Request →
    Except MergeError Statement}
    (h : ∀ request, part.merge request = andThen (first request) (second request))
    (hfirst : ∀ request, Yields Balanced (first request))
    (hsecond : ∀ request, Yields Balanced (second request)) : part.Upholds Balanced := by
  intro request statement hmerge
  rw [h] at hmerge
  obtain ⟨a, b, ha, hb, rfl⟩ := andThen_eq_ok.mp hmerge
  exact (hfirst request a ha).append (hsecond request b hb)

/-- Parts with one placeholder for each parameter may be put together, with texts that have no
placeholder. -/
theorem compatible_upholds_balanced :
    Compatible (fun text => '?' ∉ text.toList) fun part _ => part.Upholds Balanced where
  plain_of_notMem _ h := h
  plain_append hfirst hsecond := by
    rw [String.toList_append, List.mem_append, not_or]
    exact ⟨hfirst, hsecond⟩
  nil request := by
    rw [merge_nil]
    exact Yields.ok rfl
  ofText h request := by
    rw [merge_ofText]
    exact Yields.ok h
  startingWith h request := by
    rw [Part.startingWith, merge_ofText]
    exact Yields.ok (balanced_of_notMem h)
  thenText hpart htext := upholds_balanced_of_andThen (fun request => merge_thenText request _ _)
    hpart fun _ => Yields.ok (balanced_of_notMem htext)
  thenPart hpart hinner :=
    upholds_balanced_of_andThen (fun request => merge_thenPart request _ _) hpart hinner

end Part

namespace Directory

theorem assertionText_eq_error {value : Value} {fault : FilterFault}
    (h : assertionText value = .error fault) : fault = .unbindable value.type := by
  cases value <;> cases h <;> rfl

/-- Binding fails for a value without a form, or for too few parameters or too many. -/
theorem bindChars_eq_error {text : List Char} {parameters : List Value} {fault : FilterFault}
    (h : bindChars text parameters = .error fault) :
    (∃ value ∈ parameters, fault = .unbindable value.type) ∨
      (fault = .missingParameter ∧ parameters.length < text.count '?') ∨
      (fault = .surplusParameter ∧ text.count '?' < parameters.length) := by
  induction text generalizing parameters with
  | nil =>
      cases parameters with
      | nil => cases h
      | cons value others =>
          cases h
          exact Or.inr (Or.inr ⟨rfl, by simp⟩)
  | cons c rest ih =>
      unfold bindChars at h
      split at h
      next hc =>
        cases parameters with
        | nil =>
            cases h
            exact Or.inr (Or.inl ⟨rfl, by simp [hc]⟩)
        | cons value others =>
            rw [hc, List.count_cons_self, List.length_cons]
            rcases bind_eq_error.mp h with hvalue | ⟨asserted, -, h⟩
            · exact Or.inl ⟨value, List.mem_cons_self, assertionText_eq_error hvalue⟩
            · rcases bind_eq_error.mp h with hrest | ⟨bound, -, h⟩
              · rcases ih hrest with ⟨found, hfound, hfault⟩ | ⟨hfault, hlt⟩ | ⟨hfault, hlt⟩
                · exact Or.inl ⟨found, List.mem_cons_of_mem _ hfound, hfault⟩
                · exact Or.inr (Or.inl ⟨hfault, Nat.succ_lt_succ hlt⟩)
                · exact Or.inr (Or.inr ⟨hfault, Nat.succ_lt_succ hlt⟩)
              · cases h
      next hc =>
        rw [List.count_cons_of_ne hc]
        rcases bind_eq_error.mp h with hrest | ⟨bound, -, h⟩
        · exact ih hrest
        · cases h

/-- Binding a statement with one placeholder for each parameter fails for a value only. -/
theorem bind_eq_error_of_balanced {statement : Statement} (hbalanced : statement.Balanced)
    {error : DirectoryError} (h : bind statement.text statement.parameters = .error error) :
    ∃ value ∈ statement.parameters,
      error = .invalidFilter statement.text (.unbindable value.type) := by
  unfold bind at h
  split at h
  next => cases h
  next fault hfault =>
    cases h
    rcases bindChars_eq_error hfault with ⟨value, hvalue, rfl⟩ | ⟨-, hlt⟩ | ⟨-, hlt⟩
    · exact ⟨value, hvalue, rfl⟩
    · rw [hbalanced] at hlt
      exact absurd hlt (Nat.lt_irrefl _)
    · rw [hbalanced] at hlt
      exact absurd hlt (Nat.lt_irrefl _)

end Directory

namespace Filter

/-- A statement of a compiled filter has as many question marks as parameters if no backend name
has one. So a directory never finds it to have too many of either. -/
theorem count_placeholders_merge {filter compiled : Filter} {expr : Expr}
    (hnames : ∀ entry ∈ filter.schema, '?' ∉ entry.2.backendName.toList)
    (hcompile : filter.compile expr = (compiled, none)) {request : Request} {statement : Statement}
    (hmerge : compiled.merge request = .ok statement) :
    statement.text.toList.count '?' = statement.parameters.length ∧
      (filter.backend = .directory → ∀ text,
        Directory.bind statement.text statement.parameters ≠
          .error (.invalidFilter text .missingParameter) ∧
        Directory.bind statement.text statement.parameters ≠
          .error (.invalidFilter text .surplusParameter)) := by
  have hdialect := (filter.backend.dialect_relates Part.compatible_upholds_balanced).respects
  have hbalanced : statement.Balanced :=
    merge_upholds hdialect hnames hcompile request statement hmerge
  refine ⟨hbalanced, fun _ text => ⟨fun h => ?_, fun h => ?_⟩⟩
  · obtain ⟨value, -, herror⟩ := Directory.bind_eq_error_of_balanced hbalanced h
    cases herror
  · obtain ⟨value, -, herror⟩ := Directory.bind_eq_error_of_balanced hbalanced h
    cases herror

/-- A nullable attribute that differs from a value of the request. -/
private def differsFromLimit : Expr :=
  .binary .ne (.reference "object.a" .any) (.reference "limit" .any)

private def nullableAttribute : Filter :=
  .new .directory (Schema.ofList [⟨"a", "a", .number, true, false⟩])

private def limitRequest : Request :=
  { resolver := some fun path => if path = "limit" then some (.integer 3) else none }

/-- The attribute is written twice and the value of the request once. -/
theorem count_placeholders_differs_from_limit :
    ∃ compiled, (∀ entry ∈ nullableAttribute.schema, '?' ∉ entry.2.backendName.toList) ∧
      nullableAttribute.compile differsFromLimit = (compiled, none) ∧
      compiled.merge limitRequest = .ok ⟨"(|(!(a=?))(!(a=*)))", [.integer 3]⟩ ∧
      "(|(!(a=?))(!(a=*)))".toList.count '?' = 1 := by
  have hattr : nullableAttribute.schema.resolve "object.a" .any =
      .ok ⟨"a", "a", .number, true, false⟩ := rfl
  have hnames : ∀ entry ∈ nullableAttribute.schema, '?' ∉ entry.2.backendName.toList := by decide
  have hpart : ∃ part, compilePart nullableAttribute.backend nullableAttribute.schema
      differsFromLimit = .ok part ∧ part.merge (nullableAttribute.bindRequest limitRequest) =
        .ok ⟨"(|(!(a=?))(!(a=*)))", [.integer 3]⟩ := by
    rw [compilePart, differsFromLimit, Compiler.compile_comparison rfl
      (Compiler.compile_rowReference hattr) (Compiler.compile_reference rfl .any)]
    exact ⟨_, rfl, rfl⟩
  obtain ⟨part, hpart, hmerge⟩ := hpart
  have hcompile : nullableAttribute.compile differsFromLimit = (_, none) := compile_of_part hpart
  exact ⟨_, hnames, hcompile, hmerge, (count_placeholders_merge hnames hcompile hmerge).1⟩

end Filter

end RowFilter
