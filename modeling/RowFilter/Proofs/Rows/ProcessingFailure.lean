import RowFilter.Proofs.Outcome
import RowFilter.Rows.Processor

/-! # Rows after a failure

A processor that cannot use its data leaves the rows as they are. A filter takes them out of the
list before it looks at them, so that none are left when its predicate fails on one of them.
-/

namespace RowFilter

section

variable {α ε : Type} {p : α → Except ε Bool}

theorem exists_filterAuxM_iff {items kept : List α} :
    (∃ result, items.filterAuxM p kept = .ok result) ↔
      ∀ item ∈ items, ∃ holds, p item = .ok holds := by
  induction items generalizing kept with
  | nil => exact ⟨fun _ => nofun, fun _ => ⟨kept, rfl⟩⟩
  | cons item rest ih =>
    rw [List.forall_mem_cons, List.filterAuxM]
    constructor
    · rintro ⟨result, hresult⟩
      obtain ⟨holds, hholds, hrest⟩ := bind_eq_ok.mp hresult
      exact ⟨⟨holds, hholds⟩, ih.mp ⟨result, hrest⟩⟩
    · rintro ⟨⟨holds, hholds⟩, hrest⟩
      obtain ⟨result, hresult⟩ := ih.mpr hrest
      exact ⟨result, bind_eq_ok.mpr ⟨holds, hholds, hresult⟩⟩

/-- Items are sorted out exactly if it can be said of each whether it stays. -/
theorem exists_filterM_iff {items : List α} :
    (∃ result, items.filterM p = .ok result) ↔ ∀ item ∈ items, ∃ holds, p item = .ok holds := by
  constructor
  · rintro ⟨result, hresult⟩
    obtain ⟨kept, hkept, -⟩ := bind_eq_ok.mp hresult
    exact exists_filterAuxM_iff.mp ⟨kept, hkept⟩
  · intro h
    obtain ⟨kept, hkept⟩ := exists_filterAuxM_iff.mpr h
    exact ⟨kept.reverse, bind_eq_ok.mpr ⟨kept, hkept, rfl⟩⟩

end

namespace Processor

variable {rows : List Row}

/-- Whether a predicate can be evaluated for each of some rows. -/
def Evaluates (predicate : Expr) (now : Int64) (data : Value) (rows : List Row) : Prop :=
  ∀ row ∈ rows, ∃ holds, predicate.holds ⟨rowResolver row data, now⟩ = .ok holds

theorem failure_filter_iff (predicate : Expr) (now : Int64) (data : Value) (rows : List Row) :
    ((filter predicate).process now data rows).failure = none ↔
      Evaluates predicate now data rows := by
  rw [Evaluates, ← exists_filterM_iff]
  change _ ↔ ∃ kept, keepRows predicate now data rows = .ok kept
  rw [process]
  cases keepRows predicate now data rows with
  | ok kept => exact ⟨fun _ => ⟨kept, rfl⟩, fun _ => rfl⟩
  | error error => exact ⟨nofun, fun ⟨_, h⟩ => nomatch h⟩

/-- A filter that fails leaves no rows. -/
theorem rows_filter_of_failure {predicate : Expr} {now : Int64} {data : Value}
    (h : ((filter predicate).process now data rows).failure ≠ none) :
    ((filter predicate).process now data rows).rows = [] := by
  rw [process] at h ⊢
  cases hkeep : keepRows predicate now data rows with
  | ok kept =>
    rw [hkeep] at h
    exact absurd rfl h
  | error error => rfl

/-- Other processors that fail leave all rows. -/
theorem rows_of_failure {processor : Processor} {now : Int64} {data : Value}
    (hprocessor : ∀ predicate, processor ≠ filter predicate)
    (h : (processor.process now data rows).failure ≠ none) :
    (processor.process now data rows).rows = rows := by
  cases processor with
  | limit =>
    rw [process] at h ⊢
    cases hthreshold : threshold data with
    | error fault => rfl
    | ok limit =>
      rw [hthreshold] at h
      cases limit <;> exact absurd rfl h
  | sort =>
    rw [process] at h ⊢
    cases hkeys : sortKeys data with
    | error fault => rfl
    | ok keys =>
      rw [hkeys] at h
      exact absurd rfl h
  | filter predicate => exact absurd rfl (hprocessor predicate)

/-- A processor that fails leaves all rows, or none if it is a filter. -/
theorem rows_cases_of_failure {processor : Processor} {now : Int64} {data : Value}
    (h : (processor.process now data rows).failure ≠ none) :
    (processor.process now data rows).rows = rows ∨
      (∃ predicate, processor = filter predicate) ∧
        (processor.process now data rows).rows = [] := by
  by_cases hfilter : ∃ predicate, processor = filter predicate
  · obtain ⟨predicate, rfl⟩ := hfilter
    exact .inr ⟨⟨predicate, rfl⟩, rows_filter_of_failure h⟩
  · exact .inl (rows_of_failure (not_exists.mp hfilter) h)

/-- A processor that fails leaves the rows alone, unless it is a filter whose predicate cannot be
evaluated for one of them, and then it leaves none. -/
theorem process_failure_keeps_rows_iff (processor : Processor) (now : Int64) (data : Value)
    (rows : List Row) :
    (((processor.process now data rows).failure ≠ none →
        (processor.process now data rows).rows = rows) ↔
      ∀ predicate, processor = filter predicate → Evaluates predicate now data rows) ∧
    ((processor.process now data rows).failure ≠ none →
      (processor.process now data rows).rows = rows ∨
      (processor.process now data rows).rows = []) := by
  refine ⟨⟨?_, fun h hfailure => ?_⟩, fun h => (rows_cases_of_failure h).imp_right And.right⟩
  · rintro h predicate rfl
    by_contra hnot
    have hfailure : ((filter predicate).process now data rows).failure ≠ none :=
      fun heq => hnot ((failure_filter_iff predicate now data rows).mp heq)
    -- A filter fails on a row only if there is one.
    have hrows : rows = [] := (h hfailure).symm.trans (rows_filter_of_failure hfailure)
    exact hnot (hrows ▸ nofun)
  · rcases rows_cases_of_failure hfailure with hrows | ⟨⟨predicate, rfl⟩, -⟩
    · exact hrows
    · exact absurd ((failure_filter_iff predicate now data rows).mpr (h predicate rfl)) hfailure

/-- A predicate that holds for the integer 3 and cannot be evaluated for a text. -/
def beyondTwo : Expr :=
  .binary .gt (.binary .sub (.reference "object.a" .number) (.literal (.integer 1) .number))
    (.literal (.integer 1) .number)

/-- Not even the row for which the predicate holds stays, when it cannot be evaluated for the
next one. -/
theorem not_process_failure_keeps_rows : ¬∀ (processor : Processor) (now : Int64) (data : Value)
    (rows : List Row), (processor.process now data rows).failure ≠ none →
      (processor.process now data rows).rows = rows := by
  intro h
  have hfailure : ((filter beyondTwo).process 0 .null
      [[("a", .integer 3)], [("a", .string "x")]]).failure ≠ none := by
    decide +kernel
  have hrows := (h _ _ _ _ hfailure).symm.trans (rows_filter_of_failure hfailure)
  cases hrows

end Processor

end RowFilter
