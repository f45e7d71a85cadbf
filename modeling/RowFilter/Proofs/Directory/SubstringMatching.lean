import Mathlib.Data.List.Infix
import RowFilter.Directory.FilterText
import RowFilter.Proofs.Expr.PatternMatching

/-! # Substring assertions as patterns

A directory finds the chunks of a substring assertion one after another, each at the first place
where it occurs after the one before. It leaves the most of the value to the chunks that follow, so
it finds them exactly if the value fits the pattern that has the chunks between its runs.
-/

namespace RowFilter.Directory

open Pattern

variable {chunk text pattern : List Char}

/-- After the first occurrence of a chunk comes the most that can come after one. -/
theorem exists_suffix_iff_dropThrough? {P : List Char → Prop}
    (hmono : ∀ {shorter longer}, P shorter → shorter <:+ longer → P longer) :
    (∃ after, chunk ++ after <:+ text ∧ P after) ↔
      ∃ after, dropThrough? chunk text = some after ∧ P after := by
  induction text with
  | nil =>
      rw [dropThrough?]
      split
      next h =>
        obtain rfl := List.isEmpty_iff.mp h
        simp
      next h =>
        have hne : chunk ≠ [] := by simpa using h
        simp [hne]
  | cons c text ih =>
      rw [dropThrough?]
      split
      next rest hrest =>
        rw [List.isPrefixOf?_eq_some_iff_append_eq] at hrest
        constructor
        · rintro ⟨after, hsuffix, hafter⟩
          refine ⟨rest, rfl, hmono hafter ?_⟩
          rw [← hrest] at hsuffix
          refine List.suffix_of_suffix_length_le ((List.suffix_append chunk after).trans hsuffix)
            (List.suffix_append chunk rest) ?_
          have hlength := hsuffix.length_le
          simp only [List.length_append] at hlength
          omega
        · rintro ⟨after, hafter, hP⟩
          cases hafter
          exact ⟨rest, hrest ▸ List.suffix_rfl, hP⟩
      next hnone =>
        rw [← ih]
        refine exists_congr fun after => and_congr_left fun _ => ?_
        rw [List.suffix_cons_iff, or_iff_right]
        intro heq
        rw [← List.isPrefixOf?_eq_some_iff_append_eq, hnone] at heq
        cases heq

/-- A chunk before a run is found at its first occurrence or not at all. -/
theorem endFits_chunk_iff (hrun : '%' ∉ chunk) (hany : '_' ∉ chunk) :
    EndFits text (chunk ++ '%' :: pattern) ↔
      ∃ after, dropThrough? chunk text = some after ∧ EndFits after pattern := by
  rw [← exists_suffix_iff_dropThrough? EndFits.mono, EndFits]
  simp only [fits_append hrun hany, fits_run]
  constructor
  · rintro ⟨_, hrest, after, rfl, hafter⟩
    exact ⟨after, hrest, hafter⟩
  · rintro ⟨after, hsuffix, hafter⟩
    exact ⟨_, hsuffix, after, rfl, hafter⟩

theorem fits_literal_iff (hrun : '%' ∉ chunk) (hany : '_' ∉ chunk) :
    Fits text chunk ↔ text = chunk := by
  simpa using @fits_append text [] chunk hrun hany

/-- What stands between two runs, or at the end, has no wildcard in it. -/
def IsLiteral (chunk : Bytes) : Prop :=
  '%' ∉ foldedText chunk ∧ '_' ∉ foldedText chunk

theorem dropThrough?_nil (text : List Char) : dropThrough? [] text = some text := by
  cases text <;> rfl

/-- Chunks that are empty are found anywhere. -/
theorem containsInOrder_filter (final : Option Bytes) (chunks : List Bytes) (text : List Char) :
    containsInOrder final (chunks.filter fun chunk => !chunk.isEmpty) text =
      containsInOrder final chunks text := by
  induction chunks generalizing text with
  | nil => rfl
  | cons chunk rest ih =>
      cases chunk with
      | nil =>
          rw [containsInOrder, show foldedText [] = [] from rfl, dropThrough?_nil]
          exact ih text
      | cons b more =>
          rw [List.filter_cons_of_pos rfl, containsInOrder, containsInOrder]
          split
          next => exact ih _
          next => rfl

theorem containsInOrder_chunk? (final : Bytes) (chunks : List Bytes) (text : List Char) :
    containsInOrder (SearchFilter.chunk? final) chunks text =
      containsInOrder (some final) chunks text := by
  cases final with
  | cons b rest => rfl
  | nil =>
      induction chunks generalizing text with
      | nil => exact (List.isSuffixOf_nil_left).symm
      | cons chunk rest ih =>
          rw [containsInOrder, containsInOrder]
          split
          next => exact ih _
          next => rfl

theorem containsInOrder_iff_endFits {final : Bytes} {chunks : List Bytes}
    (hfinal : IsLiteral final) (h : ∀ chunk ∈ chunks, IsLiteral chunk) :
    containsInOrder (some final) chunks text = true ↔
      EndFits text (['%'].intercalate ((chunks ++ [final]).map foldedText)) := by
  induction chunks generalizing text with
  | nil =>
      simp only [containsInOrder, List.nil_append, List.map_singleton, List.intercalate_singleton,
        EndFits, fits_literal_iff hfinal.1 hfinal.2, exists_eq_right, List.isSuffixOf_iff_suffix]
  | cons chunk rest ih =>
      rw [List.forall_mem_cons] at h
      rw [List.cons_append, List.map_cons, List.intercalate_cons_of_ne_nil (by simp),
        List.append_assoc, List.singleton_append, endFits_chunk_iff h.1.1 h.1.2, containsInOrder]
      cases dropThrough? (foldedText chunk) text with
      | none => simp
      | some after => simp only [Option.some.injEq, exists_eq_left', ih h.2]

namespace SearchFilter

/-- A substring assertion made of chunks holds of exactly the values that fit the pattern of these
chunks, in any case. -/
theorem substringMatches_iff_fits {initial final : Bytes} {middle : List Bytes}
    (hinitial : IsLiteral initial) (hmiddle : ∀ chunk ∈ middle, IsLiteral chunk)
    (hfinal : IsLiteral final) (value : Bytes) :
    substringMatches (chunk? initial) (middle.filter fun chunk => !chunk.isEmpty) (chunk? final)
        value = true ↔
      Fits (foldedText value)
        (['%'].intercalate ((initial :: (middle ++ [final])).map foldedText)) := by
  rw [List.map_cons, List.intercalate_cons_of_ne_nil (by simp), List.append_assoc,
    List.singleton_append, fits_append hinitial.1 hinitial.2]
  simp only [fits_run, ← containsInOrder_iff_endFits hfinal hmiddle]
  cases initial with
  | nil =>
      rw [show chunk? [] = none from rfl, substringMatches.eq_def]
      simp only [containsInOrder_filter, containsInOrder_chunk?]
      simp [show foldedText [] = [] from rfl]
  | cons b rest =>
      rw [show chunk? (b :: rest) = some (b :: rest) from rfl, substringMatches.eq_def]
      simp only [eq_comm (b := foldedText (b :: rest) ++ _),
        ← List.isPrefixOf?_eq_some_iff_append_eq]
      cases List.isPrefixOf? (foldedText (b :: rest)) (foldedText value) with
      | none => simp
      | some after => simp [containsInOrder_filter, containsInOrder_chunk?]

end SearchFilter

end RowFilter.Directory
