/-!
# Text patterns

A pattern is matched from left to right. An underscore stands for any character, and any
character stands for itself. A percent sign that does not face another one stands for a run of
characters, whose length is fixed as the shortest that lets what follows match up to the next
percent sign. A percent sign of the text that faces one of the pattern is matched by it alone.
-/

namespace RowFilter.Pattern

/-- How far a pattern matches without choosing the length of a run. -/
inductive Progress where
  /-- The text is used up. -/
  | finished (isMatch : Bool)
  /-- The pattern's next character opens a run; what is left of both, after it. -/
  | run (text pattern : List Char)
  | mismatch

/-- Matches single characters up to the next run. -/
def advance : (text pattern : List Char) → Progress
  | [], pattern => .finished (pattern.all (· == '%'))
  | _ :: _, [] => .mismatch
  | c :: text, p :: pattern =>
    if p == '_' || p == c then advance text pattern
    else if p == '%' then .run (c :: text) pattern
    else .mismatch

theorem advance_run_length {text pattern text' pattern' : List Char}
    (h : advance text pattern = .run text' pattern') : pattern'.length < pattern.length := by
  induction text generalizing pattern with
  | nil => simp [advance] at h
  | cons c text ih =>
    cases pattern with
    | nil => simp [advance] at h
    | cons p pattern =>
      simp only [advance] at h
      split at h
      · have := ih h
        simp only [List.length_cons]
        omega
      · split at h
        · obtain ⟨-, rfl⟩ := Progress.run.inj h
          simp
        · simp at h

/-- Matches a pattern against a text of which any first part may belong to a run. -/
def matchesWithin (text pattern : List Char) : Bool :=
  match _h : advance text pattern with
  | .finished isMatch => isMatch
  | .run text' pattern' => matchesWithin text' pattern'
  | .mismatch =>
    match text with
    | [] => false
    | _ :: rest => matchesWithin rest pattern
termination_by (pattern.length, text.length)
decreasing_by
  · exact Prod.Lex.left _ _ (advance_run_length _h)
  · exact Prod.Lex.right _ (by simp)

/-- Whether a pattern matches a whole text. -/
def isMatch (text pattern : List Char) : Bool :=
  match advance text pattern with
  | .finished isMatch => isMatch
  | .run text' pattern' => matchesWithin text' pattern'
  | .mismatch => false

end RowFilter.Pattern
