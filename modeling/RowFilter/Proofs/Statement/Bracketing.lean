import RowFilter.Proofs.Statement.Operands

/-! # Statements of junctions

A junction of parts merges to the statements of the parts in one bracket, in their order, and a
negation to the statement of its part in a bracket of its own. Their parameters come in the order of
the parts.
-/

namespace RowFilter

open Statement

namespace Statement

/-- Statements one after another with a text between any two. -/
def joined (separator : String) (statements : List Statement) : Statement :=
  ⟨separator.intercalate (statements.map text), statements.flatMap parameters⟩

/-- A statement between texts without parameters. -/
def enclosed (opening closing : String) (statement : Statement) : Statement :=
  ⟨opening ++ statement.text ++ closing, statement.parameters⟩

theorem joined_nil (separator : String) : joined separator [] = empty := by
  rw [joined, List.map_nil, String.intercalate_nil, List.flatMap_nil, empty]

theorem joined_singleton (separator : String) (statement : Statement) :
    joined separator [statement] = statement := by
  rw [joined, List.map_singleton, String.intercalate_singleton, List.flatMap_singleton]

/-- A separator stands between the first statement and the others joined. -/
theorem joined_cons_cons (separator : String) (first second : Statement) (rest : List Statement) :
    joined separator (first :: second :: rest) =
      first.append (append ⟨separator, []⟩ (joined separator (second :: rest))) := by
  simp only [joined, append, List.map_cons, String.intercalate_cons_cons, List.flatMap_cons,
    List.nil_append, String.append_assoc]

/-- Without a separator, statements just follow each other. -/
theorem joined_empty_cons (first : Statement) (rest : List Statement) :
    joined "" (first :: rest) = first.append (joined "" rest) := by
  cases rest with
  | nil => rw [joined_singleton, joined_nil, append_empty]
  | cons second more => rw [joined_cons_cons, ← empty, empty_append]

end Statement

namespace Backend

/-- What opens the bracket of a junction, and what stands between its operands. -/
def junctionTexts : Backend → BinaryOp → String × String
  | .tabular, .or => ("(", " OR ")
  | .tabular, _ => ("(", " AND ")
  | .directory, .or => ("(|", "")
  | .directory, _ => ("(&", "")

/-- The statement of a junction of operands with these statements. -/
def bracketed (backend : Backend) (op : BinaryOp) (statements : List Statement) : Statement :=
  (joined (backend.junctionTexts op).2 statements).enclosed (backend.junctionTexts op).1 ")"

def negationText : Backend → String
  | .tabular => "NOT ("
  | .directory => "(!"

/-- The statement of the negation of an operand with this statement. -/
def negated (backend : Backend) (statement : Statement) : Statement :=
  statement.enclosed backend.negationText ")"

end Backend

variable {request : Request}

namespace Part

theorem andThen_enclosed (opening closing : String) (x : Except MergeError Statement) :
    andThen (andThen (.ok ⟨opening, []⟩) x) (.ok ⟨closing, []⟩) =
      x.map (enclosed opening closing) := by
  cases x with
  | error error => rfl
  | ok statement => simp [andThen_ok, append, enclosed, Except.map]

/-- Joined parts merge to their joined statements, in order. -/
theorem merge_thenJoined (separator : String) (parts : List Part) (part : Part) :
    merge request (part.thenJoined separator parts) = andThen (merge request part)
      ((parts.mapM (merge request)).map (joined separator)) := by
  induction parts generalizing part with
  | nil =>
    rw [thenJoined, List.mapM_nil]
    exact (andThen_empty _).symm
  | cons first rest ih =>
    cases rest with
    | nil =>
      rw [thenJoined, merge_thenPart, List.mapM_cons, List.mapM_nil]
      cases merge request first with
      | error error => rfl
      | ok statement => exact congrArg _ (congrArg _ (joined_singleton separator statement).symm)
    | cons second more =>
      rw [thenJoined.eq_3 _ _ _ _ (List.cons_ne_nil second more), ih, merge_thenText,
        merge_thenPart, andThen_assoc, andThen_assoc, List.mapM_cons (a := first)]
      refine congrArg _ ?_
      cases merge request first with
      | error error => rfl
      | ok statement =>
        cases hrest : (second :: more).mapM (merge request) with
        | error error => rfl
        | ok statements =>
          -- There is a second statement, so a separator stands in front of the others.
          obtain ⟨next, others, -, -, rfl⟩ :=
            List.forall₂_cons_left_iff.mp (mapM_eq_ok.mp hrest)
          exact congrArg Except.ok (joined_cons_cons separator statement next others).symm

theorem merge_foldl_thenPart (parts : List Part) (part : Part) :
    merge request (parts.foldl thenPart part) = andThen (merge request part)
      ((parts.mapM (merge request)).map (joined "")) := by
  induction parts generalizing part with
  | nil =>
    rw [List.mapM_nil]
    exact (andThen_empty _).symm
  | cons first rest ih =>
    rw [List.foldl_cons, ih, merge_thenPart, andThen_assoc, List.mapM_cons]
    refine congrArg _ ?_
    cases merge request first with
    | error error => rfl
    | ok statement =>
      cases rest.mapM (merge request) with
      | error error => rfl
      | ok statements => exact congrArg Except.ok (joined_empty_cons statement statements).symm

/-- A part between two texts merges to its statement between them. -/
theorem merge_enclosed (opening closing : String) (part : Part) :
    merge request (((startingWith opening).thenPart part).thenText closing) =
      (merge request part).map (enclosed opening closing) := by
  rw [merge_thenText, merge_thenPart, startingWith, merge_ofText, andThen_enclosed]

end Part

namespace Backend

/-- A junction of parts merges to their statements in one bracket. -/
theorem merge_junction (backend : Backend) (op : BinaryOp) (parts : List Part) :
    Part.merge request (backend.dialect.junction op parts) =
      (parts.mapM (Part.merge request)).map (backend.bracketed op) := by
  have hjoined (opening separator : String) : andThen (andThen (.ok ⟨opening, []⟩)
      ((parts.mapM (Part.merge request)).map (joined separator))) (.ok ⟨")", []⟩) =
        (parts.mapM (Part.merge request)).map fun statements =>
          (joined separator statements).enclosed opening ")" := by
    rw [Part.andThen_enclosed]
    cases parts.mapM (Part.merge request) <;> rfl
  cases backend with
  | tabular =>
    change Part.merge request (Tabular.junction op parts) = _
    rw [Tabular.junction, Part.merge_thenText, Part.merge_thenJoined, Part.startingWith,
      Part.merge_ofText, hjoined]
    cases op <;> rfl
  | directory =>
    change Part.merge request (Directory.junction op parts) = _
    rw [Directory.junction, Part.merge_thenText, Part.merge_foldl_thenPart, Part.startingWith,
      Part.merge_ofText, hjoined]
    cases op <;> rfl

/-- A negated part merges to the negated statement. -/
theorem merge_negation (backend : Backend) (part : Part) :
    Part.merge request (backend.dialect.negation part) =
      (Part.merge request part).map backend.negated := by
  cases backend with
  | tabular => exact Part.merge_enclosed "NOT (" ")" part
  | directory => exact Part.merge_enclosed "(!" ")" part

end Backend

end RowFilter
