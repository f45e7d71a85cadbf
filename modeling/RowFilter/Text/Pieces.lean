/-!
# Pieces of a text

Cutting at a separator: everywhere, which always gives at least one piece, or once.
-/

namespace RowFilter.Text

/-- The pieces between the occurrences of a separator. -/
def pieces [BEq α] (separator : α) : List α → List (List α)
  | [] => [[]]
  | c :: rest =>
    if c == separator then [] :: pieces separator rest
    else
      match pieces separator rest with
      | [] => [[c]]
      | piece :: more => (c :: piece) :: more

/-- What stands before and after the first occurrence of a separator. -/
def cutOnce [BEq α] (separator : α) : List α → Option (List α × List α)
  | [] => none
  | c :: rest =>
    if c == separator then some ([], rest)
    else (cutOnce separator rest).map fun (before, after) => (c :: before, after)

/-- The pieces of a string between the occurrences of a separator. -/
def piecesOf (separator : Char) (text : String) : List String :=
  (pieces separator text.toList).map String.ofList

/-- A string cut at the first occurrence of a separator. -/
def cutAt (separator : Char) (text : String) : Option (String × String) :=
  (cutOnce separator text.toList).map fun (before, after) =>
    (String.ofList before, String.ofList after)

theorem pieces_ne_nil [BEq α] (separator : α) (text : List α) : pieces separator text ≠ [] := by
  cases text with
  | nil => simp [pieces]
  | cons c rest =>
    unfold pieces
    split
    · simp
    · split <;> simp

theorem pieces_of_notMem [BEq α] [LawfulBEq α] {separator : α} {text : List α}
    (h : separator ∉ text) : pieces separator text = [text] := by
  induction text with
  | nil => rfl
  | cons c rest ih =>
    rw [List.mem_cons, not_or] at h
    rw [pieces, if_neg (by simpa using Ne.symm h.1), ih h.2]

/-- A separator between two texts is between their pieces. -/
theorem pieces_append [BEq α] [LawfulBEq α] (separator : α) (first second : List α) :
    pieces separator (first ++ separator :: second) =
      pieces separator first ++ pieces separator second := by
  induction first with
  | nil => simp [pieces]
  | cons c rest ih =>
    obtain ⟨piece, more, hpieces⟩ := List.exists_cons_of_ne_nil (pieces_ne_nil separator rest)
    rw [List.cons_append, pieces, pieces, ih, hpieces]
    split <;> rfl

theorem pieces_append_cons [BEq α] [LawfulBEq α] {separator : α} {piece : List α}
    (h : separator ∉ piece) (rest : List α) :
    pieces separator (piece ++ separator :: rest) = piece :: pieces separator rest := by
  rw [pieces_append, pieces_of_notMem h, List.singleton_append]

/-- Cutting undoes joining, for pieces without the separator. -/
theorem pieces_intercalate [BEq α] [LawfulBEq α] {separator : α} (first : List α)
    (rest : List (List α)) (h : ∀ piece ∈ first :: rest, separator ∉ piece) :
    pieces separator ([separator].intercalate (first :: rest)) = first :: rest := by
  induction rest generalizing first with
  | nil => simpa using pieces_of_notMem (h first (by simp))
  | cons second more ih =>
    rw [List.intercalate_cons_cons, List.append_assoc, List.singleton_append,
      pieces_append_cons (h first (by simp)), ih second fun piece hpiece => h piece (by simp_all)]

/-- Joining undoes cutting. -/
theorem intercalate_pieces [BEq α] [LawfulBEq α] (separator : α) (text : List α) :
    [separator].intercalate (pieces separator text) = text := by
  induction text with
  | nil => rfl
  | cons c rest ih =>
    have hne := pieces_ne_nil separator rest
    rw [pieces]
    split
    next h =>
      rw [List.intercalate_cons_of_ne_nil hne, ih, eq_of_beq h]
      rfl
    next h =>
      split
      next hnil => exact absurd hnil hne
      next piece more hpieces =>
        rw [hpieces] at ih
        rw [List.intercalate_cons_cons_left, ih]

/-- The pieces have no separator in them, and nothing that is not in the text. -/
theorem mem_of_mem_pieces [BEq α] [LawfulBEq α] {separator c : α} {text piece : List α}
    (hpiece : piece ∈ pieces separator text) (h : c ∈ piece) : c ≠ separator ∧ c ∈ text := by
  induction text generalizing piece with
  | nil =>
    rw [pieces, List.mem_singleton] at hpiece
    rw [hpiece] at h
    cases h
  | cons d rest ih =>
    rw [pieces] at hpiece
    split at hpiece
    next =>
      rcases List.mem_cons.mp hpiece with rfl | hpiece
      · cases h
      · exact (ih hpiece h).imp_right (List.mem_cons_of_mem d)
    next hd =>
      split at hpiece
      next hnil => exact absurd hnil (pieces_ne_nil separator rest)
      next first more hpieces =>
        rw [hpieces] at ih
        rcases List.mem_cons.mp hpiece with rfl | hpiece
        · rcases List.mem_cons.mp h with rfl | h
          · exact ⟨fun heq => hd (beq_iff_eq.mpr heq), List.mem_cons_self⟩
          · exact (ih List.mem_cons_self h).imp_right (List.mem_cons_of_mem d)
        · exact (ih (List.mem_cons_of_mem first hpiece) h).imp_right (List.mem_cons_of_mem d)

theorem cutOnce_append_cons [BEq α] [LawfulBEq α] {separator : α} {before : List α}
    (h : separator ∉ before) (after : List α) :
    cutOnce separator (before ++ separator :: after) = some (before, after) := by
  induction before with
  | nil => simp [cutOnce]
  | cons c more ih =>
    rw [List.mem_cons, not_or] at h
    rw [List.cons_append, cutOnce, if_neg (by simpa using Ne.symm h.1), ih h.2]
    rfl

end RowFilter.Text
