/-!
# Three-valued truth

A condition may hold, fail or be unknown. One operand that decides a conjunction or a disjunction
decides it whatever the others are; without one, an unknown operand makes it unknown.
-/

namespace RowFilter

/-- A truth value, or `none` for an unknown one. -/
abbrev Truth := Option Bool

namespace Truth

/-- Joins two truth values: a conjunction is decided by false, a disjunction by true. -/
def join (deciding : Bool) (left right : Truth) : Truth :=
  if left == some deciding || right == some deciding then some deciding
  else if left.isNone || right.isNone then none
  else some (!deciding)

/-- Joins any number of truth values. -/
def joinAll (deciding : Bool) (truths : List Truth) : Truth :=
  truths.foldr (join deciding) (some (!deciding))

def negate (truth : Truth) : Truth :=
  truth.map (!·)

theorem negate_eq_true {truth : Truth} : truth.negate = some true ↔ truth = some false := by
  rcases truth with _ | _ | _ <;> decide

theorem join_comm (deciding : Bool) (left right : Truth) :
    join deciding left right = join deciding right left := by
  rcases left with _ | _ | _ <;> rcases right with _ | _ | _ <;> cases deciding <;> rfl

theorem join_assoc (deciding : Bool) (a b c : Truth) :
    join deciding (join deciding a b) c = join deciding a (join deciding b c) := by
  rcases a with _ | _ | _ <;> rcases b with _ | _ | _ <;> rcases c with _ | _ | _ <;>
    cases deciding <;> rfl

/-- The truth value that decides nothing changes nothing. -/
theorem join_neutral (deciding : Bool) (truth : Truth) :
    join deciding truth (some (!deciding)) = truth := by
  rcases truth with _ | _ | _ <;> cases deciding <;> rfl

theorem join_deciding (deciding : Bool) (truth : Truth) :
    join deciding (some deciding) truth = some deciding := by
  rcases truth with _ | _ | _ <;> cases deciding <;> rfl

theorem joinAll_cons (deciding : Bool) (truth : Truth) (truths : List Truth) :
    joinAll deciding (truth :: truths) = join deciding truth (joinAll deciding truths) :=
  rfl

theorem joinAll_singleton (deciding : Bool) (truth : Truth) : joinAll deciding [truth] = truth :=
  join_neutral deciding truth

/-- Truth values in a row can be joined in two parts. -/
theorem joinAll_append (deciding : Bool) (first second : List Truth) :
    joinAll deciding (first ++ second) =
      join deciding (joinAll deciding first) (joinAll deciding second) := by
  induction first with
  | nil => exact ((join_comm deciding _ _).trans (join_neutral deciding _)).symm
  | cons truth rest ih => rw [List.cons_append, joinAll_cons, joinAll_cons, ih, join_assoc]

theorem eq_false_of_ne {truth : Truth} (hknown : truth ≠ none) (h : truth ≠ some true) :
    truth = some false := by
  rcases truth with _ | _ | _ <;> first | rfl | contradiction

/-- An operand that decides is enough. -/
theorem joinAll_eq_deciding {deciding : Bool} {truths : List Truth} :
    joinAll deciding truths = some deciding ↔ some deciding ∈ truths := by
  have hjoin : ∀ a b : Truth, join deciding a b = some deciding ↔
      some deciding = a ∨ b = some deciding := by
    rintro (_ | _ | _) (_ | _ | _) <;> cases deciding <;> decide
  induction truths with
  | nil => cases deciding <;> decide
  | cons truth rest ih =>
    rw [List.mem_cons]
    exact (hjoin _ _).trans (or_congr Iff.rfl ih)

/-- Without an operand that decides, all others must be known. -/
theorem joinAll_eq_neutral {deciding : Bool} {truths : List Truth} :
    joinAll deciding truths = some (!deciding) ↔ ∀ truth ∈ truths, truth = some (!deciding) := by
  have hjoin : ∀ a b : Truth, join deciding a b = some (!deciding) ↔
      a = some (!deciding) ∧ b = some (!deciding) := by
    rintro (_ | _ | _) (_ | _ | _) <;> cases deciding <;> decide
  induction truths with
  | nil => exact iff_of_true rfl nofun
  | cons truth rest ih =>
    rw [List.forall_mem_cons]
    exact (hjoin _ _).trans (and_congr Iff.rfl ih)

end Truth

end RowFilter
