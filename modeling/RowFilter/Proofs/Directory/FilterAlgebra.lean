import Mathlib.Data.List.Perm.Basic
import RowFilter.Directory.SearchFilter

/-! # The algebra of search filters

Conjunction, disjunction and negation of search filters are those of Kleene's logic of three values.
The order of a list of filters is of no influence, although a server may read them from the left and
stop at the first that decides; a negation goes over to the items of a list; and a list that stands
in a list of the same kind may stand there item by item. All this holds in any place of a filter,
since the truth of a filter depends on the truth of its parts only.
-/

namespace RowFilter

namespace Truth

/-- Negating a join negates both sides and exchanges what decides it. -/
theorem negate_join (deciding : Bool) (left right : Truth) :
    (join deciding left right).negate = join (!deciding) left.negate right.negate := by
  rcases left with _ | _ | _ <;> rcases right with _ | _ | _ <;> cases deciding <;> rfl

theorem negate_joinAll (deciding : Bool) (truths : List Truth) :
    (joinAll deciding truths).negate = joinAll (!deciding) (truths.map negate) := by
  induction truths with
  | nil => rfl
  | cons truth rest ih => rw [joinAll_cons, negate_join, ih, List.map_cons, joinAll_cons]

/-- The order in which truth values are joined does not matter. -/
theorem joinAll_perm (deciding : Bool) {truths others : List Truth} (h : truths.Perm others) :
    joinAll deciding truths = joinAll deciding others := by
  have : LeftCommutative (join deciding) := by
    refine ⟨fun a b c => ?_⟩
    rw [← join_assoc, join_comm deciding a b, join_assoc]
  exact h.foldr_eq _

/-- Reads truth values from the left. One that decides ends the reading, and an unknown one is
remembered. -/
def sweep (deciding : Bool) (remembered : Truth) : List Truth → Truth
  | [] => remembered
  | truth :: rest =>
    if truth = some deciding then some deciding
    else sweep deciding (if truth.isNone then none else remembered) rest

/-- What is remembered is joined with what is still to be read, as long as nothing has decided. -/
theorem sweep_eq_join {deciding : Bool} {remembered : Truth} (h : remembered ≠ some deciding)
    (truths : List Truth) :
    sweep deciding remembered truths = join deciding remembered (joinAll deciding truths) := by
  induction truths generalizing remembered with
  | nil => exact (join_neutral deciding remembered).symm
  | cons truth rest ih =>
      rw [sweep, joinAll_cons, ← join_assoc]
      split
      next hdecides => rw [hdecides, join_comm deciding remembered, join_deciding, join_deciding]
      next hundecided =>
        -- Without a deciding value, joining remembers whether one was unknown.
        have hjoin : ∀ a b : Truth, a ≠ some deciding → b ≠ some deciding →
            (if b.isNone then none else a) = join deciding a b := by
          rintro (_ | _ | _) (_ | _ | _) <;> cases deciding <;> decide
        have hnext : (if truth.isNone then none else remembered) ≠ some deciding := by
          split
          · exact nofun
          · exact h
        rw [ih hnext, hjoin remembered truth h hundecided]

/-- The loop that stops at a deciding value gives the join of all values. -/
theorem sweep_eq_joinAll (deciding : Bool) (truths : List Truth) :
    sweep deciding (some !deciding) truths = joinAll deciding truths := by
  rw [sweep_eq_join (by cases deciding <;> decide), join_comm, join_neutral]

end Truth

namespace Directory.SearchFilter

/-- The junction of some filters that one truth value decides. -/
def junction (deciding : Bool) (filters : List SearchFilter) : SearchFilter :=
  if deciding then .or filters else .and filters

theorem evaluate_junction (entry : Entry) (deciding : Bool) (filters : List SearchFilter) :
    evaluate entry (junction deciding filters) =
      Truth.joinAll deciding (filters.map (evaluate entry)) := by
  cases deciding with
  | false => exact evaluate_and entry filters
  | true => exact evaluate_or entry filters

/-- What stands around a filter in the next larger one. -/
inductive Frame where
  | junction (deciding : Bool) (before after : List SearchFilter)
  | not

def Frame.plug : Frame → SearchFilter → SearchFilter
  | junction deciding before after, filter =>
    SearchFilter.junction deciding (before ++ filter :: after)
  | not, filter => .not filter

/-- Puts a filter in a place of a larger one, which is given by the frames around it, from the
innermost. -/
def plug (place : List Frame) (filter : SearchFilter) : SearchFilter :=
  place.foldl (fun inner frame => frame.plug inner) filter

variable {entry : Entry} {filter other : SearchFilter}

/-- A frame does not see more of a filter than its truth value. -/
theorem evaluate_plug_frame (frame : Frame) (h : filter.evaluate entry = other.evaluate entry) :
    (frame.plug filter).evaluate entry = (frame.plug other).evaluate entry := by
  cases frame with
  | junction deciding before after =>
      simp only [Frame.plug, evaluate_junction, List.map_append, List.map_cons, h]
  | not => rw [Frame.plug, Frame.plug, evaluate_not, evaluate_not, h]

/-- Filters of the same truth may stand for each other. -/
theorem evaluate_plug (place : List Frame) (h : filter.evaluate entry = other.evaluate entry) :
    (plug place filter).evaluate entry = (plug place other).evaluate entry := by
  induction place generalizing filter other with
  | nil => exact h
  | cons frame place ih => exact ih (evaluate_plug_frame frame h)

theorem evaluate_not_junction (entry : Entry) (deciding : Bool) (filters : List SearchFilter) :
    evaluate entry (.not (junction deciding filters)) =
      evaluate entry (junction (!deciding) (filters.map .not)) := by
  rw [evaluate_not, evaluate_junction, evaluate_junction, Truth.negate_joinAll, List.map_map,
    List.map_map]
  refine congrArg (Truth.joinAll _) (List.map_congr_left fun filter _ => ?_)
  exact (evaluate_not entry filter).symm

/-- A junction inside a junction of the same kind can be spliced into it. -/
theorem evaluate_junction_splice (entry : Entry) (deciding : Bool)
    (before inner after : List SearchFilter) :
    evaluate entry (junction deciding (before ++ junction deciding inner :: after)) =
      evaluate entry (junction deciding (before ++ inner ++ after)) := by
  simp only [evaluate_junction, List.map_append, List.map_cons, Truth.joinAll_append,
    Truth.joinAll_cons, Truth.join_assoc]

/-- Kleene's logic, on every entry. A junction has the deciding value if some filter has it, and the
other value if all have that. In any place of a filter, the order of a list is of no influence, nor
is an early end of a reading from the left; a negation goes over to the items; and a junction in one
of its kind may stand there item by item. -/
theorem evaluate_plug_junction (entry : Entry) (place : List Frame) (deciding : Bool) :
    (∀ filters,
      (evaluate entry (junction deciding filters) = some deciding ↔
        ∃ filter ∈ filters, evaluate entry filter = some deciding) ∧
      (evaluate entry (junction deciding filters) = some (!deciding) ↔
        ∀ filter ∈ filters, evaluate entry filter = some (!deciding))) ∧
    (∀ filters others, filters.Perm others →
      evaluate entry (plug place (junction deciding filters)) =
        evaluate entry (plug place (junction deciding others)) ∧
      evaluate entry (junction deciding filters) =
        Truth.sweep deciding (some !deciding) (others.map (evaluate entry))) ∧
    (∀ filters,
      evaluate entry (plug place (.not (junction deciding filters))) =
        evaluate entry (plug place (junction (!deciding) (filters.map .not)))) ∧
    ∀ before inner after,
      evaluate entry (plug place (junction deciding (before ++ junction deciding inner :: after))) =
        evaluate entry (plug place (junction deciding (before ++ inner ++ after))) := by
  refine ⟨fun filters => ?_, fun filters others hperm => ?_, fun filters => ?_,
    fun before inner after => ?_⟩
  · rw [evaluate_junction]
    exact ⟨Truth.joinAll_eq_deciding.trans List.mem_map,
      Truth.joinAll_eq_neutral.trans List.forall_mem_map⟩
  · have heq := Truth.joinAll_perm deciding (hperm.map (evaluate entry))
    refine ⟨evaluate_plug place ?_, ?_⟩
    · rw [evaluate_junction, evaluate_junction, heq]
    · rw [evaluate_junction, Truth.sweep_eq_joinAll, heq]
  · exact evaluate_plug place (evaluate_not_junction entry deciding filters)
  · exact evaluate_plug place (evaluate_junction_splice entry deciding before inner after)

/-- A negated conjunction of an unknown condition, a true one and a disjunction without items. -/
theorem evaluate_not_and_swapped :
    let entry : Entry := ⟨"cn=x", [("a", [[49]])]⟩
    let filters := [.equal "b" [49], .present "a", .or []]
    filters.Perm filters.reverse ∧
      evaluate entry (.not (.and filters)) = evaluate entry (.not (.and filters.reverse)) ∧
      evaluate entry (.not (.and filters)) = some true := by
  intro entry filters
  have hperm := (List.reverse_perm filters).symm
  refine ⟨hperm, ((evaluate_plug_junction entry [.not] false).2.1 _ _ hperm).1, ?_⟩
  rfl

end Directory.SearchFilter

end RowFilter
