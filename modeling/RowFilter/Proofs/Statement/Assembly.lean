import RowFilter.Proofs.Statement.Merging

/-! # Parts that are built piece by piece

A part is built by pushing texts, other parts and generators, one after another. Merging lays out
what was pushed: the texts with their parameters in the order in which they were pushed, with the
parts inside and the generated ones in their places. The first generator that fails is what merging
fails with, and without generators the request does not matter.
-/

namespace RowFilter

namespace Part

mutual

/-- Pushes items onto a part, one after another. The parts inside are built in the same way. -/
def assemble (part : Part) : List PartItem → Part
  | [] => part
  | item :: rest => assemble (push part item) rest

def push (part : Part) : PartItem → Part
  | .text text parameters => part.pushText text parameters
  | .nested items => part.thenPart (assemble [] items)
  | .deferred generate => part.pushDeferred fun request => assembleGenerated (generate request)

def assembleGenerated : Except MergeError (List PartItem) → Except MergeError Part
  | .ok items => .ok (assemble [] items)
  | .error error => .error error

end

mutual

/-- What items come to for a request, depth first: texts with their parameters, and an error where a
generator fails. -/
def leaves (request : Request) : List PartItem → List (Except MergeError Statement)
  | [] => []
  | item :: rest => itemLeaves request item ++ leaves request rest

def itemLeaves (request : Request) : PartItem → List (Except MergeError Statement)
  | .text text parameters => [.ok ⟨text, parameters⟩]
  | .nested items => leaves request items
  | .deferred generate => generatedLeaves request (generate request)

def generatedLeaves (request : Request) :
    Except MergeError (List PartItem) → List (Except MergeError Statement)
  | .ok items => leaves request items
  | .error error => [.error error]

end

end Part

/-! ## Statements in order -/

namespace Statement

/-- The texts joined and the parameters joined. -/
def concat (texts : List Statement) : Statement :=
  ⟨String.join (texts.map Statement.text), texts.flatMap Statement.parameters⟩

theorem concat_cons (first : Statement) (rest : List Statement) :
    concat (first :: rest) = first.append (concat rest) := by
  rw [concat, concat, append, List.map_cons, String.join_cons, List.flatMap_cons]

/-- One statement after another, up to the first error. -/
def inOrder (leaves : List (Except MergeError Statement)) : Except MergeError Statement :=
  leaves.foldr andThen (.ok empty)

theorem inOrder_cons (first : Except MergeError Statement)
    (rest : List (Except MergeError Statement)) :
    inOrder (first :: rest) = andThen first (inOrder rest) :=
  rfl

/-- Leaves in a row can be merged in two parts. -/
theorem inOrder_append (first second : List (Except MergeError Statement)) :
    inOrder (first ++ second) = andThen (inOrder first) (inOrder second) := by
  induction first with
  | nil => exact (empty_andThen _).symm
  | cons leaf rest ih => rw [List.cons_append, inOrder_cons, inOrder_cons, ih, andThen_assoc]

theorem inOrder_texts (texts : List Statement) :
    inOrder (texts.map .ok) = .ok (concat texts) := by
  induction texts with
  | nil => rfl
  | cons first rest ih => rw [List.map_cons, inOrder_cons, ih, andThen_ok, concat_cons]

/-- The first error counts, whatever the leaves after it are. -/
theorem inOrder_error (texts : List Statement) (error : MergeError)
    (rest : List (Except MergeError Statement)) :
    inOrder (texts.map .ok ++ .error error :: rest) = .error error := by
  rw [inOrder_append, inOrder_texts, inOrder_cons]
  rfl

/-- There are texts only, or there is a first error behind some texts. -/
theorem texts_or_error (leaves : List (Except MergeError Statement)) :
    (∃ texts : List Statement, leaves = texts.map .ok) ∨
      ∃ (texts : List Statement) (error : MergeError) (rest : List (Except MergeError Statement)),
        leaves = texts.map .ok ++ .error error :: rest := by
  induction leaves with
  | nil => exact .inl ⟨[], rfl⟩
  | cons leaf rest ih =>
      cases leaf with
      | error error => exact .inr ⟨[], error, rest, rfl⟩
      | ok first =>
          rcases ih with ⟨texts, rfl⟩ | ⟨texts, error, after, rfl⟩
          · exact .inl ⟨first :: texts, rfl⟩
          · exact .inr ⟨first :: texts, error, after, rfl⟩

theorem inOrder_eq_ok_iff {leaves : List (Except MergeError Statement)} {statement : Statement} :
    inOrder leaves = .ok statement ↔
      ∃ texts : List Statement, leaves = texts.map .ok ∧ statement = concat texts := by
  constructor
  · intro h
    rcases texts_or_error leaves with ⟨texts, rfl⟩ | ⟨texts, error, rest, rfl⟩
    · rw [inOrder_texts] at h
      cases h
      exact ⟨texts, rfl, rfl⟩
    · rw [inOrder_error] at h
      cases h
  · rintro ⟨texts, rfl, rfl⟩
    exact inOrder_texts texts

theorem inOrder_eq_error_iff {leaves : List (Except MergeError Statement)} {error : MergeError} :
    inOrder leaves = .error error ↔
      ∃ (texts : List Statement) (rest : List (Except MergeError Statement)),
        leaves = texts.map .ok ++ .error error :: rest := by
  constructor
  · intro h
    rcases texts_or_error leaves with ⟨texts, rfl⟩ | ⟨texts, found, rest, rfl⟩
    · rw [inOrder_texts] at h
      cases h
    · rw [inOrder_error] at h
      cases h
      exact ⟨texts, rest, rfl⟩
  · rintro ⟨texts, rest, rfl⟩
    exact inOrder_error texts error rest

end Statement

/-! ## Merging -/

namespace Part

open Statement

section

variable (request : Request)

mutual

/-- What is pushed onto a part is merged after it. -/
theorem merge_assemble (part : Part) : (items : List PartItem) →
    merge request (assemble part items) =
      andThen (merge request part) (inOrder (leaves request items))
  | [] => by
      rw [assemble, leaves]
      exact (andThen_empty _).symm
  | item :: rest => by
      rw [assemble, leaves, merge_assemble (push part item) rest, merge_push part item,
        inOrder_append, andThen_assoc]

/-- An item that is pushed onto a part is merged behind it, leaf by leaf. -/
theorem merge_push (part : Part) : (item : PartItem) →
    merge request (push part item) =
      andThen (merge request part) (inOrder (itemLeaves request item))
  | .text text parameters => by
      rw [push, itemLeaves, merge_pushText, inOrder_cons]
      exact congrArg _ (andThen_empty _).symm
  | .nested items => by
      rw [push, itemLeaves, merge_thenPart, merge_assemble [] items, merge_nil, empty_andThen]
  | .deferred generate => by
      rw [push, itemLeaves, pushDeferred, merge_append, merge_deferred,
        merge_assembleGenerated (generate request)]

/-- What is assembled of generated items merges to their leaves in order. -/
theorem merge_assembleGenerated : (generated : Except MergeError (List PartItem)) →
    (assembleGenerated generated).bind (merge request) = inOrder (generatedLeaves request generated)
  | .ok items => by
      rw [assembleGenerated, generatedLeaves, Except.bind, merge_assemble [] items, merge_nil,
        empty_andThen]
  | .error error => by
      rw [assembleGenerated, generatedLeaves]
      rfl

end

end

mutual

/-- Without generators at any depth there is one statement for all requests. -/
theorem exists_merge_of_not_deferred : (part : Part) → part.isDeferred = false →
    ∃ statement, ∀ request, merge request part = .ok statement
  | [], _ => ⟨empty, fun request => merge_nil request⟩
  | item :: rest, h => by
      rw [isDeferred, Bool.or_eq_false_iff] at h
      obtain ⟨first, hfirst⟩ := exists_mergeItem_of_not_deferred item h.1
      obtain ⟨second, hsecond⟩ := exists_merge_of_not_deferred rest h.2
      refine ⟨first.append second, fun request => ?_⟩
      rw [merge_cons, hfirst, hsecond, andThen_ok]

/-- An item that is not deferred merges to the same statement for every request. -/
theorem exists_mergeItem_of_not_deferred : (item : PartItem) → itemIsDeferred item = false →
    ∃ statement, ∀ request, mergeItem request item = .ok statement
  | .text text parameters, _ => ⟨⟨text, parameters⟩, fun request => by rw [mergeItem]⟩
  | .nested items, h => by
      rw [itemIsDeferred] at h
      obtain ⟨statement, hstatement⟩ := exists_merge_of_not_deferred items h
      exact ⟨statement, fun request => by rw [mergeItem, hstatement]⟩
  | .deferred generate, h => by
      rw [itemIsDeferred] at h
      cases h

end

/-- A part that was built by pushing items merges to the texts and the parameters that were pushed,
in that order and depth first, unless a generator fails; then the first that does decides the error.
A part that is not deferred merges to the same statement for every request. -/
theorem merge_pushed (items : List PartItem) :
    (∀ request statement, merge request (assemble [] items) = .ok statement ↔
      ∃ texts : List Statement, leaves request items = texts.map .ok ∧
        statement = ⟨String.join (texts.map Statement.text), texts.flatMap Statement.parameters⟩) ∧
    (∀ request error, merge request (assemble [] items) = .error error ↔
      ∃ (texts : List Statement) (rest : List (Except MergeError Statement)),
        leaves request items = texts.map .ok ++ .error error :: rest) ∧
    ((assemble [] items).isDeferred = false →
      ∃ statement, ∀ request, merge request (assemble [] items) = .ok statement) := by
  have hmerge : ∀ request, merge request (assemble [] items) =
      inOrder (leaves request items) := by
    intro request
    rw [merge_assemble, merge_nil, empty_andThen]
  refine ⟨fun request statement => ?_, fun request error => ?_, exists_merge_of_not_deferred _⟩
  · rw [hmerge]
    exact inOrder_eq_ok_iff
  · rw [hmerge]
    exact inOrder_eq_error_iff

/-- The page that is wanted, generated inside a part that is itself generated. -/
def pageItems : List PartItem :=
  [.text "a" [], .text " = ?" [.integer 1],
    .nested [.text " LIMIT " [], .deferred fun request =>
      match request.count with
      | none => .error .notCompiled
      | some count => .ok [.text "?" [.integer (Int64.ofNat count)],
          .deferred fun request => .ok [.text " OFFSET ?" [.integer (Int64.ofNat request.start)]]]],
    .text ";" []]

/-- A part with generators in generators merges in order and fails with the generator that fails,
and one without generators merges for every request. -/
theorem merge_pushed_page :
    merge { start := 20, count := some 5 } (assemble [] pageItems) =
        .ok ⟨"a = ? LIMIT ? OFFSET ?;", [.integer 1, .integer 5, .integer 20]⟩ ∧
      merge { start := 20 } (assemble [] pageItems) = .error .notCompiled ∧
      ∃ statement, ∀ request, merge request
        (assemble [] [.text "(" [], .nested [.text "a = ?" [.integer 1]], .text ")" []]) =
          .ok statement :=
  ⟨((merge_pushed pageItems).1 { start := 20, count := some 5 } _).mpr
      ⟨[⟨"a", []⟩, ⟨" = ?", [.integer 1]⟩, ⟨" LIMIT ", []⟩, ⟨"?", [.integer 5]⟩,
        ⟨" OFFSET ?", [.integer 20]⟩, ⟨";", []⟩], rfl, rfl⟩,
    ((merge_pushed pageItems).2.1 { start := 20 } _).mpr
      ⟨[⟨"a", []⟩, ⟨" = ?", [.integer 1]⟩, ⟨" LIMIT ", []⟩], [.ok ⟨";", []⟩], rfl⟩,
    (merge_pushed _).2.2 rfl⟩

end Part

end RowFilter
