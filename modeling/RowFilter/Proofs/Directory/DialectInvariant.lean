import RowFilter.Proofs.Statement.Invariant

/-! # Conditions of the directory dialect

The directory dialect makes all its conditions of items, patterns and presence by negation and
junction. So a property that these have and keep is one of everything that the dialect writes.
-/

namespace RowFilter.Directory

/-- Items, patterns, presence and truth have a property that negation and junction keep. -/
structure Builds (N : Attribute → Prop) (P : Part → Prop) : Prop where
  item : ∀ {definition : Attribute}, N definition → ∀ relation ∈ ["=", ">=", "<="],
    ∀ value target, Yields P (item definition relation value target)
  substring : ∀ {definition : Attribute}, N definition → ∀ pattern,
    Yields P (substring definition pattern)
  presence : ∀ {definition : Attribute}, N definition → P (presence definition)
  negation : ∀ {part : Part}, P part → P (negation part)
  junction : ∀ (op : BinaryOp) {parts : List Part}, parts ≠ [] → (∀ part ∈ parts, P part) →
    P (junction op parts)
  truth : ∀ holds, P (truth holds)

namespace Builds

variable {N : Attribute → Prop} {P : Part → Prop} (hP : Builds N P)

include hP

theorem negated {definition : Attribute} (hname : N definition) {part : Part} (h : P part) :
    P (negated definition part) := by
  unfold Directory.negated
  split
  next =>
    refine hP.junction .or (List.cons_ne_nil _ _) ?_
    simpa using ⟨hP.negation h, hP.negation (hP.presence hname)⟩
  next => exact hP.negation h

/-- Alternatives are joined unless there is only one. -/
theorem any (items : List Part) : items ≠ [] → (∀ part ∈ items, P part) → P (match items with
    | [single] => single
    | _ => Directory.junction .or items) := by
  intro hne hall
  split
  next single => exact hall single List.mem_cons_self
  next => exact hP.junction .or hne hall

/-- A membership has the property that its items and their junction have. -/
theorem membership (op : BinaryOp) {definition : Attribute} (hname : N definition)
    (candidates : Value) : Yields P (membership op definition candidates) := by
  refine Yields.ite (fun _ => Yields.ok (hP.truth _)) fun hsome => ?_
  refine Yields.step fun items hitems => Yields.ok ?_
  have hall : ∀ part ∈ items, P part :=
    Yields.mapM (fun element _ => hP.item hname "=" (by simp) element definition.type) items hitems
  -- There is an item for each candidate, so there are some.
  have hne : items ≠ [] := by
    rintro rfl
    have hlength := (mapM_eq_ok.mp hitems).length_eq
    exact hsome (by simpa using hlength)
  have hany := hP.any items hne hall
  split
  next => exact hP.negated hname hany
  next => exact hany

theorem nullCheck {term : Term} (h : term.Respects N P) (isNull : Bool) :
    Yields P (nullCheck term isNull) := by
  cases term with
  | value value => exact Yields.ok (hP.truth _)
  | computed part type => exact Yields.error _
  | attr definition =>
      refine Yields.ok ?_
      split
      next => exact hP.negation (hP.presence h)
      next => exact hP.presence h

/-- Every comparison is put together of what has the property. -/
theorem comparison (op : BinaryOp) {left : Term} (hleft : left.Respects N P) (right : Term) :
    Yields P (comparison op left right) := by
  cases left with
  | value value => exact Yields.error _
  | computed part type => exact Yields.error _
  | attr definition =>
      have hname : N definition := hleft
      refine Yields.step fun found hfound => Yields.step fun value _ => ?_
      cases hfound
      -- Nothing depends on which type the value is written as.
      generalize (if definition.type = .any then value.type else definition.type) = target
      have hequal := hP.item hname "=" (by simp) value target
      have hgreater := hP.item hname ">=" (by simp) value target
      have hless := hP.item hname "<=" (by simp) value target
      simp only
      split
      next => exact hP.membership _ hname value
      next => exact hP.membership _ hname value
      next =>
        refine Yields.ite (fun _ => ?_) fun _ => ?_
        · split
          next => exact hP.nullCheck hleft true
          next => exact hP.nullCheck hleft false
          next => exact Yields.ok (hP.truth false)
        · split
          next => exact hP.substring hname value
          next => exact hequal
          next => exact hequal.bind fun part hpart => Yields.ok (hP.negated hname hpart)
          next => exact hgreater
          next => exact hless
          next => exact hless.bind fun part hpart => Yields.ok (hP.negation hpart)
          next => exact hgreater.bind fun part hpart => Yields.ok (hP.negation hpart)
          next => exact Yields.error _

/-- What is written by the directory dialect has every property that its building blocks have. -/
theorem dialect_respects : dialect.Respects N P where
  comparison op _ right hleft _ := hP.comparison op hleft right
  nullCheck _ isNull h := hP.nullCheck h isNull
  junction op _ hne h := hP.junction op hne h
  negation _ h := hP.negation h
  truth holds := hP.truth holds
  arithmetic _ _ _ _ _ := Yields.error _
  function _ _ _ := Yields.error _

end Builds

end RowFilter.Directory
