import Mathlib.Data.List.Forall2
import RowFilter.Directory.Assertion
import RowFilter.Proofs.Outcome
import RowFilter.Proofs.Statement.Merging

/-! # Binding merged statements

A part writes a text for a request if its statement is that text once the parameters stand in
their places. Texts of parts join the way the parts do.
-/

namespace RowFilter

open Statement

namespace Directory

/-- Two texts bind one after the other, with the parameters of each. -/
theorem bindChars_append {first second x y : List Char} {ps qs : List Value}
    (hfirst : bindChars first ps = .ok x) (hsecond : bindChars second qs = .ok y) :
    bindChars (first ++ second) (ps ++ qs) = .ok (x ++ y) := by
  induction first generalizing ps x with
  | nil =>
      cases ps with
      | nil =>
          cases hfirst
          exact hsecond
      | cons p rest => cases hfirst
  | cons c more ih =>
      rw [List.cons_append]
      unfold bindChars at hfirst ⊢
      split at hfirst
      next hc =>
        rw [if_pos hc]
        cases ps with
        | nil => cases hfirst
        | cons value others =>
            simp only [Bind.bind, Except.bind] at hfirst
            split at hfirst
            next e => cases hfirst
            next text htext =>
              split at hfirst
              next e => cases hfirst
              next bound hbound =>
                cases hfirst
                simp only [List.cons_append, htext, ih hbound, Bind.bind, Except.bind]
                rw [List.append_assoc]
                rfl
      next hc =>
        rw [if_neg hc]
        simp only [Bind.bind, Except.bind] at hfirst
        split at hfirst
        next e => cases hfirst
        next bound hbound =>
          cases hfirst
          rw [ih hbound]
          rfl

theorem bindChars_cons_of_ne {c : Char} (h : c ≠ '?') (rest : List Char) (parameters : List Value) :
    bindChars (c :: rest) parameters = (do return c :: (← bindChars rest parameters)) := by
  rw [bindChars.eq_def]
  exact if_neg h

/-- A text in two is bound with the first parameters in its first half and the others in its
second. -/
theorem exists_of_bindChars_append {first second bound : List Char} {parameters : List Value}
    (h : bindChars (first ++ second) parameters = .ok bound) :
    ∃ ps qs x y, parameters = ps ++ qs ∧ bindChars first ps = .ok x ∧
      bindChars second qs = .ok y ∧ bound = x ++ y := by
  induction first generalizing parameters bound with
  | nil => exact ⟨[], parameters, [], bound, rfl, rfl, h, rfl⟩
  | cons c more ih =>
      rw [List.cons_append] at h
      unfold bindChars at h
      split at h
      next hc =>
        cases parameters with
        | nil => cases h
        | cons value others =>
            obtain ⟨text, htext, h⟩ := bind_eq_ok.mp h
            obtain ⟨rest, hrest, h⟩ := bind_eq_ok.mp h
            cases h
            obtain ⟨ps, qs, x, y, rfl, hx, hy, rfl⟩ := ih hrest
            refine ⟨value :: ps, qs, text ++ x, y, rfl, ?_, hy, (List.append_assoc _ _ _).symm⟩
            rw [bindChars, if_pos hc]
            exact bind_eq_ok.mpr ⟨text, htext, bind_eq_ok.mpr ⟨x, hx, rfl⟩⟩
      next hc =>
        obtain ⟨rest, hrest, h⟩ := bind_eq_ok.mp h
        cases h
        obtain ⟨ps, qs, x, y, rfl, hx, hy, rfl⟩ := ih hrest
        refine ⟨ps, qs, c :: x, y, rfl, ?_, hy, rfl⟩
        rw [bindChars_cons_of_ne hc]
        exact bind_eq_ok.mpr ⟨x, hx, rfl⟩

/-- Text without placeholders takes no parameters and stays as it is. -/
theorem eq_of_bindChars {text bound : List Char} {parameters : List Value} (h : '?' ∉ text)
    (hbind : bindChars text parameters = .ok bound) : parameters = [] ∧ bound = text := by
  induction text generalizing bound with
  | nil =>
      cases parameters with
      | nil =>
          cases hbind
          exact ⟨rfl, rfl⟩
      | cons value others => cases hbind
  | cons c rest ih =>
      rw [List.mem_cons, not_or] at h
      rw [bindChars_cons_of_ne (Ne.symm h.1)] at hbind
      obtain ⟨more, hmore, hbind⟩ := bind_eq_ok.mp hbind
      cases hbind
      obtain ⟨hparameters, rfl⟩ := ih h.2 hmore
      exact ⟨hparameters, rfl⟩

/-- A placeholder takes one parameter. -/
theorem exists_of_bindChars_placeholder {bound : List Char} {parameters : List Value}
    (h : bindChars ['?'] parameters = .ok bound) :
    ∃ value, parameters = [value] ∧ assertionText value = .ok bound := by
  cases parameters with
  | nil => cases h
  | cons value others =>
      rw [bindChars, if_pos rfl] at h
      obtain ⟨text, htext, h⟩ := bind_eq_ok.mp h
      obtain ⟨rest, hrest, h⟩ := bind_eq_ok.mp h
      cases h
      obtain ⟨rfl, rfl⟩ := eq_of_bindChars List.not_mem_nil hrest
      rw [List.append_nil]
      exact ⟨value, rfl, htext⟩

/-- Text without placeholders stays as it is. -/
theorem bindChars_of_notMem {text : List Char} (h : '?' ∉ text) : bindChars text [] = .ok text := by
  induction text with
  | nil => rfl
  | cons c rest ih =>
      rw [List.mem_cons, not_or] at h
      rw [bindChars_cons_of_ne (Ne.symm h.1), ih h.2]
      rfl

end Directory

namespace Part

open Directory

/-- The part merges for the request and its parameters bind to the text. -/
def Writes (request : Request) (part : Part) (text : List Char) : Prop :=
  ∃ statement, part.merge request = .ok statement ∧
    bindChars statement.text.toList statement.parameters = .ok text

variable {request : Request}

/-- Parts that merge alike are written alike. -/
theorem Writes.of_merge_eq {part other : Part} {x : List Char} (h : Writes request other x)
    (hmerge : part.merge request = other.merge request) : Writes request part x := by
  obtain ⟨statement, hother, hbind⟩ := h
  exact ⟨statement, hmerge.trans hother, hbind⟩

theorem Writes.of_andThen {part first second : Part} {x y : List Char}
    (hmerge : part.merge request = andThen (first.merge request) (second.merge request))
    (hfirst : Writes request first x) (hsecond : Writes request second y) :
    Writes request part (x ++ y) := by
  obtain ⟨a, ha, hx⟩ := hfirst
  obtain ⟨b, hb, hy⟩ := hsecond
  refine ⟨a.append b, ?_, ?_⟩
  · rw [hmerge, ha, hb, andThen_ok]
  · rw [Statement.append, String.toList_append]
    exact bindChars_append hx hy

theorem writes_ofText {text : String} {parameters : List Value} {bound : List Char}
    (h : bindChars text.toList parameters = .ok bound) :
    Writes request (ofText text parameters) bound :=
  ⟨_, merge_ofText request text parameters, h⟩

theorem writes_startingWith {text : String} (h : '?' ∉ text.toList) :
    Writes request (startingWith text) text.toList :=
  writes_ofText (bindChars_of_notMem h)

theorem Writes.thenText {part : Part} {x : List Char} (hpart : Writes request part x)
    {text : String} (h : '?' ∉ text.toList) :
    Writes request (part.thenText text) (x ++ text.toList) := by
  refine Writes.of_andThen ?_ hpart (writes_startingWith h)
  rw [merge_thenText, startingWith, merge_ofText]

/-- Two parts in a row are written in a row. -/
theorem Writes.thenPart {part inner : Part} {x y : List Char} (hpart : Writes request part x)
    (hinner : Writes request inner y) : Writes request (part.thenPart inner) (x ++ y) :=
  Writes.of_andThen (merge_thenPart request part inner) hpart hinner

/-- Parts that are added one after another write their texts one after another. -/
theorem Writes.foldl_thenPart {α : Type} {part : Part} {x : List Char}
    (hpart : Writes request part x) {parts : List Part} {items : List α} (text : α → List Char)
    (h : List.Forall₂ (fun inner item => Writes request inner (text item)) parts items) :
    Writes request (parts.foldl Part.thenPart part) (x ++ items.flatMap text) := by
  induction h generalizing part x with
  | nil => simpa using hpart
  | cons hfirst hrest ih =>
      rw [List.foldl_cons, List.flatMap_cons, ← List.append_assoc]
      exact ih (hpart.thenPart hfirst)

end Part

end RowFilter
