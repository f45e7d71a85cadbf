import Mathlib.Data.List.Infix
import RowFilter.Directory.Server
import RowFilter.Proofs.Text.LetterCase

/-! # The scope of a search

The server compares names in one text each, and cuts the base off the end of a name. That follows
the hierarchy of the components: lower case brings no comma into a component, so the text of a name
has the components of the name for its pieces, and what stands before a comma and the base is cut
into the components above those of the base.
-/

namespace RowFilter.Directory

open Text

/-- The components of a name, in the form under which they compare. -/
def components (dn : String) : List (List Char) :=
  (pieces ',' dn.toList).map fun rdn => lower (trim rdn)

theorem comma_notMem_of_mem_components {dn : String} {component : List Char}
    (h : component ∈ components dn) : ',' ∉ component := by
  obtain ⟨rdn, hrdn, rfl⟩ := List.mem_map.mp h
  intro hcomma
  have hmem := mem_of_mem_trim (mem_of_mem_lower (by decide) hcomma)
  exact (mem_of_mem_pieces hrdn hmem).1 rfl

theorem pieces_normalizeDn (dn : String) : pieces ',' (normalizeDn dn.toList) = components dn := by
  change pieces ',' ([','].intercalate (components dn)) = components dn
  have hnone : ∀ component ∈ components dn, ',' ∉ component :=
    fun _ => comma_notMem_of_mem_components
  cases hdn : components dn with
  | nil => exact absurd (List.map_eq_nil_iff.mp hdn) (pieces_ne_nil _ _)
  | cons first rest => exact pieces_intercalate first rest (hdn ▸ hnone)

variable {dn base rdn : List Char}

theorem pieces_injective : Function.Injective (pieces ',' : List Char → List (List Char)) :=
  Function.LeftInverse.injective (intercalate_pieces ',')

theorem childPart?_eq_some_iff : childPart? dn base = some rdn ↔ dn = rdn ++ ',' :: base := by
  unfold childPart?
  split
  next hnone =>
    refine iff_of_false nofun fun heq => ?_
    have hsome : List.isSuffixOf? base dn = some (rdn ++ [',']) :=
      List.isSuffixOf?_eq_some_iff_append_eq.mpr (by simp [heq])
    cases hnone.symm.trans hsome
  next before hbefore =>
    obtain rfl := List.isSuffixOf?_eq_some_iff_append_eq.mp hbefore
    have hright : before ++ base = rdn ++ ',' :: base ↔ before = rdn ++ [','] := by
      rw [← List.append_cancel_right_eq before base (rdn ++ [',']), List.append_assoc,
        List.singleton_append]
    rw [hright]
    split
    next reversed hreverse =>
      rw [List.reverse_eq_cons_iff.mp hreverse]
      simp
    next hother =>
      refine iff_of_false nofun fun heq => hother rdn.reverse ?_
      simp [heq]

/-- What stands right below the base is one piece. -/
theorem childPart?_without_comma_iff :
    (∃ rdn, childPart? dn base = some rdn ∧ ',' ∉ rdn) ↔
      ∃ component, pieces ',' dn = component :: pieces ',' base := by
  constructor
  · rintro ⟨rdn, hchild, hcomma⟩
    rw [childPart?_eq_some_iff.mp hchild]
    exact ⟨rdn, pieces_append_cons hcomma base⟩
  · rintro ⟨component, hpieces⟩
    have hcomma : ',' ∉ component := fun h =>
      (mem_of_mem_pieces (hpieces ▸ List.mem_cons_self) h).1 rfl
    refine ⟨component, childPart?_eq_some_iff.mpr (pieces_injective ?_), hcomma⟩
    rw [hpieces, pieces_append_cons hcomma]

/-- What is the base or stands below it ends with the pieces of the base. -/
theorem eq_or_childPart?_iff :
    (dn = base ∨ ∃ rdn, childPart? dn base = some rdn) ↔ pieces ',' base <:+ pieces ',' dn := by
  constructor
  · rintro (rfl | ⟨rdn, hchild⟩)
    · exact List.suffix_rfl
    · rw [childPart?_eq_some_iff.mp hchild, pieces_append]
      exact List.suffix_append _ _
  · rintro ⟨above, hpieces⟩
    cases above with
    | nil => exact .inl (pieces_injective hpieces.symm)
    | cons first rest =>
        have hcomma : ∀ piece ∈ first :: rest, ',' ∉ piece := fun piece hpiece h =>
          (mem_of_mem_pieces (hpieces ▸ List.mem_append_left _ hpiece) h).1 rfl
        refine .inr ⟨[','].intercalate (first :: rest),
          childPart?_eq_some_iff.mpr (pieces_injective ?_)⟩
        rw [pieces_append, pieces_intercalate first rest hcomma, hpieces]

/-- Under a base with a name, a scope follows the hierarchy of components: the base alone, what is
one component below it, and all that ends with it. -/
theorem inScope_iff_components {base : String} (h : normalizeDn base.toList ≠ []) (dn : String) :
    (inScope .base base dn = true ↔ components dn = components base) ∧
      (inScope .oneLevel base dn = true ↔
        ∃ component, components dn = component :: components base) ∧
      (inScope .subtree base dn = true ↔ components base <:+ components dn) := by
  have hempty : (normalizeDn base.toList).isEmpty = false := by simpa using h
  rw [← pieces_normalizeDn dn, ← pieces_normalizeDn base]
  refine ⟨?_, ?_, ?_⟩
  · simp only [inScope, hempty, Bool.false_eq_true, if_false, beq_iff_eq]
    exact pieces_injective.eq_iff.symm
  · rw [← childPart?_without_comma_iff]
    simp only [inScope, hempty, Bool.false_eq_true, if_false]
    cases childPart? (normalizeDn dn.toList) (normalizeDn base.toList) with
    | none => simp
    | some rdn => simp
  · rw [← eq_or_childPart?_iff, ← Option.isSome_iff_exists]
    simp only [inScope, hempty, Bool.false_eq_true, if_false, Bool.or_eq_true, beq_iff_eq]

/-- A name one component below its base, and one that only ends with the text of the base. -/
theorem inScope_below_people : normalizeDn "OU=People, DC=Example".toList ≠ [] ∧
    inScope .oneLevel "OU=People, DC=Example" "uid=x,ou=people,dc=example" = true ∧
      inScope .subtree "OU=People, DC=Example" "uid=x,you=people,dc=example" = false := by
  have hbase : normalizeDn "OU=People, DC=Example".toList ≠ [] := by decide
  have hscope := inScope_iff_components hbase
  refine ⟨hbase, (hscope _).2.1.mpr ⟨"uid=x".toList, by decide⟩, Bool.eq_false_iff.mpr fun h => ?_⟩
  exact absurd ((hscope _).2.2.mp h) (by decide)

end RowFilter.Directory
