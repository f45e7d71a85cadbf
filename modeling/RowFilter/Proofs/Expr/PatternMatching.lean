import Mathlib.Data.List.Forall2
import Mathlib.Data.List.Infix
import RowFilter.Expr.Pattern

/-! # What text patterns match

A text fits a pattern if it can be cut into pieces for the pattern's characters. The matcher gives
each run the shortest length that lets what follows match up to the next run. No other length can
do better, since whatever a longer run leaves for the rest of the pattern ends the same text. It
finds all cuts but those in which a percent sign of the pattern faces one of the text and stands for
something else.
-/

namespace RowFilter.Pattern

/-- What a character of a pattern may stand for. -/
def Stands (p : Char) (piece : List Char) : Prop :=
  p ≠ '%' → ∃ c, piece = [c] ∧ (p = '_' ∨ p = c)

/-- The text is cut into pieces for the characters of the pattern, in order. -/
def Fits (text pattern : List Char) : Prop :=
  ∃ pieces, List.Forall₂ Stands pattern pieces ∧ pieces.flatten = text

variable {text pattern : List Char}

@[simp] theorem fits_nil : Fits text [] ↔ text = [] := by
  rw [Fits]
  simp only [List.forall₂_nil_left_iff]
  constructor
  · rintro ⟨_, rfl, rfl⟩
    rfl
  · rintro rfl
    exact ⟨[], rfl, rfl⟩

/-- The first character of a pattern stands for a piece at the start of the text, and the rest fits
what is behind it. -/
theorem fits_cons {p : Char} :
    Fits text (p :: pattern) ↔ ∃ piece rest, text = piece ++ rest ∧ Stands p piece ∧
      Fits rest pattern := by
  constructor
  · rintro ⟨_, hpieces, rfl⟩
    obtain ⟨piece, pieces, hpiece, hrest, rfl⟩ := List.forall₂_cons_left_iff.mp hpieces
    exact ⟨piece, pieces.flatten, List.flatten_cons, hpiece, pieces, hrest, rfl⟩
  · rintro ⟨piece, _, rfl, hpiece, pieces, hrest, rfl⟩
    exact ⟨piece :: pieces, .cons hpiece hrest, List.flatten_cons⟩

/-- Some end of the text fits the pattern. -/
def EndFits (text pattern : List Char) : Prop :=
  ∃ rest, rest <:+ text ∧ Fits rest pattern

/-- What fits the end of a text fits the end of every text that ends with it. -/
theorem EndFits.mono {other : List Char} (h : EndFits text pattern) (hsuffix : text <:+ other) :
    EndFits other pattern := by
  obtain ⟨rest, hrest, hfits⟩ := h
  exact ⟨rest, hrest.trans hsuffix, hfits⟩

/-- A run leaves any end of the text to the rest of the pattern. -/
theorem fits_run : Fits text ('%' :: pattern) ↔ EndFits text pattern := by
  rw [fits_cons]
  constructor
  · rintro ⟨piece, rest, rfl, -, hrest⟩
    exact ⟨rest, List.suffix_append piece rest, hrest⟩
  · rintro ⟨rest, ⟨piece, rfl⟩, hrest⟩
    exact ⟨piece, rest, rfl, fun h => absurd rfl h, hrest⟩

/-- A character other than the percent sign stands for exactly one character. -/
theorem fits_single {p : Char} (hp : p ≠ '%') :
    Fits text (p :: pattern) ↔ ∃ c rest, text = c :: rest ∧ (p = '_' ∨ p = c) ∧
      Fits rest pattern := by
  rw [fits_cons]
  constructor
  · rintro ⟨piece, rest, rfl, hpiece, hrest⟩
    obtain ⟨c, rfl, hc⟩ := hpiece hp
    exact ⟨c, rest, rfl, hc, hrest⟩
  · rintro ⟨c, rest, rfl, hc, hrest⟩
    exact ⟨[c], rest, rfl, fun _ => ⟨c, rfl, hc⟩, hrest⟩

/-- Characters of a pattern that stand for themselves. -/
theorem fits_append {chunk : List Char} (hrun : '%' ∉ chunk) (hany : '_' ∉ chunk) :
    Fits text (chunk ++ pattern) ↔ ∃ rest, text = chunk ++ rest ∧ Fits rest pattern := by
  induction chunk generalizing text with
  | nil => simp
  | cons c chunk ih =>
      rw [List.mem_cons, not_or] at hrun hany
      rw [List.cons_append, fits_single (Ne.symm hrun.1)]
      constructor
      · rintro ⟨d, rest, rfl, hd, hfits⟩
        obtain rfl : c = d := hd.resolve_left (Ne.symm hany.1)
        obtain ⟨after, rfl, hafter⟩ := (ih hrun.2 hany.2).mp hfits
        exact ⟨after, rfl, hafter⟩
      · rintro ⟨after, rfl, hfits⟩
        exact ⟨c, chunk ++ after, rfl, .inr rfl, (ih hrun.2 hany.2).mpr ⟨after, rfl, hfits⟩⟩

/-! ## Percent signs of the text -/

/-- The pieces give a percent sign of the pattern that faces one of the text this one alone. -/
def FacesAlone (pattern : List Char) (pieces : List (List Char)) : Prop :=
  ∀ n : Nat, pattern[n]? = some '%' → (pieces.drop n).flatten.head? = some '%' →
    pieces[n]? = some ['%']

/-- The text is cut into pieces for the characters of the pattern, in order, where a percent sign
that faces one of the text stands for it alone. -/
def FitsFacing (text pattern : List Char) : Prop :=
  ∃ pieces, List.Forall₂ Stands pattern pieces ∧ FacesAlone pattern pieces ∧ pieces.flatten = text

theorem facesAlone_cons {p : Char} {piece : List Char} {pieces : List (List Char)} :
    FacesAlone (p :: pattern) (piece :: pieces) ↔
      (p = '%' → (piece ++ pieces.flatten).head? = some '%' → piece = ['%']) ∧
        FacesAlone pattern pieces := by
  constructor
  · intro h
    exact ⟨fun hp hhead => Option.some.inj (h 0 (congrArg some hp) hhead), fun n => h (n + 1)⟩
  · rintro ⟨hfirst, hrest⟩ n hp hhead
    cases n with
    | zero => exact congrArg some (hfirst (Option.some.inj hp) hhead)
    | succ n => exact hrest n hp hhead

@[simp] theorem fitsFacing_nil : FitsFacing text [] ↔ text = [] := by
  rw [FitsFacing]
  simp only [List.forall₂_nil_left_iff]
  constructor
  · rintro ⟨_, rfl, -, rfl⟩
    rfl
  · rintro rfl
    exact ⟨[], rfl, fun n hp => by simp at hp, rfl⟩

/-- A percent sign of the pattern that faces one of the text stands for that one alone. -/
theorem fitsFacing_cons {p : Char} :
    FitsFacing text (p :: pattern) ↔ ∃ piece rest, text = piece ++ rest ∧ Stands p piece ∧
      (p = '%' → text.head? = some '%' → piece = ['%']) ∧ FitsFacing rest pattern := by
  constructor
  · rintro ⟨_, hpieces, hfacing, rfl⟩
    obtain ⟨piece, pieces, hpiece, hrest, rfl⟩ := List.forall₂_cons_left_iff.mp hpieces
    obtain ⟨hfirst, hothers⟩ := facesAlone_cons.mp hfacing
    exact ⟨piece, pieces.flatten, List.flatten_cons, hpiece, hfirst, pieces, hrest, hothers, rfl⟩
  · rintro ⟨piece, _, rfl, hpiece, hfirst, pieces, hrest, hothers, rfl⟩
    exact ⟨piece :: pieces, .cons hpiece hrest, facesAlone_cons.mpr ⟨hfirst, hothers⟩,
      List.flatten_cons⟩

theorem FitsFacing.fits (h : FitsFacing text pattern) : Fits text pattern := by
  obtain ⟨pieces, hpieces, -, hflatten⟩ := h
  exact ⟨pieces, hpieces, hflatten⟩

/-- In a text without percent signs nothing is faced. -/
theorem Fits.facing (h : '%' ∉ text) (hfits : Fits text pattern) : FitsFacing text pattern := by
  obtain ⟨pieces, hpieces, rfl⟩ := hfits
  refine ⟨pieces, hpieces, fun n _ hhead => absurd ?_ h, rfl⟩
  obtain ⟨piece, hpiece, hmem⟩ := List.mem_flatten.mp (List.mem_of_mem_head? hhead)
  exact List.mem_flatten.mpr ⟨piece, List.mem_of_mem_drop hpiece, hmem⟩

/-- In a pattern without percent signs nothing faces. -/
theorem Fits.facing_of_pattern (h : '%' ∉ pattern) (hfits : Fits text pattern) :
    FitsFacing text pattern := by
  obtain ⟨pieces, hpieces, hflatten⟩ := hfits
  exact ⟨pieces, hpieces, fun n hp => absurd (List.mem_of_getElem? hp) h, hflatten⟩

/-- Some end of the text fits the pattern, where percent signs that face each other belong
together. -/
def EndFitsFacing (text pattern : List Char) : Prop :=
  ∃ rest, rest <:+ text ∧ FitsFacing rest pattern

theorem EndFitsFacing.mono {other : List Char} (h : EndFitsFacing text pattern)
    (hsuffix : text <:+ other) : EndFitsFacing other pattern := by
  obtain ⟨rest, hrest, hfits⟩ := h
  exact ⟨rest, hrest.trans hsuffix, hfits⟩

/-- An end of the text is the text or an end of the rest. -/
theorem endFitsFacing_cons {c : Char} : EndFitsFacing (c :: text) pattern ↔
    FitsFacing (c :: text) pattern ∨ EndFitsFacing text pattern := by
  simp only [EndFitsFacing, List.suffix_cons_iff, or_and_right, exists_or, exists_eq_left]

theorem endFitsFacing_nil : EndFitsFacing [] pattern ↔ FitsFacing [] pattern := by
  simp [EndFitsFacing]

/-- The rest of a pattern fits an end of what the whole of it fits. -/
theorem FitsFacing.endFits_tail {p : Char} (h : FitsFacing text (p :: pattern)) :
    EndFitsFacing text pattern := by
  obtain ⟨piece, rest, rfl, -, -, hrest⟩ := fitsFacing_cons.mp h
  exact ⟨rest, List.suffix_append piece rest, hrest⟩

/-- A run that does not face a percent sign leaves any end of the text to the rest of the
pattern. -/
theorem fitsFacing_run (h : text.head? ≠ some '%') :
    FitsFacing text ('%' :: pattern) ↔ EndFitsFacing text pattern := by
  refine ⟨FitsFacing.endFits_tail, ?_⟩
  rintro ⟨rest, ⟨piece, rfl⟩, hrest⟩
  exact fitsFacing_cons.mpr
    ⟨piece, rest, rfl, fun hp => absurd rfl hp, fun _ hhead => absurd hhead h, hrest⟩

/-- A character of the pattern that stands for a character of the text, be it that both are percent
signs, stands for nothing else. -/
theorem fitsFacing_single {p c : Char} (h : p = '_' ∨ p = c) :
    FitsFacing (c :: text) (p :: pattern) ↔ FitsFacing text pattern := by
  rw [fitsFacing_cons]
  constructor
  · rintro ⟨piece, rest, heq, hpiece, hfacing, hrest⟩
    have hsingle : ∃ d, piece = [d] := by
      by_cases hp : p = '%'
      · obtain rfl : p = c := h.resolve_left (hp ▸ by decide)
        exact ⟨'%', hfacing hp (congrArg some hp)⟩
      · obtain ⟨d, hd, -⟩ := hpiece hp
        exact ⟨d, hd⟩
    obtain ⟨d, rfl⟩ := hsingle
    cases heq
    exact hrest
  · intro hrest
    refine ⟨[c], text, rfl, fun _ => ⟨c, rfl, h⟩, fun hp hhead => ?_, hrest⟩
    rw [Option.some.inj hhead]

theorem not_fitsFacing_of_ne {p c : Char} (hrun : p ≠ '%') (h : ¬(p = '_' ∨ p = c)) :
    ¬FitsFacing (c :: text) (p :: pattern) := by
  rw [fitsFacing_cons]
  rintro ⟨piece, rest, heq, hpiece, -, -⟩
  obtain ⟨d, rfl, hd⟩ := hpiece hrun
  cases heq
  exact h hd

/-- The end of a text fits only percent signs. -/
theorem fitsFacing_nil_iff : FitsFacing [] pattern ↔ pattern.all (· == '%') = true := by
  induction pattern with
  | nil => simp
  | cons p pattern ih =>
      by_cases hp : p = '%'
      · rw [hp, fitsFacing_run (by simp), endFitsFacing_nil, ih]
        simp
      · rw [fitsFacing_cons]
        simp [Stands, hp]

/-! ## The matcher -/

/-- What is left to match, if anything, can be matched. -/
def Progress.Leads : Progress → Prop
  | finished isMatch => isMatch = true
  | run text pattern => EndFitsFacing text pattern
  | mismatch => False

/-- The text fits exactly if matching its single characters leads on to what can be matched. -/
theorem leads_advance : (advance text pattern).Leads ↔ FitsFacing text pattern := by
  induction text generalizing pattern with
  | nil => exact fitsFacing_nil_iff.symm
  | cons c text ih =>
      cases pattern with
      | nil => simp [advance, Progress.Leads]
      | cons p pattern =>
          rw [advance]
          split
          next hpc => rw [ih, fitsFacing_single (by simpa using hpc)]
          next hpc =>
            have hpc : ¬(p = '_' ∨ p = c) := by simpa using hpc
            split
            next hp =>
              obtain rfl : p = '%' := by simpa using hp
              rw [fitsFacing_run fun hhead => hpc (.inr (by simpa using hhead.symm))]
              rfl
            next hp => exact (iff_false_right (not_fitsFacing_of_ne (by simpa using hp) hpc)).mpr id

/-- If an end of the text fits, so does what the matcher is left with, unless it met a mismatch. An
end that begins later leaves no more of the text to the rest of the pattern. -/
theorem leads_of_endFits (hadvance : advance text pattern ≠ .mismatch)
    (hends : EndFitsFacing text pattern) : (advance text pattern).Leads := by
  induction text generalizing pattern with
  | nil => exact fitsFacing_nil_iff.mp (endFitsFacing_nil.mp hends)
  | cons c text ih =>
      rcases endFitsFacing_cons.mp hends with hfits | ⟨rest, hrest, hfits⟩
      · exact leads_advance.mpr hfits
      cases pattern with
      | nil => exact absurd rfl hadvance
      | cons p pattern =>
          have htail : EndFitsFacing text pattern := hfits.endFits_tail.mono hrest
          rw [advance] at hadvance ⊢
          split
          next hpc =>
            rw [if_pos hpc] at hadvance
            exact ih hadvance htail
          next hpc =>
            rw [if_neg hpc] at hadvance
            split
            next hp => exact htail.mono (List.suffix_cons c text)
            next hp => simp [hp] at hadvance

/-- Where the matcher finishes, matching within the text has its result. -/
theorem matchesWithin_of_finished {isMatch : Bool}
    (h : advance text pattern = .finished isMatch) : matchesWithin text pattern = isMatch := by
  rw [matchesWithin]
  split
  next heq => exact Progress.finished.inj (heq.symm.trans h)
  next heq => cases heq.symm.trans h
  next heq => cases heq.symm.trans h

/-- Behind a percent sign the matcher looks for the rest of the pattern anywhere in the rest of the
text. -/
theorem matchesWithin_of_run {text' pattern' : List Char}
    (h : advance text pattern = .run text' pattern') :
    matchesWithin text pattern = matchesWithin text' pattern' := by
  rw [matchesWithin]
  split
  next heq => cases heq.symm.trans h
  next heq =>
    obtain ⟨rfl, rfl⟩ := Progress.run.inj (heq.symm.trans h)
    rfl
  next heq => cases heq.symm.trans h

theorem matchesWithin_of_mismatch {c : Char} (h : advance (c :: text) pattern = .mismatch) :
    matchesWithin (c :: text) pattern = matchesWithin text pattern := by
  rw [matchesWithin]
  split
  next heq => cases heq.symm.trans h
  next heq => cases heq.symm.trans h
  next heq => rfl

/-- Unless it meets a mismatch, the matcher is led to what can be matched exactly if an end of the
text fits. -/
theorem endFits_iff_leads (hadvance : advance text pattern ≠ .mismatch) :
    EndFitsFacing text pattern ↔ (advance text pattern).Leads :=
  ⟨leads_of_endFits hadvance, fun hleads => ⟨text, List.suffix_rfl, leads_advance.mp hleads⟩⟩

/-- Matching within a text decides whether some end of it fits. -/
theorem matchesWithin_iff_endFits :
    matchesWithin text pattern = true ↔ EndFitsFacing text pattern := by
  induction text, pattern using matchesWithin.induct with
  | case1 text pattern isMatch hadvance =>
      rw [matchesWithin_of_finished hadvance, endFits_iff_leads (by simp [hadvance]), hadvance]
      rfl
  | case2 text pattern text' pattern' hadvance ih =>
      rw [matchesWithin_of_run hadvance, endFits_iff_leads (by simp [hadvance]), hadvance]
      exact ih
  | case3 pattern hadvance => cases hadvance
  | case4 pattern c text hadvance ih =>
      have hnot : ¬FitsFacing (c :: text) pattern := by
        rw [← leads_advance, hadvance]
        exact id
      rw [matchesWithin_of_mismatch hadvance, endFitsFacing_cons, or_iff_right hnot]
      exact ih

/-- The matcher decides whether a text fits a pattern with percent signs that face each other
belonging together. -/
theorem isMatch_iff_fitsFacing : isMatch text pattern = true ↔ FitsFacing text pattern := by
  rw [← leads_advance, isMatch]
  split
  next hadvance => rw [hadvance, Progress.Leads]
  next hadvance => rw [hadvance, Progress.Leads, matchesWithin_iff_endFits]
  next hadvance => simp [hadvance, Progress.Leads]

/-- The matcher decides whether a text without percent signs fits a pattern. -/
theorem isMatch_iff_fits (h : '%' ∉ text) : isMatch text pattern = true ↔ Fits text pattern :=
  isMatch_iff_fitsFacing.trans ⟨FitsFacing.fits, Fits.facing h⟩

/-- The matcher finds exactly the cuts in which a percent sign of the pattern that faces one of the
text stands for it alone. So it takes nothing that does not fit, and it is right about a text and a
pattern exactly if, in case the text fits at all, it fits by such a cut, which it does if either of
them is without percent signs. -/
theorem isMatch_right_iff (text pattern : List Char) :
    (isMatch text pattern = true ↔ FitsFacing text pattern) ∧
    (isMatch text pattern = true → Fits text pattern) ∧
    ((isMatch text pattern = true ↔ Fits text pattern) ↔
      (Fits text pattern → FitsFacing text pattern)) ∧
    ('%' ∉ text ∨ '%' ∉ pattern → (isMatch text pattern = true ↔ Fits text pattern)) := by
  have hfound : isMatch text pattern = true ↔ FitsFacing text pattern := isMatch_iff_fitsFacing
  have hright : (isMatch text pattern = true ↔ Fits text pattern) ↔
      (Fits text pattern → FitsFacing text pattern) := by
    rw [hfound]
    exact ⟨Iff.mpr, fun h => ⟨FitsFacing.fits, h⟩⟩
  refine ⟨hfound, fun h => (hfound.mp h).fits, hright, fun h => hright.mpr fun hfits => ?_⟩
  exact h.elim (fun htext => hfits.facing htext) fun hpattern => hfits.facing_of_pattern hpattern

/-- The matcher is right about a text whose beginning looks like what follows the run, but breaks
off. -/
theorem isMatch_right_repeated : ('%' ∉ "aab".toList ∨ '%' ∉ "%ab".toList) ∧
    (isMatch "aab".toList "%ab".toList = true ↔ Fits "aab".toList "%ab".toList) :=
  ⟨.inl (by decide), (isMatch_right_iff _ _).2.2.2 (.inl (by decide))⟩

/-- A text that goes on behind a percent sign is not found by a pattern for what begins like it. -/
theorem not_isMatch_percent_sign :
    isMatch "a%b".toList "a%".toList = false ∧ Fits "a%b".toList "a%".toList := by
  refine ⟨by decide, [['a'], ['%', 'b']], ?_, rfl⟩
  exact .cons (fun _ => ⟨'a', rfl, .inr rfl⟩) (.cons (fun h => absurd rfl h) .nil)

end RowFilter.Pattern
