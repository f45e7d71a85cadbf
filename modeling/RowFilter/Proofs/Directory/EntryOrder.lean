import Mathlib.Data.Set.Basic
import RowFilter.Directory.Server
import RowFilter.Proofs.Number.IntegerRounding
import RowFilter.Proofs.Sorting

/-! # The order of entries

Entries compare by the values of their keys, and two values compare as integers, as numbers or as
text, whichever both of them are. Each of these is an order, but what is between two values in one
of them need not be in another, and then the comparison is none. The values on which it is an order
are those where the three agree.
-/

namespace RowFilter.Directory

/-! ## Values -/

/-- The integer that a raw value is written as. -/
def integer? (raw : Bytes) : Option Int :=
  (Number.readInt64? (Text.trim (Text.decodeLossy raw))).map Int64.toInt

/-- The place among all numbers of the one that a raw value is written as. -/
def place? (raw : Bytes) : Option Int :=
  (Number.readFloat? (Text.trim (Text.decodeLossy raw))).bind fun x =>
    if x.isNaN then none else some x.rank

variable {a b c : Bytes} {m n x y z : Int}

/-- An integer is a number. -/
theorem exists_place? (h : integer? a = some m) : ∃ n : Int64, m = n.toInt ∧
    place? a = some (Number.Binary64.ofInt64 n).rank := by
  obtain ⟨n, hread, rfl⟩ := Option.map_eq_some_iff.mp h
  obtain ⟨x, hfloat, hnan, hrank⟩ := Number.Binary64.readFloat?_of_readInt64? hread
  refine ⟨n, rfl, ?_⟩
  rw [place?, hfloat, Option.bind_some, hnan, if_neg Bool.false_ne_true, hrank]

/-- Of two texts of integers, the smaller integer is not placed after the larger. -/
theorem place_le_of_integer_le (ha : integer? a = some m) (hb : integer? b = some n)
    (hx : place? a = some x) (hy : place? b = some y) (hle : m ≤ n) : x ≤ y := by
  obtain ⟨m, rfl, hplace⟩ := exists_place? ha
  obtain ⟨n, rfl, hplace'⟩ := exists_place? hb
  obtain rfl := Option.some.inj (hplace.symm.trans hx)
  obtain rfl := Option.some.inj (hplace'.symm.trans hy)
  exact Number.Binary64.rank_ofInt64_mono hle

/-- The order of two places, if both are there. -/
def comparePlaces? : Option Int → Option Int → Option Ordering
  | some x, some y => some (compare x y)
  | _, _ => none

theorem comparePlaces?_place? (a b : Bytes) : comparePlaces? (place? a) (place? b) =
    match Number.readFloat? (Text.trim (Text.decodeLossy a)),
      Number.readFloat? (Text.trim (Text.decodeLossy b)) with
    | some x, some y => x.compare? y
    | _, _ => none := by
  unfold place?
  cases Number.readFloat? (Text.trim (Text.decodeLossy a)) with
  | none => rfl
  | some x =>
    cases Number.readFloat? (Text.trim (Text.decodeLossy b)) with
    | none =>
      rw [Option.bind_some, Option.bind_none]
      split <;> rfl
    | some y =>
      simp only [Option.bind_some, Number.Binary64.compare?]
      cases x.isNaN <;> cases y.isNaN <;> rfl

/-- Values are compared as numbers by their integers, or else by the places of their floats. -/
theorem compareNumbers?_decodeLossy (a b : Bytes) :
    compareNumbers? (Text.decodeLossy a) (Text.decodeLossy b) =
      match integer? a, integer? b with
      | some m, some n => some (compare m n)
      | _, _ => comparePlaces? (place? a) (place? b) := by
  rw [comparePlaces?_place?]
  unfold compareNumbers? integer?
  cases Number.readInt64? (Text.trim (Text.decodeLossy a)) <;>
    cases Number.readInt64? (Text.trim (Text.decodeLossy b)) <;> rfl

/-- Two values that are both written as integers are compared as integers. -/
theorem compareRaw_of_integers (ha : integer? a = some m) (hb : integer? b = some n) :
    compareRaw a b = compare m n := by
  simp only [compareRaw, compareNumbers?_decodeLossy, ha, hb]

theorem compareRaw_of_places (hx : place? a = some x) (hy : place? b = some y)
    (hnot : integer? a = none ∨ integer? b = none) : compareRaw a b = compare x y := by
  simp only [compareRaw, compareNumbers?_decodeLossy, hx, hy, comparePlaces?]
  cases ha : integer? a <;> cases hb : integer? b <;> simp_all

/-- Where one value is no number, both are compared as texts. -/
theorem compareRaw_of_text (h : place? a = none ∨ place? b = none) :
    compareRaw a b = compare (foldedText a) (foldedText b) := by
  have hinteger {raw : Bytes} (hnone : place? raw = none) : integer? raw = none := by
    cases hread : integer? raw with
    | none => rfl
    | some n =>
      obtain ⟨_, _, hplace⟩ := exists_place? hread
      simp [hnone] at hplace
  have hplaces : comparePlaces? (place? a) (place? b) = none := by
    rcases h with h | h <;> rw [h]
    · rfl
    · cases place? a <;> rfl
  simp only [compareRaw, compareNumbers?_decodeLossy, hplaces]
  rcases h with h | h <;> rw [hinteger h]
  · rfl
  · cases integer? a <;> rfl

/-- Two values are compared in one of three ways. -/
theorem compared_cases (a b : Bytes) :
    (place? a = none ∨ place? b = none) ∨
    (∃ m n, integer? a = some m ∧ integer? b = some n) ∨
    ∃ x y, place? a = some x ∧ place? b = some y ∧ (integer? a = none ∨ integer? b = none) := by
  cases place? a <;> cases place? b <;> cases integer? a <;> cases integer? b <;> simp

instance : Std.OrientedCmp compareRaw where
  eq_swap {a b} := by
    obtain htext | ⟨m, n, ha, hb⟩ | ⟨x, y, hx, hy, hnot⟩ := compared_cases a b
    · rw [compareRaw_of_text htext, compareRaw_of_text htext.symm]
      exact Std.OrientedOrd.eq_swap
    · rw [compareRaw_of_integers ha hb, compareRaw_of_integers hb ha]
      exact Std.OrientedOrd.eq_swap
    · rw [compareRaw_of_places hx hy hnot, compareRaw_of_places hy hx hnot.symm]
      exact Std.OrientedOrd.eq_swap

/-- A number that is not greater than another comes in no later place. -/
theorem place_le_of_isLE (hx : place? a = some x) (hy : place? b = some y)
    (hle : (compareRaw a b).isLE = true) : x ≤ y := by
  obtain htext | ⟨m, n, ha, hb⟩ | ⟨_, _, hx', hy', hnot⟩ := compared_cases a b
  · simp [hx, hy] at htext
  · rw [compareRaw_of_integers ha hb, Std.isLE_compare] at hle
    exact place_le_of_integer_le ha hb hx hy hle
  · rw [compareRaw_of_places hx hy hnot, Std.isLE_compare] at hle
    exact hle

/-! ## Where values are in order -/

/-- The three ways of comparing agree about the values. -/
structure Consistent (values : Set Bytes) : Prop where
  /-- No number but an integer has the place of two integers. -/
  integers : ∀ a ∈ values, ∀ b ∈ values, ∀ c ∈ values, ∀ m n, integer? a = some m →
    integer? b = some n → integer? c = none → place? c = place? a → place? c = place? b → m = n
  /-- What is no number stands between two numbers as text only in their order, or all three are
  level. -/
  texts : ∀ a ∈ values, ∀ b ∈ values, ∀ c ∈ values, place? a ≠ none → place? b ≠ none →
    place? c = none → (compareRaw a b).isLE = true →
    (compare (foldedText b) (foldedText c)).isLE = true →
    (compare (foldedText c) (foldedText a)).isLE = true →
      compareRaw a b = .eq ∧ foldedText a = foldedText b

variable {values : Set Bytes}

/-- Comparing as texts is transitive. -/
theorem isLE_trans_of_text (hab : place? a = none ∨ place? b = none)
    (hbc : place? b = none ∨ place? c = none) (hac : place? a = none ∨ place? c = none)
    (hle : (compareRaw a b).isLE = true) (hle' : (compareRaw b c).isLE = true) :
    (compareRaw a c).isLE = true := by
  rw [compareRaw_of_text hab] at hle
  rw [compareRaw_of_text hbc] at hle'
  rw [compareRaw_of_text hac]
  exact Std.TransOrd.isLE_trans hle hle'

/-- Two numbers and a text are level if they go round in a circle. -/
theorem Consistent.eq_of_text (h : Consistent values) (ha : a ∈ values) (hb : b ∈ values)
    (hc : c ∈ values) (hx : place? a = some x) (hy : place? b = some y) (hz : place? c = none)
    (hab : (compareRaw a b).isLE = true) (hbc : (compareRaw b c).isLE = true)
    (hca : (compareRaw c a).isLE = true) :
    compareRaw a b = .eq ∧ compareRaw b c = .eq ∧ compareRaw c a = .eq := by
  rw [compareRaw_of_text (.inr hz)] at hbc ⊢
  rw [compareRaw_of_text (.inl hz)] at hca ⊢
  obtain ⟨hlevel, hfolded⟩ := h.texts a ha b hb c hc (by simp [hx]) (by simp [hy]) hz hab hbc hca
  rw [hfolded] at hca ⊢
  have heq := Std.OrientedCmp.isLE_antisymm hbc hca
  exact ⟨hlevel, heq, Std.OrientedCmp.eq_symm heq⟩

/-- Numbers are compared in their order, since equal places do not bring integers together. -/
theorem Consistent.isLE_trans_of_places (h : Consistent values) (ha : a ∈ values)
    (hb : b ∈ values) (hc : c ∈ values) (hx : place? a = some x) (hy : place? b = some y)
    (hz : place? c = some z) (hab : (compareRaw a b).isLE = true)
    (hbc : (compareRaw b c).isLE = true) : (compareRaw a c).isLE = true := by
  have hxy := place_le_of_isLE hx hy hab
  have hyz := place_le_of_isLE hy hz hbc
  obtain htext | ⟨m, n, hm, hn⟩ | ⟨_, _, -, -, hnot⟩ := compared_cases a c
  · simp [hx, hz] at htext
  · rw [compareRaw_of_integers hm hn, Std.isLE_compare]
    cases hk : integer? b with
    | some k =>
      rw [compareRaw_of_integers hm hk, Std.isLE_compare] at hab
      rw [compareRaw_of_integers hk hn, Std.isLE_compare] at hbc
      exact hab.trans hbc
    | none =>
      by_contra hlt
      have hzx := place_le_of_integer_le hn hm hz hx (Int.le_of_not_le hlt)
      have hequal := h.integers a ha c hc b hb m n hm hn hk (by rw [hy, hx]; congr 1; omega)
        (by rw [hy, hz]; congr 1; omega)
      exact hlt hequal.le
  · rw [compareRaw_of_places hx hz hnot, Std.isLE_compare]
    exact hxy.trans hyz

/-- Among consistent values no way of comparing contradicts the others. -/
theorem Consistent.isLE_trans (h : Consistent values) (ha : a ∈ values) (hb : b ∈ values)
    (hc : c ∈ values) (hab : (compareRaw a b).isLE = true) (hbc : (compareRaw b c).isLE = true) :
    (compareRaw a c).isLE = true := by
  -- Otherwise the three go round in a circle, and it is no matter at which of them it begins.
  by_contra hnot
  have hca : (compareRaw c a).isLE = true := by
    rw [Std.OrientedCmp.lt_of_not_isLE hnot]
    rfl
  have hlevel (heq : compareRaw c a = .eq) : (compareRaw a c).isLE = true := by
    rw [Std.OrientedCmp.eq_symm heq]
    rfl
  apply hnot
  cases hx : place? a with
  | none =>
    cases hz : place? c with
    | none => exact isLE_trans_of_text (.inl hx) (.inr hz) (.inl hx) hab hbc
    | some z =>
      cases hy : place? b with
      | none => exact isLE_trans_of_text (.inl hx) (.inl hy) (.inl hx) hab hbc
      | some y => exact hlevel (h.eq_of_text hb hc ha hy hz hx hbc hca hab).2.1
  | some x =>
    cases hy : place? b with
    | none =>
      cases hz : place? c with
      | none => exact isLE_trans_of_text (.inr hy) (.inl hy) (.inr hz) hab hbc
      | some z => exact hlevel (h.eq_of_text hc ha hb hz hx hy hca hab hbc).1
    | some y =>
      cases hz : place? c with
      | none => exact hlevel (h.eq_of_text ha hb hc hx hy hz hab hbc hca).2.2
      | some z => exact h.isLE_trans_of_places ha hb hc hx hy hz hab hbc

/-- The values are in order exactly if the ways of comparing them agree. -/
theorem consistent_iff_transCmp :
    Consistent values ↔ Std.TransCmp fun a b : values => compareRaw a b := by
  have horiented : Std.OrientedCmp fun a b : values => compareRaw a b :=
    ⟨Std.OrientedCmp.eq_swap⟩
  constructor
  · intro h
    exact ⟨fun {a b c} => h.isLE_trans a.2 b.2 c.2⟩
  · intro h
    have htrans {a b c : Bytes} (ha : a ∈ values) (hb : b ∈ values) (hc : c ∈ values) :
        (compareRaw a b).isLE = true → (compareRaw b c).isLE = true →
          (compareRaw a c).isLE = true :=
      h.isLE_trans (a := ⟨a, ha⟩) (b := ⟨b, hb⟩) (c := ⟨c, hc⟩)
    constructor
    · intro a ha b hb c hc m n hm hn hnone hplace hplace'
      obtain ⟨_, _, hx⟩ := exists_place? hm
      obtain ⟨_, _, hy⟩ := exists_place? hn
      have hac : compareRaw a c = .eq := by
        rw [compareRaw_of_places hx (hplace.trans hx) (.inr hnone), Std.ReflOrd.compare_self]
      have hbc : compareRaw b c = .eq := by
        rw [compareRaw_of_places hy (hplace'.trans hy) (.inr hnone), Std.ReflOrd.compare_self]
      have hab := htrans ha hc hb (by rw [hac]; rfl) (by rw [Std.OrientedCmp.eq_symm hbc]; rfl)
      have hba := htrans hb hc ha (by rw [hbc]; rfl) (by rw [Std.OrientedCmp.eq_symm hac]; rfl)
      rw [compareRaw_of_integers hm hn, Std.isLE_compare] at hab
      rw [compareRaw_of_integers hn hm, Std.isLE_compare] at hba
      exact Int.le_antisymm hab hba
    · intro a ha b hb c hc hx hy hz hab hbc hca
      have hbc' : (compareRaw b c).isLE = true := by rwa [compareRaw_of_text (.inr hz)]
      have hca' : (compareRaw c a).isLE = true := by rwa [compareRaw_of_text (.inl hz)]
      have hac := htrans ha hb hc hab hbc'
      have hcb := htrans hc ha hb hca' hab
      rw [compareRaw_of_text (.inr hz)] at hac
      rw [compareRaw_of_text (.inl hz)] at hcb
      have hfolded := Std.LawfulEqOrd.eq_of_compare (Std.OrientedCmp.isLE_antisymm hac hca)
      have hfolded' := Std.LawfulEqOrd.eq_of_compare (Std.OrientedCmp.isLE_antisymm hcb hbc)
      exact ⟨Std.OrientedCmp.isLE_antisymm hab (htrans hb hc ha hbc' hca'), hfolded.trans hfolded'⟩

/-! ## Entries -/

/-- The first value of an attribute, by which entries compare. -/
def Entry.first? (entry : Entry) (name : String) : Option Bytes :=
  (entry.values? name).bind List.head?

/-- The first values that entries have of an attribute. -/
def firstValues (entries : Set Entry) (name : String) : Set Bytes :=
  { value | ∃ entry ∈ entries, entry.first? name = some value }

/-- The order of first values, one that is missing after the others. -/
def compareFirst : Option Bytes → Option Bytes → Ordering
  | some a, some b => compareRaw a b
  | some _, none => .lt
  | none, some _ => .gt
  | none, none => .eq

theorem compareEntriesBy_eq (key : SortKey) (a b : Entry) : compareEntriesBy key a b =
    key.order.apply (compareFirst (a.first? key.property) (b.first? key.property)) :=
  rfl

instance : Std.OrientedCmp compareFirst where
  eq_swap {a b} := by
    cases a with
    | none => cases b <;> rfl
    | some x =>
      cases b with
      | none => rfl
      | some y => exact (Std.OrientedCmp.eq_swap : compareRaw x y = _)

variable {entries : Set Entry}

/-- Entries are ordered by their first values if these are consistent. -/
theorem transCmp_compareFirst {name : String} (h : Consistent (firstValues entries name)) :
    Std.TransCmp fun a b : entries => compareFirst (a.1.first? name) (b.1.first? name) where
  eq_swap := Std.OrientedCmp.eq_swap
  isLE_trans {a b c} hab hbc := by
    cases hz : c.1.first? name with
    | none => cases a.1.first? name <;> rfl
    | some z =>
      rw [hz] at hbc
      cases hy : b.1.first? name with
      | none => simp [hy, compareFirst] at hbc
      | some y =>
        rw [hy] at hab hbc
        cases hx : a.1.first? name with
        | none => simp [hx, compareFirst] at hab
        | some x =>
          rw [hx] at hab
          exact h.isLE_trans ⟨a, a.2, hx⟩ ⟨b, b.2, hy⟩ ⟨c, c.2, hz⟩ hab hbc

theorem transCmp_compareEntriesBy {key : SortKey}
    (h : Consistent (firstValues entries key.property)) :
    Std.TransCmp fun a b : entries => compareEntriesBy key a b := by
  have hfirst := transCmp_compareFirst h
  have happly : (fun a b : entries => compareEntriesBy key a b) = fun a b =>
      key.order.apply (compareFirst (a.1.first? key.property) (b.1.first? key.property)) := rfl
  rw [happly]
  exact SortOrder.transCmp_apply key.order

/-- Sorting by several keys is an order if the first values of each are consistent. -/
theorem transCmp_compareEntries {keys : List SortKey}
    (h : ∀ key ∈ keys, Consistent (firstValues entries key.property)) :
    Std.TransCmp fun a b : entries => compareEntries keys a b := by
  let byKeys (keys : List SortKey) (a b : entries) : Ordering := compareEntries keys a b
  have hcons (key : SortKey) (rest : List SortKey) (a b : entries) :
      byKeys (key :: rest) a b = (compareEntriesBy key a b).then (byKeys rest a b) := rfl
  exact transCmp_byKeys (fun _ _ => rfl) hcons fun key hkey =>
    transCmp_compareEntriesBy (h key hkey)

instance (key : SortKey) : Std.OrientedCmp (compareEntriesBy key) where
  eq_swap {a b} := by
    rw [compareEntriesBy_eq, compareEntriesBy_eq, ← SortOrder.apply_swap, ← Std.OrientedCmp.eq_swap]

instance (keys : List SortKey) : Std.OrientedCmp (compareEntries keys) :=
  orientedCmp_byKeys (fun _ _ => rfl) (fun _ _ _ _ => rfl) fun _ _ => inferInstance

theorem compareEntries_swap (keys : List SortKey) (a b : Entry) :
    compareEntries keys a b = (compareEntries keys b a).swap :=
  Std.OrientedCmp.eq_swap

/-- One ascending key orders entries as it orders their first values. -/
theorem compareEntries_singleton {name : String} {first second : Entry}
    (ha : first.first? name = some a) (hb : second.first? name = some b) :
    compareEntries [⟨name, .ascending⟩] first second = compareRaw a b := by
  rw [compareEntries, compareEntries, Ordering.then_eq, compareEntriesBy_eq, ha, hb]
  rfl

/-- Entries compare as equal to themselves and the other way round when they change places, and
"not greater" passes on exactly where the ways of comparing first values agree. -/
theorem compareEntries_preorder_iff (properties : Set String) (entries : Set Entry) :
    (∀ keys a, compareEntries keys a a = .eq) ∧
    (∀ keys a b, compareEntries keys a b = (compareEntries keys b a).swap) ∧
    ((∀ keys, (∀ key ∈ keys, key.property ∈ properties) →
      ∀ a ∈ entries, ∀ b ∈ entries, ∀ c ∈ entries, (compareEntries keys a b).isLE = true →
        (compareEntries keys b c).isLE = true → (compareEntries keys a c).isLE = true) ↔
      ∀ property ∈ properties, Consistent (firstValues entries property)) := by
  refine ⟨fun keys a => Std.ReflCmp.compare_self, compareEntries_swap,
    fun h property hproperty => ?_, fun h keys hkeys a ha b hb c hc => ?_⟩
  · refine consistent_iff_transCmp.mpr
      { eq_swap := Std.OrientedCmp.eq_swap, isLE_trans := fun {a b c} hab hbc => ?_ }
    obtain ⟨_, first, hfirst, ha⟩ := a
    obtain ⟨_, second, hsecond, hb⟩ := b
    obtain ⟨_, third, hthird, hc⟩ := c
    have htrans := h [⟨property, .ascending⟩] (by simpa using hproperty) first hfirst second hsecond
      third hthird
    rw [compareEntries_singleton ha hb, compareEntries_singleton hb hc,
      compareEntries_singleton ha hc] at htrans
    exact htrans hab hbc
  · have htrans := transCmp_compareEntries fun key hkey => h key.property (hkeys key hkey)
    exact htrans.isLE_trans (a := ⟨a, ha⟩) (b := ⟨b, hb⟩) (c := ⟨c, hc⟩)

/-- An entry with one value of one attribute. -/
def levelEntry (value : String) : Entry :=
  ⟨"cn=" ++ value, [("level", [Text.encode value.toList])]⟩

/-- 10 comes before 1a and 1a before 9 as text, but 9 comes before 10 as an integer. -/
theorem not_transitive_compareEntries : ¬∀ keys a b c, (compareEntries keys a b).isLE = true →
    (compareEntries keys b c).isLE = true → (compareEntries keys a c).isLE = true := by
  intro h
  have hcircle := h [⟨"level", .ascending⟩] (levelEntry "10") (levelEntry "1a") (levelEntry "9")
    (by decide +kernel) (by decide +kernel)
  exact absurd hcircle (by decide +kernel)

end RowFilter.Directory
