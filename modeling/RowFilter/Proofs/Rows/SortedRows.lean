import RowFilter.Proofs.Outcome
import RowFilter.Proofs.Rows.RowOrder

/-! # Sorted rows

Rows whose values under each key are of one kind, or NULL, are sorted by the first key under which
two of them differ, and rows that do not differ under any key stay in the order in which they came.
-/

namespace RowFilter

/-! ## Keys -/

theorem Text.cutOnce_of_notMem {separator : Char} {text : List Char} (h : separator ∉ text) :
    cutOnce separator text = none := by
  induction text with
  | nil => rfl
  | cons c rest ih =>
    rw [List.mem_cons, not_or] at h
    rw [cutOnce, if_neg (by simpa using Ne.symm h.1), ih h.2, Option.map_none]

/-- A text is cut where its first separator stands. -/
theorem Text.cutAt_cases (separator : Char) (text : String) :
    separator ∉ text.toList ∧ cutAt separator text = none ∨
    ∃ before after, separator ∉ before.toList ∧
      text = before ++ String.singleton separator ++ after ∧
      cutAt separator text = some (before, after) := by
  by_cases hmem : separator ∈ text.toList
  · obtain ⟨before, after, htext, hnot⟩ := List.eq_append_cons_of_mem hmem
    refine .inr ⟨String.ofList before, String.ofList after, ?_, ?_, ?_⟩
    · rwa [String.toList_ofList]
    · rw [← String.toList_inj, htext]
      simp
    · rw [cutAt, htext, cutOnce_append_cons hnot, Option.map_some]
  · refine .inl ⟨hmem, ?_⟩
    rw [cutAt, cutOnce_of_notMem hmem, Option.map_none]

/-- How an order is written behind the name of an attribute. -/
def SortOrder.word : SortOrder → String
  | ascending => "asc"
  | descending => "desc"

namespace SortKey

/-- A text that spells a key: the name of an attribute, alone or with a colon and the word of an
order. -/
inductive Spelled : String → SortKey → Prop where
  | name {name : String} (hne : name ≠ "") (hcolon : ':' ∉ name.toList) :
    Spelled name ⟨name, .ascending⟩
  | ordered {name word : String} {order : SortOrder} (hne : name ≠ "") (hcolon : ':' ∉ name.toList)
    (hword : Text.sameIgnoringCase word order.word = true) :
    Spelled (name ++ String.singleton ':' ++ word) ⟨name, order⟩

/-- What is parsed as a sort key spells it. -/
theorem spelled_of_parse? {text : String} {key : SortKey} (h : parse? text = some key) :
    Spelled text key := by
  have hnamed {name : String} {order : SortOrder}
      (hkey : (if name.isEmpty then none else some ⟨name, order⟩) = some key) :
      name ≠ "" ∧ ⟨name, order⟩ = key := by
    obtain ⟨hne, heq⟩ := Option.ite_none_left_eq_some.mp hkey
    exact ⟨by simpa using hne, Option.some.inj heq⟩
  unfold parse? at h
  obtain ⟨hnot, hcut⟩ | ⟨name, word, hnot, rfl, hcut⟩ := Text.cutAt_cases ':' text
  · rw [hcut] at h
    obtain ⟨hne, rfl⟩ := hnamed h
    exact .name hne hnot
  · rw [hcut] at h
    dsimp only at h
    split at h
    next hword =>
      obtain ⟨hne, rfl⟩ := hnamed h
      exact .ordered hne hnot hword
    next =>
      split at h
      next hword =>
        obtain ⟨hne, rfl⟩ := hnamed h
        exact .ordered hne hnot hword
      next => cases h

end SortKey

/-- Data that are accepted spell one key after another. -/
theorem Processor.spelled_of_sortKeys {data : Value} {keys : List SortKey}
    (h : sortKeys data = .ok keys) :
    List.Forall₂ (fun spec key => ∃ text, spec = .string text ∧ SortKey.Spelled text key)
      data.elements keys := by
  refine (mapM_eq_ok.mp h).imp fun spec key hkey => ?_
  unfold sortKey at hkey
  split at hkey
  next hparse =>
    cases hkey
    obtain ⟨text, htext, hspec⟩ := Option.bind_eq_some_iff.mp hparse
    cases spec with
    | string s =>
      cases htext
      exact ⟨_, rfl, SortKey.spelled_of_parse? hspec⟩
    | _ => cases htext
  next => cases hkey

/-! ## Values of one kind -/

/-- The kinds of values of which any two are in one order and level only if they are the same. -/
inductive SortableKind where
  | integer | string | date | boolean | bytes
deriving DecidableEq, Repr

namespace Value

def sortableKind? : Value → Option SortableKind
  | integer _ => some .integer
  | string _ => some .string
  | date _ => some .date
  | boolean _ => some .boolean
  | bytes _ => some .bytes
  | _ => none

/-- Whether a value is of a kind or NULL. -/
def FitsKind (kind : SortableKind) (value : Value) : Prop :=
  value = .null ∨ value.sortableKind? = some kind

instance (kind : SortableKind) (value : Value) : Decidable (FitsKind kind value) :=
  decidable_of_iff (value.isNull = true ∨ value.sortableKind? = some kind) <| by
    cases value <;> simp [FitsKind, isNull]

/-- The ascending order: NULL before all else, and values of one kind in their own order. -/
inductive Before : Value → Value → Prop where
  | null {value : Value} (h : value ≠ .null) : Before .null value
  | integer {m n : Int64} (h : m < n) : Before (.integer m) (.integer n)
  | string {s t : String} (h : s < t) : Before (.string s) (.string t)
  | date {m n : Int64} (h : m < n) : Before (.date m) (.date n)
  | boolean : Before (.boolean false) (.boolean true)
  | bytes {xs ys : Bytes} (h : xs < ys) : Before (.bytes xs) (.bytes ys)

theorem compare_bytes_eq_lt {xs ys : Bytes} : compare xs ys = .lt ↔ xs < ys := by
  induction xs generalizing ys with
  | nil => cases ys <;> simp [List.compare_nil_cons]
  | cons x xs ih =>
    cases ys with
    | nil => simp
    | cons y ys =>
      rw [List.compare_cons_cons, Ordering.then_eq_lt, Std.compare_eq_lt, Std.compare_eq_iff_eq, ih,
        List.cons_lt_cons_iff]

variable {kind : SortableKind} {a b c : Value}

/-- Any two values of a kind compare, by their order. -/
theorem compare?_of_sortableKind (ha : a.sortableKind? = some kind)
    (hb : b.sortableKind? = some kind) : ∃ ordering, a.compare? b = some ordering ∧
      (ordering = .lt ↔ Before a b) ∧ (ordering = .eq ↔ a = b) := by
  cases a <;> cases ha <;> cases b <;> cases hb
  case integer m n =>
    refine ⟨_, rfl, ?_, ?_⟩
    · rw [Int.compare_eq_lt, ← Int64.lt_iff_toInt_lt]
      exact ⟨.integer, fun | .integer h => h⟩
    · rw [Int.compare_eq_eq, Int64.toInt_inj, integer.injEq]
  case string s t =>
    refine ⟨_, rfl, ?_, ?_⟩
    · exact compareOfLessAndEq_eq_lt.trans ⟨.string, fun | .string h => h⟩
    · rw [Std.compare_eq_iff_eq, string.injEq]
  case date m n =>
    refine ⟨_, rfl, ?_, ?_⟩
    · rw [Int.compare_eq_lt, ← Int64.lt_iff_toInt_lt]
      exact ⟨.date, fun | .date h => h⟩
    · rw [Int.compare_eq_eq, Int64.toInt_inj, date.injEq]
  case boolean x y =>
    refine ⟨_, rfl, ⟨fun h => ?_, ?_⟩, ?_⟩
    · cases x <;> cases y <;> first | exact .boolean | cases h
    · rintro ⟨⟩
      rfl
    · rw [Std.compare_eq_iff_eq, boolean.injEq]
  case bytes xs ys =>
    refine ⟨_, rfl, ?_, ?_⟩
    · rw [compare_bytes_eq_lt]
      exact ⟨.bytes, fun | .bytes h => h⟩
    · rw [Std.compare_eq_iff_eq, bytes.injEq]

theorem not_before_null (value : Value) : ¬Before value .null := by
  rintro ⟨hne⟩
  exact hne rfl

theorem FitsKind.isNull_eq_false (h : FitsKind kind a) (hne : a ≠ .null) :
    a.sortableKind? = some kind ∧ a.isNull = false := by
  rcases h with rfl | h
  · exact absurd rfl hne
  · refine ⟨h, ?_⟩
    cases a <;> first | rfl | cases h

/-- Values of one kind or NULL are in the ascending order. -/
theorem FitsKind.compareValues_iff (ha : FitsKind kind a) (hb : FitsKind kind b) :
    (Row.compareValues a b = .lt ↔ Before a b) ∧ (Row.compareValues a b = .eq ↔ a = b) := by
  by_cases hna : a = .null
  · subst hna
    by_cases hnb : b = .null
    · subst hnb
      exact ⟨⟨nofun, fun h => absurd h (not_before_null _)⟩, ⟨fun _ => rfl, fun _ => rfl⟩⟩
    · obtain ⟨-, hnull⟩ := hb.isNull_eq_false hnb
      have hlt : Row.compareValues .null b = .lt := by
        rw [Row.compareValues, hnull]
        rfl
      rw [hlt]
      exact ⟨⟨fun _ => .null hnb, fun _ => rfl⟩, ⟨nofun, fun h => absurd h.symm hnb⟩⟩
  · obtain ⟨hkind, hnull⟩ := ha.isNull_eq_false hna
    by_cases hnb : b = .null
    · subst hnb
      have hgt : Row.compareValues a .null = .gt := by
        rw [Row.compareValues, hnull]
        rfl
      rw [hgt]
      exact ⟨⟨nofun, fun h => absurd h (not_before_null a)⟩, ⟨nofun, fun h => absurd h hna⟩⟩
    · obtain ⟨hkind', hnull'⟩ := hb.isNull_eq_false hnb
      obtain ⟨ordering, hcompare, hlt, heq⟩ := compare?_of_sortableKind hkind hkind'
      rw [Row.compareValues_of_notNull hnull hnull', hcompare]
      exact ⟨hlt, heq⟩

end Value

namespace SortOrder

/-- Whether one value stands before another in an order. On a descending key all else stands before
NULL. -/
def Before (order : SortOrder) (a b : Value) : Prop :=
  match order with
  | ascending => Value.Before a b
  | descending => Value.Before b a

/-- Values of one kind are ordered as the kind is, and level only if they are the same. -/
theorem apply_compareValues_iff {kind : SortableKind} {a b : Value} (order : SortOrder)
    (ha : a.FitsKind kind) (hb : b.FitsKind kind) :
    (order.apply (Row.compareValues a b) = .lt ↔ order.Before a b) ∧
      (order.apply (Row.compareValues a b) = .eq ↔ a = b) := by
  cases order with
  | ascending => exact ha.compareValues_iff hb
  | descending =>
    obtain ⟨hlt, heq⟩ := hb.compareValues_iff ha
    have hswap : apply descending (Row.compareValues a b) = Row.compareValues b a :=
      Std.OrientedCmp.eq_swap.symm
    rw [hswap, hlt, heq]
    exact ⟨Iff.rfl, eq_comm⟩

end SortOrder

/-! ## Rows -/

namespace Row

/-- Whether the values of rows under a property are of one kind or NULL. -/
def HasOneKind (rows : List Row) (property : String) : Prop :=
  ∃ kind, ∀ row ∈ rows, (row.value property).FitsKind kind

/-- Whether two rows have the same values under some keys. -/
def Agree (keys : List SortKey) (a b : Row) : Prop :=
  ∀ key ∈ keys, a.value key.property = b.value key.property

/-- Whether a row stands before another: it does under some key, and under those before it the two
have the same values. -/
def Before (keys : List SortKey) (a b : Row) : Prop :=
  ∃ earlier key later, keys = earlier ++ key :: later ∧ Agree earlier a b ∧
    key.order.Before (a.value key.property) (b.value key.property)

theorem not_before_nil (a b : Row) : ¬Before [] a b := by
  rintro ⟨earlier, key, later, hkeys, -⟩
  cases earlier <;> cases hkeys

/-- A row is before another by its first key, or by the next ones if it agrees in the first. -/
theorem before_cons_iff (key : SortKey) (keys : List SortKey) (a b : Row) :
    Before (key :: keys) a b ↔ key.order.Before (a.value key.property) (b.value key.property) ∨
      a.value key.property = b.value key.property ∧ Before keys a b := by
  constructor
  · rintro ⟨earlier, other, later, hkeys, hagree, hbefore⟩
    cases earlier with
    | nil =>
      cases hkeys
      exact .inl hbefore
    | cons first rest =>
      cases hkeys
      rw [Agree, List.forall_mem_cons] at hagree
      exact .inr ⟨hagree.1, rest, other, later, rfl, hagree.2, hbefore⟩
  · rintro (hbefore | ⟨hvalue, earlier, other, later, rfl, hagree, hbefore⟩)
    · exact ⟨[], key, keys, rfl, nofun, hbefore⟩
    · refine ⟨key :: earlier, other, later, rfl, ?_, hbefore⟩
      rw [Agree, List.forall_mem_cons]
      exact ⟨hvalue, hagree⟩

variable {rows : List Row} {keys : List SortKey} {a b : Row}

/-- Rows whose values are of one kind under each key compare by the first key under which they
differ. -/
theorem compareKeys_iff (h : ∀ key ∈ keys, HasOneKind rows key.property) (ha : a ∈ rows)
    (hb : b ∈ rows) : (compareKeys keys a b = .lt ↔ Before keys a b) ∧
      (compareKeys keys a b = .eq ↔ Agree keys a b) := by
  induction keys with
  | nil =>
    exact ⟨⟨nofun, fun h => absurd h (not_before_nil a b)⟩, ⟨nofun, fun _ => rfl⟩⟩
  | cons key rest ih =>
    rw [List.forall_mem_cons] at h
    obtain ⟨⟨kind, hkind⟩, hrest⟩ := h
    obtain ⟨hlt, heq⟩ := key.order.apply_compareValues_iff (hkind a ha) (hkind b hb)
    obtain ⟨hltRest, heqRest⟩ := ih hrest
    rw [compareKeys, compareKey_eq, Ordering.then_eq_lt, Ordering.then_eq_eq, hlt, heq, hltRest,
      heqRest, before_cons_iff, Agree, Agree, List.forall_mem_cons]
    exact ⟨Iff.rfl, Iff.rfl⟩

theorem consistent_of_hasOneKind {property : String} (h : HasOneKind rows property) :
    Consistent (presentValues { row | row ∈ rows } property) := by
  obtain ⟨kind, hkind⟩ := h
  have hsortable : ∀ value ∈ presentValues { row | row ∈ rows } property,
      value.sortableKind? = some kind := by
    rintro _ ⟨hnull, row, hrow, rfl⟩
    refine ((hkind row hrow).isNull_eq_false ?_).1
    intro heq
    rw [heq] at hnull
    cases hnull
  constructor
  · intro a ha b hb c hc hac hbc
    obtain ⟨_, hcompare, -, heq⟩ := Value.compare?_of_sortableKind (hsortable a ha) (hsortable c hc)
    obtain ⟨_, hcompare', -, heq'⟩ :=
      Value.compare?_of_sortableKind (hsortable b hb) (hsortable c hc)
    obtain rfl := heq.mp (Option.some.inj (hcompare.symm.trans hac))
    obtain rfl := heq'.mp (Option.some.inj (hcompare'.symm.trans hbc))
    exact Std.ReflCmp.compare_self
  · intro a ha b hb c hc hac
    obtain ⟨_, hcompare, -⟩ := Value.compare?_of_sortableKind (hsortable a ha) (hsortable c hc)
    rw [hcompare] at hac
    cases hac

/-- Rows whose values are of one kind under each key are in order. -/
theorem transCmp_compareKeys_of_hasOneKind (h : ∀ key ∈ keys, HasOneKind rows key.property) :
    Std.TransCmp fun i j : Fin rows.length => compareKeys keys (rows.get i) (rows.get j) := by
  have htrans : Std.TransCmp fun a b : { row | row ∈ rows } => compareKeys keys a b :=
    transCmp_compareKeys fun key hkey => consistent_of_hasOneKind (h key hkey)
  exact
    { eq_swap := Std.OrientedCmp.eq_swap
      isLE_trans := fun {i j k} => htrans.isLE_trans (a := ⟨rows.get i, List.get_mem rows i⟩)
        (b := ⟨rows.get j, List.get_mem rows j⟩) (c := ⟨rows.get k, List.get_mem rows k⟩) }

end Row

/-- Sorting puts rows whose values are of one kind under each key in the order of the keys that the
data spell, and where rows agree under all of them in the order in which they came. -/
theorem process_sort_positions {rows : List Row} {data : Value} {keys : List SortKey} (now : Int64)
    (hkeys : Processor.sortKeys data = .ok keys)
    (hkinds : ∀ key ∈ keys, Row.HasOneKind rows key.property) :
    List.Forall₂ (fun spec key => ∃ text, spec = .string text ∧ SortKey.Spelled text key)
      data.elements keys ∧
    ∃ positions : List (Fin rows.length), positions.Perm (List.finRange rows.length) ∧
      Processor.sort.process now data rows = ⟨positions.map rows.get, none⟩ ∧
      (positions.map rows.get).Perm rows ∧
      positions.Pairwise fun i j => Row.Before keys (rows.get i) (rows.get j) ∨
        Row.Agree keys (rows.get i) (rows.get j) ∧ i < j := by
  have horder := Row.transCmp_compareKeys_of_hasOneKind hkinds
  obtain ⟨positions, hperm, hsort, hpairwise⟩ := Sorting.exists_positions horder
  refine ⟨Processor.spelled_of_sortKeys hkeys, positions, hperm, ?_, ?_, hpairwise.imp ?_⟩
  · simp only [Processor.process, hkeys, hsort]
  · rw [← hsort]
    exact Sorting.perm_sort _ _
  · intro i j hprecedes
    obtain ⟨hlt, heq⟩ := Row.compareKeys_iff hkinds (List.get_mem rows i) (List.get_mem rows j)
    rwa [Sorting.Precedes, hlt, heq] at hprecedes

/-- Five persons, of whom one has no age and one has no name. -/
def persons : List Row :=
  [[("age", .integer 30), ("id", .integer 1), ("name", .string "Ada")],
    [("age", .integer 30), ("id", .integer 2)],
    [("id", .integer 3), ("name", .string "Max")],
    [("age", .integer 30), ("id", .integer 4), ("name", .string "Bob")],
    [("age", .integer 30), ("id", .integer 5), ("name", .string "Ada")]]

/-- The sort data `["age", "name:DESC"]` put the person without an age first and the one without a
name last, and leave the two called Ada as they came. -/
theorem process_sort_positions_persons :
    let data : Value := .collection [.string "age", .string "name:DESC"]
    let keys : List SortKey := [⟨"age", .ascending⟩, ⟨"name", .descending⟩]
    List.Forall₂ (fun spec key => ∃ text, spec = .string text ∧ SortKey.Spelled text key)
      data.elements keys ∧
    ∃ positions : List (Fin persons.length), positions.Perm (List.finRange persons.length) ∧
      Processor.sort.process 0 data persons = ⟨positions.map persons.get, none⟩ ∧
      (positions.map persons.get).Perm persons ∧
      positions.Pairwise fun i j => Row.Before keys (persons.get i) (persons.get j) ∨
        Row.Agree keys (persons.get i) (persons.get j) ∧ i < j := by
  refine process_sort_positions 0 rfl ?_
  rw [List.forall_mem_cons, List.forall_mem_singleton]
  exact ⟨⟨.integer, by decide⟩, ⟨.string, by decide⟩⟩

example : (Processor.sort.process 0 (.collection [.string "age", .string "name:DESC"])
    persons).rows.map (Row.value · "id") =
      [.integer 3, .integer 4, .integer 1, .integer 5, .integer 2] := by
  rfl

end RowFilter
