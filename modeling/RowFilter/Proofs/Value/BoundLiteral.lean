import RowFilter.Proofs.Expr.Comparison
import RowFilter.Proofs.Number.IntegerRounding
import RowFilter.Proofs.Value.Coercion

/-! # Bound literals

A backend compares a row with a literal converted to the type of the attribute, evaluation with the
literal itself. Both compare alike if the literal has the type of the row already, or is a text that
is read as that type. A literal of another type is converted for the backend only, so evaluation may
order it otherwise or not at all.
-/

namespace RowFilter

open Number

namespace Value

/-! ## What conversion gives -/

section

variable {target : ValueType} {value coerced : Value}

theorem type_of_toBoolean? (h : value.toBoolean? = some coerced) : coerced.type = .boolean := by
  unfold toBoolean? at h
  grind [type]

theorem type_of_toNumber? (h : value.toNumber? = some coerced) : coerced.type = .number := by
  unfold toNumber? readNumber? at h
  grind [type]

theorem type_of_toString? (h : value.toString? = some coerced) : coerced.type = .string := by
  unfold toString? at h
  grind [type, Option.map_eq_some_iff]

theorem type_of_toDate? (h : value.toDate? = some coerced) : coerced.type = .date := by
  unfold toDate? at h
  grind [type, Option.map_eq_some_iff]

/-- A value converted to a type has that type. -/
theorem type_of_coerce? (hnull : value.isNull = false) (hany : target ≠ .any)
    (h : value.coerce? target = some coerced) : coerced.type = target := by
  unfold coerce? at h
  rw [hnull, if_neg Bool.false_ne_true] at h
  cases target with
  | any => exact absurd rfl hany
  | null => cases h
  | boolean => exact type_of_toBoolean? h
  | number => exact type_of_toNumber? h
  | string => exact type_of_toString? h
  | date => exact type_of_toDate? h
  | collection =>
      cases h
      cases value <;> rfl
  | object =>
      cases value with
      | object properties =>
          cases h
          rfl
      | _ => cases h

/-- A value of a type converts to itself. -/
theorem coerce?_type (value : Value) : value.coerce? value.type = some value := by
  cases value <;> rfl

end

/-! ## The condition -/

/-- Whether two integers are the same or stay apart as floating-point numbers. -/
def staysApart (m n : Int64) : Bool :=
  m == n || Binary64.ofInt64 m != Binary64.ofInt64 n

/-- Two integers stay apart exactly if their floats do not hide how they are ordered. -/
theorem staysApart_iff {m n : Int64} : staysApart m n = true ↔
    (if Binary64.ofInt64 m = Binary64.ofInt64 n then .eq else compare m.toInt n.toInt) =
      compare m.toInt n.toInt := by
  rw [staysApart, Bool.or_eq_true, beq_iff_eq, bne_iff_ne]
  split
  next heq =>
    rw [eq_comm (b := compare m.toInt n.toInt), Int.compare_eq_eq, Int64.toInt_inj]
    simp [heq]
  next hne => simp [hne]

example : staysApart 9007199254740992 9007199254740993 = false := by cbv

/-- Whether a value of a row compares with a literal as it does with what is bound for it. It does
if the literal is NULL, has its type already or is a text read as that type. Between numbers and
dates, and for a text in the row, the two conversions have to agree about the order. -/
def comparesAsBound : Value → Value → Bool
  | _, null => true
  | string _, string _ => true
  | string row, literal => (string row).align? literal == some (compare row literal.text)
  | integer n, date seconds => staysApart n seconds
  | date seconds, integer n => staysApart seconds n
  | date seconds, float x =>
    (Binary64.ofInt64 seconds).compare? x == some (compare seconds.toInt (truncate x).toInt)
  | float x, date _ => !x.isNaN
  | float x, string _ => !x.isNaN
  | row, string _ => readsText row.type
  | row, literal => row.type == literal.type

/-! ## Texts and numbers -/

section

variable {row literal bound : Value}

/-- Values that are no texts are compared without aligning them. -/
theorem align?_of_type_ne_string (hrow : row.type ≠ .string) (hliteral : literal.type ≠ .string) :
    row.align? literal = row.compare? literal := by
  unfold align?
  cases hcompare : row.compare? literal with
  | some ordering => rfl
  | none =>
      cases row <;> first | exact absurd rfl hrow | skip
      all_goals cases literal <;> first | rfl | exact absurd rfl hliteral

theorem type_ne_of_readsText {type : ValueType} (h : readsText type = true) :
    type ≠ .string ∧ type ≠ .any := by
  cases type <;> first | cases h; done | exact ⟨nofun, nofun⟩

/-- A text is compared with a number, a date or a boolean as one of its kind. -/
theorem align?_string (text : String) (hreads : readsText row.type = true) :
    row.align? (string text) = ((string text).coerce? row.type).bind row.compare? := by
  have halign : row.align? (string text) = compareAs? row.type row (string text) := by
    cases row <;> first | rfl | cases hreads
  rw [halign, compareAs?, if_pos hreads, coerce?_type]
  cases (string text).coerce? row.type <;> rfl

/-- No text is read as something that is not a number. -/
theorem isNaN_of_readNumber? {text : List Char} {x : Binary64}
    (h : readNumber? text = some (float x)) : x.isNaN = false := by
  unfold readNumber? at h
  grind [Binary64.isNaN_of_isFinite]

/-- A value is ordered with what a text is read as, unless the value is not a number. -/
theorem isSome_compare?_text {text : String} (hreads : readsText row.type = true)
    (hbound : (string text).coerce? row.type = some bound) :
    (row.compare? bound).isSome = row.comparesAsBound (string text) := by
  have htype := type_of_coerce? rfl (type_ne_of_readsText hreads).2 hbound
  cases row with
  | boolean b =>
      cases bound with
      | boolean c => rfl
      | _ => cases htype
  | date seconds =>
      cases bound with
      | date others => rfl
      | _ => cases htype
  | integer n =>
      cases bound with
      | integer m => rfl
      | float y =>
          apply (Binary64.isSome_compare? _ _).trans
          rw [Binary64.isNaN_ofInt64, isNaN_of_readNumber? hbound]
          rfl
      | _ => cases htype
  | float x =>
      cases bound with
      | integer m =>
          apply (Binary64.isSome_compare? _ _).trans
          rw [Binary64.isNaN_ofInt64, Bool.or_false]
          rfl
      | float y =>
          apply (Binary64.isSome_compare? _ _).trans
          rw [isNaN_of_readNumber? hbound, Bool.or_false]
          rfl
      | _ => cases htype
  | _ => cases hreads

/-! ## Each type of row -/

/-- Binding a text keeps its order to what reads texts. -/
theorem comparesAsBound_text {text : String} (hreads : readsText row.type = true)
    (hbound : (string text).coerce? row.type = some bound) :
    row.comparesAsBound (string text) = true ↔
      row.OrdersAlike (string text) bound := by
  obtain ⟨hstring, hany⟩ := type_ne_of_readsText hreads
  have htype := type_of_coerce? rfl hany hbound
  rw [OrdersAlike, align?_string text hreads, hbound, Option.bind_some,
    align?_of_type_ne_string hstring (htype ▸ hstring), ← isSome_compare?_text hreads hbound,
    Option.isSome_iff_exists]
  simp only [and_self]

/-- Binding a text for another value keeps the order if that value is ordered like its text. -/
theorem comparesAsBound_string {text : String} (hnull : literal.isNull = false)
    (htype : literal.type ≠ .string) (hbound : literal.coerce? .string = some bound) :
    (string text).comparesAsBound literal = true ↔
      (string text).OrdersAlike literal bound := by
  have hasText : ((string text).align? literal == some (compare text literal.text)) = true ↔
      (string text).OrdersAlike literal (string literal.text) := by
    rw [beq_iff_eq]
    constructor
    · exact fun h => ⟨_, h, rfl⟩
    · rintro ⟨ordering, hliteral, htext⟩
      exact hliteral.trans htext.symm
  cases literal with
  | null => cases hnull
  | string other => exact absurd rfl htype
  | bytes content =>
      -- Bytes are converted to a text, but no text is ordered with them.
      exact iff_of_false Bool.false_ne_true (not_ordersAlike rfl)
  | collection items => cases hbound
  | object properties => cases hbound
  | _ =>
      cases hbound
      exact hasText

/-- A collection is ordered with nothing, so only collections are bound alike. -/
theorem comparesAsBound_collection {items : List Value} (hnull : literal.isNull = false)
    (htype : literal.type ≠ .collection) :
    (collection items).comparesAsBound literal = true ↔
      (collection items).OrdersAlike literal bound := by
  cases literal with
  | null => cases hnull
  | collection others => exact absurd rfl htype
  | _ => exact iff_of_false Bool.false_ne_true (not_ordersAlike rfl)

theorem comparesAsBound_integer {n : Int64} (hnull : literal.isNull = false)
    (htype : literal.type ≠ .number) (hbound : literal.coerce? .number = some bound) :
    (integer n).comparesAsBound literal = true ↔
      (integer n).OrdersAlike literal bound := by
  cases literal with
  | null => cases hnull
  | integer m => exact absurd rfl htype
  | float x => exact absurd rfl htype
  | string text => exact comparesAsBound_text rfl hbound
  | boolean b => exact iff_of_false Bool.false_ne_true (not_ordersAlike rfl)
  | date seconds =>
      cases hbound
      have hfloat : (integer n).align? (date seconds) = some
          (if Binary64.ofInt64 n = Binary64.ofInt64 seconds then .eq
            else compare n.toInt seconds.toInt) :=
        align?_of_compare? (Binary64.compare?_ofInt64 n seconds)
      exact staysApart_iff.trans (ordersAlike_iff hfloat rfl).symm
  | _ => cases hbound

theorem comparesAsBound_float {x : Binary64} (hnull : literal.isNull = false)
    (htype : literal.type ≠ .number) (hbound : literal.coerce? .number = some bound) :
    (float x).comparesAsBound literal = true ↔
      (float x).OrdersAlike literal bound := by
  cases literal with
  | null => cases hnull
  | integer m => exact absurd rfl htype
  | float y => exact absurd rfl htype
  | string text => exact comparesAsBound_text rfl hbound
  | boolean b => exact iff_of_false Bool.false_ne_true (not_ordersAlike rfl)
  | date seconds =>
      cases hbound
      have hsome := Binary64.isSome_compare? x (Binary64.ofInt64 seconds)
      rw [Binary64.isNaN_ofInt64, Bool.or_false] at hsome
      have hfloat : (float x).type ≠ .string := by rintro ⟨⟩
      have hdate : (date seconds).type ≠ .string := by rintro ⟨⟩
      have hinteger : (integer seconds).type ≠ .string := by rintro ⟨⟩
      rw [OrdersAlike, align?_of_type_ne_string hfloat hdate,
        align?_of_type_ne_string hfloat hinteger]
      change (!x.isNaN) = true ↔ _
      rw [← hsome, Option.isSome_iff_exists]
      exact exists_congr fun ordering => and_self_iff.symm
  | _ => cases hbound

theorem comparesAsBound_date {seconds : Int64} (hnull : literal.isNull = false)
    (htype : literal.type ≠ .date) (hbound : literal.coerce? .date = some bound) :
    (date seconds).comparesAsBound literal = true ↔
      (date seconds).OrdersAlike literal bound := by
  cases literal with
  | null => cases hnull
  | date others => exact absurd rfl htype
  | string text => exact comparesAsBound_text rfl hbound
  | integer n =>
      cases hbound
      have hfloat : (date seconds).align? (integer n) = some
          (if Binary64.ofInt64 seconds = Binary64.ofInt64 n then .eq
            else compare seconds.toInt n.toInt) :=
        align?_of_compare? (Binary64.compare?_ofInt64 seconds n)
      exact staysApart_iff.trans (ordersAlike_iff hfloat rfl).symm
  | float x =>
      cases hbound
      have hdate : (date seconds).type ≠ .string := by rintro ⟨⟩
      have hfloat : (float x).type ≠ .string := by rintro ⟨⟩
      rw [OrdersAlike, align?_of_type_ne_string hdate hfloat]
      constructor
      · exact fun h => ⟨_, eq_of_beq h, rfl⟩
      · rintro ⟨ordering, hfirst, hsecond⟩
        exact beq_iff_eq.mpr (hfirst.trans hsecond.symm)
  | _ => cases hbound

theorem comparesAsBound_boolean {b : Bool} (hnull : literal.isNull = false)
    (htype : literal.type ≠ .boolean) (hbound : literal.coerce? .boolean = some bound) :
    (boolean b).comparesAsBound literal = true ↔
      (boolean b).OrdersAlike literal bound := by
  cases literal with
  | null => cases hnull
  | boolean c => exact absurd rfl htype
  | string text => exact comparesAsBound_text rfl hbound
  | integer n => exact iff_of_false Bool.false_ne_true (not_ordersAlike rfl)
  | _ => cases hbound

/-- Between values of different types the condition says that the row has the same order to the
literal and to what is bound. -/
theorem comparesAsBound_iff (hrow : row.isNull = false) (hany : row.type ≠ .any)
    (hnull : literal.isNull = false) (htype : literal.type ≠ row.type)
    (hbound : literal.coerce? row.type = some bound) :
    row.comparesAsBound literal = true ↔
      row.OrdersAlike literal bound := by
  cases row with
  | null => cases hrow
  | bytes content => exact absurd rfl hany
  | boolean b => exact comparesAsBound_boolean hnull htype hbound
  | integer n => exact comparesAsBound_integer hnull htype hbound
  | float x => exact comparesAsBound_float hnull htype hbound
  | string text => exact comparesAsBound_string hnull htype hbound
  | date seconds => exact comparesAsBound_date hnull htype hbound
  | collection items => exact comparesAsBound_collection hnull htype
  | object properties =>
      cases literal with
      | null => cases hnull
      | object others => exact absurd rfl htype
      | _ => cases hbound

/-- A literal of the type of the row is bound as it is. -/
theorem comparesAsBound_of_type_eq (hrow : row.isNull = false) (hany : row.type ≠ .any)
    (htype : literal.type = row.type) : row.comparesAsBound literal = true := by
  cases row <;> first | cases hrow; done | exact absurd rfl hany | skip
  all_goals cases literal <;> first | rfl | cases htype

end

end Value

/-- Every plain comparison of a value of a row gives the same for a literal and for what is bound
for it, exactly if the value compares with the literal as bound. -/
theorem BinaryOp.forall_apply_bound_eq_iff {type : ValueType} (hany : type ≠ .any) {row : Value}
    (hrow : row.type = type) (hnull : row ≠ .null) {literal bound : Value}
    (hbound : literal.coerce? type = some bound) :
    (∀ op ∈ [eq, ne, lt, le, gt, ge], op.apply row literal = op.apply row bound) ↔
      row.comparesAsBound literal = true := by
  subst hrow
  have hrow : row.isNull = false := by
    rw [← Bool.not_eq_true, Value.isNull_eq_true_iff]
    exact hnull
  cases hliteral : literal.isNull with
  | true =>
      rw [Value.isNull_eq_true_iff] at hliteral
      subst hliteral
      cases hbound
      cases row <;> simp [Value.comparesAsBound]
  | false =>
      by_cases htype : literal.type = row.type
      · -- A literal of the type itself is bound as it is.
        rw [← htype, Value.coerce?_type] at hbound
        cases hbound
        simp [Value.comparesAsBound_of_type_eq hrow hany htype]
      · have hbounds : bound.isNull = false := (Value.isNull_of_coerce? hbound).trans hliteral
        have hdiffer : literal.type ≠ bound.type := by
          rw [Value.type_of_coerce? hliteral hany hbound]
          exact htype
        rw [Value.comparesAsBound_iff hrow hany hliteral htype hbound,
          ← forall_apply_eq_iff hrow hliteral hbounds hdiffer]
        constructor
        · intro h op flipped hflip
          exact h op (exists_flip_iff.mp ⟨flipped, hflip⟩)
        · intro h op hop
          obtain ⟨flipped, hflip⟩ := exists_flip_iff.mpr hop
          exact h op flipped hflip

/-- The boolean true is bound for the literal one, but evaluation does not compare a boolean with a
number: it finds them different where the backend finds them equal. -/
theorem BinaryOp.apply_bound_differs_one_true :
    BinaryOp.eq.apply (.boolean true) (.integer 1) = .ok (.boolean false) ∧
      BinaryOp.eq.apply (.boolean true) (.boolean true) = .ok (.boolean true) ∧
      ¬∀ op ∈ [eq, ne, lt, le, gt, ge],
        op.apply (.boolean true) (.integer 1) = op.apply (.boolean true) (.boolean true) := by
  have hiff := forall_apply_bound_eq_iff (show ValueType.boolean ≠ .any by decide)
    (show (Value.boolean true).type = .boolean from rfl) nofun
    (show (Value.integer 1).coerce? .boolean = some (.boolean true) from rfl)
  refine ⟨rfl, rfl, fun h => ?_⟩
  cases hiff.mp h

end RowFilter
