import RowFilter.Proofs.Directory.IntegerRow
import RowFilter.Proofs.Expr.Comparison
import RowFilter.Proofs.Statement.Compiling

/-! # Comparing attributes with integers

A comparison of an attribute with an integer holds on the server exactly if it holds of the row.
Where the attribute is absent, the server may not know what evaluation does know, but then the
comparison holds on neither side.
-/

namespace RowFilter

/-- A truth value of the server and one of evaluation: they agree about what holds, and are the same
if everything is definite. -/
structure Reflects (definite : Prop) (server evaluated : Truth) : Prop where
  holds : server = some true ↔ evaluated = some true
  exact : definite → server = evaluated

namespace Reflects

variable {definite : Prop} {server evaluated : Truth}

theorem of_eq (h : server = evaluated) : Reflects definite server evaluated :=
  ⟨by rw [h], fun _ => h⟩

/-- What is reflected where something is definite is reflected where less is asked. -/
theorem mono {other : Prop} (h : Reflects definite server evaluated) (himp : other → definite) :
    Reflects other server evaluated :=
  ⟨h.holds, fun hother => h.exact (himp hother)⟩

/-- Both sides of a reflection may be negated where they are definite. -/
theorem negate (h : Reflects definite server evaluated) (hdefinite : definite) :
    Reflects definite server.negate evaluated.negate :=
  of_eq (by rw [h.exact hdefinite])

/-- A conjunction or a disjunction holds if all or some of its operands do, on both sides. -/
theorem join (deciding : Bool) (h : Reflects definite server evaluated) {server' evaluated' : Truth}
    (h' : Reflects definite server' evaluated') :
    Reflects definite (Truth.join deciding server server')
      (Truth.join deciding evaluated evaluated') := by
  refine ⟨?_, fun hdefinite => by rw [h.exact hdefinite, h'.exact hdefinite]⟩
  have hholds := h.holds
  have hholds' := h'.holds
  rcases server with _ | _ | _ <;> rcases evaluated with _ | _ | _ <;>
    rcases server' with _ | _ | _ <;> rcases evaluated' with _ | _ | _ <;> cases deciding <;>
    simp_all [Truth.join]

end Reflects

namespace BinaryOp

/-- The truth of a comparison of an integer, or of NULL, with an integer. -/
def compareInteger (op : BinaryOp) (left : Option Int64) (right : Int64) : Truth :=
  match op, left with
  | _, some n => some (op.relates (compare n.toInt right.toInt))
  | eq, none => some false
  | ne, none => some true
  | _, none => none

variable {op flipped : BinaryOp}

/-- Comparing two integers never fails, and relates them as integers. -/
theorem apply_integers (h : op.flip = some flipped) (left right : Int64) :
    op.apply (.integer left) (.integer right) =
      .ok (.boolean (op.relates (compare left.toInt right.toInt))) :=
  apply_of_align? h rfl

/-- Evaluation compares an integer or NULL with an integer. -/
theorem apply_integer (h : op.flip = some flipped) (left : Option Int64) (right : Int64) :
    op.apply (Value.ofInteger? left) (.integer right) =
      .ok (Value.ofTruth (op.compareInteger left right)) := by
  cases left with
  | none => cases op <;> cases h <;> rfl
  | some n =>
      have hsome : op.compareInteger (some n) right =
          some (op.relates (compare n.toInt right.toInt)) := by
        cases op <;> rfl
      rw [hsome]
      exact apply_integers h n right

/-- With the sides exchanged, evaluation compares by the operator for that. -/
theorem integer_apply (h : op.flip = some flipped) (left : Int64) (right : Option Int64) :
    op.apply (.integer left) (Value.ofInteger? right) =
      .ok (Value.ofTruth (flipped.compareInteger right left)) := by
  cases right with
  | none => cases op <;> cases h <;> rfl
  | some n =>
      have hsome : flipped.compareInteger (some n) left =
          some (op.relates (compare left.toInt n.toInt)) := by
        rw [← relates_swap h, ← Std.OrientedCmp.eq_swap]
        cases flipped <;> rfl
      rw [hsome]
      exact apply_integers h left n

end BinaryOp

namespace Directory

/-- What the comparison of an attribute with an integer denotes. -/
def comparisonFilter (definition : Attribute) (n : Int64) : BinaryOp → SearchFilter
  | .eq => .equal definition.backendName (rawInteger n)
  | .ne =>
    if definition.nullable then
      .or [.not (.equal definition.backendName (rawInteger n)),
        .not (.present definition.backendName)]
    else .not (.equal definition.backendName (rawInteger n))
  | .ge => .greaterOrEqual definition.backendName (rawInteger n)
  | .le => .lessOrEqual definition.backendName (rawInteger n)
  | .gt => .not (.lessOrEqual definition.backendName (rawInteger n))
  | _ => .not (.greaterOrEqual definition.backendName (rawInteger n))

theorem isSpecial_eq_false_of_plain {c : Char} (h : c.isAlphanum = true ∨ c = '-') :
    isSpecial (byteOf c) = false := by
  have hrange := toNat_of_plain h
  have hbyte := toNat_byteOf (c := c) (by omega)
  refine Bool.eq_false_iff.mpr fun hspecial => ?_
  have hall : ∀ b ∈ ([42, 40, 41, 92, 63, 0] : Bytes), b.toNat < 45 ∨ b.toNat = 63 ∨
      b.toNat = 92 := List.all_iff_forall_prop.mp (by decide)
  have := hall (byteOf c) (by simpa [isSpecial] using hspecial)
  omega

/-- Letters, digits and hyphens need no escapes. -/
theorem escapeBytes_encode_of_plain {text : List Char}
    (h : ∀ c ∈ text, c.isAlphanum = true ∨ c = '-') :
    escapeBytes (Text.encode text) = text := by
  induction text with
  | nil => rfl
  | cons c rest ih =>
      have hplain := h c List.mem_cons_self
      have hrange := toNat_of_plain hplain
      have hbyte := toNat_byteOf (c := c) (by omega)
      have hlow : ¬ (128 ≤ byteOf c) := by
        rw [UInt8.le_iff_toNat_le, hbyte]
        exact Nat.not_le.mpr (show c.toNat < 128 by omega)
      rw [Text.encode_cons, encodeChar_of_ascii (by omega), List.singleton_append, escapeBytes,
        List.flatMap_cons, ← escapeBytes, ih fun d hd => h d (List.mem_cons_of_mem c hd),
        escapeByte, isSpecial_eq_false_of_plain hplain, hbyte]
      simp [hlow]

theorem escapeBytes_rawInteger (n : Int64) :
    escapeBytes (rawInteger n) = Number.intText n.toInt :=
  escapeBytes_encode_of_plain fun _ hc => plain_of_mem_intText hc

section

variable {request : Request} {definition : Attribute} {op flipped : BinaryOp}

theorem denotes_integerItem (request : Request) (hname : IsPlainName definition.backendName)
    (n : Int64) {relation : String} (hrelation : '?' ∉ relation.toList) (filter : SearchFilter)
    (hformed : filter.WellFormed) (hinner : filter.inner =
      definition.backendName.toList ++ (relation.toList ++ escapeBytes (rawInteger n))) :
    ∃ part, item definition relation (.integer n) .number = .ok part ∧
      part.Denotes request filter := by
  have htext : assertionText (.integer n) = .ok (escapeBytes (rawInteger n)) := by
    rw [escapeBytes_rawInteger]
    rfl
  exact denotes_item hname rfl htext hrelation hformed hinner

/-- A comparison with an integer denotes its filter. -/
theorem denotes_comparison (request : Request) (hname : IsPlainName definition.backendName)
    (htype : definition.type = .number) (hop : op.flip = some flipped) (n : Int64) :
    ∃ part, comparison op (.attr definition) (.value (.integer n)) = .ok part ∧
      part.Denotes request (comparisonFilter definition n op) := by
  obtain ⟨equal, hequal, hequalDenotes⟩ := denotes_integerItem request hname n
    (show '?' ∉ "=".toList by decide) (.equal definition.backendName (rawInteger n)) hname.isName
    rfl
  obtain ⟨least, hleast, hleastDenotes⟩ := denotes_integerItem request hname n
    (show '?' ∉ ">=".toList by decide) (.greaterOrEqual definition.backendName (rawInteger n))
    hname.isName rfl
  obtain ⟨most, hmost, hmostDenotes⟩ := denotes_integerItem request hname n
    (show '?' ∉ "<=".toList by decide) (.lessOrEqual definition.backendName (rawInteger n))
    hname.isName rfl
  have htarget : (if definition.type = .any then (Value.integer n).type else definition.type) =
      .number := by
    rw [htype]
    rfl
  have hcomparison : comparison op (.attr definition) (.value (.integer n)) =
      match op with
      | .eq => item definition "=" (.integer n) .number
      | .ne => (item definition "=" (.integer n) .number).map (negated definition)
      | .ge => item definition ">=" (.integer n) .number
      | .le => item definition "<=" (.integer n) .number
      | .gt => (item definition "<=" (.integer n) .number).map negation
      | _ => (item definition ">=" (.integer n) .number).map negation := by
    simp only [comparison, attributeOf, valueOf, Bind.bind, Except.bind, htarget]
    cases op <;> cases hop <;> rfl
  rw [hcomparison]
  cases op <;> cases hop
  case eq => exact ⟨equal, hequal, hequalDenotes⟩
  case ne =>
    simp only [hequal]
    exact ⟨_, rfl, denotes_negated hname hequalDenotes⟩
  case ge => exact ⟨least, hleast, hleastDenotes⟩
  case le => exact ⟨most, hmost, hmostDenotes⟩
  case gt =>
    simp only [hmost]
    exact ⟨_, rfl, denotes_negation hmostDenotes⟩
  case lt =>
    simp only [hleast]
    exact ⟨_, rfl, denotes_negation hleastDenotes⟩

/-- A comparison can be tried with NULL. -/
theorem comparison_trial (hop : op.flip = some flipped) (definition : Attribute) :
    ∃ part, comparison op (.attr definition) (.value .null) = .ok part := by
  cases op <;> cases hop <;> exact ⟨_, rfl⟩

/-! ## What the server sees -/

variable {attributes : List Attribute} {entry : Entry}

/-- Two integers compare as raw values as they do as numbers. -/
theorem compareRaw_rawInteger (m n : Int64) :
    compareRaw (rawInteger m) (rawInteger n) = compare m.toInt n.toInt := by
  simp only [compareRaw, compareNumbers?, rawInteger, Text.decodeLossy_encode, trim_intText,
    Number.readInt64?_intText]

theorem anyValue_integer (hentry : IntegerEntry attributes entry) (name : String)
    (test : Bytes → Bool) :
    anyValue entry name test = (entry.integer? name).map fun n => test (rawInteger n) := by
  rw [anyValue, values?_eq hentry]
  cases entry.integer? name with
  | none => rfl
  | some n => simp

/-- An attribute of integers is present exactly if the entry has an integer for it. -/
theorem isPresent_integer (hentry : IntegerEntry attributes entry) {name : String}
    (h : entry.integer? name = none → Text.sameIgnoringCase name "objectClass" = false) :
    isPresent entry name = (entry.integer? name).isSome := by
  rw [isPresent, values?_eq hentry]
  cases hinteger : entry.integer? name with
  | none => simp [h hinteger]
  | some n => simp

/-- The server sees the comparison that evaluation sees. Without a value it does not know what an
equality is, and evaluation knows that it does not hold. -/
theorem reflects_comparison (hentry : IntegerEntry attributes entry)
    (hop : op.flip = some flipped) (n : Int64)
    (hmissing : entry.integer? definition.backendName = none → definition.nullable = true ∧
      Text.sameIgnoringCase definition.backendName "objectClass" = false) :
    Reflects ((entry.integer? definition.backendName).isSome = true)
      ((comparisonFilter definition n op).evaluate entry)
      (op.compareInteger (entry.integer? definition.backendName) n) := by
  have hpresent := isPresent_integer hentry fun h => (hmissing h).2
  have hequal : (SearchFilter.equal definition.backendName (rawInteger n)).evaluate entry =
      (entry.integer? definition.backendName).map fun m => compare m.toInt n.toInt == .eq := by
    simp only [SearchFilter.evaluate, anyValue_integer hentry, compareRaw_rawInteger]
  have hleast : (SearchFilter.greaterOrEqual definition.backendName (rawInteger n)).evaluate entry =
      (entry.integer? definition.backendName).map fun m => (compare m.toInt n.toInt).isGE := by
    simp only [SearchFilter.evaluate, anyValue_integer hentry, compareRaw_rawInteger]
  have hmost : (SearchFilter.lessOrEqual definition.backendName (rawInteger n)).evaluate entry =
      (entry.integer? definition.backendName).map fun m => (compare m.toInt n.toInt).isLE := by
    simp only [SearchFilter.evaluate, anyValue_integer hentry, compareRaw_rawInteger]
  cases hinteger : entry.integer? definition.backendName with
  | none =>
      obtain ⟨hnullable, -⟩ := hmissing hinteger
      rw [hinteger] at hequal hleast hmost hpresent
      refine ⟨?_, fun h => by simp at h⟩
      cases op <;> cases hop
      -- Only inequality asks for the presence of a nullable attribute as well.
      case none.ne.refl =>
        simp [comparisonFilter, hnullable, SearchFilter.evaluate_or, SearchFilter.evaluate_not,
          SearchFilter.evaluate_present, hequal,
          hpresent, BinaryOp.compareInteger, Truth.joinAll, Truth.join, Truth.negate]
      all_goals
        simp [comparisonFilter, SearchFilter.evaluate_not, hequal, hleast, hmost,
          BinaryOp.compareInteger, Truth.negate]
  | some m =>
      rw [hinteger] at hequal hleast hmost hpresent
      rw [Option.map_some] at hequal hleast hmost
      refine Reflects.of_eq ?_
      generalize hordering : compare m.toInt n.toInt = ordering at hequal hleast hmost
      have hcompare : op.compareInteger (some m) n = some (op.relates ordering) := by
        rw [← hordering]
        cases op <;> rfl
      rw [hcompare]
      cases op <;> cases hop
      case some.ne.refl =>
        rw [comparisonFilter]
        split <;> cases ordering <;> simp [SearchFilter.evaluate_or, SearchFilter.evaluate_not,
          SearchFilter.evaluate_present, hequal,
          hpresent, Truth.joinAll, Truth.join, Truth.negate, BinaryOp.relates]
      all_goals
        cases ordering <;> simp [comparisonFilter, SearchFilter.evaluate_not, hequal, hleast, hmost,
          Truth.negate, BinaryOp.relates, BinaryOp.holdsFor]

end

end Directory

end RowFilter
