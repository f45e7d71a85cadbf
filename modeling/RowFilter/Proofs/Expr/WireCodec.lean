import Mathlib.Algebra.Group.Nat.Defs
import RowFilter.Expr.Wire
import RowFilter.Proofs.Text.Utf8

/-! # Reading the binary form of expressions

A tree without objects has a binary form, which reads as that tree whatever follows it. Nothing
but the form of a tree reads as that tree.
-/

namespace RowFilter

namespace Value

mutual

/-- Whether a value is an object or holds one at any depth. -/
def holdsObject : Value → Bool
  | .object _ => true
  | .collection items => anyHoldsObject items
  | _ => false

def anyHoldsObject : List Value → Bool
  | [] => false
  | item :: rest => holdsObject item || anyHoldsObject rest

end

mutual

/-- The lengths of texts and lists are numbers of a machine. -/
def IsSized : Value → Prop
  | .string text => (Text.bytesOf text).length < 2 ^ 64
  | .bytes raw => raw.length < 2 ^ 64
  | .collection items => items.length < 2 ^ 64 ∧ AllSized items
  | _ => True

def AllSized : List Value → Prop
  | [] => True
  | item :: rest => IsSized item ∧ AllSized rest

end

end Value

namespace Expr

mutual

/-- Whether a literal of a tree is an object or holds one at any depth. -/
def holdsObject : Expr → Bool
  | literal value _ => value.holdsObject
  | reference _ _ => false
  | call _ arguments _ => anyHoldsObject arguments
  | unary _ operand => holdsObject operand
  | binary _ left right => holdsObject left || holdsObject right

def anyHoldsObject : List Expr → Bool
  | [] => false
  | argument :: rest => holdsObject argument || anyHoldsObject rest

end

mutual

/-- The lengths of texts and lists in a tree are numbers of a machine. -/
def IsSized : Expr → Prop
  | literal value _ => value.IsSized
  | reference path _ => (Text.bytesOf path).length < 2 ^ 64
  | call _ arguments _ => arguments.length < 2 ^ 64 ∧ AllSized arguments
  | unary _ operand => IsSized operand
  | binary _ left right => IsSized left ∧ IsSized right

def AllSized : List Expr → Prop
  | [] => True
  | argument :: rest => IsSized argument ∧ AllSized rest

end

end Expr

namespace Wire

/-! ## Numbers -/

theorem length_littleEndian (width n : Nat) : (littleEndian width n).length = width := by
  induction width generalizing n with
  | zero => rfl
  | succ width ih => rw [littleEndian, List.length_cons, ih]

/-- A number that fits a width is decoded from the bytes of that width it was encoded in. -/
theorem ofLittleEndian_littleEndian {width n : Nat} (h : n < 256 ^ width) :
    ofLittleEndian (littleEndian width n) = n := by
  induction width generalizing n with
  | zero =>
      rw [Nat.pow_zero, Nat.lt_one_iff] at h
      rw [h]
      rfl
  | succ width ih =>
      have hbyte : (UInt8.ofNat (n % 256)).toNat = n % 256 := Text.toNat_ofNat_of_lt (by omega)
      rw [littleEndian, ofLittleEndian, hbyte, ih (by rw [Nat.pow_succ] at h; omega)]
      omega

/-- Every block of bytes is the encoding, in its own width, of the number it is decoded as. -/
theorem littleEndian_ofLittleEndian (bytes : Bytes) :
    littleEndian bytes.length (ofLittleEndian bytes) = bytes := by
  induction bytes with
  | nil => rfl
  | cons b rest ih =>
      have hb := b.toNat_lt
      rw [List.length_cons, ofLittleEndian, littleEndian,
        show (b.toNat + 256 * ofLittleEndian rest) / 256 = ofLittleEndian rest by omega, ih,
        show (b.toNat + 256 * ofLittleEndian rest) % 256 = b.toNat by omega, UInt8.ofNat_toNat]

/-- A block of bytes is decoded as a number that fits its width. -/
theorem ofLittleEndian_lt (bytes : Bytes) : ofLittleEndian bytes < 256 ^ bytes.length := by
  induction bytes with
  | nil => exact Nat.one_pos
  | cons b rest ih =>
      have hb := b.toNat_lt
      rw [List.length_cons, ofLittleEndian, Nat.pow_succ]
      omega

/-! ## Steps of reading -/

/-- Something and the bytes after it are what is read. -/
def Takes {α : Type} {bound : Nat} (taken : Option (Taken α bound)) (value : α)
    (rest : Bytes) : Prop :=
  ∃ shorter, taken = some ⟨value, rest, shorter⟩

section

variable {α β : Type} {m n : Nat} {value : α} {result : β} {rest more : Bytes}

theorem takes_some {taken : Taken α n} :
    Takes (some taken) value rest ↔ taken.value = value ∧ taken.rest = rest := by
  constructor
  · rintro ⟨shorter, h⟩
    cases h
    exact ⟨rfl, rfl⟩
  · rintro ⟨rfl, rfl⟩
    exact ⟨taken.shorter, rfl⟩

/-- What is read in two steps. -/
theorem Takes.bind {x : Option (Taken α m)} {f : Taken α m → Option (Taken β n)}
    (h : Takes x value more) (hf : ∀ shorter, Takes (f ⟨value, more, shorter⟩) result rest) :
    Takes (x >>= f) result rest := by
  obtain ⟨shorter, rfl⟩ := h
  exact hf shorter

/-- What is read in two steps is read in the second from what the first leaves. -/
theorem Takes.exists_of_bind {x : Option (Taken α m)} {f : Taken α m → Option (Taken β n)}
    (h : Takes (x >>= f) result rest) :
    ∃ value more shorter, Takes x value more ∧ Takes (f ⟨value, more, shorter⟩) result rest := by
  cases x with
  | none =>
      obtain ⟨_, h⟩ := h
      cases h
  | some taken => exact ⟨taken.value, taken.rest, taken.shorter, ⟨_, rfl⟩, h⟩

/-- What is taken through a function was taken before it. -/
theorem Takes.exists_of_map {x : Option (Taken α m)} {f : Taken α m → Taken β n}
    (h : Takes (x >>= fun taken => pure (f taken)) result rest) :
    ∃ value more shorter, Takes x value more ∧ (f ⟨value, more, shorter⟩).value = result ∧
      (f ⟨value, more, shorter⟩).rest = rest := by
  obtain ⟨value, more, shorter, hvalue, h⟩ := h.exists_of_bind
  exact ⟨value, more, shorter, hvalue, takes_some.mp h⟩

/-- What is taken through a partial function was taken before it and is in its domain. -/
theorem takes_mapValue? {x : Option (Taken α n)} {f : α → Option β} :
    Takes (x >>= fun taken => taken.mapValue? f) result rest ↔
      ∃ value, Takes x value rest ∧ f value = some result := by
  constructor
  · intro h
    obtain ⟨value, more, _, hvalue, _, h⟩ := h.exists_of_bind
    obtain ⟨result, hresult, h⟩ := Option.map_eq_some_iff.mp h
    cases h
    exact ⟨value, hvalue, hresult⟩
  · rintro ⟨value, h, hresult⟩
    refine h.bind fun shorter => ⟨shorter, ?_⟩
    rw [Taken.mapValue?, hresult]
    rfl

end

/-! ## Single things -/

/-- A block of so many bytes is taken exactly if the bytes start with it. -/
theorem takes_bytes {count : Nat} {bytes block rest : Bytes} :
    Takes (takeBytes count bytes) block rest ↔ block.length = count ∧ bytes = block ++ rest := by
  constructor
  · rintro ⟨shorter, h⟩
    rw [takeBytes] at h
    split at h
    next hcount =>
      cases h
      exact ⟨List.length_take_of_le hcount, (List.take_append_drop _ _).symm⟩
    next => cases h
  · rintro ⟨rfl, rfl⟩
    rw [takeBytes, if_pos (by simp)]
    exact takes_some.mpr ⟨List.take_left, List.drop_left⟩

/-- A number is taken exactly if it fits its width and the bytes start with its encoding. -/
theorem takes_number {width n : Nat} {bytes rest : Bytes} :
    Takes (takeNumber width bytes) n rest ↔
      n < 256 ^ (width + 1) ∧ bytes = littleEndian (width + 1) n ++ rest := by
  constructor
  · rintro ⟨shorter, h⟩
    rw [takeNumber] at h
    split at h
    next hlength =>
      cases h
      have htake : (bytes.take (width + 1)).length = width + 1 := List.length_take_of_le hlength
      have hlt := ofLittleEndian_lt (bytes.take (width + 1))
      have hback := littleEndian_ofLittleEndian (bytes.take (width + 1))
      rw [htake] at hlt hback
      exact ⟨hlt, by rw [hback, List.take_append_drop]⟩
    next => cases h
  · rintro ⟨hlt, rfl⟩
    have hlength := length_littleEndian (width + 1) n
    rw [takeNumber, dif_pos (by rw [List.length_append, hlength]; omega)]
    refine takes_some.mpr ⟨?_, List.drop_left' hlength⟩
    rw [List.take_left' hlength, ofLittleEndian_littleEndian hlt]

theorem takes_index {n : Nat} {bytes rest : Bytes} :
    Takes (takeIndex bytes) n rest ↔ n < 2 ^ 32 ∧ bytes = index n ++ rest :=
  takes_number

theorem takes_length {n : Nat} {bytes rest : Bytes} :
    Takes (takeWord bytes) n rest ↔ n < 2 ^ 64 ∧ bytes = length n ++ rest :=
  takes_number

/-- A word is read in eight bytes. -/
theorem takes_word {n : Nat} {bytes rest : Bytes} :
    Takes (takeWord bytes) n rest ↔
      ∃ bits : UInt64, bits.toNat = n ∧ bytes = word bits ++ rest := by
  rw [takes_length]
  constructor
  · rintro ⟨hlt, rfl⟩
    have hbits := UInt64.toNat_ofNat_of_lt' hlt
    exact ⟨UInt64.ofNat n, hbits, by rw [word, hbits, length]⟩
  · rintro ⟨bits, rfl, rfl⟩
    exact ⟨bits.toNat_lt, rfl⟩

/-- One of some things is read at the index that numbers it. -/
theorem takes_one {α : Type} {all : List α} {indexOf : α → Nat} (hall : ∀ a, a ∈ all)
    (hindex : ∀ a ∈ all, indexOf a < 2 ^ 32 ∧ all.find? (indexOf · == indexOf a) = some a)
    {bytes rest : Bytes} {a : α} :
    Takes (takeOne all indexOf bytes) a rest ↔ bytes = index (indexOf a) ++ rest := by
  rw [takeOne, takes_mapValue?]
  constructor
  · rintro ⟨n, h, hfind⟩
    obtain rfl : indexOf a = n := by simpa using List.find?_some hfind
    exact (takes_index.mp h).2
  · rintro rfl
    exact ⟨indexOf a, takes_index.mpr ⟨(hindex a (hall a)).1, rfl⟩, (hindex a (hall a)).2⟩

theorem takes_type {bytes rest : Bytes} {type : ValueType} :
    Takes (takeType bytes) type rest ↔ bytes = index (typeIndex type) ++ rest :=
  takes_one (fun a => by cases a <;> decide) (by decide)

theorem takes_binary {bytes rest : Bytes} {op : BinaryOp} :
    Takes (takeOne BinaryOp.all binaryIndex bytes) op rest ↔
      bytes = index (binaryIndex op) ++ rest :=
  takes_one (fun a => by cases a <;> decide) (by decide)

theorem takes_unary {bytes rest : Bytes} {op : UnaryOp} :
    Takes (takeOne UnaryOp.all unaryIndex bytes) op rest ↔ bytes = index (unaryIndex op) ++ rest :=
  takes_one (fun a => by cases a <;> decide) (by decide)

theorem takes_builtin {bytes rest : Bytes} {function : Builtin} :
    Takes (takeOne Builtin.all builtinIndex bytes) function rest ↔
      bytes = index (builtinIndex function) ++ rest :=
  takes_one (fun a => by cases a <;> decide) (by decide)

theorem takes_boolean {bytes rest : Bytes} {b : Bool} :
    Takes (takeBoolean bytes) b rest ↔ bytes = (if b then 1 else 0) :: rest := by
  constructor
  · rintro ⟨shorter, h⟩
    cases bytes with
    | nil => cases h
    | cons first others =>
        rw [takeBoolean] at h
        split at h
        next hzero =>
          cases h
          rw [hzero]
          rfl
        next =>
          split at h
          next hone =>
            cases h
            rw [hone]
            rfl
          next => cases h
  · rintro rfl
    cases b <;> exact takes_some.mpr ⟨rfl, rfl⟩

theorem takes_block {bytes block rest : Bytes} :
    Takes (takeBlock bytes) block rest ↔
      block.length < 2 ^ 64 ∧ bytes = length block.length ++ block ++ rest := by
  rw [takeBlock]
  constructor
  · intro h
    obtain ⟨size, more, _, hsize, h⟩ := h.exists_of_bind
    obtain ⟨taken, _, _, htaken, rfl, rfl⟩ := h.exists_of_map
    obtain ⟨hlt, rfl⟩ := takes_length.mp hsize
    obtain ⟨rfl, rfl⟩ := takes_bytes.mp htaken
    exact ⟨hlt, (List.append_assoc _ _ _).symm⟩
  · rintro ⟨hlt, rfl⟩
    refine (takes_length.mpr ⟨hlt, List.append_assoc _ _ _⟩).bind fun shorter => ?_
    exact (takes_bytes.mpr ⟨rfl, rfl⟩).bind fun shorter => takes_some.mpr ⟨rfl, rfl⟩

/-- A text is taken exactly if the bytes start with its encoding. -/
theorem takes_string {bytes rest : Bytes} {text : String} :
    Takes (takeString bytes) text rest ↔
      (Text.bytesOf text).length < 2 ^ 64 ∧ bytes = string text ++ rest := by
  rw [takeString, takes_mapValue?]
  simp only [takes_block, Text.ofBytes?_eq_some_iff]
  constructor
  · rintro ⟨block, h, rfl⟩
    exact h
  · intro h
    exact ⟨_, h, rfl⟩

/-! ## Values -/

mutual

/-- What is read as a value is the form of that value. -/
theorem written_of_takes_value {bytes rest : Bytes} {value : Value}
    (h : Takes (takeValue bytes) value rest) :
    value.IsSized ∧ ∃ written, value? value = some written ∧ bytes = written ++ rest := by
  rw [takeValue] at h
  obtain ⟨kind, payload, hshorter, hkind, h⟩ := h.exists_of_bind
  have hbytes := (takes_index.mp hkind).2
  simp only at h
  split at h
  next =>
    obtain ⟨rfl, rfl⟩ := takes_some.mp h
    exact ⟨trivial, _, rfl, hbytes⟩
  next =>
    obtain ⟨b, _, _, hb, rfl, rfl⟩ := h.exists_of_map
    obtain rfl := takes_boolean.mp hb
    exact ⟨trivial, _, rfl, by simp [hbytes]⟩
  next =>
    obtain ⟨n, _, _, hn, rfl, rfl⟩ := h.exists_of_map
    obtain ⟨bits, rfl, rfl⟩ := takes_word.mp hn
    exact ⟨trivial, _, rfl, by simp [hbytes]⟩
  next =>
    obtain ⟨n, _, _, hn, rfl, rfl⟩ := h.exists_of_map
    obtain ⟨bits, rfl, rfl⟩ := takes_word.mp hn
    exact ⟨trivial, _, rfl, by simp [hbytes]⟩
  next =>
    obtain ⟨text, _, _, htext, rfl, rfl⟩ := h.exists_of_map
    obtain ⟨hsized, rfl⟩ := takes_string.mp htext
    exact ⟨hsized, _, rfl, by simp [hbytes]⟩
  next =>
    obtain ⟨n, _, _, hn, rfl, rfl⟩ := h.exists_of_map
    obtain ⟨bits, rfl, rfl⟩ := takes_word.mp hn
    exact ⟨trivial, _, rfl, by simp [hbytes]⟩
  next =>
    obtain ⟨size, more, hmore, hsize, h⟩ := h.exists_of_bind
    obtain ⟨items, _, _, hitems, rfl, rfl⟩ := h.exists_of_map
    obtain ⟨rfl, hsized, written, hwritten, rfl⟩ := written_of_takes_values hitems
    obtain ⟨hlt, rfl⟩ := takes_length.mp hsize
    exact ⟨⟨hlt, hsized⟩, _, by rw [value?, hwritten]; rfl, by simp [hbytes]⟩
  next =>
    obtain ⟨raw, _, _, hraw, rfl, rfl⟩ := h.exists_of_map
    obtain ⟨hsized, rfl⟩ := takes_block.mp hraw
    exact ⟨hsized, _, rfl, by simp [hbytes]⟩
  next =>
    obtain ⟨_, h⟩ := h
    cases h
termination_by (bytes.length, 0)
decreasing_by exact Prod.Lex.left _ _ (Nat.lt_trans hmore hshorter)

/-- What is taken as that many values was written for them. -/
theorem written_of_takes_values {count : Nat} {bytes rest : Bytes} {items : List Value}
    (h : Takes (takeValues count bytes) items rest) :
    items.length = count ∧ Value.AllSized items ∧
      ∃ written, values? items = some written ∧ bytes = written ++ rest := by
  cases count with
  | zero =>
    rw [takeValues] at h
    obtain ⟨rfl, rfl⟩ := takes_some.mp h
    exact ⟨rfl, trivial, _, rfl, rfl⟩
  | succ count =>
    rw [takeValues] at h
    obtain ⟨item, more, hshorter, hitem, h⟩ := h.exists_of_bind
    obtain ⟨others, _, _, hothers, rfl, rfl⟩ := h.exists_of_map
    obtain ⟨rfl, hall, written, hwritten, rfl⟩ := written_of_takes_values hothers
    obtain ⟨hsized, first, hfirst, rfl⟩ := written_of_takes_value hitem
    refine ⟨rfl, ⟨hsized, hall⟩, first ++ written, ?_, by rw [List.append_assoc]⟩
    rw [values?, hfirst, hwritten]
    rfl
termination_by (bytes.length, 1)
decreasing_by
  · exact Prod.Lex.left _ _ hshorter
  · exact Prod.Lex.right _ (by decide)

end

mutual

/-- The form of a value is read as that value, whatever follows. -/
theorem takes_value : (value : Value) → value.IsSized → {written : Bytes} →
    value? value = some written → (rest : Bytes) →
    Takes (takeValue (written ++ rest)) value rest
  | .null, _, _, hwritten, rest => by
      cases hwritten
      rw [takeValue]
      exact (takes_index.mpr ⟨by decide, rfl⟩).bind fun _ => takes_some.mpr ⟨rfl, rfl⟩
  | .boolean b, _, _, hwritten, rest => by
      cases hwritten
      rw [takeValue, List.append_assoc]
      refine (takes_index.mpr ⟨by decide, rfl⟩).bind fun _ => ?_
      exact (takes_boolean.mpr rfl).bind fun _ => takes_some.mpr ⟨rfl, rfl⟩
  | .integer n, _, _, hwritten, rest => by
      cases hwritten
      rw [takeValue, List.append_assoc]
      refine (takes_index.mpr ⟨by decide, rfl⟩).bind fun _ => ?_
      refine (takes_word.mpr ⟨_, rfl, rfl⟩).bind fun _ => takes_some.mpr ⟨?_, rfl⟩
      simp
  | .float x, _, _, hwritten, rest => by
      cases hwritten
      rw [takeValue, List.append_assoc]
      refine (takes_index.mpr ⟨by decide, rfl⟩).bind fun _ => ?_
      refine (takes_word.mpr ⟨_, rfl, rfl⟩).bind fun _ => takes_some.mpr ⟨?_, rfl⟩
      simp
  | .string text, hsized, _, hwritten, rest => by
      cases hwritten
      rw [takeValue, List.append_assoc]
      refine (takes_index.mpr ⟨by decide, rfl⟩).bind fun _ => ?_
      exact (takes_string.mpr ⟨hsized, rfl⟩).bind fun _ => takes_some.mpr ⟨rfl, rfl⟩
  | .date seconds, _, _, hwritten, rest => by
      cases hwritten
      rw [takeValue, List.append_assoc]
      refine (takes_index.mpr ⟨by decide, rfl⟩).bind fun _ => ?_
      refine (takes_word.mpr ⟨_, rfl, rfl⟩).bind fun _ => takes_some.mpr ⟨?_, rfl⟩
      simp
  | .collection items, hsized, _, hwritten, rest => by
      rw [value?, Option.map_eq_some_iff] at hwritten
      obtain ⟨written, hwritten, rfl⟩ := hwritten
      rw [takeValue, List.append_assoc, List.append_assoc]
      refine (takes_index.mpr ⟨by decide, rfl⟩).bind fun _ => ?_
      refine (takes_length.mpr ⟨hsized.1, rfl⟩).bind fun _ => ?_
      exact (takes_values items hsized.2 hwritten rest).bind fun _ => takes_some.mpr ⟨rfl, rfl⟩
  | .bytes raw, hsized, _, hwritten, rest => by
      cases hwritten
      rw [takeValue, List.append_assoc, List.append_assoc]
      refine (takes_index.mpr ⟨by decide, rfl⟩).bind fun _ => ?_
      refine (takes_block.mpr ⟨hsized, ?_⟩).bind fun _ => takes_some.mpr ⟨rfl, rfl⟩
      rw [List.append_assoc]
  | .object properties, _, _, hwritten, _ => by cases hwritten

/-- The values of a list are taken from what was written for them, whatever follows. -/
theorem takes_values : (items : List Value) → Value.AllSized items → {written : Bytes} →
    values? items = some written → (rest : Bytes) →
    Takes (takeValues items.length (written ++ rest)) items rest
  | [], _, _, hwritten, rest => by
      cases hwritten
      rw [List.length_nil, takeValues]
      exact takes_some.mpr ⟨rfl, rfl⟩
  | item :: items, hsized, _, hwritten, rest => by
      obtain ⟨first, hfirst, hwritten⟩ := Option.bind_eq_some_iff.mp hwritten
      obtain ⟨others, hothers, hwritten⟩ := Option.bind_eq_some_iff.mp hwritten
      cases hwritten
      rw [List.length_cons, takeValues, List.append_assoc]
      refine (takes_value item hsized.1 hfirst _).bind fun _ => ?_
      exact (takes_values items hsized.2 hothers rest).bind fun _ => takes_some.mpr ⟨rfl, rfl⟩

end

mutual

/-- Exactly the values that hold an object have no form. -/
theorem isNone_value? : (value : Value) → (value? value).isNone = value.holdsObject
  | .null | .boolean _ | .integer _ | .float _ | .string _ | .date _ | .bytes _ | .object _ => rfl
  | .collection items => by
      rw [value?, Option.isNone_map, isNone_values? items, Value.holdsObject]

/-- Values are refused exactly if one of them holds an object. -/
theorem isNone_values? : (items : List Value) →
    (values? items).isNone = Value.anyHoldsObject items
  | [] => rfl
  | item :: rest => by
      rw [values?, Value.anyHoldsObject, ← isNone_value? item, ← isNone_values? rest]
      cases value? item <;> cases values? rest <;> rfl

end

/-! ## Trees -/

mutual

/-- What is read as a tree is the form of that tree. -/
theorem written_of_takes_tree {bytes rest : Bytes} {expr : Expr}
    (h : Takes (takeTree bytes) expr rest) :
    expr.IsSized ∧ ∃ written, tree? expr = some written ∧ bytes = written ++ rest := by
  rw [takeTree] at h
  obtain ⟨kind, payload, hshorter, hkind, h⟩ := h.exists_of_bind
  have hbytes := (takes_index.mp hkind).2
  simp only at h
  split at h
  -- One case for each variant index, and a last one for the indices that name no variant.
  next =>
    obtain ⟨value, _, _, hvalue, h⟩ := h.exists_of_bind
    obtain ⟨type, _, _, htype, rfl, rfl⟩ := h.exists_of_map
    obtain ⟨hsized, written, hwritten, rfl⟩ := written_of_takes_value hvalue
    obtain rfl := takes_type.mp htype
    exact ⟨hsized, _, by rw [tree?, hwritten]; rfl, by simp [hbytes]⟩
  next =>
    obtain ⟨path, _, _, hpath, h⟩ := h.exists_of_bind
    obtain ⟨expected, _, _, hexpected, rfl, rfl⟩ := h.exists_of_map
    obtain ⟨hsized, rfl⟩ := takes_string.mp hpath
    obtain rfl := takes_type.mp hexpected
    exact ⟨hsized, _, rfl, by simp [hbytes]⟩
  next =>
    obtain ⟨function, more, hmore, hfunction, h⟩ := h.exists_of_bind
    obtain ⟨size, last, hlast, hsize, h⟩ := h.exists_of_bind
    obtain ⟨arguments, _, _, harguments, h⟩ := h.exists_of_bind
    obtain ⟨expected, _, _, hexpected, rfl, rfl⟩ := h.exists_of_map
    obtain ⟨rfl, hsized, written, hwritten, rfl⟩ := written_of_takes_trees harguments
    obtain ⟨hlt, rfl⟩ := takes_length.mp hsize
    obtain rfl := takes_builtin.mp hfunction
    obtain rfl := takes_type.mp hexpected
    exact ⟨⟨hlt, hsized⟩, _, by rw [tree?, hwritten]; rfl, by simp [hbytes]⟩
  next =>
    obtain ⟨op, more, hmore, hop, h⟩ := h.exists_of_bind
    obtain ⟨operand, _, _, hoperand, rfl, rfl⟩ := h.exists_of_map
    obtain ⟨hsized, written, hwritten, rfl⟩ := written_of_takes_tree hoperand
    obtain rfl := takes_unary.mp hop
    exact ⟨hsized, _, by rw [tree?, hwritten]; rfl, by simp [hbytes]⟩
  next =>
    obtain ⟨op, more, hmore, hop, h⟩ := h.exists_of_bind
    obtain ⟨left, last, hlast, hleft, h⟩ := h.exists_of_bind
    obtain ⟨right, _, _, hright, rfl, rfl⟩ := h.exists_of_map
    obtain ⟨hsizedRight, second, hsecond, rfl⟩ := written_of_takes_tree hright
    obtain ⟨hsizedLeft, first, hfirst, rfl⟩ := written_of_takes_tree hleft
    obtain rfl := takes_binary.mp hop
    exact ⟨⟨hsizedLeft, hsizedRight⟩, _, by rw [tree?, hfirst, hsecond]; rfl, by simp [hbytes]⟩
  next =>
    obtain ⟨_, h⟩ := h
    cases h
termination_by (bytes.length, 0)
decreasing_by
  · exact Prod.Lex.left _ _ (Nat.lt_trans hlast (Nat.lt_trans hmore hshorter))
  · exact Prod.Lex.left _ _ (Nat.lt_trans hmore hshorter)
  · exact Prod.Lex.left _ _ (Nat.lt_trans hlast (Nat.lt_trans hmore hshorter))
  · exact Prod.Lex.left _ _ (Nat.lt_trans hmore hshorter)

theorem written_of_takes_trees {count : Nat} {bytes rest : Bytes} {arguments : List Expr}
    (h : Takes (takeTrees count bytes) arguments rest) :
    arguments.length = count ∧ Expr.AllSized arguments ∧
      ∃ written, trees? arguments = some written ∧ bytes = written ++ rest := by
  cases count with
  | zero =>
    rw [takeTrees] at h
    obtain ⟨rfl, rfl⟩ := takes_some.mp h
    exact ⟨rfl, trivial, _, rfl, rfl⟩
  | succ count =>
    rw [takeTrees] at h
    obtain ⟨argument, more, hshorter, hargument, h⟩ := h.exists_of_bind
    obtain ⟨others, _, _, hothers, rfl, rfl⟩ := h.exists_of_map
    obtain ⟨rfl, hall, written, hwritten, rfl⟩ := written_of_takes_trees hothers
    obtain ⟨hsized, first, hfirst, rfl⟩ := written_of_takes_tree hargument
    refine ⟨rfl, ⟨hsized, hall⟩, first ++ written, ?_, by rw [List.append_assoc]⟩
    rw [trees?, hfirst, hwritten]
    rfl
termination_by (bytes.length, 1)
decreasing_by
  · exact Prod.Lex.left _ _ hshorter
  · exact Prod.Lex.right _ (by decide)

end

mutual

/-- The form of a tree is read as that tree, whatever follows. -/
theorem takes_tree : (expr : Expr) → expr.IsSized → {written : Bytes} →
    tree? expr = some written → (rest : Bytes) → Takes (takeTree (written ++ rest)) expr rest
  | .literal value type, hsized, _, hwritten, rest => by
      obtain ⟨written, hvalue, hwritten⟩ := Option.bind_eq_some_iff.mp hwritten
      cases hwritten
      rw [takeTree, List.append_assoc, List.append_assoc]
      refine (takes_index.mpr ⟨by decide, rfl⟩).bind fun _ => ?_
      refine (takes_value value hsized hvalue _).bind fun _ => ?_
      exact (takes_type.mpr rfl).bind fun _ => takes_some.mpr ⟨rfl, rfl⟩
  | .reference path expected, hsized, _, hwritten, rest => by
      cases hwritten
      rw [takeTree, List.append_assoc, List.append_assoc]
      refine (takes_index.mpr ⟨by decide, rfl⟩).bind fun _ => ?_
      refine (takes_string.mpr ⟨hsized, rfl⟩).bind fun _ => ?_
      exact (takes_type.mpr rfl).bind fun _ => takes_some.mpr ⟨rfl, rfl⟩
  | .call function arguments expected, hsized, _, hwritten, rest => by
      obtain ⟨written, harguments, hwritten⟩ := Option.bind_eq_some_iff.mp hwritten
      cases hwritten
      rw [takeTree, List.append_assoc, List.append_assoc, List.append_assoc, List.append_assoc]
      refine (takes_index.mpr ⟨by decide, rfl⟩).bind fun _ => ?_
      refine (takes_builtin.mpr rfl).bind fun _ => ?_
      refine (takes_length.mpr ⟨hsized.1, rfl⟩).bind fun _ => ?_
      refine (takes_trees arguments hsized.2 harguments _).bind fun _ => ?_
      exact (takes_type.mpr rfl).bind fun _ => takes_some.mpr ⟨rfl, rfl⟩
  | .unary op operand, hsized, _, hwritten, rest => by
      obtain ⟨written, hoperand, hwritten⟩ := Option.bind_eq_some_iff.mp hwritten
      cases hwritten
      rw [takeTree, List.append_assoc, List.append_assoc]
      refine (takes_index.mpr ⟨by decide, rfl⟩).bind fun _ => ?_
      refine (takes_unary.mpr rfl).bind fun _ => ?_
      exact (takes_tree operand hsized hoperand rest).bind fun _ => takes_some.mpr ⟨rfl, rfl⟩
  | .binary op left right, hsized, _, hwritten, rest => by
      obtain ⟨first, hfirst, hwritten⟩ := Option.bind_eq_some_iff.mp hwritten
      obtain ⟨second, hsecond, hwritten⟩ := Option.bind_eq_some_iff.mp hwritten
      cases hwritten
      rw [takeTree, List.append_assoc, List.append_assoc, List.append_assoc]
      refine (takes_index.mpr ⟨by decide, rfl⟩).bind fun _ => ?_
      refine (takes_binary.mpr rfl).bind fun _ => ?_
      refine (takes_tree left hsized.1 hfirst _).bind fun _ => ?_
      exact (takes_tree right hsized.2 hsecond rest).bind fun _ => takes_some.mpr ⟨rfl, rfl⟩

theorem takes_trees : (arguments : List Expr) → Expr.AllSized arguments → {written : Bytes} →
    trees? arguments = some written → (rest : Bytes) →
    Takes (takeTrees arguments.length (written ++ rest)) arguments rest
  | [], _, _, hwritten, rest => by
      cases hwritten
      rw [List.length_nil, takeTrees]
      exact takes_some.mpr ⟨rfl, rfl⟩
  | argument :: arguments, hsized, _, hwritten, rest => by
      obtain ⟨first, hfirst, hwritten⟩ := Option.bind_eq_some_iff.mp hwritten
      obtain ⟨others, hothers, hwritten⟩ := Option.bind_eq_some_iff.mp hwritten
      cases hwritten
      rw [List.length_cons, takeTrees, List.append_assoc]
      refine (takes_tree argument hsized.1 hfirst _).bind fun _ => ?_
      exact (takes_trees arguments hsized.2 hothers rest).bind fun _ => takes_some.mpr ⟨rfl, rfl⟩

end

mutual

/-- Exactly the trees that hold an object have no form. -/
theorem isNone_tree? : (expr : Expr) → (tree? expr).isNone = expr.holdsObject
  | .literal value type => by
      rw [tree?, Expr.holdsObject, ← isNone_value? value]
      cases value? value <;> rfl
  | .reference _ _ => rfl
  | .call function arguments expected => by
      rw [tree?, Expr.holdsObject, ← isNone_trees? arguments]
      cases trees? arguments <;> rfl
  | .unary op operand => by
      rw [tree?, Expr.holdsObject, ← isNone_tree? operand]
      cases tree? operand <;> rfl
  | .binary op left right => by
      rw [tree?, Expr.holdsObject, ← isNone_tree? left, ← isNone_tree? right]
      cases tree? left <;> cases tree? right <;> rfl

theorem isNone_trees? : (arguments : List Expr) →
    (trees? arguments).isNone = Expr.anyHoldsObject arguments
  | [] => rfl
  | argument :: rest => by
      rw [trees?, Expr.anyHoldsObject, ← isNone_tree? argument, ← isNone_trees? rest]
      cases tree? argument <;> cases trees? rest <;> rfl

end

/-! ## Messages -/

/-- The binary form of expressions is exact. A tree is refused if it holds an object. Any other tree
has a form, which is read as that tree whatever follows it, as long as the lengths in the tree are
numbers of a machine. Bytes that are read as a tree begin with its form. -/
theorem encode_decode (expr : Expr) :
    (expr.holdsObject = true → encode expr = .error .codec) ∧
      (expr.holdsObject = false → ∃ bytes, encode expr = .ok bytes ∧
        (expr.IsSized → ∀ rest, decode (bytes ++ rest) = .ok expr)) ∧
      ∀ bytes, decode bytes = .ok expr → ∃ written, encode expr = .ok written ∧
        written <+: bytes := by
  refine ⟨?_, ?_, ?_⟩
  · intro hobject
    rw [← isNone_tree?, Option.isNone_iff_eq_none] at hobject
    rw [encode, hobject]
  · intro hobject
    obtain ⟨written, hwritten⟩ : ∃ written, tree? expr = some written := by
      rw [← isNone_tree?, Option.isNone_eq_false_iff] at hobject
      exact Option.isSome_iff_exists.mp hobject
    refine ⟨version :: written, by rw [encode, hwritten], fun hsized rest => ?_⟩
    obtain ⟨shorter, htakes⟩ := takes_tree expr hsized hwritten rest
    rw [List.cons_append, decode, if_neg (not_not_intro rfl), htakes]
  · intro bytes hdecode
    cases bytes with
    | nil => cases hdecode
    | cons first payload =>
        rw [decode] at hdecode
        split at hdecode
        next => cases hdecode
        next hversion =>
          split at hdecode
          next taken htaken =>
            cases hdecode
            obtain ⟨-, written, hwritten, hpayload⟩ :=
              written_of_takes_tree ⟨taken.shorter, htaken⟩
            refine ⟨version :: written, by rw [encode, hwritten], taken.rest, ?_⟩
            rw [Decidable.of_not_not hversion, List.cons_append, ← hpayload]
          next => cases hdecode

/-- A collection in a literal is sent, and what follows the tree is not read. -/
theorem decode_membership :
    ∃ bytes, encode (.binary .containsOneOf (.reference "object.a" .any)
        (.literal (.collection [.integer 1, .string "é"]) .collection)) = .ok bytes ∧
      decode (bytes ++ [0, 255]) = .ok (.binary .containsOneOf (.reference "object.a" .any)
        (.literal (.collection [.integer 1, .string "é"]) .collection)) := by
  obtain ⟨-, hencode, -⟩ := encode_decode (.binary .containsOneOf (.reference "object.a" .any)
    (.literal (.collection [.integer 1, .string "é"]) .collection))
  obtain ⟨bytes, hbytes, hdecode⟩ := hencode rfl
  have hpath : (Text.bytesOf "object.a").length < 2 ^ 64 := by decide
  have htext : (Text.bytesOf "é").length < 2 ^ 64 := by decide
  exact ⟨bytes, hbytes, hdecode ⟨hpath, by decide, trivial, htext, trivial⟩ _⟩

end Wire

end RowFilter
