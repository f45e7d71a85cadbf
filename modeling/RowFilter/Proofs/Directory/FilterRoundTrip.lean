import Mathlib.Data.List.DropRight
import RowFilter.Proofs.Directory.FilterReading
import RowFilter.Proofs.Outcome

/-! # Which search filters survive their spelling

A filter that is read back from its spelling is well-formed: a list that is read has a filter in
it, a name that is read has been trimmed and stops before the sign, and the reader makes no empty
chunks. With the reading of well-formed filters this decides the round trip for every filter.
-/

namespace RowFilter.Text

theorem dropWhile_trim (text : List Char) : (trim text).dropWhile isWhitespace = trim text := by
  rw [List.dropWhile_eq_self_iff]
  intro hlength hspace
  have hprefix : trim text <+: text.dropWhile isWhitespace := List.rdropWhile_prefix _ _
  have hfirst := List.dropWhile_eq_self_iff.mp (List.dropWhile_idempotent isWhitespace text)
  refine hfirst (lt_of_lt_of_le hlength hprefix.length_le) ?_
  rwa [← hprefix.getElem hlength]

/-- What is trimmed is trimmed. -/
theorem trim_trim (text : List Char) : trim (trim text) = trim text := by
  rw [trim, dropWhile_trim]
  exact List.rdropWhile_idempotent isWhitespace _

end RowFilter.Text

namespace RowFilter.Directory.SearchFilter

open Text

/-! ## Items -/

/-- The attribute name of an item. -/
def subject? : SearchFilter → Option String
  | and _ | or _ | not _ => none
  | equal name _ | greaterOrEqual name _ | lessOrEqual name _ | present name
  | substring name _ _ _ => some name

/-- No chunk of a substring assertion is empty. -/
def ChunksNonempty : SearchFilter → Prop
  | substring _ initial middle final => initial ≠ some [] ∧ [] ∉ middle ∧ final ≠ some []
  | _ => True

theorem bind_chunk?_ne (chunk : Option Bytes) : chunk.bind chunk? ≠ some [] := by
  cases chunk with
  | none => exact nofun
  | some bytes =>
      cases bytes with
      | nil => exact nofun
      | cons b rest =>
          intro h
          cases h

theorem chunksNonempty_ofChunks (name : String) (chunks : List Bytes) :
    (ofChunks name chunks).ChunksNonempty :=
  ⟨bind_chunk?_ne _, by simp, bind_chunk?_ne _⟩

/-- The item of a name has that name and no empty chunk. -/
theorem ofItem_spec {name : String} {sign : Relation} {raw : Bytes} {filter : SearchFilter}
    (h : ofItem name sign raw = .ok filter) :
    filter.subject? = some name ∧ filter.ChunksNonempty := by
  cases sign with
  | equal =>
      rw [ofItem] at h
      split at h
      next =>
        cases h
        exact ⟨rfl, trivial⟩
      next =>
        split at h
        next =>
          obtain ⟨chunks, -, h⟩ := bind_eq_ok.mp h
          cases h
          exact ⟨rfl, chunksNonempty_ofChunks name chunks⟩
        next =>
          obtain ⟨content, -, h⟩ := bind_eq_ok.mp h
          cases h
          exact ⟨rfl, trivial⟩
  | greaterOrEqual | lessOrEqual | approximate =>
      obtain ⟨content, -, h⟩ := bind_eq_ok.mp h
      cases h
      exact ⟨rfl, trivial⟩

/-- What is read as an item does not begin like a connective, and its name is what precedes the
sign. -/
theorem item_of_inside {total : Nat} {bytes : Bytes} {read : Reading SearchFilter bytes.length}
    (h : inside total bytes = .ok read) {name : String} (hname : read.value.subject? = some name) :
    (∀ c ∈ ['&', '|', '!'], bytes.head? ≠ some (byteOf c)) ∧
      nameOf total bytes (bytes.takeWhile fun b => !endsName b) = .ok name ∧
      read.value.ChunksNonempty := by
  have hread (h : item total bytes = .ok read) :
      nameOf total bytes (bytes.takeWhile fun b => !endsName b) = .ok name ∧
        read.value.ChunksNonempty := by
    obtain ⟨found, hfound, h⟩ := bind_eq_ok.mp h
    obtain ⟨sign, -, h⟩ := bind_eq_ok.mp h
    obtain ⟨filter, hfilter, h⟩ := bind_eq_ok.mp h
    cases h
    obtain ⟨hsubject, hchunks⟩ := ofItem_spec hfilter
    obtain rfl := Option.some.inj (hsubject.symm.trans hname)
    exact ⟨hfound, hchunks⟩
  cases bytes with
  | nil => exact ⟨by simp, hread (by rwa [inside] at h)⟩
  | cons b rest =>
      rw [inside] at h
      split at h
      next =>
        obtain ⟨list, -, h⟩ := bind_eq_ok.mp h
        cases h
        cases hname
      next hand =>
        split at h
        next =>
          obtain ⟨list, -, h⟩ := bind_eq_ok.mp h
          cases h
          cases hname
        next hor =>
          split at h
          next =>
            obtain ⟨negated, -, h⟩ := bind_eq_ok.mp h
            cases h
            cases hname
          next hnot => exact ⟨by simp [hand, hor, hnot], hread h⟩

/-- A name that was read is the trimmed text in front of the relation. -/
theorem trim_of_nameOf {total : Nat} {bytes spelled : Bytes} {name : String}
    (h : nameOf total bytes spelled = .ok name) :
    ∃ text, spelled = encode text ∧ name.toList = trim text ∧ name.toList ≠ [] := by
  unfold nameOf at h
  split at h
  next => cases h
  next text hdecode =>
    split at h
    next => cases h
    next hne =>
      cases h
      rw [String.toList_ofList]
      exact ⟨text, decode?_eq_some_iff.mp hdecode, rfl, hne⟩

/-- A name that is read from the front of a text is one that can be read back. -/
theorem isName_of_inside {total : Nat} {name : String} {text : List Char} {rest : Bytes}
    {read : Reading SearchFilter (encode (name.toList ++ text) ++ rest).length}
    (h : inside total (encode (name.toList ++ text) ++ rest) = .ok read)
    (hsubject : read.value.subject? = some name) : IsName name := by
  obtain ⟨hhead, hname, -⟩ := item_of_inside h hsubject
  obtain ⟨spelled, hspelled, htrim, hne⟩ := trim_of_nameOf hname
  refine ⟨by rw [htrim, trim_trim], fun c hc hends => ?_, ?_⟩
  · have hbyte : byteOf c ∈ encode spelled := by
      have hascii : ∀ c ∈ ['=', '>', '<', '~', '(', ')'], c.toNat < 128 :=
        List.all_iff_forall_prop.mp (by decide)
      refine List.mem_flatMap.mpr ⟨c, mem_of_mem_trim (htrim ▸ hc), ?_⟩
      simp [encodeChar_of_ascii (hascii c hends)]
    have hnot := List.mem_takeWhile_imp (hspelled ▸ hbyte)
    have hstop : endsName (byteOf c) = true := List.any_eq_true.mpr ⟨c, hends, beq_self_eq_true _⟩
    simp [hstop] at hnot
  · obtain ⟨c, more, hcons⟩ := List.exists_cons_of_ne_nil hne
    refine ⟨c, more, hcons, fun hbegins => hhead c hbegins ?_⟩
    have hascii : ∀ c ∈ ['&', '|', '!'], c.toNat < 128 := List.all_iff_forall_prop.mp (by decide)
    rw [hcons, List.cons_append, encode_cons, encodeChar_of_ascii (hascii c hbegins)]
    rfl

/-! ## Nested filters -/

/-- An expected byte that was read is the first one. -/
theorem rest_of_expect {total : Nat} {wanted : UInt8} {bytes : Bytes}
    {read : Reading Unit bytes.length} (h : expect total wanted bytes = .ok read) :
    bytes = wanted :: read.rest := by
  cases bytes with
  | nil => cases h
  | cons b rest =>
      rw [expect] at h
      split at h
      next hb =>
        cases h
        rw [hb]
      next => cases h

/-- What is read with brackets is read between them. -/
theorem inside_of_bracketed {total : Nat} {bytes : Bytes}
    {read : Reading SearchFilter (byteOf '(' :: bytes).length}
    (h : bracketed total (byteOf '(' :: bytes) = .ok read) :
    ∃ between, inside total bytes = .ok between ∧ between.value = read.value ∧
      between.rest = byteOf ')' :: read.rest := by
  rw [bracketed] at h
  obtain ⟨⟨_, opened, _⟩, hopening, h⟩ := bind_eq_ok.mp h
  obtain rfl : bytes = opened := (List.cons.inj (rest_of_expect hopening)).2
  obtain ⟨between, hbetween, h⟩ := bind_eq_ok.mp h
  obtain ⟨closing, hclosing, h⟩ := bind_eq_ok.mp h
  cases h
  exact ⟨between, hbetween, rfl, rest_of_expect hclosing⟩

theorem filters_of_filterList {total : Nat} {bytes : Bytes}
    {read : Reading (List SearchFilter) (bytes.length + 1)}
    (h : filterList total bytes = .ok read) : filters total bytes = .ok read ∧ read.value ≠ [] := by
  rw [filterList] at h
  obtain ⟨list, hlist, h⟩ := bind_eq_ok.mp h
  split at h
  next => cases h
  next hne =>
    cases h
    exact ⟨hlist, by simpa using hne⟩

/-- Chunks that are all empty are those of a presence item. -/
theorem eq_none_of_chunksOf {initial final : Option Bytes} {middle : List Bytes}
    (h : initial ≠ some [] ∧ [] ∉ middle ∧ final ≠ some [])
    (hall : ∀ chunk ∈ chunksOf initial middle final, chunk = []) :
    initial = none ∧ middle = [] ∧ final = none := by
  obtain ⟨hinitial, hmiddle, hfinal⟩ := h
  simp only [chunksOf, List.forall_mem_cons, List.forall_mem_append, List.not_mem_nil,
    false_implies, implies_true, and_true] at hall
  obtain ⟨hfirst, hbetween, hlast⟩ := hall
  refine ⟨?_, List.eq_nil_iff_forall_not_mem.mpr fun chunk hchunk => ?_, ?_⟩
  · cases initial with
    | none => rfl
    | some chunk => exact absurd (congrArg some hfirst) hinitial
  · exact hmiddle (hbetween chunk hchunk ▸ hchunk)
  · cases final with
    | none => rfl
    | some chunk => exact absurd (congrArg some hlast) hfinal

/-- The bytes of a filter in brackets before other bytes. -/
theorem encode_bracketed (text more : List Char) (rest : Bytes) :
    encode ('(' :: (text ++ ')' :: more)) ++ rest =
      byteOf '(' :: (encode text ++ byteOf ')' :: (encode more ++ rest)) := by
  rw [encode_cons, encode_append, encode_cons, encodeChar_of_ascii (by decide),
    encodeChar_of_ascii (by decide)]
  simp

theorem encode_cons_append {c : Char} (hc : c.toNat < 128) (text : List Char) (rest : Bytes) :
    encode (c :: text) ++ rest = byteOf c :: (encode text ++ rest) := by
  rw [encode_cons, encodeChar_of_ascii hc, List.append_assoc, List.singleton_append]

mutual

/-- A filter that stands in brackets as it is written, and is read from there, is well-formed. -/
theorem wellFormed_of_inside : (filter : SearchFilter) → ∀ {total : Nat} {bytes rest : Bytes}
    {read : Reading SearchFilter bytes.length}, bytes = encode filter.inner ++ byteOf ')' :: rest →
      inside total bytes = .ok read → read.value = filter → filter.WellFormed
  | and list, total, _, rest, read, hbytes, h, hvalue => by
      rw [inner, encode_cons_append (by decide)] at hbytes
      subst hbytes
      rw [inside, if_pos rfl] at h
      obtain ⟨found, hfound, h⟩ := bind_eq_ok.mp h
      cases h
      have hlist := and.inj hvalue
      obtain ⟨hfilters, hne⟩ := filters_of_filterList hfound
      exact ⟨hlist ▸ hne, allWellFormed_of_filters list rfl hfilters hlist⟩
  | or list, total, _, rest, read, hbytes, h, hvalue => by
      rw [inner, encode_cons_append (by decide)] at hbytes
      subst hbytes
      rw [inside, if_neg (by decide), if_pos rfl] at h
      obtain ⟨found, hfound, h⟩ := bind_eq_ok.mp h
      cases h
      have hlist := or.inj hvalue
      obtain ⟨hfilters, hne⟩ := filters_of_filterList hfound
      exact ⟨hlist ▸ hne, allWellFormed_of_filters list rfl hfilters hlist⟩
  | not filter, total, _, rest, read, hbytes, h, hvalue => by
      rw [inner, encode_cons_append (by decide), encode_bracketed] at hbytes
      subst hbytes
      rw [inside, if_neg (by decide), if_neg (by decide), if_pos rfl] at h
      obtain ⟨negated, hnegated, h⟩ := bind_eq_ok.mp h
      cases h
      obtain ⟨between, hbetween, hsame, -⟩ := inside_of_bracketed hnegated
      exact wellFormed_of_inside filter rfl hbetween (hsame.trans (not.inj hvalue))
  | equal name assertion, total, _, rest, read, hbytes, h, hvalue => by
      subst hbytes
      exact isName_of_inside h (by rw [hvalue, subject?])
  | greaterOrEqual name assertion, total, _, rest, read, hbytes, h, hvalue => by
      subst hbytes
      exact isName_of_inside h (by rw [hvalue, subject?])
  | lessOrEqual name assertion, total, _, rest, read, hbytes, h, hvalue => by
      subst hbytes
      exact isName_of_inside h (by rw [hvalue, subject?])
  | present name, total, _, rest, read, hbytes, h, hvalue => by
      subst hbytes
      exact isName_of_inside h (by rw [hvalue, subject?])
  | substring name initial middle final, total, _, rest, read, hbytes, h, hvalue => by
      subst hbytes
      have hname := isName_of_inside h (by rw [hvalue, subject?])
      have hchunks := (item_of_inside h (by rw [hvalue, subject?])).2.2
      rw [hvalue] at hchunks
      refine ⟨hname, Classical.byContradiction fun hnone => ?_, hchunks⟩
      -- Chunks that are all empty are written like the presence of the attribute.
      obtain ⟨rfl, rfl, rfl⟩ := eq_none_of_chunksOf hchunks (by simpa using hnone)
      obtain ⟨_, hread⟩ := (spelled_chunks hname (List.cons_ne_nil [] [[]])).inside total rest
      have hpresent : read.value = .present name := by
        obtain rfl := Except.ok.inj (h.symm.trans hread)
        rfl
      cases hpresent.symm.trans hvalue

/-- Filters that were read of their own spelling are well-formed. -/
theorem allWellFormed_of_filters : (list : List SearchFilter) → ∀ {total : Nat}
    {bytes rest : Bytes} {read : Reading (List SearchFilter) (bytes.length + 1)},
      bytes = encode (spellAll list) ++ byteOf ')' :: rest → filters total bytes = .ok read →
        read.value = list → AllWellFormed list
  | [], _, _, _, _, _, _, _ => trivial
  | filter :: more, total, _, rest, read, hbytes, h, hvalue => by
      rw [spellAll, encode_bracketed] at hbytes
      subst hbytes
      rw [filters, if_pos rfl] at h
      obtain ⟨⟨_, _, _⟩, hfirst, h⟩ := bind_eq_ok.mp h
      obtain ⟨others, hothers, h⟩ := bind_eq_ok.mp h
      cases h
      obtain ⟨hvalue, hmore⟩ := List.cons.inj hvalue
      obtain ⟨between, hbetween, hsame, -⟩ := inside_of_bracketed hfirst
      have hformed := wellFormed_of_inside filter rfl hbetween (hsame.trans hvalue)
      -- Now that the first filter is known to be well-formed, it is known where its text ends.
      obtain ⟨_, hread⟩ := bracketed_of_inside ((spelled_inner _ hformed).inside total
        (encode (spellAll more) ++ byteOf ')' :: rest))
      obtain ⟨-, rfl⟩ := Reading.mk.inj (Except.ok.inj (hfirst.symm.trans hread))
      exact ⟨hformed, allWellFormed_of_filters more rfl hothers hmore⟩

end

/-- Reading the spelling of a filter gives the filter back exactly if the filter is well-formed. -/
theorem parse_spell_eq_ok_iff (filter : SearchFilter) :
    parse (String.ofList filter.spell) = .ok filter ↔ filter.WellFormed := by
  constructor
  · intro h
    have hbytes : bytesOf (String.ofList filter.spell) =
        byteOf '(' :: (encode filter.inner ++ byteOf ')' :: []) := by
      rw [bytesOf, String.toList_ofList, spell, ← List.append_nil (encode _), encode_bracketed]
      rfl
    rw [parse, hbytes, ofBytes] at h
    split at h
    next found hfound =>
      obtain ⟨read, hread, hfound⟩ := bind_eq_ok.mp hfound
      obtain ⟨between, hbetween, hsame, -⟩ := inside_of_bracketed hread
      refine wellFormed_of_inside filter rfl hbetween (hsame.trans ?_)
      split at hfound
      next => exact (Except.ok.inj hfound).trans (Except.ok.inj h)
      next => cases hfound
    next => cases h
  · exact parse_spell

end RowFilter.Directory.SearchFilter
