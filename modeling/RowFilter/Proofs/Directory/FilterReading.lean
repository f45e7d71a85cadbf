import RowFilter.Proofs.Directory.FilterSpelling

/-! # Reading spelled search filters

The reader of search filters gives a well-formed filter back from its spelling and stops right
after it.
-/

namespace RowFilter.Directory.SearchFilter

open Text

/-- What ends a name is a sign of a relation or a bracket. -/
theorem endsName_byteOf {b : UInt8} (h : endsName b = true) :
    ∃ c ∈ ['=', '>', '<', '~', '(', ')'], b = byteOf c := by
  obtain ⟨c, hc, hb⟩ := List.any_eq_true.mp h
  exact ⟨c, hc, by simpa using hb⟩

/-- No byte of a name ends the name. -/
theorem endsName_eq_false {name : String} (hname : IsName name) {b : UInt8}
    (hb : b ∈ encode name.toList) : endsName b = false := by
  refine Bool.eq_false_iff.mpr fun h => ?_
  obtain ⟨c, hc, rfl⟩ := endsName_byteOf h
  have hascii : c.toNat < 128 := by
    have hall : ∀ c ∈ ['=', '>', '<', '~', '(', ')'], c.toNat < 128 :=
      List.all_iff_forall_prop.mp (by decide)
    exact hall c hc
  exact hname.ends c (byteOf_mem_encode hascii hb) hc

/-- Nothing in a value without brackets ends it. -/
theorem endsValue_eq_false {value : List Char} (hopen : '(' ∉ value) (hclose : ')' ∉ value)
    {b : UInt8} (hb : b ∈ encode value) : endsValue b = false := by
  refine Bool.eq_false_iff.mpr fun h => ?_
  simp only [endsValue, Bool.or_eq_true, beq_iff_eq] at h
  rcases h with rfl | rfl
  · exact hopen (byteOf_mem_encode (by decide) hb)
  · exact hclose (byteOf_mem_encode (by decide) hb)

theorem takeWhile_append_stop {p : UInt8 → Bool} {bytes : Bytes} {stop : UInt8}
    (h : ∀ b ∈ bytes, p b = true) (hstop : p stop = false) (rest : Bytes) :
    (bytes ++ stop :: rest).takeWhile p = bytes := by
  rw [List.takeWhile_append_of_pos h, List.takeWhile_cons_of_neg (by simp [hstop]), List.append_nil]

theorem dropWhile_append_stop {p : UInt8 → Bool} {bytes : Bytes} {stop : UInt8}
    (h : ∀ b ∈ bytes, p b = true) (hstop : p stop = false) (rest : Bytes) :
    (bytes ++ stop :: rest).dropWhile p = stop :: rest := by
  rw [List.dropWhile_append_of_pos h, List.dropWhile_cons_of_neg (by simp [hstop])]

/-- A name is read back from its bytes. -/
theorem nameOf_encode {name : String} (hname : IsName name) (total : Nat) (bytes : Bytes) :
    nameOf total bytes (encode name.toList) = .ok name := by
  obtain ⟨c, rest, hcons, -⟩ := hname.begins
  have htrimmed := hname.trimmed
  rw [hcons] at htrimmed
  simp only [nameOf, decode?_encode, hcons, htrimmed]
  rw [← hcons, String.ofList_toList]

/-- The symbol of a relation. -/
def Relation.symbol : Relation → List Char
  | equal => ['=']
  | greaterOrEqual => ['>', '=']
  | lessOrEqual => ['<', '=']
  | approximate => ['~', '=']

/-- A relation is read back from its symbol, whatever follows. -/
theorem relation_symbol (total : Nat) (sign : Relation) (rest : Bytes) :
    ∃ h, relation total (encode sign.symbol ++ rest) = .ok ⟨sign, rest, h⟩ := by
  cases sign with
  | equal => exact ⟨_, rfl⟩
  | greaterOrEqual => exact ⟨_, rfl⟩
  | lessOrEqual => exact ⟨_, rfl⟩
  | approximate => exact ⟨_, rfl⟩

theorem symbol_eq_cons (sign : Relation) :
    ∃ b more, encode sign.symbol = b :: more ∧ endsName b = true := by
  cases sign <;> exact ⟨_, _, rfl, by decide⟩

/-- An item is read up to the bracket that closes it. -/
theorem item_encode {name : String} (hname : IsName name) (sign : Relation) {value : List Char}
    (hopen : '(' ∉ value) (hclose : ')' ∉ value) {filter : SearchFilter}
    (hfilter : ofItem name sign (encode value) = .ok filter) (total : Nat) (rest : Bytes) :
    ∃ h, item total (encode (name.toList ++ (sign.symbol ++ value)) ++ byteOf ')' :: rest) =
      .ok ⟨filter, byteOf ')' :: rest, h⟩ := by
  obtain ⟨b, more, hsymbol, hends⟩ := symbol_eq_cons sign
  have hbytes : encode (name.toList ++ (sign.symbol ++ value)) ++ byteOf ')' :: rest =
      encode name.toList ++ b :: (more ++ (encode value ++ byteOf ')' :: rest)) := by
    simp only [encode_append, hsymbol, List.append_assoc, List.cons_append]
  -- The sign is the first thing that ends a name, the bracket the first that ends a value.
  have hin : ∀ b ∈ encode name.toList, (!endsName b) = true := by
    intro b hb
    simp [endsName_eq_false hname hb]
  have hvalue : ∀ b ∈ encode value, (!endsValue b) = true := by
    intro b hb
    simp [endsValue_eq_false hopen hclose hb]
  have hstop : (!endsName b) = false := by simp [hends]
  have htake := takeWhile_append_stop hin hstop (more ++ (encode value ++ byteOf ')' :: rest))
  have hdrop := dropWhile_append_stop hin hstop (more ++ (encode value ++ byteOf ')' :: rest))
  rw [← hbytes] at htake hdrop
  have hrelation : ∃ h, relation total ((encode (name.toList ++ (sign.symbol ++ value)) ++
      byteOf ')' :: rest).dropWhile fun b => !endsName b) =
        .ok ⟨sign, encode value ++ byteOf ')' :: rest, h⟩ := by
    rw [hdrop, ← List.cons_append, ← hsymbol]
    exact relation_symbol total sign _
  obtain ⟨hshorter, hrelation⟩ := hrelation
  have htakeValue : (encode value ++ byteOf ')' :: rest).takeWhile (fun b => !endsValue b) =
      encode value := takeWhile_append_stop hvalue (by decide) rest
  have hdropValue : (encode value ++ byteOf ')' :: rest).dropWhile (fun b => !endsValue b) =
      byteOf ')' :: rest := dropWhile_append_stop hvalue (by decide) rest
  unfold item
  rw [htake, nameOf_encode hname, hrelation]
  simp only [Bind.bind, Except.bind, htakeValue, hfilter, hdropValue]
  refine ⟨?_, rfl⟩
  rw [hbytes]
  simp only [List.length_append, List.length_cons]
  omega

/-- The filter that asserts a relation to a value. -/
def Relation.assertion (name : String) (content : Bytes) : Relation → SearchFilter
  | equal | approximate => .equal name content
  | greaterOrEqual => .greaterOrEqual name content
  | lessOrEqual => .lessOrEqual name content

/-- An assertion without asterisks is no pattern, whatever the relation. -/
theorem ofItem_of_unescape (name : String) (sign : Relation) {value : List Char} {content : Bytes}
    (hstar : '*' ∉ value) (h : unescape (encode value) = .ok content) :
    ofItem name sign (encode value) = .ok (sign.assertion name content) := by
  have hmem : byteOf '*' ∉ encode value := fun hmem => hstar (byteOf_mem_encode (by decide) hmem)
  cases sign with
  | equal =>
      have halone : encode value ≠ [byteOf '*'] := by
        intro heq
        exact hmem (by simp [heq])
      have hcontains : ¬ (encode value).contains (byteOf '*') = true := by simpa using hmem
      rw [ofItem, if_neg halone, if_neg hcontains, h]
      rfl
  | greaterOrEqual | lessOrEqual | approximate =>
      rw [ofItem, h]
      rfl

/-- An escaped assertion is read as the assertion. -/
theorem ofItem_escapeBytes (name : String) (sign : Relation) (assertion : Bytes) :
    ofItem name sign (encode (escapeBytes assertion)) = .ok (sign.assertion name assertion) :=
  ofItem_of_unescape name sign (notMem_escapeBytes (by decide) (by decide))
    (unescape_escapeBytes assertion)

theorem encode_intercalate (chunks : List Bytes) :
    encode (['*'].intercalate (chunks.map escapeBytes)) =
      [byteOf '*'].intercalate (chunks.map fun chunk => encode (escapeBytes chunk)) := by
  induction chunks with
  | nil => rfl
  | cons first rest ih =>
      cases rest with
      | nil => simp
      | cons second more =>
          simp only [List.map_cons, List.intercalate_cons_cons] at ih ⊢
          rw [encode_append, encode_append, ih]
          rfl

/-- Escaped chunks are unescaped to the chunks. -/
theorem mapM_unescape (chunks : List Bytes) :
    (chunks.map fun chunk => encode (escapeBytes chunk)).mapM unescape = .ok chunks := by
  induction chunks with
  | nil => rfl
  | cons chunk rest ih =>
      rw [List.map_cons, List.mapM_cons, unescape_escapeBytes, ih]
      rfl

theorem chunk?_getD {chunk : Option Bytes} (h : chunk ≠ some []) :
    chunk? (chunk.getD []) = chunk := by
  cases chunk with
  | none => rfl
  | some bytes =>
      cases bytes with
      | nil => exact absurd rfl h
      | cons b rest => rfl

/-- Chunks with a missing end are read as a substring assertion without that end. -/
theorem ofChunks_chunksOf {name : String} {initial final : Option Bytes} {middle : List Bytes}
    (hinitial : initial ≠ some []) (hmiddle : [] ∉ middle) (hfinal : final ≠ some []) :
    ofChunks name (chunksOf initial middle final) = .substring name initial middle final := by
  have hkept : middle.filter (fun chunk => !chunk.isEmpty) = middle := by
    rw [List.filter_eq_self]
    intro chunk hchunk
    cases chunk with
    | nil => exact absurd hchunk hmiddle
    | cons b rest => rfl
  simp only [ofChunks, chunksOf, List.head?_cons, Option.bind_some, chunk?_getD hinitial,
    List.drop_succ_cons, List.drop_zero, List.dropLast_concat, hkept]
  rw [← List.cons_append, List.getLast?_concat, Option.bind_some, chunk?_getD hfinal]

/-! ## Nested filters -/

theorem expect_cons (total : Nat) (b : UInt8) (rest : Bytes) :
    ∃ h, expect total b (b :: rest) = .ok ⟨(), rest, h⟩ := by
  refine ⟨Nat.lt_succ_self _, ?_⟩
  rw [expect, if_pos rfl]

/-- What is read between brackets is read with them. -/
theorem bracketed_of_inside {total : Nat} {bytes rest : Bytes} {filter : SearchFilter}
    (h : ∃ hlt, inside total (bytes ++ byteOf ')' :: rest) =
      .ok ⟨filter, byteOf ')' :: rest, hlt⟩) :
    ∃ hlt, bracketed total (byteOf '(' :: (bytes ++ byteOf ')' :: rest)) =
      .ok ⟨filter, rest, hlt⟩ := by
  obtain ⟨hlt, h⟩ := h
  obtain ⟨_, hopening⟩ := expect_cons total (byteOf '(') (bytes ++ byteOf ')' :: rest)
  obtain ⟨_, hclosing⟩ := expect_cons total (byteOf ')') rest
  rw [bracketed, hopening]
  simp only [Bind.bind, Except.bind, h, hclosing]
  refine ⟨?_, rfl⟩
  simp only [List.length_cons, List.length_append]
  omega

/-- What starts with no junction or negation sign is read as an item. -/
theorem inside_eq_item {total : Nat} {bytes : Bytes}
    (h : ∀ c ∈ ['&', '|', '!'], bytes.head? ≠ some (byteOf c)) :
    inside total bytes = item total bytes := by
  cases bytes with
  | nil => rw [inside]
  | cons b rest =>
      have hand := h '&' (by simp)
      have hor := h '|' (by simp)
      have hnot := h '!' (by simp)
      simp only [List.head?_cons, ne_eq, Option.some.injEq] at hand hor hnot
      rw [inside, if_neg hand, if_neg hor, if_neg hnot]

/-- An item is read back up to the bracket that closes it. -/
theorem inside_encode_item {name : String} (hname : IsName name) (sign : Relation)
    {value : List Char} (hopen : '(' ∉ value) (hclose : ')' ∉ value) {filter : SearchFilter}
    (hfilter : ofItem name sign (encode value) = .ok filter) (total : Nat) (rest : Bytes) :
    ∃ h, inside total (encode (name.toList ++ (sign.symbol ++ value)) ++ byteOf ')' :: rest) =
      .ok ⟨filter, byteOf ')' :: rest, h⟩ := by
  rw [inside_eq_item]
  · exact item_encode hname sign hopen hclose hfilter total rest
  · intro c hc hhead
    obtain ⟨first, more, hcons, hfirst⟩ := hname.begins
    have hascii : c.toNat < 128 := by
      have hall : ∀ c ∈ ['&', '|', '!'], c.toNat < 128 :=
        List.all_iff_forall_prop.mp (by decide)
      exact hall c hc
    have hmem : byteOf c ∈ encodeChar first := by
      rw [hcons, List.cons_append, encode_cons, List.append_assoc] at hhead
      obtain ⟨b, tail, hb⟩ := List.exists_cons_of_ne_nil (encodeChar_ne_nil first)
      rw [hb] at hhead ⊢
      rw [List.cons_append, List.head?_cons, Option.some.injEq] at hhead
      simp [hhead]
    rw [byteOf_mem_encodeChar hascii hmem] at hfirst
    exact hfirst hc

/-- Escaped chunks that are joined have no special characters but backslashes and asterisks. -/
theorem notMem_intercalate {chunks : List Bytes} {c : Char} (hc : isSpecial (byteOf c) = true)
    (hslash : c ≠ '\\') (hstar : c ≠ '*') : c ∉ ['*'].intercalate (chunks.map escapeBytes) := by
  induction chunks with
  | nil => simp
  | cons first rest ih =>
      cases rest with
      | nil => simpa using notMem_escapeBytes hc hslash
      | cons second more =>
          simp only [List.map_cons, List.intercalate_cons_cons] at ih ⊢
          simp only [List.mem_append, List.mem_singleton, not_or]
          exact ⟨⟨notMem_escapeBytes hc hslash, hstar⟩, ih⟩

/-- The item of chunks with an asterisk between any two. -/
def patternItem (name : String) : List Bytes → SearchFilter
  | [chunk] => .equal name chunk
  | [[], []] => .present name
  | chunks => ofChunks name chunks

/-- Escaped chunks are separated at the asterisks between them, and nowhere else. -/
theorem pieces_encode_intercalate {chunks : List Bytes} (hne : chunks ≠ []) :
    Text.pieces (byteOf '*') (encode (['*'].intercalate (chunks.map escapeBytes))) =
      chunks.map fun chunk => encode (escapeBytes chunk) := by
  obtain ⟨first, rest, rfl⟩ := List.exists_cons_of_ne_nil hne
  rw [encode_intercalate, List.map_cons]
  refine pieces_intercalate _ _ fun piece hpiece hstar => ?_
  rw [← @List.map_cons _ _ fun chunk => encode (escapeBytes chunk)] at hpiece
  obtain ⟨bytes, -, rfl⟩ := List.mem_map.mp hpiece
  exact notMem_escapeBytes (by decide) (by decide) (byteOf_mem_encode (by decide) hstar)

/-- The chunks of an asserted pattern are read back. -/
theorem ofItem_chunks (name : String) {chunks : List Bytes} (hne : chunks ≠ []) :
    ofItem name .equal (encode (['*'].intercalate (chunks.map escapeBytes))) =
      .ok (patternItem name chunks) := by
  have hpieces := pieces_encode_intercalate hne
  have hmapM := mapM_unescape chunks
  rw [← hpieces] at hmapM
  cases chunks with
  | nil => exact absurd rfl hne
  | cons first rest =>
      cases rest with
      | nil =>
          rw [List.map_singleton, List.intercalate_singleton]
          exact ofItem_escapeBytes name .equal first
      | cons second more =>
          -- Two empty chunks are written as a lone asterisk, which asserts presence.
          by_cases hpresent : first :: second :: more = [[], []]
          · rw [hpresent]
            rfl
          · generalize encode (['*'].intercalate ((first :: second :: more).map escapeBytes)) = raw
              at hpieces hmapM
            have halone : raw ≠ [byteOf '*'] := by
              rintro rfl
              exact hpresent (Except.ok.inj (hmapM.symm.trans rfl))
            have hcontains : raw.contains (byteOf '*') = true := by
              refine Classical.byContradiction fun h => ?_
              -- Without an asterisk there would be one piece.
              rw [pieces_of_notMem (by simpa using h)] at hpieces
              have hlength := congrArg List.length hpieces
              simp at hlength
            have hitem : patternItem name (first :: second :: more) =
                ofChunks name (first :: second :: more) := by
              unfold patternItem
              split
              next heq => cases heq
              next heq => exact absurd heq hpresent
              next => rfl
            rw [ofItem, if_neg halone, if_pos hcontains, hmapM, hitem]
            rfl

/-- Chunks that are not all empty make a substring assertion. -/
theorem patternItem_chunksOf {name : String} {initial final : Option Bytes} {middle : List Bytes}
    (hsome : ∃ chunk ∈ chunksOf initial middle final, chunk ≠ []) (hinitial : initial ≠ some [])
    (hmiddle : [] ∉ middle) (hfinal : final ≠ some []) :
    patternItem name (chunksOf initial middle final) = .substring name initial middle final := by
  rw [← ofChunks_chunksOf hinitial hmiddle hfinal]
  unfold patternItem
  split
  next chunk heq =>
    have hlength := congrArg List.length heq
    simp [chunksOf] at hlength
  next heq =>
    rw [heq] at hsome
    obtain ⟨chunk, hchunk, hne⟩ := hsome
    exact absurd hchunk (by simpa using hne)
  next => rfl

/-! ## Whole filters -/

theorem filters_of_head {total : Nat} {rest : Bytes} (h : rest.head? ≠ some (byteOf '(')) :
    filters total rest = .ok ⟨[], rest, Nat.lt_succ_self _⟩ := by
  cases rest with
  | nil => rw [filters]
  | cons b more =>
      simp only [List.head?_cons, ne_eq, Option.some.injEq] at h
      rw [filters, if_neg h]

/-- A list that is read is read as a list of at least one filter. -/
theorem filterList_of_filters {total : Nat} {bytes rest : Bytes} {list : List SearchFilter}
    (hne : list ≠ []) (h : ∃ hlt, filters total bytes = .ok ⟨list, rest, hlt⟩) :
    ∃ hlt, filterList total bytes = .ok ⟨list, rest, hlt⟩ := by
  obtain ⟨hlt, h⟩ := h
  refine ⟨hlt, ?_⟩
  rw [filterList, h]
  cases list with
  | nil => exact absurd rfl hne
  | cons first more => rfl

/-- A text that reads as a filter when it stands between brackets. -/
inductive Spelled : List Char → SearchFilter → Prop
  | and {items : List (List Char × SearchFilter)} (hne : items ≠ [])
      (h : ∀ item ∈ items, Spelled item.1 item.2) :
      Spelled ('&' :: items.flatMap fun item => '(' :: (item.1 ++ [')']))
        (.and (items.map Prod.snd))
  | or {items : List (List Char × SearchFilter)} (hne : items ≠ [])
      (h : ∀ item ∈ items, Spelled item.1 item.2) :
      Spelled ('|' :: items.flatMap fun item => '(' :: (item.1 ++ [')']))
        (.or (items.map Prod.snd))
  | not {text : List Char} {filter : SearchFilter} (h : Spelled text filter) :
      Spelled ('!' :: '(' :: (text ++ [')'])) (.not filter)
  | item {name : String} (hname : IsName name) (sign : Relation) {value : List Char}
      (hopen : '(' ∉ value) (hclose : ')' ∉ value) {filter : SearchFilter}
      (h : ofItem name sign (encode value) = .ok filter) :
      Spelled (name.toList ++ (sign.symbol ++ value)) filter

/-- Texts in brackets are read one after another if each of them is read between its brackets. -/
theorem filters_of_inside {total : Nat} {items : List (List Char × SearchFilter)}
    (h : ∀ item ∈ items, ∀ rest, ∃ hlt, inside total (encode item.1 ++ byteOf ')' :: rest) =
      .ok ⟨item.2, byteOf ')' :: rest, hlt⟩) (rest : Bytes) :
    ∃ hlt, filters total (encode (items.flatMap fun item => '(' :: (item.1 ++ [')'])) ++
      byteOf ')' :: rest) = .ok ⟨items.map Prod.snd, byteOf ')' :: rest, hlt⟩ := by
  induction items with
  | nil =>
      have hstop : byteOf ')' ≠ byteOf '(' := by decide
      exact ⟨_, filters_of_head fun h => hstop (Option.some.inj h)⟩
  | cons item more ih =>
      rw [List.forall_mem_cons] at h
      obtain ⟨hlt', hmore⟩ := ih h.2
      obtain ⟨hlt, hfirst⟩ := bracketed_of_inside (h.1 (encode (more.flatMap fun item =>
        '(' :: (item.1 ++ [')'])) ++ byteOf ')' :: rest))
      have hbytes : encode ((item :: more).flatMap fun item => '(' :: (item.1 ++ [')'])) ++
          byteOf ')' :: rest = byteOf '(' :: (encode item.1 ++ byteOf ')' ::
            (encode (more.flatMap fun item => '(' :: (item.1 ++ [')'])) ++
              byteOf ')' :: rest)) := by
        rw [List.flatMap_cons, encode_append, encode_cons, encode_append,
          encodeChar_of_ascii (by decide)]
        simp only [List.append_assoc, List.cons_append, List.nil_append]
        rfl
      rw [hbytes, filters, if_pos rfl]
      simp only [Bind.bind, Except.bind, hfirst, hmore]
      refine ⟨?_, rfl⟩
      simp only [List.length_cons, List.length_append] at hlt' ⊢
      omega

/-- What spells a filter is read up to the bracket after it. -/
theorem Spelled.inside {text : List Char} {filter : SearchFilter} (h : Spelled text filter)
    (total : Nat) (rest : Bytes) :
    ∃ hlt, inside total (encode text ++ byteOf ')' :: rest) =
      .ok ⟨filter, byteOf ')' :: rest, hlt⟩ := by
  induction h generalizing rest with
  | and hne h ih =>
      obtain ⟨hlt, hlist⟩ := filterList_of_filters (by simpa using hne) (filters_of_inside ih rest)
      rw [encode_cons, encodeChar_of_ascii (by decide), List.singleton_append, List.cons_append,
        SearchFilter.inside, if_pos rfl]
      simp only [Bind.bind, Except.bind, hlist]
      exact ⟨hlt, rfl⟩
  | or hne h ih =>
      obtain ⟨hlt, hlist⟩ := filterList_of_filters (by simpa using hne) (filters_of_inside ih rest)
      rw [encode_cons, encodeChar_of_ascii (by decide), List.singleton_append, List.cons_append,
        SearchFilter.inside, if_neg (by decide), if_pos rfl]
      simp only [Bind.bind, Except.bind, hlist]
      exact ⟨hlt, rfl⟩
  | @not text filter h ih =>
      obtain ⟨hlt, hinner⟩ := bracketed_of_inside (ih (byteOf ')' :: rest))
      have hbytes : encode ('!' :: '(' :: (text ++ [')'])) ++ byteOf ')' :: rest = byteOf '!' ::
          byteOf '(' :: (encode text ++ byteOf ')' :: byteOf ')' :: rest) := by
        rw [encode_cons, encode_cons, encode_append, encodeChar_of_ascii (by decide),
          encodeChar_of_ascii (by decide)]
        simp only [List.append_assoc, List.cons_append, List.nil_append]
        rfl
      rw [hbytes, SearchFilter.inside, if_neg (by decide), if_neg (by decide), if_pos rfl]
      simp only [Bind.bind, Except.bind, hinner]
      refine ⟨?_, rfl⟩
      simp only [List.length_cons, List.length_append]
      omega
  | item hname sign hopen hclose h => exact inside_encode_item hname sign hopen hclose h total rest

/-- A text in brackets is read as the filter that it spells. -/
theorem Spelled.parse {text : List Char} {filter : SearchFilter} (h : Spelled text filter) :
    parse (String.ofList ('(' :: (text ++ [')']))) = .ok filter := by
  have hbytes : bytesOf (String.ofList ('(' :: (text ++ [')']))) =
      byteOf '(' :: (encode text ++ byteOf ')' :: []) := by
    rw [bytesOf, String.toList_ofList, encode_cons, encode_append, encodeChar_of_ascii (by decide)]
    rfl
  obtain ⟨hlt, hread⟩ := bracketed_of_inside (h.inside
    (byteOf '(' :: (encode text ++ byteOf ')' :: [])).length [])
  rw [SearchFilter.parse, hbytes, ofBytes, hread]
  rfl

/-- An item is spelled by what asserts its value without special characters. -/
theorem spelled_assertion {name : String} (hname : IsName name) (sign : Relation)
    {value : List Char} (hplain : ∀ c ∈ ['(', ')', '*'], c ∉ value) {content : Bytes}
    (h : unescape (encode value) = .ok content) :
    Spelled (name.toList ++ (sign.symbol ++ value)) (sign.assertion name content) :=
  .item hname sign (hplain _ (by decide)) (hplain _ (by decide))
    (ofItem_of_unescape name sign (hplain _ (by decide)) h)

/-- A name, a relation and an escaped assertion spell the item. -/
theorem spelled_escapeBytes {name : String} (hname : IsName name) (sign : Relation)
    (assertion : Bytes) :
    Spelled (name.toList ++ (sign.symbol ++ escapeBytes assertion))
      (sign.assertion name assertion) := by
  refine spelled_assertion hname sign (fun c hc => notMem_escapeBytes ?_ ?_)
    (unescape_escapeBytes assertion)
  · have hspecial : ∀ c ∈ ['(', ')', '*'], isSpecial (byteOf c) = true :=
      List.all_iff_forall_prop.mp (by decide)
    exact hspecial c hc
  · have hslash : ∀ c ∈ ['(', ')', '*'], c ≠ '\\' := List.all_iff_forall_prop.mp (by decide)
    exact hslash c hc

theorem spelled_chunks {name : String} (hname : IsName name) {chunks : List Bytes}
    (hne : chunks ≠ []) : Spelled (name.toList ++ (Relation.equal.symbol ++
      ['*'].intercalate (chunks.map escapeBytes))) (patternItem name chunks) :=
  .item hname .equal (notMem_intercalate (by decide) (by decide) (by decide))
    (notMem_intercalate (by decide) (by decide) (by decide)) (ofItem_chunks name hne)

theorem spellAll_eq_flatMap_inner (filters : List SearchFilter) :
    spellAll filters = (filters.map fun filter => (filter.inner, filter)).flatMap
      fun item => '(' :: (item.1 ++ [')']) := by
  rw [spellAll_eq_flatMap, List.flatMap_map]
  rfl

mutual

/-- A well-formed filter is spelled as it is written. -/
theorem spelled_inner : (filter : SearchFilter) → filter.WellFormed → Spelled filter.inner filter
  | and filters, hformed => by
      rw [WellFormed] at hformed
      have hall := Spelled.and (by simpa using hformed.1) (spelled_innerAll filters hformed.2)
      rw [inner, spellAll_eq_flatMap_inner]
      simpa [Function.comp_def] using hall
  | or filters, hformed => by
      rw [WellFormed] at hformed
      have hall := Spelled.or (by simpa using hformed.1) (spelled_innerAll filters hformed.2)
      rw [inner, spellAll_eq_flatMap_inner]
      simpa [Function.comp_def] using hall
  | not filter, hformed => by
      rw [WellFormed] at hformed
      rw [inner]
      exact .not (spelled_inner filter hformed)
  | equal name assertion, hformed => by
      rw [WellFormed] at hformed
      rw [inner]
      exact spelled_escapeBytes hformed .equal assertion
  | greaterOrEqual name assertion, hformed => by
      rw [WellFormed] at hformed
      rw [inner]
      exact spelled_escapeBytes hformed .greaterOrEqual assertion
  | lessOrEqual name assertion, hformed => by
      rw [WellFormed] at hformed
      rw [inner]
      exact spelled_escapeBytes hformed .lessOrEqual assertion
  | present name, hformed => by
      rw [WellFormed] at hformed
      rw [inner]
      exact spelled_chunks hformed (List.cons_ne_nil [] [[]])
  | substring name initial middle final, hformed => by
      rw [WellFormed] at hformed
      obtain ⟨hname, hsome, hinitial, hmiddle, hfinal⟩ := hformed
      rw [inner, ← patternItem_chunksOf hsome hinitial hmiddle hfinal]
      exact spelled_chunks hname (List.cons_ne_nil _ _)

/-- Each filter of a list spells itself. -/
theorem spelled_innerAll : (filters : List SearchFilter) → AllWellFormed filters →
    ∀ item ∈ filters.map fun filter => (filter.inner, filter), Spelled item.1 item.2
  | [], _ => by simp
  | filter :: rest, hformed => by
      rw [AllWellFormed] at hformed
      rw [List.map_cons, List.forall_mem_cons]
      exact ⟨spelled_inner filter hformed.1, spelled_innerAll rest hformed.2⟩

end

/-- Reading the spelling of a well-formed filter gives the filter back. -/
theorem parse_spell {filter : SearchFilter} (hformed : filter.WellFormed) :
    parse (String.ofList filter.spell) = .ok filter :=
  (spelled_inner filter hformed).parse

end RowFilter.Directory.SearchFilter
