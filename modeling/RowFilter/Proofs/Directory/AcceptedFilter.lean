import RowFilter.Proofs.Directory.FilterGrammar
import RowFilter.Proofs.Directory.FilterRoundTrip

/-!
# What the reader of search filters accepts

Whatever text is read as a search filter spells that filter, and its brackets are balanced. An
escape is two hexadecimal digits, or one after a plus sign: only for the texts without such a sign
is the grammar strict.
-/

namespace RowFilter.Directory.SearchFilter

open Text

variable {total : Nat} {bytes text content : Bytes} {name : String} {filter : SearchFilter}

/-! ## Items -/

/-- What the parser unescapes is unescaped by the rules of the spelling. -/
theorem unescapes_of_unescape (h : unescape text = .ok content) :
    Unescapes hexByte? text content := by
  induction text using unescape.induct generalizing content with
  | case1 =>
    cases h
    exact .nil
  | case2 high low more decoded hdecoded ih =>
    rw [unescape, if_pos rfl] at h
    simp only [hdecoded] at h
    obtain ⟨others, hothers, h⟩ := bind_eq_ok.mp h
    cases h
    exact .escaped hdecoded (ih hothers)
  | case3 high low more hnone =>
    rw [unescape, if_pos rfl] at h
    simp only [hnone] at h
    cases h
  | case4 rest hshort =>
    rw [unescape, if_pos rfl] at h
    · cases h
    · exact hshort
  | case5 b rest hb ih =>
    rw [unescape_cons_of_ne hb, map_eq_ok] at h
    obtain ⟨others, hothers, rfl⟩ := h
    exact .plain hb (ih hothers)

/-- The pieces between asterisks are read one by one. -/
theorem asserts_ofChunks {contents : List Bytes} (hlone : text ≠ [byteOf '*'])
    (hstar : byteOf '*' ∈ text)
    (h : (pieces (byteOf '*') text).mapM unescape = .ok contents) :
    Asserts hexByte? name .equal text (ofChunks name contents) := by
  have hjoined := intercalate_pieces (byteOf '*') text
  have hmany : 2 ≤ (pieces (byteOf '*') text).length := by
    match hpieces : pieces (byteOf '*') text with
    | [] => exact absurd hpieces (pieces_ne_nil _ _)
    | [piece] =>
      rw [hpieces, List.intercalate_singleton] at hjoined
      have hmem : piece ∈ pieces (byteOf '*') text := by simp [hpieces]
      exact absurd rfl (mem_of_mem_pieces hmem (hjoined ▸ hstar)).1
    | _ :: _ :: _ => simp
  have hread := (mapM_eq_ok.mp h).imp fun _ _ => unescapes_of_unescape
  have hpieces : pieces (byteOf '*') text ≠ [[], []] := by
    intro hpieces
    rw [hpieces] at hjoined
    exact hlone hjoined.symm
  have hnone : ∀ piece ∈ pieces (byteOf '*') text, byteOf '*' ∉ piece :=
    fun piece hpiece hmem => (mem_of_mem_pieces hpiece hmem).1 rfl
  have hasserts : Asserts hexByte? name .equal ([byteOf '*'].intercalate _)
      (ofChunks name contents) := .substring hmany hpieces hnone hread
  rwa [hjoined] at hasserts

/-- An item that the parser makes of a name, a relation and a value is what they assert. -/
theorem asserts_of_ofItem {sign : Relation} (h : ofItem name sign text = .ok filter) :
    Asserts hexByte? name sign text filter := by
  cases sign with
  | equal =>
    rw [ofItem] at h
    split at h
    next hlone =>
      cases h
      rw [hlone]
      exact .present
    next hlone =>
      split at h
      next hstar =>
        obtain ⟨contents, hcontents, h⟩ := bind_eq_ok.mp h
        cases h
        exact asserts_ofChunks hlone (by simpa using hstar) hcontents
      next hstar =>
        obtain ⟨content, hcontent, h⟩ := bind_eq_ok.mp h
        cases h
        exact .equal (by simpa using hstar) (unescapes_of_unescape hcontent)
  | greaterOrEqual =>
    obtain ⟨content, hcontent, h⟩ := bind_eq_ok.mp h
    cases h
    exact .greaterOrEqual (unescapes_of_unescape hcontent)
  | lessOrEqual =>
    obtain ⟨content, hcontent, h⟩ := bind_eq_ok.mp h
    cases h
    exact .lessOrEqual (unescapes_of_unescape hcontent)
  | approximate =>
    obtain ⟨content, hcontent, h⟩ := bind_eq_ok.mp h
    cases h
    exact .approximate (unescapes_of_unescape hcontent)

/-- A relation of two characters ends with an equals sign. -/
theorem encode_symbol_of_relationOf? {b : UInt8} {sign : Relation} (h : relationOf? b = some sign) :
    encode sign.symbol = [b, byteOf '='] := by
  unfold relationOf? at h
  split at h
  next hb =>
    cases h
    rw [hb]
    rfl
  next =>
    split at h
    next hb =>
      cases h
      rw [hb]
      rfl
    next =>
      split at h
      next hb =>
        cases h
        rw [hb]
        rfl
      next => cases h

/-- A relation that was read stands in front of what is left. -/
theorem symbol_of_relation {read : Reading Relation bytes.length}
    (h : relation total bytes = .ok read) : bytes = encode read.value.symbol ++ read.rest := by
  cases bytes with
  | nil => cases h
  | cons b rest =>
    rw [relation] at h
    split at h
    next hb =>
      cases h
      rw [hb]
      rfl
    next =>
      split at h
      next sign hsign =>
        obtain ⟨equals, hequals, h⟩ := bind_eq_ok.mp h
        cases h
        have hrest := rest_of_expect hequals
        dsimp only
        rw [encode_symbol_of_relationOf? hsign]
        simpa using hrest
      next => cases h

/-- An item that was read is spelled by what was consumed. -/
theorem spells_of_item {read : Reading SearchFilter bytes.length}
    (hbegins : ∀ c ∈ ['&', '|', '!'], bytes.head? ≠ some (byteOf c))
    (h : item total bytes = .ok read) :
    ∃ front, bytes = front ++ read.rest ∧ Spells hexByte? front read.value := by
  obtain ⟨name, hname, h⟩ := bind_eq_ok.mp h
  obtain ⟨sign, hsign, h⟩ := bind_eq_ok.mp h
  obtain ⟨filter, hfilter, h⟩ := bind_eq_ok.mp h
  cases h
  dsimp only
  have hspells : SpellsName (bytes.takeWhile fun b => !endsName b) name := by
    obtain ⟨text, htext, htrim, hne⟩ := trim_of_nameOf hname
    refine ⟨⟨text, htext, htrim⟩, hne, fun b hb => by simpa using List.mem_takeWhile_imp hb, ?_⟩
    intro c hc hhead
    rw [List.head?_takeWhile, Option.filter_eq_some_iff] at hhead
    exact hbegins c hc hhead.1
  have hvalue : ∀ b ∈ sign.rest.takeWhile fun b => !endsValue b, endsValue b = false :=
    fun b hb => by simpa using List.mem_takeWhile_imp hb
  refine ⟨_, ?_, .item hspells sign.value hvalue (asserts_of_ofItem hfilter)⟩
  rw [List.append_assoc, List.append_assoc, List.takeWhile_append_dropWhile,
    ← symbol_of_relation hsign, List.takeWhile_append_dropWhile]

/-! ## Nested filters -/

/-- What is read from some bytes between brackets, or as a list, is spelled by those that are
taken. -/
structure ReadsSpelled (total : Nat) (bytes : Bytes) : Prop where
  inside : ∀ read, inside total bytes = .ok read →
    ∃ front, bytes = front ++ read.rest ∧ Spells hexByte? front read.value
  filters : ∀ read, filters total bytes = .ok read →
    ∃ items : List (Bytes × SearchFilter),
      bytes = (items.flatMap fun item => inBrackets item.1) ++ read.rest ∧
      items.map Prod.snd = read.value ∧ ∀ item ∈ items, Spells hexByte? item.1 item.2

/-- A bracketed filter that was read is spelled between its brackets. -/
theorem spells_of_bracketed
    (ih : ∀ shorter : Bytes, shorter.length < bytes.length → ReadsSpelled total shorter)
    {read : Reading SearchFilter bytes.length} (h : bracketed total bytes = .ok read) :
    ∃ between, bytes = inBrackets between ++ read.rest ∧ Spells hexByte? between read.value := by
  rw [bracketed] at h
  obtain ⟨opening, hopening, h⟩ := bind_eq_ok.mp h
  obtain ⟨inner, hinner, h⟩ := bind_eq_ok.mp h
  obtain ⟨closing, hclosing, h⟩ := bind_eq_ok.mp h
  cases h
  obtain ⟨between, hbetween, hspells⟩ := (ih opening.rest opening.shorter).inside inner hinner
  have hrest := hbetween.trans (congrArg (between ++ ·) (rest_of_expect hclosing))
  refine ⟨between, (rest_of_expect hopening).trans ?_, hspells⟩
  exact (congrArg (byteOf '(' :: ·) hrest).trans (by simp [inBrackets])

theorem spells_of_filterList (hread : ReadsSpelled total bytes)
    {read : Reading (List SearchFilter) (bytes.length + 1)}
    (h : filterList total bytes = .ok read) : ∃ items : List (Bytes × SearchFilter), items ≠ [] ∧
      bytes = (items.flatMap fun item => inBrackets item.1) ++ read.rest ∧
      items.map Prod.snd = read.value ∧ ∀ item ∈ items, Spells hexByte? item.1 item.2 := by
  obtain ⟨hfilters, hne⟩ := filters_of_filterList h
  obtain ⟨items, hbytes, hvalues, hall⟩ := hread.filters read hfilters
  refine ⟨items, ?_, hbytes, hvalues, hall⟩
  rintro rfl
  exact hne hvalues.symm

/-- Where all shorter texts are read as spelled, so is what stands inside brackets. -/
theorem spells_of_inside
    (ih : ∀ shorter : Bytes, shorter.length < bytes.length → ReadsSpelled total shorter)
    {read : Reading SearchFilter bytes.length} (h : inside total bytes = .ok read) :
    ∃ front, bytes = front ++ read.rest ∧ Spells hexByte? front read.value := by
  cases bytes with
  | nil =>
    rw [inside] at h
    exact spells_of_item (by simp) h
  | cons b rest =>
    rw [inside] at h
    split at h
    next hb =>
      subst hb
      obtain ⟨list, hlist, h⟩ := bind_eq_ok.mp h
      cases h
      obtain ⟨items, hne, hitems, hvalues, hall⟩ := spells_of_filterList (ih rest (by simp)) hlist
      refine ⟨byteOf '&' :: items.flatMap fun item => inBrackets item.1,
        congrArg (byteOf '&' :: ·) hitems, ?_⟩
      exact hvalues ▸ .and hne hall
    next hand =>
      split at h
      next hb =>
        subst hb
        obtain ⟨list, hlist, h⟩ := bind_eq_ok.mp h
        cases h
        obtain ⟨items, hne, hitems, hvalues, hall⟩ := spells_of_filterList (ih rest (by simp)) hlist
        refine ⟨byteOf '|' :: items.flatMap fun item => inBrackets item.1,
          congrArg (byteOf '|' :: ·) hitems, ?_⟩
        exact hvalues ▸ .or hne hall
      next hor =>
        split at h
        next hb =>
          subst hb
          obtain ⟨negated, hnegated, h⟩ := bind_eq_ok.mp h
          cases h
          obtain ⟨between, hbetween, hspells⟩ := spells_of_bracketed
            (fun shorter hlt => ih shorter (Nat.lt_succ_of_lt hlt)) hnegated
          exact ⟨byteOf '!' :: inBrackets between, congrArg (byteOf '!' :: ·) hbetween,
            .not hspells⟩
        next hnot => exact spells_of_item (by simp [hand, hor, hnot]) h

theorem spells_of_filters
    (ih : ∀ shorter : Bytes, shorter.length < bytes.length → ReadsSpelled total shorter)
    {read : Reading (List SearchFilter) (bytes.length + 1)}
    (h : filters total bytes = .ok read) : ∃ items : List (Bytes × SearchFilter),
      bytes = (items.flatMap fun item => inBrackets item.1) ++ read.rest ∧
      items.map Prod.snd = read.value ∧ ∀ item ∈ items, Spells hexByte? item.1 item.2 := by
  cases bytes with
  | nil =>
    rw [filters] at h
    cases h
    exact ⟨[], rfl, rfl, by simp⟩
  | cons b rest =>
    rw [filters] at h
    split at h
    next hb =>
      obtain ⟨first, hfirst, h⟩ := bind_eq_ok.mp h
      obtain ⟨others, hothers, h⟩ := bind_eq_ok.mp h
      cases h
      obtain ⟨between, hbetween, hspells⟩ := spells_of_bracketed ih hfirst
      obtain ⟨items, hitems, hvalues, hall⟩ := (ih first.rest first.shorter).filters others hothers
      refine ⟨(between, first.value) :: items, ?_, by simp [hvalues], ?_⟩
      · refine hbetween.trans ((congrArg (inBrackets between ++ ·) hitems).trans ?_)
        simp
      · rw [List.forall_mem_cons]
        exact ⟨hspells, hall⟩
    next =>
      cases h
      exact ⟨[], rfl, rfl, by simp⟩

/-- Whatever is read as a filter is spelled by what was consumed, by recursion on what is left. -/
theorem readsSpelled (total : Nat) (bytes : Bytes) : ReadsSpelled total bytes := by
  induction hlength : bytes.length using Nat.strong_induction_on generalizing bytes with
  | _ length ih =>
    have hshorter (shorter : Bytes) (hlt : shorter.length < bytes.length) :
        ReadsSpelled total shorter :=
      ih shorter.length (hlength ▸ hlt) shorter rfl
    exact ⟨fun _ => spells_of_inside hshorter, fun _ => spells_of_filters hshorter⟩

/-! ## Texts -/

/-- A text spells a filter in brackets, and nothing else. -/
def SpellsText (escape : UInt8 → UInt8 → Option UInt8) (text : String) (filter : SearchFilter) :
    Prop :=
  ∃ between, bytesOf text = inBrackets between ∧ Spells escape between filter

/-- An accepted text spells the filter that it is parsed to. -/
theorem spellsText_of_parse {text : String} (h : parse text = .ok filter) :
    SpellsText hexByte? text filter := by
  unfold parse at h
  split at h
  next found hfound =>
    cases h
    obtain ⟨read, hread, hfound⟩ := bind_eq_ok.mp hfound
    obtain ⟨between, hbetween, hspells⟩ := spells_of_bracketed
      (fun shorter _ => readsSpelled _ shorter) hread
    split at hfound
    next hend =>
      cases hfound
      exact ⟨between, by rw [hbetween, hend, List.append_nil], hspells⟩
    next => cases hfound
  next => cases h

theorem SpellsText.not_hasSignedEscape {text : String} (h : SpellsText hexPair? text filter) :
    ¬HasSignedEscape (bytesOf text) := by
  obtain ⟨between, hbetween, hspells⟩ := h
  rw [hbetween, hasSignedEscape_inBrackets]
  exact hspells.not_hasSignedEscape

/-- Without signed escapes, what spells a filter spells it by the strict rules. -/
theorem SpellsText.strict {text : String} (h : SpellsText hexByte? text filter)
    (hsign : ¬HasSignedEscape (bytesOf text)) : SpellsText hexPair? text filter := by
  obtain ⟨between, hbetween, hspells⟩ := h
  rw [hbetween, hasSignedEscape_inBrackets] at hsign
  exact ⟨between, hbetween, hspells.strict hsign⟩

/-- Every text that spells a filter is balanced. -/
theorem SpellsText.balanced {text : String} {escape : UInt8 → UInt8 → Option UInt8}
    (h : SpellsText escape text filter) : Balanced (bytesOf text) := by
  obtain ⟨between, hbetween, hspells⟩ := h
  rw [hbetween]
  exact hspells.balanced.inBrackets

/-- Every text that is read as a filter has balanced brackets and spells that filter. It does so in
strict grammar exactly if in its assertion values no sign follows a backslash. -/
theorem parse_accepts {text : String} (h : parse text = .ok filter) :
    Balanced (bytesOf text) ∧ SpellsText hexByte? text filter ∧
      (SpellsText hexPair? text filter ↔ ¬HasSignedEscape (bytesOf text)) := by
  have hspells := spellsText_of_parse h
  exact ⟨hspells.balanced, hspells, SpellsText.not_hasSignedEscape, hspells.strict⟩

/-- A plus sign and a digit after a backslash stand for a byte. -/
theorem parse_signedEscape : parse "(a=\\+a)" = .ok (.equal "a" [10]) := by
  have hname : IsName "a" :=
    { trimmed := by decide +kernel
      ends := List.all_iff_forall_prop.mp (by decide)
      begins := ⟨'a', [], rfl, by decide⟩ }
  have hspelled : Spelled ("a".toList ++ (Relation.equal.symbol ++ "\\+a".toList))
      (.equal "a" [10]) := .item hname .equal (by decide) (by decide) rfl
  exact hspelled.parse

theorem parse_accepts_signedEscape :
    parse "(a=\\+a)" = .ok (.equal "a" [10]) ∧ Balanced (bytesOf "(a=\\+a)") ∧
      SpellsText hexByte? "(a=\\+a)" (.equal "a" [10]) ∧
      (SpellsText hexPair? "(a=\\+a)" (.equal "a" [10]) ↔
        ¬HasSignedEscape (bytesOf "(a=\\+a)")) :=
  ⟨parse_signedEscape, parse_accepts parse_signedEscape⟩

theorem not_parse_accepts_strict :
    ¬∀ text filter, parse text = .ok filter → SpellsText hexPair? text filter := by
  intro h
  refine (h _ _ parse_signedEscape).not_hasSignedEscape ⟨[], by simp, ?_⟩
  decide +kernel

end RowFilter.Directory.SearchFilter
