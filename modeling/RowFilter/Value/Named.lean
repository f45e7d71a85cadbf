/-!
# Lists of named things

Properties of an object, attributes of an entry and the like are found by name and listed in
ascending order of their names.
-/

namespace RowFilter

/-- Pairs of a name and what it names, in ascending order of the names. -/
abbrev Named (α : Type) := List (String × α)

namespace Named

variable {α : Type}

def get? (name : String) (items : Named α) : Option α :=
  items.lookup name

/-- Adds a name at its place in the order, or gives a new meaning to one that is there. -/
def insert (name : String) (item : α) : Named α → Named α
  | [] => [(name, item)]
  | (other, existing) :: rest =>
    if name == other then (name, item) :: rest
    else if name < other then (name, item) :: (other, existing) :: rest
    else (other, existing) :: insert name item rest

/-- Adds names one after another; a later one of the same name replaces an earlier one. -/
def ofList (items : List (String × α)) : Named α :=
  items.foldl (fun named (name, item) => named.insert name item) []

theorem get?_nil (name : String) : get? name ([] : Named α) = none := rfl

theorem get?_cons (name key : String) (item : α) (items : Named α) :
    get? name ((key, item) :: items) = if name = key then some item else get? name items := by
  rw [get?, List.lookup_cons]
  by_cases h : name = key
  · rw [if_pos h, beq_iff_eq.2 h]
  · rw [if_neg h, beq_eq_false_iff_ne.2 h, get?]

/-- What is found under a name is listed with it. -/
theorem mem_of_get? {name : String} {item : α} {items : Named α}
    (h : get? name items = some item) : (name, item) ∈ items := by
  induction items with
  | nil => cases h
  | cons head rest ih =>
    obtain ⟨key, value⟩ := head
    rw [get?_cons] at h
    split at h
    next heq =>
      cases h
      rw [heq]
      exact List.mem_cons_self
    next => exact List.mem_cons_of_mem _ (ih h)

/-- A name that is inserted has the new meaning, and all other names keep theirs. -/
theorem get?_insert (name other : String) (item : α) (items : Named α) :
    get? other (insert name item items) =
      if other = name then some item else get? other items := by
  induction items with
  | nil => simp [insert, get?_cons, get?_nil]
  | cons head rest ih =>
    obtain ⟨key, value⟩ := head
    unfold insert
    by_cases hname : name = key
    · subst hname
      by_cases h : other = name <;> simp [get?_cons, h]
    · by_cases hlt : name < key
      · simp [get?_cons, hname, hlt]
      · by_cases h : other = key
        · subst h
          simp [get?_cons, hname, hlt, Ne.symm hname]
        · simp [get?_cons, hname, hlt, h, ih]

theorem insert_perm {name : String} {items : Named α} (h : name ∉ items.map Prod.fst) (item : α) :
    List.Perm (insert name item items) ((name, item) :: items) := by
  induction items with
  | nil => exact List.Perm.refl _
  | cons head rest ih =>
    obtain ⟨key, value⟩ := head
    rw [List.map_cons, List.mem_cons, not_or] at h
    rw [insert, if_neg (by simpa using h.1)]
    split
    next => exact List.Perm.refl _
    next => exact ((ih h.2).cons (key, value)).trans (List.Perm.swap _ _ _)

/-- Inserting distinct names one after another lists them all, in some order. -/
theorem foldl_insert_perm {items : List (String × α)} {named : Named α}
    (h : (named.map Prod.fst ++ items.map Prod.fst).Nodup) :
    List.Perm (items.foldl (fun named pair => insert pair.1 pair.2 named) named)
      (named ++ items) := by
  induction items generalizing named with
  | nil => simp
  | cons head rest ih =>
    rw [List.map_cons] at h
    have hfresh : head.1 ∉ named.map Prod.fst := by
      intro hmem
      exact (List.nodup_append.mp h).2.2 _ hmem _ List.mem_cons_self rfl
    have hinsert := insert_perm hfresh head.2
    have hnames := (hinsert.map Prod.fst).append_right (rest.map Prod.fst)
    rw [List.foldl_cons]
    refine (ih ?_).trans ((hinsert.append_right rest).trans List.perm_middle.symm)
    exact (hnames.trans List.perm_middle.symm).nodup_iff.mpr h

/-- Whether the names stand in ascending order, each once. -/
def Ascending (items : Named α) : Prop :=
  (items.map Prod.fst).Pairwise (· < ·)

/-- Inserting adds the name to those that are listed, and no other. -/
theorem mem_names_insert {name other : String} {item : α} {items : Named α} :
    other ∈ (insert name item items).map Prod.fst ↔
      other = name ∨ other ∈ items.map Prod.fst := by
  induction items with
  | nil => simp [insert]
  | cons head rest ih =>
    obtain ⟨key, value⟩ := head
    unfold insert
    by_cases hname : name = key
    · simp [hname]
    · by_cases hlt : name < key
      · simp [hname, hlt]
      · simp only [beq_iff_eq, hname, hlt, if_false, List.map_cons, List.mem_cons, ih]
        exact or_left_comm

theorem Ascending.insert {items : Named α} (h : items.Ascending) (name : String) (item : α) :
    (items.insert name item).Ascending := by
  induction items with
  | nil => exact List.pairwise_singleton _ _
  | cons head rest ih =>
    obtain ⟨key, value⟩ := head
    obtain ⟨hfirst, hrest⟩ := List.pairwise_cons.mp h
    unfold Named.insert
    by_cases hname : name = key
    · rw [if_pos (beq_iff_eq.mpr hname), hname]
      exact h
    · by_cases hlt : name < key
      · simp only [beq_iff_eq, hname, hlt, if_false, if_true]
        refine List.pairwise_cons.mpr ⟨fun other hother => ?_, h⟩
        rcases List.mem_cons.mp hother with rfl | hother
        · exact hlt
        · exact String.lt_trans hlt (hfirst other hother)
      · simp only [beq_iff_eq, hname, hlt, if_false]
        refine List.pairwise_cons.mpr ⟨fun other hother => ?_, ih hrest⟩
        rcases mem_names_insert.mp hother with rfl | hother
        · exact Std.lt_of_le_of_ne (String.not_lt.mp hlt) (Ne.symm hname)
        · exact hfirst other hother

theorem get?_eq_none_iff {name : String} {items : Named α} :
    get? name items = none ↔ name ∉ items.map Prod.fst := by
  induction items with
  | nil => simp [get?_nil]
  | cons head rest ih =>
    rw [get?_cons, List.map_cons, List.mem_cons, not_or, ← ih]
    by_cases h : name = head.1 <;> simp [h]

/-- Names that are all different stay what they are when they are put in order. -/
theorem ofList_perm {items : List (String × α)} (h : (items.map Prod.fst).Nodup) :
    List.Perm (ofList items) items :=
  foldl_insert_perm (show (([] : Named α).map Prod.fst ++ items.map Prod.fst).Nodup from h)

/-- Where no name is listed twice, what is found under a name is what is listed with it. -/
theorem get?_eq_some_iff {items : Named α} (h : (items.map Prod.fst).Nodup) {name : String}
    {item : α} : get? name items = some item ↔ (name, item) ∈ items := by
  induction items with
  | nil => simp [get?_nil]
  | cons head rest ih =>
    obtain ⟨key, value⟩ := head
    rw [List.map_cons, List.nodup_cons] at h
    rw [get?_cons, List.mem_cons, Prod.mk.injEq]
    by_cases hname : name = key
    · subst hname
      have hrest : (name, item) ∉ rest := fun hmem =>
        h.1 (List.mem_map.mpr ⟨(name, item), hmem, rfl⟩)
      simp [hrest, eq_comm]
    · simp [hname, ih h.2]

/-- What is found among names that are all different is what was put there. -/
theorem get?_ofList {items : List (String × α)} (h : (items.map Prod.fst).Nodup) {name : String}
    {item : α} : get? name (ofList items) = some item ↔ (name, item) ∈ items := by
  have hperm := ofList_perm h
  rw [get?_eq_some_iff ((hperm.map Prod.fst).nodup_iff.mpr h), hperm.mem_iff]

end Named

end RowFilter
