import RowFilter.Expr.Token
import RowFilter.Text.LetterCase

/-!
# Keywords

A vocabulary gives keywords their meaning. A keyword means one operand, which belongs to one of
four namespaces; another meaning may replace it only within that namespace.
-/

namespace RowFilter

/-- What a keyword stands for. -/
inductive Operand where
  | function (function : Builtin)
  /-- An operator before its operand. -/
  | leading (op : UnaryOp)
  /-- An operator after its operand. -/
  | trailing (op : UnaryOp)
  | binary (op : BinaryOp)
deriving DecidableEq, Repr

/-- The namespace of an operand, as messages state it. -/
def Operand.namespaceName : Operand → String
  | function _ => "function"
  | leading _ => "left-unary"
  | trailing _ => "right-unary"
  | binary _ => "binary"

inductive VocabularyError where
  | conflict (keyword : String) (existing requested : Operand)
  | invalidKeyword (keyword : String)
deriving DecidableEq, Repr

def VocabularyError.message : VocabularyError → String
  | conflict keyword existing requested =>
    "Keyword \x27" ++ keyword ++ "\x27 is already registered as a " ++ existing.namespaceName
      ++ " operand, cannot register it as a " ++ requested.namespaceName ++ " operand"
  | invalidKeyword keyword => "Invalid operand keyword: \x27" ++ keyword ++ "\x27"

/-- Keywords by the namespaces of what they stand for. -/
structure Vocabulary where
  functions : Named Builtin := []
  leading : Named UnaryOp := []
  trailing : Named UnaryOp := []
  binary : Named BinaryOp := []

namespace Vocabulary

/-- The form under which a keyword is stored: without white space around it, in lower case. -/
def normalize (keyword : List Char) : List Char :=
  Text.lower (Text.trim keyword)

def empty : Vocabulary := {}

def size (vocabulary : Vocabulary) : Nat :=
  vocabulary.functions.length + vocabulary.leading.length + vocabulary.trailing.length
    + vocabulary.binary.length

/-- The meaning under a name, looked for in one namespace after another. -/
def find? (vocabulary : Vocabulary) (name : String) : Option Operand :=
  ((Named.get? name vocabulary.functions).map .function).or <|
    ((Named.get? name vocabulary.leading).map .leading).or <|
      ((Named.get? name vocabulary.trailing).map .trailing).or <|
        (Named.get? name vocabulary.binary).map .binary

/-- The meaning of a keyword in any spelling of its normal form. -/
def lookup (vocabulary : Vocabulary) (keyword : List Char) : Option Operand :=
  vocabulary.find? (String.ofList (normalize keyword))

/-- The meaning under a name in the namespace of an operand. -/
def findWithin? (vocabulary : Vocabulary) (name : String) : Operand → Option Operand
  | .function _ => (Named.get? name vocabulary.functions).map .function
  | .leading _ => (Named.get? name vocabulary.leading).map .leading
  | .trailing _ => (Named.get? name vocabulary.trailing).map .trailing
  | .binary _ => (Named.get? name vocabulary.binary).map .binary

/-- Puts a name into the namespace of its meaning. -/
def put (vocabulary : Vocabulary) (name : String) : Operand → Vocabulary
  | .function function => { vocabulary with functions := vocabulary.functions.insert name function }
  | .leading op => { vocabulary with leading := vocabulary.leading.insert name op }
  | .trailing op => { vocabulary with trailing := vocabulary.trailing.insert name op }
  | .binary op => { vocabulary with binary := vocabulary.binary.insert name op }

/-- Gives a keyword a meaning and returns the one it had. -/
def register (vocabulary : Vocabulary) (keyword : List Char) (operand : Operand) :
    Except VocabularyError (Vocabulary × Option Operand) :=
  let keyword := normalize keyword
  let name := String.ofList keyword
  if !Token.isSingleKeyword keyword then .error (.invalidKeyword name)
  else
    let accepted := (vocabulary.put name operand, vocabulary.findWithin? name operand)
    match vocabulary.find? name with
    | some existing =>
      if existing.namespaceName == operand.namespaceName then .ok accepted
      else .error (.conflict name existing operand)
    | none => .ok accepted

/-- Registers operands one after another, up to the first that is refused. -/
def extend (vocabulary : Vocabulary) : List (String × Operand) → Except VocabularyError Vocabulary
  | [] => .ok vocabulary
  | (keyword, operand) :: rest => do
    let (extended, _) ← vocabulary.register keyword.toList operand
    extended.extend rest

def standardOperands : List (String × Operand) :=
  [("or", .binary .or), ("||", .binary .or), ("and", .binary .and), ("&&", .binary .and),
   ("==", .binary .eq), ("=", .binary .eq), ("!=", .binary .ne), ("<", .binary .lt),
   ("<=", .binary .le), (">", .binary .gt), (">=", .binary .ge), ("like", .binary .like),
   ("containsoneof", .binary .containsOneOf), ("containsnone", .binary .containsNone),
   ("+", .binary .add), ("-", .binary .sub), ("*", .binary .mul), ("/", .binary .div),
   ("%", .binary .mod), ("not", .leading .not), ("!", .leading .not),
   ("isnull", .trailing .isNull), ("notnull", .trailing .notNull),
   ("concat", .function .concat), ("lower", .function .lower), ("upper", .function .upper),
   ("isempty", .function .isEmpty), ("size", .function .size), ("now", .function .now)]

/-- The names with their meanings, the later ones put over the earlier ones. -/
def ofOperands (operands : List (String × Operand)) : Vocabulary :=
  operands.foldl (fun vocabulary entry => vocabulary.put entry.1 entry.2) empty

def standard : Vocabulary :=
  ofOperands standardOperands

/-- Whether no other namespace than that of the operand has the name. -/
def Admits (vocabulary : Vocabulary) (name : String) (operand : Operand) : Prop :=
  ∀ existing, vocabulary.find? name = some existing →
    existing.namespaceName = operand.namespaceName

section

variable {vocabulary : Vocabulary} {name : String} {operand : Operand}

theorem admits_of_find?_eq_none (h : vocabulary.find? name = none) :
    vocabulary.Admits name operand := by
  intro existing hexisting
  rw [h] at hexisting
  cases hexisting

/-- What is found first is what the namespace of the operand has. -/
theorem Admits.findWithin?_eq (h : vocabulary.Admits name operand) :
    vocabulary.findWithin? name operand = vocabulary.find? name := by
  unfold Admits find? at h
  unfold find?
  cases hfunctions : Named.get? name vocabulary.functions <;>
    cases hleading : Named.get? name vocabulary.leading <;>
    cases htrailing : Named.get? name vocabulary.trailing <;>
    cases hbinary : Named.get? name vocabulary.binary <;>
    cases operand <;>
    simp_all [findWithin?, Operand.namespaceName]

theorem Admits.find?_put (h : vocabulary.Admits name operand) (other : String) :
    (vocabulary.put name operand).find? other =
      if other = name then some operand else vocabulary.find? other := by
  by_cases hother : other = name
  · subst hother
    unfold Admits find? at h
    cases hfunctions : Named.get? other vocabulary.functions <;>
      cases hleading : Named.get? other vocabulary.leading <;>
      cases htrailing : Named.get? other vocabulary.trailing <;>
      cases operand <;>
      simp_all [find?, put, Named.get?_insert, Operand.namespaceName]
  · cases operand <;> simp [find?, put, Named.get?_insert, hother]

end

theorem find?_empty (name : String) : empty.find? name = none := rfl

theorem find?_foldl_put {operands : List (String × Operand)} {vocabulary : Vocabulary}
    (hnodup : (operands.map Prod.fst).Nodup)
    (hfresh : ∀ entry ∈ operands, vocabulary.find? entry.1 = none) {name : String}
    {operand : Operand} :
    (operands.foldl (fun vocabulary entry => vocabulary.put entry.1 entry.2) vocabulary).find?
        name = some operand ↔
      (name, operand) ∈ operands ∨ vocabulary.find? name = some operand := by
  induction operands generalizing vocabulary with
  | nil => simp
  | cons entry rest ih =>
    obtain ⟨first, meaning⟩ := entry
    rw [List.map_cons, List.nodup_cons] at hnodup
    have hnone : vocabulary.find? first = none := hfresh _ List.mem_cons_self
    have hadmits : vocabulary.Admits first meaning := admits_of_find?_eq_none hnone
    have hother : ∀ entry ∈ rest, entry.1 ≠ first := fun entry hentry heq =>
      hnodup.1 (List.mem_map.mpr ⟨entry, hentry, heq⟩)
    have hrest : ∀ entry ∈ rest, (vocabulary.put first meaning).find? entry.1 = none := by
      intro entry hentry
      rw [hadmits.find?_put, if_neg (hother entry hentry)]
      exact hfresh entry (List.mem_cons_of_mem _ hentry)
    rw [List.foldl_cons, ih hnodup.2 hrest, hadmits.find?_put, List.mem_cons, Prod.mk.injEq]
    by_cases hname : name = first
    · subst hname
      have hmem : (name, operand) ∉ rest := fun hmem => hother _ hmem rfl
      rw [if_pos rfl, hnone]
      simp [hmem, eq_comm]
    · simp [hname]

/-- Names that are all different have the meanings that they are given. -/
theorem find?_ofOperands {operands : List (String × Operand)}
    (h : (operands.map Prod.fst).Nodup) {name : String} {operand : Operand} :
    (ofOperands operands).find? name = some operand ↔ (name, operand) ∈ operands := by
  rw [ofOperands, find?_foldl_put h fun entry _ => find?_empty entry.1]
  simp [find?_empty]

end Vocabulary

end RowFilter
