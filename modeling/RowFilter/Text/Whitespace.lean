/-!
# White space

Tokens are separated, and names and keywords are trimmed, by the characters that carry the
Unicode property `White_Space`.
-/

namespace RowFilter.Text

/-- Whether a character's code point lies in one of the inclusive ranges. -/
def inRanges (ranges : List (Nat × Nat)) (c : Char) : Bool :=
  ranges.any fun range => range.1 ≤ c.toNat && c.toNat ≤ range.2

/-- The code points of the property `White_Space`. -/
def whitespaceRanges : List (Nat × Nat) :=
  [(9, 13), (32, 32), (133, 133), (160, 160), (5760, 5760), (8192, 8202), (8232, 8233),
   (8239, 8239), (8287, 8287), (12288, 12288)]

def isWhitespace (c : Char) : Bool :=
  inRanges whitespaceRanges c

/-- Drops white space at both ends. -/
def trim (text : List Char) : List Char :=
  ((text.dropWhile isWhitespace).reverse.dropWhile isWhitespace).reverse

theorem dropWhile_of_notMem {text : List Char} (h : ∀ c ∈ text, isWhitespace c = false) :
    text.dropWhile isWhitespace = text := by
  cases text with
  | nil => rfl
  | cons c rest =>
    rw [List.dropWhile_cons_of_neg]
    simp [h c]

theorem trim_of_notMem {text : List Char} (h : ∀ c ∈ text, isWhitespace c = false) :
    trim text = text := by
  have hreverse : ∀ c ∈ text.reverse, isWhitespace c = false := by
    intro c hc
    exact h c (List.mem_reverse.mp hc)
  rw [trim, dropWhile_of_notMem h, dropWhile_of_notMem hreverse, List.reverse_reverse]

theorem mem_of_mem_trim {text : List Char} {c : Char} (h : c ∈ trim text) : c ∈ text := by
  have hfront := (List.dropWhile_suffix isWhitespace).mem (List.mem_reverse.mp h)
  exact (List.dropWhile_suffix isWhitespace).mem (List.mem_reverse.mp hfront)

/-- The text without white space at either end. -/
def trimmed (text : String) : String :=
  String.ofList (trim text.toList)

end RowFilter.Text
