/-!
# UTF-8

Bytes of a text, and the text of bytes. Reading goes over the bytes one sequence at a time; a
malformed sequence is skipped as far as it agrees with some well-formed one, and at least by one
byte.
-/

namespace RowFilter

/-- Raw bytes. -/
abbrev Bytes := List UInt8

namespace Text

/-- A byte of a multi-byte sequence, after its first. -/
def isContinuation (b : UInt8) : Bool :=
  b.toNat / 64 == 2

def encodeChar (c : Char) : Bytes :=
  let n := c.toNat
  if n < 0x80 then [UInt8.ofNat n]
  else if n < 0x800 then
    [UInt8.ofNat (0xC0 + n / 64), UInt8.ofNat (0x80 + n % 64)]
  else if n < 0x10000 then
    [UInt8.ofNat (0xE0 + n / 4096), UInt8.ofNat (0x80 + n / 64 % 64), UInt8.ofNat (0x80 + n % 64)]
  else
    [UInt8.ofNat (0xF0 + n / 262144), UInt8.ofNat (0x80 + n / 4096 % 64),
     UInt8.ofNat (0x80 + n / 64 % 64), UInt8.ofNat (0x80 + n % 64)]

/-- The bytes of a text. -/
def encode (text : List Char) : Bytes :=
  text.flatMap encodeChar

/-- Whether two bytes can begin a sequence of three: neither an overlong form nor a surrogate. -/
def opensThree (first second : Nat) : Bool :=
  if first == 0xE0 then 0xA0 ≤ second && second ≤ 0xBF
  else if first == 0xED then 0x80 ≤ second && second ≤ 0x9F
  else 0x80 ≤ second && second ≤ 0xBF

/-- Whether two bytes can begin a sequence of four: neither an overlong form nor above the last
code point. -/
def opensFour (first second : Nat) : Bool :=
  if first == 0xF0 then 0x90 ≤ second && second ≤ 0xBF
  else if first == 0xF4 then 0x80 ≤ second && second ≤ 0x8F
  else 0x80 ≤ second && second ≤ 0xBF

/-- The character that a first byte and the bytes after it begin with, or `none` if they are
malformed, and how many of the bytes after the first it takes. -/
def decodeSequence (first : UInt8) (rest : Bytes) : Option Char × Nat :=
  let a := first.toNat
  if a < 0x80 then (some (Char.ofNat a), 0)
  else if 0xC2 ≤ a && a ≤ 0xDF then
    match rest with
    | b :: _ =>
      if isContinuation b then (some (Char.ofNat (a % 32 * 64 + b.toNat % 64)), 1) else (none, 0)
    | [] => (none, 0)
  else if 0xE0 ≤ a && a ≤ 0xEF then
    match rest with
    | b :: more =>
      if !opensThree a b.toNat then (none, 0)
      else
        match more with
        | c :: _ =>
          if isContinuation c then
            (some (Char.ofNat ((a % 16 * 64 + b.toNat % 64) * 64 + c.toNat % 64)), 2)
          else (none, 1)
        | [] => (none, 1)
    | [] => (none, 0)
  else if 0xF0 ≤ a && a ≤ 0xF4 then
    match rest with
    | b :: more =>
      if !opensFour a b.toNat then (none, 0)
      else
        match more with
        | c :: last =>
          if !isContinuation c then (none, 1)
          else
            match last with
            | d :: _ =>
              if isContinuation d then
                (some (Char.ofNat (((a % 8 * 64 + b.toNat % 64) * 64 + c.toNat % 64) * 64
                  + d.toNat % 64)), 3)
              else (none, 2)
            | [] => (none, 2)
        | [] => (none, 1)
    | [] => (none, 0)
  else (none, 0)

/-- The sequences of some bytes in order after the first `taken` of them, with `none` for a
malformed one. -/
def sequencesAfter : Nat → Bytes → List (Option Char)
  | _, [] => []
  | taken + 1, _ :: rest => sequencesAfter taken rest
  | 0, first :: rest =>
    let (c, taken) := decodeSequence first rest
    c :: sequencesAfter taken rest

/-- The sequences of some bytes in order, with `none` for a malformed one. -/
def sequences (bytes : Bytes) : List (Option Char) :=
  sequencesAfter 0 bytes

/-- The text of some bytes, if they are well formed. -/
def decode? (bytes : Bytes) : Option (List Char) :=
  (sequences bytes).mapM id

/-- The text of some bytes with a replacement character for each malformed sequence. -/
def decodeLossy (bytes : Bytes) : List Char :=
  (sequences bytes).map fun c => c.getD '\uFFFD'

/-- The bytes of a string. -/
def bytesOf (text : String) : Bytes :=
  encode text.toList

/-- The string of some bytes, if they are well formed. -/
def ofBytes? (bytes : Bytes) : Option String :=
  (decode? bytes).map String.ofList

/-- The string of some bytes with a replacement character for each malformed sequence. -/
def ofBytesLossy (bytes : Bytes) : String :=
  String.ofList (decodeLossy bytes)

end Text

end RowFilter
