import RowFilter.Value.Basic

/-!
# Errors of directory searches
-/

namespace RowFilter.Directory

/-- What is wrong with the form of a search filter; positions count its bytes. -/
inductive FilterSyntax where
  | expected (wanted : UInt8) (position : Nat) (found : UInt8)
  | expectedAtEnd (wanted : UInt8)
  | emptyList (position : Nat)
  | invalidName (position : Nat)
  | missingName (position : Nat)
  | missingOperator (position : Nat)
  | invalidEscape
  | trailingInput (position : Nat)
deriving DecidableEq, Repr

namespace FilterSyntax

def byteText (b : UInt8) : String :=
  "\x27" ++ String.ofList [Char.ofNat b.toNat] ++ "\x27"

def numberText (n : Nat) : String :=
  String.ofList (Number.natText n)

def message : FilterSyntax → String
  | expected wanted position found =>
    "expected " ++ byteText wanted ++ " at " ++ numberText position ++ ", found " ++ byteText found
  | expectedAtEnd wanted => "expected " ++ byteText wanted ++ " at end of filter"
  | emptyList position => "empty filter list at " ++ numberText position
  | invalidName position => "invalid attribute name at " ++ numberText position
  | missingName position => "missing attribute name at " ++ numberText position
  | missingOperator position => "missing comparison operator at " ++ numberText position
  | invalidEscape => "invalid escape sequence"
  | trailingInput position => "unexpected trailing input at " ++ numberText position

end FilterSyntax

inductive FilterFault where
  | malformed (error : FilterSyntax)
  /-- A value without a form in an assertion. -/
  | unbindable (type : ValueType)
  | missingParameter
  | surplusParameter
deriving DecidableEq, Repr

def FilterFault.message : FilterFault → String
  | malformed error => error.message
  | unbindable type => "cannot bind " ++ type.name ++ " value"
  | missingParameter => "more placeholders than parameters"
  | surplusParameter => "more parameters than placeholders"

end RowFilter.Directory

namespace RowFilter

inductive DirectoryError where
  | connection (reason : String)
  | poolExhausted (timeout : Nat)
  | invalidFilter (filter : String) (fault : Directory.FilterFault)
  | search (reason : String)
  /-- The server stopped at its size limit. -/
  | sizeLimitExceeded
deriving DecidableEq, Repr

def DirectoryError.message : DirectoryError → String
  | connection reason => "Connection failed: " ++ reason
  | poolExhausted timeout =>
    "Connection pool exhausted: no connection available within "
      ++ Directory.FilterSyntax.numberText timeout ++ "ms"
  | invalidFilter filter fault => "Invalid filter \x27" ++ filter ++ "\x27: " ++ fault.message
  | search reason => "Search failed: " ++ reason
  | sizeLimitExceeded => "Size limit exceeded"

end RowFilter
