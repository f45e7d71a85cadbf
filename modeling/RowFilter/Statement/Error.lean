import RowFilter.Expr.Error

/-!
# Errors of filters

A filter fails when it is compiled, when it is merged for a request, or when a processor works on
the rows found. A compile fault names what a backend cannot express.
-/

namespace RowFilter

/-- What a backend's filter language cannot say. -/
inductive Construct where
  | valueAsPredicate (type : ValueType)
  | expressionAsPredicate (type : ValueType)
  | nullCheckOfPredicate (op : UnaryOp)
  | predicateAsValue
  | attributeOnRight (op : BinaryOp)
  | membershipInColumn (op : BinaryOp)
  | collectionColumn
  | comparison (op : BinaryOp)
  | arithmetic (op : BinaryOp)
  | columnFunction (function : Builtin)
  | computedAssertion
  | missingAttribute
  | attributePair
  | singleCharacterWildcard
  | directoryArithmetic (op : BinaryOp)
  | directoryFunction (function : Builtin)
deriving DecidableEq, Repr

namespace Construct

def quotedKeyword (op : BinaryOp) : String :=
  "\x27" ++ op.keyword ++ "\x27"

def message : Construct → String
  | valueAsPredicate type => type.name ++ " value used as a predicate"
  | expressionAsPredicate type => type.name ++ " expression used as a predicate"
  | nullCheckOfPredicate op => op.keyword ++ " applied to a predicate"
  | predicateAsValue => "predicate used as a value"
  | attributeOnRight op => quotedKeyword op ++ " with the attribute on the right-hand side"
  | membershipInColumn op => quotedKeyword op ++ " against a column"
  | collectionColumn => "collection-valued columns"
  | comparison op => quotedKeyword op ++ " as a comparison"
  | arithmetic op => quotedKeyword op ++ " as arithmetic"
  | columnFunction function => function.name ++ "() over columns"
  | computedAssertion => "computed expressions in directory filters"
  | missingAttribute => "comparison without an attribute"
  | attributePair => "attribute-to-attribute comparison"
  | singleCharacterWildcard => "single-character wildcard \x27_\x27 in directory patterns"
  | directoryArithmetic op => "arithmetic " ++ quotedKeyword op ++ " over directory attributes"
  | directoryFunction function => function.name ++ "() over directory attributes"

end Construct

/-- Why a value cannot be used where it stands. -/
inductive LiteralFault where
  | inconvertible (type : ValueType) (text : String) (expected : ValueType)
  | objectParameter
  | inAssertion (type : ValueType)
  /-- An expression without data that cannot be evaluated. -/
  | evaluation (expression : String) (error : EvalError)
deriving DecidableEq, Repr

def LiteralFault.message : LiteralFault → String
  | inconvertible type text expected =>
    "cannot use " ++ type.name ++ " value \x27" ++ text ++ "\x27 as " ++ expected.name
  | objectParameter => "objects cannot be bound as parameters"
  | inAssertion type => type.name ++ " values cannot appear in a directory assertion"
  | evaluation expression error => expression ++ ": " ++ error.message

inductive CompileFault where
  | unknownAttribute (path : String)
  | incompatibleType (path : String) (expected actual : ValueType)
  | reservedName (name : String)
  | unsupported (construct : Construct)
  | invalidLiteral (fault : LiteralFault)
deriving DecidableEq, Repr

def CompileFault.message : CompileFault → String
  | unknownAttribute path => "Unknown attribute: " ++ path
  | incompatibleType path expected actual =>
    "Attribute " ++ path ++ " has type " ++ actual.name ++ ", expected " ++ expected.name
  | reservedName name => "Resolvable name \x27" ++ name ++ "\x27 is reserved"
  | unsupported construct => "Unsupported construct: " ++ construct.message
  | invalidLiteral fault => "Invalid literal: " ++ fault.message

/-- A compile fault with the backend and the expression that it concerns. -/
structure CompileError where
  backend : String
  expression : String
  fault : CompileFault
deriving DecidableEq, Repr

def CompileError.message (error : CompileError) : String :=
  "Cannot compile \x27" ++ error.expression ++ "\x27 for backend " ++ error.backend ++ ": "
    ++ error.fault.message

inductive MergeError where
  | notCompiled
  | evaluation (expression : String) (error : EvalError)
  | render (error : CompileError)
deriving DecidableEq, Repr

def MergeError.message : MergeError → String
  | notCompiled => "Filter has not been compiled"
  | evaluation expression error =>
    "Failed to evaluate \x27" ++ expression ++ "\x27: " ++ error.message
  | render error => "Failed to render deferred filter part: " ++ error.message

end RowFilter
