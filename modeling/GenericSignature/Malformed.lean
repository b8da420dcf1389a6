/-! Why a text is not a signature, and where.

The position is a byte offset; it is the offset at which reading stopped.
-/

set_option autoImplicit false

namespace GenericSignature

/-- What the grammar admits at a place where another character was found. -/
inductive Expected where
  | referenceType
  | classType
  | classTypeEnd
  | arrayType
  | typeVariable
  | typeVariableEnd
  | parameterBound
  | parameterList
  | thrownType
  deriving DecidableEq, Repr

def Expected.description : Expected → String
  | .referenceType => "a reference type ('L', 'T' or '[')"
  | .classType => "a class type ('L')"
  | .classTypeEnd => "the end of a class type (';')"
  | .arrayType => "an array type ('[')"
  | .typeVariable => "a type variable ('T')"
  | .typeVariableEnd => "the end of a type variable (';')"
  | .parameterBound => "the bound of a type parameter (':')"
  | .parameterList => "the parameter list of a method ('(')"
  | .thrownType => "a thrown type ('L' or 'T')"

/-- The parts of a signature that hold a name. -/
inductive NamePlace where
  | binaryName
  | nestedClass
  | typeVariable
  | typeParameter
  deriving DecidableEq, Repr

def NamePlace.description : NamePlace → String
  | .binaryName => "a binary class name"
  | .nestedClass => "a nested class type"
  | .typeVariable => "a type variable"
  | .typeParameter => "a type parameter"

inductive Fault where
  | unexpectedChar (expected : Expected) (found : Char)
  | unexpectedEnd (expected : Expected)
  | emptyIdentifier (place : NamePlace)
  | nestedTooDeeply (limit : Nat)
  | trailingCharacters
  deriving DecidableEq, Repr

def Fault.message : Fault → String
  | .unexpectedChar expected found => s!"expected {expected.description}, but found '{found}'"
  | .unexpectedEnd expected =>
    s!"expected {expected.description}, but reached the end of the signature"
  | .emptyIdentifier place => s!"expected an identifier in {place.description}"
  | .nestedTooDeeply limit => s!"nesting exceeds the limit of {limit} levels"
  | .trailingCharacters => "unexpected characters after the end of the signature"

structure Malformed where
  position : Nat
  fault : Fault
  deriving DecidableEq, Repr

def Malformed.message (error : Malformed) : String :=
  s!"Malformed signature at offset {error.position}: {error.fault.message}"

end GenericSignature
