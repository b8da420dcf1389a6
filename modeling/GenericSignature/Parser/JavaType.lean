import GenericSignature.JavaType.Dimension
import GenericSignature.Parser.Basic

/-! Reading types.

Lists of type arguments are the only place where the grammar is recursive. All other productions
take the parser of such lists as a parameter; `typeArgumentsWithin` ties the knot, one level of
nesting at a time.
-/

set_option autoImplicit false

namespace GenericSignature

def Parser.binaryName : Parser String := do
  let first ← name .binaryName
  let others ← repeatWhile (consume '/') (name .binaryName)
  return "/".intercalate (first :: others)

def Parser.typeVariable : Parser TypeVariable := do
  expect 'T' .typeVariable
  let name ← identifier .typeVariable
  expect ';' .typeVariableEnd
  return ⟨name⟩

section Productions

variable (typeArguments : Parser (List TypeArgument))

def Parser.simpleClassType : Parser SimpleClassType := do
  let name ← identifier .nestedClass
  let arguments ← typeArguments
  return ⟨name, arguments⟩

def Parser.classType : Parser ClassType := do
  expect 'L' .classType
  let binaryName ← binaryName
  let arguments ← typeArguments
  let nested ← repeatWhile (consume '.') (simpleClassType typeArguments)
  expect ';' .classTypeEnd
  return ⟨binaryName, arguments, nested⟩

def Parser.namedType : Parser ReferenceType := do
  match ← peek with
  | some 'L' => return .classType (← classType typeArguments)
  | some 'T' => return .variable (← typeVariable)
  | _ => unexpected .referenceType

def Parser.primitiveOr (reference : Parser ReferenceType) : Parser JavaType := do
  match (← peek).bind BaseType.ofDescriptor? with
  | some type =>
    skip 1
    return .base type
  | none => return .reference (← reference)

/-- All the brackets are read before the element, which therefore is no array. -/
def Parser.arrayType : Parser ArrayType := do
  let dimensions ← countAhead '['
  if positive : 0 < dimensions then
    if dimensions ≤ ArrayType.maxDimensions then
      -- No bracket is left, so whatever follows is not the start of another array.
      skip dimensions
      let element ← primitiveOr (namedType typeArguments)
      return .withDimensions element dimensions positive
    else
      -- The first bracket too many is the offending character.
      skip ArrayType.maxDimensions
      fail (.nestedTooDeeply ArrayType.maxDimensions)
  else
    unexpected .arrayType

def Parser.referenceType : Parser ReferenceType := do
  if (← peek) = some '[' then
    return .array (← arrayType typeArguments)
  else
    namedType typeArguments

def Parser.javaType : Parser JavaType := primitiveOr (referenceType typeArguments)

def Parser.typeArgument : Parser TypeArgument := do
  match ← peek with
  | some '*' =>
    skip 1
    return .unbounded
  | some '+' =>
    skip 1
    return .upperBounded (← referenceType typeArguments)
  | some '-' =>
    skip 1
    return .lowerBounded (← referenceType typeArguments)
  | _ => return .exactly (← referenceType typeArguments)

end Productions

/-- A list of type arguments, possibly absent, with `levels` lists in one another at most. -/
def Parser.typeArgumentsWithin (levels : Nat) : Parser (List TypeArgument) := do
  if (← peek) = some '<' then
    match levels with
    | 0 => fail (.nestedTooDeeply Cursor.maxDepth)
    | levels + 1 =>
      nested do
        skip 1
        someUntil '>' (typeArgument (typeArgumentsWithin levels))
  else
    return []

def Parser.typeArguments : Parser (List TypeArgument) := fun cursor =>
  typeArgumentsWithin (Cursor.maxDepth - cursor.depth) cursor

end GenericSignature
