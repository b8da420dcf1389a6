import GenericSignature.Declaration
import GenericSignature.Parser.JavaType

/-! Reading type parameters and the signatures of classes, methods and fields. -/

set_option autoImplicit false

namespace GenericSignature

section Productions

variable (typeArguments : Parser (List TypeArgument))

/-- The class bound is there only if a reference type follows the first colon. -/
def Parser.typeParameter : Parser TypeParameter := do
  let name ← identifier .typeParameter
  expect ':' .parameterBound
  let classBound ← match ← peek with
    | some 'L' | some 'T' | some '[' => some <$> referenceType typeArguments
    | _ => pure none
  let interfaceBounds ← repeatWhile (consume ':') (referenceType typeArguments)
  return ⟨name, classBound, interfaceBounds⟩

def Parser.typeParameters : Parser (List TypeParameter) := do
  if ← consume '<' then
    someUntil '>' (typeParameter typeArguments)
  else
    return []

def Parser.classSignature : Parser ClassSignature := do
  let typeParameters ← typeParameters typeArguments
  let superclass ← classType typeArguments
  let interfaces ← repeatWhile ((· = some 'L') <$> peek) (classType typeArguments)
  return ⟨typeParameters, superclass, interfaces⟩

def Parser.returnType : Parser ReturnType := do
  if ← consume 'V' then
    return .void
  else
    return .value (← javaType typeArguments)

def Parser.thrownType : Parser ThrownType := do
  match ← peek with
  | some 'L' => return .classType (← classType typeArguments)
  | some 'T' => return .variable (← typeVariable)
  | _ => unexpected .thrownType

def Parser.methodSignature : Parser MethodSignature := do
  let typeParameters ← typeParameters typeArguments
  expect '(' .parameterList
  let parameters ← repeatUntil ')' (javaType typeArguments)
  let result ← returnType typeArguments
  let thrown ← repeatWhile (consume '^') (thrownType typeArguments)
  return ⟨typeParameters, parameters, result, thrown⟩

def Parser.fieldSignature : Parser FieldSignature := do
  return ⟨← referenceType typeArguments⟩

end Productions

end GenericSignature
