import GenericSignature.JavaType.Printer

/-! Type parameters, the signatures of classes, methods and fields, and their canonical texts. -/

set_option autoImplicit false

namespace GenericSignature

structure TypeParameter where
  name : Identifier
  classBound : Option ReferenceType
  interfaceBounds : List ReferenceType
  deriving DecidableEq

/-- The bound that stands for the parameter: the class bound, or else the first interface bound. -/
def TypeParameter.bound? (parameter : TypeParameter) : Option ReferenceType :=
  parameter.classBound.or parameter.interfaceBounds.head?

/-- The first declaration of a name; later ones are never seen. -/
def TypeParameter.find? (declared : List TypeParameter) (name : Identifier) :
    Option TypeParameter :=
  declared.find? (·.name = name)

structure ClassSignature where
  typeParameters : List TypeParameter
  superclass : ClassType
  interfaces : List ClassType
  deriving DecidableEq

inductive ReturnType where
  | value (type : JavaType)
  | void
  deriving DecidableEq

/-- A type in a `throws` clause. -/
inductive ThrownType where
  | classType (type : ClassType)
  | variable (type : TypeVariable)
  deriving DecidableEq

def ThrownType.toReferenceType : ThrownType → ReferenceType
  | .classType type => .classType type
  | .variable type => .variable type

structure MethodSignature where
  typeParameters : List TypeParameter
  parameters : List JavaType
  result : ReturnType
  thrown : List ThrownType
  deriving DecidableEq

structure FieldSignature where
  type : ReferenceType
  deriving DecidableEq

/-- A signature of any of the three sorts of declarations. -/
inductive Signature where
  | ofClass (signature : ClassSignature)
  | ofMethod (signature : MethodSignature)
  | ofField (signature : FieldSignature)
  deriving DecidableEq

/-! ## Texts -/

def TypeParameter.chars (parameter : TypeParameter) : List Char :=
  parameter.name.text.toList ++ ':' :: (parameter.classBound.elim [] ReferenceType.chars ++
    parameter.interfaceBounds.flatMap fun bound => ':' :: bound.chars)

def TypeParameter.enclosedChars : List TypeParameter → List Char
  | [] => []
  | declared => '<' :: (declared.flatMap TypeParameter.chars ++ ['>'])

def ClassSignature.chars (signature : ClassSignature) : List Char :=
  TypeParameter.enclosedChars signature.typeParameters ++ signature.superclass.chars ++
    signature.interfaces.flatMap ClassType.chars

def ReturnType.chars : ReturnType → List Char
  | .value type => type.chars
  | .void => ['V']

def ThrownType.chars (type : ThrownType) : List Char := type.toReferenceType.chars

def MethodSignature.chars (signature : MethodSignature) : List Char :=
  TypeParameter.enclosedChars signature.typeParameters ++
    '(' :: (signature.parameters.flatMap JavaType.chars ++ ')' :: (signature.result.chars ++
      signature.thrown.flatMap fun type => '^' :: type.chars))

def FieldSignature.chars (signature : FieldSignature) : List Char := signature.type.chars

def Signature.chars : Signature → List Char
  | .ofClass signature => signature.chars
  | .ofMethod signature => signature.chars
  | .ofField signature => signature.chars

end GenericSignature
