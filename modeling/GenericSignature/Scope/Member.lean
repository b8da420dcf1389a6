import GenericSignature.Scope.Basic

/-! Members of classes, and the types in their signatures resolved. -/

set_option autoImplicit false

namespace GenericSignature

def ClassSignature.scope (signature : ClassSignature) : Scope := [signature.typeParameters]

/-- A method with the class that declares it. -/
structure MethodMember where
  declaringClass : ClassSignature
  signature : MethodSignature
  deriving DecidableEq

/-- A field with the class that declares it. -/
structure FieldMember where
  declaringClass : ClassSignature
  signature : FieldSignature
  deriving DecidableEq

def MethodMember.scope (method : MethodMember) : Scope :=
  method.signature.typeParameters :: method.declaringClass.scope

def FieldMember.scope (field : FieldMember) : Scope := field.declaringClass.scope

/-- A request for an element that a method does not have. -/
inductive OutOfRange where
  | parameter (index count : Nat)
  | thrown (index count : Nat)
  deriving DecidableEq, Repr

def OutOfRange.message : OutOfRange → String
  | .parameter index count =>
    s!"Parameter index {index} is out of range, the method has {count} parameters"
  | .thrown index count =>
    s!"Throws clause index {index} is out of range, the method throws {count} types"

def MethodMember.resolveParameter (method : MethodMember) (index : Nat) :
    Except OutOfRange (Logged (Option JavaType)) :=
  let parameters := method.signature.parameters
  match parameters[index]? with
  | some type => .ok (method.scope.resolveType type)
  | none => .error (.parameter index parameters.length)

def MethodMember.resolveResult (method : MethodMember) : Logged (Option ReturnType) := do
  match method.signature.result with
  | .value type => return (← method.scope.resolveType type).map .value
  | .void => return some .void

def MethodMember.resolveThrown (method : MethodMember) (index : Nat) :
    Except OutOfRange (Logged (Option ReferenceType)) :=
  let thrown := method.signature.thrown
  match thrown[index]? with
  | some type => .ok (method.scope.resolveReference type.toReferenceType)
  | none => .error (.thrown index thrown.length)

def FieldMember.resolve (field : FieldMember) : Logged (Option ReferenceType) :=
  field.scope.resolveReference field.signature.type

end GenericSignature
