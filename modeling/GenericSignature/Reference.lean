import GenericSignature.Declaration
import GenericSignature.JavaType.Dimension
import Std.Data.ExtTreeSet

/-! The classes that a type or a declaration refers to, by their erased names.

Only what is written is walked: neither the declarations of the classes nor the bounds of type
variables are looked up.
-/

set_option autoImplicit false

namespace GenericSignature

/-- Names of classes, listed without repetition in the order of their bytes. -/
abbrev ClassNames := Std.ExtTreeSet String Text.byteOrder

mutual

def JavaType.addReferences : JavaType → ClassNames → ClassNames
  | .base _, names => names
  | .reference type, names => type.addReferences names

def ReferenceType.addReferences : ReferenceType → ClassNames → ClassNames
  | .classType type, names => type.addReferences names
  | .array type, names => type.addReferences names
  | .variable _, names => names

def ClassType.addReferences : ClassType → ClassNames → ClassNames
  | ⟨binaryName, arguments, nested⟩, names =>
    SimpleClassType.addReferencesList nested
      (TypeArgument.addReferencesList arguments
        (names.insert (ClassType.erasedName ⟨binaryName, arguments, nested⟩)))

def SimpleClassType.addReferencesList : List SimpleClassType → ClassNames → ClassNames
  | [], names => names
  | ⟨_, arguments⟩ :: rest, names =>
    SimpleClassType.addReferencesList rest (TypeArgument.addReferencesList arguments names)

def ArrayType.addReferences : ArrayType → ClassNames → ClassNames
  | ⟨component⟩, names => component.addReferences names

def TypeArgument.addReferences : TypeArgument → ClassNames → ClassNames
  | .exactly type, names => type.addReferences names
  | .upperBounded type, names => type.addReferences names
  | .lowerBounded type, names => type.addReferences names
  | .unbounded, names => names

def TypeArgument.addReferencesList : List TypeArgument → ClassNames → ClassNames
  | [], names => names
  | first :: rest, names => TypeArgument.addReferencesList rest (first.addReferences names)

end

/-- The classes of what is left without the layers. -/
def ArrayType.addStrippedReferences (array : ArrayType) (names : ClassNames) : ClassNames :=
  array.element.addReferences names

theorem JavaType.addReferences_stripLayers (layers : Nat) (type : JavaType) (names : ClassNames) :
    (type.stripLayers layers).1.addReferences names = type.addReferences names := by
  fun_induction stripLayers layers type with
  | case1 layers component ih => exact ih
  | case2 => rfl
  | case3 => rfl
  | case4 => rfl

theorem ArrayType.addReferences_eq_addStrippedReferences (array : ArrayType) (names : ClassNames) :
    array.addReferences names = array.addStrippedReferences names := by
  obtain ⟨component⟩ := array
  exact (component.addReferences_stripLayers 1 names).symm

/-- What refers to classes by name. -/
class Referring (α : Type) where
  addReferences : α → ClassNames → ClassNames

export Referring (addReferences)

def references {α : Type} [Referring α] (item : α) : ClassNames := addReferences item ∅

instance {α : Type} [Referring α] : Referring (List α) where
  addReferences items names := items.foldl (fun names item => addReferences item names) names

instance {α : Type} [Referring α] : Referring (Option α) where
  addReferences item names := item.elim names (addReferences · names)

instance : Referring BaseType := ⟨fun _ names => names⟩
instance : Referring TypeVariable := ⟨fun _ names => names⟩
instance : Referring JavaType := ⟨JavaType.addReferences⟩
instance : Referring ReferenceType := ⟨ReferenceType.addReferences⟩
instance : Referring ClassType := ⟨ClassType.addReferences⟩
instance : Referring ArrayType := ⟨ArrayType.addReferences⟩
instance : Referring TypeArgument := ⟨TypeArgument.addReferences⟩

instance : Referring TypeParameter where
  addReferences parameter names :=
    addReferences parameter.interfaceBounds (addReferences parameter.classBound names)

instance : Referring ClassSignature where
  addReferences signature names :=
    addReferences signature.interfaces
      (addReferences signature.superclass (addReferences signature.typeParameters names))

instance : Referring ReturnType where
  addReferences
    | .value type, names => addReferences type names
    | .void, names => names

instance : Referring ThrownType where
  addReferences
    | .classType type, names => addReferences type names
    | .variable type, names => addReferences type names

instance : Referring MethodSignature where
  addReferences signature names :=
    addReferences signature.thrown
      (addReferences signature.result
        (addReferences signature.parameters (addReferences signature.typeParameters names)))

instance : Referring FieldSignature where
  addReferences signature names := addReferences signature.type names

instance : Referring Signature where
  addReferences
    | .ofClass signature, names => addReferences signature names
    | .ofMethod signature, names => addReferences signature names
    | .ofField signature, names => addReferences signature names

end GenericSignature
