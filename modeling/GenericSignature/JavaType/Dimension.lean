import GenericSignature.JavaType.Basic

/-! Array types as an element and a number of dimensions.

Layers are added and stripped one at a time, so the two views of an array are inverse to each
other however deep it is.
-/

set_option autoImplicit false

namespace GenericSignature

def ArrayType.maxDimensions : Nat := 255

def ArrayType.addLayers : Nat → ArrayType → ArrayType
  | 0, array => array
  | layers + 1, array => addLayers layers ⟨.ofArray array⟩

/-- An array of the given number of layers around a component, which may itself be an array. -/
def ArrayType.withDimensions (component : JavaType) (dimensions : Nat) (_ : 0 < dimensions) :
    ArrayType :=
  addLayers (dimensions - 1) ⟨component⟩

structure ArrayType.NoDimension where
  deriving DecidableEq, Repr

def ArrayType.NoDimension.message (_ : NoDimension) : String :=
  "an array has at least one dimension"

def ArrayType.ofDimensions (component : JavaType) (dimensions : Nat) :
    Except NoDimension ArrayType :=
  if positive : 0 < dimensions then .ok (withDimensions component dimensions positive)
  else .error ⟨⟩

/-- Removes every array layer, adding their number to `layers`. -/
def JavaType.stripLayers (layers : Nat) : JavaType → JavaType × Nat
  | .reference (.array ⟨component⟩) => stripLayers (layers + 1) component
  | .reference (.classType type) => (.ofClass type, layers)
  | .reference (.variable type) => (.ofVariable type, layers)
  | .base type => (.base type, layers)

/-- The innermost component, which is no array, and the number of layers around it. -/
def ArrayType.innermost (array : ArrayType) : JavaType × Nat :=
  array.component.stripLayers 1

def ArrayType.element (array : ArrayType) : JavaType := array.innermost.1

def ArrayType.dimensions (array : ArrayType) : Nat := array.innermost.2

theorem JavaType.le_stripLayers (layers : Nat) (type : JavaType) :
    layers ≤ (type.stripLayers layers).2 := by
  fun_induction stripLayers layers type with
  | case1 layers component ih => omega
  | case2 | case3 | case4 => exact Nat.le_refl _

theorem ArrayType.dimensions_pos (array : ArrayType) : 0 < array.dimensions :=
  JavaType.le_stripLayers 1 array.component

end GenericSignature
