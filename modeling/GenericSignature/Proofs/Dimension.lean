import GenericSignature.JavaType.Dimension
import GenericSignature.JavaType.Printer

/-! Arrays built from an element and taken apart again. -/

set_option autoImplicit false

namespace GenericSignature

def JavaType.isArray : JavaType → Bool
  | .reference (.array _) => true
  | _ => false

/-- The number of array layers around the innermost component; none for other types. -/
def JavaType.layers (type : JavaType) : Nat := (type.stripLayers 0).2

def JavaType.innermost (type : JavaType) : JavaType := (type.stripLayers 0).1

theorem JavaType.stripLayers_add (layers extra : Nat) (type : JavaType) :
    type.stripLayers (layers + extra) =
      ((type.stripLayers layers).1, (type.stripLayers layers).2 + extra) := by
  fun_induction stripLayers layers type with
  | case1 layers component ih =>
    rw [stripLayers, Nat.add_right_comm]
    exact ih
  | case2 => rfl
  | case3 => rfl
  | case4 => rfl

@[simp] theorem ArrayType.element_mk (component : JavaType) :
    element ⟨component⟩ = component.innermost := by
  change (component.stripLayers (0 + 1)).1 = _
  rw [JavaType.stripLayers_add]
  rfl

@[simp] theorem ArrayType.dimensions_mk (component : JavaType) :
    dimensions ⟨component⟩ = component.layers + 1 := by
  change (component.stripLayers (0 + 1)).2 = _
  rw [JavaType.stripLayers_add]
  rfl

@[simp] theorem JavaType.innermost_array (array : ArrayType) :
    innermost (.reference (.array array)) = array.element := by
  cases array
  rfl

@[simp] theorem JavaType.layers_array (array : ArrayType) :
    layers (.reference (.array array)) = array.dimensions := by
  cases array
  rfl

theorem JavaType.stripLayers_of_not_isArray {type : JavaType} (plain : type.isArray = false)
    (layers : Nat) : type.stripLayers layers = (type, layers) := by
  match type, plain with
  | .base _, _ => rfl
  | .reference (.classType _), _ => rfl
  | .reference (.variable _), _ => rfl

theorem JavaType.innermost_of_not_isArray {type : JavaType} (plain : type.isArray = false) :
    type.innermost = type := by
  rw [innermost, stripLayers_of_not_isArray plain]

theorem JavaType.layers_of_not_isArray {type : JavaType} (plain : type.isArray = false) :
    type.layers = 0 := by
  rw [layers, stripLayers_of_not_isArray plain]

theorem JavaType.innermost_not_isArray (type : JavaType) : type.innermost.isArray = false := by
  unfold innermost
  fun_induction stripLayers 0 type with
  | case1 layers component ih => exact ih
  | case2 => rfl
  | case3 => rfl
  | case4 => rfl

/-- Layers are added on the inside; this is the same on the outside. -/
theorem ArrayType.addLayers_succ (layers : Nat) (array : ArrayType) :
    addLayers (layers + 1) array = ⟨.ofArray (addLayers layers array)⟩ := by
  induction layers generalizing array with
  | zero => rfl
  | succ layers ih =>
    rw [addLayers, ih]
    rfl

theorem ArrayType.withDimensions_succ (component : JavaType) (dimensions : Nat)
    (positive : 0 < dimensions) :
    withDimensions component (dimensions + 1) (Nat.succ_pos dimensions) =
      ⟨.ofArray (withDimensions component dimensions positive)⟩ := by
  obtain ⟨layers, rfl⟩ := Nat.exists_eq_succ_of_ne_zero (Nat.ne_of_gt positive)
  exact addLayers_succ layers ⟨component⟩

theorem ArrayType.element_addLayers (layers : Nat) (array : ArrayType) :
    (addLayers layers array).element = array.element := by
  induction layers with
  | zero => rfl
  | succ layers ih =>
    rw [addLayers_succ, element_mk, JavaType.ofArray, JavaType.innermost_array, ih]

theorem ArrayType.dimensions_addLayers (layers : Nat) (array : ArrayType) :
    (addLayers layers array).dimensions = layers + array.dimensions := by
  induction layers with
  | zero => rw [addLayers, Nat.zero_add]
  | succ layers ih =>
    rw [addLayers_succ, dimensions_mk, JavaType.ofArray, JavaType.layers_array, ih]
    omega

/-- Stripping a layer and counting it leaves the array that the two describe as it was. -/
theorem ArrayType.addLayers_stripLayers (layers : Nat) (type : JavaType) :
    addLayers (type.stripLayers layers).2 ⟨(type.stripLayers layers).1⟩ =
      addLayers layers ⟨type⟩ := by
  fun_induction JavaType.stripLayers layers type with
  | case1 layers component ih => exact ih
  | case2 => rfl
  | case3 => rfl
  | case4 => rfl

section Dimensions

variable {component : JavaType} {dimensions : Nat} {positive : 0 < dimensions}

theorem ArrayType.withDimensions_element (array : ArrayType) :
    withDimensions array.element array.dimensions array.dimensions_pos = array := by
  obtain ⟨component⟩ := array
  have rebuilt := addLayers_stripLayers 0 component
  simp only [withDimensions, element_mk, dimensions_mk, Nat.add_sub_cancel]
  exact rebuilt

@[simp] theorem ArrayType.element_withDimensions :
    (withDimensions component dimensions positive).element = component.innermost := by
  rw [withDimensions, element_addLayers, element_mk]

@[simp] theorem ArrayType.dimensions_withDimensions :
    (withDimensions component dimensions positive).dimensions = dimensions + component.layers := by
  rw [withDimensions, dimensions_addLayers, dimensions_mk]
  omega

@[simp] theorem ArrayType.chars_withDimensions :
    (withDimensions component dimensions positive).chars =
      List.replicate dimensions '[' ++ component.chars := by
  rw [chars_eq_strippedChars, strippedChars, element_withDimensions, dimensions_withDimensions,
    ← List.replicate_append_replicate, List.append_assoc]
  exact congrArg (List.replicate dimensions '[' ++ ·) (component.chars_stripLayers 0)

end Dimensions

theorem ArrayType.element_not_isArray (array : ArrayType) : array.element.isArray = false := by
  obtain ⟨component⟩ := array
  rw [element_mk]
  exact component.innermost_not_isArray

end GenericSignature
