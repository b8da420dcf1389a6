import GenericSignature.Proofs.ExposedVariable
import GenericSignature.Proofs.FixedPoint

/-! Arrays are resolved as if one layer at a time.

Resolution takes all layers of an array off at once and puts them back around the new element,
which may bring layers of its own. It comes to the same to resolve the component, to take `Object`
if that has no bound, and to put the one layer back.
-/

set_option autoImplicit false

namespace GenericSignature

def Scope.resolveLayerwise (scope : Scope) : JavaType → Logged (Option JavaType)
  | .base type => pure (some (.base type))
  | .reference (.classType type) => pure (some (.ofClass type))
  | .reference (.variable start) => return (← scope.resolveVariable start).map .reference
  | .reference (.array ⟨component⟩) =>
    return some (.ofArray ⟨(← scope.resolveLayerwise component).getD (.ofClass .object)⟩)

section Layers

variable {scope : Scope} {array : ArrayType} {start : TypeVariable}

theorem Scope.resolveArray_value_layer (scope : Scope) (component : JavaType) :
    (scope.resolveArray ⟨component⟩).value =
      ⟨(scope.resolveType component).value.getD (.ofClass .object)⟩ := by
  rw [resolveArray_value]
  match component with
  | .base _ => rfl
  | .reference (.classType _) => rfl
  | .reference (.variable start) =>
    have resolved : (scope.resolveType (.reference (.variable start))).value =
        (scope.resolveVariable start).value.map .reference := rfl
    have replaced : scope.replacement (ArrayType.element ⟨.reference (.variable start)⟩) =
        .reference ((scope.resolveVariable start).value.getD (.classType .object)) := rfl
    rw [resolved, replaced]
    cases (scope.resolveVariable start).value with
    | none => rfl
    | some bound => rfl
  | .reference (.array inner) =>
    -- The layer goes around what the inner array is resolved to, with the same new element.
    simp only [ArrayType.element_mk, ArrayType.dimensions_mk, JavaType.innermost_array,
      JavaType.layers_array]
    rw [ArrayType.withDimensions_succ _ _ inner.dimensions_pos, ← resolveArray_value]
    rfl

theorem Scope.resolveArray_layer (scope : Scope) (component : JavaType) :
    scope.resolveArray ⟨component⟩ =
      do return ⟨(← scope.resolveType component).getD (.ofClass .object)⟩ := by
  apply Logged.ext
  · exact scope.resolveArray_value_layer component
  · simp only [Logged.log_bind, Logged.log_pure, List.append_nil, log_resolveArray,
      log_resolveType, JavaType.exposed?, JavaType.ofArray, JavaType.innermost_array,
      ArrayType.element_mk]

theorem Scope.resolveType_eq_resolveLayerwise (scope : Scope) (type : JavaType) :
    scope.resolveType type = scope.resolveLayerwise type := by
  fun_induction scope.resolveLayerwise type with
  | case1 | case2 | case3 => rfl
  | case4 component ih =>
    rw [← ih, resolveType, resolveReference, resolveArray_layer]
    apply Logged.ext
    · rfl
    · simp

/-- The layers of the bound join those of the array. -/
theorem Scope.shape_of_resolveArray (exposes : array.element = .ofVariable start) :
    let bound := JavaType.reference ((scope.resolveVariable start).value.getD (.classType .object))
    (scope.resolveArray array).value.dimensions = array.dimensions + bound.layers ∧
      (scope.resolveArray array).value.element = bound.innermost := by
  rw [dimensions_resolveArray, element_resolveArray, exposes, replacement_ofVariable]
  exact ⟨rfl, rfl⟩

theorem Scope.resolveArray_of_not_exposed (hidden : ∀ start, array.element ≠ .ofVariable start) :
    (scope.resolveArray array).value = array :=
  resolveArray_of_not_isVariable (JavaType.isVariable_eq_false_iff.mpr hidden)

theorem Scope.ofDimensions_resolveArray (scope : Scope) (array : ArrayType) :
    ArrayType.ofDimensions (scope.replacement array.element) array.dimensions =
      .ok (scope.resolveArray array).value := by
  rw [ArrayType.ofDimensions, dif_pos array.dimensions_pos, resolveArray_value]

end Layers

/-- What resolution in the scope does to arrays of any depth. -/
structure Scope.ResolvesLayers (scope : Scope) : Prop where
  layer : ∀ component, scope.resolveArray ⟨component⟩ =
    do return ⟨(← scope.resolveType component).getD (.ofClass .object)⟩
  layerwise : ∀ type, scope.resolveType type = scope.resolveLayerwise type
  exposed : ∀ array start, array.element = .ofVariable start →
    let bound := JavaType.reference ((scope.resolveVariable start).value.getD (.classType .object))
    (scope.resolveArray array).value.dimensions = array.dimensions + bound.layers ∧
      (scope.resolveArray array).value.element = bound.innermost
  hidden : ∀ array, (∀ start, array.element ≠ .ofVariable start) →
    (scope.resolveArray array).value = array
  positive : ∀ array, ArrayType.ofDimensions (scope.replacement array.element) array.dimensions =
    .ok (scope.resolveArray array).value

theorem Scope.resolvesLayers (scope : Scope) : scope.ResolvesLayers where
  layer := scope.resolveArray_layer
  layerwise := scope.resolveType_eq_resolveLayerwise
  exposed _ _ := shape_of_resolveArray
  hidden _ := resolveArray_of_not_exposed
  positive := scope.ofDimensions_resolveArray

theorem Scope.arrays_resolved_by_layers (declaring : ClassSignature) (method : MethodSignature)
    (field : FieldSignature) :
    declaring.scope.ResolvesLayers ∧ (MethodMember.mk declaring method).scope.ResolvesLayers ∧
      (FieldMember.mk declaring field).scope.ResolvesLayers :=
  ⟨resolvesLayers _, resolvesLayers _, resolvesLayers _⟩

end GenericSignature
