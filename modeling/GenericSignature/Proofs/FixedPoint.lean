import GenericSignature.Proofs.Occurrence
import GenericSignature.Proofs.ResolvedText

/-! The types that resolution leaves as they are.

Only a variable that stands by itself or as the element of an array is replaced, and never by
another one: a chain of bounds goes on past them. But it may end at an array of a variable, and
there it is left to a second resolution to replace that one too.
-/

set_option autoImplicit false

namespace GenericSignature

def JavaType.isVariable : JavaType → Bool
  | .reference (.variable _) => true
  | _ => false

def JavaType.isVariableArray (type : JavaType) : Bool := type.isArray && type.innermost.isVariable

section Shapes

variable {type : JavaType}

theorem JavaType.isVariable_eq_true_iff :
    type.isVariable = true ↔ ∃ start, type = .ofVariable start := by
  unfold isVariable ofVariable
  split <;> simp_all

theorem JavaType.isVariable_eq_false_iff :
    type.isVariable = false ↔ ∀ start, type ≠ .ofVariable start := by
  rw [← Bool.not_eq_true, isVariable_eq_true_iff, not_exists]

theorem JavaType.isVariableArray_eq (bare : type.isVariable = false) :
    type.isVariableArray = type.innermost.isVariable := by
  unfold isVariableArray
  cases layered : type.isArray with
  | true => rw [Bool.true_and]
  | false => rw [innermost_of_not_isArray layered, bare, Bool.false_and]

theorem JavaType.innermost_of_layers_eq_zero (unlayered : type.layers = 0) :
    type.innermost = type := by
  apply innermost_of_not_isArray
  match type with
  | .base _ | .reference (.classType _) | .reference (.variable _) => rfl
  | .reference (.array array) =>
    rw [layers_array] at unlayered
    exact absurd unlayered (Nat.ne_of_gt array.dimensions_pos)

theorem JavaType.occursIn_innermost (type : JavaType) :
    Referrer.OccursIn ⟨.javaType, type.innermost⟩ ⟨.javaType, type⟩ := by
  unfold innermost
  fun_induction stripLayers 0 type with
  | case1 layers component ih =>
    have inArray : Referrer.OccursIn _ ⟨.arrayType, ⟨component⟩⟩ :=
      ih.tail (List.mem_singleton_self _)
    have inReference : Referrer.OccursIn _ ⟨.referenceType, .array ⟨component⟩⟩ :=
      inArray.tail (List.mem_singleton_self _)
    exact inReference.tail (List.mem_singleton_self _)
  | case2 => exact .refl
  | case3 => exact .refl
  | case4 => exact .refl

theorem JavaType.isVariable_innermost_of_free
    (free : ∀ start, ¬Referrer.OccursIn ⟨.typeVariable, start⟩ ⟨.javaType, type⟩) :
    type.innermost.isVariable = false := by
  refine isVariable_eq_false_iff.mpr fun start innermost => ?_
  have inReference : Referrer.OccursIn ⟨.typeVariable, start⟩ ⟨.referenceType, .variable start⟩ :=
    .single (List.mem_singleton_self _)
  have inElement : Referrer.OccursIn ⟨.typeVariable, start⟩ ⟨.javaType, .ofVariable start⟩ :=
    inReference.tail (List.mem_singleton_self _)
  have occurs := type.occursIn_innermost
  rw [innermost] at occurs
  exact free start (inElement.trans occurs)

end Shapes

/-! ## Replacements -/

section Replacements

variable {scope : Scope} {type result : JavaType} {start : TypeVariable} {bound : ReferenceType}

theorem Scope.Chain.not_isVariable (chain : Chain scope start bound) :
    (JavaType.reference bound).isVariable = false := by
  induction chain with
  | stop _ _ plain =>
    exact JavaType.isVariable_eq_false_iff.mpr fun next same =>
      plain next (JavaType.reference.inj same)
  | follow _ _ _ ih => exact ih
  | leave _ _ ih => exact ih

theorem Scope.replacement_of_not_isVariable (plain : type.isVariable = false) :
    scope.replacement type = type := by
  match type, plain with
  | .base _, _ => rfl
  | .reference (.classType _), _ => rfl
  | .reference (.array _), _ => rfl

theorem Scope.replacement_not_isVariable (scope : Scope) (type : JavaType) :
    (scope.replacement type).isVariable = false := by
  unfold replacement
  split
  · next start =>
    cases resolved : (scope.resolveVariable start).value with
    | none => rfl
    | some bound => exact ((scope.resolveVariable_value_iff start).mp resolved).not_isVariable
  · next plain => exact JavaType.isVariable_eq_false_iff.mpr plain

/-- A replacement exposes a variable again only if the chain ends at an array of one. -/
theorem Scope.exposes_replacement_iff (plain : type.isArray = false) :
    (scope.replacement type).innermost.isVariable = true ↔
      ∃ start bound, type = .ofVariable start ∧ scope.Chain start bound ∧
        (JavaType.reference bound).isVariableArray = true := by
  constructor
  · intro exposes
    cases bare : type.isVariable with
    | false =>
      rw [replacement_of_not_isVariable bare, JavaType.innermost_of_not_isArray plain, bare]
        at exposes
      cases exposes
    | true =>
      obtain ⟨start, rfl⟩ := JavaType.isVariable_eq_true_iff.mp bare
      rw [JavaType.ofVariable, replacement] at exposes
      cases resolved : (scope.resolveVariable start).value with
      | none =>
        rw [resolved] at exposes
        cases exposes
      | some bound =>
        have chain := (scope.resolveVariable_value_iff start).mp resolved
        rw [resolved, Option.getD_some, ← JavaType.isVariableArray_eq chain.not_isVariable]
          at exposes
        exact ⟨start, bound, rfl, chain, exposes⟩
  · intro ⟨start, bound, same, chain, exposes⟩
    have resolved := (scope.resolveVariable_value_iff start).mpr chain
    rwa [same, JavaType.ofVariable, replacement, resolved, Option.getD_some,
      ← JavaType.isVariableArray_eq chain.not_isVariable]

/-! ## Resolved types -/

theorem Scope.resolveArray_of_not_isVariable {array : ArrayType}
    (plain : array.element.isVariable = false) : (scope.resolveArray array).value = array := by
  rw [resolveArray_value]
  simp only [replacement_of_not_isVariable plain, ArrayType.withDimensions_element]

theorem Scope.resolveType_of_not_exposed (hidden : type.innermost.isVariable = false) :
    (scope.resolveType type).value = some type := by
  match type with
  | .base _ => rfl
  | .reference (.classType _) => rfl
  | .reference (.variable _) => cases hidden
  | .reference (.array array) =>
    rw [JavaType.innermost_array] at hidden
    have same : (scope.resolveArray array).value = array :=
      resolveArray_of_not_isVariable hidden
    exact congrArg (fun array => some (JavaType.ofArray array)) same

theorem Scope.shape_of_resolveType (resolved : (scope.resolveType type).value = some result) :
    result.layers = type.layers + (scope.replacement type.innermost).layers ∧
      result.innermost = (scope.replacement type.innermost).innermost := by
  match type with
  | .base _ =>
    cases resolved
    exact ⟨rfl, rfl⟩
  | .reference (.classType _) =>
    cases resolved
    exact ⟨rfl, rfl⟩
  | .reference (.array array) =>
    cases resolved
    simp only [JavaType.layers_array, JavaType.innermost_array]
    exact ⟨scope.dimensions_resolveArray array, scope.element_resolveArray array⟩
  | .reference (.variable start) =>
    obtain ⟨bound, found, rfl⟩ := Option.map_eq_some_iff.mp resolved
    have found : (scope.resolveVariable start).value = some bound := found
    have replaced : scope.replacement (.reference (.variable start)) = .reference bound := by
      rw [replacement, found, Option.getD_some]
    have bare : (JavaType.reference (.variable start)).isArray = false := rfl
    rw [JavaType.innermost_of_not_isArray bare, JavaType.layers_of_not_isArray bare, replaced]
    exact ⟨(Nat.zero_add _).symm, rfl⟩

theorem Scope.result_not_isVariable (resolved : (scope.resolveType type).value = some result) :
    result.isVariable = false := by
  obtain ⟨layers, innermost⟩ := shape_of_resolveType resolved
  cases layered : result.isArray with
  | true =>
    match result, layered with
    | .reference (.array _), _ => rfl
  | false =>
    -- Without layers of its own, the result is the replacement itself.
    rw [JavaType.layers_of_not_isArray layered] at layers
    have unlayered : (scope.replacement type.innermost).layers = 0 := by omega
    rw [JavaType.innermost_of_not_isArray layered,
      JavaType.innermost_of_layers_eq_zero unlayered] at innermost
    rw [innermost]
    exact scope.replacement_not_isVariable type.innermost

theorem Scope.resolveType_eq_self_iff :
    (scope.resolveType type).value = some type ↔ type.innermost.isVariable = false := by
  constructor
  · intro resolved
    obtain ⟨layers, innermost⟩ := shape_of_resolveType resolved
    -- With as many layers as before, the variable would have to come back.
    have unlayered : (scope.replacement type.innermost).layers = 0 := by omega
    rw [innermost, JavaType.innermost_of_layers_eq_zero unlayered]
    exact scope.replacement_not_isVariable type.innermost
  · exact resolveType_of_not_exposed

end Replacements

/-- How a result of resolution fares when it is resolved again. -/
structure Scope.RepeatsOn (scope : Scope) (type result : JavaType) : Prop where
  bare : ∀ start, result ≠ .ofVariable start
  fixed_iff : (scope.resolveType result).value = some result ↔ ¬result.isVariableArray
  exception_iff : result.isVariableArray ↔
    ∃ start bound, type.innermost = .ofVariable start ∧ scope.Chain start bound ∧
      (JavaType.reference bound).isVariableArray

theorem Scope.repeatsOn_of_resolveType {scope : Scope} {type result : JavaType}
    (resolved : (scope.resolveType type).value = some result) :
    scope.RepeatsOn type result where
  bare := JavaType.isVariable_eq_false_iff.mp (result_not_isVariable resolved)
  fixed_iff := by
    rw [resolveType_eq_self_iff, JavaType.isVariableArray_eq (result_not_isVariable resolved),
      Bool.not_eq_true]
  exception_iff := by
    rw [JavaType.isVariableArray_eq (result_not_isVariable resolved),
      (shape_of_resolveType resolved).2]
    exact exposes_replacement_iff type.innermost_not_isArray

/-- A variable that is bounded by arrays of itself gains a layer each time. -/
example :
    let scope : Scope := [[⟨⟨"T"⟩, some (.array ⟨.ofVariable ⟨⟨"T"⟩⟩⟩), []⟩]]
    let once := JavaType.ofArray ⟨.ofVariable ⟨⟨"T"⟩⟩⟩
    (scope.resolveType (.ofVariable ⟨⟨"T"⟩⟩)).value = some once ∧
      (scope.resolveType once).value = some (.ofArray ⟨once⟩) := by
  decide +kernel

/-- The types that resolution leaves as they are, and the results that it would not. -/
structure Scope.FixedPoints (scope : Scope) : Prop where
  result : ∀ type result, (scope.resolveType type).value = some result →
    scope.RepeatsOn type result
  base : ∀ type, (scope.resolveType (.base type)).value = some (.base type)
  classType : ∀ type, (scope.resolveType (.ofClass type)).value = some (.ofClass type)
  free : ∀ type : JavaType,
    (∀ start, ¬Referrer.OccursIn ⟨.typeVariable, start⟩ ⟨.javaType, type⟩) →
      (scope.resolveType type).value = some type

theorem Scope.fixedPoints (scope : Scope) : scope.FixedPoints where
  result _ _ := repeatsOn_of_resolveType
  base _ := rfl
  classType _ := rfl
  free _ absent := resolveType_of_not_exposed (JavaType.isVariable_innermost_of_free absent)

/-- Classes, methods and fields resolve in different scopes, with the same fixed points. -/
theorem Scope.resolution_fixed_points (declaring : ClassSignature) (method : MethodSignature)
    (field : FieldSignature) :
    declaring.scope.FixedPoints ∧ (MethodMember.mk declaring method).scope.FixedPoints ∧
      (FieldMember.mk declaring field).scope.FixedPoints :=
  ⟨fixedPoints _, fixedPoints _, fixedPoints _⟩

end GenericSignature
