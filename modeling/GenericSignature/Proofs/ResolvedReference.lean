import GenericSignature.Proofs.ArrayView
import GenericSignature.Proofs.ExposedVariable
import GenericSignature.Proofs.FixedPoint

/-! The classes of resolved types.

Resolution loses no class that a type refers to, and brings in only classes of the bounds that are
in view. The one exception is `Object`, where it becomes the element of an array for want of a
bound.
-/

set_option autoImplicit false

namespace GenericSignature

/-- What becomes of the class references of a type that is resolved. -/
structure Scope.Accounts (scope : Scope) (type result : JavaType) : Prop where
  kept : ∀ name ∈ references type, name ∈ references result
  explained : ∀ name ∈ references result,
    name ∈ references type ∨ (∃ declared ∈ scope, name ∈ references declared) ∨
      name = "java/lang/Object" ∧ ∃ array start, type = .ofArray array ∧
        array.element = .ofVariable start ∧ (scope.resolveVariable start).value = none

section References

variable {scope : Scope} {type result : JavaType} {start : TypeVariable} {bound : ReferenceType}
  {declared : List TypeParameter} {name : String}

/-! ## Bounds -/

theorem TypeParameter.occursIn_of_bound? {parameter : TypeParameter}
    (isDeclared : parameter ∈ declared) (stands : parameter.bound? = some bound) :
    Referrer.OccursIn ⟨.referenceType, bound⟩ ⟨.list .typeParameter, declared⟩ := by
  have inList : (⟨.typeParameter, parameter⟩ : Referrer) ∈
      Referrer.parts ⟨.list .typeParameter, declared⟩ := List.mem_map_of_mem isDeclared
  apply Relation.ReflTransGen.tail _ inList
  obtain ⟨name, classBound?, interfaceBounds⟩ := parameter
  -- The bound that stands for the parameter is written in one of two places.
  rcases Option.or_eq_some_iff.mp stands with rfl | ⟨-, first⟩
  · have inOption : Referrer.OccursIn ⟨.referenceType, bound⟩
        ⟨.option .referenceType, some bound⟩ := .single (List.mem_singleton_self _)
    exact inOption.tail List.mem_cons_self
  · have inInterfaces : Referrer.OccursIn ⟨.referenceType, bound⟩
        ⟨.list .referenceType, interfaceBounds⟩ :=
      .single (List.mem_map_of_mem (List.mem_of_mem_head? first))
    exact inInterfaces.tail (List.mem_cons_of_mem _ (List.mem_singleton_self _))

theorem Scope.Chain.mem_references (chain : Chain scope start bound)
    (member : name ∈ references bound) : ∃ declared ∈ scope, name ∈ references declared := by
  obtain ⟨declared, level, parameter, isDeclared, stands⟩ := chain.exists_bound
  have occurs := TypeParameter.occursIn_of_bound? isDeclared stands
  exact ⟨declared, level, occurs.mem_references member⟩

/-! ## Types -/

theorem Scope.references_resolveType
    (resolved : (scope.resolveType type).value = some result) :
    references result = references (scope.replacement type.innermost) := by
  rw [← result.references_innermost, (shape_of_resolveType resolved).2,
    JavaType.references_innermost]

theorem Scope.references_replacement_of_mem {element : JavaType}
    (member : name ∈ references element) : name ∈ references (scope.replacement element) := by
  cases bare : element.isVariable with
  | false => rwa [replacement_of_not_isVariable bare]
  | true =>
    obtain ⟨start, rfl⟩ := JavaType.isVariable_eq_true_iff.mp bare
    -- A variable by itself has no class to lose.
    exact absurd member Std.ExtTreeSet.not_mem_empty

theorem Scope.mem_references_replacement {element : JavaType}
    (member : name ∈ references (scope.replacement element)) :
    name ∈ references element ∨ (∃ declared ∈ scope, name ∈ references declared) ∨
      name = "java/lang/Object" ∧ ∃ start, element = .ofVariable start ∧
        (scope.resolveVariable start).value = none := by
  cases bare : element.isVariable with
  | false =>
    rw [replacement_of_not_isVariable bare] at member
    exact .inl member
  | true =>
    obtain ⟨start, rfl⟩ := JavaType.isVariable_eq_true_iff.mp bare
    rw [replacement_ofVariable] at member
    cases found : (scope.resolveVariable start).value with
    | some bound =>
      rw [found] at member
      have chain := (scope.resolveVariable_value_iff start).mp found
      exact .inr (.inl (chain.mem_references member))
    | none =>
      rw [found] at member
      have isObject : name = "java/lang/Object" := ClassType.mem_references_named.mp member
      exact .inr (.inr ⟨isObject, start, rfl, found⟩)

/-- A variable that stands by itself is not resolved without a bound, so `Object` is only ever the
element of an array. -/
theorem Scope.exists_array_of_unbounded (resolved : (scope.resolveType type).value = some result)
    (element : type.innermost = .ofVariable start)
    (unbounded : (scope.resolveVariable start).value = none) :
    ∃ array, type = .ofArray array ∧ array.element = .ofVariable start := by
  match type with
  | .base _ => cases element
  | .reference (.classType _) => cases element
  | .reference (.array array) =>
    rw [JavaType.innermost_array] at element
    exact ⟨array, rfl, element⟩
  | .reference (.variable other) =>
    -- By itself, the variable would have been resolved to a bound.
    obtain ⟨bound, found, -⟩ := Option.map_eq_some_iff.mp resolved
    cases element
    cases unbounded.symm.trans found

theorem Scope.accounts (resolved : (scope.resolveType type).value = some result) :
    scope.Accounts type result where
  kept name member := by
    rw [references_resolveType resolved]
    rw [← type.references_innermost] at member
    exact references_replacement_of_mem member
  explained name member := by
    rw [references_resolveType resolved] at member
    rcases mem_references_replacement member with
      written | inBounds | ⟨isObject, start, element, unbounded⟩
    · rw [type.references_innermost] at written
      exact .inl written
    · exact .inr (.inl inBounds)
    · obtain ⟨array, layered, element⟩ := exists_array_of_unbounded resolved element unbounded
      exact .inr (.inr ⟨isObject, array, start, layered, element, unbounded⟩)

/-- An array of a variable without a bound refers to a class that nothing in view does. -/
example :
    let scope : Scope := [[⟨⟨"T"⟩, none, []⟩]]
    (scope.resolveType (.ofArray ⟨.ofVariable ⟨⟨"T"⟩⟩⟩)).value =
      some (.ofArray ⟨.ofClass .object⟩) := by
  decide +kernel

end References

/-! ## Members -/

/-- The class is one of the item, or of the declaring class, or else it is `Object`. -/
def ClassSignature.Covers {α : Type} [Referring α] (declaring : ClassSignature) (item : α)
    (name : String) : Prop :=
  name ∈ references item ∨ name ∈ references declaring ∨ name = "java/lang/Object"

/-- The types in the signature of the method, resolved, refer to no class beyond its own, those of
its class and `Object`. -/
structure MethodMember.StaysCovered (method : MethodMember) : Prop where
  parameter : ∀ index resolved result, method.resolveParameter index = .ok resolved →
    resolved.value = some result →
      ∀ name ∈ references result, method.declaringClass.Covers method.signature name
  result : ∀ result, method.resolveResult.value = some result →
    ∀ name ∈ references result, method.declaringClass.Covers method.signature name
  thrown : ∀ index resolved result, method.resolveThrown index = .ok resolved →
    resolved.value = some result →
      ∀ name ∈ references result, method.declaringClass.Covers method.signature name

section Members

variable {declaring : ClassSignature} {method : MethodMember} {type result : JavaType}
  {name : String}

theorem MethodSignature.parts_eq (signature : MethodSignature) :
    Referrer.parts ⟨.methodSignature, signature⟩ =
      [⟨.list .typeParameter, signature.typeParameters⟩, ⟨.list .javaType, signature.parameters⟩,
        ⟨.returnType, signature.result⟩, ⟨.list .thrownType, signature.thrown⟩] := rfl

theorem ClassSignature.mem_references_of_scope
    (inBounds : ∃ declared ∈ declaring.scope, name ∈ references declared) :
    name ∈ references declaring := by
  obtain ⟨declared, level, member⟩ := inBounds
  cases List.mem_singleton.mp level
  have isPart : Referrer.OccursIn ⟨.list .typeParameter, declaring.typeParameters⟩
      ⟨.classSignature, declaring⟩ := .single List.mem_cons_self
  exact isPart.mem_references member

theorem ClassSignature.covers_of_accounts (accounts : declaring.scope.Accounts type result)
    (member : name ∈ references result) : declaring.Covers type name := by
  rcases accounts.explained name member with written | inBounds | ⟨isObject, -⟩
  · exact .inl written
  · exact .inr (.inl (mem_references_of_scope inBounds))
  · exact .inr (.inr isObject)

theorem MethodMember.covers_of_scope
    (inBounds : ∃ declared ∈ method.scope, name ∈ references declared) :
    method.declaringClass.Covers method.signature name := by
  obtain ⟨declared, level, member⟩ := inBounds
  rcases List.mem_cons.mp level with rfl | level
  · have isPart : Referrer.OccursIn ⟨.list .typeParameter, method.signature.typeParameters⟩
        ⟨.methodSignature, method.signature⟩ := .single (by simp [MethodSignature.parts_eq])
    exact .inl (isPart.mem_references member)
  · exact .inr (.inl (ClassSignature.mem_references_of_scope ⟨declared, level, member⟩))

theorem MethodMember.covers_of_accounts (accounts : method.scope.Accounts type result)
    (written : ∀ name ∈ references type, name ∈ references method.signature)
    (member : name ∈ references result) :
    method.declaringClass.Covers method.signature name := by
  rcases accounts.explained name member with own | inBounds | ⟨isObject, -⟩
  · exact .inl (written name own)
  · exact covers_of_scope inBounds
  · exact .inr (.inr isObject)

theorem MethodMember.mem_references_of_parameter {index : Nat}
    (written : method.signature.parameters[index]? = some type)
    (member : name ∈ references type) : name ∈ references method.signature := by
  have inList : Referrer.OccursIn ⟨.javaType, type⟩
      ⟨.list .javaType, method.signature.parameters⟩ :=
    .single (List.mem_map_of_mem (List.mem_of_getElem? written))
  have inSignature : Referrer.OccursIn ⟨.javaType, type⟩ ⟨.methodSignature, method.signature⟩ :=
    inList.tail (by simp [MethodSignature.parts_eq])
  exact inSignature.mem_references member

theorem MethodMember.mem_references_of_result (written : method.signature.result = .value type)
    (member : name ∈ references type) : name ∈ references method.signature := by
  have isPart : Referrer.OccursIn ⟨.returnType, method.signature.result⟩
      ⟨.methodSignature, method.signature⟩ :=
    .single (by simp [MethodSignature.parts_eq])
  rw [written] at isPart
  exact isPart.mem_references member

theorem ThrownType.references_toReferenceType : (type : ThrownType) →
    references type.toReferenceType = references type
  | .classType _ => rfl
  | .variable _ => rfl

theorem MethodMember.mem_references_of_thrown {index : Nat} {type : ThrownType}
    (written : method.signature.thrown[index]? = some type)
    (member : name ∈ references type.toReferenceType) : name ∈ references method.signature := by
  rw [type.references_toReferenceType] at member
  have inList : Referrer.OccursIn ⟨.thrownType, type⟩
      ⟨.list .thrownType, method.signature.thrown⟩ :=
    .single (List.mem_map_of_mem (List.mem_of_getElem? written))
  have inSignature : Referrer.OccursIn ⟨.thrownType, type⟩
      ⟨.methodSignature, method.signature⟩ :=
    inList.tail (by simp [MethodSignature.parts_eq])
  exact inSignature.mem_references member

theorem Scope.accounts_reference {scope : Scope} {type result : ReferenceType}
    (resolved : (scope.resolveReference type).value = some result) :
    scope.Accounts (.reference type) (.reference result) :=
  accounts (congrArg (Option.map JavaType.reference) resolved)

theorem MethodMember.covers_resolveResult {result : ReturnType}
    (resolved : method.resolveResult.value = some result) (member : name ∈ references result) :
    method.declaringClass.Covers method.signature name := by
  rw [resolveResult] at resolved
  cases written : method.signature.result with
  | value type =>
    rw [written] at resolved
    obtain ⟨found, present, rfl⟩ := Option.map_eq_some_iff.mp resolved
    exact covers_of_accounts (Scope.accounts present)
      (fun _ => mem_references_of_result written) member
  | void =>
    rw [written] at resolved
    cases resolved
    exact absurd member Std.ExtTreeSet.not_mem_empty

theorem MethodMember.staysCovered (method : MethodMember) : method.StaysCovered where
  parameter index resolved result found present name member := by
    obtain ⟨type, written, rfl⟩ := resolveParameter_eq_ok_iff.mp found
    exact covers_of_accounts (Scope.accounts present)
      (fun _ => mem_references_of_parameter written) member
  result _ present _ := covers_resolveResult present
  thrown index resolved result found present name member := by
    obtain ⟨type, written, rfl⟩ := resolveThrown_eq_ok_iff.mp found
    exact covers_of_accounts (Scope.accounts_reference present)
      (fun _ => mem_references_of_thrown written) member

end Members

/-- For types of any origin, and for those that the signatures of members are made of. -/
theorem Scope.resolution_accounts_for_classes (declaring : ClassSignature)
    (method : MethodSignature) (field : FieldSignature) :
    (∀ type result,
      ((MethodMember.mk declaring method).scope.resolveType type).value = some result →
        (MethodMember.mk declaring method).scope.Accounts type result) ∧
    (MethodMember.mk declaring method).StaysCovered ∧
    (∀ type result, (declaring.scope.resolveType type).value = some result →
      declaring.scope.Accounts type result ∧
        ∀ name ∈ references result, declaring.Covers type name) ∧
    (∀ type result,
      ((FieldMember.mk declaring field).scope.resolveType type).value = some result →
        (FieldMember.mk declaring field).scope.Accounts type result ∧
          ∀ name ∈ references result, declaring.Covers type name) ∧
    ∀ result, (FieldMember.mk declaring field).resolve.value = some result →
      ∀ name ∈ references result, declaring.Covers field name := by
  have ofClass : ∀ type result, (declaring.scope.resolveType type).value = some result →
      declaring.scope.Accounts type result ∧
        ∀ name ∈ references result, declaring.Covers type name :=
    fun type result resolved =>
      ⟨accounts resolved, fun _ => ClassSignature.covers_of_accounts (accounts resolved)⟩
  refine ⟨fun type result => accounts, MethodMember.staysCovered _, ofClass, ofClass,
    fun result resolved name member => ?_⟩
  exact ClassSignature.covers_of_accounts (accounts_reference resolved) member

end GenericSignature
