import GenericSignature.Reference
import Mathlib.Logic.Relation

/-! The classes that a node refers to are those of the class types that occur in it.

Occurrence knows nothing of the walk that collects the names: it is the closure of the relation
between a node and its immediate parts.
-/

set_option autoImplicit false

namespace GenericSignature

/-- The sorts of nodes that refer to classes, with lists and options of them. -/
inductive ReferrerKind where
  | baseType
  | javaType
  | referenceType
  | classType
  | arrayType
  | typeVariable
  | typeArgument
  | typeParameter
  | classSignature
  | methodSignature
  | fieldSignature
  | returnType
  | thrownType
  | signature
  | list (kind : ReferrerKind)
  | option (kind : ReferrerKind)
  deriving DecidableEq, Repr

abbrev ReferrerKind.Item : ReferrerKind → Type
  | .baseType => BaseType
  | .javaType => JavaType
  | .referenceType => ReferenceType
  | .classType => ClassType
  | .arrayType => ArrayType
  | .typeVariable => TypeVariable
  | .typeArgument => TypeArgument
  | .typeParameter => TypeParameter
  | .classSignature => ClassSignature
  | .methodSignature => MethodSignature
  | .fieldSignature => FieldSignature
  | .returnType => ReturnType
  | .thrownType => ThrownType
  | .signature => Signature
  | .list kind => List kind.Item
  | .option kind => Option kind.Item

instance ReferrerKind.referring : (kind : ReferrerKind) → Referring kind.Item
  | .baseType => inferInstanceAs (Referring BaseType)
  | .javaType => inferInstanceAs (Referring JavaType)
  | .referenceType => inferInstanceAs (Referring ReferenceType)
  | .classType => inferInstanceAs (Referring ClassType)
  | .arrayType => inferInstanceAs (Referring ArrayType)
  | .typeVariable => inferInstanceAs (Referring TypeVariable)
  | .typeArgument => inferInstanceAs (Referring TypeArgument)
  | .typeParameter => inferInstanceAs (Referring TypeParameter)
  | .classSignature => inferInstanceAs (Referring ClassSignature)
  | .methodSignature => inferInstanceAs (Referring MethodSignature)
  | .fieldSignature => inferInstanceAs (Referring FieldSignature)
  | .returnType => inferInstanceAs (Referring ReturnType)
  | .thrownType => inferInstanceAs (Referring ThrownType)
  | .signature => inferInstanceAs (Referring Signature)
  | .list kind =>
    haveI := referring kind
    inferInstanceAs (Referring (List kind.Item))
  | .option kind =>
    haveI := referring kind
    inferInstanceAs (Referring (Option kind.Item))

/-- A node that refers to classes by name. -/
structure Referrer where
  kind : ReferrerKind
  item : kind.Item

/-! ## Parts -/

def Referrer.ofArgument (argument : TypeArgument) : Referrer := ⟨.typeArgument, argument⟩

/-- The arguments of a nested class are parts of the class type as a whole. -/
def Referrer.parts : Referrer → List Referrer
  | ⟨.baseType, _⟩ => []
  | ⟨.javaType, .base type⟩ => [⟨.baseType, type⟩]
  | ⟨.javaType, .reference type⟩ => [⟨.referenceType, type⟩]
  | ⟨.referenceType, .classType type⟩ => [⟨.classType, type⟩]
  | ⟨.referenceType, .array type⟩ => [⟨.arrayType, type⟩]
  | ⟨.referenceType, .variable type⟩ => [⟨.typeVariable, type⟩]
  | ⟨.classType, ⟨_, arguments, nested⟩⟩ =>
    (arguments ++ nested.flatMap (·.arguments)).map ofArgument
  | ⟨.arrayType, ⟨component⟩⟩ => [⟨.javaType, component⟩]
  | ⟨.typeVariable, _⟩ => []
  | ⟨.typeArgument, argument⟩ => argument.referenceType?.toList.map (⟨.referenceType, ·⟩)
  | ⟨.typeParameter, ⟨_, classBound, interfaceBounds⟩⟩ =>
    [⟨.option .referenceType, classBound⟩, ⟨.list .referenceType, interfaceBounds⟩]
  | ⟨.classSignature, ⟨typeParameters, superclass, interfaces⟩⟩ =>
    [⟨.list .typeParameter, typeParameters⟩, ⟨.classType, superclass⟩,
      ⟨.list .classType, interfaces⟩]
  | ⟨.methodSignature, ⟨typeParameters, parameters, result, thrown⟩⟩ =>
    [⟨.list .typeParameter, typeParameters⟩, ⟨.list .javaType, parameters⟩,
      ⟨.returnType, result⟩, ⟨.list .thrownType, thrown⟩]
  | ⟨.fieldSignature, ⟨type⟩⟩ => [⟨.referenceType, type⟩]
  | ⟨.returnType, .value type⟩ => [⟨.javaType, type⟩]
  | ⟨.returnType, .void⟩ => []
  | ⟨.thrownType, .classType type⟩ => [⟨.classType, type⟩]
  | ⟨.thrownType, .variable type⟩ => [⟨.typeVariable, type⟩]
  | ⟨.signature, .ofClass signature⟩ => [⟨.classSignature, signature⟩]
  | ⟨.signature, .ofMethod signature⟩ => [⟨.methodSignature, signature⟩]
  | ⟨.signature, .ofField signature⟩ => [⟨.fieldSignature, signature⟩]
  | ⟨.list kind, items⟩ => items.map (⟨kind, ·⟩)
  | ⟨.option kind, item⟩ => item.toList.map (⟨kind, ·⟩)

def Referrer.OccursIn : Referrer → Referrer → Prop :=
  Relation.ReflTransGen fun inner outer => inner ∈ outer.parts

/-- The name that a node adds by itself. -/
def Referrer.erasedName? : Referrer → Option String
  | ⟨.classType, type⟩ => some type.erasedName
  | _ => none

/-- The name is that of a class type somewhere in the node. -/
def Referrer.Mentions (referrer : Referrer) (name : String) : Prop :=
  ∃ type : ClassType, OccursIn ⟨.classType, type⟩ referrer ∧ type.erasedName = name

variable {referrer : Referrer} {name : String} {names : ClassNames}

theorem Referrer.mentions_iff :
    referrer.Mentions name ↔
      referrer.erasedName? = some name ∨ ∃ part ∈ referrer.parts, part.Mentions name := by
  constructor
  · intro ⟨type, occurs, named⟩
    rcases Relation.ReflTransGen.cases_tail occurs with same | ⟨part, occurs, isPart⟩
    · subst same
      exact .inl (congrArg some named)
    · exact .inr ⟨part, isPart, type, occurs, named⟩
  · rintro (own | ⟨part, isPart, type, occurs, named⟩)
    · match referrer, own with
      | ⟨.classType, type⟩, own => exact ⟨type, .refl, Option.some.inj own⟩
    · exact ⟨type, occurs.tail isPart, named⟩

/-! ## The walk -/

theorem TypeArgument.addReferencesList_eq (arguments : List TypeArgument) (names : ClassNames) :
    addReferencesList arguments names =
      arguments.foldl (fun names argument => argument.addReferences names) names := by
  induction arguments generalizing names with
  | nil => rfl
  | cons first rest ih => exact ih (first.addReferences names)

theorem SimpleClassType.addReferencesList_eq (nested : List SimpleClassType)
    (names : ClassNames) :
    addReferencesList nested names = (nested.flatMap (·.arguments)).foldl
      (fun names argument => argument.addReferences names) names := by
  induction nested generalizing names with
  | nil => rfl
  | cons first rest ih =>
    obtain ⟨name, arguments⟩ := first
    rw [addReferencesList, ih, TypeArgument.addReferencesList_eq, List.flatMap_cons,
      List.foldl_append]

/-- The walk adds the name of the node itself and then visits the parts, one after the other. -/
theorem Referrer.addReferences_eq_foldl (referrer : Referrer) (names : ClassNames) :
    addReferences referrer.item names =
      referrer.parts.foldl (fun names part => addReferences part.item names)
        (referrer.erasedName?.elim names names.insert) := by
  match referrer with
  | ⟨.classType, ⟨binaryName, arguments, nested⟩⟩ =>
    change ClassType.addReferences ⟨binaryName, arguments, nested⟩ names = _
    rw [ClassType.addReferences, SimpleClassType.addReferencesList_eq,
      TypeArgument.addReferencesList_eq, ← List.foldl_append, parts, List.foldl_map]
    rfl
  | ⟨.list kind, items⟩ =>
    rw [parts, List.foldl_map]
    rfl
  | ⟨.option kind, none⟩ | ⟨.option kind, some item⟩ => rfl
  | ⟨.baseType, _⟩ | ⟨.javaType, .base _⟩ | ⟨.javaType, .reference _⟩
  | ⟨.referenceType, .classType _⟩ | ⟨.referenceType, .array _⟩ | ⟨.referenceType, .variable _⟩
  | ⟨.arrayType, ⟨_⟩⟩ | ⟨.typeVariable, _⟩ | ⟨.typeArgument, .exactly _⟩
  | ⟨.typeArgument, .upperBounded _⟩ | ⟨.typeArgument, .lowerBounded _⟩
  | ⟨.typeArgument, .unbounded⟩ | ⟨.typeParameter, _⟩ | ⟨.classSignature, _⟩
  | ⟨.methodSignature, _⟩ | ⟨.fieldSignature, _⟩ | ⟨.returnType, .value _⟩
  | ⟨.returnType, .void⟩ | ⟨.thrownType, .classType _⟩ | ⟨.thrownType, .variable _⟩
  | ⟨.signature, .ofClass _⟩ | ⟨.signature, .ofMethod _⟩ | ⟨.signature, .ofField _⟩ => rfl

/-- To any names, the walk adds exactly those of the node. -/
def Referrer.Collects (referrer : Referrer) : Prop :=
  ∀ (names : ClassNames) (name : String),
    name ∈ addReferences referrer.item names ↔ name ∈ names ∨ referrer.Mentions name

theorem Referrer.mem_foldl_iff {parts : List Referrer} (collect : ∀ part ∈ parts, part.Collects)
    (names : ClassNames) (name : String) :
    name ∈ parts.foldl (fun names part => addReferences part.item names) names ↔
      name ∈ names ∨ ∃ part ∈ parts, part.Mentions name := by
  induction parts generalizing names with
  | nil => simp
  | cons first rest ih =>
    obtain ⟨collectsFirst, collectRest⟩ := List.forall_mem_cons.mp collect
    rw [List.foldl_cons, ih collectRest, collectsFirst names name, or_assoc]
    simp only [List.mem_cons, exists_eq_or_imp]

theorem Referrer.mem_own_iff (referrer : Referrer) (names : ClassNames) (name : String) :
    name ∈ referrer.erasedName?.elim names names.insert ↔
      name ∈ names ∨ referrer.erasedName? = some name := by
  cases referrer.erasedName? with
  | none => simp
  | some own =>
    rw [Option.elim_some, Std.ExtTreeSet.mem_insert, Std.LawfulEqCmp.compare_eq_iff_eq,
      Option.some.injEq, or_comm]

/-- A node collects its names if its parts do. -/
theorem Referrer.Collects.of_parts {referrer : Referrer}
    (collect : ∀ part ∈ referrer.parts, part.Collects) : referrer.Collects := by
  intro names name
  rw [addReferences_eq_foldl, mem_foldl_iff collect, mem_own_iff, mentions_iff, or_assoc]

theorem Referrer.Collects.of_part {referrer part : Referrer} (only : referrer.parts = [part])
    (collects : part.Collects) : referrer.Collects := by
  apply of_parts
  rw [only]
  exact List.forall_mem_singleton.mpr collects

theorem Referrer.Collects.of_none {referrer : Referrer} (none : referrer.parts = []) :
    referrer.Collects := by
  apply of_parts
  rw [none]
  exact List.forall_mem_nil _

theorem BaseType.collects (type : BaseType) : Referrer.Collects ⟨.baseType, type⟩ :=
  .of_none rfl

theorem TypeVariable.collects (type : TypeVariable) : Referrer.Collects ⟨.typeVariable, type⟩ :=
  .of_none rfl

-- The induction is on the types; the arguments of a class type are met in its two lists.
mutual

theorem JavaType.collects (type : JavaType) : Referrer.Collects ⟨.javaType, type⟩ := by
  cases type with
  | base type => exact .of_part rfl type.collects
  | reference type => exact .of_part rfl type.collects

theorem ReferenceType.collects (type : ReferenceType) :
    Referrer.Collects ⟨.referenceType, type⟩ := by
  cases type with
  | classType type => exact .of_part rfl type.collects
  | array type => exact .of_part rfl type.collects
  | _ => exact .of_part rfl (TypeVariable.collects _)

theorem ClassType.collects (type : ClassType) : Referrer.Collects ⟨.classType, type⟩ := by
  cases type with
  | mk _ arguments nested =>
    apply Referrer.Collects.of_parts
    rw [Referrer.parts, List.forall_mem_map, List.forall_mem_append, List.forall_mem_flatMap]
    exact ⟨TypeArgument.list_collects arguments, SimpleClassType.list_collects nested⟩

theorem SimpleClassType.list_collects (nested : List SimpleClassType) : ∀ type ∈ nested,
    ∀ argument ∈ type.arguments, (Referrer.ofArgument argument).Collects := by
  cases nested with
  | nil => exact List.forall_mem_nil _
  | cons first rest =>
    cases first with
    | mk _ arguments =>
      exact List.forall_mem_cons.mpr
        ⟨TypeArgument.list_collects arguments, SimpleClassType.list_collects rest⟩

theorem ArrayType.collects (type : ArrayType) : Referrer.Collects ⟨.arrayType, type⟩ := by
  cases type with
  | mk component => exact .of_part rfl component.collects

theorem TypeArgument.collects (argument : TypeArgument) :
    (Referrer.ofArgument argument).Collects := by
  cases argument with
  | exactly type => exact .of_part rfl type.collects
  | upperBounded type => exact .of_part rfl type.collects
  | lowerBounded type => exact .of_part rfl type.collects
  | unbounded => exact .of_none rfl

theorem TypeArgument.list_collects (arguments : List TypeArgument) : ∀ argument ∈ arguments,
    (Referrer.ofArgument argument).Collects := by
  cases arguments with
  | nil => exact List.forall_mem_nil _
  | cons first rest =>
    exact List.forall_mem_cons.mpr ⟨first.collects, TypeArgument.list_collects rest⟩

end

/-! ## Declarations -/

theorem Referrer.Collects.list {kind : ReferrerKind} (collect : ∀ item, Collects ⟨kind, item⟩)
    (items : List kind.Item) : Collects ⟨.list kind, items⟩ :=
  .of_parts <| by
    rw [parts, List.forall_mem_map]
    exact fun item _ => collect item

theorem Referrer.Collects.option {kind : ReferrerKind} (collect : ∀ item, Collects ⟨kind, item⟩)
    (item : Option kind.Item) : Collects ⟨.option kind, item⟩ :=
  .of_parts <| by
    rw [parts, List.forall_mem_map]
    exact fun item _ => collect item

theorem TypeParameter.collects (parameter : TypeParameter) :
    Referrer.Collects ⟨.typeParameter, parameter⟩ :=
  .of_parts <| by
    simp only [Referrer.parts, List.forall_mem_cons]
    exact ⟨Referrer.Collects.option ReferenceType.collects _,
      Referrer.Collects.list ReferenceType.collects _, List.forall_mem_nil _⟩

theorem ClassSignature.collects (signature : ClassSignature) :
    Referrer.Collects ⟨.classSignature, signature⟩ :=
  .of_parts <| by
    simp only [Referrer.parts, List.forall_mem_cons]
    exact ⟨Referrer.Collects.list TypeParameter.collects _, signature.superclass.collects,
      Referrer.Collects.list ClassType.collects _, List.forall_mem_nil _⟩

theorem ReturnType.collects : (result : ReturnType) → Referrer.Collects ⟨.returnType, result⟩
  | .value type => .of_part rfl type.collects
  | .void => .of_none rfl

theorem ThrownType.collects : (thrown : ThrownType) → Referrer.Collects ⟨.thrownType, thrown⟩
  | .classType type => .of_part rfl type.collects
  | .variable type => .of_part rfl type.collects

theorem MethodSignature.collects (signature : MethodSignature) :
    Referrer.Collects ⟨.methodSignature, signature⟩ :=
  .of_parts <| by
    simp only [Referrer.parts, List.forall_mem_cons]
    exact ⟨Referrer.Collects.list TypeParameter.collects _,
      Referrer.Collects.list JavaType.collects _, signature.result.collects,
      Referrer.Collects.list ThrownType.collects _, List.forall_mem_nil _⟩

theorem FieldSignature.collects (signature : FieldSignature) :
    Referrer.Collects ⟨.fieldSignature, signature⟩ :=
  .of_part rfl signature.type.collects

theorem Signature.collects : (signature : Signature) → Referrer.Collects ⟨.signature, signature⟩
  | .ofClass signature | .ofMethod signature | .ofField signature =>
    .of_part rfl signature.collects

theorem ReferrerKind.collects (kind : ReferrerKind) (item : kind.Item) :
    Referrer.Collects ⟨kind, item⟩ := by
  induction kind with
  | baseType => exact BaseType.collects item
  | javaType => exact JavaType.collects item
  | referenceType => exact ReferenceType.collects item
  | classType => exact ClassType.collects item
  | arrayType => exact ArrayType.collects item
  | typeVariable => exact TypeVariable.collects item
  | typeArgument => exact TypeArgument.collects item
  | typeParameter => exact TypeParameter.collects item
  | classSignature => exact ClassSignature.collects item
  | methodSignature => exact MethodSignature.collects item
  | fieldSignature => exact FieldSignature.collects item
  | returnType => exact ReturnType.collects item
  | thrownType => exact ThrownType.collects item
  | signature => exact Signature.collects item
  | list kind ih => exact Referrer.Collects.list ih item
  | option kind ih => exact Referrer.Collects.option ih item

/-! ## References -/

theorem Referrer.mem_references_iff : name ∈ references referrer.item ↔ referrer.Mentions name := by
  rw [references, referrer.kind.collects]
  simp

/-- A node refers to the classes of all that occurs in it. -/
theorem Referrer.OccursIn.mem_references {inner outer : Referrer} (occurs : inner.OccursIn outer)
    (member : name ∈ references inner.item) : name ∈ references outer.item := by
  obtain ⟨type, occursInner, named⟩ := mem_references_iff.mp member
  exact mem_references_iff.mpr ⟨type, occursInner.trans occurs, named⟩

/-- A class without type arguments refers to itself alone. -/
theorem ClassType.references_named (binaryName : String) :
    references (named binaryName) = {binaryName} := by
  have own : (named binaryName).erasedName = binaryName := String.intercalate_singleton
  change (∅ : ClassNames).insert (named binaryName).erasedName = _
  rw [own]
  rfl

theorem ClassType.mem_references_named {binaryName : String} :
    name ∈ references (named binaryName) ↔ name = binaryName := by
  rw [references_named, Std.ExtTreeSet.singleton_eq_insert, Std.ExtTreeSet.mem_insert,
    Std.LawfulEqCmp.compare_eq_iff_eq, or_iff_left Std.ExtTreeSet.not_mem_empty, eq_comm]

/-- From no names at all, the walk yields each name once, in the order of their bytes. -/
theorem Referrer.addReferences_exactly (referrer : Referrer) :
    (∀ (names : ClassNames) (name : String), name ∈ addReferences referrer.item names ↔
      name ∈ names ∨
        ∃ type : ClassType, OccursIn ⟨.classType, type⟩ referrer ∧ type.erasedName = name) ∧
    (∀ name : String, name ∈ (references referrer.item).toList ↔
      ∃ type : ClassType, OccursIn ⟨.classType, type⟩ referrer ∧ type.erasedName = name) ∧
    (references referrer.item).toList.Pairwise
      (fun first second => Text.byteOrder first second = .lt) := by
  have collects := referrer.kind.collects referrer.item
  refine ⟨collects, fun name => ?_, Std.ExtTreeSet.ordered_toList⟩
  rw [Std.ExtTreeSet.mem_toList, references, collects]
  simp [Mentions]

end GenericSignature
