import GenericSignature.Proofs.ChainShape
import Mathlib.Data.List.Forall2

/-! The declarations that matter for resolution.

Of the parameters of one name only the first is ever seen, and of that one only the bound that
stands for it. All else in a signature can change without a type being resolved in another way, or
with other records.
-/

set_option autoImplicit false

namespace GenericSignature

/-- The lists declare the same names, and with the same bounds that stand for them. -/
def TypeParameter.SameBounds (declared other : List TypeParameter) : Prop :=
  ∀ name, (find? declared name).map bound? = (find? other name).map bound?

/-- A change of the declared parameters that is out of sight. An interface bound is selected only
if it is the first and there is no class bound. -/
inductive TypeParameter.Edit : List TypeParameter → List TypeParameter → Prop where
  | permuted {declared other : List TypeParameter} :
      (declared.map (·.name)).Nodup → declared.Perm other → Edit declared other
  | dropped {front rest : List TypeParameter} {earlier later : TypeParameter} :
      earlier ∈ front → earlier.name = later.name → Edit (front ++ later :: rest) (front ++ rest)
  | rebounded {front rest : List TypeParameter} {parameter : TypeParameter}
      {interfaceBounds : List ReferenceType} :
      parameter.classBound.isSome ∨
        interfaceBounds.head? = parameter.interfaceBounds.head? →
      Edit (front ++ parameter :: rest) (front ++ { parameter with interfaceBounds } :: rest)

/-- Any number of edits, each of them made or undone. -/
def TypeParameter.Redeclares : List TypeParameter → List TypeParameter → Prop :=
  Relation.EqvGen Edit

structure Scope.ResolvesAlike (scope other : Scope) : Prop where
  typeVariable : ∀ start, scope.resolveVariable start = other.resolveVariable start
  type : ∀ type, scope.resolveType type = other.resolveType type
  reference : ∀ type, scope.resolveReference type = other.resolveReference type
  array : ∀ array, scope.resolveArray array = other.resolveArray array
  argument : ∀ argument, scope.resolveArgument argument = other.resolveArgument argument

section Edits

variable {declared other rest : List TypeParameter} {first second : TypeParameter}
  {name : Identifier}

theorem TypeParameter.find?_cons :
    find? (first :: rest) name = if first.name = name then some first else find? rest name := by
  by_cases same : first.name = name <;> simp [find?, same]

theorem TypeParameter.SameBounds.cons (same : SameBounds declared other) :
    SameBounds (first :: declared) (first :: other) := by
  intro name
  by_cases found : first.name = name <;> simp [find?_cons, found, same name]

theorem TypeParameter.SameBounds.append (front : List TypeParameter)
    (same : SameBounds declared other) : SameBounds (front ++ declared) (front ++ other) := by
  induction front with
  | nil => exact same
  | cons first front ih => exact ih.cons

theorem TypeParameter.sameBounds_swap (distinct : first.name ≠ second.name) :
    SameBounds (first :: second :: rest) (second :: first :: rest) := by
  intro name
  by_cases found : first.name = name
  · have other : second.name ≠ name := fun same => distinct (found.trans same.symm)
    simp [find?_cons, found, other]
  · simp [find?_cons, found]

theorem TypeParameter.sameBounds_of_perm (permutes : declared.Perm other)
    (distinct : (declared.map (·.name)).Nodup) : SameBounds declared other := by
  induction permutes with
  | nil => exact fun _ => rfl
  | cons first _ ih => exact (ih (List.nodup_cons.mp distinct).2).cons
  | swap first second rest =>
    -- Neighbours of one name must not change places: the first of them is the one that is found.
    simp only [List.map_cons, List.nodup_cons, List.mem_cons, not_or] at distinct
    exact sameBounds_swap distinct.1.1
  | trans permutes _ ih ih' =>
    exact fun name => (ih distinct name).trans
      (ih' ((permutes.map _).nodup distinct) name)

theorem TypeParameter.sameBounds_of_dropped {front : List TypeParameter}
    {earlier later : TypeParameter} (hides : earlier ∈ front) (same : earlier.name = later.name) :
    SameBounds (front ++ later :: rest) (front ++ rest) := by
  intro name
  simp only [find?, List.find?_append]
  by_cases found : later.name = name
  · have hidden : (front.find? (·.name = name)).isSome :=
      List.find?_isSome.mpr ⟨earlier, hides, decide_eq_true (same.trans found)⟩
    rw [Option.or_of_isSome hidden, Option.or_of_isSome hidden]
  · rw [List.find?_cons_of_neg (by simpa using found)]

theorem TypeParameter.sameBounds_of_rebounded {interfaceBounds : List ReferenceType}
    (unselected : first.classBound.isSome ∨
      interfaceBounds.head? = first.interfaceBounds.head?) :
    SameBounds (first :: rest) ({ first with interfaceBounds } :: rest) := by
  have same : TypeParameter.bound? { first with interfaceBounds } = first.bound? := by
    rcases unselected with bounded | selected
    · simp only [bound?, Option.or_of_isSome bounded]
    · simp only [bound?, selected]
  intro name
  by_cases found : first.name = name
  · simp only [find?_cons, if_pos found, Option.map_some, same]
  · simp only [find?_cons, if_neg found]

theorem TypeParameter.Edit.sameBounds (edit : Edit declared other) : SameBounds declared other := by
  cases edit with
  | permuted distinct permutes => exact sameBounds_of_perm permutes distinct
  | dropped hides same => exact sameBounds_of_dropped hides same
  | rebounded unselected => exact (sameBounds_of_rebounded unselected).append _

theorem TypeParameter.Redeclares.sameBounds (redeclares : Redeclares declared other) :
    SameBounds declared other := by
  induction redeclares with
  | rel _ _ edit => exact edit.sameBounds
  | refl => exact fun _ => rfl
  | symm _ _ _ ih => exact fun name => (ih name).symm
  | trans _ _ _ _ _ ih ih' => exact fun name => (ih name).trans (ih' name)

end Edits

section Chains

variable {declared other : List TypeParameter} {scope another : Scope}

theorem TypeParameter.SameBounds.onward_eq (same : SameBounds declared other)
    (current : TypeVariable) : onward declared current = onward other current := by
  have same := same current.name
  unfold onward
  cases found : find? declared current.name with
  | none =>
    rw [found, Option.map_none, eq_comm, Option.map_eq_none_iff] at same
    rw [same]
  | some parameter =>
    rw [found, Option.map_some, eq_comm, Option.map_eq_some_iff] at same
    obtain ⟨_, found', bounds⟩ := same
    simp only [found', bounds]

theorem TypeParameter.SameBounds.precedes_eq (same : SameBounds declared other) :
    Precedes declared = Precedes other := by
  funext current next
  exact propext (onward_eq_next_iff.symm.trans ((same.onward_eq current) ▸ onward_eq_next_iff))

theorem TypeParameter.SameBounds.chainEnd_eq (same : SameBounds declared other)
    (start : TypeVariable) : chainEnd declared start = chainEnd other start := by
  -- The visited names of the two lists may differ, so the loops do not run alike. But a circle and
  -- an end are told by what the chain comes to, and that is the same.
  by_cases circle : chainEnd declared start = .cyclic
  · have revisits := chainEnd_eq_cyclic_iff.mp circle
    rw [Revisits, Reaches, same.precedes_eq] at revisits
    rw [circle, chainEnd_eq_cyclic_iff.mpr revisits]
  · obtain ⟨last, reaches, ends⟩ := (chainEnd_eq_iff circle).mp rfl
    rw [Reaches, same.precedes_eq] at reaches
    rw [same.onward_eq] at ends
    exact ((chainEnd_eq_iff circle).mpr ⟨last, reaches, ends⟩).symm

theorem Scope.resolveVariable_congr (same : List.Forall₂ TypeParameter.SameBounds scope another)
    (start : TypeVariable) : scope.resolveVariable start = another.resolveVariable start := by
  induction same generalizing start with
  | nil => rfl
  | @cons declared other outer beyond level levels ih =>
    have outermost : outer.isEmpty = beyond.isEmpty := by cases levels <;> rfl
    simp only [resolveVariable, level.chainEnd_eq start, ih, outermost]

theorem Scope.resolvesAlike (same : List.Forall₂ TypeParameter.SameBounds scope another) :
    scope.ResolvesAlike another := by
  have typeVariables : scope.resolveVariable = another.resolveVariable :=
    funext (resolveVariable_congr same)
  have arrays : scope.resolveArray = another.resolveArray := by
    funext array
    simp only [resolveArray, typeVariables]
  have references : scope.resolveReference = another.resolveReference := by
    funext type
    cases type <;> simp only [resolveReference, typeVariables, arrays]
  refine ⟨congrFun typeVariables, fun type => ?_, congrFun references, congrFun arrays,
    fun argument => ?_⟩
  · cases type <;> simp only [resolveType, references]
  · cases argument <;> simp only [resolveArgument, references]

end Chains

/-- Classes, methods and fields with the one signatures resolve like those with the others. -/
structure Scope.MembersAlike (declaring another : ClassSignature)
    (method alternative : MethodSignature) (field other : FieldSignature) : Prop where
  inClass : declaring.scope.ResolvesAlike another.scope
  inMethod : (MethodMember.mk declaring method).scope.ResolvesAlike
    (MethodMember.mk another alternative).scope
  inField : (FieldMember.mk declaring field).scope.ResolvesAlike
    (FieldMember.mk another other).scope

theorem Scope.membersAlike {declaring another : ClassSignature}
    {method alternative : MethodSignature}
    (sameClass : TypeParameter.SameBounds declaring.typeParameters another.typeParameters)
    (sameMethod : TypeParameter.SameBounds method.typeParameters alternative.typeParameters)
    (field other : FieldSignature) :
    MembersAlike declaring another method alternative field other where
  inClass := resolvesAlike (.cons sameClass .nil)
  inMethod := resolvesAlike (.cons sameMethod (.cons sameClass .nil))
  inField := resolvesAlike (.cons sameClass .nil)

/-- Only the type parameters are compared. Whatever else differs between the signatures does not
matter for the resolution of a given type. -/
theorem Scope.first_declarations_decide (declaring another : ClassSignature)
    (method alternative : MethodSignature) (field other : FieldSignature) :
    (TypeParameter.SameBounds declaring.typeParameters another.typeParameters →
      TypeParameter.SameBounds method.typeParameters alternative.typeParameters →
        MembersAlike declaring another method alternative field other) ∧
    (TypeParameter.Redeclares declaring.typeParameters another.typeParameters →
      TypeParameter.Redeclares method.typeParameters alternative.typeParameters →
        MembersAlike declaring another method alternative field other) :=
  ⟨fun sameClass sameMethod => membersAlike sameClass sameMethod field other,
    fun editedClass editedMethod =>
      membersAlike editedClass.sameBounds editedMethod.sameBounds field other⟩

/-- A second declaration is dropped, the others change places, and one gets an interface bound.
The other way round it is enough that the bounds are the same. -/
theorem Scope.first_declarations_decide_rearranged :
    let bounded : TypeParameter := ⟨⟨"T"⟩, some (.classType .object), []⟩
    let dependent : TypeParameter := ⟨⟨"U"⟩, some (.variable ⟨⟨"T"⟩⟩), []⟩
    let repeated : TypeParameter := ⟨⟨"T"⟩, none, []⟩
    let serializable := ClassType.named "java/io/Serializable"
    let declaring : ClassSignature := ⟨[bounded, dependent, repeated], .object, []⟩
    let another : ClassSignature :=
      ⟨[dependent, { bounded with interfaceBounds := [.classType serializable] }], .named "A",
        [serializable]⟩
    let method : MethodSignature := ⟨[bounded], [], .void, []⟩
    let alternative : MethodSignature :=
      ⟨[bounded, repeated], [.base .int], .value (.base .int), []⟩
    let field : FieldSignature := ⟨.classType .object⟩
    TypeParameter.Redeclares declaring.typeParameters another.typeParameters ∧
      TypeParameter.Redeclares method.typeParameters alternative.typeParameters ∧
      MembersAlike declaring another method alternative field field ∧
      TypeParameter.SameBounds another.typeParameters declaring.typeParameters ∧
      TypeParameter.SameBounds alternative.typeParameters method.typeParameters ∧
      MembersAlike another declaring alternative method field field := by
  intro bounded dependent repeated serializable declaring another method alternative field
  have dropped : TypeParameter.Edit [bounded, dependent, repeated] [bounded, dependent] :=
    @TypeParameter.Edit.dropped [bounded, dependent] [] bounded repeated List.mem_cons_self rfl
  have permuted : TypeParameter.Edit [bounded, dependent] [dependent, bounded] :=
    .permuted (by decide) (.swap dependent bounded [])
  have rebounded : TypeParameter.Edit [dependent, bounded] another.typeParameters :=
    @TypeParameter.Edit.rebounded [dependent] [] bounded [.classType serializable] (.inl rfl)
  have droppedAgain : TypeParameter.Edit [bounded, repeated] [bounded] :=
    @TypeParameter.Edit.dropped [bounded] [] bounded repeated List.mem_cons_self rfl
  have editedClass :
      TypeParameter.Redeclares declaring.typeParameters another.typeParameters :=
    .trans _ _ _ (.rel _ _ dropped) (.trans _ _ _ (.rel _ _ permuted) (.rel _ _ rebounded))
  have editedMethod :
      TypeParameter.Redeclares method.typeParameters alternative.typeParameters :=
    .symm _ _ (.rel _ _ droppedAgain)
  have sameClass : TypeParameter.SameBounds another.typeParameters declaring.typeParameters :=
    fun name => (editedClass.sameBounds name).symm
  have sameMethod :
      TypeParameter.SameBounds alternative.typeParameters method.typeParameters :=
    fun name => (editedMethod.sameBounds name).symm
  exact ⟨editedClass, editedMethod,
    (first_declarations_decide declaring another method alternative field field).2 editedClass
      editedMethod,
    sameClass, sameMethod,
    (first_declarations_decide another declaring alternative method field field).1 sameClass
      sameMethod⟩

end GenericSignature
