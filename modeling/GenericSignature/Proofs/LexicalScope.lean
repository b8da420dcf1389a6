import GenericSignature.Proofs.ChainShape
import GenericSignature.Proofs.ExposedVariable

/-! Type parameters are scoped lexically.

The bounds of a class are read in the class: no parameter of a method is taken for a variable in
them, whatever names the method declares. And a chain of bounds that stays in the method does not
depend on the class.
-/

set_option autoImplicit false

namespace GenericSignature

/-- Every variable to which the chain comes is declared on the level. -/
def TypeParameter.Contains (declared : List TypeParameter) (start : TypeVariable) : Prop :=
  ∀ last, Reaches declared start last → (find? declared last.name).isSome

/-- The variable, and every type that exposes it, are resolved to the same results. -/
structure Scope.AgreesOn (scope other : Scope) (start : TypeVariable) : Prop where
  typeVariable : (scope.resolveVariable start).value = (other.resolveVariable start).value
  type : ∀ type : JavaType, type.exposed? = some start →
    (scope.resolveType type).value = (other.resolveType type).value
  reference : ∀ type : ReferenceType, (JavaType.reference type).exposed? = some start →
    (scope.resolveReference type).value = (other.resolveReference type).value
  array : ∀ array : ArrayType, (JavaType.ofArray array).exposed? = some start →
    (scope.resolveArray array).value = (other.resolveArray array).value
  argument : ∀ (argument : TypeArgument) (type : ReferenceType),
    argument.referenceType? = some type → (JavaType.reference type).exposed? = some start →
      (scope.resolveArgument argument).value = (other.resolveArgument argument).value

section Scopes

variable {declared : List TypeParameter} {scope other outer : Scope} {start : TypeVariable}

theorem Scope.agreesOn
    (agree : (scope.resolveVariable start).value = (other.resolveVariable start).value) :
    scope.AgreesOn other start where
  typeVariable := agree
  type _ exposes := resolveType_value_congr exposes agree
  reference _ exposes := resolveReference_value_congr exposes agree
  array _ exposes := resolveArray_value_congr exposes agree
  argument _ _ bounded exposes := resolveArgument_value_congr bounded exposes agree

theorem Scope.resolveVariable_value_of_undeclared
    (absent : TypeParameter.find? declared start.name = none) :
    (resolveVariable (declared :: outer) start).value = (resolveVariable outer start).value := by
  have ends : TypeParameter.chainEnd declared start = .undeclared start :=
    TypeParameter.chainEnd_eq_undeclared_iff.mpr ⟨.refl, absent⟩
  simp only [resolveVariable, ends]

theorem TypeParameter.Contains.chainEnd_ne_undeclared (contained : Contains declared start)
    (last : TypeVariable) : chainEnd declared start ≠ .undeclared last := by
  intro ends
  obtain ⟨reaches, absent⟩ := chainEnd_eq_undeclared_iff.mp ends
  have isDeclared := contained last reaches
  rw [absent] at isDeclared
  cases isDeclared

theorem Scope.resolveVariable_of_contains (contained : TypeParameter.Contains declared start) :
    resolveVariable (declared :: outer) start = resolveVariable (declared :: other) start := by
  rw [resolveVariable, resolveVariable]
  cases ends : TypeParameter.chainEnd declared start with
  | bound | unbounded | cyclic => rfl
  | undeclared last => exact absurd ends (contained.chainEnd_ne_undeclared last)

theorem TypeParameter.contains_of_bounds_declared (isDeclared : (find? declared start.name).isSome)
    (closed : ∀ parameter ∈ declared, ∀ next, parameter.bound? = some (.variable next) →
      (find? declared next.name).isSome) : Contains declared start := by
  intro last reaches
  induction reaches with
  | refl => exact isDeclared
  | tail _ precedes _ =>
    obtain ⟨parameter, found, bound⟩ := precedes
    exact closed parameter (mem_of_find?_eq_some found).1 _ bound

end Scopes

/-- Without a declaration in the method, the class alone decides; with the whole chain declared in
the method, the method alone. -/
theorem Scope.lexically_scoped (declaring another : ClassSignature)
    (method alternative : MethodSignature) (start : TypeVariable) :
    (TypeParameter.find? method.typeParameters start.name = none →
      TypeParameter.find? alternative.typeParameters start.name = none →
        (MethodMember.mk declaring method).scope.AgreesOn
          (MethodMember.mk declaring alternative).scope start ∧
        (MethodMember.mk declaring method).scope.AgreesOn declaring.scope start) ∧
    (TypeParameter.Contains method.typeParameters start →
      (MethodMember.mk declaring method).scope.AgreesOn (MethodMember.mk another method).scope
        start) := by
  refine ⟨fun absent absent' => ⟨agreesOn ?_, agreesOn ?_⟩, fun contained => agreesOn ?_⟩
  · simp only [MethodMember.scope, resolveVariable_value_of_undeclared absent,
      resolveVariable_value_of_undeclared absent']
  · exact resolveVariable_value_of_undeclared absent
  · exact congrArg Logged.value (resolveVariable_of_contains contained)

theorem Scope.lexically_scoped_shadowed :
    let declaring : ClassSignature :=
      ⟨[⟨⟨"T"⟩, some (.variable ⟨⟨"U"⟩⟩), []⟩, ⟨⟨"U"⟩, some (.array ⟨.base .int⟩), []⟩],
        .object, []⟩
    let another : ClassSignature := ⟨[⟨⟨"W"⟩, some (.classType .object), []⟩], .object, []⟩
    let method : MethodSignature :=
      ⟨[⟨⟨"U"⟩, some (.variable ⟨⟨"W"⟩⟩), []⟩, ⟨⟨"W"⟩, some (.array ⟨.base .byte⟩), []⟩],
        [], .void, []⟩
    let alternative : MethodSignature := ⟨[], [], .void, []⟩
    TypeParameter.find? method.typeParameters ⟨"T"⟩ = none ∧
      TypeParameter.find? alternative.typeParameters ⟨"T"⟩ = none ∧
      TypeParameter.Contains method.typeParameters ⟨⟨"U"⟩⟩ ∧
      ((MethodMember.mk declaring method).scope.AgreesOn
          (MethodMember.mk declaring alternative).scope ⟨⟨"T"⟩⟩ ∧
        (MethodMember.mk declaring method).scope.AgreesOn declaring.scope ⟨⟨"T"⟩⟩) ∧
      (MethodMember.mk declaring method).scope.AgreesOn (MethodMember.mk another method).scope
        ⟨⟨"U"⟩⟩ := by
  intro declaring another method alternative
  -- Both levels declare `U`: the chain of `T` runs over the one, that of `U` over the other.
  have absent : TypeParameter.find? method.typeParameters ⟨"T"⟩ = none := by decide
  have absent' : TypeParameter.find? alternative.typeParameters ⟨"T"⟩ = none := rfl
  have contained : TypeParameter.Contains method.typeParameters ⟨⟨"U"⟩⟩ := by
    refine TypeParameter.contains_of_bounds_declared (by decide) ?_
    simp [method, TypeParameter.bound?, TypeParameter.find?]
  exact ⟨absent, absent', contained,
    (lexically_scoped declaring another method alternative ⟨⟨"T"⟩⟩).1 absent absent',
    (lexically_scoped declaring another method alternative ⟨⟨"U"⟩⟩).2 contained⟩

end GenericSignature
