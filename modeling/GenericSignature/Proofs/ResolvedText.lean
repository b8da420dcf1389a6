import GenericSignature.Proofs.BoundChain
import GenericSignature.Proofs.NestingLimit
import GenericSignature.Proofs.RoundTrip

/-! The texts of resolved types.

The bounds that take the place of variables are as well-formed as the signatures they come from. So
only the dimensions of an array can become too many, together with those of the bound of its
element.
-/

set_option autoImplicit false

namespace GenericSignature

/-! ## Bounds -/

def Scope.WellBounded (scope : Scope) : Prop :=
  ∀ declared ∈ scope, ∀ parameter ∈ declared, ∀ bound ∈ parameter.bound?,
    Nonterminal.referenceType.WellFormed bound

section Bounds

variable {declared : List TypeParameter} {scope : Scope} {start : TypeVariable}
  {type : ReferenceType}

theorem TypeParameter.mem_types_of_bound? {parameter : TypeParameter}
    (stands : type ∈ parameter.bound?) : JavaType.reference type ∈ parameter.types := by
  apply List.mem_map_of_mem
  rw [List.mem_append, Option.mem_toList]
  rcases Option.or_eq_some_iff.mp stands with bound | ⟨-, bound⟩
  · exact .inl bound
  · exact .inr (List.mem_of_mem_head? bound)

theorem Scope.wellBounded_cons
    (fits : ∀ type ∈ declared.flatMap TypeParameter.types, Nonterminal.javaType.WellFormed type)
    (outer : scope.WellBounded) : WellBounded (declared :: scope) := by
  intro level member parameter isDeclared bound stands
  rcases List.mem_cons.mp member with rfl | member
  · have written := List.mem_flatMap.mpr
      ⟨parameter, isDeclared, TypeParameter.mem_types_of_bound? stands⟩
    exact JavaType.fits_reference.mp (fits _ written)
  · exact outer level member parameter isDeclared bound stands

theorem ClassSignature.wellBounded {signature : ClassSignature}
    (wellFormed : Nonterminal.classSignature.WellFormed signature) :
    signature.scope.WellBounded := by
  have fits := (fits_iff.mp wellFormed).2
  simp only [types, List.forall_mem_append] at fits
  exact Scope.wellBounded_cons fits.1 (List.forall_mem_nil _)

theorem MethodMember.wellBounded {method : MethodMember}
    (declaring : Nonterminal.classSignature.WellFormed method.declaringClass)
    (signature : Nonterminal.methodSignature.WellFormed method.signature) :
    method.scope.WellBounded := by
  have fits := (MethodSignature.fits_iff.mp signature).2
  simp only [MethodSignature.types, List.forall_mem_append] at fits
  exact Scope.wellBounded_cons fits.1.1.1 (ClassSignature.wellBounded declaring)

theorem Scope.Chain.wellFormed (chain : Chain scope start type) (bounded : scope.WellBounded) :
    Nonterminal.referenceType.WellFormed type := by
  obtain ⟨declared, level, parameter, isDeclared, stands⟩ := chain.exists_bound
  exact bounded declared level parameter isDeclared type stands

theorem Scope.wellFormed_of_resolveVariable (bounded : scope.WellBounded)
    (resolved : (scope.resolveVariable start).value = some type) :
    Nonterminal.referenceType.WellFormed type :=
  ((scope.resolveVariable_value_iff start).mp resolved).wellFormed bounded

end Bounds

/-! ## Arrays -/

/-- The element that takes the place of another one. -/
def Scope.replacement (scope : Scope) : JavaType → JavaType
  | .reference (.variable type) =>
    .reference ((scope.resolveVariable type).value.getD (.classType .object))
  | element => element

section Arrays

variable {scope : Scope} {type : JavaType} {array : ArrayType}

theorem Scope.resolveArray_value (scope : Scope) (array : ArrayType) :
    (scope.resolveArray array).value =
      .withDimensions (scope.replacement array.element) array.dimensions array.dimensions_pos := by
  unfold resolveArray
  generalize array.element = element
  rcases element with _ | (_ | _ | _) <;> rfl

theorem ClassType.wellFormed_object : Nonterminal.classType.WellFormed object := by
  refine fits_named ⟨["java", "lang", "Object"], List.cons_ne_nil _ _, ?_, rfl⟩
  simp only [List.forall_mem_cons]
  exact ⟨by decide, by decide, by decide, List.forall_mem_nil _⟩

theorem Scope.wellFormed_replacement (bounded : scope.WellBounded)
    (wellFormed : Nonterminal.javaType.WellFormed type) :
    Nonterminal.javaType.WellFormed (scope.replacement type) := by
  unfold replacement
  split
  · next start =>
    apply JavaType.fits_reference.mpr
    cases resolved : (scope.resolveVariable start).value with
    | none => exact ReferenceType.fits_classType.mpr ClassType.wellFormed_object
    | some bound => exact wellFormed_of_resolveVariable bounded resolved
  · exact wellFormed

theorem Scope.exists_of_layers_replacement (plain : type.isArray = false)
    (layered : 0 < (scope.replacement type).layers) :
    ∃ start bound, type = .ofVariable start ∧
      (scope.resolveVariable start).value = some (.array bound) := by
  unfold replacement at layered
  split at layered
  · next start =>
    refine ⟨start, ?_⟩
    rcases resolved : (scope.resolveVariable start).value with _ | (_ | bound | _) <;>
      rw [resolved] at layered
    case some.array => exact ⟨bound, rfl, rfl⟩
    all_goals cases layered
  · rw [JavaType.layers_of_not_isArray plain] at layered
    cases layered

theorem Scope.dimensions_resolveArray (scope : Scope) (array : ArrayType) :
    (scope.resolveArray array).value.dimensions =
      array.dimensions + (scope.replacement array.element).layers := by
  rw [resolveArray_value, ArrayType.dimensions_withDimensions]

theorem Scope.element_resolveArray (scope : Scope) (array : ArrayType) :
    (scope.resolveArray array).value.element = (scope.replacement array.element).innermost := by
  rw [resolveArray_value, ArrayType.element_withDimensions]

end Arrays

/-! ## Results -/

/-- Among the types that were resolved is an array whose element is a variable that stands for
another array. -/
def Scope.NestsArrays (scope : Scope) (sources : List JavaType) : Prop :=
  ∃ array start bound, .ofArray array ∈ sources ∧ array.element = .ofVariable start ∧
    (scope.resolveVariable start).value = some (.array bound)

/-- What is known of a type to which the sources resolve. -/
structure Scope.Resolves (scope : Scope) (sources : List JavaType) (type : JavaType) : Prop where
  legible : type.Legible
  wellFormed : type.layers ≤ ArrayType.maxDimensions → Nonterminal.javaType.WellFormed type
  nests : ArrayType.maxDimensions < type.layers → scope.NestsArrays sources

section Results

variable {scope : Scope} {sources : List JavaType} {type : JavaType}

theorem Scope.Resolves.of_wellFormed (wellFormed : Nonterminal.javaType.WellFormed type) :
    scope.Resolves sources type where
  legible := wellFormed.legible
  wellFormed _ := wellFormed
  nests exceeds := absurd (JavaType.depths_of_fits wellFormed).1 (Nat.not_le_of_lt exceeds)

theorem Scope.resolves_array {array : ArrayType} (bounded : scope.WellBounded)
    (wellFormed : Nonterminal.arrayType.WellFormed array) :
    scope.Resolves [.ofArray array] (.ofArray (scope.resolveArray array).value) := by
  obtain ⟨dimensions, fits⟩ := ArrayType.fits_iff.mp wellFormed
  have replaced := wellFormed_replacement bounded fits
  have fits := JavaType.fits_innermost replaced
  rw [← element_resolveArray] at fits
  refine ⟨?_, fun within => ?_, fun exceeds => ?_⟩
  · exact (ArrayType.legible_element _).mp fits.legible
  · rw [JavaType.ofArray, JavaType.layers_array] at within
    exact JavaType.fits_reference.mpr
      (ReferenceType.fits_array.mpr (ArrayType.fits_iff.mpr ⟨within, fits⟩))
  · rw [JavaType.ofArray, JavaType.layers_array, dimensions_resolveArray] at exceeds
    have layered : 0 < (scope.replacement array.element).layers := by omega
    obtain ⟨start, bound, element, resolved⟩ :=
      exists_of_layers_replacement array.element_not_isArray layered
    exact ⟨array, start, bound, List.mem_singleton_self _, element, resolved⟩

theorem Scope.resolves_reference {source result : ReferenceType} (bounded : scope.WellBounded)
    (wellFormed : Nonterminal.referenceType.WellFormed source)
    (resolved : (scope.resolveReference source).value = some result) :
    scope.Resolves [.reference source] (.reference result) := by
  match source with
  | .classType _ =>
    cases resolved
    exact .of_wellFormed (JavaType.fits_reference.mpr wellFormed)
  | .array array =>
    cases resolved
    exact resolves_array bounded (ReferenceType.fits_array.mp wellFormed)
  | .variable _ =>
    have wellFormed := wellFormed_of_resolveVariable bounded resolved
    exact .of_wellFormed (JavaType.fits_reference.mpr wellFormed)

theorem Scope.resolves_type {source result : JavaType} (bounded : scope.WellBounded)
    (wellFormed : Nonterminal.javaType.WellFormed source)
    (resolved : (scope.resolveType source).value = some result) :
    scope.Resolves [source] result := by
  cases source with
  | base _ =>
    cases resolved
    exact .of_wellFormed wellFormed
  | reference source =>
    obtain ⟨type, found, rfl⟩ := Option.map_eq_some_iff.mp resolved
    exact resolves_reference bounded (JavaType.fits_reference.mp wellFormed) found

end Results

/-! ## Texts -/

/-- The array layers that a node consists of, as far as it is an array itself. -/
def Nonterminal.dimensions : (symbol : Nonterminal) → symbol.Node → Nat
  | .javaType => JavaType.layers
  | .referenceType => fun type => JavaType.layers (.reference type)
  | .arrayType => ArrayType.dimensions
  | .fieldSignature => fun signature => JavaType.layers (.reference signature.type)
  | .returnType => fun result =>
    match result with
    | .value type => type.layers
    | .void => 0
  | _ => fun _ => 0

/-- A result is read back from its text, unless it has too many dimensions. -/
structure Scope.ReadsBack (scope : Scope) (sources : List JavaType) (symbol : Nonterminal)
    (result : symbol.Node) : Prop where
  accepted : symbol.dimensions result ≤ ArrayType.maxDimensions →
    symbol.parse (symbol.text result) = .ok result
  refused : ArrayType.maxDimensions < symbol.dimensions result →
    symbol.parse (symbol.text result) =
      .error ⟨ArrayType.maxDimensions, .nestedTooDeeply ArrayType.maxDimensions⟩
  nests : ArrayType.maxDimensions < symbol.dimensions result → scope.NestsArrays sources

section Texts

variable {scope : Scope} {sources : List JavaType} {type : JavaType} {symbol : Nonterminal}
  {node : symbol.Node}

theorem Scope.Resolves.readsBack (resolves : scope.Resolves sources type)
    (legible : type.Legible → symbol.Legible node)
    (wellFormed : Nonterminal.javaType.WellFormed type → symbol.WellFormed node)
    (dimensions : symbol.dimensions node = type.layers)
    (glyphs : symbol.glyphs 0 node = type.glyphs 0 0) :
    scope.ReadsBack sources symbol node := by
  refine ⟨fun within => ?_, fun exceeds => ?_, fun exceeds => ?_⟩
  · exact Nonterminal.parse_text (wellFormed (resolves.wellFormed (dimensions ▸ within)))
  · have overrun := JavaType.overrun?_of_lt (dimensions ▸ exceeds) 0
    rw [← glyphs] at overrun
    have refused := Nonterminal.parse_text_of_overrun (legible resolves.legible) overrun
    rwa [Text.byteLength_replicate_bracket] at refused
  · exact resolves.nests (dimensions ▸ exceeds)

theorem Scope.Resolves.readsBack_reference {result : ReferenceType}
    (resolves : scope.Resolves sources (.reference result)) :
    scope.ReadsBack sources .referenceType result :=
  resolves.readsBack (fun legible => legible) JavaType.fits_reference.mp rfl rfl

end Texts

/-- Whatever is read from a text and then resolved in the scope. -/
structure Scope.StaysReadable (scope : Scope) : Prop where
  type : ∀ text type result, Nonterminal.javaType.parse text = .ok type →
    (scope.resolveType type).value = some result → scope.ReadsBack [type] .javaType result
  reference : ∀ text type result, Nonterminal.referenceType.parse text = .ok type →
    (scope.resolveReference type).value = some result →
      scope.ReadsBack [.reference type] .referenceType result
  array : ∀ text array, Nonterminal.arrayType.parse text = .ok array →
    scope.ReadsBack [.ofArray array] .arrayType (scope.resolveArray array).value
  argument : ∀ text argument result, Nonterminal.typeArgument.parse text = .ok argument →
    (scope.resolveArgument argument).value = some result →
      scope.ReadsBack (argument.referenceType?.toList.map .reference) .referenceType result

/-- The types in the signature of the method, resolved. A thrown type is no array. -/
structure MethodMember.StaysReadable (method : MethodMember) : Prop where
  parameter : ∀ index resolved result, method.resolveParameter index = .ok resolved →
    resolved.value = some result →
      ∃ type, method.signature.parameters[index]? = some type ∧
        method.scope.ReadsBack [type] .javaType result
  result : ∀ result, method.resolveResult.value = some result →
    method.scope.ReadsBack method.signature.result.types .returnType result
  thrown : ∀ index resolved result, method.resolveThrown index = .ok resolved →
    resolved.value = some result → method.scope.ReadsBack [] .referenceType result

theorem Scope.WellBounded.staysReadable {scope : Scope} (bounded : scope.WellBounded) :
    scope.StaysReadable where
  type text type result parsed resolved := by
    have wellFormed := (Nonterminal.wellFormed_of_parse parsed).1
    exact (resolves_type bounded wellFormed resolved).readsBack (fun legible => legible)
      (fun fits => fits) rfl rfl
  reference text type result parsed resolved := by
    have wellFormed := (Nonterminal.wellFormed_of_parse parsed).1
    exact (resolves_reference bounded wellFormed resolved).readsBack_reference
  array text array parsed := by
    have wellFormed := (Nonterminal.wellFormed_of_parse parsed).1
    exact (resolves_array bounded wellFormed).readsBack (fun legible => legible)
      (fun fits => ReferenceType.fits_array.mp (JavaType.fits_reference.mp fits))
      (JavaType.layers_array _).symm rfl
  argument text argument result parsed resolved := by
    have wellFormed := (Nonterminal.wellFormed_of_parse parsed).1
    cases argument with
    | exactly type =>
      have fits := TypeArgument.fits_exactly.mp wellFormed
      exact (resolves_reference bounded fits resolved).readsBack_reference
    | upperBounded type =>
      have fits := TypeArgument.fits_upperBounded.mp wellFormed
      exact (resolves_reference bounded fits resolved).readsBack_reference
    | lowerBounded type => cases resolved
    | unbounded => cases resolved

section Members

variable {method : MethodMember}

theorem MethodMember.resolveParameter_eq_ok_iff {index : Nat}
    {resolved : Logged (Option JavaType)} :
    method.resolveParameter index = .ok resolved ↔
      ∃ type, method.signature.parameters[index]? = some type ∧
        method.scope.resolveType type = resolved := by
  unfold resolveParameter
  cases written : method.signature.parameters[index]? <;> simp [written]

theorem MethodMember.resolveThrown_eq_ok_iff {index : Nat}
    {resolved : Logged (Option ReferenceType)} :
    method.resolveThrown index = .ok resolved ↔
      ∃ type, method.signature.thrown[index]? = some type ∧
        method.scope.resolveReference type.toReferenceType = resolved := by
  unfold resolveThrown
  cases written : method.signature.thrown[index]? <;> simp [written]

theorem MethodMember.readsBack_result {result : ReturnType} (bounded : method.scope.WellBounded)
    (fits : ∀ type ∈ method.signature.result.types, Nonterminal.javaType.WellFormed type)
    (resolved : method.resolveResult.value = some result) :
    method.scope.ReadsBack method.signature.result.types .returnType result := by
  rw [resolveResult] at resolved
  cases written : method.signature.result with
  | value source =>
    rw [written] at resolved fits
    obtain ⟨type, found, rfl⟩ := Option.map_eq_some_iff.mp resolved
    exact (Scope.resolves_type bounded (List.forall_mem_singleton.mp fits) found).readsBack
      (fun legible => List.forall_mem_singleton.mpr legible) ReturnType.fits_value.mpr rfl rfl
  | void =>
    rw [written] at resolved
    cases resolved
    refine ⟨fun _ => Nonterminal.parse_text ReturnType.fits_void, ?_, ?_⟩
    · exact fun exceeds => absurd exceeds (Nat.not_lt_zero _)
    · exact fun exceeds => absurd exceeds (Nat.not_lt_zero _)

theorem MethodMember.readsBack_thrown {type : ThrownType} {result : ReferenceType}
    (bounded : method.scope.WellBounded)
    (fits : ∀ written ∈ type.types, Nonterminal.javaType.WellFormed written)
    (resolved : (method.scope.resolveReference type.toReferenceType).value = some result) :
    method.scope.ReadsBack [] .referenceType result := by
  apply Scope.Resolves.readsBack_reference
  apply Scope.Resolves.of_wellFormed
  match type with
  | .classType _ =>
    cases resolved
    exact List.forall_mem_singleton.mp fits
  | .variable _ =>
    exact JavaType.fits_reference.mpr (Scope.wellFormed_of_resolveVariable bounded resolved)

theorem MethodMember.staysReadable (bounded : method.scope.WellBounded)
    (wellFormed : Nonterminal.methodSignature.WellFormed method.signature) :
    method.StaysReadable := by
  have fits := (MethodSignature.fits_iff.mp wellFormed).2
  simp only [MethodSignature.types, List.forall_mem_append, List.forall_mem_flatMap] at fits
  obtain ⟨⟨⟨-, parameters⟩, result⟩, thrown⟩ := fits
  refine ⟨fun index _ type found present => ?_, fun type present => ?_,
    fun index _ type found present => ?_⟩
  · obtain ⟨source, written, rfl⟩ := resolveParameter_eq_ok_iff.mp found
    have fits := parameters source (List.mem_of_getElem? written)
    refine ⟨source, written, ?_⟩
    exact (Scope.resolves_type bounded fits present).readsBack (fun legible => legible)
      (fun fits => fits) rfl rfl
  · exact readsBack_result bounded result present
  · obtain ⟨source, written, rfl⟩ := resolveThrown_eq_ok_iff.mp found
    exact readsBack_thrown bounded (thrown source (List.mem_of_getElem? written)) present

end Members

/-- On each of the three levels, and for every part of a member that is resolved, a result is read
back as it is. Where one is not, the dimensions of two arrays have added up. -/
theorem Scope.resolution_stays_readable {declaringText methodText fieldText : String}
    {declaring : ClassSignature} {method : MethodSignature} {field : FieldSignature}
    (readDeclaring : Nonterminal.classSignature.parse declaringText = .ok declaring)
    (readMethod : Nonterminal.methodSignature.parse methodText = .ok method)
    (readField : Nonterminal.fieldSignature.parse fieldText = .ok field) :
    declaring.scope.StaysReadable ∧ (MethodMember.mk declaring method).scope.StaysReadable ∧
      (FieldMember.mk declaring field).scope.StaysReadable ∧
        (MethodMember.mk declaring method).StaysReadable ∧
          ∀ result, (FieldMember.mk declaring field).resolve.value = some result →
            (FieldMember.mk declaring field).scope.ReadsBack field.types .referenceType result := by
  have wellFormedClass := (Nonterminal.wellFormed_of_parse readDeclaring).1
  have wellFormedMethod := (Nonterminal.wellFormed_of_parse readMethod).1
  have wellFormedField := (Nonterminal.wellFormed_of_parse readField).1
  have outer : declaring.scope.WellBounded := ClassSignature.wellBounded wellFormedClass
  have inner : (MethodMember.mk declaring method).scope.WellBounded :=
    MethodMember.wellBounded wellFormedClass wellFormedMethod
  refine ⟨outer.staysReadable, inner.staysReadable, outer.staysReadable,
    MethodMember.staysReadable inner wellFormedMethod, fun result resolved => ?_⟩
  have fits := List.forall_mem_singleton.mp (FieldSignature.fits_iff.mp wellFormedField)
  exact (resolves_reference outer (JavaType.fits_reference.mp fits) resolved).readsBack_reference

theorem Scope.resolution_stays_readable_layered :
    ∃ declaring method field, Nonterminal.classSignature.parse "<T:[I>LA;" = .ok declaring ∧
      Nonterminal.methodSignature.parse "()TT;" = .ok method ∧
        Nonterminal.fieldSignature.parse "[TT;" = .ok field ∧
          declaring.scope.StaysReadable ∧ (MethodMember.mk declaring method).scope.StaysReadable ∧
            (FieldMember.mk declaring field).scope.StaysReadable ∧
              (MethodMember.mk declaring method).StaysReadable ∧
                ∀ result, (FieldMember.mk declaring field).resolve.value = some result →
                  (FieldMember.mk declaring field).scope.ReadsBack field.types .referenceType
                    result := by
  have isName : Identifier.IsName "T" := by decide
  have element : Nonterminal.javaType.WellFormed (.ofVariable ⟨⟨"T"⟩⟩) :=
    JavaType.fits_reference.mpr (ReferenceType.fits_variable.mpr (TypeVariable.fits_iff.mpr isName))
  have ints : Nonterminal.arrayType.WellFormed ⟨.base .int⟩ :=
    ArrayType.fits_withDimensions Nat.one_pos (by decide) (JavaType.fits_base .int) rfl
  have array : Nonterminal.arrayType.WellFormed ⟨.ofVariable ⟨⟨"T"⟩⟩⟩ :=
    ArrayType.fits_withDimensions Nat.one_pos (by decide) element rfl
  have readDeclaring : Nonterminal.classSignature.parse "<T:[I>LA;" =
      .ok ⟨[⟨⟨"T"⟩, some (.array ⟨.base .int⟩), []⟩], .named "A", []⟩ := by
    refine Nonterminal.parse_of_text (by decide) (ClassSignature.fits_iff.mpr ⟨⟨?_, ?_⟩, ?_⟩)
    · exact List.forall_mem_singleton.mpr isName
    · exact List.isChain_singleton _
    · change ∀ type ∈ [JavaType.ofArray ⟨.base .int⟩, JavaType.ofClass (.named "A")],
        Nonterminal.javaType.WellFormed type
      refine List.forall_mem_cons.mpr
        ⟨JavaType.fits_reference.mpr (ReferenceType.fits_array.mpr ints), ?_⟩
      exact List.forall_mem_singleton.mpr (JavaType.fits_ofClass.mpr ClassType.fits_sample)
  have readMethod : Nonterminal.methodSignature.parse "()TT;" =
      .ok ⟨[], [], .value (.ofVariable ⟨⟨"T"⟩⟩), []⟩ := by
    refine Nonterminal.parse_of_text (by decide) (MethodSignature.fits_iff.mpr ⟨⟨?_, ?_⟩, ?_⟩)
    · exact List.forall_mem_nil _
    · exact List.isChain_nil
    · exact List.forall_mem_singleton.mpr element
  have readField : Nonterminal.fieldSignature.parse "[TT;" =
      .ok ⟨.array ⟨.ofVariable ⟨⟨"T"⟩⟩⟩⟩ :=
    Nonterminal.parse_of_text (by decide)
      (FieldSignature.fits_mk.mpr (ReferenceType.fits_array.mpr array))
  exact ⟨_, _, _, readDeclaring, readMethod, readField,
    resolution_stays_readable readDeclaring readMethod readField⟩

end GenericSignature
