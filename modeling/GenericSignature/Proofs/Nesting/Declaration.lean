import GenericSignature.Proofs.Nesting.JavaType

/-! Type parameters and signatures as marked texts.
-/

set_option autoImplicit false

namespace GenericSignature

variable {depth inside : Nat}

/-! ## Languages without limits -/

def Language.legibleClassBounds : Language (Option ReferenceType) where
  chars bound := bound.elim [] ReferenceType.chars
  Admits bound := ∀ type ∈ bound, type.Legible
  Ends bound next := bound = none → next ≠ some 'L' ∧ next ≠ some 'T' ∧ next ≠ some '['

def Loop.legibleBounds : Loop ReferenceType :=
  marked Nonterminal.referenceType.legibleLanguage ':'

theorem Loop.legibleBounds_lawful : legibleBounds.Lawful := marked_lawful fun _ _ => trivial

def TypeParameter.legibleLists : Language (List TypeParameter) where
  chars := enclosedChars
  Admits declared := ListLegible declared ∧ ∀ type ∈ declared.flatMap types, type.Legible
  Ends declared next := declared = [] → next ≠ some '<'

def Loop.legibleParameters : Loop TypeParameter :=
  closed Nonterminal.typeParameter.legibleLanguage '>' TypeParameter.Apart

theorem Loop.legibleParameters_lawful : legibleParameters.Lawful :=
  TypeParameter.closed_lawful rfl rfl fun _ legible => legible.1

theorem TypeParameter.legibleLists_eq : legibleLists = Loop.legibleParameters.enclosed '<' := by
  apply Language.ext
  · funext declared
    cases declared <;> rfl
  · funext declared
    apply propext
    change (ListLegible declared ∧ ∀ type ∈ declared.flatMap types, _) ↔
      (∀ parameter ∈ declared, Identifier.IsName parameter.name.text ∧
        ∀ type ∈ parameter.types, type.Legible) ∧ declared.IsChain Apart
    simp only [forall_and, List.forall_mem_flatMap, ListLegible]
    exact and_right_comm
  · rfl

def Loop.legibleInterfaces : Loop ClassType :=
  starting Nonterminal.classType.legibleLanguage 'L'

theorem Loop.legibleInterfaces_lawful : legibleInterfaces.Lawful :=
  starting_lawful (fun type _ => type.head_chars) fun _ _ => trivial

def Loop.legibleFormals : Loop JavaType :=
  closed Nonterminal.javaType.legibleLanguage ')' fun _ _ => True

theorem Loop.legibleFormals_lawful : legibleFormals.Lawful :=
  closed_lawful (fun type _ => type.head_chars.imp fun _ ⟨head, _, differs⟩ => ⟨head, differs⟩)
    fun _ _ _ _ => ⟨fun _ => trivial, fun _ => trivial⟩

def Loop.legibleThrown : Loop ThrownType :=
  marked Nonterminal.thrownType.legibleLanguage '^'

theorem Loop.legibleThrown_lawful : legibleThrown.Lawful := marked_lawful fun _ _ => trivial

section Productions

variable {typeArguments : Parser (List TypeArgument)}
  (traces : typeArguments.Traces depth TypeArgument.legibleLists
    (TypeArgument.enclosedGlyphs inside))

include traces

/-! ## Type parameters -/

theorem Parser.classBound_traces :
    (classBound typeArguments).Traces depth Language.legibleClassBounds
      fun bound => bound.elim [] (ReferenceType.glyphs 0 inside) where
  written bound := by
    cases bound with
    | none => rfl
    | some type => exact type.chars_glyphs 0 inside
  follows bound next legible ends := by
    apply Follows.peek_bind
    cases bound with
    | none =>
      obtain ⟨noClass, noVariable, noArray⟩ := ends rfl
      rw [Option.elim_none, Glyph.chars_nil, List.head?_nil, Option.none_or]
      split
      · exact absurd rfl noClass
      · exact absurd rfl noVariable
      · exact absurd rfl noArray
      · exact (yields_pure none).follows
    | some type =>
      have follows := (referenceType_traces traces).follows type next (legible type rfl) trivial
      rw [Option.elim_some, type.chars_glyphs]
      rcases type.head_chars with head | head | head <;>
      · rw [head]
        exact follows.map

theorem Parser.typeParameter_traces :
    (typeParameter typeArguments).Traces depth Nonterminal.typeParameter.legibleLanguage
      (TypeParameter.glyphs inside) := by
  have bounds : (repeatWhile (consume ':') (referenceType typeArguments)).Traces depth
      (Loop.legibleBounds.language none)
        (Loop.legibleBounds.glyphs (ReferenceType.glyphs 0 inside)) :=
    repeatWhile_traces Loop.marked_guardedBy Loop.legibleBounds_lawful (referenceType_traces traces)
  have parts := (identifier_recognizes .typeParameter).traces.pair
    ((expect_recognizes ':' .parameterBound).traces.pair ((classBound_traces traces).pair bounds))
  rw [typeParameter_eq]
  apply parts.map
  · exact fun parameter =>
      ⟨(parameter.name, (), parameter.classBound, parameter.interfaceBounds), rfl⟩
  · exact TypeParameter.chars_glyphs inside
  · intro ⟨name, _, classBound, interfaceBounds⟩
    change TypeParameter.glyphs inside _ = _ ++ ([.plain ':'] ++ (_ ++ (_ ++ [])))
    rw [List.append_nil]
    rfl
  · intro ⟨name, _, classBound, interfaceBounds⟩ ⟨isName, legible⟩
    simp only [TypeParameter.types, List.forall_mem_map, List.forall_mem_append,
      Option.mem_toList] at legible
    refine ⟨isName, trivial, legible.1, ?_⟩
    exact (Loop.legibleBounds.language_admits_iff fun _ _ => trivial).mpr legible.2
  · exact fun ⟨name, _, classBound, interfaceBounds⟩ next =>
      (@TypeParameter.ends_iff 0 name classBound interfaceBounds next).mp

theorem Parser.typeParameters_traces :
    (typeParameters typeArguments).Traces depth TypeParameter.legibleLists
      (TypeParameter.enclosedGlyphs inside) := by
  have body : (someUntil '>' (typeParameter typeArguments)).Traces depth
      Loop.legibleParameters.someLanguage
        (Loop.legibleParameters.glyphs (TypeParameter.glyphs inside)) :=
    someUntil_traces Loop.legibleParameters_lawful (typeParameter_traces traces)
  have opening : (Glyph.plain '<').limit? = none := rfl
  rw [TypeParameter.legibleLists_eq]
  apply enclosed_traces body (fun _ => ⟨by decide, fun _ _ => by decide⟩) opening
  · rfl
  · intro declared nonempty
    obtain ⟨first, rest, rfl⟩ := List.exists_cons_of_ne_nil nonempty
    rfl
  · exact fun next differs => Yields.consume_miss_bind differs (yields_pure [])
  · exact fun read next outcome yields => yields.consume_hit_bind

/-! ## Signatures -/

theorem Parser.classSignature_traces :
    (classSignature typeArguments).Traces depth Nonterminal.classSignature.legibleLanguage
      (ClassSignature.glyphs inside) := by
  have interfaces : (repeatWhile ((· = some 'L') <$> peek) (classType typeArguments)).Traces depth
      (Loop.legibleInterfaces.language none)
        (Loop.legibleInterfaces.glyphs (ClassType.glyphs inside)) :=
    repeatWhile_traces Loop.starting_guardedBy Loop.legibleInterfaces_lawful
      (classType_traces traces)
  have parts := (typeParameters_traces traces).pair ((classType_traces traces).pair interfaces)
  rw [classSignature_eq]
  apply parts.map
  · exact fun signature =>
      ⟨(signature.typeParameters, signature.superclass, signature.interfaces), rfl⟩
  · exact ClassSignature.chars_glyphs inside
  · intro ⟨typeParameters, superclass, interfaces⟩
    change ClassSignature.glyphs inside _ = _ ++ (_ ++ (_ ++ []))
    rw [List.append_nil]
    rfl
  · intro ⟨typeParameters, superclass, interfaces⟩ ⟨named, legible⟩
    simp only [ClassSignature.types, List.forall_mem_append, List.forall_mem_map,
      List.forall_mem_cons] at legible
    obtain ⟨bounds, superclassLegible, interfacesLegible⟩ := legible
    refine ⟨⟨named, bounds⟩, superclassLegible, ?_⟩
    exact (Loop.legibleInterfaces.language_admits_iff fun _ _ => trivial).mpr interfacesLegible
  · exact fun ⟨typeParameters, superclass, interfaces⟩ next =>
      (@ClassSignature.ends_iff 0 typeParameters superclass interfaces next).mp

theorem Parser.returnType_traces :
    (returnType typeArguments).Traces depth Nonterminal.returnType.legibleLanguage
      (ReturnType.glyphs inside) where
  written := ReturnType.chars_glyphs inside
  follows result next legible _ := by
    match result with
    | .void =>
      have yields : (returnType typeArguments).Yields depth ['V'] next (.ok .void) :=
        Yields.consume_hit_bind (yields_pure _)
      exact yields.follows
    | .value type =>
      have legible := List.forall_mem_singleton.mp legible
      obtain ⟨char, head, noVoid, -⟩ := type.head_chars
      have differs : (Glyph.chars (type.glyphs 0 inside)).head?.or next ≠ some 'V' := by
        rw [type.chars_glyphs, Option.mem_def.mp head]
        exact fun same => noVoid (Option.some.inj same)
      have noLetter : (consume 'V').Follows depth [] _ false :=
        (yields_consume_miss differs).follows
      exact noLetter.bind ((javaType_traces traces).follows type next legible trivial).bind_pure

theorem Parser.thrownType_traces :
    (thrownType typeArguments).Traces depth Nonterminal.thrownType.legibleLanguage
      (ThrownType.glyphs inside) where
  written := ThrownType.chars_glyphs inside
  follows thrown next legible _ := by
    have legible := List.forall_mem_singleton.mp legible
    apply Follows.peek_bind
    rw [ThrownType.chars_glyphs]
    match thrown with
    | .classType type =>
      have head : (ThrownType.classType type).chars.head? = some 'L' := type.head_chars
      rw [head]
      exact ((classType_traces traces).follows type next legible trivial).bind_pure
    | .variable type => exact (typeVariable_traces.follows type next legible trivial).bind_pure

theorem Parser.methodSignature_traces :
    (methodSignature typeArguments).Traces depth Nonterminal.methodSignature.legibleLanguage
      (MethodSignature.glyphs inside) := by
  have formals : (repeatUntil ')' (javaType typeArguments)).Traces depth
      (Loop.legibleFormals.language none) (Loop.legibleFormals.glyphs (JavaType.glyphs 0 inside)) :=
    repeatWhile_traces Loop.closed_guardedBy Loop.legibleFormals_lawful (javaType_traces traces)
  have thrown : (repeatWhile (consume '^') (thrownType typeArguments)).Traces depth
      (Loop.legibleThrown.language none) (Loop.legibleThrown.glyphs (ThrownType.glyphs inside)) :=
    repeatWhile_traces Loop.marked_guardedBy Loop.legibleThrown_lawful (thrownType_traces traces)
  have parts := (typeParameters_traces traces).pair
    ((expect_recognizes '(' .parameterList).traces.pair
      (formals.pair ((returnType_traces traces).pair thrown)))
  rw [methodSignature_eq]
  apply parts.map
  · exact fun signature => ⟨(signature.typeParameters, (), signature.parameters, signature.result,
      signature.thrown), rfl⟩
  · exact MethodSignature.chars_glyphs inside
  · intro ⟨typeParameters, _, parameters, result, thrown⟩
    change MethodSignature.glyphs inside _ = _ ++ ([.plain '('] ++
      ((parameters.flatMap (JavaType.glyphs 0 inside) ++ [.plain ')']) ++ (_ ++ (_ ++ []))))
    rw [List.append_nil, List.append_assoc]
    rfl
  · intro ⟨typeParameters, _, parameters, result, thrown⟩ ⟨named, legible⟩
    simp only [MethodSignature.types, List.forall_mem_append] at legible
    obtain ⟨⟨⟨bounds, parametersLegible⟩, resultLegible⟩, thrownLegible⟩ := legible
    refine ⟨⟨named, bounds⟩, trivial, ?_, resultLegible, ?_⟩
    · exact (Loop.legibleFormals.language_admits_iff fun _ _ => trivial).mpr parametersLegible
    · exact (Loop.legibleThrown.language_admits_iff fun _ _ => trivial).mpr
        (List.forall_mem_flatMap.mp thrownLegible)
  · exact fun ⟨typeParameters, _, parameters, result, thrown⟩ next =>
      (@MethodSignature.ends_iff 0 typeParameters parameters result thrown next).mp

theorem Parser.fieldSignature_traces :
    (fieldSignature typeArguments).Traces depth Nonterminal.fieldSignature.legibleLanguage
      (FieldSignature.glyphs inside) where
  written signature := signature.type.chars_glyphs 0 inside
  follows signature next legible _ := by
    have legible := List.forall_mem_singleton.mp legible
    exact ((referenceType_traces traces).follows signature.type next legible trivial).bind_pure

theorem Nonterminal.productionWith_traces (symbol : Nonterminal) :
    (symbol.productionWith typeArguments).Traces depth symbol.legibleLanguage
      (symbol.glyphs inside) := by
  cases symbol with
  | javaType => exact Parser.javaType_traces traces
  | referenceType => exact Parser.referenceType_traces traces
  | classType => exact Parser.classType_traces traces
  | simpleClassType => exact Parser.simpleClassType_traces traces
  | arrayType => exact Parser.arrayType_traces traces
  | typeVariable => exact Parser.typeVariable_traces
  | typeArgument => exact Parser.typeArgument_traces traces
  | typeParameter => exact Parser.typeParameter_traces traces
  | classSignature => exact Parser.classSignature_traces traces
  | methodSignature => exact Parser.methodSignature_traces traces
  | fieldSignature => exact Parser.fieldSignature_traces traces
  | returnType => exact Parser.returnType_traces traces
  | thrownType => exact Parser.thrownType_traces traces

end Productions

theorem Nonterminal.production_traces (symbol : Nonterminal) :
    symbol.production.Traces 0 symbol.legibleLanguage (symbol.glyphs 0) :=
  productionWith_traces (Parser.typeArguments_traces (Nat.zero_le _)) symbol

end GenericSignature
