import GenericSignature.Proofs.Reading.JavaType

/-! The readings of type parameters and signatures.

Next to each production stands how its nodes fit, by the parts in the order in which they are read.
-/

set_option autoImplicit false

namespace GenericSignature

variable {depth levels : Nat} {typeArguments : Parser (List TypeArgument)}

/-! ## Type parameters -/

/-- The class bound of a type parameter, if one begins here. -/
def Parser.classBound (typeArguments : Parser (List TypeArgument)) :
    Parser (Option ReferenceType) := do
  match ← peek with
  | some 'L' | some 'T' | some '[' => some <$> referenceType typeArguments
  | _ => pure none

-- What comes after the bound stands in each of the branches.
theorem Parser.classBound_bind {α : Type} (finish : Option ReferenceType → Parser α) :
    classBound typeArguments >>= finish = peek >>= fun head =>
      match head with
      | some 'L' | some 'T' | some '[' => (some <$> referenceType typeArguments) >>= finish
      | _ => (pure none) >>= finish := by
  rw [classBound, bind_assoc]
  congr 1
  funext head
  split <;> rfl

theorem Parser.typeParameter_eq :
    typeParameter typeArguments =
      (fun parts => ⟨parts.1, parts.2.2.1, parts.2.2.2⟩) <$> (identifier .typeParameter).pair
        ((expect ':' .parameterBound).pair ((classBound typeArguments).pair
          (repeatWhile (consume ':') (referenceType typeArguments)))) := by
  simp only [pair, map_eq_pure_bind, bind_assoc, pure_bind]
  -- The class bound is replaced last, so that nothing inside of its branches is rearranged.
  simp only [classBound_bind]
  rfl

def Language.classBounds (levels : Nat) : Language (Option ReferenceType) where
  chars bound := bound.elim [] ReferenceType.chars
  Admits bound := ∀ type ∈ bound, Nonterminal.referenceType.Fits levels type
  Ends bound next := bound = none → next ≠ some 'L' ∧ next ≠ some 'T' ∧ next ≠ some '['

theorem Language.admits_noBound : (classBounds levels).Admits none := by
  rintro type ⟨⟩

theorem Parser.classBound_recognizes
    (recognizes : typeArguments.Recognizes depth (TypeArgument.listLanguage levels)) :
    (classBound typeArguments).Recognizes depth (Language.classBounds levels) where
  reads bound next fits ends := by
    apply Yields.peek_bind
    cases bound with
    | none =>
      obtain ⟨noClass, noVariable, noArray⟩ := ends rfl
      have head : ((Language.classBounds levels).chars none).head?.or next = next := rfl
      rw [head]
      split
      · exact absurd rfl noClass
      · exact absurd rfl noVariable
      · exact absurd rfl noArray
      · exact yields_pure none
    | some type =>
      have reads := (referenceType_recognizes recognizes).reads type next (fits type rfl) trivial
      have chars : (Language.classBounds levels).chars (some type) = type.chars := rfl
      rw [chars]
      rcases type.head_chars with head | head | head <;>
      · rw [head]
        exact reads.map
  explains text := by
    have bounded : Meets (some <$> referenceType typeArguments) depth text
        (Language.classBounds levels).Explains := by
      rw [map_eq_pure_bind]
      apply (referenceType_recognizes recognizes).meets_return []
      · exact fun _ => rfl
      · rintro type fits _ ⟨⟩
        exact fits
      · rintro type next - ⟨⟩
    apply Meets.peek_bind
    split
    · exact bounded
    · exact bounded
    · exact bounded
    · next noClass noVariable noArray =>
      exact meets_pure ⟨rfl, Language.admits_noBound, fun _ => ⟨noClass, noVariable, noArray⟩⟩

/-- The interface bounds of a type parameter, each after a colon. -/
def Loop.bounds (levels : Nat) : Loop ReferenceType :=
  marked (Nonterminal.referenceType.language levels) ':'

theorem Loop.bounds_lawful : (bounds levels).Lawful := marked_lawful fun _ _ => trivial

theorem Parser.bounds_recognizes
    (recognizes : typeArguments.Recognizes depth (TypeArgument.listLanguage levels)) :
    (repeatWhile (consume ':') (referenceType typeArguments)).Recognizes depth
      ((Loop.bounds levels).language none) :=
  repeatWhile_recognizes Loop.marked_guardedBy Loop.bounds_lawful
    (referenceType_recognizes recognizes)

theorem TypeParameter.ends_iff (name : Identifier) (classBound : Option ReferenceType)
    (interfaceBounds : List ReferenceType) (next : Option Char) :
    Nonterminal.typeParameter.Ends ⟨name, classBound, interfaceBounds⟩ next ↔
      (Language.identifiers.pair ((Language.mark ':').pair ((Language.classBounds levels).pair
        ((Loop.bounds levels).language none)))).Ends (name, (), classBound, interfaceBounds)
          next := by
  constructor
  · intro ⟨noColon, noBound⟩
    refine ⟨?_, trivial, ?_, noColon, fun _ _ => trivial⟩
    · rintro char ⟨⟩
      decide
    · -- With an interface bound there is a second colon, which starts no class bound.
      intro (absent : classBound = none)
      cases interfaceBounds with
      | nil => exact noBound absent rfl
      | cons first rest =>
        change some ':' ≠ some 'L' ∧ some ':' ≠ some 'T' ∧ some ':' ≠ some '['
        decide
  · intro ⟨_, _, endsClass, noColon, _⟩
    refine ⟨noColon, ?_⟩
    rintro (absent : classBound = none) (none : interfaceBounds = [])
    subst none
    exact endsClass absent

theorem Parser.typeParameter_recognizes
    (recognizes : typeArguments.Recognizes depth (TypeArgument.listLanguage levels)) :
    (typeParameter typeArguments).Recognizes depth
      (Nonterminal.typeParameter.language levels) := by
  have bounds := (classBound_recognizes recognizes).pair (bounds_recognizes recognizes)
    ⟨[], Loop.admits_nil⟩
  rw [typeParameter_eq]
  refine ((identifier_recognizes _).pair ((expect_recognizes ':' _).pair bounds
    ⟨(none, []), Language.admits_noBound, Loop.admits_nil⟩)
    ⟨((), none, []), trivial, Language.admits_noBound, Loop.admits_nil⟩).map ?_ ?_ ?_ ?_
  · exact fun parameter =>
      ⟨(parameter.name, (), parameter.classBound, parameter.interfaceBounds), rfl⟩
  · intro ⟨name, _, classBound, interfaceBounds⟩
    change TypeParameter.chars _ = _ ++ (_ ++ (_ ++ (_ ++ [])))
    rw [List.append_nil]
    rfl
  · intro ⟨name, _, classBound, interfaceBounds⟩
    change Nonterminal.typeParameter.Fits levels ⟨name, classBound, interfaceBounds⟩ ↔
      Identifier.IsName name.text ∧ True ∧ (Language.classBounds levels).Admits classBound ∧
        ((Loop.bounds levels).language none).Admits interfaceBounds
    rw [TypeParameter.fits_iff, Loop.language_admits_iff _ fun _ _ => trivial, true_and]
    simp only [TypeParameter.types, List.forall_mem_map, List.forall_mem_append,
      JavaType.fits_reference, Option.mem_toList]
    rfl
  · intro ⟨name, _, classBound, interfaceBounds⟩ next
    exact TypeParameter.ends_iff name classBound interfaceBounds next

/-! ## Lists of type parameters -/

def TypeParameter.listLanguage (levels : Nat) : Language (List TypeParameter) where
  chars := enclosedChars
  Admits declared := ListLegible declared ∧
    ∀ type ∈ declared.flatMap types, Nonterminal.javaType.Fits levels type
  Ends declared next := declared = [] → next ≠ some '<'

/-- Type parameters up to the bracket that closes their list. -/
def Loop.parameters (levels : Nat) : Loop TypeParameter :=
  closed (Nonterminal.typeParameter.language levels) '>' TypeParameter.Apart

theorem Identifier.IsName.exists_head {text : String} (isName : IsName text) :
    ∃ char ∈ text.toList.head?, isNameChar char = true := by
  have nonempty : text.toList ≠ [] := fun none => isName.1 (String.toList_eq_nil_iff.mp none)
  obtain ⟨first, rest, shape⟩ := List.exists_cons_of_ne_nil nonempty
  refine ⟨first, ?_, isName.2 first ?_⟩
  · rw [shape]
    rfl
  · rw [shape]
    exact List.mem_cons_self

theorem TypeParameter.exists_head {parameter : TypeParameter}
    (isName : Identifier.IsName parameter.name.text) :
    ∃ char, parameter.name.text.toList.head? = some char ∧ parameter.chars.head? = some char ∧
      Identifier.isNameChar char = true := by
  obtain ⟨char, head, inside⟩ := isName.exists_head
  refine ⟨char, head, ?_, inside⟩
  rw [chars, List.head?_append, Option.mem_def.mp head, Option.some_or]

/-- A name begins with neither a colon nor a bracket, so only its first letter can be taken for the
start of a bound. -/
theorem TypeParameter.ends_iff_apart {first second : TypeParameter}
    (isName : Identifier.IsName second.name.text) :
    Nonterminal.typeParameter.Ends first second.chars.head? ↔ Apart first second := by
  obtain ⟨char, name, head, inside⟩ := exists_head isName
  have noColon : some char ≠ some ':' := by
    rintro ⟨⟩
    revert inside
    decide
  have noArray : some char ≠ some '[' := by
    rintro ⟨⟩
    revert inside
    decide
  rw [head, Apart, name]
  constructor
  · intro ⟨_, noBound⟩ absent none
    obtain ⟨noClass, noVariable, -⟩ := noBound absent none
    exact ⟨noClass, noVariable⟩
  · intro apart
    refine ⟨noColon, fun absent none => ?_⟩
    obtain ⟨noClass, noVariable⟩ := apart absent none
    exact ⟨noClass, noVariable, noArray⟩

/-- Type parameters in brackets may be neighbours if they are apart, with whatever bounds. -/
theorem TypeParameter.closed_lawful {item : Language TypeParameter}
    (written : item.chars = chars) (ends : item.Ends = Nonterminal.typeParameter.Ends)
    (named : ∀ parameter, item.Admits parameter → Identifier.IsName parameter.name.text) :
    (Loop.closed item '>' Apart).Lawful := by
  apply Loop.closed_lawful
  · intro parameter admits
    obtain ⟨char, -, head, inside⟩ := exists_head (named parameter admits)
    rw [written]
    refine ⟨char, head, ?_⟩
    rintro rfl
    revert inside
    decide
  · intro first second _ admits
    rw [written, ends]
    exact ends_iff_apart (named second admits)

theorem Loop.parameters_lawful : (parameters levels).Lawful :=
  TypeParameter.closed_lawful rfl rfl fun _ fits => (TypeParameter.fits_iff.mp fits).1

theorem TypeParameter.listLanguage_eq (levels : Nat) :
    listLanguage levels = (Loop.parameters levels).enclosed '<' := by
  apply Language.ext
  · funext declared
    cases declared <;> rfl
  · funext declared
    apply propext
    change (ListLegible declared ∧ ∀ type ∈ declared.flatMap types, _) ↔
      (∀ parameter ∈ declared, Nonterminal.typeParameter.Fits levels parameter) ∧
        declared.IsChain Apart
    simp only [fits_iff, forall_and, List.forall_mem_flatMap, ListLegible]
    exact and_right_comm
  · rfl

theorem Parser.typeParameters_recognizes
    (recognizes : typeArguments.Recognizes depth (TypeArgument.listLanguage levels)) :
    (typeParameters typeArguments).Recognizes depth (TypeParameter.listLanguage levels) := by
  have recognizes : (someUntil '>' (typeParameter typeArguments)).Recognizes depth
      (Loop.parameters levels).someLanguage :=
    someUntil_recognizes Loop.parameters_lawful (typeParameter_recognizes recognizes)
  rw [TypeParameter.listLanguage_eq]
  apply enclosed_recognizes recognizes
  · exact fun _ => ⟨by decide, fun _ _ => by decide⟩
  · exact fun next differs => Yields.consume_miss_bind differs (yields_pure [])
  · exact fun read next outcome yields => yields.consume_hit_bind

/-! ## Classes -/

/-- The interfaces of a class, each beginning like a class type. -/
def Loop.interfaces (levels : Nat) : Loop ClassType :=
  starting (Nonterminal.classType.language levels) 'L'

theorem Loop.interfaces_lawful : (interfaces levels).Lawful :=
  starting_lawful (fun type _ => type.head_chars) fun _ _ => trivial

theorem Parser.interfaces_recognizes
    (recognizes : typeArguments.Recognizes depth (TypeArgument.listLanguage levels)) :
    (repeatWhile ((· = some 'L') <$> peek) (classType typeArguments)).Recognizes depth
      ((Loop.interfaces levels).language none) :=
  repeatWhile_recognizes Loop.starting_guardedBy Loop.interfaces_lawful
    (classType_recognizes recognizes)

theorem Parser.classSignature_eq :
    classSignature typeArguments =
      (fun parts => ⟨parts.1, parts.2.1, parts.2.2⟩) <$> (typeParameters typeArguments).pair
        ((classType typeArguments).pair
          (repeatWhile ((· = some 'L') <$> peek) (classType typeArguments))) := by
  simp only [classSignature, pair, map_eq_pure_bind, bind_assoc, pure_bind]

theorem ClassSignature.ends_iff (typeParameters : List TypeParameter) (superclass : ClassType)
    (interfaces : List ClassType) (next : Option Char) :
    Nonterminal.classSignature.Ends ⟨typeParameters, superclass, interfaces⟩ next ↔
      ((TypeParameter.listLanguage levels).pair ((Nonterminal.classType.language levels).pair
        ((Loop.interfaces levels).language none))).Ends (typeParameters, superclass, interfaces)
          next := by
  constructor
  · intro noClass
    -- Without type parameters the superclass comes first, and it starts with no bracket.
    refine ⟨fun _ => ?_, trivial, noClass, fun _ _ => trivial⟩
    change (superclass.chars ++ _).head?.or next ≠ some '<'
    rw [List.head?_append, superclass.head_chars, Option.some_or, Option.some_or]
    decide
  · intro ⟨_, _, noClass, _⟩
    exact noClass

theorem Parser.classSignature_recognizes
    (recognizes : typeArguments.Recognizes depth (TypeArgument.listLanguage levels)) :
    (classSignature typeArguments).Recognizes depth
      (Nonterminal.classSignature.language levels) := by
  rw [classSignature_eq]
  refine ((typeParameters_recognizes recognizes).pair ((classType_recognizes recognizes).pair
    (interfaces_recognizes recognizes) ⟨[], Loop.admits_nil⟩)
    ⟨(.named "A", []), ClassType.fits_sample, Loop.admits_nil⟩).map ?_ ?_ ?_ ?_
  · exact fun signature =>
      ⟨(signature.typeParameters, signature.superclass, signature.interfaces), rfl⟩
  · intro ⟨typeParameters, superclass, interfaces⟩
    change (_ ++ _) ++ _ = _ ++ (_ ++ (_ ++ []))
    rw [List.append_nil, List.append_assoc]
    rfl
  · intro ⟨typeParameters, superclass, interfaces⟩
    change Nonterminal.classSignature.Fits levels ⟨typeParameters, superclass, interfaces⟩ ↔
      (TypeParameter.listLanguage levels).Admits typeParameters ∧
        Nonterminal.classType.Fits levels superclass ∧
          ((Loop.interfaces levels).language none).Admits interfaces
    rw [ClassSignature.fits_iff, Loop.language_admits_iff _ fun _ _ => trivial]
    simp only [ClassSignature.types, List.forall_mem_append, List.forall_mem_map,
      List.forall_mem_cons, JavaType.fits_ofClass]
    exact and_assoc.symm
  · intro ⟨typeParameters, superclass, interfaces⟩ next
    exact ClassSignature.ends_iff typeParameters superclass interfaces next

/-! ## Methods -/

theorem JavaType.head_chars (type : JavaType) :
    ∃ char ∈ type.chars.head?, char ≠ 'V' ∧ char ≠ ')' := by
  match type with
  | .base primitive =>
    refine ⟨_, rfl, ?_⟩
    cases primitive <;> decide
  | .reference type =>
    rcases type.head_chars with head | head | head <;>
    · exact ⟨_, head, by decide⟩

theorem Parser.returnType_recognizes
    (recognizes : typeArguments.Recognizes depth (TypeArgument.listLanguage levels)) :
    (returnType typeArguments).Recognizes depth (Nonterminal.returnType.language levels) where
  reads result next fits _ := by
    match result with
    | .void => exact Yields.consume_hit_bind (yields_pure _)
    | .value type =>
      have fits := ReturnType.fits_value.mp fits
      have reads := (javaType_recognizes recognizes).reads type next fits trivial
      obtain ⟨char, head, noVoid, -⟩ := type.head_chars
      apply Yields.consume_miss_bind
      · change type.chars.head?.or next ≠ some 'V'
        rw [Option.mem_def.mp head]
        exact fun same => noVoid (Option.some.inj same)
      · exact reads.bind_pure
  explains text := by
    apply Meets.consume_bind
    · rintro tail rfl
      exact meets_pure ⟨rfl, ReturnType.fits_void, trivial⟩
    · intro _
      apply (javaType_recognizes recognizes).meets_return []
      · exact fun _ => rfl
      · exact fun _ fits => ReturnType.fits_value.mpr fits
      · exact fun _ _ _ => trivial

theorem Parser.thrownType_recognizes
    (recognizes : typeArguments.Recognizes depth (TypeArgument.listLanguage levels)) :
    (thrownType typeArguments).Recognizes depth (Nonterminal.thrownType.language levels) where
  reads thrown next fits _ := by
    apply Yields.peek_bind
    match thrown with
    | .classType type =>
      have fits := ThrownType.fits_classType.mp fits
      have head : ((Nonterminal.thrownType.language levels).chars (.classType type)).head? =
          some 'L' := type.head_chars
      rw [head]
      exact ((classType_recognizes recognizes).reads type next fits trivial).bind_pure
    | .variable type =>
      have fits := ThrownType.fits_variable.mp fits
      exact ((typeVariable_recognizes levels).reads type next fits trivial).bind_pure
  explains text := by
    apply Meets.peek_bind
    split
    · apply (classType_recognizes recognizes).meets_return []
      · exact fun _ => rfl
      · exact fun _ fits => ThrownType.fits_classType.mpr fits
      · exact fun _ _ _ => trivial
    · apply (typeVariable_recognizes levels).meets_return []
      · exact fun _ => rfl
      · exact fun _ fits => ThrownType.fits_variable.mpr fits
      · exact fun _ _ _ => trivial
    · exact meets_unexpected ⟨.classType (.named "A"),
        ThrownType.fits_classType.mpr ClassType.fits_sample, List.nil_prefix⟩

/-- The parameters of a method, up to the parenthesis that closes their list. -/
def Loop.formals (levels : Nat) : Loop JavaType :=
  closed (Nonterminal.javaType.language levels) ')' fun _ _ => True

theorem Loop.formals_lawful : (formals levels).Lawful :=
  closed_lawful (fun type _ => type.head_chars.imp fun _ ⟨head, _, differs⟩ => ⟨head, differs⟩)
    fun _ _ _ _ => ⟨fun _ => trivial, fun _ => trivial⟩

/-- The thrown types of a method, each after a caret. -/
def Loop.thrown (levels : Nat) : Loop ThrownType :=
  marked (Nonterminal.thrownType.language levels) '^'

theorem Loop.thrown_lawful : (thrown levels).Lawful := marked_lawful fun _ _ => trivial

theorem Parser.formals_recognizes
    (recognizes : typeArguments.Recognizes depth (TypeArgument.listLanguage levels)) :
    (repeatUntil ')' (javaType typeArguments)).Recognizes depth
      ((Loop.formals levels).language none) :=
  repeatWhile_recognizes Loop.closed_guardedBy Loop.formals_lawful (javaType_recognizes recognizes)

theorem Parser.thrown_recognizes
    (recognizes : typeArguments.Recognizes depth (TypeArgument.listLanguage levels)) :
    (repeatWhile (consume '^') (thrownType typeArguments)).Recognizes depth
      ((Loop.thrown levels).language none) :=
  repeatWhile_recognizes Loop.marked_guardedBy Loop.thrown_lawful (thrownType_recognizes recognizes)

theorem Parser.methodSignature_eq :
    methodSignature typeArguments =
      (fun parts => ⟨parts.1, parts.2.2.1, parts.2.2.2.1, parts.2.2.2.2⟩) <$>
        (typeParameters typeArguments).pair ((expect '(' .parameterList).pair
          ((repeatUntil ')' (javaType typeArguments)).pair ((returnType typeArguments).pair
            (repeatWhile (consume '^') (thrownType typeArguments))))) := by
  simp only [methodSignature, pair, map_eq_pure_bind, bind_assoc, pure_bind]

theorem MethodSignature.ends_iff (typeParameters : List TypeParameter)
    (parameters : List JavaType) (result : ReturnType) (thrown : List ThrownType)
    (next : Option Char) :
    Nonterminal.methodSignature.Ends ⟨typeParameters, parameters, result, thrown⟩ next ↔
      ((TypeParameter.listLanguage levels).pair ((Language.mark '(').pair
        (((Loop.formals levels).language none).pair ((Nonterminal.returnType.language levels).pair
          ((Loop.thrown levels).language none))))).Ends
            (typeParameters, (), parameters, result, thrown) next := by
  constructor
  · intro noMore
    refine ⟨fun _ => ?_, trivial, ?_, trivial, noMore, fun _ _ => trivial⟩
    · change some '(' ≠ some '<'
      decide
    · exact ⟨fun stays => stays rfl, fun _ _ => trivial⟩
  · intro ⟨_, _, _, _, noMore, _⟩
    exact noMore

theorem Parser.methodSignature_recognizes
    (recognizes : typeArguments.Recognizes depth (TypeArgument.listLanguage levels)) :
    (methodSignature typeArguments).Recognizes depth
      (Nonterminal.methodSignature.language levels) := by
  have results := (returnType_recognizes recognizes).pair (thrown_recognizes recognizes)
    ⟨[], Loop.admits_nil⟩
  have formals := (formals_recognizes recognizes).pair results
    ⟨(.void, []), ReturnType.fits_void, Loop.admits_nil⟩
  rw [methodSignature_eq]
  refine ((typeParameters_recognizes recognizes).pair ((expect_recognizes '(' _).pair formals
    ⟨([], .void, []), Loop.admits_nil, ReturnType.fits_void, Loop.admits_nil⟩)
    ⟨((), [], .void, []), trivial, Loop.admits_nil, ReturnType.fits_void, Loop.admits_nil⟩).map
      ?_ ?_ ?_ ?_
  · exact fun signature => ⟨(signature.typeParameters, (), signature.parameters, signature.result,
      signature.thrown), rfl⟩
  · intro ⟨typeParameters, _, parameters, result, thrown⟩
    change MethodSignature.chars _ = TypeParameter.enclosedChars typeParameters ++ (['('] ++
      ((parameters.flatMap JavaType.chars ++ [')']) ++ (result.chars ++ (_ ++ []))))
    rw [MethodSignature.chars, List.append_nil, List.append_assoc]
    rfl
  · intro ⟨typeParameters, _, parameters, result, thrown⟩
    change Nonterminal.methodSignature.Fits levels ⟨typeParameters, parameters, result, thrown⟩ ↔
      (TypeParameter.listLanguage levels).Admits typeParameters ∧ True ∧
        ((Loop.formals levels).language none).Admits parameters ∧
          Nonterminal.returnType.Fits levels result ∧
            ((Loop.thrown levels).language none).Admits thrown
    rw [MethodSignature.fits_iff, Loop.language_admits_iff _ fun _ _ => trivial,
      Loop.language_admits_iff _ fun _ _ => trivial, ReturnType.fits_iff]
    have thrownFit : (∀ type ∈ thrown, ∀ written ∈ type.types,
        Nonterminal.javaType.Fits levels written) ↔
          ∀ type ∈ thrown, Nonterminal.thrownType.Fits levels type :=
      forall₂_congr fun _ _ => ThrownType.fits_iff.symm
    simp only [MethodSignature.types, List.forall_mem_append, List.forall_mem_flatMap, thrownFit,
      TypeParameter.listLanguage, true_and, and_assoc]
    rfl
  · intro ⟨typeParameters, _, parameters, result, thrown⟩ next
    exact MethodSignature.ends_iff typeParameters parameters result thrown next

/-! ## Fields -/

theorem Parser.fieldSignature_recognizes
    (recognizes : typeArguments.Recognizes depth (TypeArgument.listLanguage levels)) :
    (fieldSignature typeArguments).Recognizes depth
      (Nonterminal.fieldSignature.language levels) := by
  have same : fieldSignature typeArguments = FieldSignature.mk <$> referenceType typeArguments := by
    rw [fieldSignature, map_eq_pure_bind]
  rw [same]
  apply (referenceType_recognizes recognizes).map
  · exact fun signature => ⟨signature.type, rfl⟩
  · exact fun _ => rfl
  · exact fun _ => FieldSignature.fits_mk
  · exact fun _ _ => Iff.rfl

end GenericSignature
