import GenericSignature.Proofs.Fitting
import GenericSignature.Proofs.Reading.Name

/-! The readings of types.

Each production is taken apart in the order in which it reads. Where it can stop early, the text is
completed by the shortest parts that the grammar has.
-/

set_option autoImplicit false

namespace GenericSignature

/-- What may follow the text of a node without being read as a part of it. -/
def Nonterminal.Ends : (symbol : Nonterminal) → symbol.Node → Option Char → Prop
  | .simpleClassType => fun type next =>
    type.arguments = [] → next ≠ some '<' ∧ ∀ char ∈ next, Identifier.isNameChar char = false
  | .typeParameter => fun parameter next =>
    next ≠ some ':' ∧ (parameter.classBound = none → parameter.interfaceBounds = [] →
      next ≠ some 'L' ∧ next ≠ some 'T' ∧ next ≠ some '[')
  | .classSignature => fun _ next => next ≠ some 'L'
  | .methodSignature => fun _ next => next ≠ some '^'
  | _ => fun _ _ => True

def Nonterminal.language (symbol : Nonterminal) (levels : Nat) : Language symbol.Node where
  chars := symbol.chars
  Admits := symbol.Fits levels
  Ends := symbol.Ends

def TypeArgument.listLanguage (levels : Nat) : Language (List TypeArgument) where
  chars := enclosedChars
  Admits := ListFits levels
  Ends arguments next := arguments = [] → next ≠ some '<'

variable {depth levels : Nat}

/-! ## Samples -/

theorem TypeArgument.listFits_nil : ListFits levels [] := List.forall_mem_nil _

theorem ClassType.fits_named {binaryName : String} (isName : IsBinaryName binaryName) :
    Nonterminal.classType.Fits levels (named binaryName) :=
  fits_iff.mpr ⟨isName, TypeArgument.listFits_nil, List.forall_mem_nil _⟩

theorem ClassType.fits_sample : Nonterminal.classType.Fits levels (named "A") :=
  fits_named ⟨["A"], List.cons_ne_nil _ _, by simpa using Identifier.isName_sample, rfl⟩

/-! ## Type variables -/

theorem Parser.typeVariable_eq :
    typeVariable = (fun parts => ⟨parts.2.1⟩) <$> (expect 'T' .typeVariable).pair
      ((identifier .typeVariable).pair (expect ';' .typeVariableEnd)) := by
  simp only [typeVariable, pair, map_eq_pure_bind, bind_assoc, pure_bind]

theorem Parser.typeVariable_recognizes (levels : Nat) :
    typeVariable.Recognizes depth (Nonterminal.typeVariable.language levels) := by
  rw [typeVariable_eq]
  refine ((expect_recognizes 'T' _).pair ((identifier_recognizes _).pair (expect_recognizes ';' _)
    ⟨(), trivial⟩) ⟨(⟨"A"⟩, ()), Identifier.isName_sample, trivial⟩).map ?_ ?_ ?_ ?_
  · exact fun type => ⟨((), type.name, ()), rfl⟩
  · exact fun _ => rfl
  · intro ⟨_, name, _⟩
    exact TypeVariable.fits_iff.trans
      ⟨fun isName => ⟨trivial, isName, trivial⟩, fun admits => admits.2.1⟩
  · intro ⟨_, name, _⟩ next
    refine ⟨fun _ => ⟨trivial, ?_, trivial⟩, fun _ => trivial⟩
    rintro char ⟨⟩
    decide

section Productions

variable {typeArguments : Parser (List TypeArgument)}

/-! ## Class types -/

theorem TypeArgument.head_enclosedChars {arguments : List TypeArgument}
    (nonempty : arguments ≠ []) :
    (enclosedChars arguments).head? = some '<' := by
  obtain ⟨first, rest, rfl⟩ := List.exists_cons_of_ne_nil nonempty
  rfl

theorem Parser.simpleClassType_eq :
    simpleClassType typeArguments =
      (fun parts => ⟨parts.1, parts.2⟩) <$> (identifier .nestedClass).pair typeArguments := by
  simp only [simpleClassType, pair, map_eq_pure_bind, bind_assoc, pure_bind]

/-- A nested class ends where its name and then its arguments end. -/
theorem SimpleClassType.ends_iff (name : Identifier) (arguments : List TypeArgument)
    (next : Option Char) :
    Nonterminal.simpleClassType.Ends ⟨name, arguments⟩ next ↔
      Language.identifiers.Ends name ((TypeArgument.enclosedChars arguments).head?.or next) ∧
        (arguments = [] → next ≠ some '<') := by
  constructor
  · intro ends
    refine ⟨?_, fun absent => (ends absent).1⟩
    by_cases absent : arguments = []
    · subst absent
      exact (ends rfl).2
    · rw [TypeArgument.head_enclosedChars absent]
      rintro char ⟨⟩
      decide
  · rintro ⟨endsName, endsArguments⟩ (absent : arguments = [])
    subst absent
    exact ⟨endsArguments rfl, endsName⟩

theorem SimpleClassType.ends_period (type : SimpleClassType) :
    Nonterminal.simpleClassType.Ends type (some '.') := by
  intro _
  refine ⟨by decide, ?_⟩
  rintro char ⟨⟩
  decide

theorem Parser.simpleClassType_recognizes
    (recognizes : typeArguments.Recognizes depth (TypeArgument.listLanguage levels)) :
    (simpleClassType typeArguments).Recognizes depth
      (Nonterminal.simpleClassType.language levels) := by
  have parts := (identifier_recognizes .nestedClass).pair recognizes
    ⟨[], TypeArgument.listFits_nil⟩
  rw [simpleClassType_eq]
  apply parts.map
  · intro ⟨name, arguments⟩
    exact ⟨(name, arguments), rfl⟩
  · exact fun _ => rfl
  · exact fun _ => SimpleClassType.fits_iff
  · exact fun parts next => SimpleClassType.ends_iff parts.1 parts.2 next

/-- The nested classes of a class type, each after a period. -/
def Loop.nested (levels : Nat) : Loop SimpleClassType :=
  marked (Nonterminal.simpleClassType.language levels) '.'

theorem Loop.nested_lawful : (nested levels).Lawful :=
  marked_lawful fun type _ => type.ends_period

theorem SimpleClassType.selectedChars_eq (nested : List SimpleClassType) :
    selectedChars nested = (Loop.nested levels).chars nested := by
  induction nested with
  | nil => rfl
  | cons first rest ih =>
    rw [Loop.chars_cons, ← ih]
    rfl

theorem Parser.nested_recognizes
    (recognizes : typeArguments.Recognizes depth (TypeArgument.listLanguage levels)) :
    (repeatWhile (consume '.') (simpleClassType typeArguments)).Recognizes depth
      ((Loop.nested levels).language none) :=
  repeatWhile_recognizes Loop.marked_guardedBy Loop.nested_lawful
    (simpleClassType_recognizes recognizes)

/-- After the arguments of its outermost class, a class type goes on or ends. -/
theorem Loop.head_nested (nested : List SimpleClassType) :
    ((Loop.nested levels).chars nested ++ [';']).head? = some '.' ∨
      ((Loop.nested levels).chars nested ++ [';']).head? = some ';' := by
  cases nested with
  | nil => exact .inr rfl
  | cons first rest => exact .inl rfl

theorem ClassType.ends_binaryName {binaryName : String} (arguments : List TypeArgument)
    (nested : List SimpleClassType) (next : Option Char) :
    Language.binaryNames.Ends binaryName ((TypeArgument.enclosedChars arguments ++
      ((Loop.nested levels).chars nested ++ [';'])).head?.or next) := by
  by_cases absent : arguments = []
  · rw [absent]
    rcases Loop.head_nested nested with head | head <;>
    · change ∀ char ∈ ((Loop.nested levels).chars nested ++ [';']).head?.or next, _
      rw [head]
      rintro char ⟨⟩
      decide
  · rw [List.head?_append, TypeArgument.head_enclosedChars absent]
    rintro char ⟨⟩
    decide

/-- Every part of a class type ends at a character that it cannot take, whatever follows the whole
type. -/
theorem ClassType.ends_parts (binaryName : String) (arguments : List TypeArgument)
    (nested : List SimpleClassType) (next : Option Char) :
    ((Language.mark 'L').pair (Language.binaryNames.pair ((TypeArgument.listLanguage levels).pair
      (((Loop.nested levels).language none).pair (Language.mark ';'))))).Ends
        ((), binaryName, arguments, nested, ()) next := by
  refine ⟨trivial, ?_, ?_, ?_, trivial⟩
  · exact ends_binaryName arguments nested next
  · intro _
    change ((Loop.nested levels).chars nested ++ [';']).head?.or next ≠ some '<'
    rcases Loop.head_nested nested with head | head <;>
    · rw [head, Option.some_or]
      decide
  · refine ⟨fun period => ?_, fun last _ _ => ⟨fun bracket => ?_, ?_⟩⟩
    · cases period
    · cases bracket
    · rintro char ⟨⟩
      decide

theorem Parser.classType_eq :
    classType typeArguments =
      (fun parts => ⟨parts.2.1, parts.2.2.1, parts.2.2.2.1⟩) <$> (expect 'L' .classType).pair
        (binaryName.pair (typeArguments.pair
          ((repeatWhile (consume '.') (simpleClassType typeArguments)).pair
            (expect ';' .classTypeEnd)))) := by
  simp only [classType, pair, map_eq_pure_bind, bind_assoc, pure_bind]

theorem Parser.classType_recognizes
    (recognizes : typeArguments.Recognizes depth (TypeArgument.listLanguage levels)) :
    (classType typeArguments).Recognizes depth (Nonterminal.classType.language levels) := by
  have ending := (nested_recognizes recognizes).pair (expect_recognizes ';' .classTypeEnd)
    ⟨(), trivial⟩
  have arguments := recognizes.pair ending ⟨([], ()), Loop.admits_nil, trivial⟩
  have named := binaryName_recognizes.pair arguments
    ⟨([], [], ()), TypeArgument.listFits_nil, Loop.admits_nil, trivial⟩
  have parts := (expect_recognizes 'L' .classType).pair named
    ⟨("A", [], [], ()),
      ClassType.isBinaryName_cons Identifier.isName_sample (List.forall_mem_nil _),
      TypeArgument.listFits_nil, Loop.admits_nil, trivial⟩
  rw [classType_eq]
  apply parts.map
  · intro ⟨binaryName, arguments, nested⟩
    exact ⟨((), binaryName, arguments, nested, ()), rfl⟩
  · intro ⟨_, binaryName, arguments, nested, _⟩
    change ClassType.chars ⟨binaryName, arguments, nested⟩ = ['L'] ++ (binaryName.toList ++
      (TypeArgument.enclosedChars arguments ++ ((Loop.nested levels).chars nested ++ [';'])))
    rw [← SimpleClassType.selectedChars_eq]
    simp [ClassType.chars]
  · intro ⟨_, binaryName, arguments, nested, _⟩
    change Nonterminal.classType.Fits levels ⟨binaryName, arguments, nested⟩ ↔
      True ∧ ClassType.IsBinaryName binaryName ∧ TypeArgument.ListFits levels arguments ∧
        ((Loop.nested levels).language none).Admits nested ∧ True
    rw [ClassType.fits_iff, (Loop.nested levels).language_admits_iff fun _ _ => trivial, true_and,
      and_true]
    rfl
  · intro ⟨_, binaryName, arguments, nested, _⟩ next
    exact ⟨fun _ => ClassType.ends_parts binaryName arguments nested next, fun _ => trivial⟩

/-! ## Types without array layers, and primitive types -/

def Language.namedTypes (levels : Nat) : Language ReferenceType where
  chars := ReferenceType.chars
  Admits type := Nonterminal.referenceType.Fits levels type ∧
    (JavaType.reference type).isArray = false
  Ends _ _ := True

theorem ClassType.head_chars (type : ClassType) : type.chars.head? = some 'L' := by
  obtain ⟨binaryName, arguments, nested⟩ := type
  rfl

theorem Parser.namedType_recognizes
    (recognizes : typeArguments.Recognizes depth (TypeArgument.listLanguage levels)) :
    (namedType typeArguments).Recognizes depth (Language.namedTypes levels) where
  reads type next fits _ := by
    apply Yields.peek_bind
    match type, fits with
    | .classType type, ⟨fits, _⟩ =>
      have fits := ReferenceType.fits_classType.mp fits
      have head : ((Language.namedTypes levels).chars (.classType type)).head? = some 'L' :=
        type.head_chars
      rw [head]
      exact ((classType_recognizes recognizes).reads type next fits trivial).bind_pure
    | .variable type, ⟨fits, _⟩ =>
      have fits := ReferenceType.fits_variable.mp fits
      exact ((typeVariable_recognizes levels).reads type next fits trivial).bind_pure
  explains text := by
    apply Meets.peek_bind
    split
    · apply (classType_recognizes recognizes).meets_return []
      · exact fun _ => rfl
      · exact fun _ fits => ⟨ReferenceType.fits_classType.mpr fits, rfl⟩
      · exact fun _ _ _ => trivial
    · apply (typeVariable_recognizes levels).meets_return []
      · exact fun _ => rfl
      · exact fun _ fits => ⟨ReferenceType.fits_variable.mpr fits, rfl⟩
      · exact fun _ _ _ => trivial
    · exact meets_unexpected ⟨.classType (.named "A"),
        ⟨ReferenceType.fits_classType.mpr ClassType.fits_sample, rfl⟩, List.nil_prefix⟩

theorem ReferenceType.head_chars (type : ReferenceType) :
    type.chars.head? = some 'L' ∨ type.chars.head? = some 'T' ∨ type.chars.head? = some '[' := by
  match type with
  | .classType type => exact .inl type.head_chars
  | .variable type => exact .inr (.inl rfl)
  | .array ⟨component⟩ => exact .inr (.inr rfl)

/-- The primitive types, and the given reference types. -/
def Language.orPrimitive (references : Language ReferenceType) : Language JavaType where
  chars
    | .base type => [type.descriptor]
    | .reference type => references.chars type
  Admits
    | .base _ => True
    | .reference type => references.Admits type
  Ends
    | .base _, _ => True
    | .reference type, next => references.Ends type next

theorem BaseType.utf8Size_descriptor (type : BaseType) : type.descriptor.utf8Size = 1 := by
  cases type <;> rfl

/-- No reference type begins like a primitive type. -/
theorem ReferenceType.head_not_primitive (type : ReferenceType) (next : Option Char) :
    (type.chars.head?.or next).bind BaseType.ofDescriptor? = none := by
  rcases type.head_chars with head | head | head <;>
  · rw [head]
    rfl

theorem Parser.primitiveOr_yields_base {reference : Parser ReferenceType} {next : Option Char}
    (type : BaseType) :
    (primitiveOr reference).Yields depth [type.descriptor] next (.ok (.base type)) := by
  have found : BaseType.ofDescriptor? type.descriptor = some type :=
    BaseType.ofDescriptor?_eq_some_iff.mpr rfl
  have size : Text.byteLength [type.descriptor] = 1 := by
    rw [Text.byteLength_cons, type.utf8Size_descriptor, Text.byteLength_nil]
  apply Yields.peek_bind
  rw [List.head?_cons, Option.some_or, Option.bind_some, found]
  exact (yields_skip size).bind_pure

theorem Parser.primitiveOr_recognizes {reference : Parser ReferenceType}
    {references : Language ReferenceType} (recognizes : reference.Recognizes depth references)
    (written : references.chars = ReferenceType.chars) :
    (primitiveOr reference).Recognizes depth (Language.orPrimitive references) where
  reads type next fits ends := by
    cases type with
    | base type => exact primitiveOr_yields_base type
    | reference type =>
      have none : (((Language.orPrimitive references).chars (.reference type)).head?.or next).bind
          BaseType.ofDescriptor? = none := by
        change ((references.chars type).head?.or next).bind BaseType.ofDescriptor? = none
        rw [written]
        exact type.head_not_primitive next
      apply Yields.peek_bind
      rw [none]
      exact (recognizes.reads type next fits ends).bind_pure
  explains text := by
    apply Meets.peek_bind
    split
    · next type found =>
      obtain ⟨letter, head, descriptor⟩ := Option.bind_eq_some_iff.mp found
      obtain ⟨tail, rfl⟩ := List.head?_eq_some_iff.mp head
      have same := BaseType.ofDescriptor?_eq_some_iff.mp descriptor
      subst same
      apply Meets.skip_char_bind type.utf8Size_descriptor
      exact meets_pure ⟨rfl, trivial, trivial⟩
    · apply recognizes.meets_return []
      · exact fun _ => rfl
      · exact fun _ admits => admits
      · exact fun _ _ ends => ends

/-! ## Arrays -/

/-- The elements of arrays. -/
def Language.elements (levels : Nat) : Language JavaType where
  chars := JavaType.chars
  Admits type := Nonterminal.javaType.Fits levels type ∧ type.isArray = false
  Ends _ _ := True

theorem Language.orPrimitive_namedTypes : orPrimitive (namedTypes levels) = elements levels := by
  apply Language.ext
  · funext type
    match type with
    | .base _ => rfl
    | .reference _ => rfl
  · funext type
    match type with
    | .base type => simp [orPrimitive, elements, JavaType.fits_base, JavaType.isArray]
    | .reference type => simp [orPrimitive, elements, namedTypes, JavaType.fits_reference]
  · funext type next
    match type with
    | .base _ => rfl
    | .reference _ => rfl

theorem Parser.element_recognizes
    (recognizes : typeArguments.Recognizes depth (TypeArgument.listLanguage levels)) :
    (primitiveOr (namedType typeArguments)).Recognizes depth (Language.elements levels) := by
  rw [← Language.orPrimitive_namedTypes]
  exact primitiveOr_recognizes (namedType_recognizes recognizes) rfl

-- The brackets that are counted are exactly those in front of the element.
theorem JavaType.head_element {type : JavaType} (plain : type.isArray = false)
    (next : Option Char) :
    ∀ char ∈ type.chars.head?.or next, char ≠ '[' := by
  match type with
  | .base primitive =>
    rintro char ⟨⟩
    cases primitive <;> decide
  | .reference (.classType type) =>
    change ∀ char ∈ type.chars.head?.or next, char ≠ '['
    rw [type.head_chars]
    rintro char ⟨⟩
    decide
  | .reference (.variable type) =>
    rintro char ⟨⟩
    decide

theorem Text.byteLength_replicate_bracket (count : Nat) :
    byteLength (List.replicate count '[') = count := by
  induction count with
  | zero => rfl
  | succ count ih =>
    rw [List.replicate_succ, byteLength_cons, ih, Nat.add_comm]
    rfl

theorem ArrayType.fits_withDimensions {element : JavaType} {dimensions : Nat}
    (positive : 0 < dimensions) (bounded : dimensions ≤ maxDimensions)
    (fits : Nonterminal.javaType.Fits levels element) (plain : element.isArray = false) :
    Nonterminal.arrayType.Fits levels (withDimensions element dimensions positive) := by
  apply fits_iff.mpr
  rw [dimensions_withDimensions, element_withDimensions, JavaType.layers_of_not_isArray plain,
    JavaType.innermost_of_not_isArray plain]
  exact ⟨bounded, fits⟩

theorem Parser.arrayType_yields
    (recognizes : typeArguments.Recognizes depth (TypeArgument.listLanguage levels))
    {array : ArrayType} (fits : Nonterminal.arrayType.Fits levels array) (next : Option Char) :
    (arrayType typeArguments).Yields depth array.chars next (.ok array) := by
  obtain ⟨bounded, fits⟩ := ArrayType.fits_iff.mp fits
  have plain := array.element_not_isArray
  have yieldsElement := (element_recognizes recognizes).reads array.element next ⟨fits, plain⟩
    trivial
  have rebuilt : (primitiveOr (namedType typeArguments) >>= fun element => pure
      (ArrayType.withDimensions element array.dimensions array.dimensions_pos)).Yields depth
        array.element.chars next
        (.ok (.withDimensions array.element array.dimensions array.dimensions_pos)) :=
    yieldsElement.bind_pure
  rw [array.withDimensions_element] at rebuilt
  rw [ArrayType.chars_eq_strippedChars]
  apply Yields.countAhead_exactly_bind (JavaType.head_element plain next)
  rw [dif_pos array.dimensions_pos, if_pos bounded]
  exact Yields.skip_bind (Text.byteLength_replicate_bracket array.dimensions) rebuilt

section Brackets

variable {count : Nat} {tail : List Char}

theorem Parser.arrayType_meets_none (ends : ∀ char ∈ tail.head?, char ≠ '[') :
    (arrayType typeArguments).Meets depth tail
      (Nonterminal.arrayType.language levels).Explains := by
  have ends : ∀ char ∈ [].head?.or tail.head?, char ≠ '[' := ends
  have yields : (arrayType typeArguments).Yields depth (List.replicate 0 '[' ++ []) tail.head?
      (.error (.unexpected .arrayType tail.head?)) := by
    apply Yields.countAhead_exactly_bind ends
    exact yields_unexpected .arrayType
  exact ⟨[], tail, _, rfl, yields, .withDimensions (.base .int) 1 Nat.one_pos,
    ArrayType.fits_withDimensions Nat.one_pos (by decide) (JavaType.fits_base .int) rfl,
    List.nil_prefix⟩

theorem Parser.arrayType_meets_some
    (recognizes : typeArguments.Recognizes depth (TypeArgument.listLanguage levels))
    (positive : 0 < count) (bounded : count ≤ ArrayType.maxDimensions)
    (ends : ∀ char ∈ tail.head?, char ≠ '[') :
    (arrayType typeArguments).Meets depth (List.replicate count '[' ++ tail)
      (Nonterminal.arrayType.language levels).Explains := by
  have whole : Meets (primitiveOr (namedType typeArguments) >>= fun element =>
      pure (ArrayType.withDimensions element count positive)) depth tail fun read =>
        (Nonterminal.arrayType.language levels).Explains (List.replicate count '[' ++ read) :=
    (element_recognizes recognizes).meets_return _
      (fun _ => ArrayType.chars_withDimensions)
      (fun _ admits => ArrayType.fits_withDimensions positive bounded admits.1 admits.2)
      (fun _ _ _ => trivial)
  obtain ⟨read, rest, outcome, rfl, yields, explained⟩ := whole
  rw [List.head?_append] at ends
  refine ⟨List.replicate count '[' ++ read, rest, outcome, (List.append_assoc _ _ _).symm, ?_,
    explained⟩
  apply Yields.countAhead_exactly_bind ends
  rw [dif_pos positive, if_pos bounded]
  exact Yields.skip_bind (Text.byteLength_replicate_bracket count) yields

/-- The first bracket too many is refused however many more there are. -/
theorem Parser.arrayType_yields_excess :
    (arrayType typeArguments).Yields depth (List.replicate ArrayType.maxDimensions '[') (some '[')
      (.error (.nestedTooDeeply ArrayType.maxDimensions)) := by
  apply Yields.countAhead_more_bind
  intro more larger
  rw [dif_pos (Nat.zero_lt_of_lt larger), if_neg (Nat.not_le_of_lt larger)]
  exact yields_skip_fail (Text.byteLength_replicate_bracket _)

theorem Parser.arrayType_meets_excess (exceeds : ArrayType.maxDimensions < count) :
    (arrayType typeArguments).Meets depth (List.replicate count '[' ++ tail)
      (Nonterminal.arrayType.language levels).Explains := by
  obtain ⟨extra, rfl⟩ := Nat.exists_eq_add_of_lt exceeds
  refine ⟨List.replicate ArrayType.maxDimensions '[', List.replicate (extra + 1) '[' ++ tail,
    .error (.nestedTooDeeply ArrayType.maxDimensions), ?_, arrayType_yields_excess,
    .withDimensions (.base .int) ArrayType.maxDimensions (by decide), ?_, ?_⟩
  · rw [← List.append_assoc, List.replicate_append_replicate]
    rfl
  · exact ArrayType.fits_withDimensions _ (Nat.le_refl _) (JavaType.fits_base .int) rfl
  · change _ <+: ArrayType.chars _
    rw [ArrayType.chars_withDimensions]
    exact List.prefix_append _ _

end Brackets

theorem Parser.arrayType_recognizes
    (recognizes : typeArguments.Recognizes depth (TypeArgument.listLanguage levels)) :
    (arrayType typeArguments).Recognizes depth (Nonterminal.arrayType.language levels) where
  reads _ next fits _ := arrayType_yields recognizes fits next
  explains text := by
    obtain ⟨count, tail, rfl, ends⟩ := Text.exists_replicate '[' text
    rcases Nat.eq_zero_or_pos count with rfl | positive
    · exact arrayType_meets_none ends
    · by_cases bounded : count ≤ ArrayType.maxDimensions
      · exact arrayType_meets_some recognizes positive bounded ends
      · exact arrayType_meets_excess (Nat.lt_of_not_le bounded)

/-! ## All types -/

theorem Parser.referenceType_recognizes
    (recognizes : typeArguments.Recognizes depth (TypeArgument.listLanguage levels)) :
    (referenceType typeArguments).Recognizes depth (Nonterminal.referenceType.language levels) where
  reads type next fits _ := by
    apply Yields.peek_bind
    match type with
    | .array ⟨component⟩ =>
      have fits := ReferenceType.fits_array.mp fits
      exact ((arrayType_recognizes recognizes).reads ⟨component⟩ next fits trivial).bind_pure
    | .classType type =>
      have head : ((Nonterminal.referenceType.language levels).chars (.classType type)).head? =
          some 'L' := type.head_chars
      rw [head, Option.some_or, if_neg (by decide)]
      exact (namedType_recognizes recognizes).reads (.classType type) next ⟨fits, rfl⟩ trivial
    | .variable type =>
      exact (namedType_recognizes recognizes).reads (.variable type) next ⟨fits, rfl⟩ trivial
  explains text := by
    apply Meets.peek_bind
    split
    · apply (arrayType_recognizes recognizes).meets_return []
      · exact fun _ => rfl
      · exact fun _ fits => ReferenceType.fits_array.mpr fits
      · exact fun _ _ _ => trivial
    · apply ((namedType_recognizes recognizes).explains text).mono
      rintro read next (fault | type)
      · intro ⟨type, admits, begins⟩
        exact ⟨type, admits.1, begins⟩
      · intro ⟨shape, admits, _⟩
        exact ⟨shape, admits.1, trivial⟩

theorem Language.orPrimitive_referenceType :
    orPrimitive (Nonterminal.referenceType.language levels) =
      Nonterminal.javaType.language levels := by
  apply Language.ext
  · funext type
    match type with
    | .base _ => rfl
    | .reference _ => rfl
  · funext type
    match type with
    | .base type => exact propext ⟨fun _ => JavaType.fits_base type, fun _ => trivial⟩
    | .reference type => exact propext JavaType.fits_reference.symm
  · funext type next
    match type with
    | .base _ => rfl
    | .reference _ => rfl

theorem Parser.javaType_recognizes
    (recognizes : typeArguments.Recognizes depth (TypeArgument.listLanguage levels)) :
    (javaType typeArguments).Recognizes depth (Nonterminal.javaType.language levels) := by
  rw [← Language.orPrimitive_referenceType]
  exact primitiveOr_recognizes (referenceType_recognizes recognizes) rfl

/-! ## Type arguments -/

theorem Parser.typeArgument_recognizes
    (recognizes : typeArguments.Recognizes depth (TypeArgument.listLanguage levels)) :
    (typeArgument typeArguments).Recognizes depth (Nonterminal.typeArgument.language levels) where
  reads argument next fits _ := by
    have reads := fun type fits =>
      (referenceType_recognizes recognizes).reads type next fits trivial
    apply Yields.peek_bind
    cases argument with
    | unbounded => exact (yields_skip rfl).bind_pure
    | upperBounded type =>
      have fits := TypeArgument.fits_upperBounded.mp fits
      exact Yields.skip_char_bind rfl (reads type fits).bind_pure
    | lowerBounded type =>
      have fits := TypeArgument.fits_lowerBounded.mp fits
      exact Yields.skip_char_bind rfl (reads type fits).bind_pure
    | exactly type =>
      -- A reference type begins with none of the three marks.
      have fits := TypeArgument.fits_exactly.mp fits
      have chars : (Nonterminal.typeArgument.language levels).chars (.exactly type) = type.chars :=
        rfl
      rw [chars]
      rcases type.head_chars with head | head | head <;>
      · rw [head]
        exact (reads type fits).bind_pure
  explains text := by
    apply Meets.peek_bind
    split
    · next head =>
      obtain ⟨tail, rfl⟩ := List.head?_eq_some_iff.mp head
      apply Meets.skip_char_bind rfl
      exact meets_pure ⟨rfl, TypeArgument.fits_unbounded, trivial⟩
    · next head =>
      obtain ⟨tail, rfl⟩ := List.head?_eq_some_iff.mp head
      apply Meets.skip_char_bind rfl
      apply (referenceType_recognizes recognizes).meets_return ['+']
      · exact fun _ => rfl
      · exact fun _ fits => TypeArgument.fits_upperBounded.mpr fits
      · exact fun _ _ _ => trivial
    · next head =>
      obtain ⟨tail, rfl⟩ := List.head?_eq_some_iff.mp head
      apply Meets.skip_char_bind rfl
      apply (referenceType_recognizes recognizes).meets_return ['-']
      · exact fun _ => rfl
      · exact fun _ fits => TypeArgument.fits_lowerBounded.mpr fits
      · exact fun _ _ _ => trivial
    · apply (referenceType_recognizes recognizes).meets_return []
      · exact fun _ => rfl
      · exact fun _ fits => TypeArgument.fits_exactly.mpr fits
      · exact fun _ _ _ => trivial

end Productions

/-! ## Lists of type arguments

The parser of lists that the productions of a list are given is the one for one level less. That
level has been opened by then, so the two agree on what is left.
-/

theorem Parser.Yields.nested {α : Type} {body : Parser α} {read : List Char} {next : Option Char}
    {outcome : Except Fault α} (yields : body.Yields (depth + 1) read next outcome) :
    (nested body).Yields depth read next outcome := by
  intro before faithful level tail ahead head
  obtain ⟨after, passes, ran⟩ := yields { before with depth := before.depth + 1 }
    (faithful.of_names rfl) (congrArg Nat.succ level) tail ahead head
  have back : after.depth - 1 = before.depth := by
    rw [passes.depth, Nat.add_sub_cancel]
  refine ⟨{ after with depth := after.depth - 1 },
    ⟨passes.rest, passes.position, back, passes.faithful.of_names rfl⟩, ?_⟩
  rw [Parser.nested, ran]
  cases outcome <;> rfl

/-- Type arguments up to the bracket that closes their list. -/
def Loop.arguments (levels : Nat) : Loop TypeArgument :=
  closed (Nonterminal.typeArgument.language levels) '>' fun _ _ => True

-- In particular, the closing bracket never starts an argument.
theorem TypeArgument.head_chars (argument : TypeArgument) :
    ∃ char ∈ argument.chars.head?, char ≠ '>' := by
  match argument with
  | .exactly type =>
    rcases type.head_chars with head | head | head <;>
    · exact ⟨_, head, by decide⟩
  | .upperBounded _ => exact ⟨_, rfl, by decide⟩
  | .lowerBounded _ => exact ⟨_, rfl, by decide⟩
  | .unbounded => exact ⟨_, rfl, by decide⟩

theorem Loop.arguments_lawful : (arguments levels).Lawful :=
  closed_lawful (fun argument _ => argument.head_chars)
    fun _ _ _ _ => ⟨fun _ => trivial, fun _ => trivial⟩

theorem TypeArgument.listChars_eq (levels : Nat) (arguments : List TypeArgument) :
    listChars arguments ++ ['>'] = (Loop.arguments levels).chars arguments := by
  induction arguments with
  | nil => rfl
  | cons first rest ih =>
    rw [Loop.chars_cons, ← ih, listChars, List.append_assoc]
    rfl

theorem TypeArgument.listFits_succ {arguments : List TypeArgument} :
    ListFits (levels + 1) arguments ↔ ((Loop.arguments levels).language none).Admits arguments := by
  rw [Loop.language_admits_iff _ fun _ _ => trivial]
  constructor
  · intro fits argument member
    obtain ⟨inner, same, fit⟩ := fits argument member
    cases same
    exact fit
  · intro fits argument member
    exact ⟨levels, rfl, fits argument member⟩

-- The level that the list itself takes is the one that its members do not have.
theorem TypeArgument.listLanguage_succ (levels : Nat) :
    listLanguage (levels + 1) = (Loop.arguments levels).enclosed '<' := by
  apply Language.ext
  · funext arguments
    cases arguments with
    | nil => rfl
    | cons first rest =>
      rw [Loop.enclosed_chars (List.cons_ne_nil first rest), ← listChars_eq]
      rfl
  · funext arguments
    exact propext listFits_succ
  · rfl

theorem TypeArgument.listFits_zero {arguments : List TypeArgument} (fits : ListFits 0 arguments) :
    arguments = [] := by
  refine List.eq_nil_iff_forall_not_mem.mpr fun argument member => ?_
  obtain ⟨inner, same, -⟩ := fits argument member
  cases same

theorem Parser.yields_typeArgumentsWithin_nil {next : Option Char} (differs : next ≠ some '<') :
    (typeArgumentsWithin levels).Yields depth [] next (.ok []) := by
  unfold typeArgumentsWithin
  apply Yields.peek_bind
  rw [List.head?_nil, Option.none_or, if_neg differs]
  exact yields_pure []

theorem Parser.typeArgumentsWithin_recognizes (levels depth : Nat) :
    (typeArgumentsWithin levels).Recognizes depth (TypeArgument.listLanguage levels) := by
  induction levels generalizing depth with
  | zero =>
    constructor
    · intro arguments next fits ends
      obtain rfl := TypeArgument.listFits_zero fits
      exact yields_typeArgumentsWithin_nil (ends rfl)
    · intro text
      by_cases opens : text.head? = some '<'
      · -- What was read up to the bracket could have gone on without a list.
        unfold typeArgumentsWithin
        apply Meets.peek_bind
        rw [if_pos opens]
        exact meets_fail ⟨[], TypeArgument.listFits_nil, List.nil_prefix⟩
      · exact ⟨[], text, .ok [], rfl, yields_typeArgumentsWithin_nil opens, rfl,
          TypeArgument.listFits_nil, fun _ => opens⟩
  | succ levels ih =>
    have recognizes : (someUntil '>' (typeArgument (typeArgumentsWithin levels))).Recognizes
        (depth + 1) (Loop.arguments levels).someLanguage :=
      someUntil_recognizes Loop.arguments_lawful (typeArgument_recognizes (ih (depth + 1)))
    rw [TypeArgument.listLanguage_succ]
    apply enclosed_recognizes recognizes
    · exact fun _ => trivial
    · exact fun next differs => yields_typeArgumentsWithin_nil differs
    · intro read next outcome yields
      unfold typeArgumentsWithin
      apply Yields.peek_bind
      rw [List.head?_cons, Option.some_or, if_pos rfl]
      exact Yields.nested (yields.skip_char_bind rfl)

theorem Parser.typeArguments_recognizes :
    typeArguments.Recognizes depth (TypeArgument.listLanguage (Cursor.maxDepth - depth)) :=
  .congr (fun _ level => by rw [typeArguments, level]) (typeArgumentsWithin_recognizes _ depth)

end GenericSignature
