import GenericSignature.Proofs.Nesting.Following

/-! Types as marked texts.

The productions follow the text of every legible type, however deep its nesting is.
-/

set_option autoImplicit false

namespace GenericSignature

variable {depth inside : Nat}

/-! ## Languages without limits -/

def Nonterminal.legibleLanguage (symbol : Nonterminal) : Language symbol.Node where
  chars := symbol.chars
  Admits := symbol.Legible
  Ends := symbol.Ends

def TypeArgument.legibleLists : Language (List TypeArgument) where
  chars := enclosedChars
  Admits := ListLegible
  Ends arguments next := arguments = [] → next ≠ some '<'

/-- The reference types other than arrays. -/
def Language.legibleNamedTypes : Language ReferenceType where
  chars := ReferenceType.chars
  Admits type := type.Legible ∧ (JavaType.reference type).isArray = false
  Ends _ _ := True

theorem Language.orPrimitive_legible :
    orPrimitive Nonterminal.referenceType.legibleLanguage =
      Nonterminal.javaType.legibleLanguage := by
  apply Language.ext
  · funext type
    cases type <;> rfl
  · funext type
    cases type <;> rfl
  · funext type next
    cases type <;> rfl

theorem JavaType.admits_element {type : JavaType} (legible : type.Legible)
    (plain : type.isArray = false) :
    (Language.orPrimitive Language.legibleNamedTypes).Admits type ∧
      ∀ next, (Language.orPrimitive Language.legibleNamedTypes).Ends type next := by
  cases type with
  | base _ => exact ⟨trivial, fun _ => trivial⟩
  | reference _ => exact ⟨⟨legible, plain⟩, fun _ => trivial⟩

def Loop.legibleNested : Loop SimpleClassType :=
  marked Nonterminal.simpleClassType.legibleLanguage '.'

theorem Loop.legibleNested_lawful : legibleNested.Lawful :=
  marked_lawful fun type _ => type.ends_period

theorem SimpleClassType.selectedGlyphs_eq (nested : List SimpleClassType) :
    selectedGlyphs inside nested = Loop.legibleNested.glyphs (glyphs inside) nested := by
  induction nested with
  | nil => rfl
  | cons first rest ih =>
    rw [Loop.glyphs_cons, ← ih]
    rfl

def Loop.legibleArguments : Loop TypeArgument :=
  closed Nonterminal.typeArgument.legibleLanguage '>' fun _ _ => True

theorem Loop.legibleArguments_lawful : legibleArguments.Lawful :=
  closed_lawful (fun argument _ => argument.head_chars)
    fun _ _ _ _ => ⟨fun _ => trivial, fun _ => trivial⟩

theorem TypeArgument.listGlyphs_eq (arguments : List TypeArgument) :
    listGlyphs inside arguments ++ [.plain '>'] =
      Loop.legibleArguments.glyphs (glyphs inside) arguments := by
  induction arguments with
  | nil => rfl
  | cons first rest ih =>
    rw [Loop.glyphs_cons, ← ih, listGlyphs, List.append_assoc]
    rfl

theorem TypeArgument.legibleLists_eq : legibleLists = Loop.legibleArguments.enclosed '<' := by
  apply Language.ext
  · funext arguments
    cases arguments with
    | nil => rfl
    | cons first rest =>
      rw [Loop.enclosed_chars (List.cons_ne_nil first rest)]
      exact congrArg (List.cons '<') (listChars_eq 0 (first :: rest))
  · funext arguments
    exact propext (listLegible_iff.trans
      (Loop.legibleArguments.language_admits_iff fun _ _ => trivial).symm)
  · rfl

/-! ## Chains of brackets -/

/-- So many brackets of one chain, after `before` others. -/
def Glyph.brackets (before : Nat) : Nat → List Glyph
  | 0 => []
  | count + 1 => .bracket (before + 1) :: brackets (before + 1) count

theorem Glyph.chars_brackets (before count : Nat) :
    chars (brackets before count) = List.replicate count '[' := by
  induction count generalizing before with
  | zero => rfl
  | succ count ih => rw [brackets, chars_cons, ih, List.replicate_succ, char_bracket]

/-- The first bracket beyond the limit is where a chain goes wrong. -/
theorem Glyph.overrun?_brackets {before : Nat} (within : before ≤ ArrayType.maxDimensions)
    (count : Nat) :
    overrun? (brackets before count) =
      if before + count ≤ ArrayType.maxDimensions then none
      else some ⟨List.replicate (ArrayType.maxDimensions - before) '[', '[',
        ArrayType.maxDimensions⟩ := by
  induction count generalizing before with
  | zero => rw [Nat.add_zero, if_pos within, brackets, overrun?_nil]
  | succ count ih =>
    by_cases full : before = ArrayType.maxDimensions
    · subst full
      have limit : (bracket (ArrayType.maxDimensions + 1)).limit? =
          some ArrayType.maxDimensions := rfl
      rw [brackets, overrun?_cons_of_limit limit, if_neg (by omega), Nat.sub_self]
      rfl
    · have limit : (bracket (before + 1)).limit? = none :=
        limit?_bracket_eq_none_iff.mpr (by omega)
      have room : ArrayType.maxDimensions - before =
          ArrayType.maxDimensions - (before + 1) + 1 := by omega
      rw [brackets, overrun?_cons_of_none limit, ih (by omega), room, List.replicate_succ,
        Nat.add_right_comm, Nat.add_assoc]
      split <;> rfl

theorem JavaType.glyphs_eq (type : JavaType) (before inside : Nat) :
    type.glyphs before inside = Glyph.brackets before type.layers ++
      type.innermost.glyphs (before + type.layers) inside := by
  fun_induction stripLayers 0 type generalizing before with
  | case1 layers component ih =>
    have glyphs : JavaType.glyphs before inside (.reference (.array ⟨component⟩)) =
      .bracket (before + 1) :: component.glyphs (before + 1) inside := rfl
    rw [glyphs, ih, layers_array, innermost_array, ArrayType.dimensions_mk, ArrayType.element_mk,
      Nat.add_right_comm before 1, Nat.add_assoc before]
    rfl
  | case2 => rfl
  | case3 => rfl
  | case4 => rfl

theorem ArrayType.glyphs_eq (array : ArrayType) (inside : Nat) :
    array.glyphs 0 inside = Glyph.brackets 0 array.dimensions ++
      array.element.glyphs array.dimensions inside := by
  have type := (JavaType.reference (.array array)).glyphs_eq 0 inside
  rw [JavaType.layers_array, JavaType.innermost_array, Nat.zero_add] at type
  exact type

theorem JavaType.overrun?_of_lt {type : JavaType}
    (exceeds : ArrayType.maxDimensions < type.layers) (inside : Nat) :
    Glyph.overrun? (type.glyphs 0 inside) =
      some ⟨List.replicate ArrayType.maxDimensions '[', '[', ArrayType.maxDimensions⟩ := by
  rw [glyphs_eq, Glyph.overrun?_append, Glyph.overrun?_brackets (Nat.zero_le _), Nat.zero_add,
    if_neg (Nat.not_le_of_lt exceeds), Option.some_or]
  rfl

/-! ## Productions without type arguments -/

theorem Parser.typeVariable_traces :
    typeVariable.Traces depth Nonterminal.typeVariable.legibleLanguage
      fun type => type.chars.map .plain where
  written type := Glyph.chars_plain type.chars
  follows type next legible _ :=
    ((typeVariable_recognizes 0).reads type next (TypeVariable.fits_iff.mpr legible)
      trivial).follows

theorem Parser.primitiveOr_traces {brackets : Nat} {reference : Parser ReferenceType}
    {references : Language ReferenceType}
    (traces : reference.Traces depth references (ReferenceType.glyphs brackets inside)) :
    (primitiveOr reference).Traces depth (Language.orPrimitive references)
      (JavaType.glyphs brackets inside) where
  written type := by
    cases type with
    | base type => rfl
    | reference type => exact traces.written type
  follows type next admits ends := by
    cases type with
    | base type => exact (primitiveOr_yields_base type).follows
    | reference type =>
      have head := type.head_not_primitive next
      rw [← type.chars_glyphs brackets inside] at head
      apply Follows.peek_bind
      rw [JavaType.glyphs, head]
      exact (traces.follows type next admits ends).bind_pure

section Productions

variable {typeArguments : Parser (List TypeArgument)}
  (traces : typeArguments.Traces depth TypeArgument.legibleLists
    (TypeArgument.enclosedGlyphs inside))

include traces

/-! ## Class types -/

theorem Parser.simpleClassType_traces :
    (simpleClassType typeArguments).Traces depth Nonterminal.simpleClassType.legibleLanguage
      (SimpleClassType.glyphs inside) := by
  have parts := (identifier_recognizes .nestedClass).traces.pair traces
  rw [simpleClassType_eq]
  apply parts.map
  · rintro ⟨name, arguments⟩
    exact ⟨(name, arguments), rfl⟩
  · exact SimpleClassType.chars_glyphs inside
  · exact fun _ => rfl
  · exact fun _ legible => legible
  · exact fun parts next => (SimpleClassType.ends_iff parts.1 parts.2 next).mp

theorem Parser.classType_traces :
    (classType typeArguments).Traces depth Nonterminal.classType.legibleLanguage
      (ClassType.glyphs inside) := by
  have nested : (repeatWhile (consume '.') (simpleClassType typeArguments)).Traces depth
      (Loop.legibleNested.language none)
        (Loop.legibleNested.glyphs (SimpleClassType.glyphs inside)) :=
    repeatWhile_traces Loop.marked_guardedBy Loop.legibleNested_lawful
      (simpleClassType_traces traces)
  have parts := (expect_recognizes 'L' .classType).traces.pair (binaryName_recognizes.traces.pair
    (traces.pair (nested.pair (expect_recognizes ';' .classTypeEnd).traces)))
  rw [classType_eq]
  apply parts.map
  · rintro ⟨binaryName, arguments, nested⟩
    exact ⟨((), binaryName, arguments, nested, ()), rfl⟩
  · exact ClassType.chars_glyphs inside
  · rintro ⟨_, binaryName, arguments, nested, _⟩
    rw [ClassType.glyphs, SimpleClassType.selectedGlyphs_eq]
    rfl
  · rintro ⟨_, binaryName, arguments, nested, _⟩ ⟨isName, legible, nestedLegible⟩
    refine ⟨trivial, isName, legible, ?_, trivial⟩
    rw [Loop.language_admits_iff _ fun _ _ => trivial]
    exact SimpleClassType.listLegible_iff.mp nestedLegible
  · rintro ⟨_, binaryName, arguments, nested, _⟩ next -
    exact @ClassType.ends_parts 0 binaryName arguments nested next

/-! ## Arrays -/

-- A type that is no array is marked alike behind any number of brackets.
theorem Parser.namedType_traces (brackets : Nat) :
    (namedType typeArguments).Traces depth Language.legibleNamedTypes
      (ReferenceType.glyphs brackets inside) where
  written := ReferenceType.chars_glyphs brackets inside
  follows type next admits _ := by
    apply Follows.peek_bind
    rw [ReferenceType.chars_glyphs]
    match type, admits with
    | .classType type, ⟨legible, _⟩ =>
      have head : (ReferenceType.classType type).chars.head? = some 'L' := type.head_chars
      rw [head]
      exact ((classType_traces traces).follows type next legible trivial).bind_pure
    | .variable type, ⟨legible, _⟩ =>
      exact (typeVariable_traces.follows type next legible trivial).bind_pure

theorem Parser.element_traces (brackets : Nat) :
    (primitiveOr (namedType typeArguments)).Traces depth
      (Language.orPrimitive Language.legibleNamedTypes) (JavaType.glyphs brackets inside) :=
  primitiveOr_traces (namedType_traces traces brackets)

theorem Parser.arrayType_follows_of_le {array : ArrayType} (legible : array.Legible)
    (bounded : array.dimensions ≤ ArrayType.maxDimensions) (next : Option Char) :
    (arrayType typeArguments).Follows depth (array.glyphs 0 inside) next array := by
  have plain := array.element_not_isArray
  obtain ⟨admits, ends⟩ := JavaType.admits_element (array.legible_element.mpr legible) plain
  have element : Follows (primitiveOr (namedType typeArguments) >>= fun element => pure
      (ArrayType.withDimensions element array.dimensions array.dimensions_pos)) depth
        (array.element.glyphs array.dimensions inside) next
        (.withDimensions array.element array.dimensions array.dimensions_pos) :=
    ((element_traces traces array.dimensions).follows array.element next admits
      (ends next)).bind_pure
  rw [array.withDimensions_element] at element
  have within := Glyph.overrun?_brackets (Nat.zero_le _) array.dimensions
  rw [Nat.zero_add, if_pos bounded] at within
  rw [ArrayType.glyphs_eq]
  apply Glyph.Guides.after within
  rw [Glyph.chars_brackets]
  apply element.imp
  intro read following outcome head yields
  -- However much of the element is read, it begins with no further bracket.
  have noBracket := JavaType.head_element plain next
  rw [← JavaType.chars_glyphs array.dimensions inside, ← head] at noBracket
  apply Yields.countAhead_exactly_bind noBracket
  rw [dif_pos array.dimensions_pos, if_pos bounded]
  exact Yields.skip_bind (Text.byteLength_replicate_bracket array.dimensions) yields

omit traces in
theorem Parser.arrayType_follows_of_lt {array : ArrayType}
    (exceeds : ArrayType.maxDimensions < array.dimensions) (next : Option Char) :
    (arrayType typeArguments).Follows depth (array.glyphs 0 inside) next array := by
  rw [← JavaType.layers_array] at exceeds
  have whole : Glyph.overrun? (array.glyphs 0 inside) = _ := JavaType.overrun?_of_lt exceeds inside
  rw [Follows, Glyph.guides_of_some whole]
  exact arrayType_yields_excess

theorem Parser.arrayType_traces :
    (arrayType typeArguments).Traces depth Nonterminal.arrayType.legibleLanguage
      (ArrayType.glyphs 0 inside) where
  written := ArrayType.chars_glyphs 0 inside
  follows array next legible _ := by
    by_cases bounded : array.dimensions ≤ ArrayType.maxDimensions
    · exact arrayType_follows_of_le traces legible bounded next
    · exact arrayType_follows_of_lt (Nat.lt_of_not_le bounded) next

/-! ## All types -/

theorem Parser.referenceType_traces :
    (referenceType typeArguments).Traces depth Nonterminal.referenceType.legibleLanguage
      (ReferenceType.glyphs 0 inside) where
  written := ReferenceType.chars_glyphs 0 inside
  follows type next legible _ := by
    have named := fun plain =>
      (namedType_traces traces 0).follows type next ⟨legible, plain⟩ trivial
    apply Follows.peek_bind
    rw [ReferenceType.chars_glyphs]
    match type with
    | .array ⟨component⟩ =>
      exact ((arrayType_traces traces).follows ⟨component⟩ next legible trivial).bind_pure
    | .classType type =>
      have head : (ReferenceType.classType type).chars.head? = some 'L' := type.head_chars
      rw [head, Option.some_or, if_neg (by decide)]
      exact named rfl
    | .variable type => exact named rfl

theorem Parser.javaType_traces :
    (javaType typeArguments).Traces depth Nonterminal.javaType.legibleLanguage
      (JavaType.glyphs 0 inside) := by
  rw [← Language.orPrimitive_legible]
  exact primitiveOr_traces (referenceType_traces traces)

/-! ## Type arguments -/

theorem Parser.typeArgument_traces :
    (typeArgument typeArguments).Traces depth Nonterminal.typeArgument.legibleLanguage
      (TypeArgument.glyphs inside) where
  written := TypeArgument.chars_glyphs inside
  follows argument next legible _ := by
    have follows := fun type legible =>
      (referenceType_traces traces).follows type next legible trivial
    apply Follows.peek_bind
    rw [TypeArgument.chars_glyphs]
    cases argument with
    | unbounded => exact Follows.skip_char_bind rfl (yields_pure _).follows
    | upperBounded type => exact Follows.skip_char_bind rfl (follows type legible).bind_pure
    | lowerBounded type => exact Follows.skip_char_bind rfl (follows type legible).bind_pure
    | exactly type =>
      have chars : (TypeArgument.exactly type).chars = type.chars := rfl
      rw [chars]
      rcases type.head_chars with head | head | head <;>
      · rw [head]
        exact (follows type legible).bind_pure

end Productions

/-! ## Lists of type arguments -/

theorem Parser.typeArgumentsWithin_traces (levels depth : Nat)
    (room : inside + levels = Cursor.maxDepth) :
    (typeArgumentsWithin levels).Traces depth TypeArgument.legibleLists
      (TypeArgument.enclosedGlyphs inside) := by
  induction levels generalizing depth inside with
  | zero =>
    refine ⟨TypeArgument.chars_enclosedGlyphs inside, fun arguments next _ ends => ?_⟩
    cases arguments with
    | nil => exact (yields_typeArgumentsWithin_nil (ends rfl)).follows
    | cons first rest =>
      -- The list would be open inside of as many others as there may be.
      obtain rfl : inside = Cursor.maxDepth := room
      have limit : (Glyph.opening Cursor.maxDepth).limit? = some Cursor.maxDepth := rfl
      rw [Follows, TypeArgument.enclosedGlyphs,
        Glyph.guides_of_some (Glyph.overrun?_cons_of_limit limit)]
      unfold typeArgumentsWithin
      apply Yields.peek_bind
      rw [List.head?_nil, Option.none_or, Glyph.char_opening, if_pos rfl]
      exact yields_fail _
  | succ levels ih =>
    have body : (someUntil '>' (typeArgument (typeArgumentsWithin levels))).Traces (depth + 1)
        Loop.legibleArguments.someLanguage
        (Loop.legibleArguments.glyphs (TypeArgument.glyphs (inside + 1))) :=
      someUntil_traces Loop.legibleArguments_lawful
        (typeArgument_traces (ih (depth + 1) (by omega)))
    have opening : (Glyph.opening inside).limit? = none :=
      Glyph.limit?_opening_eq_none_iff.mpr (by omega)
    rw [TypeArgument.legibleLists_eq]
    apply enclosed_traces body (fun _ => trivial) opening
    · rfl
    · intro arguments nonempty
      obtain ⟨first, rest, rfl⟩ := List.exists_cons_of_ne_nil nonempty
      rw [← TypeArgument.listGlyphs_eq, TypeArgument.enclosedGlyphs, TypeArgument.listGlyphs,
        List.append_assoc]
    · exact fun next differs => yields_typeArgumentsWithin_nil differs
    · intro read next outcome yields
      unfold typeArgumentsWithin
      apply Yields.peek_bind
      rw [List.head?_cons, Option.some_or, Glyph.char_opening, if_pos rfl]
      exact Yields.nested (yields.skip_char_bind rfl)

theorem Parser.typeArguments_traces (shallow : depth ≤ Cursor.maxDepth) :
    typeArguments.Traces depth TypeArgument.legibleLists (TypeArgument.enclosedGlyphs depth) := by
  have within := typeArgumentsWithin_traces (Cursor.maxDepth - depth) depth
    (Nat.add_sub_of_le shallow)
  refine ⟨within.written, fun arguments next admits ends => ?_⟩
  exact (within.follows arguments next admits ends).congr fun _ level => by
    rw [typeArguments, level]

end GenericSignature
