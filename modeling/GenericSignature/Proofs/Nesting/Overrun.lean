import GenericSignature.Proofs.Nesting.Glyph

/-! The first place at which a text exceeds a limit on nesting.

There is none only if the node that is written keeps to the limits.
-/

set_option autoImplicit false

namespace GenericSignature

/-- A character that exceeds a limit, with all that stands before it. -/
structure Overrun where
  read : List Char
  found : Char
  limit : Nat
  deriving DecidableEq, Repr

def Overrun.after (before : List Char) (overrun : Overrun) : Overrun :=
  { overrun with read := before ++ overrun.read }

def Glyph.overrun? : List Glyph → Option Overrun
  | [] => none
  | first :: rest =>
    match first.limit? with
    | some limit => some ⟨[], first.char, limit⟩
    | none => (overrun? rest).map (.after [first.char])

section Glyphs

variable {glyph : Glyph} {first second glyphs : List Glyph} {overrun : Overrun} {limit : Nat}

theorem Glyph.overrun?_cons_of_limit (exceeds : glyph.limit? = some limit) :
    overrun? (glyph :: glyphs) = some ⟨[], glyph.char, limit⟩ := by
  rw [overrun?, exceeds]

theorem Glyph.overrun?_cons_of_none (within : glyph.limit? = none) :
    overrun? (glyph :: glyphs) = (overrun? glyphs).map (.after [glyph.char]) := by
  rw [overrun?, within]

theorem Glyph.overrun?_append (first second : List Glyph) :
    overrun? (first ++ second) =
      (overrun? first).or ((overrun? second).map (.after (chars first))) := by
  induction first with
  | nil =>
    rw [List.nil_append]
    cases overrun? second <;> rfl
  | cons glyph rest ih =>
    cases exceeds : glyph.limit? with
    | some limit =>
      rw [List.cons_append, overrun?_cons_of_limit exceeds, overrun?_cons_of_limit exceeds]
      rfl
    | none =>
      rw [List.cons_append, overrun?_cons_of_none exceeds, overrun?_cons_of_none exceeds, ih]
      cases overrun? rest <;> cases overrun? second <;> rfl

@[simp] theorem Glyph.overrun?_append_eq_none_iff :
    overrun? (first ++ second) = none ↔ overrun? first = none ∧ overrun? second = none := by
  rw [overrun?_append]
  simp

@[simp] theorem Glyph.overrun?_cons_eq_none_iff :
    overrun? (glyph :: glyphs) = none ↔ glyph.limit? = none ∧ overrun? glyphs = none := by
  cases exceeds : glyph.limit? with
  | some limit => simp [overrun?_cons_of_limit exceeds]
  | none => simp [overrun?_cons_of_none exceeds]

@[simp] theorem Glyph.limit?_plain (char : Char) : (plain char).limit? = none := rfl

@[simp] theorem Glyph.limit?_bracket_eq_none_iff {number : Nat} :
    (bracket number).limit? = none ↔ number ≠ ArrayType.maxDimensions + 1 := by
  simp [limit?]

@[simp] theorem Glyph.limit?_opening_eq_none_iff {inside : Nat} :
    (opening inside).limit? = none ↔ inside ≠ Cursor.maxDepth := by
  simp [limit?]

@[simp] theorem Glyph.overrun?_nil : overrun? [] = none := rfl

@[simp] theorem Glyph.overrun?_plain (text : List Char) : overrun? (text.map .plain) = none := by
  induction text with
  | nil => rfl
  | cons first rest ih => simpa using ih

@[simp] theorem Glyph.overrun?_flatMap_eq_none_iff {α : Type} {items : List α}
    {glyphs : α → List Glyph} :
    overrun? (items.flatMap glyphs) = none ↔ ∀ item ∈ items, overrun? (glyphs item) = none := by
  induction items with
  | nil => simp
  | cons first rest ih => simp [ih]

/-- The character that exceeds the limit stands where the text says. -/
theorem Glyph.head_of_overrun? (exceeds : overrun? glyphs = some overrun) :
    overrun.read.head?.or (some overrun.found) = (chars glyphs).head? := by
  cases glyphs with
  | nil => cases exceeds
  | cons first rest =>
    cases limit : first.limit? with
    | some limit =>
      rw [overrun?_cons_of_limit limit] at exceeds
      cases exceeds
      rfl
    | none =>
      rw [overrun?_cons_of_none limit] at exceeds
      obtain ⟨later, -, rfl⟩ := Option.map_eq_some_iff.mp exceeds
      rfl

/-- It is the first that does so. -/
theorem Glyph.exists_of_overrun? (exceeds : overrun? glyphs = some overrun) :
    ∃ before glyph rest, glyphs = before ++ glyph :: rest ∧ chars before = overrun.read ∧
      glyph.char = overrun.found ∧ glyph.limit? = some overrun.limit ∧
        ∀ earlier ∈ before, earlier.limit? = none := by
  induction glyphs generalizing overrun with
  | nil => cases exceeds
  | cons first rest ih =>
    cases limit : first.limit? with
    | some limit =>
      rw [overrun?_cons_of_limit limit] at exceeds
      cases exceeds
      exact ⟨[], first, rest, rfl, rfl, rfl, limit, List.forall_mem_nil _⟩
    | none =>
      rw [overrun?_cons_of_none limit] at exceeds
      obtain ⟨later, exceedsRest, rfl⟩ := Option.map_eq_some_iff.mp exceeds
      obtain ⟨before, glyph, after, rfl, read, found, reached, within⟩ := ih exceedsRest
      refine ⟨first :: before, glyph, after, rfl, ?_, found, reached, ?_⟩
      · rw [chars_cons, read]
        rfl
      · exact List.forall_mem_cons.mpr ⟨limit, within⟩

end Glyphs

/-! ## Depths

The marks of a text that keeps to the limits bound the depths of the node. A type with `brackets`
array layers directly around it adds its own layers to them.
-/

section Depths

mutual

theorem JavaType.depths_of_within (type : JavaType) {brackets inside : Nat}
    (layered : brackets ≤ ArrayType.maxDimensions) (nested : inside ≤ Cursor.maxDepth)
    (within : Glyph.overrun? (type.glyphs brackets inside) = none) :
    brackets + type.layers ≤ ArrayType.maxDimensions ∧
      type.arrayDepth ≤ ArrayType.maxDimensions ∧
        inside + type.argumentDepth ≤ Cursor.maxDepth := by
  match type with
  | .base _ => exact ⟨layered, Nat.zero_le _, nested⟩
  | .reference (.array array) =>
    rw [JavaType.layers_array]
    exact array.depths_of_within layered nested within
  | .reference (.classType type) => exact ⟨layered, type.depths_of_within nested within⟩
  | .reference (.variable _) => exact ⟨layered, Nat.zero_le _, nested⟩

theorem ReferenceType.depths_of_within (type : ReferenceType) {inside : Nat}
    (nested : inside ≤ Cursor.maxDepth)
    (within : Glyph.overrun? (type.glyphs 0 inside) = none) :
    type.arrayDepth ≤ ArrayType.maxDimensions ∧
      inside + type.argumentDepth ≤ Cursor.maxDepth := by
  match type with
  | .classType type => exact type.depths_of_within nested within
  | .array array => exact (array.depths_of_within (Nat.zero_le _) nested within).2
  | .variable _ => exact ⟨Nat.zero_le _, nested⟩

theorem ClassType.depths_of_within (type : ClassType) {inside : Nat}
    (nested : inside ≤ Cursor.maxDepth)
    (within : Glyph.overrun? (type.glyphs inside) = none) :
    type.arrayDepth ≤ ArrayType.maxDimensions ∧
      inside + type.argumentDepth ≤ Cursor.maxDepth := by
  match type with
  | ⟨binaryName, arguments, segments⟩ =>
    simp only [ClassType.glyphs, Glyph.overrun?_cons_eq_none_iff,
      Glyph.overrun?_append_eq_none_iff] at within
    have outer := TypeArgument.enclosed_depths_of_within arguments nested within.2.2.1
    have inner := SimpleClassType.list_depths_of_within segments nested within.2.2.2.1
    simp only [ClassType.arrayDepth, ClassType.argumentDepth]
    omega

theorem SimpleClassType.depths_of_within (type : SimpleClassType) {inside : Nat}
    (nested : inside ≤ Cursor.maxDepth)
    (within : Glyph.overrun? (type.glyphs inside) = none) :
    type.arrayDepth ≤ ArrayType.maxDimensions ∧
      inside + type.argumentDepth ≤ Cursor.maxDepth := by
  match type with
  | ⟨name, arguments⟩ =>
    simp only [SimpleClassType.glyphs, Glyph.overrun?_append_eq_none_iff] at within
    exact TypeArgument.enclosed_depths_of_within arguments nested within.2

theorem SimpleClassType.list_depths_of_within (types : List SimpleClassType) {inside : Nat}
    (nested : inside ≤ Cursor.maxDepth)
    (within : Glyph.overrun? (SimpleClassType.selectedGlyphs inside types) = none) :
    SimpleClassType.listArrayDepth types ≤ ArrayType.maxDimensions ∧
      inside + SimpleClassType.listArgumentDepth types ≤ Cursor.maxDepth := by
  match types with
  | [] => exact ⟨Nat.zero_le _, nested⟩
  | first :: rest =>
    simp only [SimpleClassType.selectedGlyphs, Glyph.overrun?_cons_eq_none_iff,
      Glyph.overrun?_append_eq_none_iff] at within
    have head := first.depths_of_within nested within.2.1
    have tail := SimpleClassType.list_depths_of_within rest nested within.2.2
    simp only [SimpleClassType.listArrayDepth, SimpleClassType.listArgumentDepth]
    omega

theorem ArrayType.depths_of_within (array : ArrayType) {brackets inside : Nat}
    (layered : brackets ≤ ArrayType.maxDimensions) (nested : inside ≤ Cursor.maxDepth)
    (within : Glyph.overrun? (array.glyphs brackets inside) = none) :
    brackets + array.dimensions ≤ ArrayType.maxDimensions ∧
      array.arrayDepth ≤ ArrayType.maxDimensions ∧
        inside + array.argumentDepth ≤ Cursor.maxDepth := by
  match array with
  | ⟨component⟩ =>
    simp only [ArrayType.glyphs, Glyph.overrun?_cons_eq_none_iff,
      Glyph.limit?_bracket_eq_none_iff] at within
    have layer := component.depths_of_within (by omega) nested within.2
    simp only [ArrayType.arrayDepth, ArrayType.argumentDepth, ArrayType.dimensions_mk]
    omega

theorem TypeArgument.depths_of_within (argument : TypeArgument) {inside : Nat}
    (nested : inside ≤ Cursor.maxDepth)
    (within : Glyph.overrun? (argument.glyphs inside) = none) :
    argument.arrayDepth ≤ ArrayType.maxDimensions ∧
      inside + argument.argumentDepth ≤ Cursor.maxDepth := by
  match argument with
  | .exactly type => exact type.depths_of_within nested within
  | .upperBounded type | .lowerBounded type =>
    simp only [TypeArgument.glyphs, Glyph.overrun?_cons_eq_none_iff] at within
    exact type.depths_of_within nested within.2
  | .unbounded => exact ⟨Nat.zero_le _, nested⟩

theorem TypeArgument.list_depths_of_within (arguments : List TypeArgument) {inside : Nat}
    (nested : inside ≤ Cursor.maxDepth)
    (within : Glyph.overrun? (TypeArgument.listGlyphs inside arguments) = none) :
    TypeArgument.listArrayDepth arguments ≤ ArrayType.maxDimensions ∧
      inside + TypeArgument.listArgumentDepth arguments ≤ Cursor.maxDepth := by
  match arguments with
  | [] => exact ⟨Nat.zero_le _, nested⟩
  | first :: rest =>
    simp only [TypeArgument.listGlyphs, Glyph.overrun?_append_eq_none_iff] at within
    have head := first.depths_of_within nested within.1
    have tail := TypeArgument.list_depths_of_within rest nested within.2
    simp only [TypeArgument.listArrayDepth, TypeArgument.listArgumentDepth]
    omega

theorem TypeArgument.enclosed_depths_of_within (arguments : List TypeArgument) {inside : Nat}
    (nested : inside ≤ Cursor.maxDepth)
    (within : Glyph.overrun? (TypeArgument.enclosedGlyphs inside arguments) = none) :
    TypeArgument.listArrayDepth arguments ≤ ArrayType.maxDimensions ∧
      inside + TypeArgument.enclosedDepth arguments ≤ Cursor.maxDepth := by
  match arguments with
  | [] => exact ⟨Nat.zero_le _, nested⟩
  | first :: rest =>
    simp only [TypeArgument.enclosedGlyphs, Glyph.overrun?_cons_eq_none_iff,
      Glyph.overrun?_append_eq_none_iff, Glyph.limit?_opening_eq_none_iff] at within
    have head := first.depths_of_within (by omega) within.2.1
    have tail := TypeArgument.list_depths_of_within rest (by omega) within.2.2.1
    simp only [TypeArgument.listArrayDepth, TypeArgument.enclosedDepth]
    omega

end

theorem JavaType.deepest_of_within {types : List JavaType} {inside : Nat}
    (nested : inside ≤ Cursor.maxDepth)
    (within : ∀ type ∈ types, Glyph.overrun? (type.glyphs 0 inside) = none) :
    deepest arrayDepth types ≤ ArrayType.maxDimensions ∧
      inside + deepest argumentDepth types ≤ Cursor.maxDepth := by
  have depths := fun type member =>
    (depths_of_within type (Nat.zero_le _) nested (within type member)).2
  have room : deepest argumentDepth types ≤ Cursor.maxDepth - inside :=
    deepest_le_iff.mpr fun type member => Nat.le_sub_of_add_le' (depths type member).2
  exact ⟨deepest_le_iff.mpr fun type member => (depths type member).1,
    Nat.add_le_of_le_sub' nested room⟩

/-! The marks of a declaration are those of the types that are written in it. -/

section Declarations

variable {inside : Nat}

theorem TypeParameter.within_types {parameter : TypeParameter}
    (within : Glyph.overrun? (parameter.glyphs inside) = none) :
    ∀ type ∈ parameter.types, Glyph.overrun? (type.glyphs 0 inside) = none := by
  obtain ⟨name, classBound, interfaceBounds⟩ := parameter
  cases classBound <;> simp_all [glyphs, types, JavaType.glyphs]

theorem TypeParameter.enclosed_within_types {declared : List TypeParameter}
    (within : Glyph.overrun? (enclosedGlyphs inside declared) = none) :
    ∀ type ∈ declared.flatMap types, Glyph.overrun? (type.glyphs 0 inside) = none := by
  cases declared with
  | nil => exact List.forall_mem_nil _
  | cons first rest =>
    simp only [enclosedGlyphs, Glyph.overrun?_cons_eq_none_iff, Glyph.overrun?_append_eq_none_iff,
      Glyph.overrun?_flatMap_eq_none_iff] at within
    rw [List.forall_mem_flatMap]
    exact fun parameter member => within_types (within.2.1 parameter member)

theorem ClassSignature.within_types {signature : ClassSignature}
    (within : Glyph.overrun? (signature.glyphs inside) = none) :
    ∀ type ∈ signature.types, Glyph.overrun? (type.glyphs 0 inside) = none := by
  simp only [glyphs, Glyph.overrun?_append_eq_none_iff,
    Glyph.overrun?_flatMap_eq_none_iff] at within
  obtain ⟨parameters, superclass, interfaces⟩ := within
  simp only [types, List.forall_mem_append, List.forall_mem_map, List.forall_mem_cons]
  exact ⟨TypeParameter.enclosed_within_types parameters, superclass, interfaces⟩

theorem ReturnType.within_types {result : ReturnType}
    (within : Glyph.overrun? (result.glyphs inside) = none) :
    ∀ type ∈ result.types, Glyph.overrun? (type.glyphs 0 inside) = none := by
  cases result with
  | value type => exact List.forall_mem_singleton.mpr within
  | void => exact List.forall_mem_nil _

theorem ThrownType.within_types {thrown : ThrownType}
    (within : Glyph.overrun? (thrown.glyphs inside) = none) :
    ∀ type ∈ thrown.types, Glyph.overrun? (type.glyphs 0 inside) = none :=
  List.forall_mem_singleton.mpr within

theorem MethodSignature.within_types {signature : MethodSignature}
    (within : Glyph.overrun? (signature.glyphs inside) = none) :
    ∀ type ∈ signature.types, Glyph.overrun? (type.glyphs 0 inside) = none := by
  simp only [glyphs, Glyph.overrun?_append_eq_none_iff, Glyph.overrun?_cons_eq_none_iff,
    Glyph.overrun?_flatMap_eq_none_iff] at within
  obtain ⟨declared, -, parameters, -, result, thrown⟩ := within
  simp only [types, List.forall_mem_append, List.forall_mem_flatMap]
  refine ⟨⟨⟨?_, parameters⟩, ReturnType.within_types result⟩, fun type member => ?_⟩
  · exact List.forall_mem_flatMap.mp (TypeParameter.enclosed_within_types declared)
  · exact ThrownType.within_types (thrown type member).2

theorem FieldSignature.within_types {signature : FieldSignature}
    (within : Glyph.overrun? (signature.glyphs inside) = none) :
    ∀ type ∈ signature.types, Glyph.overrun? (type.glyphs 0 inside) = none :=
  List.forall_mem_singleton.mpr within

end Declarations

/-- Without a mark that exceeds a limit, a node keeps to the limits. -/
theorem Nonterminal.depths_of_within {symbol : Nonterminal} {node : symbol.Node} {inside : Nat}
    (nested : inside ≤ Cursor.maxDepth)
    (within : Glyph.overrun? (symbol.glyphs inside node) = none) :
    symbol.arrayDepth node ≤ ArrayType.maxDimensions ∧
      inside + symbol.argumentDepth node ≤ Cursor.maxDepth := by
  cases symbol with
  | javaType => exact (JavaType.depths_of_within node (Nat.zero_le _) nested within).2
  | referenceType => exact ReferenceType.depths_of_within node nested within
  | classType => exact ClassType.depths_of_within node nested within
  | simpleClassType => exact SimpleClassType.depths_of_within node nested within
  | arrayType => exact (ArrayType.depths_of_within node (Nat.zero_le _) nested within).2
  | typeVariable => exact ⟨Nat.zero_le _, nested⟩
  | typeArgument => exact TypeArgument.depths_of_within node nested within
  | typeParameter => exact JavaType.deepest_of_within nested (TypeParameter.within_types within)
  | classSignature => exact JavaType.deepest_of_within nested (ClassSignature.within_types within)
  | methodSignature => exact JavaType.deepest_of_within nested (MethodSignature.within_types within)
  | fieldSignature => exact JavaType.deepest_of_within nested (FieldSignature.within_types within)
  | returnType => exact JavaType.deepest_of_within nested (ReturnType.within_types within)
  | thrownType => exact JavaType.deepest_of_within nested (ThrownType.within_types within)

end Depths

end GenericSignature
