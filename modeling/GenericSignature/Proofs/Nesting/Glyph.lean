import GenericSignature.Proofs.Reading.Production

/-! Texts in which the nesting is marked.

Every bracket of an array is numbered within its chain of array layers, and every opening of a list
of type arguments says inside how many other such lists it lies. The brackets around a list of type
parameters are no nesting.
-/

set_option autoImplicit false

namespace GenericSignature

/-- A character of a text, with what it adds to the nesting. -/
inductive Glyph where
  | plain (char : Char)
  | bracket (number : Nat)
  | opening (inside : Nat)
  deriving DecidableEq, Repr

def Glyph.char : Glyph → Char
  | .plain char => char
  | .bracket _ => '['
  | .opening _ => '<'

/-- The limit that is exceeded by the glyph, as the first one to do so. -/
def Glyph.limit? : Glyph → Option Nat
  | .plain _ => none
  | .bracket number =>
    if number = ArrayType.maxDimensions + 1 then some ArrayType.maxDimensions else none
  | .opening inside => if inside = Cursor.maxDepth then some Cursor.maxDepth else none

def Glyph.chars (glyphs : List Glyph) : List Char := glyphs.map char

/-! ## Marked texts -/

mutual

/-- The text of a type with `brackets` array layers directly around it, `inside` so many lists of
type arguments. -/
def JavaType.glyphs (brackets inside : Nat) : JavaType → List Glyph
  | .base type => [.plain type.descriptor]
  | .reference type => type.glyphs brackets inside

def ReferenceType.glyphs (brackets inside : Nat) : ReferenceType → List Glyph
  | .classType type => type.glyphs inside
  | .array type => type.glyphs brackets inside
  | .variable type => type.chars.map .plain

def ClassType.glyphs (inside : Nat) : ClassType → List Glyph
  | ⟨binaryName, arguments, nested⟩ =>
    .plain 'L' :: (binaryName.toList.map .plain ++ (TypeArgument.enclosedGlyphs inside arguments ++
      (SimpleClassType.selectedGlyphs inside nested ++ [.plain ';'])))

def SimpleClassType.glyphs (inside : Nat) : SimpleClassType → List Glyph
  | ⟨name, arguments⟩ =>
    name.text.toList.map .plain ++ TypeArgument.enclosedGlyphs inside arguments

def SimpleClassType.selectedGlyphs (inside : Nat) : List SimpleClassType → List Glyph
  | [] => []
  | first :: rest =>
    .plain '.' :: (first.glyphs inside ++ SimpleClassType.selectedGlyphs inside rest)

def ArrayType.glyphs (brackets inside : Nat) : ArrayType → List Glyph
  | ⟨component⟩ => .bracket (brackets + 1) :: component.glyphs (brackets + 1) inside

def TypeArgument.glyphs (inside : Nat) : TypeArgument → List Glyph
  | .exactly type => type.glyphs 0 inside
  | .upperBounded type => .plain '+' :: type.glyphs 0 inside
  | .lowerBounded type => .plain '-' :: type.glyphs 0 inside
  | .unbounded => [.plain '*']

def TypeArgument.listGlyphs (inside : Nat) : List TypeArgument → List Glyph
  | [] => []
  | first :: rest => first.glyphs inside ++ TypeArgument.listGlyphs inside rest

def TypeArgument.enclosedGlyphs (inside : Nat) : List TypeArgument → List Glyph
  | [] => []
  | first :: rest =>
    .opening inside :: (first.glyphs (inside + 1) ++
      (TypeArgument.listGlyphs (inside + 1) rest ++ [.plain '>']))

end

def TypeParameter.glyphs (inside : Nat) (parameter : TypeParameter) : List Glyph :=
  parameter.name.text.toList.map .plain ++ .plain ':' ::
    (parameter.classBound.elim [] (ReferenceType.glyphs 0 inside) ++
      parameter.interfaceBounds.flatMap fun bound => .plain ':' :: bound.glyphs 0 inside)

def TypeParameter.enclosedGlyphs (inside : Nat) : List TypeParameter → List Glyph
  | [] => []
  | declared => .plain '<' :: (declared.flatMap (glyphs inside) ++ [.plain '>'])

def ClassSignature.glyphs (inside : Nat) (signature : ClassSignature) : List Glyph :=
  TypeParameter.enclosedGlyphs inside signature.typeParameters ++
    (signature.superclass.glyphs inside ++ signature.interfaces.flatMap (ClassType.glyphs inside))

def ReturnType.glyphs (inside : Nat) : ReturnType → List Glyph
  | .value type => type.glyphs 0 inside
  | .void => [.plain 'V']

def ThrownType.glyphs (inside : Nat) (type : ThrownType) : List Glyph :=
  type.toReferenceType.glyphs 0 inside

def MethodSignature.glyphs (inside : Nat) (signature : MethodSignature) : List Glyph :=
  TypeParameter.enclosedGlyphs inside signature.typeParameters ++
    .plain '(' :: (signature.parameters.flatMap (JavaType.glyphs 0 inside) ++
      .plain ')' :: (signature.result.glyphs inside ++
        signature.thrown.flatMap fun type => .plain '^' :: type.glyphs inside))

def FieldSignature.glyphs (inside : Nat) (signature : FieldSignature) : List Glyph :=
  signature.type.glyphs 0 inside

def Nonterminal.glyphs (inside : Nat) : (symbol : Nonterminal) → symbol.Node → List Glyph
  | .javaType => JavaType.glyphs 0 inside
  | .referenceType => ReferenceType.glyphs 0 inside
  | .classType => ClassType.glyphs inside
  | .simpleClassType => SimpleClassType.glyphs inside
  | .arrayType => ArrayType.glyphs 0 inside
  | .typeVariable => fun type => type.chars.map .plain
  | .typeArgument => TypeArgument.glyphs inside
  | .typeParameter => TypeParameter.glyphs inside
  | .classSignature => ClassSignature.glyphs inside
  | .methodSignature => MethodSignature.glyphs inside
  | .fieldSignature => FieldSignature.glyphs inside
  | .returnType => ReturnType.glyphs inside
  | .thrownType => ThrownType.glyphs inside

/-! ## Without the marks, the text is the printed one -/

@[simp] theorem Glyph.chars_nil : chars [] = [] := rfl

@[simp] theorem Glyph.chars_cons (first : Glyph) (rest : List Glyph) :
    chars (first :: rest) = first.char :: chars rest := rfl

@[simp] theorem Glyph.chars_append (first second : List Glyph) :
    chars (first ++ second) = chars first ++ chars second := List.map_append

@[simp] theorem Glyph.chars_plain (text : List Char) : chars (text.map .plain) = text := by
  rw [chars, List.map_map]
  exact List.map_id text

@[simp] theorem Glyph.char_plain (char : Char) : (plain char).char = char := rfl
@[simp] theorem Glyph.char_bracket (number : Nat) : (bracket number).char = '[' := rfl
@[simp] theorem Glyph.char_opening (inside : Nat) : (opening inside).char = '<' := rfl

theorem Glyph.chars_flatMap {α : Type} (items : List α) (glyphs : α → List Glyph) :
    chars (items.flatMap glyphs) = items.flatMap fun item => chars (glyphs item) :=
  List.map_flatMap

mutual

theorem JavaType.chars_glyphs (brackets inside : Nat) :
    (type : JavaType) → Glyph.chars (type.glyphs brackets inside) = type.chars
  | .base _ => rfl
  | .reference type => type.chars_glyphs brackets inside

theorem ReferenceType.chars_glyphs (brackets inside : Nat) :
    (type : ReferenceType) → Glyph.chars (type.glyphs brackets inside) = type.chars
  | .classType type => type.chars_glyphs inside
  | .array type => type.chars_glyphs brackets inside
  | .variable type => Glyph.chars_plain type.chars

theorem ClassType.chars_glyphs (inside : Nat) :
    (type : ClassType) → Glyph.chars (type.glyphs inside) = type.chars
  | ⟨binaryName, arguments, nested⟩ => by
    simp [ClassType.glyphs, ClassType.chars, TypeArgument.chars_enclosedGlyphs inside arguments,
      SimpleClassType.chars_selectedGlyphs inside nested]

theorem SimpleClassType.chars_glyphs (inside : Nat) :
    (type : SimpleClassType) → Glyph.chars (type.glyphs inside) = type.chars
  | ⟨name, arguments⟩ => by
    simp [SimpleClassType.glyphs, SimpleClassType.chars,
      TypeArgument.chars_enclosedGlyphs inside arguments]

theorem SimpleClassType.chars_selectedGlyphs (inside : Nat) :
    (nested : List SimpleClassType) →
      Glyph.chars (SimpleClassType.selectedGlyphs inside nested) =
        SimpleClassType.selectedChars nested
  | [] => rfl
  | first :: rest => by
    simp [SimpleClassType.selectedGlyphs, SimpleClassType.selectedChars,
      first.chars_glyphs inside, SimpleClassType.chars_selectedGlyphs inside rest]

theorem ArrayType.chars_glyphs (brackets inside : Nat) :
    (type : ArrayType) → Glyph.chars (type.glyphs brackets inside) = type.chars
  | ⟨component⟩ => by
    simp [ArrayType.glyphs, ArrayType.chars, component.chars_glyphs (brackets + 1) inside]

theorem TypeArgument.chars_glyphs (inside : Nat) :
    (argument : TypeArgument) → Glyph.chars (argument.glyphs inside) = argument.chars
  | .exactly type => type.chars_glyphs 0 inside
  | .upperBounded type => congrArg (List.cons '+') (type.chars_glyphs 0 inside)
  | .lowerBounded type => congrArg (List.cons '-') (type.chars_glyphs 0 inside)
  | .unbounded => rfl

theorem TypeArgument.chars_listGlyphs (inside : Nat) :
    (arguments : List TypeArgument) → Glyph.chars (TypeArgument.listGlyphs inside arguments) =
      TypeArgument.listChars arguments
  | [] => rfl
  | first :: rest => by
    simp [TypeArgument.listGlyphs, TypeArgument.listChars, first.chars_glyphs inside,
      TypeArgument.chars_listGlyphs inside rest]

theorem TypeArgument.chars_enclosedGlyphs (inside : Nat) :
    (arguments : List TypeArgument) →
      Glyph.chars (TypeArgument.enclosedGlyphs inside arguments) =
        TypeArgument.enclosedChars arguments
  | [] => rfl
  | first :: rest => by
    simp [TypeArgument.enclosedGlyphs, TypeArgument.enclosedChars,
      first.chars_glyphs (inside + 1), TypeArgument.chars_listGlyphs (inside + 1) rest]

end

theorem TypeParameter.chars_glyphs (inside : Nat) (parameter : TypeParameter) :
    Glyph.chars (parameter.glyphs inside) = parameter.chars := by
  obtain ⟨name, classBound, interfaceBounds⟩ := parameter
  cases classBound <;>
    simp [glyphs, chars, Glyph.chars_flatMap, ReferenceType.chars_glyphs 0 inside]

theorem TypeParameter.chars_enclosedGlyphs (inside : Nat) (declared : List TypeParameter) :
    Glyph.chars (enclosedGlyphs inside declared) = enclosedChars declared := by
  cases declared <;> simp [enclosedGlyphs, enclosedChars, Glyph.chars_flatMap, chars_glyphs inside]

theorem ClassSignature.chars_glyphs (inside : Nat) (signature : ClassSignature) :
    Glyph.chars (signature.glyphs inside) = signature.chars := by
  simp [glyphs, chars, TypeParameter.chars_enclosedGlyphs inside, Glyph.chars_flatMap,
    ClassType.chars_glyphs inside]

theorem ReturnType.chars_glyphs (inside : Nat) (result : ReturnType) :
    Glyph.chars (result.glyphs inside) = result.chars := by
  cases result with
  | value type => exact type.chars_glyphs 0 inside
  | void => rfl

theorem ThrownType.chars_glyphs (inside : Nat) (type : ThrownType) :
    Glyph.chars (type.glyphs inside) = type.chars :=
  type.toReferenceType.chars_glyphs 0 inside

theorem MethodSignature.chars_glyphs (inside : Nat) (signature : MethodSignature) :
    Glyph.chars (signature.glyphs inside) = signature.chars := by
  simp [glyphs, chars, TypeParameter.chars_enclosedGlyphs inside, Glyph.chars_flatMap,
    JavaType.chars_glyphs 0 inside, ReturnType.chars_glyphs inside, ThrownType.chars_glyphs inside]

theorem Nonterminal.chars_glyphs (inside : Nat) (symbol : Nonterminal) (node : symbol.Node) :
    Glyph.chars (symbol.glyphs inside node) = symbol.chars node := by
  cases symbol with
  | javaType => exact JavaType.chars_glyphs 0 inside node
  | referenceType => exact ReferenceType.chars_glyphs 0 inside node
  | classType => exact ClassType.chars_glyphs inside node
  | simpleClassType => exact SimpleClassType.chars_glyphs inside node
  | arrayType => exact ArrayType.chars_glyphs 0 inside node
  | typeVariable => exact Glyph.chars_plain _
  | typeArgument => exact TypeArgument.chars_glyphs inside node
  | typeParameter => exact TypeParameter.chars_glyphs inside node
  | classSignature => exact ClassSignature.chars_glyphs inside node
  | methodSignature => exact MethodSignature.chars_glyphs inside node
  | fieldSignature => exact ReferenceType.chars_glyphs 0 inside _
  | returnType => exact ReturnType.chars_glyphs inside node
  | thrownType => exact ThrownType.chars_glyphs inside node

end GenericSignature
