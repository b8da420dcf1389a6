import GenericSignature.JavaType.Dimension

/-! The canonical text of a type.

Every type has exactly one text. A list of type arguments is written only if it has members. An
array is written layer by layer, which is the same as all of its brackets and then its element.
-/

set_option autoImplicit false

namespace GenericSignature

mutual

def JavaType.chars : JavaType → List Char
  | .base type => [type.descriptor]
  | .reference type => type.chars

def ReferenceType.chars : ReferenceType → List Char
  | .classType type => type.chars
  | .array type => type.chars
  | .variable type => 'T' :: (type.name.text.toList ++ [';'])

def ClassType.chars : ClassType → List Char
  | ⟨binaryName, arguments, nested⟩ =>
    'L' :: (binaryName.toList ++ TypeArgument.enclosedChars arguments ++
      SimpleClassType.selectedChars nested ++ [';'])

def SimpleClassType.chars : SimpleClassType → List Char
  | ⟨name, arguments⟩ => name.text.toList ++ TypeArgument.enclosedChars arguments

def SimpleClassType.selectedChars : List SimpleClassType → List Char
  | [] => []
  | first :: rest => '.' :: (first.chars ++ SimpleClassType.selectedChars rest)

def ArrayType.chars : ArrayType → List Char
  | ⟨component⟩ => '[' :: component.chars

def TypeArgument.chars : TypeArgument → List Char
  | .exactly type => type.chars
  | .upperBounded type => '+' :: type.chars
  | .lowerBounded type => '-' :: type.chars
  | .unbounded => ['*']

def TypeArgument.listChars : List TypeArgument → List Char
  | [] => []
  | first :: rest => first.chars ++ TypeArgument.listChars rest

def TypeArgument.enclosedChars : List TypeArgument → List Char
  | [] => []
  | first :: rest => '<' :: (first.chars ++ TypeArgument.listChars rest ++ ['>'])

end

/-- All the brackets at once, and what is left without its layers. -/
def ArrayType.strippedChars (array : ArrayType) : List Char :=
  List.replicate array.dimensions '[' ++ array.element.chars

theorem JavaType.chars_stripLayers (layers : Nat) (type : JavaType) :
    List.replicate (type.stripLayers layers).2 '[' ++ (type.stripLayers layers).1.chars =
      List.replicate layers '[' ++ type.chars := by
  fun_induction stripLayers layers type with
  | case1 layers component ih =>
    rw [ih, List.replicate_succ', List.append_assoc]
    rfl
  | case2 => rfl
  | case3 => rfl
  | case4 => rfl

theorem ArrayType.chars_eq_strippedChars (array : ArrayType) :
    array.chars = array.strippedChars := by
  obtain ⟨component⟩ := array
  exact (component.chars_stripLayers 1).symm

def TypeVariable.chars (type : TypeVariable) : List Char := (ReferenceType.variable type).chars

end GenericSignature
