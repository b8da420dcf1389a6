/-! The primitive types and their one-letter descriptors.

Constructors stand in the order of the descriptors, with `boolean` last; this is also the order of
comparison.
-/

set_option autoImplicit false

namespace GenericSignature

inductive BaseType where
  | byte
  | char
  | double
  | float
  | int
  | long
  | short
  | boolean
  deriving DecidableEq, Ord, Repr

def BaseType.all : List BaseType := [.byte, .char, .double, .float, .int, .long, .short, .boolean]

/-- The letter that stands for the type in a signature. -/
def BaseType.descriptor : BaseType → Char
  | .byte => 'B'
  | .char => 'C'
  | .double => 'D'
  | .float => 'F'
  | .int => 'I'
  | .long => 'J'
  | .short => 'S'
  | .boolean => 'Z'

/-- The word that stands for the type in source code. -/
def BaseType.keyword : BaseType → String
  | .byte => "byte"
  | .char => "char"
  | .double => "double"
  | .float => "float"
  | .int => "int"
  | .long => "long"
  | .short => "short"
  | .boolean => "boolean"

def BaseType.ofDescriptor? : Char → Option BaseType
  | 'B' => some .byte
  | 'C' => some .char
  | 'D' => some .double
  | 'F' => some .float
  | 'I' => some .int
  | 'J' => some .long
  | 'S' => some .short
  | 'Z' => some .boolean
  | _ => none

theorem BaseType.ofDescriptor?_eq_some_iff {letter : Char} {base : BaseType} :
    ofDescriptor? letter = some base ↔ base.descriptor = letter := by
  constructor
  · intro found
    unfold ofDescriptor? at found
    split at found <;> simp_all [descriptor] <;> subst found <;> rfl
  · rintro rfl
    cases base <;> rfl

theorem BaseType.mem_all (base : BaseType) : base ∈ all := by
  cases base <;> decide

/-- A letter that is no descriptor, such as the `V` of a method without a result. -/
structure InvalidBaseType where
  letter : Char
  deriving DecidableEq, Repr

def InvalidBaseType.message (error : InvalidBaseType) : String :=
  s!"Invalid primitive type descriptor: {error.letter}"

def BaseType.ofDescriptor (letter : Char) : Except InvalidBaseType BaseType :=
  match ofDescriptor? letter with
  | some base => .ok base
  | none => .error ⟨letter⟩

end GenericSignature
