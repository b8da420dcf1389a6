import GenericSignature.Grammar
import GenericSignature.Proofs.Dimension
import Mathlib.Data.List.Chain

/-! Which nodes have a text that leads back to them.

Names have to end where the text around them begins, and two neighbouring type parameters must not
read as one. The nesting of arrays and of lists of type arguments is bounded as well.
-/

set_option autoImplicit false

namespace GenericSignature

def Identifier.IsName (text : String) : Prop :=
  text ≠ "" ∧ ∀ char ∈ text.toList, isNameChar char = true

instance Identifier.decidableIsName (text : String) : Decidable (IsName text) :=
  decidable_of_iff (text ≠ "" ∧ text.toList.all isNameChar = true) <| by
    rw [IsName, List.all_eq_true]

/-- One or more names with a slash between any two. -/
def ClassType.IsBinaryName (binaryName : String) : Prop :=
  ∃ names : List String, names ≠ [] ∧ (∀ name ∈ names, Identifier.IsName name) ∧
    binaryName = "/".intercalate names

/-! ## Names

A node is legible if all its names are.
-/

mutual

def JavaType.Legible : JavaType → Prop
  | .base _ => True
  | .reference type => type.Legible

def ReferenceType.Legible : ReferenceType → Prop
  | .classType type => type.Legible
  | .array type => type.Legible
  | .variable type => Identifier.IsName type.name.text

def ClassType.Legible : ClassType → Prop
  | ⟨binaryName, arguments, nested⟩ =>
    ClassType.IsBinaryName binaryName ∧ TypeArgument.ListLegible arguments ∧
      SimpleClassType.ListLegible nested

def SimpleClassType.Legible : SimpleClassType → Prop
  | ⟨name, arguments⟩ => Identifier.IsName name.text ∧ TypeArgument.ListLegible arguments

def SimpleClassType.ListLegible : List SimpleClassType → Prop
  | [] => True
  | first :: rest => first.Legible ∧ SimpleClassType.ListLegible rest

def ArrayType.Legible : ArrayType → Prop
  | ⟨component⟩ => component.Legible

def TypeArgument.Legible : TypeArgument → Prop
  | .exactly type => type.Legible
  | .upperBounded type => type.Legible
  | .lowerBounded type => type.Legible
  | .unbounded => True

def TypeArgument.ListLegible : List TypeArgument → Prop
  | [] => True
  | first :: rest => first.Legible ∧ TypeArgument.ListLegible rest

end

/-! ## Nesting

The array depth is the length of the longest chain of array layers around one another. The argument
depth is the number of lists of type arguments in one another, where lists side by side count once.
-/

mutual

def JavaType.arrayDepth : JavaType → Nat
  | .base _ => 0
  | .reference type => type.arrayDepth

def ReferenceType.arrayDepth : ReferenceType → Nat
  | .classType type => type.arrayDepth
  | .array type => type.arrayDepth
  | .variable _ => 0

def ClassType.arrayDepth : ClassType → Nat
  | ⟨_, arguments, nested⟩ =>
    max (TypeArgument.listArrayDepth arguments) (SimpleClassType.listArrayDepth nested)

def SimpleClassType.arrayDepth : SimpleClassType → Nat
  | ⟨_, arguments⟩ => TypeArgument.listArrayDepth arguments

def SimpleClassType.listArrayDepth : List SimpleClassType → Nat
  | [] => 0
  | first :: rest => max first.arrayDepth (SimpleClassType.listArrayDepth rest)

def ArrayType.arrayDepth : ArrayType → Nat
  | ⟨component⟩ => max (ArrayType.dimensions ⟨component⟩) component.arrayDepth

def TypeArgument.arrayDepth : TypeArgument → Nat
  | .exactly type => type.arrayDepth
  | .upperBounded type => type.arrayDepth
  | .lowerBounded type => type.arrayDepth
  | .unbounded => 0

def TypeArgument.listArrayDepth : List TypeArgument → Nat
  | [] => 0
  | first :: rest => max first.arrayDepth (TypeArgument.listArrayDepth rest)

end

mutual

def JavaType.argumentDepth : JavaType → Nat
  | .base _ => 0
  | .reference type => type.argumentDepth

def ReferenceType.argumentDepth : ReferenceType → Nat
  | .classType type => type.argumentDepth
  | .array type => type.argumentDepth
  | .variable _ => 0

def ClassType.argumentDepth : ClassType → Nat
  | ⟨_, arguments, nested⟩ =>
    max (TypeArgument.enclosedDepth arguments) (SimpleClassType.listArgumentDepth nested)

def SimpleClassType.argumentDepth : SimpleClassType → Nat
  | ⟨_, arguments⟩ => TypeArgument.enclosedDepth arguments

def SimpleClassType.listArgumentDepth : List SimpleClassType → Nat
  | [] => 0
  | first :: rest => max first.argumentDepth (SimpleClassType.listArgumentDepth rest)

def ArrayType.argumentDepth : ArrayType → Nat
  | ⟨component⟩ => component.argumentDepth

def TypeArgument.argumentDepth : TypeArgument → Nat
  | .exactly type => type.argumentDepth
  | .upperBounded type => type.argumentDepth
  | .lowerBounded type => type.argumentDepth
  | .unbounded => 0

def TypeArgument.listArgumentDepth : List TypeArgument → Nat
  | [] => 0
  | first :: rest => max first.argumentDepth (TypeArgument.listArgumentDepth rest)

/-- An absent list is no level of nesting. -/
def TypeArgument.enclosedDepth : List TypeArgument → Nat
  | [] => 0
  | first :: rest => max first.argumentDepth (TypeArgument.listArgumentDepth rest) + 1

end

/-! ## Declarations -/

/-- The types that are written in the bounds. -/
def TypeParameter.types (parameter : TypeParameter) : List JavaType :=
  (parameter.classBound.toList ++ parameter.interfaceBounds).map .reference

/-- A parameter without any bound ends in a colon, and an `L` or a `T` after that would be the
start of its class bound. -/
def TypeParameter.Apart (first second : TypeParameter) : Prop :=
  first.classBound = none → first.interfaceBounds = [] →
    second.name.text.toList.head? ≠ some 'L' ∧ second.name.text.toList.head? ≠ some 'T'

def TypeParameter.ListLegible (declared : List TypeParameter) : Prop :=
  (∀ parameter ∈ declared, Identifier.IsName parameter.name.text) ∧ declared.IsChain Apart

def ReturnType.types : ReturnType → List JavaType
  | .value type => [type]
  | .void => []

def ThrownType.types (thrown : ThrownType) : List JavaType := [.reference thrown.toReferenceType]

def ClassSignature.types (signature : ClassSignature) : List JavaType :=
  signature.typeParameters.flatMap TypeParameter.types ++
    (signature.superclass :: signature.interfaces).map .ofClass

def MethodSignature.types (signature : MethodSignature) : List JavaType :=
  signature.typeParameters.flatMap TypeParameter.types ++ signature.parameters ++
    signature.result.types ++ signature.thrown.flatMap ThrownType.types

def FieldSignature.types (signature : FieldSignature) : List JavaType := [.reference signature.type]

/-- Depth over a list is the maximum, so it is bounded where that of every member is. -/
theorem maximum_le_iff {α : Type} {depth : α → Nat} {listDepth : List α → Nat}
    (nil : listDepth [] = 0)
    (cons : ∀ first rest, listDepth (first :: rest) = max (depth first) (listDepth rest))
    {items : List α} {bound : Nat} :
    listDepth items ≤ bound ↔ ∀ item ∈ items, depth item ≤ bound := by
  induction items with
  | nil =>
    rw [nil]
    exact ⟨fun _ => List.forall_mem_nil _, fun _ => Nat.zero_le bound⟩
  | cons first rest ih => rw [cons, Nat.max_le, ih, List.forall_mem_cons]

def JavaType.deepest (depth : JavaType → Nat) (types : List JavaType) : Nat :=
  types.foldr (fun type below => max (depth type) below) 0

theorem JavaType.deepest_le_iff {depth : JavaType → Nat} {types : List JavaType} {bound : Nat} :
    deepest depth types ≤ bound ↔ ∀ type ∈ types, depth type ≤ bound :=
  maximum_le_iff rfl fun _ _ => rfl

/-! ## Nodes -/

def Nonterminal.Legible : (symbol : Nonterminal) → symbol.Node → Prop
  | .javaType => JavaType.Legible
  | .referenceType => ReferenceType.Legible
  | .classType => ClassType.Legible
  | .simpleClassType => SimpleClassType.Legible
  | .arrayType => ArrayType.Legible
  | .typeVariable => fun type => Identifier.IsName type.name.text
  | .typeArgument => TypeArgument.Legible
  | .typeParameter => fun parameter =>
    Identifier.IsName parameter.name.text ∧ ∀ type ∈ parameter.types, type.Legible
  | .classSignature => fun signature =>
    TypeParameter.ListLegible signature.typeParameters ∧ ∀ type ∈ signature.types, type.Legible
  | .methodSignature => fun signature =>
    TypeParameter.ListLegible signature.typeParameters ∧ ∀ type ∈ signature.types, type.Legible
  | .fieldSignature => fun signature => ∀ type ∈ signature.types, type.Legible
  | .returnType => fun result => ∀ type ∈ result.types, type.Legible
  | .thrownType => fun thrown => ∀ type ∈ thrown.types, type.Legible

def Nonterminal.arrayDepth : (symbol : Nonterminal) → symbol.Node → Nat
  | .javaType => JavaType.arrayDepth
  | .referenceType => ReferenceType.arrayDepth
  | .classType => ClassType.arrayDepth
  | .simpleClassType => SimpleClassType.arrayDepth
  | .arrayType => ArrayType.arrayDepth
  | .typeVariable => fun _ => 0
  | .typeArgument => TypeArgument.arrayDepth
  | .typeParameter => fun parameter => JavaType.deepest JavaType.arrayDepth parameter.types
  | .classSignature => fun signature => JavaType.deepest JavaType.arrayDepth signature.types
  | .methodSignature => fun signature => JavaType.deepest JavaType.arrayDepth signature.types
  | .fieldSignature => fun signature => JavaType.deepest JavaType.arrayDepth signature.types
  | .returnType => fun result => JavaType.deepest JavaType.arrayDepth result.types
  | .thrownType => fun thrown => JavaType.deepest JavaType.arrayDepth thrown.types

def Nonterminal.argumentDepth : (symbol : Nonterminal) → symbol.Node → Nat
  | .javaType => JavaType.argumentDepth
  | .referenceType => ReferenceType.argumentDepth
  | .classType => ClassType.argumentDepth
  | .simpleClassType => SimpleClassType.argumentDepth
  | .arrayType => ArrayType.argumentDepth
  | .typeVariable => fun _ => 0
  | .typeArgument => TypeArgument.argumentDepth
  | .typeParameter => fun parameter => JavaType.deepest JavaType.argumentDepth parameter.types
  | .classSignature => fun signature => JavaType.deepest JavaType.argumentDepth signature.types
  | .methodSignature => fun signature => JavaType.deepest JavaType.argumentDepth signature.types
  | .fieldSignature => fun signature => JavaType.deepest JavaType.argumentDepth signature.types
  | .returnType => fun result => JavaType.deepest JavaType.argumentDepth result.types
  | .thrownType => fun thrown => JavaType.deepest JavaType.argumentDepth thrown.types

/-- A node that can be written with the given number of lists of type arguments in one another. -/
structure Nonterminal.Fits (symbol : Nonterminal) (levels : Nat) (node : symbol.Node) : Prop where
  legible : symbol.Legible node
  arrays : symbol.arrayDepth node ≤ ArrayType.maxDimensions
  arguments : symbol.argumentDepth node ≤ levels

def Nonterminal.WellFormed (symbol : Nonterminal) (node : symbol.Node) : Prop :=
  symbol.Fits Cursor.maxDepth node

end GenericSignature
