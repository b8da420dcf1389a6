import GenericSignature.BaseType
import GenericSignature.Text

/-! The types of the signature language.

A class type names its outermost class by a binary name; the classes nested in it follow in
order, each with its own type arguments. An array type is one layer around a component, which may
be an array again. Nothing here asks that names obey the grammar.
-/

set_option autoImplicit false

namespace GenericSignature

/-- A use of a type parameter; the bounds stand where the parameter is declared. -/
structure TypeVariable where
  name : Identifier
  deriving DecidableEq, Repr

mutual

inductive JavaType where
  | base (type : BaseType)
  | reference (type : ReferenceType)

inductive ReferenceType where
  | classType (type : ClassType)
  | array (type : ArrayType)
  | variable (type : TypeVariable)

structure ClassType where
  binaryName : String
  arguments : List TypeArgument
  nested : List SimpleClassType

structure SimpleClassType where
  name : Identifier
  arguments : List TypeArgument

structure ArrayType where
  component : JavaType

inductive TypeArgument where
  | exactly (type : ReferenceType)
  | upperBounded (type : ReferenceType)
  | lowerBounded (type : ReferenceType)
  | unbounded

end

-- Lists of arguments and of nested classes are decided alongside the types that hold them.
mutual

def JavaType.decEq (first second : JavaType) : Decidable (first = second) :=
  match first, second with
  | .base a, .base b => decidable_of_iff (a = b) (by simp)
  | .reference a, .reference b =>
    haveI := ReferenceType.decEq a b
    decidable_of_iff (a = b) (by simp)
  | .base _, .reference _ | .reference _, .base _ => isFalse (by intro same; cases same)

def ReferenceType.decEq (first second : ReferenceType) : Decidable (first = second) :=
  match first, second with
  | .classType a, .classType b =>
    haveI := ClassType.decEq a b
    decidable_of_iff (a = b) (by simp)
  | .array a, .array b =>
    haveI := ArrayType.decEq a b
    decidable_of_iff (a = b) (by simp)
  | .variable a, .variable b => decidable_of_iff (a = b) (by simp)
  | .classType _, .array _ | .classType _, .variable _ | .array _, .classType _
  | .array _, .variable _ | .variable _, .classType _ | .variable _, .array _ =>
    isFalse (by intro same; cases same)

def ClassType.decEq (first second : ClassType) : Decidable (first = second) :=
  match first, second with
  | ⟨name, arguments, nested⟩, ⟨otherName, otherArguments, otherNested⟩ =>
    haveI := TypeArgument.decEqList arguments otherArguments
    haveI := SimpleClassType.decEqList nested otherNested
    decidable_of_iff (name = otherName ∧ arguments = otherArguments ∧ nested = otherNested)
      (by simp)

def SimpleClassType.decEq (first second : SimpleClassType) : Decidable (first = second) :=
  match first, second with
  | ⟨name, arguments⟩, ⟨otherName, otherArguments⟩ =>
    haveI := TypeArgument.decEqList arguments otherArguments
    decidable_of_iff (name = otherName ∧ arguments = otherArguments) (by simp)

def SimpleClassType.decEqList (first second : List SimpleClassType) : Decidable (first = second) :=
  match first, second with
  | [], [] => isTrue rfl
  | a :: rest, b :: otherRest =>
    haveI := SimpleClassType.decEq a b
    haveI := SimpleClassType.decEqList rest otherRest
    decidable_of_iff (a = b ∧ rest = otherRest) (by simp)
  | [], _ :: _ | _ :: _, [] => isFalse (by intro same; cases same)

def ArrayType.decEq (first second : ArrayType) : Decidable (first = second) :=
  match first, second with
  | ⟨a⟩, ⟨b⟩ =>
    haveI := JavaType.decEq a b
    decidable_of_iff (a = b) (by simp)

def TypeArgument.decEq (first second : TypeArgument) : Decidable (first = second) :=
  match first, second with
  | .exactly a, .exactly b | .upperBounded a, .upperBounded b
  | .lowerBounded a, .lowerBounded b =>
    haveI := ReferenceType.decEq a b
    decidable_of_iff (a = b) (by simp)
  | .unbounded, .unbounded => isTrue rfl
  | .exactly _, .upperBounded _ | .exactly _, .lowerBounded _ | .exactly _, .unbounded
  | .upperBounded _, .exactly _ | .upperBounded _, .lowerBounded _ | .upperBounded _, .unbounded
  | .lowerBounded _, .exactly _ | .lowerBounded _, .upperBounded _ | .lowerBounded _, .unbounded
  | .unbounded, .exactly _ | .unbounded, .upperBounded _ | .unbounded, .lowerBounded _ =>
    isFalse (by intro same; cases same)

def TypeArgument.decEqList (first second : List TypeArgument) : Decidable (first = second) :=
  match first, second with
  | [], [] => isTrue rfl
  | a :: rest, b :: otherRest =>
    haveI := TypeArgument.decEq a b
    haveI := TypeArgument.decEqList rest otherRest
    decidable_of_iff (a = b ∧ rest = otherRest) (by simp)
  | [], _ :: _ | _ :: _, [] => isFalse (by intro same; cases same)

end

instance : DecidableEq JavaType := JavaType.decEq
instance : DecidableEq ReferenceType := ReferenceType.decEq
instance : DecidableEq ClassType := ClassType.decEq
instance : DecidableEq SimpleClassType := SimpleClassType.decEq
instance : DecidableEq ArrayType := ArrayType.decEq
instance : DecidableEq TypeArgument := TypeArgument.decEq

def JavaType.ofClass (type : ClassType) : JavaType := .reference (.classType type)

def JavaType.ofArray (type : ArrayType) : JavaType := .reference (.array type)

def JavaType.ofVariable (type : TypeVariable) : JavaType := .reference (.variable type)

/-- How a type argument relates to its type. -/
inductive Wildcard where
  | exactly
  | upperBounded
  | lowerBounded
  | unbounded
  deriving DecidableEq, Repr

def TypeArgument.wildcard : TypeArgument → Wildcard
  | .exactly _ => .exactly
  | .upperBounded _ => .upperBounded
  | .lowerBounded _ => .lowerBounded
  | .unbounded => .unbounded

def TypeArgument.referenceType? : TypeArgument → Option ReferenceType
  | .exactly type | .upperBounded type | .lowerBounded type => some type
  | .unbounded => none

/-! ## Names of classes -/

/-- A class without type arguments and without nested classes. -/
def ClassType.named (binaryName : String) : ClassType := ⟨binaryName, [], []⟩

/-- The root of the class hierarchy. -/
def ClassType.object : ClassType := named "java/lang/Object"

def ClassType.isObject (type : ClassType) : Bool := type = object

/-- The binary name up to and including its last `/`; empty in the default package. -/
def ClassType.packageSpecifier (type : ClassType) : String :=
  String.ofList (type.binaryName.toList.reverse.dropWhile (· ≠ '/')).reverse

def ClassType.simpleName (type : ClassType) : String :=
  String.ofList (type.binaryName.toList.reverse.takeWhile (· ≠ '/')).reverse

theorem ClassType.packageSpecifier_append_simpleName (type : ClassType) :
    type.packageSpecifier ++ type.simpleName = type.binaryName := by
  rw [packageSpecifier, simpleName, ← String.ofList_append, ← List.reverse_append,
    List.takeWhile_append_dropWhile, List.reverse_reverse, String.ofList_toList]

/-- The binary name of the class selected by the whole type: every nested class is joined on
with `$`, whatever type arguments stand in between. -/
def ClassType.erasedName (type : ClassType) : String :=
  "$".intercalate (type.binaryName :: type.nested.map (·.name.text))

end GenericSignature
