import GenericSignature.Declaration
import GenericSignature.JavaType.Dimension
import GenericSignature.Log

/-! Scopes of type parameters, and the resolution of types in them.

A type without an exposed variable stays as it is: only a variable itself, or one that is the
element of an array, is replaced by its bound. Type arguments are never touched.
-/

set_option autoImplicit false

namespace GenericSignature

/-- The lists of type parameters in view, from the innermost declaration outwards. An inner
parameter hides the outer ones of its name. -/
abbrev Scope := List (List TypeParameter)

inductive ChainEnd where
  | bound (type : ReferenceType)
  | unbounded (last : TypeVariable)
  | undeclared (last : TypeVariable)
  | cyclic
  deriving DecidableEq

/-- Follows bounds that are themselves variables through the parameters `declared`. A name that is
followed is struck from `unvisited`; to come to a declared name that is not there is to go round in
a circle. A name that is declared twice can be struck twice, which only puts off that end. -/
def TypeParameter.chainEndWithin (declared : List TypeParameter) (unvisited : List Identifier)
    (current : TypeVariable) : ChainEnd :=
  match find? declared current.name with
  | none => .undeclared current
  | some parameter =>
    if current.name ∈ unvisited then
      match parameter.bound? with
      | some (.variable next) => chainEndWithin declared (unvisited.erase current.name) next
      | some bound => .bound bound
      | none => .unbounded current
    else .cyclic
termination_by unvisited.length
decreasing_by
  rename_i visits
  have nonempty := List.length_pos_of_mem visits
  rw [List.length_erase_of_mem visits]
  omega

def TypeParameter.chainEnd (declared : List TypeParameter) (start : TypeVariable) : ChainEnd :=
  chainEndWithin declared (declared.map (·.name)) start

/-- The bound at the end of the chain that starts at a variable. The chain goes on in the next
outer list when it reaches a name that the inner one does not declare, and never comes back. -/
def Scope.resolveVariable : Scope → TypeVariable → Logged (Option ReferenceType)
  | [], start => ⟨none, [.undeclared start.name]⟩
  | declared :: outer, start =>
    match TypeParameter.chainEnd declared start with
    | .bound type => ⟨some type, []⟩
    | .unbounded last => ⟨none, [.unbounded last.name]⟩
    | .cyclic => ⟨none, [.cyclicBound start.name]⟩
    | .undeclared last =>
      let result := resolveVariable outer last
      ⟨result.value,
        if outer.isEmpty then result.log else .undeclaredByMethod last.name :: result.log⟩

/-! ## Types -/

def Scope.resolveArray (scope : Scope) (array : ArrayType) : Logged ArrayType := do
  let element ← match array.element with
    | .reference (.variable type) =>
      pure (.reference ((← scope.resolveVariable type).getD (.classType .object)))
    | element => pure element
  return .withDimensions element array.dimensions array.dimensions_pos

def Scope.resolveReference (scope : Scope) : ReferenceType → Logged (Option ReferenceType)
  | .classType type => pure (some (.classType type))
  | .array type => return some (.array (← scope.resolveArray type))
  | .variable type => scope.resolveVariable type

def Scope.resolveType (scope : Scope) : JavaType → Logged (Option JavaType)
  | .base type => pure (some (.base type))
  | .reference type => return (← scope.resolveReference type).map .reference

def Scope.resolveArgument (scope : Scope) : TypeArgument → Logged (Option ReferenceType)
  | .exactly type | .upperBounded type => scope.resolveReference type
  | .lowerBounded _ | .unbounded => pure none

end GenericSignature
