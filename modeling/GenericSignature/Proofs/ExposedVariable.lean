import GenericSignature.Proofs.ResolvedText

/-! The variable that resolution replaces.

A type exposes a variable if it is that variable or an array of it. No other variable is asked for:
the scope enters into the result by the bound of the exposed variable only, and what is logged are
the records of this variable.
-/

set_option autoImplicit false

namespace GenericSignature

/-- The variable that the type consists of, apart from array layers. -/
def JavaType.exposed? (type : JavaType) : Option TypeVariable :=
  match type.innermost with
  | .reference (.variable start) => some start
  | _ => none

/-- The variable that is exposed in the upper bound of the argument. -/
def TypeArgument.exposed? : TypeArgument → Option TypeVariable
  | .exactly type | .upperBounded type => (JavaType.reference type).exposed?
  | .lowerBounded _ | .unbounded => none

/-- What is logged when an exposed variable is resolved; nothing if there is none. -/
def Scope.recordsOf (scope : Scope) (exposed : Option TypeVariable) : List LogRecord :=
  exposed.elim [] fun start => (scope.resolveVariable start).log

section Exposure

variable {scope : Scope} {type : JavaType} {array : ArrayType} {start : TypeVariable}

@[simp] theorem Scope.recordsOf_none (scope : Scope) : scope.recordsOf none = [] := rfl

@[simp] theorem Scope.recordsOf_some (scope : Scope) (start : TypeVariable) :
    scope.recordsOf (some start) = (scope.resolveVariable start).log := rfl

theorem JavaType.exposed?_eq_some_iff :
    type.exposed? = some start ↔ type.innermost = .ofVariable start := by
  unfold exposed? ofVariable
  split <;> simp_all

theorem JavaType.exposed?_ofArray :
    (JavaType.ofArray array).exposed? = some start ↔ array.element = .ofVariable start := by
  rw [exposed?_eq_some_iff, ofArray, innermost_array]

/-! ## Results -/

theorem Scope.replacement_ofVariable (scope : Scope) (start : TypeVariable) :
    scope.replacement (.ofVariable start) =
      .reference ((scope.resolveVariable start).value.getD (.classType .object)) := rfl

/-- Two scopes in which the exposed variable has the same bound resolve the array alike. -/
theorem Scope.resolveArray_value_congr {other : Scope}
    (exposes : (JavaType.ofArray array).exposed? = some start)
    (agree : (scope.resolveVariable start).value = (other.resolveVariable start).value) :
    (scope.resolveArray array).value = (other.resolveArray array).value := by
  have element := JavaType.exposed?_ofArray.mp exposes
  simp only [resolveArray_value, element, replacement_ofVariable, agree]

theorem Scope.resolveReference_value_congr {other : Scope} {type : ReferenceType}
    (exposes : (JavaType.reference type).exposed? = some start)
    (agree : (scope.resolveVariable start).value = (other.resolveVariable start).value) :
    (scope.resolveReference type).value = (other.resolveReference type).value := by
  match type with
  | .classType _ => rfl
  | .array array =>
    have same := resolveArray_value_congr exposes agree
    simp only [resolveReference, Logged.value_bind, Logged.value_pure, same]
  | .variable _ =>
    cases exposes
    exact agree

theorem Scope.resolveType_value_congr {other : Scope} (exposes : type.exposed? = some start)
    (agree : (scope.resolveVariable start).value = (other.resolveVariable start).value) :
    (scope.resolveType type).value = (other.resolveType type).value := by
  match type with
  | .base _ => rfl
  | .reference _ =>
    have same := resolveReference_value_congr exposes agree
    simp only [resolveType, Logged.value_bind, Logged.value_pure, same]

theorem Scope.resolveArgument_value_congr {other : Scope} {argument : TypeArgument}
    {type : ReferenceType} (bounded : argument.referenceType? = some type)
    (exposes : (JavaType.reference type).exposed? = some start)
    (agree : (scope.resolveVariable start).value = (other.resolveVariable start).value) :
    (scope.resolveArgument argument).value = (other.resolveArgument argument).value := by
  match argument with
  | .exactly _ | .upperBounded _ =>
    cases bounded
    exact resolveReference_value_congr exposes agree
  | .lowerBounded _ | .unbounded => rfl

/-! ## Records -/

theorem Scope.log_resolveArray (scope : Scope) (array : ArrayType) :
    (scope.resolveArray array).log = scope.recordsOf (JavaType.ofArray array).exposed? := by
  unfold resolveArray JavaType.exposed? JavaType.ofArray
  rw [JavaType.innermost_array]
  generalize array.element = element
  rcases element with _ | (_ | _ | _) <;> simp

theorem Scope.log_resolveReference (scope : Scope) (type : ReferenceType) :
    (scope.resolveReference type).log = scope.recordsOf (JavaType.reference type).exposed? := by
  cases type
  case array array =>
    rw [resolveReference, Logged.log_bind, Logged.log_pure, List.append_nil, log_resolveArray]
    rfl
  all_goals rfl

theorem Scope.log_resolveType (scope : Scope) (type : JavaType) :
    (scope.resolveType type).log = scope.recordsOf type.exposed? := by
  cases type with
  | base _ => rfl
  | reference _ =>
    rw [resolveType, Logged.log_bind, Logged.log_pure, List.append_nil, log_resolveReference]

theorem Scope.log_resolveArgument (scope : Scope) (argument : TypeArgument) :
    (scope.resolveArgument argument).log = scope.recordsOf argument.exposed? := by
  cases argument with
  | exactly type | upperBounded type => exact scope.log_resolveReference type
  | lowerBounded _ | unbounded => rfl

end Exposure

end GenericSignature
