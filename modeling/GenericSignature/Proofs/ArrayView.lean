import GenericSignature.Grammar
import GenericSignature.Proofs.Dimension

/-! The two views of an array.

An array is one layer around its component, and it is a number of dimensions of its element. The
loops that lead from one view to the other are compared here with recursion on the layers, and so
is what is done from the second view: an array is written, and its classes are collected, as if
each layer stood for itself.
-/

set_option autoImplicit false

namespace GenericSignature

def JavaType.inLayers (component : JavaType) : Nat → JavaType
  | 0 => component
  | layers + 1 => .ofArray ⟨component.inLayers layers⟩

/-- What is left once every array layer is taken off. -/
def JavaType.core : JavaType → JavaType
  | .reference (.array ⟨component⟩) => component.core
  | .reference (.classType type) => .ofClass type
  | .reference (.variable type) => .ofVariable type
  | .base type => .base type

/-- The number of array layers around the core. -/
def JavaType.coreDepth : JavaType → Nat
  | .reference (.array ⟨component⟩) => component.coreDepth + 1
  | .reference (.classType _) | .reference (.variable _) | .base _ => 0

/-! ## Loops and recursion -/

section Layers

variable {component : JavaType} {dimensions : Nat}

theorem JavaType.stripLayers_eq (layers : Nat) (type : JavaType) :
    type.stripLayers layers = (type.core, layers + type.coreDepth) := by
  fun_induction stripLayers layers type with
  | case1 layers component ih =>
    rw [ih, core, coreDepth]
    congr 1
    omega
  | case2 => rfl
  | case3 => rfl
  | case4 => rfl

theorem JavaType.core_not_isArray (type : JavaType) : type.core.isArray = false := by
  fun_induction core type with
  | case1 component ih => exact ih
  | case2 => rfl
  | case3 => rfl
  | case4 => rfl

theorem JavaType.core_inLayers (component : JavaType) (layers : Nat) :
    (component.inLayers layers).core = component.core := by
  induction layers with
  | zero => rfl
  | succ layers ih => exact ih

theorem JavaType.coreDepth_inLayers (component : JavaType) (layers : Nat) :
    (component.inLayers layers).coreDepth = layers + component.coreDepth := by
  induction layers with
  | zero => simp [inLayers]
  | succ layers ih =>
    rw [inLayers, ofArray, coreDepth, ih]
    omega

theorem ArrayType.innermost_eq (array : ArrayType) :
    array.innermost = ((JavaType.ofArray array).core, (JavaType.ofArray array).coreDepth) := by
  obtain ⟨component⟩ := array
  rw [innermost, JavaType.stripLayers_eq, Nat.add_comm]
  rfl

/-- A layer that the loop adds on the inside could as well be added on the outside. -/
theorem ArrayType.ofArray_withDimensions (positive : 0 < dimensions) :
    .ofArray (withDimensions component dimensions positive) = component.inLayers dimensions := by
  obtain ⟨layers, rfl⟩ := Nat.exists_eq_add_one_of_ne_zero (Nat.ne_of_gt positive)
  rw [withDimensions, Nat.add_sub_cancel]
  induction layers with
  | zero => rfl
  | succ layers ih =>
    rw [addLayers_succ, JavaType.inLayers, ih (Nat.succ_pos layers)]

theorem ArrayType.innermost_withDimensions (positive : 0 < dimensions) :
    (withDimensions component dimensions positive).innermost =
      (component.core, dimensions + component.coreDepth) := by
  rw [innermost_eq, ofArray_withDimensions, JavaType.core_inLayers, JavaType.coreDepth_inLayers]

theorem ArrayType.ofDimensions_of_pos (positive : 0 < dimensions) :
    ofDimensions component dimensions = .ok (withDimensions component dimensions positive) :=
  dif_pos positive

theorem ArrayType.ofDimensions_innermost (array : ArrayType) :
    ofDimensions array.innermost.1 array.innermost.2 = .ok array := by
  have positive : 0 < array.innermost.2 := array.dimensions_pos
  rw [ofDimensions_of_pos positive]
  exact congrArg Except.ok array.withDimensions_element

end Layers

/-! ## Texts and classes -/

theorem ArrayType.text_mk (component : JavaType) :
    Nonterminal.arrayType.text ⟨component⟩ = "[" ++ Nonterminal.javaType.text component := by
  have bracket : "[" = String.ofList ['['] := rfl
  rw [bracket, Nonterminal.text, Nonterminal.text, ← String.ofList_append]
  rfl

theorem ArrayType.text_eq (array : ArrayType) :
    Nonterminal.arrayType.text array =
      String.ofList (List.replicate array.innermost.2 '[') ++
        Nonterminal.javaType.text array.innermost.1 := by
  rw [Nonterminal.text, Nonterminal.text, ← String.ofList_append]
  exact congrArg String.ofList array.chars_eq_strippedChars

theorem JavaType.references_innermost (type : JavaType) :
    references type.innermost = references type :=
  type.addReferences_stripLayers 0 ∅

theorem ArrayType.references_innermost (array : ArrayType) :
    references array.innermost.1 = references array :=
  (array.addReferences_eq_addStrippedReferences ∅).symm

/-- An array that is built from any component, an array or not, is taken apart into the core and
all the layers; an array that is taken apart is built again. -/
theorem ArrayType.views_agree (component : JavaType) (dimensions : Nat)
    (positive : 0 < dimensions) (array : ArrayType) :
    (∃ built, ofDimensions component dimensions = .ok built ∧
      .ofArray built = component.inLayers dimensions ∧
      built.innermost = (component.core, dimensions + component.coreDepth)) ∧
    component.core.isArray = false ∧
    ofDimensions array.innermost.1 array.innermost.2 = .ok array ∧
    (Nonterminal.arrayType.text ⟨component⟩ = "[" ++ Nonterminal.javaType.text component ∧
      references (ArrayType.mk component) = references component) ∧
    (Nonterminal.arrayType.text array = String.ofList (List.replicate array.innermost.2 '[') ++
        Nonterminal.javaType.text array.innermost.1 ∧
      references array = references array.innermost.1) := by
  have rebuilt := array.ofDimensions_innermost
  refine ⟨⟨_, ofDimensions_of_pos positive, ofArray_withDimensions positive,
    innermost_withDimensions positive⟩, component.core_not_isArray, rebuilt, ⟨?_, rfl⟩, ?_⟩
  · exact text_mk component
  · exact ⟨array.text_eq, array.references_innermost.symm⟩

theorem ArrayType.views_agree_layered :
    let component := JavaType.ofArray ⟨.ofClass (.named "A")⟩
    let array : ArrayType := ⟨.ofArray ⟨.ofVariable ⟨⟨"T"⟩⟩⟩⟩
    0 < 2 ∧
    (∃ built, ofDimensions component 2 = .ok built ∧ .ofArray built = component.inLayers 2 ∧
      built.innermost = (.ofClass (.named "A"), 3)) ∧
    component.core.isArray = false ∧
    ofDimensions (.ofVariable ⟨⟨"T"⟩⟩) 2 = .ok array ∧
    (Nonterminal.arrayType.text ⟨component⟩ = "[" ++ Nonterminal.javaType.text component ∧
      references (ArrayType.mk component) = references component) ∧
    (Nonterminal.arrayType.text array =
        "[[" ++ Nonterminal.javaType.text (.ofVariable ⟨⟨"T"⟩⟩) ∧
      references array = references (JavaType.ofVariable ⟨⟨"T"⟩⟩)) := by
  intro component array
  exact ⟨Nat.two_pos, views_agree component 2 Nat.two_pos array⟩

end GenericSignature
