import GenericSignature.Proofs.Occurrence
import GenericSignature.Proofs.RoundTrip
import Mathlib.Data.List.DropRight

/-! The names of referenced classes as names of classes in their own right.

Wherever a class type occurs in a text that is read, the classes nested in it are joined on to the
last name of its binary name, and `$` is a character of names like any other. So what is collected
can be written as a class again.
-/

set_option autoImplicit false

namespace GenericSignature

/-! ## Legible parts -/

def ReferrerKind.Legible : (kind : ReferrerKind) → kind.Item → Prop
  | .baseType => fun _ => True
  | .javaType => JavaType.Legible
  | .referenceType => ReferenceType.Legible
  | .classType => ClassType.Legible
  | .arrayType => ArrayType.Legible
  | .typeVariable => fun type => Identifier.IsName type.name.text
  | .typeArgument => TypeArgument.Legible
  | .typeParameter => fun parameter => ∀ type ∈ parameter.types, type.Legible
  | .classSignature => fun signature => ∀ type ∈ signature.types, type.Legible
  | .methodSignature => fun signature => ∀ type ∈ signature.types, type.Legible
  | .fieldSignature => fun signature => ∀ type ∈ signature.types, type.Legible
  | .returnType => fun result => ∀ type ∈ result.types, type.Legible
  | .thrownType => fun thrown => ∀ type ∈ thrown.types, type.Legible
  | .signature => fun signature =>
    match signature with
    | .ofClass signature => ∀ type ∈ signature.types, type.Legible
    | .ofMethod signature => ∀ type ∈ signature.types, type.Legible
    | .ofField signature => ∀ type ∈ signature.types, type.Legible
  | .list kind => fun items => ∀ item ∈ items, kind.Legible item
  | .option kind => fun item => ∀ present ∈ item, kind.Legible present

def Referrer.Legible (referrer : Referrer) : Prop := referrer.kind.Legible referrer.item

section Parts

variable {inner outer : Referrer}

theorem SimpleClassType.legible_arguments {type : SimpleClassType} (legible : type.Legible) :
    ∀ argument ∈ type.arguments, argument.Legible := by
  obtain ⟨name, arguments⟩ := type
  exact TypeArgument.listLegible_iff.mp legible.2

theorem ClassType.legible_arguments {type : ClassType} (legible : type.Legible) :
    ∀ argument ∈ type.arguments ++ type.nested.flatMap (·.arguments), argument.Legible := by
  obtain ⟨binaryName, arguments, nested⟩ := type
  obtain ⟨-, legibleArguments, legibleNested⟩ := legible
  rw [List.forall_mem_append, List.forall_mem_flatMap]
  refine ⟨TypeArgument.listLegible_iff.mp legibleArguments, fun simple member => ?_⟩
  have legibleSimple := SimpleClassType.listLegible_iff.mp legibleNested simple member
  exact SimpleClassType.legible_arguments legibleSimple

/-- One step of occurrence, with a case for each sort of node. -/
theorem Referrer.Legible.of_part (legible : outer.Legible) :
    ∀ part ∈ outer.parts, part.Legible := by
  match outer with
  | ⟨.baseType, _⟩ | ⟨.typeVariable, _⟩ | ⟨.typeArgument, .unbounded⟩ | ⟨.returnType, .void⟩ =>
    exact List.forall_mem_nil _
  | ⟨.javaType, .base _⟩ => exact List.forall_mem_singleton.mpr trivial
  | ⟨.javaType, .reference _⟩ | ⟨.referenceType, .classType _⟩ | ⟨.referenceType, .array _⟩
  | ⟨.referenceType, .variable _⟩ | ⟨.arrayType, ⟨_⟩⟩ | ⟨.typeArgument, .exactly _⟩
  | ⟨.typeArgument, .upperBounded _⟩ | ⟨.typeArgument, .lowerBounded _⟩
  | ⟨.signature, .ofClass _⟩ | ⟨.signature, .ofMethod _⟩ | ⟨.signature, .ofField _⟩ =>
    exact List.forall_mem_singleton.mpr legible
  | ⟨.fieldSignature, ⟨_⟩⟩ | ⟨.returnType, .value _⟩ | ⟨.thrownType, .classType _⟩
  | ⟨.thrownType, .variable _⟩ =>
    exact List.forall_mem_singleton.mpr (legible _ (List.mem_singleton_self _))
  | ⟨.classType, ⟨binaryName, arguments, nested⟩⟩ =>
    rw [parts, List.forall_mem_map]
    exact ClassType.legible_arguments legible
  | ⟨.typeParameter, ⟨name, classBound, interfaceBounds⟩⟩ =>
    simp only [Legible, ReferrerKind.Legible, TypeParameter.types, List.forall_mem_map,
      List.forall_mem_append, Option.mem_toList] at legible
    obtain ⟨legibleClass, legibleInterfaces⟩ := legible
    simp only [parts, List.forall_mem_cons]
    exact ⟨legibleClass, legibleInterfaces, List.forall_mem_nil _⟩
  | ⟨.classSignature, ⟨typeParameters, superclass, interfaces⟩⟩ =>
    simp only [Legible, ReferrerKind.Legible, ClassSignature.types, List.forall_mem_append,
      List.forall_mem_flatMap, List.forall_mem_map, List.forall_mem_cons] at legible
    obtain ⟨legibleBounds, legibleSuperclass, legibleInterfaces⟩ := legible
    simp only [parts, List.forall_mem_cons]
    exact ⟨legibleBounds, legibleSuperclass, legibleInterfaces, List.forall_mem_nil _⟩
  | ⟨.methodSignature, ⟨typeParameters, parameters, result, thrown⟩⟩ =>
    simp only [Legible, ReferrerKind.Legible, MethodSignature.types, List.forall_mem_append,
      List.forall_mem_flatMap] at legible
    obtain ⟨⟨⟨legibleBounds, legibleParameters⟩, legibleResult⟩, legibleThrown⟩ := legible
    simp only [parts, List.forall_mem_cons]
    exact ⟨legibleBounds, legibleParameters, legibleResult, legibleThrown, List.forall_mem_nil _⟩
  | ⟨.list kind, items⟩ =>
    rw [parts, List.forall_mem_map]
    exact legible
  | ⟨.option kind, item⟩ =>
    rw [parts, List.forall_mem_map]
    exact fun present member => legible present (Option.mem_toList.mp member)

theorem Referrer.OccursIn.legible (occurs : inner.OccursIn outer) (legible : outer.Legible) :
    inner.Legible := by
  induction occurs with
  | refl => exact legible
  | tail _ isPart ih => exact ih (legible.of_part _ isPart)

end Parts

/-! ## Names -/

section Names

variable {binaryName name first second : String} {type : ClassType}

theorem Identifier.IsName.join (isFirst : IsName first) (isSecond : IsName second) :
    IsName (first ++ "$" ++ second) := by
  have dollar : ∀ char ∈ "$".toList, isNameChar char = true := List.forall_mem_singleton.mpr rfl
  refine ⟨fun empty => ?_, ?_⟩
  · exact isSecond.1 (String.append_eq_empty_iff.mp empty).2
  · simp only [String.toList_append, List.forall_mem_append]
    exact ⟨⟨isFirst.2, dollar⟩, isSecond.2⟩

theorem ClassType.exists_intercalate_concat (before : List String) :
    ∃ outer, ∀ last, "/".intercalate (before ++ [last]) = outer ++ last := by
  by_cases alone : before = []
  · subst alone
    refine ⟨"", fun last => ?_⟩
    rw [List.nil_append, String.intercalate_singleton, String.empty_append]
  · refine ⟨"/".intercalate before ++ "/", fun last => ?_⟩
    rw [String.intercalate_append_of_ne_nil alone (List.cons_ne_nil _ _),
      String.intercalate_singleton]

/-- Any other name could stand in the place of the last one. -/
theorem ClassType.IsBinaryName.exists_last (isBinary : IsBinaryName binaryName) :
    ∃ outer last, binaryName = outer ++ last ∧ Identifier.IsName last ∧
      ∀ other, Identifier.IsName other → IsBinaryName (outer ++ other) := by
  obtain ⟨names, nonempty, areNames, rfl⟩ := isBinary
  obtain rfl | ⟨before, last, rfl⟩ := names.eq_nil_or_concat
  · exact absurd rfl nonempty
  rw [List.concat_eq_append] at areNames ⊢
  obtain ⟨areBefore, isLast⟩ := List.forall_mem_append.mp areNames
  obtain ⟨outer, joins⟩ := exists_intercalate_concat before
  refine ⟨outer, last, joins last, List.forall_mem_singleton.mp isLast, fun other isOther => ?_⟩
  refine ⟨before ++ [other], by simp, ?_, (joins other).symm⟩
  exact List.forall_mem_append.mpr ⟨areBefore, List.forall_mem_singleton.mpr isOther⟩

theorem ClassType.IsBinaryName.join (isBinary : IsBinaryName binaryName)
    (isName : Identifier.IsName name) : IsBinaryName (binaryName ++ "$" ++ name) := by
  obtain ⟨outer, last, rfl, isLast, others⟩ := isBinary.exists_last
  have joined := others _ (isLast.join isName)
  rwa [← String.append_assoc, ← String.append_assoc] at joined

theorem ClassType.IsBinaryName.intercalate {names : List String}
    (isBinary : IsBinaryName binaryName) (areNames : ∀ name ∈ names, Identifier.IsName name) :
    IsBinaryName ("$".intercalate (binaryName :: names)) := by
  induction names generalizing binaryName with
  | nil => rwa [String.intercalate_singleton]
  | cons first rest ih =>
    obtain ⟨isFirst, areRest⟩ := List.forall_mem_cons.mp areNames
    -- The first nested class becomes part of the binary name before the others are joined on.
    rw [String.intercalate_cons_cons, ← String.intercalate_cons_append]
    exact ih (isBinary.join isFirst) areRest

theorem ClassType.isBinaryName_erasedName (legible : type.Legible) :
    IsBinaryName type.erasedName := by
  obtain ⟨binaryName, arguments, nested⟩ := type
  obtain ⟨isBinary, -, legibleNested⟩ := legible
  apply isBinary.intercalate
  rw [List.forall_mem_map]
  intro simple member
  obtain ⟨name, arguments⟩ := simple
  exact (SimpleClassType.listLegible_iff.mp legibleNested _ member).1

/-! ## Packages -/

theorem ClassType.toList_packageSpecifier (type : ClassType) :
    type.packageSpecifier.toList = type.binaryName.toList.rdropWhile (· ≠ '/') :=
  String.toList_ofList

theorem ClassType.toList_simpleName (type : ClassType) :
    type.simpleName.toList = type.binaryName.toList.rtakeWhile (· ≠ '/') :=
  String.toList_ofList

theorem ClassType.packageSpecifier_ends (type : ClassType) :
    type.packageSpecifier = "" ∨ ∃ outer, type.packageSpecifier = outer ++ "/" := by
  obtain empty | ⟨before, char, split⟩ := type.packageSpecifier.toList.eq_nil_or_concat
  · exact .inl (String.toList_eq_nil_iff.mp empty)
  · have kept := type.toList_packageSpecifier
    rw [split, List.concat_eq_append] at kept
    have nonempty : before ++ [char] ≠ [] := by simp
    have stopped := List.rdropWhile_last_not (· ≠ '/') type.binaryName.toList (kept ▸ nonempty)
    simp only [← kept, List.getLast_append_singleton, decide_eq_true_eq, not_not] at stopped
    refine .inr ⟨String.ofList before, String.toList_injective ?_⟩
    rw [split, List.concat_eq_append, stopped, String.toList_append, String.toList_ofList]
    rfl

theorem ClassType.slash_notMem_simpleName (type : ClassType) :
    '/' ∉ type.simpleName.toList := by
  intro member
  rw [toList_simpleName] at member
  have unlike := List.mem_rtakeWhile_imp member
  exact of_decide_eq_true unlike rfl

/-- A name ends in a character other than a slash. -/
theorem ClassType.simpleName_ne_empty (isBinary : IsBinaryName type.binaryName) :
    type.simpleName ≠ "" := by
  obtain ⟨outer, last, whole, isLast, -⟩ := isBinary.exists_last
  obtain empty | ⟨before, char, split⟩ := last.toList.eq_nil_or_concat
  · exact absurd (String.toList_eq_nil_iff.mp empty) isLast.1
  rw [List.concat_eq_append] at split
  have plain : Identifier.isNameChar char = true := isLast.2 char (by simp [split])
  have unlike : char ≠ '/' := by
    rintro rfl
    cases plain
  intro empty
  have chars := type.toList_simpleName
  rw [empty, whole, String.toList_append, split, ← List.append_assoc,
    List.rtakeWhile_concat, if_pos (decide_eq_true unlike)] at chars
  simp at chars

end Names

/-! ## Texts -/

/-- A name that a class can go by: it is written and read as a class that refers to nothing else,
and what follows the package is not empty. -/
structure ClassType.IsUsableName (name : String) : Prop where
  accepted : Nonterminal.classType.parse ("L" ++ name ++ ";") = .ok (named name)
  references : references (named name) = {name}
  splits : (named name).packageSpecifier ++ (named name).simpleName = name
  package : (named name).packageSpecifier = "" ∨
    ∃ outer, (named name).packageSpecifier = outer ++ "/"
  simple : (named name).simpleName ≠ "" ∧ '/' ∉ (named name).simpleName.toList

theorem ClassType.text_named (binaryName : String) :
    Nonterminal.classType.text (named binaryName) = "L" ++ binaryName ++ ";" := by
  apply String.toList_injective
  simp [Nonterminal.text, Nonterminal.chars, named, chars, TypeArgument.enclosedChars,
    SimpleClassType.selectedChars]

theorem ClassType.IsBinaryName.isUsable {name : String} (isBinary : IsBinaryName name) :
    IsUsableName name where
  accepted := Nonterminal.parse_of_text (text_named name) (fits_named isBinary)
  references := references_named name
  splits := (named name).packageSpecifier_append_simpleName
  package := (named name).packageSpecifier_ends
  simple := ⟨simpleName_ne_empty isBinary, (named name).slash_notMem_simpleName⟩

/-- The node as one that refers to classes. A nested class by itself has no name of its own, and
refers to the classes in its arguments. -/
def Nonterminal.referrer : (symbol : Nonterminal) → symbol.Node → Referrer
  | .javaType => fun type => ⟨.javaType, type⟩
  | .referenceType => fun type => ⟨.referenceType, type⟩
  | .classType => fun type => ⟨.classType, type⟩
  | .simpleClassType => fun type => ⟨.list .typeArgument, type.arguments⟩
  | .arrayType => fun type => ⟨.arrayType, type⟩
  | .typeVariable => fun type => ⟨.typeVariable, type⟩
  | .typeArgument => fun argument => ⟨.typeArgument, argument⟩
  | .typeParameter => fun parameter => ⟨.typeParameter, parameter⟩
  | .classSignature => fun signature => ⟨.classSignature, signature⟩
  | .methodSignature => fun signature => ⟨.methodSignature, signature⟩
  | .fieldSignature => fun signature => ⟨.fieldSignature, signature⟩
  | .returnType => fun result => ⟨.returnType, result⟩
  | .thrownType => fun thrown => ⟨.thrownType, thrown⟩

theorem Nonterminal.legible_referrer {symbol : Nonterminal} {node : symbol.Node}
    (legible : symbol.Legible node) : (symbol.referrer node).Legible := by
  cases symbol with
  | simpleClassType => exact SimpleClassType.legible_arguments legible
  | typeParameter => exact legible.2
  | classSignature => exact legible.2
  | methodSignature => exact legible.2
  | _ => exact legible

/-- However deep in the node a class type occurs. -/
theorem Nonterminal.references_are_usable (symbol : Nonterminal) (text : String)
    (node : symbol.Node) (parsed : symbol.parse text = .ok node) :
    ∀ name ∈ references (symbol.referrer node).item, ClassType.IsUsableName name := by
  intro name member
  obtain ⟨type, occurs, rfl⟩ := Referrer.mem_references_iff.mp member
  have legible := (wellFormed_of_parse parsed).1.legible
  have legibleType : type.Legible := occurs.legible (legible_referrer legible)
  exact (ClassType.isBinaryName_erasedName legibleType).isUsable

/-- A nested class with an argument, in a package whose name takes two bytes. -/
theorem Nonterminal.references_are_usable_nested :
    ∃ node, Nonterminal.classType.parse "Lé/B.C<LA;>;" = .ok node ∧
      "é/B$C" ∈ references (Nonterminal.classType.referrer node).item ∧
        ClassType.IsUsableName "é/B$C" := by
  let node : ClassType := ⟨"é/B", [], [⟨⟨"C"⟩, [.exactly (.classType (.named "A"))]⟩]⟩
  have isBinary : ClassType.IsBinaryName "é/B" := by
    refine ⟨["é", "B"], List.cons_ne_nil _ _, ?_, rfl⟩
    simp only [List.forall_mem_cons]
    exact ⟨by decide, by decide, List.forall_mem_nil _⟩
  have argument : TypeArgument.ListFits Cursor.maxDepth [.exactly (.classType (.named "A"))] := by
    refine List.forall_mem_singleton.mpr ⟨_, rfl, TypeArgument.fits_exactly.mpr ?_⟩
    exact ReferenceType.fits_classType.mpr ClassType.fits_sample
  have nested : Nonterminal.simpleClassType.WellFormed
      ⟨⟨"C"⟩, [.exactly (.classType (.named "A"))]⟩ :=
    SimpleClassType.fits_iff.mpr ⟨by decide, argument⟩
  have wellFormed : Nonterminal.classType.WellFormed node := ClassType.fits_iff.mpr
    ⟨isBinary, TypeArgument.listFits_nil, List.forall_mem_singleton.mpr nested⟩
  have parsed : Nonterminal.classType.parse "Lé/B.C<LA;>;" = .ok node :=
    Nonterminal.parse_of_text (by decide) wellFormed
  have member : "é/B$C" ∈ references (Nonterminal.classType.referrer node).item :=
    Referrer.mem_references_iff.mpr ⟨node, .refl, by decide⟩
  exact ⟨node, parsed, member, references_are_usable .classType _ node parsed _ member⟩

end GenericSignature
