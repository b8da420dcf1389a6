import GenericSignature.Proofs.Reading.Production

/-! The characters with which the text of a node begins.

The table is exact: what it lists begins some text, and every text begins with what it lists.
-/

set_option autoImplicit false

namespace GenericSignature

def Nonterminal.startsWith : Nonterminal → Char → Bool
  | .javaType, char => (BaseType.ofDescriptor? char).isSome || char ∈ ['L', 'T', '[']
  | .referenceType, char | .fieldSignature, char => char ∈ ['L', 'T', '[']
  | .classType, char => char = 'L'
  | .arrayType, char => char = '['
  | .typeVariable, char => char = 'T'
  | .simpleClassType, char | .typeParameter, char => Identifier.isNameChar char
  | .typeArgument, char => char ∈ ['*', '+', '-', 'L', 'T', '[']
  | .classSignature, char => char ∈ ['<', 'L']
  | .methodSignature, char => char ∈ ['<', '(']
  | .returnType, char =>
    (BaseType.ofDescriptor? char).isSome || char ∈ ['L', 'T', '['] || char = 'V'
  | .thrownType, char => char ∈ ['L', 'T']

variable {symbol : Nonterminal} {char : Char}

/-! ## Every text begins with a character of the table -/

theorem ReferenceType.exists_head (type : ReferenceType) :
    ∃ char ∈ type.chars.head?, Nonterminal.referenceType.startsWith char = true := by
  rcases type.head_chars with head | head | head <;>
  · exact ⟨_, head, by decide⟩

theorem JavaType.exists_head (type : JavaType) :
    ∃ char ∈ type.chars.head?, Nonterminal.javaType.startsWith char = true := by
  cases type with
  | base type =>
    have found : BaseType.ofDescriptor? type.descriptor = some type :=
      BaseType.ofDescriptor?_eq_some_iff.mpr rfl
    refine ⟨type.descriptor, rfl, ?_⟩
    rw [Nonterminal.startsWith, found]
    rfl
  | reference type =>
    obtain ⟨char, head, starts⟩ := type.exists_head
    exact ⟨char, head, Bool.or_eq_true_iff.mpr (.inr starts)⟩

theorem TypeArgument.exists_head (argument : TypeArgument) :
    ∃ char ∈ argument.chars.head?, Nonterminal.typeArgument.startsWith char = true := by
  cases argument with
  | exactly type =>
    rcases type.head_chars with head | head | head <;>
    · exact ⟨_, head, by decide⟩
  | upperBounded type => exact ⟨'+', rfl, by decide⟩
  | lowerBounded type => exact ⟨'-', rfl, by decide⟩
  | unbounded => exact ⟨'*', rfl, by decide⟩

theorem ClassSignature.exists_head (signature : ClassSignature) :
    ∃ char ∈ signature.chars.head?, Nonterminal.classSignature.startsWith char = true := by
  obtain ⟨typeParameters, superclass, interfaces⟩ := signature
  cases typeParameters with
  | nil =>
    refine ⟨'L', ?_, by decide⟩
    rw [chars, TypeParameter.enclosedChars, List.nil_append, List.head?_append,
      superclass.head_chars]
    rfl
  | cons first rest => exact ⟨'<', rfl, by decide⟩

theorem MethodSignature.exists_head (signature : MethodSignature) :
    ∃ char ∈ signature.chars.head?, Nonterminal.methodSignature.startsWith char = true := by
  obtain ⟨typeParameters, parameters, result, thrown⟩ := signature
  cases typeParameters with
  | nil => exact ⟨'(', rfl, by decide⟩
  | cons first rest => exact ⟨'<', rfl, by decide⟩

theorem Nonterminal.WellFormed.exists_head {node : symbol.Node}
    (wellFormed : symbol.WellFormed node) :
    ∃ char ∈ (symbol.chars node).head?, symbol.startsWith char = true := by
  cases symbol with
  | javaType => exact JavaType.exists_head node
  | referenceType => exact ReferenceType.exists_head node
  | classType => exact ⟨'L', ClassType.head_chars node, by decide⟩
  | simpleClassType =>
    obtain ⟨name, arguments⟩ := node
    obtain ⟨char, head, inside⟩ := (SimpleClassType.fits_iff.mp wellFormed).1.exists_head
    refine ⟨char, ?_, inside⟩
    change char ∈ (name.text.toList ++ _).head?
    rw [List.head?_append, Option.mem_def.mp head]
    rfl
  | arrayType =>
    obtain ⟨component⟩ := node
    exact ⟨'[', rfl, by decide⟩
  | typeVariable => exact ⟨'T', rfl, by decide⟩
  | typeArgument => exact TypeArgument.exists_head node
  | typeParameter =>
    obtain ⟨char, -, head, inside⟩ :=
      TypeParameter.exists_head (TypeParameter.fits_iff.mp wellFormed).1
    exact ⟨char, head, inside⟩
  | classSignature => exact ClassSignature.exists_head node
  | methodSignature => exact MethodSignature.exists_head node
  | fieldSignature => exact ReferenceType.exists_head node.type
  | returnType =>
    cases node with
    | value type =>
      obtain ⟨char, head, starts⟩ := type.exists_head
      exact ⟨char, head, Bool.or_eq_true_iff.mpr (.inl starts)⟩
    | void => exact ⟨'V', rfl, by decide⟩
  | thrownType =>
    match node with
    | .classType type => exact ⟨'L', type.head_chars, by decide⟩
    | .variable type => exact ⟨'T', rfl, by decide⟩

theorem Nonterminal.WellFormed.chars_ne_nil {node : symbol.Node}
    (wellFormed : symbol.WellFormed node) : symbol.chars node ≠ [] := by
  obtain ⟨char, head, -⟩ := wellFormed.exists_head
  exact List.ne_nil_of_mem (List.mem_of_mem_head? head)

/-! ## Every character of the table begins a text -/

/-- Some node can be written so that the character comes first. -/
def Nonterminal.CanStart (symbol : Nonterminal) (char : Char) : Prop :=
  ∃ node, symbol.WellFormed node ∧ (symbol.chars node).head? = some char

/-- A node that only wraps another one has a text that begins in the same way. -/
theorem Nonterminal.CanStart.wrap {other : Nonterminal} {wrap : symbol.Node → other.Node}
    (canStart : symbol.CanStart char)
    (fits : ∀ node, symbol.WellFormed node → other.WellFormed (wrap node))
    (chars : ∀ node, other.chars (wrap node) = symbol.chars node) : other.CanStart char := by
  obtain ⟨node, wellFormed, head⟩ := canStart
  refine ⟨wrap node, fits node wellFormed, ?_⟩
  rw [chars, head]

theorem ClassType.canStart : Nonterminal.classType.CanStart 'L' :=
  ⟨.named "A", fits_sample, rfl⟩

theorem TypeVariable.canStart : Nonterminal.typeVariable.CanStart 'T' :=
  ⟨⟨⟨"A"⟩⟩, fits_iff.mpr Identifier.isName_sample, rfl⟩

theorem ArrayType.canStart : Nonterminal.arrayType.CanStart '[' :=
  ⟨⟨.base .int⟩, fits_withDimensions Nat.one_pos (by decide) (JavaType.fits_base .int) rfl, rfl⟩

theorem ReferenceType.canStart (starts : Nonterminal.referenceType.startsWith char = true) :
    Nonterminal.referenceType.CanStart char := by
  simp only [Nonterminal.startsWith, decide_eq_true_eq, List.mem_cons, List.not_mem_nil,
    or_false] at starts
  rcases starts with rfl | rfl | rfl
  · exact ClassType.canStart.wrap (fun _ fits => fits_classType.mpr fits) fun _ => rfl
  · exact TypeVariable.canStart.wrap (fun _ fits => fits_variable.mpr fits) fun _ => rfl
  · exact ArrayType.canStart.wrap (fun _ fits => fits_array.mpr fits) fun _ => rfl

theorem JavaType.canStart (starts : Nonterminal.javaType.startsWith char = true) :
    Nonterminal.javaType.CanStart char := by
  rcases Bool.or_eq_true_iff.mp starts with primitive | starts
  · obtain ⟨type, found⟩ := Option.isSome_iff_exists.mp primitive
    refine ⟨.base type, fits_base type, ?_⟩
    rw [← BaseType.ofDescriptor?_eq_some_iff.mp found]
    rfl
  · exact (ReferenceType.canStart starts).wrap (fun _ fits => fits_reference.mpr fits) fun _ => rfl

theorem Identifier.isName_singleton (inside : isNameChar char = true) :
    IsName (String.ofList [char]) :=
  isName_ofList (List.cons_ne_nil char []) (List.forall_mem_singleton.mpr inside)

theorem SimpleClassType.canStart (inside : Identifier.isNameChar char = true) :
    Nonterminal.simpleClassType.CanStart char := by
  refine ⟨⟨⟨String.ofList [char]⟩, []⟩,
    fits_iff.mpr ⟨Identifier.isName_singleton inside, TypeArgument.listFits_nil⟩, ?_⟩
  change ((String.ofList [char]).toList ++ []).head? = some char
  rw [String.toList_ofList]
  rfl

theorem TypeParameter.canStart (inside : Identifier.isNameChar char = true) :
    Nonterminal.typeParameter.CanStart char := by
  refine ⟨⟨⟨String.ofList [char]⟩, none, []⟩,
    fits_iff.mpr ⟨Identifier.isName_singleton inside, List.forall_mem_nil _⟩, ?_⟩
  change ((String.ofList [char]).toList ++ [':']).head? = some char
  rw [String.toList_ofList]
  rfl

theorem TypeArgument.canStart (starts : Nonterminal.typeArgument.startsWith char = true) :
    Nonterminal.typeArgument.CanStart char := by
  simp only [Nonterminal.startsWith, decide_eq_true_eq] at starts
  rw [List.mem_cons, List.mem_cons, List.mem_cons] at starts
  have sample : Nonterminal.referenceType.WellFormed (.classType (.named "A")) :=
    ReferenceType.fits_classType.mpr ClassType.fits_sample
  rcases starts with rfl | rfl | rfl | starts
  · exact ⟨.unbounded, fits_unbounded, rfl⟩
  · exact ⟨.upperBounded _, fits_upperBounded.mpr sample, rfl⟩
  · exact ⟨.lowerBounded _, fits_lowerBounded.mpr sample, rfl⟩
  · exact (ReferenceType.canStart (decide_eq_true starts)).wrap
      (fun _ fits => fits_exactly.mpr fits) fun _ => rfl

theorem TypeParameter.listLegible_sample : ListLegible [⟨⟨"A"⟩, none, []⟩] :=
  ⟨List.forall_mem_singleton.mpr Identifier.isName_sample, List.isChain_singleton _⟩

theorem ClassSignature.canStart (starts : Nonterminal.classSignature.startsWith char = true) :
    Nonterminal.classSignature.CanStart char := by
  have superclass : ∀ type ∈ [JavaType.ofClass (.named "A")],
      Nonterminal.javaType.WellFormed type :=
    List.forall_mem_singleton.mpr (JavaType.fits_ofClass.mpr ClassType.fits_sample)
  simp only [Nonterminal.startsWith, decide_eq_true_eq, List.mem_cons, List.not_mem_nil,
    or_false] at starts
  rcases starts with rfl | rfl
  · exact ⟨⟨[⟨⟨"A"⟩, none, []⟩], .named "A", []⟩,
      fits_iff.mpr ⟨TypeParameter.listLegible_sample, superclass⟩, rfl⟩
  · exact ⟨⟨[], .named "A", []⟩,
      fits_iff.mpr ⟨⟨List.forall_mem_nil _, List.isChain_nil⟩, superclass⟩, rfl⟩

theorem MethodSignature.canStart (starts : Nonterminal.methodSignature.startsWith char = true) :
    Nonterminal.methodSignature.CanStart char := by
  simp only [Nonterminal.startsWith, decide_eq_true_eq, List.mem_cons, List.not_mem_nil,
    or_false] at starts
  rcases starts with rfl | rfl
  · exact ⟨⟨[⟨⟨"A"⟩, none, []⟩], [], .void, []⟩,
      fits_iff.mpr ⟨TypeParameter.listLegible_sample, List.forall_mem_nil _⟩, rfl⟩
  · exact ⟨⟨[], [], .void, []⟩,
      fits_iff.mpr ⟨⟨List.forall_mem_nil _, List.isChain_nil⟩, List.forall_mem_nil _⟩, rfl⟩

theorem ReturnType.canStart (starts : Nonterminal.returnType.startsWith char = true) :
    Nonterminal.returnType.CanStart char := by
  rcases Bool.or_eq_true_iff.mp starts with starts | void
  · exact (JavaType.canStart starts).wrap (fun _ fits => fits_value.mpr fits) fun _ => rfl
  · obtain rfl := of_decide_eq_true void
    exact ⟨.void, fits_void, rfl⟩

theorem ThrownType.canStart (starts : Nonterminal.thrownType.startsWith char = true) :
    Nonterminal.thrownType.CanStart char := by
  simp only [Nonterminal.startsWith, decide_eq_true_eq, List.mem_cons, List.not_mem_nil,
    or_false] at starts
  rcases starts with rfl | rfl
  · exact ClassType.canStart.wrap (fun _ fits => fits_classType.mpr fits) fun _ => rfl
  · exact TypeVariable.canStart.wrap (fun _ fits => fits_variable.mpr fits) fun _ => rfl

theorem Nonterminal.canStart_of_startsWith (starts : symbol.startsWith char = true) :
    symbol.CanStart char := by
  cases symbol with
  | javaType => exact JavaType.canStart starts
  | referenceType => exact ReferenceType.canStart starts
  | classType => exact of_decide_eq_true starts ▸ ClassType.canStart
  | simpleClassType => exact SimpleClassType.canStart starts
  | arrayType => exact of_decide_eq_true starts ▸ ArrayType.canStart
  | typeVariable => exact of_decide_eq_true starts ▸ TypeVariable.canStart
  | typeArgument => exact TypeArgument.canStart starts
  | typeParameter => exact TypeParameter.canStart starts
  | classSignature => exact ClassSignature.canStart starts
  | methodSignature => exact MethodSignature.canStart starts
  | fieldSignature =>
    exact (ReferenceType.canStart starts).wrap (fun _ fits => FieldSignature.fits_mk.mpr fits)
      fun _ => rfl
  | returnType => exact ReturnType.canStart starts
  | thrownType => exact ThrownType.canStart starts

theorem Nonterminal.startsWith_iff :
    symbol.startsWith char = true ↔
      ∃ node, symbol.WellFormed node ∧ (symbol.chars node).head? = some char := by
  constructor
  · exact canStart_of_startsWith
  · intro ⟨node, wellFormed, head⟩
    obtain ⟨first, stands, starts⟩ := wellFormed.exists_head
    rw [head] at stands
    exact Option.some.inj stands ▸ starts

end GenericSignature
