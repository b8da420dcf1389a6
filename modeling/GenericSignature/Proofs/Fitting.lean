import GenericSignature.Proofs.WellFormed

/-! How a node fits, by its parts. -/

set_option autoImplicit false

namespace GenericSignature

variable {levels bound : Nat}

/-! ## Lists -/

section Lists

variable {arguments : List TypeArgument} {nested : List SimpleClassType}

theorem TypeArgument.listLegible_iff :
    ListLegible arguments ↔ ∀ argument ∈ arguments, argument.Legible := by
  induction arguments with
  | nil => simp [ListLegible]
  | cons first rest ih => simp [ListLegible, ih]

theorem TypeArgument.listArrayDepth_le_iff :
    listArrayDepth arguments ≤ bound ↔ ∀ argument ∈ arguments, argument.arrayDepth ≤ bound :=
  maximum_le_iff rfl fun _ _ => rfl

theorem TypeArgument.listArgumentDepth_le_iff :
    listArgumentDepth arguments ≤ bound ↔
      ∀ argument ∈ arguments, argument.argumentDepth ≤ bound :=
  maximum_le_iff rfl fun _ _ => rfl

-- A list that is there is a level, so its members have to stay below the bound.
theorem TypeArgument.enclosedDepth_le_iff :
    enclosedDepth arguments ≤ bound ↔
      ∀ argument ∈ arguments, argument.argumentDepth < bound := by
  cases arguments with
  | nil => exact ⟨fun _ => List.forall_mem_nil _, fun _ => Nat.zero_le bound⟩
  | cons first rest =>
    have enclosed : enclosedDepth (first :: rest) = listArgumentDepth (first :: rest) + 1 := rfl
    rw [enclosed]
    cases bound with
    | zero =>
      refine ⟨fun shallow => absurd shallow (Nat.not_succ_le_zero _), fun deep => ?_⟩
      exact absurd (deep first List.mem_cons_self) (Nat.not_lt_zero _)
    | succ bound =>
      rw [Nat.add_le_add_iff_right, listArgumentDepth_le_iff]
      simp only [Nat.lt_succ_iff]

theorem SimpleClassType.listLegible_iff :
    ListLegible nested ↔ ∀ type ∈ nested, type.Legible := by
  induction nested with
  | nil => simp [ListLegible]
  | cons first rest ih => simp [ListLegible, ih]

theorem SimpleClassType.listArrayDepth_le_iff :
    listArrayDepth nested ≤ bound ↔ ∀ type ∈ nested, type.arrayDepth ≤ bound :=
  maximum_le_iff rfl fun _ _ => rfl

theorem SimpleClassType.listArgumentDepth_le_iff :
    listArgumentDepth nested ≤ bound ↔ ∀ type ∈ nested, type.argumentDepth ≤ bound :=
  maximum_le_iff rfl fun _ _ => rfl

end Lists

/-- Every member of the list is one level further in. -/
def TypeArgument.ListFits (levels : Nat) (arguments : List TypeArgument) : Prop :=
  ∀ argument ∈ arguments, ∃ inner, levels = inner + 1 ∧ Nonterminal.typeArgument.Fits inner argument

theorem TypeArgument.listFits_iff {arguments : List TypeArgument} :
    ListFits levels arguments ↔
      ListLegible arguments ∧ listArrayDepth arguments ≤ ArrayType.maxDimensions ∧
        enclosedDepth arguments ≤ levels := by
  rw [listLegible_iff, listArrayDepth_le_iff, enclosedDepth_le_iff]
  constructor
  · intro fits
    refine ⟨fun argument member => ?_, fun argument member => ?_, fun argument member => ?_⟩
    · obtain ⟨inner, -, fit⟩ := fits argument member
      exact fit.legible
    · obtain ⟨inner, -, fit⟩ := fits argument member
      exact fit.arrays
    · obtain ⟨inner, rfl, fit⟩ := fits argument member
      exact Nat.lt_succ_of_le fit.arguments
  · intro ⟨legible, arrays, depth⟩ argument member
    have deep := depth argument member
    exact ⟨levels - 1, by omega, legible argument member, arrays argument member,
      Nat.le_sub_one_of_lt deep⟩

/-! ## Types -/

-- A node that only wraps another one has the same names and the same nesting.
theorem Nonterminal.fits_congr {symbol other : Nonterminal} {node : symbol.Node}
    {inner : other.Node}
    (legible : symbol.Legible node ↔ other.Legible inner)
    (arrays : symbol.arrayDepth node = other.arrayDepth inner)
    (arguments : symbol.argumentDepth node = other.argumentDepth inner) :
    symbol.Fits levels node ↔ other.Fits levels inner := by
  constructor
  · intro fits
    exact ⟨legible.mp fits.legible, arrays ▸ fits.arrays, arguments ▸ fits.arguments⟩
  · intro fits
    exact ⟨legible.mpr fits.legible, arrays ▸ fits.arrays, arguments ▸ fits.arguments⟩

theorem JavaType.fits_base (type : BaseType) : Nonterminal.javaType.Fits levels (.base type) :=
  ⟨trivial, Nat.zero_le _, Nat.zero_le _⟩

theorem JavaType.fits_reference {type : ReferenceType} :
    Nonterminal.javaType.Fits levels (.reference type) ↔
      Nonterminal.referenceType.Fits levels type :=
  Nonterminal.fits_congr Iff.rfl rfl rfl

theorem ReferenceType.fits_classType {type : ClassType} :
    Nonterminal.referenceType.Fits levels (.classType type) ↔
      Nonterminal.classType.Fits levels type :=
  Nonterminal.fits_congr Iff.rfl rfl rfl

theorem ReferenceType.fits_array {type : ArrayType} :
    Nonterminal.referenceType.Fits levels (.array type) ↔ Nonterminal.arrayType.Fits levels type :=
  Nonterminal.fits_congr Iff.rfl rfl rfl

theorem ReferenceType.fits_variable {type : TypeVariable} :
    Nonterminal.referenceType.Fits levels (.variable type) ↔
      Nonterminal.typeVariable.Fits levels type :=
  Nonterminal.fits_congr Iff.rfl rfl rfl

theorem JavaType.fits_ofClass {type : ClassType} :
    Nonterminal.javaType.Fits levels (.ofClass type) ↔ Nonterminal.classType.Fits levels type :=
  fits_reference.trans ReferenceType.fits_classType

theorem TypeVariable.fits_iff {type : TypeVariable} :
    Nonterminal.typeVariable.Fits levels type ↔ Identifier.IsName type.name.text :=
  ⟨fun fits => fits.legible, fun legible => ⟨legible, Nat.zero_le _, Nat.zero_le _⟩⟩

theorem SimpleClassType.fits_iff {type : SimpleClassType} :
    Nonterminal.simpleClassType.Fits levels type ↔
      Identifier.IsName type.name.text ∧ TypeArgument.ListFits levels type.arguments := by
  obtain ⟨name, arguments⟩ := type
  rw [TypeArgument.listFits_iff]
  constructor
  · intro ⟨⟨isName, legible⟩, arrays, depth⟩
    exact ⟨isName, legible, arrays, depth⟩
  · intro ⟨isName, legible, arrays, depth⟩
    exact ⟨⟨isName, legible⟩, arrays, depth⟩

theorem ClassType.fits_iff {type : ClassType} :
    Nonterminal.classType.Fits levels type ↔
      IsBinaryName type.binaryName ∧ TypeArgument.ListFits levels type.arguments ∧
        ∀ nested ∈ type.nested, Nonterminal.simpleClassType.Fits levels nested := by
  obtain ⟨binaryName, arguments, nested⟩ := type
  rw [TypeArgument.listFits_iff]
  constructor
  · intro ⟨⟨isName, legible, nestedLegible⟩, arrays, depth⟩
    obtain ⟨arrays, nestedArrays⟩ := Nat.max_le.mp arrays
    obtain ⟨depth, nestedDepth⟩ := Nat.max_le.mp depth
    refine ⟨isName, ⟨legible, arrays, depth⟩, fun type member => ⟨?_, ?_, ?_⟩⟩
    · exact SimpleClassType.listLegible_iff.mp nestedLegible type member
    · exact SimpleClassType.listArrayDepth_le_iff.mp nestedArrays type member
    · exact SimpleClassType.listArgumentDepth_le_iff.mp nestedDepth type member
  · intro ⟨isName, ⟨legible, arrays, depth⟩, fits⟩
    refine ⟨⟨isName, legible, ?_⟩, Nat.max_le.mpr ⟨arrays, ?_⟩, Nat.max_le.mpr ⟨depth, ?_⟩⟩
    · exact SimpleClassType.listLegible_iff.mpr fun type member => (fits type member).legible
    · exact SimpleClassType.listArrayDepth_le_iff.mpr fun type member => (fits type member).arrays
    · exact SimpleClassType.listArgumentDepth_le_iff.mpr fun type member =>
        (fits type member).arguments

-- Array layers hold no names and open no lists.
theorem JavaType.legible_innermost (type : JavaType) : type.innermost.Legible ↔ type.Legible := by
  unfold innermost
  fun_induction stripLayers 0 type with
  | case1 layers component ih => exact ih
  | case2 => exact Iff.rfl
  | case3 => exact Iff.rfl
  | case4 => exact Iff.rfl

theorem JavaType.argumentDepth_innermost (type : JavaType) :
    type.innermost.argumentDepth = type.argumentDepth := by
  unfold innermost
  fun_induction stripLayers 0 type with
  | case1 layers component ih => exact ih
  | case2 => rfl
  | case3 => rfl
  | case4 => rfl

/-- Of the layers around one another, the outermost one counts the most. -/
theorem JavaType.arrayDepth_eq_max (type : JavaType) :
    type.arrayDepth = max type.layers type.innermost.arrayDepth := by
  fun_induction stripLayers 0 type with
  | case1 layers component ih =>
    have depth : arrayDepth (.reference (.array ⟨component⟩)) =
        max (ArrayType.dimensions ⟨component⟩) component.arrayDepth := rfl
    rw [depth, ih, layers_array, innermost_array, ArrayType.dimensions_mk, ArrayType.element_mk]
    omega
  | case2 => exact (Nat.zero_max _).symm
  | case3 => rfl
  | case4 => rfl

theorem JavaType.depths_of_fits {type : JavaType} (fits : Nonterminal.javaType.Fits levels type) :
    type.layers ≤ ArrayType.maxDimensions ∧
      type.innermost.arrayDepth ≤ ArrayType.maxDimensions := by
  have depth : type.arrayDepth ≤ ArrayType.maxDimensions := fits.arrays
  rw [type.arrayDepth_eq_max] at depth
  exact Nat.max_le.mp depth

theorem JavaType.fits_innermost {type : JavaType} (fits : Nonterminal.javaType.Fits levels type) :
    Nonterminal.javaType.Fits levels type.innermost where
  legible := type.legible_innermost.mpr fits.legible
  arrays := (depths_of_fits fits).2
  arguments := type.argumentDepth_innermost.trans_le fits.arguments

theorem ArrayType.legible_element (array : ArrayType) :
    array.element.Legible ↔ array.Legible := by
  obtain ⟨component⟩ := array
  rw [element_mk]
  exact component.legible_innermost

theorem ArrayType.dimensions_le_arrayDepth (array : ArrayType) :
    array.dimensions ≤ array.arrayDepth := by
  obtain ⟨component⟩ := array
  exact Nat.le_max_left _ _

theorem ArrayType.fits_iff {array : ArrayType} :
    Nonterminal.arrayType.Fits levels array ↔
      array.dimensions ≤ maxDimensions ∧ Nonterminal.javaType.Fits levels array.element := by
  obtain ⟨component⟩ := array
  have depth : Nonterminal.arrayType.arrayDepth ⟨component⟩ =
      max (component.layers + 1) component.innermost.arrayDepth := by
    change max (dimensions ⟨component⟩) component.arrayDepth = _
    rw [dimensions_mk, component.arrayDepth_eq_max]
    omega
  rw [element_mk, dimensions_mk]
  constructor
  · intro ⟨legible, arrays, arguments⟩
    rw [depth, Nat.max_le] at arrays
    refine ⟨arrays.1, component.legible_innermost.mpr legible, arrays.2, ?_⟩
    exact component.argumentDepth_innermost.trans_le arguments
  · intro ⟨dimensions, legible, arrays, arguments⟩
    refine ⟨component.legible_innermost.mp legible, ?_, ?_⟩
    · rw [depth]
      exact Nat.max_le.mpr ⟨dimensions, arrays⟩
    · exact component.argumentDepth_innermost.symm.trans_le arguments

theorem TypeArgument.fits_exactly {type : ReferenceType} :
    Nonterminal.typeArgument.Fits levels (.exactly type) ↔
      Nonterminal.referenceType.Fits levels type :=
  Nonterminal.fits_congr Iff.rfl rfl rfl

theorem TypeArgument.fits_upperBounded {type : ReferenceType} :
    Nonterminal.typeArgument.Fits levels (.upperBounded type) ↔
      Nonterminal.referenceType.Fits levels type :=
  Nonterminal.fits_congr Iff.rfl rfl rfl

theorem TypeArgument.fits_lowerBounded {type : ReferenceType} :
    Nonterminal.typeArgument.Fits levels (.lowerBounded type) ↔
      Nonterminal.referenceType.Fits levels type :=
  Nonterminal.fits_congr Iff.rfl rfl rfl

theorem TypeArgument.fits_unbounded : Nonterminal.typeArgument.Fits levels .unbounded :=
  ⟨trivial, Nat.zero_le _, Nat.zero_le _⟩

/-! ## Declarations

Apart from the names of type parameters, all that counts are the types that are written.
-/

theorem Nonterminal.fits_iff_types {symbol : Nonterminal} {node : symbol.Node} {names : Prop}
    {types : List JavaType}
    (legible : symbol.Legible node ↔ names ∧ ∀ type ∈ types, type.Legible)
    (arrays : symbol.arrayDepth node = JavaType.deepest JavaType.arrayDepth types)
    (arguments : symbol.argumentDepth node = JavaType.deepest JavaType.argumentDepth types) :
    symbol.Fits levels node ↔ names ∧ ∀ type ∈ types, javaType.Fits levels type := by
  constructor
  · intro fits
    obtain ⟨named, allLegible⟩ := legible.mp fits.legible
    have shallow := JavaType.deepest_le_iff.mp (arrays ▸ fits.arrays)
    have nested := JavaType.deepest_le_iff.mp (arguments ▸ fits.arguments)
    exact ⟨named, fun type member =>
      ⟨allLegible type member, shallow type member, nested type member⟩⟩
  · intro ⟨named, fits⟩
    refine ⟨legible.mpr ⟨named, fun type member => (fits type member).legible⟩, ?_, ?_⟩
    · rw [arrays]
      exact JavaType.deepest_le_iff.mpr fun type member => (fits type member).arrays
    · rw [arguments]
      exact JavaType.deepest_le_iff.mpr fun type member => (fits type member).arguments

theorem TypeParameter.fits_iff {parameter : TypeParameter} :
    Nonterminal.typeParameter.Fits levels parameter ↔
      Identifier.IsName parameter.name.text ∧
        ∀ type ∈ parameter.types, Nonterminal.javaType.Fits levels type :=
  Nonterminal.fits_iff_types Iff.rfl rfl rfl

theorem ClassSignature.fits_iff {signature : ClassSignature} :
    Nonterminal.classSignature.Fits levels signature ↔
      TypeParameter.ListLegible signature.typeParameters ∧
        ∀ type ∈ signature.types, Nonterminal.javaType.Fits levels type :=
  Nonterminal.fits_iff_types Iff.rfl rfl rfl

theorem MethodSignature.fits_iff {signature : MethodSignature} :
    Nonterminal.methodSignature.Fits levels signature ↔
      TypeParameter.ListLegible signature.typeParameters ∧
        ∀ type ∈ signature.types, Nonterminal.javaType.Fits levels type :=
  Nonterminal.fits_iff_types Iff.rfl rfl rfl

theorem ReturnType.fits_iff {result : ReturnType} :
    Nonterminal.returnType.Fits levels result ↔
      ∀ type ∈ result.types, Nonterminal.javaType.Fits levels type := by
  rw [Nonterminal.fits_iff_types (iff_of_eq (true_and _)).symm rfl rfl, true_and]

theorem ReturnType.fits_value {type : JavaType} :
    Nonterminal.returnType.Fits levels (.value type) ↔ Nonterminal.javaType.Fits levels type := by
  rw [fits_iff, types, List.forall_mem_singleton]

theorem ReturnType.fits_void : Nonterminal.returnType.Fits levels .void :=
  fits_iff.mpr (List.forall_mem_nil _)

theorem ThrownType.fits_iff {thrown : ThrownType} :
    Nonterminal.thrownType.Fits levels thrown ↔
      ∀ type ∈ thrown.types, Nonterminal.javaType.Fits levels type := by
  rw [Nonterminal.fits_iff_types (iff_of_eq (true_and _)).symm rfl rfl, true_and]

theorem ThrownType.fits_classType {type : ClassType} :
    Nonterminal.thrownType.Fits levels (.classType type) ↔
      Nonterminal.classType.Fits levels type := by
  rw [fits_iff, types, List.forall_mem_singleton]
  exact JavaType.fits_ofClass

theorem ThrownType.fits_variable {type : TypeVariable} :
    Nonterminal.thrownType.Fits levels (.variable type) ↔
      Nonterminal.typeVariable.Fits levels type := by
  rw [fits_iff, types, List.forall_mem_singleton]
  exact JavaType.fits_reference.trans ReferenceType.fits_variable

theorem FieldSignature.fits_iff {signature : FieldSignature} :
    Nonterminal.fieldSignature.Fits levels signature ↔
      ∀ type ∈ signature.types, Nonterminal.javaType.Fits levels type := by
  rw [Nonterminal.fits_iff_types (iff_of_eq (true_and _)).symm rfl rfl, true_and]

theorem FieldSignature.fits_mk {type : ReferenceType} :
    Nonterminal.fieldSignature.Fits levels ⟨type⟩ ↔ Nonterminal.referenceType.Fits levels type := by
  rw [fits_iff, types, List.forall_mem_singleton]
  exact JavaType.fits_reference

end GenericSignature
