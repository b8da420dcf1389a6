import GenericSignature.Grammar
import GenericSignature.Proofs.Reading.JavaType

/-! Arrays are read as if one bracket at a time.

All the brackets that stand next are counted, and the element behind them is read once. In the
grammar an array is a bracket and a component, and the component may be an array again. It comes to
the same, on every cursor and whatever follows the brackets, as long as there are not too many.
-/

set_option autoImplicit false

namespace GenericSignature

/-- Reads a type as the grammar has it, a bracket and then a component, with the given number of
brackets in front of the element at most. -/
def Parser.javaTypeLayerwise (typeArguments : Parser (List TypeArgument)) : Nat → Parser JavaType
  | 0 => primitiveOr (namedType typeArguments)
  | layers + 1 => do
    if ← consume '[' then
      return .ofArray ⟨← javaTypeLayerwise typeArguments layers⟩
    else
      primitiveOr (namedType typeArguments)

section Runs

variable {α β : Type} {parser other : Parser α} {cursor after : Cursor}

theorem Parser.peek_bind_apply (continuation : Option Char → Parser β) (cursor : Cursor) :
    (peek >>= continuation) cursor = continuation cursor.rest.head? cursor := rfl

theorem Parser.bind_of_ok {value : α} {continuation : α → Parser β}
    (ran : parser cursor = .ok value after) :
    (parser >>= continuation) cursor = continuation value after := by
  change EStateM.bind parser continuation cursor = _
  rw [EStateM.bind, ran]

theorem Parser.map_congr_at {transform : α → β} (same : parser cursor = other after) :
    (transform <$> parser) cursor = (transform <$> other) after := by
  change EStateM.map transform parser cursor = EStateM.map transform other after
  rw [EStateM.map, EStateM.map, same]

variable {reference named : Parser ReferenceType}

theorem Parser.primitiveOr_of_plain (plain : cursor.rest.head?.bind BaseType.ofDescriptor? = none) :
    primitiveOr reference cursor = (JavaType.reference <$> reference) cursor := by
  rw [primitiveOr, peek_bind_apply, plain, map_eq_pure_bind]

theorem Parser.primitiveOr_congr_at (same : reference cursor = named cursor) :
    primitiveOr reference cursor = primitiveOr named cursor := by
  cases primitive : cursor.rest.head?.bind BaseType.ofDescriptor? with
  | none => rw [primitiveOr_of_plain primitive, primitiveOr_of_plain primitive, map_congr_at same]
  | some type => rw [primitiveOr, primitiveOr, peek_bind_apply, peek_bind_apply, primitive]

end Runs

section Brackets

variable {typeArguments : Parser (List TypeArgument)} {cursor : Cursor} {tail : List Char}
  {brackets layers : Nat}

theorem Cursor.advance_brackets (ahead : cursor.rest = List.replicate brackets '[' ++ tail) :
    cursor.advance brackets =
      { cursor with position := cursor.position + brackets, rest := tail } := by
  have moved := advance_append ahead
  rwa [Text.byteLength_replicate_bracket] at moved

/-- The first bracket leaves the others ahead, and the end of all of them stays where it is. -/
theorem Cursor.advance_first_bracket
    (ahead : cursor.rest = List.replicate (brackets + 1) '[' ++ tail) :
    (cursor.advance 1).rest = List.replicate brackets '[' ++ tail ∧
      (cursor.advance 1).advance brackets = cursor.advance (brackets + 1) := by
  have split : cursor.rest = List.replicate 1 '[' ++ (List.replicate brackets '[' ++ tail) := by
    rw [ahead, List.replicate_succ]
    rfl
  have first := advance_brackets split
  have rest : (cursor.advance 1).rest = List.replicate brackets '[' ++ tail := by rw [first]
  refine ⟨rest, ?_⟩
  rw [advance_brackets rest, advance_brackets ahead, first]
  simp [Nat.add_assoc, Nat.add_comm 1]

theorem Parser.arrayType_brackets (positive : 0 < brackets)
    (within : brackets ≤ ArrayType.maxDimensions)
    (ahead : cursor.rest = List.replicate brackets '[' ++ tail)
    (ends : tail.head? ≠ some '[') :
    arrayType typeArguments cursor =
      ((fun element => .withDimensions element brackets positive) <$>
        primitiveOr (namedType typeArguments)) (cursor.advance brackets) := by
  have counted : countAhead '[' cursor = .ok brackets cursor := by
    rw [countAhead, ahead, Text.takeWhile_replicate_append, List.length_replicate]
    rintro char first rfl
    exact ends first
  rw [arrayType, map_eq_pure_bind, bind_of_ok counted, dif_pos positive, if_pos within]
  rfl

theorem Parser.javaType_of_bracket (bracket : cursor.rest.head? = some '[') :
    javaType typeArguments cursor = (JavaType.ofArray <$> arrayType typeArguments) cursor := by
  have plain : cursor.rest.head?.bind BaseType.ofDescriptor? = none := by
    rw [bracket]
    rfl
  have reference : referenceType typeArguments cursor =
      (ReferenceType.array <$> arrayType typeArguments) cursor := by
    rw [referenceType, peek_bind_apply, if_pos bracket, map_eq_pure_bind]
  rw [javaType, primitiveOr_of_plain plain, map_congr_at reference, Functor.map_map]
  rfl

theorem Parser.javaType_of_no_bracket (other : cursor.rest.head? ≠ some '[') :
    javaType typeArguments cursor = primitiveOr (namedType typeArguments) cursor := by
  have reference : referenceType typeArguments cursor = namedType typeArguments cursor := by
    rw [referenceType, peek_bind_apply, if_neg other]
  rw [javaType, primitiveOr_congr_at reference]

theorem Parser.consume_bracket (bracket : cursor.rest.head? = some '[') :
    consume '[' cursor = .ok true (cursor.advance 1) := by
  rw [consume, peek_bind_apply, if_pos bracket]
  rfl

theorem Parser.expect_bracket {expected : Expected} (bracket : cursor.rest.head? = some '[') :
    expect '[' expected cursor = .ok () (cursor.advance 1) := by
  rw [expect, bind_of_ok (consume_bracket bracket)]
  rfl

theorem Parser.javaTypeLayerwise_of_bracket (bracket : cursor.rest.head? = some '[') :
    javaTypeLayerwise typeArguments (layers + 1) cursor =
      ((fun component => .ofArray ⟨component⟩) <$> javaTypeLayerwise typeArguments layers)
        (cursor.advance 1) := by
  rw [javaTypeLayerwise, map_eq_pure_bind, bind_of_ok (consume_bracket bracket)]
  rfl

theorem Parser.javaTypeLayerwise_of_no_bracket (other : cursor.rest.head? ≠ some '[') :
    javaTypeLayerwise typeArguments layers cursor =
      primitiveOr (namedType typeArguments) cursor := by
  cases layers with
  | zero => rfl
  | succ layers =>
    have kept : consume '[' cursor = .ok false cursor := by
      rw [consume, peek_bind_apply, if_neg other]
      rfl
    rw [javaTypeLayerwise, bind_of_ok kept]
    rfl

/-! ## One bracket and all of them -/

/-- The element is read at the same place either way, and the layers around it add up. -/
theorem Parser.arrayType_eq_layer (within : brackets + 1 ≤ ArrayType.maxDimensions)
    (ahead : cursor.rest = List.replicate (brackets + 1) '[' ++ tail)
    (ends : tail.head? ≠ some '[') :
    arrayType typeArguments cursor =
      (ArrayType.mk <$> javaType typeArguments) (cursor.advance 1) := by
  obtain ⟨rest, moved⟩ := Cursor.advance_first_bracket ahead
  rw [arrayType_brackets (Nat.succ_pos brackets) within ahead ends]
  cases brackets with
  | zero =>
    have last : (cursor.advance 1).rest.head? ≠ some '[' := by
      rw [rest]
      exact ends
    rw [map_congr_at (javaType_of_no_bracket last)]
    rfl
  | succ brackets =>
    have next : (cursor.advance 1).rest.head? = some '[' := by
      rw [rest]
      rfl
    have inner : arrayType typeArguments (cursor.advance 1) = _ :=
      arrayType_brackets (Nat.succ_pos brackets) (Nat.le_of_succ_le within) rest ends
    rw [moved] at inner
    rw [map_congr_at (javaType_of_bracket next), Functor.map_map, map_congr_at inner,
      Functor.map_map]
    simp only [ArrayType.withDimensions_succ _ _ (Nat.succ_pos brackets)]

theorem Parser.javaType_eq_layerwise (fits : brackets ≤ layers)
    (within : layers ≤ ArrayType.maxDimensions)
    (ahead : cursor.rest = List.replicate brackets '[' ++ tail)
    (ends : tail.head? ≠ some '[') :
    javaType typeArguments cursor = javaTypeLayerwise typeArguments layers cursor := by
  induction brackets generalizing cursor layers with
  | zero =>
    have other : cursor.rest.head? ≠ some '[' := by
      rw [ahead]
      exact ends
    rw [javaType_of_no_bracket other, javaTypeLayerwise_of_no_bracket other]
  | succ brackets ih =>
    obtain ⟨layers, rfl⟩ := Nat.exists_eq_add_one_of_ne_zero (Nat.ne_zero_of_lt fits)
    have bracket : cursor.rest.head? = some '[' := by
      rw [ahead]
      rfl
    obtain ⟨rest, -⟩ := Cursor.advance_first_bracket ahead
    have component := ih (Nat.le_of_succ_le_succ fits) (Nat.le_of_succ_le within) rest
    rw [javaType_of_bracket bracket, javaTypeLayerwise_of_bracket bracket,
      map_congr_at (arrayType_eq_layer (fits.trans within) ahead ends), Functor.map_map,
      map_congr_at component]

end Brackets

/-- The brackets may be the rest of a type that is being read, at any depth. -/
theorem Nonterminal.arrays_read_by_layers (cursor : Cursor) (brackets : Nat) (tail : List Char)
    (positive : 0 < brackets) (within : brackets ≤ ArrayType.maxDimensions)
    (ahead : cursor.rest = List.replicate brackets '[' ++ tail) (ends : tail.head? ≠ some '[') :
    Nonterminal.arrayType.production cursor =
      (do
        Parser.expect '[' .arrayType
        return ⟨← Nonterminal.javaType.production⟩ : Parser ArrayType) cursor ∧
    Nonterminal.javaType.production cursor =
      Parser.javaTypeLayerwise Parser.typeArguments ArrayType.maxDimensions cursor := by
  obtain ⟨others, rfl⟩ := Nat.exists_eq_add_one_of_ne_zero (Nat.ne_of_gt positive)
  have bracket : cursor.rest.head? = some '[' := by
    rw [ahead]
    rfl
  constructor
  · rw [Parser.bind_of_ok (Parser.expect_bracket bracket), ← map_eq_pure_bind]
    exact Parser.arrayType_eq_layer within ahead ends
  · exact Parser.javaType_eq_layerwise within (Nat.le_refl _) ahead ends

theorem Nonterminal.arrays_read_by_layers_refused :
    let cursor : Cursor := ⟨7, ['[', '[', 'T', ';', 'I'], 3, ∅⟩
    0 < 2 ∧ 2 ≤ ArrayType.maxDimensions ∧
      cursor.rest = List.replicate 2 '[' ++ ['T', ';', 'I'] ∧
      ['T', ';', 'I'].head? ≠ some '[' ∧
      Nonterminal.arrayType.production cursor =
        (do
          Parser.expect '[' .arrayType
          return ⟨← Nonterminal.javaType.production⟩ : Parser ArrayType) cursor ∧
      Nonterminal.javaType.production cursor =
        Parser.javaTypeLayerwise Parser.typeArguments ArrayType.maxDimensions cursor := by
  intro cursor
  have within : 2 ≤ ArrayType.maxDimensions := by decide
  have ends : ['T', ';', 'I'].head? ≠ some '[' := by decide
  exact ⟨Nat.two_pos, within, rfl, ends,
    arrays_read_by_layers cursor 2 _ Nat.two_pos within rfl ends⟩

end GenericSignature
