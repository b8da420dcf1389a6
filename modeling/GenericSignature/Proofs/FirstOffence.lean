import GenericSignature.Proofs.RoundTrip

/-! A refused text is refused at its first offending character.

What comes before the reported position can be completed to a text that is accepted. With the
character at the position it cannot: every text that begins in that way is refused for the same
reason.
-/

set_option autoImplicit false

namespace GenericSignature

variable {symbol : Nonterminal}

theorem Text.utf8ByteSize_ofList (chars : List Char) :
    (String.ofList chars).utf8ByteSize = byteLength chars := by
  induction chars with
  | nil => rfl
  | cons first rest ih =>
    rw [← List.singleton_append, String.ofList_append, String.utf8ByteSize_append,
      ← String.singleton_eq_ofList, String.utf8ByteSize_singleton, ih, List.singleton_append,
      byteLength_cons]

/-- How a text that is refused is read: up to the reported position, and for a reason that no more
than the character there decides. -/
theorem Nonterminal.exists_offence {text : String} {error : Malformed}
    (failed : symbol.parse text = .error error) :
    ∃ read tail, text.toList = read ++ tail ∧ Text.byteLength read = error.position ∧
      (∃ node, symbol.WellFormed node ∧ read <+: symbol.chars node) ∧
        ∀ found ∈ tail.head?, ∀ other : String, ∀ rest, other.toList = read ++ found :: rest →
          symbol.parse other = .error error := by
  obtain ⟨read, tail, outcome, split, yields, explained⟩ :=
    symbol.production_recognizes.explains text.toList
  obtain ⟨after, ran, ends, position⟩ := Parser.Yields.ofText yields split rfl
  refine ⟨read, tail, split, ?_⟩
  cases outcome with
  | error fault =>
    rw [parse_of_error ran] at failed
    cases failed
    refine ⟨position.symm, explained, ?_⟩
    -- The reading holds for every text that goes on with the same character.
    intro found stands other rest same
    rw [Option.mem_def.mp stands] at yields
    obtain ⟨after', ran', -, position'⟩ := Parser.Yields.ofText yields same rfl
    rw [parse_of_error ran', position', position]
  | ok node =>
    obtain ⟨shape, wellFormed, -⟩ := explained
    rw [parse_of_ok ran] at failed
    split at failed
    · cases failed
    cases failed
    -- The node was complete, so the character after it is the first one too many.
    refine ⟨position.symm, ⟨node, wellFormed, shape ▸ List.prefix_rfl⟩, ?_⟩
    intro found stands other rest same
    rw [Option.mem_def.mp stands] at yields
    obtain ⟨after', ran', ends', position'⟩ := Parser.Yields.ofText yields same rfl
    rw [parse_of_ok ran', if_neg (by rw [ends']; exact List.cons_ne_nil _ _), position', position]

theorem Nonterminal.refused_at_first_offence {text : String} {error : Malformed}
    (failed : symbol.parse text = .error error) :
    ∃ before after : String, text = before ++ after ∧ before.utf8ByteSize = error.position ∧
      (∃ completion node, symbol.parse (before ++ completion) = .ok node) ∧
        ∀ found ∈ after.toList.head?, ∀ continuation : String,
          symbol.parse (before ++ String.singleton found ++ continuation) = .error error := by
  obtain ⟨read, tail, split, position, ⟨node, wellFormed, completion, whole⟩, refused⟩ :=
    exists_offence failed
  refine ⟨String.ofList read, String.ofList tail, ?_, ?_, ⟨String.ofList completion, node, ?_⟩, ?_⟩
  · rw [← String.ofList_append, ← split, String.ofList_toList]
  · rw [Text.utf8ByteSize_ofList, position]
  · rw [← String.ofList_append, whole]
    exact parse_text wellFormed
  · rw [String.toList_ofList]
    intro found stands continuation
    apply refused found stands _ continuation.toList
    simp

theorem Nonterminal.refused_at_first_offence_nested :
    classType.parse "Lé<+[V>;" = .error ⟨6, .unexpectedChar .referenceType 'V'⟩ ∧
      ∃ before after : String, "Lé<+[V>;" = before ++ after ∧ before.utf8ByteSize = 6 ∧
        (∃ completion node, classType.parse (before ++ completion) = .ok node) ∧
          ∀ found ∈ after.toList.head?, ∀ continuation : String,
            classType.parse (before ++ String.singleton found ++ continuation) =
              .error ⟨6, .unexpectedChar .referenceType 'V'⟩ := by
  have failed : classType.parse "Lé<+[V>;" = .error ⟨6, .unexpectedChar .referenceType 'V'⟩ := by
    decide
  exact ⟨failed, refused_at_first_offence failed⟩

end GenericSignature
