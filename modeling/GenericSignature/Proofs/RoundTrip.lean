import GenericSignature.Proofs.Reading.Production

/-! Reading and writing are inverse to each other, exactly on the well-formed nodes.
-/

set_option autoImplicit false

namespace GenericSignature

variable {symbol : Nonterminal}

theorem Nonterminal.parse_text {node : symbol.Node} (wellFormed : symbol.WellFormed node) :
    symbol.parse (symbol.text node) = .ok node := by
  have split : (symbol.text node).toList = symbol.chars node ++ [] := by
    rw [text, String.toList_ofList, List.append_nil]
  have yields : symbol.production.Yields 0 (symbol.chars node) none (.ok node) :=
    symbol.production_recognizes.reads node none wellFormed (ends_none node)
  obtain ⟨after, ran, rest, -⟩ := Parser.Yields.ofText yields split rfl
  rw [parse_of_ok ran, if_pos rest]

theorem Nonterminal.parse_of_text {node : symbol.Node} {text : String}
    (written : symbol.text node = text) (wellFormed : symbol.WellFormed node) :
    symbol.parse text = .ok node := by
  rw [← written]
  exact parse_text wellFormed

/-- Nothing else is read as the node. -/
theorem Nonterminal.wellFormed_of_parse {text : String} {node : symbol.Node}
    (parsed : symbol.parse text = .ok node) :
    symbol.WellFormed node ∧ text = symbol.text node := by
  obtain ⟨read, tail, outcome, split, yields, explained⟩ :=
    symbol.production_recognizes.explains text.toList
  obtain ⟨after, ran, rest, -⟩ := Parser.Yields.ofText yields split rfl
  cases outcome with
  | error fault =>
    rw [parse_of_error ran] at parsed
    cases parsed
  | ok found =>
    obtain ⟨rfl, wellFormed, -⟩ := explained
    rw [parse_of_ok ran, rest] at parsed
    split at parsed
    · next atEnd =>
      cases parsed
      subst atEnd
      rw [List.append_nil] at split
      refine ⟨wellFormed, ?_⟩
      calc text = String.ofList text.toList := String.ofList_toList.symm
        _ = symbol.text node := congrArg String.ofList split
    · cases parsed

theorem Nonterminal.parse_eq_ok_iff {text : String} {node : symbol.Node} :
    symbol.parse text = .ok node ↔ symbol.WellFormed node ∧ text = symbol.text node := by
  constructor
  · exact wellFormed_of_parse
  · rintro ⟨wellFormed, rfl⟩
    exact parse_text wellFormed

end GenericSignature
