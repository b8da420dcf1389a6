import GenericSignature.Proofs.Nesting.Declaration

/-! What becomes of a node that is nested too deeply.

If nothing but its nesting is wrong, its text is refused at the first place that exceeds a limit.
-/

set_option autoImplicit false

namespace GenericSignature

variable {symbol : Nonterminal} {node : symbol.Node} {position limit : Nat}

/-- At the byte offset, the text of the node holds the bracket after the last that a chain of array
layers may have, or opens a list of type arguments inside of as many others as there may be. -/
def Nonterminal.ExceedsAt (symbol : Nonterminal) (node : symbol.Node) (position limit : Nat) :
    Prop :=
  ∃ before glyph rest, symbol.glyphs 0 node = before ++ glyph :: rest ∧
    Text.byteLength (Glyph.chars before) = position ∧ glyph.limit? = some limit

theorem Nonterminal.parse_text_of_overrun {overrun : Overrun} (legible : symbol.Legible node)
    (exceeds : Glyph.overrun? (symbol.glyphs 0 node) = some overrun) :
    symbol.parse (symbol.text node) =
      .error ⟨Text.byteLength overrun.read, .nestedTooDeeply overrun.limit⟩ := by
  obtain ⟨before, glyph, rest, glyphs, read, found, -⟩ := Glyph.exists_of_overrun? exceeds
  have split : (symbol.text node).toList = overrun.read ++ overrun.found :: Glyph.chars rest := by
    rw [text, String.toList_ofList, ← symbol.chars_glyphs 0 node, glyphs, Glyph.chars_append,
      Glyph.chars_cons, read, found]
  have follows := symbol.production_traces.follows node none legible (ends_none node)
  rw [Parser.Follows, Glyph.guides_of_some exceeds] at follows
  obtain ⟨after, ran, -, position⟩ := Parser.Yields.ofText follows split rfl
  rw [parse_of_error ran, position]

theorem Nonterminal.exceedsAt_of_overrun {overrun : Overrun}
    (exceeds : Glyph.overrun? (symbol.glyphs 0 node) = some overrun) :
    symbol.ExceedsAt node (Text.byteLength overrun.read) overrun.limit ∧
      ∀ other reached, symbol.ExceedsAt node other reached →
        Text.byteLength overrun.read ≤ other := by
  obtain ⟨before, glyph, rest, glyphs, read, -, limit, within⟩ := Glyph.exists_of_overrun? exceeds
  refine ⟨⟨before, glyph, rest, glyphs, by rw [read], limit⟩, ?_⟩
  rintro _ reached ⟨earlier, mark, later, same, rfl, exceedsMark⟩
  rw [glyphs, List.append_eq_append_iff] at same
  rcases same with ⟨between, rfl, -⟩ | ⟨between, rfl, same⟩
  · rw [← read, Glyph.chars_append, Text.byteLength_append]
    exact Nat.le_add_right _ _
  · cases between with
    | nil => rw [← read, List.append_nil]
    | cons first others =>
      -- The other one would stand before the first one.
      rw [List.cons_append, List.cons.injEq] at same
      have none := within first (List.mem_append_right earlier List.mem_cons_self)
      rw [← same.1, exceedsMark] at none
      cases none

theorem Nonterminal.refused_at_first_excess (legible : symbol.Legible node)
    (deep : ArrayType.maxDimensions < symbol.arrayDepth node ∨
      Cursor.maxDepth < symbol.argumentDepth node) :
    ∃ position limit, symbol.ExceedsAt node position limit ∧
      (∀ other reached, symbol.ExceedsAt node other reached → position ≤ other) ∧
        symbol.parse (symbol.text node) = .error ⟨position, .nestedTooDeeply limit⟩ := by
  cases exceeds : Glyph.overrun? (symbol.glyphs 0 node) with
  | none =>
    have depths := depths_of_within (Nat.zero_le _) exceeds
    omega
  | some overrun =>
    obtain ⟨exceedsAt, first⟩ := exceedsAt_of_overrun exceeds
    exact ⟨_, _, exceedsAt, first, parse_text_of_overrun legible exceeds⟩

/-- A class type whose argument is an array of so many layers. -/
def ClassType.layered (layers : Nat) (positive : 0 < layers) : ClassType :=
  ⟨"A", [.exactly (.array (.withDimensions (.base .int) layers positive))], []⟩

theorem ClassType.layered_legible {layers : Nat} (positive : 0 < layers) :
    Nonterminal.classType.Legible (layered layers positive) := by
  have array : (ArrayType.withDimensions (.base .int) layers positive).Legible := by
    rw [← ArrayType.legible_element, ArrayType.element_withDimensions]
    trivial
  exact ⟨isBinaryName_cons Identifier.isName_sample (List.forall_mem_nil _), ⟨array, trivial⟩,
    trivial⟩

theorem ClassType.le_arrayDepth_layered {layers : Nat} (positive : 0 < layers) :
    layers ≤ Nonterminal.classType.arrayDepth (layered layers positive) := by
  have depth := ArrayType.dimensions_le_arrayDepth (.withDimensions (.base .int) layers positive)
  rw [ArrayType.dimensions_withDimensions] at depth
  have list := Nat.le_max_left
    (TypeArgument.arrayDepth (.exactly (.array (.withDimensions (.base .int) layers positive)))) 0
  exact (Nat.le_add_right _ _).trans (depth.trans (list.trans (Nat.le_max_left _ _)))

theorem Nonterminal.refused_at_first_excess_layered :
    classType.Legible (.layered 256 (by decide)) ∧
      (ArrayType.maxDimensions < classType.arrayDepth (.layered 256 (by decide)) ∨
        Cursor.maxDepth < classType.argumentDepth (.layered 256 (by decide))) ∧
      ∃ position limit, classType.ExceedsAt (.layered 256 (by decide)) position limit ∧
        (∀ other reached, classType.ExceedsAt (.layered 256 (by decide)) other reached →
          position ≤ other) ∧
          classType.parse (classType.text (.layered 256 (by decide))) =
            .error ⟨position, .nestedTooDeeply limit⟩ := by
  have legible : classType.Legible (.layered 256 (by decide)) := ClassType.layered_legible _
  have deep : 256 ≤ classType.arrayDepth (.layered 256 (by decide)) :=
    ClassType.le_arrayDepth_layered _
  exact ⟨legible, .inl deep, refused_at_first_excess legible (.inl deep)⟩

end GenericSignature
