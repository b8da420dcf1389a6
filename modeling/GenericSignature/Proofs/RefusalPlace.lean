import GenericSignature.Proofs.CursorPlace
import GenericSignature.Proofs.Reading.Report

/-! Where a production fails, and what is wrong there.

The cursor is left at the position that is reported, and the fault says what stands at it. That
position is the start exactly if the text cannot go on with any node there.
-/

set_option autoImplicit false

namespace GenericSignature

/-- The error is true of the place at which a production that began at `start` has left the cursor
over the text. -/
structure Malformed.Locates (error : Malformed) (text : String) (symbol : Nonterminal)
    (start stop : Cursor) : Prop where
  stops : stop.position = error.position
  forwards : start.position ≤ error.position
  bounded : error.position ≤ text.utf8ByteSize
  describes : ∃ read tail, text.toList = read ++ tail ∧ Text.byteLength read = error.position ∧
    error.fault.Describes read tail.head?
  immediate : error.position = start.position ↔
    ∀ char ∈ start.rest.head?, symbol.startsWith char = false

section Refusals

variable {symbol : Nonterminal} {cursor after : Cursor} {error : Malformed} {text : String}
  {before : List Char} {next : Option Char} {fault : Fault}

theorem Nonterminal.startsWith_eq_false_of_yields_nil {char : Char}
    (yields : symbol.production.Yields 0 [] (some char) (.error fault)) :
    symbol.startsWith char = false := by
  refine Bool.eq_false_iff.mpr fun starts => ?_
  -- With such a character, the production would also fail on a text that it accepts.
  obtain ⟨node, wellFormed, head⟩ := startsWith_iff.mp starts
  have split : (symbol.text node).toList = [] ++ symbol.chars node := String.toList_ofList
  obtain ⟨after, ran, -⟩ := yields.ofText split head
  have parsed := parse_text wellFormed
  rw [parse_of_error ran] at parsed
  cases parsed

theorem Nonterminal.startsWith_of_begins {first : Char} {rest : List Char} {node : symbol.Node}
    (wellFormed : symbol.WellFormed node) (begins : first :: rest <+: symbol.chars node) :
    symbol.startsWith first = true := by
  obtain ⟨completion, whole⟩ := begins
  exact startsWith_iff.mpr ⟨node, wellFormed, by rw [← whole]; rfl⟩

theorem Cursor.Settled.immediate_iff (settled : cursor.Settled)
    (failed : symbol.production cursor = .error error after) :
    error.position = cursor.position ↔
      ∀ char ∈ cursor.rest.head?, symbol.startsWith char = false := by
  obtain ⟨read, tail, outcome, yields, explained, split, after', passes, ran⟩ :=
    settled.production symbol
  rw [failed] at ran
  cases outcome with
  | ok node => cases ran
  | error fault =>
    cases ran
    have moved : after.position = cursor.position + Text.byteLength read := passes.position
    change after.position = cursor.position ↔ _
    constructor
    · intro same char stands
      obtain rfl : read = [] := Text.eq_nil_of_byteLength_le (by omega)
      rw [split, List.nil_append] at stands
      rw [Option.mem_def.mp stands] at yields
      exact Nonterminal.startsWith_eq_false_of_yields_nil yields
    · intro none
      obtain ⟨node, wellFormed, begins⟩ := explained
      cases read with
      | nil => exact moved
      | cons first rest =>
        have starts := Nonterminal.startsWith_of_begins wellFormed begins
        have refused : symbol.startsWith first = false := none first (by rw [split]; rfl)
        rw [starts] at refused
        cases refused

theorem Cursor.Passes.locates (settled : cursor.Settled)
    (passes : (ofText text).Passes before cursor)
    (failed : symbol.production cursor = .error error after) :
    error.Locates text symbol cursor after := by
  obtain ⟨read, stop, outcome, passesRead, ran, describes⟩ :=
    symbol.production_reports cursor settled.faithful
  have immediate := settled.immediate_iff failed
  rw [failed] at ran
  cases outcome with
  | ok node => cases ran
  | error fault =>
    cases ran
    have whole := passes.trans passesRead
    refine ⟨rfl, ?_, ?_, ?_, immediate⟩
    · change cursor.position ≤ after.position
      rw [passesRead.position]
      omega
    · change after.position ≤ text.utf8ByteSize
      rw [whole.utf8ByteSize_eq]
      omega
    · exact ⟨before ++ read, after.rest, whole.rest, whole.position_ofText.symm,
        (describes fault rfl).append before⟩

end Refusals

theorem Cursor.run_refusal_located {text : String} {actions : List Action} {symbol : Nonterminal}
    {error : Malformed} {after : Cursor}
    (failed : symbol.production ((ofText text).run actions) = .error error after) :
    error.Locates text symbol ((ofText text).run actions) after := by
  obtain ⟨before, passes⟩ := (settled_ofText text).exists_passes_run actions
  exact passes.locates ((settled_ofText text).run actions) failed

theorem Cursor.run_refusal_located_name :
    ∃ after, Nonterminal.classType.production ((ofText "éLA/;").run [.advance 1]) =
        .error ⟨5, .emptyIdentifier .binaryName⟩ after ∧
      Malformed.Locates ⟨5, .emptyIdentifier .binaryName⟩ "éLA/;" .classType
        ((ofText "éLA/;").run [.advance 1]) after := by
  have failed : ∃ after, Nonterminal.classType.production ((ofText "éLA/;").run [.advance 1]) =
      .error ⟨5, .emptyIdentifier .binaryName⟩ after := ⟨_, rfl⟩
  obtain ⟨after, failed⟩ := failed
  exact ⟨after, failed, run_refusal_located failed⟩

end GenericSignature
