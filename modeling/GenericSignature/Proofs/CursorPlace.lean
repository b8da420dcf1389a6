import GenericSignature.Proofs.Boundary
import GenericSignature.Proofs.CursorHistory
import GenericSignature.Proofs.FirstOffence
import GenericSignature.Proofs.Reading.FirstCharacter

/-! The place of a cursor in its text.

However a cursor was moved, it stands between two characters of the text that it was made for, it
has exactly the rest of that text ahead, and it has never gone back.
-/

set_option autoImplicit false

namespace GenericSignature

/-- What holds of every cursor over the text. The text can be cut where the cursor stands, and what
is ahead is the second part. Sums of offsets may stop at any `largest` one that the text does not
exceed. -/
structure Cursor.StaysIn (cursor : Cursor) (text : String) : Prop where
  bounded : cursor.position ≤ text.utf8ByteSize
  boundary : Text.IsBoundary text.toList cursor.position
  remaining : ∃ before : String, text = before ++ cursor.remaining ∧
    before.utf8ByteSize = cursor.position ∧
      Text.splitBytes? cursor.position text.toList = some (before.toList, cursor.rest)
  forwards : ∀ actions, cursor.position ≤ (cursor.run actions).position
  advances : ∀ bytes, IsLeast
    {offset | Text.IsBoundary text.toList offset ∧
      min text.utf8ByteSize (cursor.position + bytes) ≤ offset}
    (cursor.advance bytes).position
  saturates : ∀ bytes largest, text.utf8ByteSize ≤ largest →
    cursor.advance (min (cursor.position + bytes) largest - cursor.position) = cursor.advance bytes
  progress : ∀ (symbol : Nonterminal) node after, symbol.production cursor = .ok node after →
    cursor.position < after.position

section Moves

variable {cursor after : Cursor} {text : String} {before read : List Char} {bytes : Nat}
  {symbol : Nonterminal} {node : symbol.Node}

/-- A production that succeeds has read the text of the node, and that has a first character. -/
theorem Cursor.Settled.exists_passes_ok (settled : cursor.Settled)
    (ran : symbol.production cursor = .ok node after) :
    ∃ read, read ≠ [] ∧ cursor.Passes read after := by
  obtain ⟨read, tail, outcome, -, explained, -, after', passes, ran'⟩ :=
    settled.production symbol
  rw [ran] at ran'
  cases outcome with
  | ok node =>
    cases ran'
    obtain ⟨rfl, wellFormed, -⟩ := explained
    exact ⟨_, Nonterminal.WellFormed.chars_ne_nil wellFormed, passes⟩
  | error fault => cases ran'

theorem Cursor.Settled.exists_passes_act (settled : cursor.Settled) (action : Action) :
    ∃ read, cursor.Passes read (cursor.act action) := by
  cases action with
  | advance bytes => exact settled.faithful.exists_passes_advance bytes
  | read symbol =>
    obtain ⟨read, -, outcome, -, -, -, after, passes, ran⟩ := settled.production symbol
    rw [Cursor.act, ran]
    cases outcome with
    | ok node => exact ⟨read, passes⟩
    | error fault => exact ⟨read, passes⟩

theorem Cursor.Settled.exists_passes_run (settled : cursor.Settled) (actions : List Action) :
    ∃ read, cursor.Passes read (cursor.run actions) := by
  induction actions generalizing cursor with
  | nil => exact ⟨[], settled.faithful.passes⟩
  | cons first rest ih =>
    obtain ⟨read, passes⟩ := settled.exists_passes_act first
    obtain ⟨more, passesRest⟩ := ih (passes.settled settled)
    exact ⟨read ++ more, passes.trans passesRest⟩

theorem Text.byteLength_toList (text : String) : byteLength text.toList = text.utf8ByteSize := by
  rw [← utf8ByteSize_ofList, String.ofList_toList]

theorem Cursor.Passes.position_ofText (passes : (ofText text).Passes before cursor) :
    cursor.position = Text.byteLength before :=
  passes.position.trans (Nat.zero_add _)

theorem Cursor.Passes.utf8ByteSize_eq (passes : (ofText text).Passes before cursor) :
    text.utf8ByteSize = cursor.position + Text.byteLength cursor.rest := by
  have split : text.toList = before ++ cursor.rest := passes.rest
  rw [← Text.byteLength_toList, split, Text.byteLength_append, passes.position_ofText]

/-- To skip bytes of what is ahead is to go to the next offset of the whole text. -/
theorem Cursor.Passes.isLeast_advance (passes : (ofText text).Passes before cursor) (bytes : Nat) :
    IsLeast {offset | Text.IsBoundary text.toList offset ∧
      min text.utf8ByteSize (cursor.position + bytes) ≤ offset}
      (cursor.advance bytes).position := by
  obtain ⟨read, tail, split, skipped, ⟨-, enough⟩, least⟩ :=
    Text.exists_skipBytes cursor.position bytes cursor.rest
  have whole : text.toList = before ++ cursor.rest := passes.rest
  have moved : (cursor.advance bytes).position = cursor.position + Text.byteLength read := by
    rw [advance, skipped]
  rw [moved, whole, passes.utf8ByteSize_eq, passes.position_ofText]
  refine ⟨⟨⟨before ++ read, tail, ?_, Text.byteLength_append _ _⟩, by omega⟩, ?_⟩
  · rw [split, List.append_assoc]
  · rintro offset ⟨boundary, far⟩
    have further : Text.byteLength before ≤ offset := by omega
    have ahead := least ⟨(Text.isBoundary_append_iff further).mp boundary, by omega⟩
    omega

theorem Cursor.Passes.advance_saturating (passes : (ofText text).Passes before cursor)
    {largest : Nat} (fits : text.utf8ByteSize ≤ largest) :
    cursor.advance (min (cursor.position + bytes) largest - cursor.position) =
      cursor.advance bytes := by
  rcases Nat.le_total (cursor.position + bytes) largest with within | beyond
  · rw [Nat.min_eq_left within, Nat.add_sub_cancel_left]
  · -- Both lead to the end of the text.
    rw [passes.utf8ByteSize_eq] at fits
    rw [Nat.min_eq_right beyond, advance, Text.skipBytes_of_le (by omega), advance,
      Text.skipBytes_of_le (by omega)]

theorem Cursor.Passes.staysIn (settled : cursor.Settled)
    (passes : (ofText text).Passes before cursor) : cursor.StaysIn text where
  bounded := by
    rw [passes.utf8ByteSize_eq]
    omega
  boundary := ⟨before, cursor.rest, passes.rest, passes.position_ofText.symm⟩
  remaining := by
    have whole : text.toList = before ++ cursor.rest := passes.rest
    refine ⟨String.ofList before, ?_, ?_, ?_⟩
    · rw [remaining, ← String.ofList_append, ← whole, String.ofList_toList]
    · rw [Text.utf8ByteSize_ofList, passes.position_ofText]
    · rw [passes.position_ofText, whole, Text.splitBytes?_append, String.toList_ofList]
  forwards actions := by
    obtain ⟨read, passesMore⟩ := settled.exists_passes_run actions
    rw [passesMore.position]
    omega
  advances := passes.isLeast_advance
  saturates _ _ fits := passes.advance_saturating fits
  progress symbol node after ran := by
    obtain ⟨read, nonempty, passesNode⟩ := settled.exists_passes_ok ran
    have positive := Text.byteLength_pos nonempty
    rw [passesNode.position]
    omega

end Moves

theorem Cursor.run_staysIn (text : String) (actions : List Action) :
    ((ofText text).run actions).StaysIn text := by
  obtain ⟨before, passes⟩ := (settled_ofText text).exists_passes_run actions
  exact passes.staysIn ((settled_ofText text).run actions)

end GenericSignature
