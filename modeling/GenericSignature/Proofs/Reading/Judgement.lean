import GenericSignature.Parser.Basic

/-! What a parser does to the text ahead, apart from any particular cursor.

A reading says which characters a parser takes and how it ends, given only the one character that
follows them. It holds on every cursor: where the cursor stands, what comes after that character
and which names were read before make no difference.
-/

set_option autoImplicit false

namespace GenericSignature

/-- Every name that the cursor keeps is kept under its own text. -/
def Cursor.Faithful (cursor : Cursor) : Prop :=
  ∀ (text : String) (known : Identifier), cursor.names[text]? = some known → known.text = text

theorem Cursor.faithful_ofText (text : String) : (ofText text).Faithful := by
  intro name known kept
  simp [ofText] at kept

theorem Cursor.Faithful.of_names {before after : Cursor} (faithful : before.Faithful)
    (same : after.names = before.names) : after.Faithful := by
  intro name known kept
  rw [same] at kept
  exact faithful name known kept

/-- What is left of a cursor that has moved over the characters `read`. -/
structure Cursor.Passes (before : Cursor) (read : List Char) (after : Cursor) : Prop where
  rest : before.rest = read ++ after.rest
  position : after.position = before.position + Text.byteLength read
  depth : after.depth = before.depth
  faithful : after.Faithful

theorem Cursor.Faithful.passes {cursor : Cursor} (faithful : cursor.Faithful) :
    cursor.Passes [] cursor :=
  ⟨rfl, rfl, rfl, faithful⟩

theorem Cursor.Passes.trans {before middle after : Cursor} {first second : List Char}
    (left : before.Passes first middle) (right : middle.Passes second after) :
    before.Passes (first ++ second) after where
  rest := by rw [left.rest, right.rest, List.append_assoc]
  position := by rw [right.position, left.position, Text.byteLength_append, Nat.add_assoc]
  depth := right.depth.trans left.depth
  faithful := right.faithful

theorem Cursor.Passes.rest_eq {before after : Cursor} {read tail : List Char}
    (passes : before.Passes read after) (text : before.rest = read ++ tail) : after.rest = tail :=
  List.append_cancel_left (passes.rest.symm.trans text)

theorem Text.skipBytes_append (position : Nat) (read tail : List Char) :
    skipBytes position (byteLength read) (read ++ tail) = (position + byteLength read, tail) := by
  induction read generalizing position with
  | nil => simp [skipBytes]
  | cons first rest ih =>
    have positive : 0 < first.utf8Size := first.utf8Size_pos
    obtain ⟨bytes, size⟩ : ∃ bytes, byteLength (first :: rest) = bytes + 1 :=
      Nat.exists_eq_succ_of_ne_zero (by rw [byteLength_cons]; omega)
    rw [size, List.cons_append, skipBytes, ← size, byteLength_cons, Nat.add_sub_cancel_left, ih,
      Nat.add_assoc]

theorem Cursor.advance_append {cursor : Cursor} {read tail : List Char}
    (text : cursor.rest = read ++ tail) :
    cursor.advance (Text.byteLength read) =
      { cursor with position := cursor.position + Text.byteLength read, rest := tail } := by
  rw [advance, text, Text.skipBytes_append]

theorem Cursor.advance_passes {cursor : Cursor} {read tail : List Char}
    (faithful : cursor.Faithful) (text : cursor.rest = read ++ tail) :
    cursor.Passes read (cursor.advance (Text.byteLength read)) := by
  rw [advance_append text]
  exact ⟨text, rfl, rfl, faithful.of_names rfl⟩

variable {α β : Type}

/-- A result that leaves the cursor `after`; a fault lies where the cursor stands. -/
def Parser.ending (outcome : Except Fault α) (after : Cursor) : EStateM.Result Malformed Cursor α :=
  match outcome with
  | .ok value => .ok value after
  | .error fault => .error ⟨after.position, fault⟩ after

/-- At any cursor of the depth, the parser takes exactly `read` and ends with `outcome` whenever
`next` is the character that follows. -/
def Parser.Yields (parser : Parser α) (depth : Nat) (read : List Char) (next : Option Char)
    (outcome : Except Fault α) : Prop :=
  ∀ before : Cursor, before.Faithful → before.depth = depth →
    ∀ tail, before.rest = read ++ tail → tail.head? = next →
      ∃ after, before.Passes read after ∧ parser before = ending outcome after

/-- Some reading of the text has the property. -/
def Parser.Meets (parser : Parser α) (depth : Nat) (text : List Char)
    (property : List Char → Option Char → Except Fault α → Prop) : Prop :=
  ∃ read tail outcome, text = read ++ tail ∧ parser.Yields depth read tail.head? outcome ∧
    property read tail.head? outcome

section Readings

variable {parser : Parser α} {other : Parser α} {continuation : α → Parser β} {depth : Nat}
  {read first second text : List Char} {next : Option Char} {value : α} {fault : Fault}

theorem Parser.Yields.congr {outcome : Except Fault α}
    (yields : other.Yields depth read next outcome)
    (same : ∀ cursor : Cursor, cursor.depth = depth → parser cursor = other cursor) :
    parser.Yields depth read next outcome := by
  intro before faithful level tail ahead head
  rw [same before level]
  exact yields before faithful level tail ahead head

theorem Parser.yields_pure (value : α) :
    Yields (pure value) depth [] next (.ok value) := by
  intro before faithful _ _ _ _
  exact ⟨before, faithful.passes, rfl⟩

theorem Parser.yields_fail (fault : Fault) :
    Yields (fail fault : Parser α) depth [] next (.error fault) := by
  intro before faithful _ _ _ _
  exact ⟨before, faithful.passes, rfl⟩

/-- The first part of a sequence is followed by what the second part takes, and by `next` if that
is nothing. -/
theorem Parser.Yields.bind {outcome : Except Fault β}
    (left : parser.Yields depth first (second.head?.or next) (.ok value))
    (right : (continuation value).Yields depth second next outcome) :
    Yields (parser >>= continuation) depth (first ++ second) next outcome := by
  intro before faithful level tail ahead head
  rw [List.append_assoc] at ahead
  obtain ⟨middle, passesLeft, ranLeft⟩ := left before faithful level (second ++ tail) ahead
    (by rw [List.head?_append, head])
  obtain ⟨after, passesRight, ranRight⟩ := right middle passesLeft.faithful
    (passesLeft.depth.trans level) tail (passesLeft.rest_eq ahead) head
  refine ⟨after, passesLeft.trans passesRight, ?_⟩
  change EStateM.bind parser continuation before = _
  rw [EStateM.bind, ranLeft]
  exact ranRight

theorem Parser.Yields.bind_pure {finish : α → β}
    (left : parser.Yields depth read next (.ok value)) :
    Yields (parser >>= fun value => pure (finish value)) depth read next (.ok (finish value)) := by
  have whole : Yields (parser >>= fun value => pure (finish value)) depth (read ++ []) next
      (.ok (finish value)) := Yields.bind left (yields_pure (finish value))
  rwa [List.append_nil] at whole

theorem Parser.Yields.map {transform : α → β} (yields : parser.Yields depth read next (.ok value)) :
    Yields (transform <$> parser) depth read next (.ok (transform value)) := by
  intro before faithful level tail ahead head
  obtain ⟨after, passes, ran⟩ := yields before faithful level tail ahead head
  refine ⟨after, passes, ?_⟩
  change EStateM.map transform parser before = _
  rw [EStateM.map, ran]
  rfl

theorem Parser.Yields.bind_error (left : parser.Yields depth read next (.error fault)) :
    Yields (parser >>= continuation) depth read next (.error fault) := by
  intro before faithful level tail ahead head
  obtain ⟨after, passes, ran⟩ := left before faithful level tail ahead head
  refine ⟨after, passes, ?_⟩
  change EStateM.bind parser continuation before = _
  rw [EStateM.bind, ran]
  rfl

theorem Parser.meets_pure {property : List Char → Option Char → Except Fault α → Prop}
    (holds : property [] text.head? (.ok value)) :
    Meets (pure value) depth text property :=
  ⟨[], text, .ok value, rfl, yields_pure value, holds⟩

theorem Parser.meets_fail {property : List Char → Option Char → Except Fault α → Prop}
    (holds : property [] text.head? (.error fault)) :
    Meets (fail fault) depth text property :=
  ⟨[], text, .error fault, rfl, yields_fail fault, holds⟩

theorem Parser.Meets.mono {weaker stronger : List Char → Option Char → Except Fault α → Prop}
    (meets : parser.Meets depth text stronger)
    (implies : ∀ read next outcome, stronger read next outcome → weaker read next outcome) :
    parser.Meets depth text weaker := by
  obtain ⟨read, tail, outcome, split, yields, holds⟩ := meets
  exact ⟨read, tail, outcome, split, yields, implies read tail.head? outcome holds⟩

theorem Parser.Meets.bind {property : List Char → Option Char → Except Fault α → Prop}
    {goal : List Char → Option Char → Except Fault β → Prop}
    (left : parser.Meets depth text property)
    (right : ∀ read tail value, text = read ++ tail → property read tail.head? (.ok value) →
      (continuation value).Meets depth tail fun more => goal (read ++ more))
    (failed : ∀ read next fault, property read next (.error fault) →
      goal read next (.error fault)) :
    Meets (parser >>= continuation) depth text goal := by
  obtain ⟨read, tail, outcome, split, yields, holds⟩ := left
  cases outcome with
  | error fault =>
    exact ⟨read, tail, .error fault, split, yields.bind_error, failed read _ fault holds⟩
  | ok value =>
    obtain ⟨more, rest, final, splitMore, yieldsMore, holdsMore⟩ :=
      right read tail value split holds
    subst splitMore
    rw [List.head?_append] at yields
    refine ⟨read ++ more, rest, final, ?_, yields.bind yieldsMore, holdsMore⟩
    rw [split, List.append_assoc]

end Readings

end GenericSignature
