import GenericSignature.Proofs.Reading.Production

/-! A cursor carries no history.

Whatever has been read from a cursor, and however that ended, what is read next depends on the
remaining text alone. Only the positions are counted on.
-/

set_option autoImplicit false

namespace GenericSignature

inductive Cursor.Action where
  | advance (bytes : Nat)
  | read (symbol : Nonterminal)
  deriving DecidableEq, Repr

def Cursor.act (cursor : Cursor) : Action → Cursor
  | .advance bytes => cursor.advance bytes
  | .read symbol =>
    -- A production that fails has moved the cursor as well.
    match symbol.production cursor with
    | .ok _ after => after
    | .error _ after => after

def Cursor.run (cursor : Cursor) (actions : List Action) : Cursor := actions.foldl act cursor

/-- Two cursors at the same place, the first of which has counted from `offset`. No list of type
arguments is open. -/
structure Cursor.Shifted (offset : Nat) (later fresh : Cursor) : Prop where
  position : later.position = offset + fresh.position
  rest : later.rest = fresh.rest
  later_depth : later.depth = 0
  fresh_depth : fresh.depth = 0

/-- The same result, with its position counted from `offset`. -/
inductive Parser.Shifted {α : Type} (offset : Nat) : EStateM.Result Malformed Cursor α →
    EStateM.Result Malformed Cursor α → Prop where
  | ok {value : α} {later fresh : Cursor} : later.Shifted offset fresh →
      Shifted offset (.ok value later) (.ok value fresh)
  | error {position : Nat} {fault : Fault} {later fresh : Cursor} : later.Shifted offset fresh →
      Shifted offset (.error ⟨offset + position, fault⟩ later) (.error ⟨position, fault⟩ fresh)

/-- Between two actions, no list of type arguments is open and every name is its own. -/
structure Cursor.Settled (cursor : Cursor) : Prop where
  depth : cursor.depth = 0
  faithful : cursor.Faithful

theorem Cursor.settled_ofText (text : String) : (ofText text).Settled :=
  ⟨rfl, faithful_ofText text⟩

theorem Cursor.Settled.advance {cursor : Cursor} (settled : cursor.Settled) (bytes : Nat) :
    (cursor.advance bytes).Settled :=
  ⟨settled.depth, settled.faithful.of_names rfl⟩

theorem Cursor.Passes.settled {before after : Cursor} {read : List Char}
    (passes : before.Passes read after) (settled : before.Settled) : after.Settled :=
  ⟨passes.depth.trans settled.depth, passes.faithful⟩

/-- The reading that the remaining text has also fits the cursor that stands before it. -/
theorem Cursor.Settled.production {cursor : Cursor} (settled : cursor.Settled)
    (symbol : Nonterminal) :
    ∃ read tail outcome, symbol.production.Yields 0 read tail.head? outcome ∧
      (symbol.language maxDepth).Explains read tail.head? outcome ∧
        cursor.rest = read ++ tail ∧ ∃ after, cursor.Passes read after ∧
          symbol.production cursor = Parser.ending outcome after := by
  obtain ⟨read, tail, outcome, split, yields, explained⟩ :=
    symbol.production_recognizes.explains cursor.rest
  exact ⟨read, tail, outcome, yields, explained, split,
    yields cursor settled.faithful settled.depth tail split rfl⟩

theorem Cursor.Settled.act {cursor : Cursor} (settled : cursor.Settled) (action : Action) :
    (cursor.act action).Settled := by
  cases action with
  | advance bytes => exact settled.advance bytes
  | read symbol =>
    obtain ⟨read, tail, outcome, -, -, -, after, passes, ran⟩ := settled.production symbol
    rw [Cursor.act, ran]
    cases outcome with
    | ok node => exact passes.settled settled
    | error fault => exact passes.settled settled

theorem Cursor.Settled.run {cursor : Cursor} (settled : cursor.Settled) (actions : List Action) :
    (cursor.run actions).Settled := by
  induction actions generalizing cursor with
  | nil => exact settled
  | cons first rest ih => exact ih (settled.act first)

theorem Cursor.ofText_remaining_rest (cursor : Cursor) :
    (ofText cursor.remaining).rest = cursor.rest := String.toList_ofList

theorem Cursor.Passes.shifted {cursor later fresh : Cursor} {read : List Char}
    (settled : cursor.Settled) (left : cursor.Passes read later)
    (right : (ofText cursor.remaining).Passes read fresh) :
    later.Shifted cursor.position fresh where
  position := by
    have start : (ofText cursor.remaining).position = 0 := rfl
    rw [left.position, right.position, start, Nat.zero_add]
  rest := by
    have same := left.rest
    rw [← cursor.ofText_remaining_rest, right.rest] at same
    exact (List.append_cancel_left same).symm
  later_depth := left.depth.trans settled.depth
  fresh_depth := right.depth

theorem Cursor.Settled.production_shifted {cursor : Cursor} (settled : cursor.Settled)
    (symbol : Nonterminal) :
    Parser.Shifted cursor.position (symbol.production cursor)
      (symbol.production (ofText cursor.remaining)) := by
  obtain ⟨read, tail, outcome, yields, -, split, later, passes, ran⟩ :=
    settled.production symbol
  rw [← cursor.ofText_remaining_rest] at split
  obtain ⟨fresh, passesFresh, ranFresh⟩ :=
    yields (ofText cursor.remaining) (faithful_ofText _) rfl tail split rfl
  -- One reading covers both runs: it asks neither for the position nor for the names.
  have shifted := passes.shifted settled passesFresh
  rw [ran, ranFresh]
  cases outcome with
  | ok node => exact .ok shifted
  | error fault =>
    rw [Parser.ending, shifted.position]
    exact .error shifted

theorem Cursor.run_carries_no_history (text : String) (actions : List Action) :
    ((ofText text).run actions).depth = 0 ∧
      (∀ (name : String) (known : Identifier),
        ((ofText text).run actions).names[name]? = some known → known.text = name) ∧
      ∀ symbol : Nonterminal,
        Parser.Shifted ((ofText text).run actions).position
          (symbol.production ((ofText text).run actions))
          (symbol.production (ofText ((ofText text).run actions).remaining)) := by
  have settled := (settled_ofText text).run actions
  exact ⟨settled.depth, settled.faithful, settled.production_shifted⟩

end GenericSignature
