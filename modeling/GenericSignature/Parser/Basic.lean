import GenericSignature.Cursor
import GenericSignature.Malformed

/-! Reading from a cursor.

A parser that fails leaves the cursor where the offending character stands. None of them ever goes
back: the next character alone decides what is read.
-/

set_option autoImplicit false

namespace GenericSignature

abbrev Parser := EStateM Malformed Cursor

variable {α : Type}

def Parser.peek : Parser (Option Char) := fun cursor => .ok cursor.rest.head? cursor

def Parser.skip (bytes : Nat) : Parser Unit := fun cursor => .ok () (cursor.advance bytes)

def Parser.countAhead (wanted : Char) : Parser Nat := fun cursor =>
  .ok (cursor.rest.takeWhile (· = wanted)).length cursor

def Parser.fail (fault : Fault) : Parser α := fun cursor =>
  .error ⟨cursor.position, fault⟩ cursor

def Parser.unexpected (expected : Expected) : Parser α := do
  match ← peek with
  | some found => fail (.unexpectedChar expected found)
  | none => fail (.unexpectedEnd expected)

def Parser.consume (wanted : Char) : Parser Bool := do
  if (← peek) = some wanted then
    skip wanted.utf8Size
    return true
  else
    return false

def Parser.expect (wanted : Char) (expected : Expected) : Parser Unit := do
  unless ← consume wanted do
    unexpected expected

def Parser.name (place : NamePlace) : Parser String := fun cursor =>
  match cursor.rest.takeWhile Identifier.isNameChar with
  | [] => fail (.emptyIdentifier place) cursor
  | chars => .ok (String.ofList chars) (cursor.advance (Text.byteLength chars))

/-- The identifier of the given text: the one read before, if there is one. -/
def Parser.shared (text : String) : Parser Identifier := fun cursor =>
  match cursor.names[text]? with
  | some known => .ok known cursor
  | none => .ok ⟨text⟩ { cursor with names := cursor.names.insert text ⟨text⟩ }

def Parser.identifier (place : NamePlace) : Parser Identifier := do
  shared (← name place)

/-- Reads one level deeper, and comes back up however that ends. -/
def Parser.nested (body : Parser α) : Parser α := fun cursor =>
  match body { cursor with depth := cursor.depth + 1 } with
  | .ok value after => .ok value { after with depth := after.depth - 1 }
  | .error error after => .error error { after with depth := after.depth - 1 }

/-- Repeats `item` while `more` holds, putting the results in front of `done`. Every item takes
at least one character, so the characters of `ahead`, the text at the start, outlast the rounds. -/
def Parser.rounds (more : Parser Bool) (item : Parser α) (ahead : List Char) (done : List α) :
    Parser (List α) := do
  if ← more then
    let next ← item
    match ahead with
    | [] => return (next :: done).reverse
    | _ :: ahead => rounds more item ahead (next :: done)
  else
    return done.reverse

def Parser.repeatWhile (more : Parser Bool) (item : Parser α) : Parser (List α) := fun cursor =>
  rounds more item cursor.rest [] cursor

/-- Items up to a closing character, which is read as well. -/
def Parser.repeatUntil (closing : Char) (item : Parser α) : Parser (List α) :=
  repeatWhile (not <$> consume closing) item

def Parser.someUntil (closing : Char) (item : Parser α) : Parser (List α) := do
  let first ← item
  let others ← repeatUntil closing item
  return first :: others

end GenericSignature
