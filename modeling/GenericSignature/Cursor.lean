import GenericSignature.Text
import Std.Data.HashMap

/-! A forward-only view of a text that is being read.

Offsets are counted in bytes from the current position, and at one that falls inside a character
there is nothing to see. Looking ahead never moves the cursor; only `advance` does, and it never
stops inside a character.
-/

set_option autoImplicit false

namespace GenericSignature

/-- `depth` counts the lists of type arguments that are open at the position, and `names` holds
the identifiers read so far, so that equal names share one object. -/
structure Cursor where
  position : Nat
  rest : List Char
  depth : Nat
  names : Std.HashMap String Identifier

def Cursor.maxDepth : Nat := 128

def Cursor.ofText (text : String) : Cursor := ⟨0, text.toList, 0, ∅⟩

def Cursor.remaining (cursor : Cursor) : String := String.ofList cursor.rest

def Cursor.isAtEnd (cursor : Cursor) : Bool := cursor.rest.isEmpty

def Cursor.charAt? (cursor : Cursor) (offset : Nat) : Option Char :=
  (Text.splitBytes? offset cursor.rest).bind fun (_, ahead) => ahead.head?

def Cursor.indexOf? (cursor : Cursor) (wanted : Char) (start : Nat) : Option Nat :=
  (Text.splitBytes? start cursor.rest).bind fun (_, ahead) => Text.byteIndexFrom? wanted start ahead

def Cursor.substring? (cursor : Cursor) (start stop : Nat) : Option String :=
  if start ≤ stop then do
    let (_, ahead) ← Text.splitBytes? start cursor.rest
    let (selected, _) ← Text.splitBytes? (stop - start) ahead
    return String.ofList selected
  else none

/-- Moves on by `bytes` bytes and to the end of the character they lead into, or to the end of the
text if that is nearer. -/
def Cursor.advance (cursor : Cursor) (bytes : Nat) : Cursor :=
  let (position, rest) := Text.skipBytes cursor.position bytes cursor.rest
  { cursor with position, rest }

end GenericSignature
