/-! Texts and the names in them.

A text is a list of characters, measured in the bytes of their UTF-8 encoding. A byte offset is
usable when it falls between two characters: splitting refuses every other offset, and skipping
moves on to the end of the character it lands in. The order of texts by their bytes is linear, so it
can key a search tree.

A name may be any text. Only the grammar asks for more: that it is not empty and is free of the
characters that structure a signature.
-/

set_option autoImplicit false

namespace GenericSignature

namespace Text

def byteLength (chars : List Char) : Nat :=
  chars.foldl (fun length char => length + char.utf8Size) 0

theorem foldl_utf8Size (chars : List Char) (length : Nat) :
    chars.foldl (fun length char => length + char.utf8Size) length = length + byteLength chars := by
  unfold byteLength
  induction chars generalizing length with
  | nil => simp
  | cons first rest ih =>
    simp only [List.foldl_cons]
    rw [ih (length + first.utf8Size), ih (0 + first.utf8Size)]
    omega

@[simp] theorem byteLength_nil : byteLength [] = 0 := rfl

@[simp] theorem byteLength_cons (first : Char) (rest : List Char) :
    byteLength (first :: rest) = first.utf8Size + byteLength rest := by
  rw [byteLength, List.foldl_cons, foldl_utf8Size]
  omega

@[simp] theorem byteLength_append (first second : List Char) :
    byteLength (first ++ second) = byteLength first + byteLength second := by
  induction first with
  | nil => simp
  | cons char rest ih => simp [ih, Nat.add_assoc]

def splitBytesFrom? (passed : List Char) : Nat → List Char → Option (List Char × List Char)
  | 0, chars => some (passed.reverse, chars)
  | _ + 1, [] => none
  | bytes + 1, char :: rest =>
    if char.utf8Size ≤ bytes + 1 then
      splitBytesFrom? (char :: passed) (bytes + 1 - char.utf8Size) rest
    else none

/-- The first `bytes` bytes and what follows them, unless the cut is out of range or inside a
character. -/
def splitBytes? (bytes : Nat) (chars : List Char) : Option (List Char × List Char) :=
  splitBytesFrom? [] bytes chars

/-- The offset of the first occurrence of `wanted`, counted from `offset`. -/
def byteIndexFrom? (wanted : Char) (offset : Nat) : List Char → Option Nat
  | [] => none
  | char :: rest =>
    if char = wanted then some offset else byteIndexFrom? wanted (offset + char.utf8Size) rest

/-- Skips at least `bytes` bytes, or all there are, and ends between two characters. The first
component counts on from `position`. -/
def skipBytes (position : Nat) : Nat → List Char → Nat × List Char
  | 0, chars => (position, chars)
  | _ + 1, [] => (position, [])
  | bytes + 1, char :: rest =>
    skipBytes (position + char.utf8Size) (bytes + 1 - char.utf8Size) rest

/-! ## Order -/

def bytes (text : String) : List UInt8 := text.toByteArray.data.toList

@[simp] theorem bytes_append (first second : String) :
    bytes (first ++ second) = bytes first ++ bytes second := by
  rw [bytes, String.toByteArray_append, ByteArray.data_append, Array.toList_append, bytes, bytes]

@[simp] theorem length_bytes (text : String) : (bytes text).length = text.utf8ByteSize := by
  rw [bytes, Array.length_toList, ByteArray.size_data, String.size_toByteArray]

theorem bytes_injective {first second : String} (same : bytes first = bytes second) :
    first = second :=
  String.toByteArray_inj.mp (ByteArray.ext (Array.toList_inj.mp same))

/-- Compares byte by byte; a proper beginning of a text comes before the text. -/
def byteOrder (first second : String) : Ordering := compare (bytes first) (bytes second)

instance : Std.TransCmp byteOrder where
  eq_swap {first second} := Std.OrientedOrd.eq_swap (a := bytes first) (b := bytes second)
  isLE_trans {first second third} :=
    Std.TransOrd.isLE_trans (a := bytes first) (b := bytes second) (c := bytes third)

instance : Std.LawfulEqCmp byteOrder where
  compare_self {text} := Std.ReflOrd.compare_self (a := bytes text)
  eq_of_compare {first second} same :=
    bytes_injective (Std.LawfulEqOrd.eq_of_compare (a := bytes first) (b := bytes second) same)

end Text

/-! ## Names -/

structure Identifier where
  text : String
  deriving DecidableEq, Hashable, Repr

def Identifier.byteLength (identifier : Identifier) : Nat :=
  Text.byteLength identifier.text.toList

instance : Ord Identifier where
  compare first second := Text.byteOrder first.text second.text

/-- The characters that end a name. -/
def Identifier.isDelimiter (char : Char) : Bool :=
  char ∈ ['.', ';', '[', '/', '<', '>', ':']

def Identifier.isNameChar (char : Char) : Bool :=
  !isDelimiter char

end GenericSignature
