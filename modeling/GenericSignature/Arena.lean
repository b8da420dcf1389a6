import Std.Data.HashMap

/-! Storage that keeps each distinct value once.

Values are never removed, so an identifier stays valid as long as its arena does.
-/

set_option autoImplicit false

namespace GenericSignature

structure ArenaId where
  index : Nat
  deriving DecidableEq, Repr

/-- `ids` leads from a value back to its place in `values`. -/
structure Arena (α : Type) [BEq α] [Hashable α] where
  values : Array α
  ids : Std.HashMap α Nat

/-- An identifier that leads nowhere, because it is of another arena. -/
structure Arena.OutOfBounds where
  size : Nat
  index : Nat
  deriving DecidableEq, Repr

def Arena.OutOfBounds.message (error : OutOfBounds) : String :=
  s!"index out of bounds: the len is {error.size} but the index is {error.index}"

variable {α : Type} [BEq α] [Hashable α]

def Arena.empty : Arena α := ⟨#[], ∅⟩

def Arena.lookup? (arena : Arena α) (value : α) : Option ArenaId :=
  arena.ids[value]?.map ArenaId.mk

/-- Stores a value unless an equal one is there, and says where it is. -/
def Arena.intern (arena : Arena α) (value : α) : ArenaId × Arena α :=
  match arena.lookup? value with
  | some id => (id, arena)
  | none =>
    let index := arena.values.size
    (⟨index⟩, ⟨arena.values.push value, arena.ids.insert value index⟩)

def Arena.get? (arena : Arena α) (id : ArenaId) : Option α := arena.values[id.index]?

def Arena.get (arena : Arena α) (id : ArenaId) : Except OutOfBounds α :=
  match arena.get? id with
  | some value => .ok value
  | none => .error ⟨arena.values.size, id.index⟩

def Arena.size (arena : Arena α) : Nat := arena.values.size

def Arena.isEmpty (arena : Arena α) : Bool := arena.values.isEmpty

def Arena.toList (arena : Arena α) : List α := arena.values.toList

end GenericSignature
