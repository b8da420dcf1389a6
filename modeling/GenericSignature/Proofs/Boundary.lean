import GenericSignature.Proofs.Reading.Judgement
import Mathlib.Order.Bounds.Basic

/-! Byte offsets that fall between two characters.

To skip bytes is to go on to the least such offset that is far enough, and a text can be cut at
these offsets.
-/

set_option autoImplicit false

namespace GenericSignature

namespace Text

variable {read tail before after : List Char} {offset : Nat}

/-- The offset falls between two characters, or at an end of the text. -/
def IsBoundary (text : List Char) (offset : Nat) : Prop :=
  ∃ before after, text = before ++ after ∧ byteLength before = offset

theorem byteLength_pos (nonempty : read ≠ []) : 0 < byteLength read := by
  obtain ⟨first, rest, rfl⟩ := List.exists_cons_of_ne_nil nonempty
  have positive := first.utf8Size_pos
  rw [byteLength_cons]
  omega

theorem eq_nil_of_byteLength_le (none : byteLength read ≤ 0) : read = [] :=
  Decidable.byContradiction fun nonempty => Nat.not_le_of_lt (byteLength_pos nonempty) none

theorem exists_append_of_le (same : read ++ tail = before ++ after)
    (shorter : byteLength read ≤ byteLength before) :
    ∃ between, before = read ++ between ∧ tail = between ++ after := by
  rcases List.append_eq_append_iff.mp same with ⟨between, rfl, rfl⟩ | ⟨between, rfl, rfl⟩
  · exact ⟨between, rfl, rfl⟩
  · rw [byteLength_append] at shorter
    obtain rfl : between = [] := eq_nil_of_byteLength_le (by omega)
    exact ⟨[], by rw [List.append_nil, List.append_nil], rfl⟩

theorem exists_cut_append_iff (far : byteLength read ≤ offset) :
    (∃ before, read ++ tail = before ++ after ∧ byteLength before = offset) ↔
      ∃ before, tail = before ++ after ∧ byteLength before = offset - byteLength read := by
  constructor
  · rintro ⟨before, same, rfl⟩
    obtain ⟨between, rfl, rfl⟩ := exists_append_of_le same far
    refine ⟨between, rfl, ?_⟩
    rw [byteLength_append, Nat.add_sub_cancel_left]
  · rintro ⟨before, rfl, length⟩
    refine ⟨read ++ before, (List.append_assoc _ _ _).symm, ?_⟩
    rw [byteLength_append]
    omega

/-- The offsets after the characters `read` are those of what follows, counted on. -/
theorem isBoundary_append_iff (far : byteLength read ≤ offset) :
    IsBoundary (read ++ tail) offset ↔ IsBoundary tail (offset - byteLength read) := by
  unfold IsBoundary
  rw [exists_comm]
  exact (exists_congr fun after => exists_cut_append_iff far).trans exists_comm

theorem splitBytesFrom?_append (passed read tail : List Char) :
    splitBytesFrom? passed (byteLength read) (read ++ tail) =
      some (passed.reverse ++ read, tail) := by
  induction read generalizing passed with
  | nil => simp [splitBytesFrom?]
  | cons first rest ih =>
    have positive := first.utf8Size_pos
    obtain ⟨bytes, size⟩ : ∃ bytes, byteLength (first :: rest) = bytes + 1 :=
      Nat.exists_eq_succ_of_ne_zero (by rw [byteLength_cons]; omega)
    have fits : first.utf8Size ≤ byteLength (first :: rest) := by
      rw [byteLength_cons]
      omega
    rw [size, List.cons_append, splitBytesFrom?, ← size, if_pos fits, byteLength_cons,
      Nat.add_sub_cancel_left, ih, List.reverse_cons, List.append_assoc, List.singleton_append]

theorem splitBytes?_append (read tail : List Char) :
    splitBytes? (byteLength read) (read ++ tail) = some (read, tail) :=
  splitBytesFrom?_append [] read tail

theorem splitBytesFrom?_eq_some {passed chars first second : List Char} {bytes : Nat}
    (split : splitBytesFrom? passed bytes chars = some (first, second)) :
    ∃ read, first = passed.reverse ++ read ∧ chars = read ++ second ∧ byteLength read = bytes := by
  fun_induction splitBytesFrom? passed bytes chars with
  | case1 passed chars =>
    cases split
    exact ⟨[], (List.append_nil _).symm, rfl, rfl⟩
  | case2 => cases split
  | case3 passed bytes char rest fits ih =>
    obtain ⟨read, rfl, rfl, length⟩ := ih split
    refine ⟨char :: read, by rw [List.reverse_cons, List.append_assoc, List.singleton_append],
      rfl, ?_⟩
    rw [byteLength_cons]
    omega
  | case4 => cases split

theorem splitBytes?_eq_some_iff {chars first second : List Char} {bytes : Nat} :
    splitBytes? bytes chars = some (first, second) ↔
      chars = first ++ second ∧ byteLength first = bytes := by
  constructor
  · intro split
    obtain ⟨read, rfl, whole, length⟩ := splitBytesFrom?_eq_some split
    exact ⟨whole, length⟩
  · rintro ⟨rfl, rfl⟩
    exact splitBytes?_append first second

/-- The least offset between two characters that is not before `bytes`, or the end of the text. -/
theorem exists_skipBytes (position bytes : Nat) (chars : List Char) :
    ∃ read tail, chars = read ++ tail ∧
      skipBytes position bytes chars = (position + byteLength read, tail) ∧
        IsLeast {offset | IsBoundary chars offset ∧ min (byteLength chars) bytes ≤ offset}
          (byteLength read) := by
  fun_induction skipBytes position bytes chars with
  | case1 position chars =>
    refine ⟨[], chars, rfl, rfl, ⟨⟨[], chars, rfl, rfl⟩, Nat.min_le_right _ _⟩, ?_⟩
    exact fun offset _ => Nat.zero_le offset
  | case2 position bytes =>
    refine ⟨[], [], rfl, rfl, ⟨⟨[], [], rfl, rfl⟩, Nat.min_le_left _ _⟩, ?_⟩
    exact fun offset _ => Nat.zero_le offset
  | case3 position bytes first rest ih =>
    obtain ⟨read, tail, split, skipped, ⟨-, enough⟩, least⟩ := ih
    have positive := first.utf8Size_pos
    refine ⟨first :: read, tail, by rw [split, List.cons_append], ?_, ⟨?_, ?_⟩, ?_⟩
    · rw [skipped, byteLength_cons, Nat.add_assoc]
    · exact ⟨first :: read, tail, by rw [split, List.cons_append], rfl⟩
    · rw [byteLength_cons, byteLength_cons]
      omega
    · rintro offset ⟨⟨before, after, same, rfl⟩, far⟩
      rw [byteLength_cons] at far
      cases before with
      | nil =>
        rw [byteLength_nil] at far
        omega
      | cons char before =>
        obtain ⟨rfl, rfl⟩ := List.cons.inj same
        rw [byteLength_cons] at far ⊢
        have further := least ⟨⟨before, after, rfl, rfl⟩, by omega⟩
        rw [byteLength_cons]
        omega

theorem skipBytes_of_le {position bytes : Nat} {chars : List Char}
    (all : byteLength chars ≤ bytes) :
    skipBytes position bytes chars = (position + byteLength chars, []) := by
  obtain ⟨read, tail, rfl, skipped, ⟨-, enough⟩, -⟩ := exists_skipBytes position bytes chars
  rw [byteLength_append] at all enough
  obtain rfl : tail = [] := eq_nil_of_byteLength_le (by omega)
  rw [skipped, List.append_nil]

end Text

theorem Cursor.Faithful.exists_passes_advance {cursor : Cursor} (faithful : cursor.Faithful)
    (bytes : Nat) : ∃ read, cursor.Passes read (cursor.advance bytes) := by
  obtain ⟨read, tail, split, skipped, -⟩ :=
    Text.exists_skipBytes cursor.position bytes cursor.rest
  have moved : cursor.advance bytes =
      { cursor with position := cursor.position + Text.byteLength read, rest := tail } := by
    rw [advance, skipped]
  rw [moved]
  exact ⟨read, split, rfl, rfl, faithful.of_names rfl⟩

end GenericSignature
