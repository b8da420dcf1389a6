import GenericSignature.Proofs.Reading.Language

/-! The readings of single characters and of names. -/

set_option autoImplicit false

namespace GenericSignature

variable {α β : Type} {depth : Nat} {read text : List Char} {next : Option Char} {wanted : Char}

theorem Text.takeWhile_append {accepts : Char → Bool} {tail : List Char}
    (inside : ∀ char ∈ read, accepts char = true)
    (outside : ∀ char ∈ tail.head?, accepts char = false) :
    (read ++ tail).takeWhile accepts = read := by
  rw [List.takeWhile_append_of_pos inside]
  cases tail with
  | nil => simp
  | cons first rest =>
    have stops : accepts first = false := outside first rfl
    simp [stops]

theorem Text.exists_takeWhile (accepts : Char → Bool) (text : List Char) :
    ∃ read tail, text = read ++ tail ∧ (∀ char ∈ read, accepts char = true) ∧
      ∀ char ∈ tail.head?, accepts char = false := by
  refine ⟨text.takeWhile accepts, text.dropWhile accepts,
    List.takeWhile_append_dropWhile.symm, fun char member => ?_, fun char first => ?_⟩
  · exact List.all_eq_true.mp List.all_takeWhile char member
  · have stops := List.head?_dropWhile_not accepts text
    rw [Option.mem_def.mp first] at stops
    exact stops

theorem Text.takeWhile_replicate_append {count : Nat} {tail : List Char}
    (ends : ∀ char ∈ tail.head?, char ≠ wanted) :
    (List.replicate count wanted ++ tail).takeWhile (· = wanted) = List.replicate count wanted := by
  apply takeWhile_append
  · intro char member
    exact decide_eq_true (List.eq_of_mem_replicate member)
  · intro char first
    exact decide_eq_false (ends char first)

theorem Text.exists_replicate (wanted : Char) (text : List Char) :
    ∃ count tail, text = List.replicate count wanted ++ tail ∧
      ∀ char ∈ tail.head?, char ≠ wanted := by
  obtain ⟨read, tail, rfl, inside, ends⟩ := exists_takeWhile (· = wanted) text
  have same : read = List.replicate read.length wanted :=
    List.eq_replicate_iff.mpr ⟨rfl, fun char member => of_decide_eq_true (inside char member)⟩
  exact ⟨read.length, tail, congrArg (· ++ tail) same,
    fun char first => of_decide_eq_false (ends char first)⟩

section Peek

variable {continuation : Option Char → Parser β} {outcome : Except Fault β}
  {goal : List Char → Option Char → Except Fault β → Prop}

theorem Parser.Yields.peek_bind
    (right : (continuation (read.head?.or next)).Yields depth read next outcome) :
    Yields (peek >>= continuation) depth read next outcome := by
  intro before faithful level tail ahead head
  have seen : before.rest.head? = read.head?.or next := by rw [ahead, List.head?_append, head]
  rw [← seen] at right
  exact right before faithful level tail ahead head

theorem Parser.Meets.peek_bind (right : (continuation text.head?).Meets depth text goal) :
    Meets (peek >>= continuation) depth text goal := by
  obtain ⟨read, tail, outcome, split, yields, holds⟩ := right
  rw [split, List.head?_append] at yields
  exact ⟨read, tail, outcome, split, yields.peek_bind, holds⟩

theorem Parser.yields_peek : peek.Yields depth [] next (.ok next) := by
  intro before faithful _ tail ahead head
  refine ⟨before, faithful.passes, ?_⟩
  rw [peek, ahead, List.nil_append, head]
  rfl

end Peek

section Skip

variable {continuation : Unit → Parser β} {outcome : Except Fault β} {char : Char}
  {goal : List Char → Option Char → Except Fault β → Prop} {bytes : Nat} {second : List Char}

theorem Parser.yields_skip (size : Text.byteLength read = bytes) :
    (skip bytes).Yields depth read next (.ok ()) := by
  subst size
  intro before faithful _ tail ahead _
  exact ⟨_, Cursor.advance_passes faithful ahead, rfl⟩

theorem Parser.Yields.skip_bind (size : Text.byteLength read = bytes)
    (right : (continuation ()).Yields depth second next outcome) :
    Yields (skip bytes >>= continuation) depth (read ++ second) next outcome :=
  (yields_skip size).bind right

theorem Parser.yields_skip_fail {fault : Fault} (size : Text.byteLength read = bytes) :
    (skip bytes >>= fun _ => fail fault : Parser β).Yields depth read next (.error fault) := by
  have whole : (skip bytes >>= fun _ => fail fault : Parser β).Yields depth (read ++ []) next
      (.error fault) := (yields_skip size).bind (yields_fail fault)
  rwa [List.append_nil] at whole

theorem Parser.Yields.skip_char_bind (size : char.utf8Size = bytes)
    (right : (continuation ()).Yields depth read next outcome) :
    Yields (skip bytes >>= continuation) depth (char :: read) next outcome := by
  have single : Text.byteLength [char] = bytes := by
    rw [Text.byteLength_cons, Text.byteLength_nil, Nat.add_zero, size]
  exact right.skip_bind single

theorem Parser.Meets.skip_char_bind (size : char.utf8Size = bytes)
    (right : (continuation ()).Meets depth text fun read => goal (char :: read)) :
    Meets (skip bytes >>= continuation) depth (char :: text) goal := by
  obtain ⟨read, tail, outcome, rfl, yields, holds⟩ := right
  exact ⟨char :: read, tail, outcome, rfl, yields.skip_char_bind size, holds⟩

end Skip

section Count

variable {continuation : Nat → Parser β} {outcome : Except Fault β} {count : Nat}

/-- The count may depend on all that is ahead, so the reading has to hold for each such count. -/
theorem Parser.Yields.countAhead_bind
    (right : ∀ tail, tail.head? = next →
      (continuation ((read ++ tail).takeWhile (· = wanted)).length).Yields depth read next
        outcome) :
    Yields (countAhead wanted >>= continuation) depth read next outcome := by
  intro before faithful level tail ahead head
  have counted := right tail head before faithful level tail ahead head
  rw [← ahead] at counted
  exact counted

theorem Parser.Yields.countAhead_exactly_bind (ends : ∀ char ∈ read.head?.or next, char ≠ wanted)
    (right : (continuation count).Yields depth (List.replicate count wanted ++ read) next outcome) :
    Yields (countAhead wanted >>= continuation) depth (List.replicate count wanted ++ read) next
      outcome := by
  apply countAhead_bind
  intro tail head
  rw [← head, ← List.head?_append] at ends
  rw [List.append_assoc, Text.takeWhile_replicate_append ends, List.length_replicate]
  exact right

-- Here the reading stops before the last of the wanted characters, so the count is not known.
theorem Parser.Yields.countAhead_more_bind
    (right : ∀ more, count < more →
      (continuation more).Yields depth (List.replicate count wanted) (some wanted) outcome) :
    Yields (countAhead wanted >>= continuation) depth (List.replicate count wanted) (some wanted)
      outcome := by
  apply countAhead_bind
  intro tail head
  obtain ⟨rest, rfl⟩ := List.head?_eq_some_iff.mp head
  apply right
  rw [List.takeWhile_append_of_pos fun char member =>
    decide_eq_true (List.eq_of_mem_replicate member)]
  simp

end Count

/-- What `unexpected` reports, depending on the next character. -/
def Fault.unexpected (expected : Expected) : Option Char → Fault
  | some found => .unexpectedChar expected found
  | none => .unexpectedEnd expected

theorem Parser.yields_unexpected (expected : Expected) :
    (unexpected expected : Parser α).Yields depth [] next (.error (.unexpected expected next)) := by
  apply Yields.peek_bind
  cases next with
  | none => exact yields_fail _
  | some found => exact yields_fail _

theorem Parser.meets_unexpected {expected : Expected}
    {goal : List Char → Option Char → Except Fault α → Prop}
    (holds : goal [] text.head? (.error (.unexpected expected text.head?))) :
    (unexpected expected : Parser α).Meets depth text goal :=
  ⟨[], text, _, rfl, yields_unexpected expected, holds⟩

section Consume

variable {continuation : Bool → Parser β} {outcome : Except Fault β}
  {goal : List Char → Option Char → Except Fault β → Prop}

theorem Parser.yields_consume_hit : (consume wanted).Yields depth [wanted] next (.ok true) := by
  have skipped : (skip wanted.utf8Size).Yields depth [wanted] next (.ok ()) :=
    yields_skip (by simp)
  have stands : [wanted].head?.or next = some wanted := rfl
  apply Yields.peek_bind
  rw [if_pos stands]
  exact skipped.bind_pure

theorem Parser.yields_consume_miss (differs : next ≠ some wanted) :
    (consume wanted).Yields depth [] next (.ok false) := by
  have stands : [].head?.or next ≠ some wanted := differs
  apply Yields.peek_bind
  rw [if_neg stands]
  exact yields_pure false

theorem Parser.Yields.consume_hit_bind
    (right : (continuation true).Yields depth read next outcome) :
    Yields (consume wanted >>= continuation) depth (wanted :: read) next outcome :=
  yields_consume_hit.bind right

theorem Parser.Yields.consume_miss_bind (differs : read.head?.or next ≠ some wanted)
    (right : (continuation false).Yields depth read next outcome) :
    Yields (consume wanted >>= continuation) depth read next outcome :=
  (yields_consume_miss differs).bind right

theorem Parser.Meets.consume_bind
    (hit : ∀ tail, text = wanted :: tail →
      (continuation true).Meets depth tail fun more => goal (wanted :: more))
    (miss : text.head? ≠ some wanted → (continuation false).Meets depth text goal) :
    Meets (consume wanted >>= continuation) depth text goal := by
  by_cases same : text.head? = some wanted
  · obtain ⟨tail, rfl⟩ := List.head?_eq_some_iff.mp same
    obtain ⟨read, rest, outcome, split, yields, holds⟩ := hit tail rfl
    exact ⟨wanted :: read, rest, outcome, by rw [split, List.cons_append],
      yields.consume_hit_bind, holds⟩
  · obtain ⟨read, rest, outcome, split, yields, holds⟩ := miss same
    rw [split, List.head?_append] at same
    exact ⟨read, rest, outcome, split, yields.consume_miss_bind same, holds⟩

end Consume

/-- The one text that is just the given character. -/
def Language.mark (char : Char) : Language Unit where
  chars _ := [char]
  Admits _ := True
  Ends _ _ := True

theorem Parser.expect_recognizes (wanted : Char) (expected : Expected) :
    (expect wanted expected).Recognizes depth (Language.mark wanted) where
  reads _ _ _ _ := by
    apply Yields.consume_hit_bind
    exact yields_pure ()
  explains text := by
    apply Meets.consume_bind
    · intro tail _
      exact meets_pure ⟨rfl, trivial, trivial⟩
    · intro _
      exact meets_unexpected ⟨(), trivial, List.nil_prefix⟩

end GenericSignature
