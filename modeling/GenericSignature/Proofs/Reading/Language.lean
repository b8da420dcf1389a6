import GenericSignature.Proofs.Reading.Judgement

/-! Languages: what can be written, how it is written, and what may come after it.

A parser recognizes a language when it reads back every admitted value from its text, and when
every text that it is given is either the text of an admitted value or goes wrong at the first
character that no admitted text has there.
-/

set_option autoImplicit false

namespace GenericSignature

variable {α β : Type}

/-- `Ends` says of the character after the text of a value that it is not taken for a part of
that text. -/
@[ext] structure Language (α : Type) where
  chars : α → List Char
  Admits : α → Prop
  Ends : α → Option Char → Prop

/-- How a reading looks: the whole text of an admitted value, or a beginning of such a text. -/
def Language.Explains (language : Language α) (read : List Char) (next : Option Char) :
    Except Fault α → Prop
  | .ok value => read = language.chars value ∧ language.Admits value ∧ language.Ends value next
  | .error _ => ∃ value, language.Admits value ∧ read <+: language.chars value

structure Parser.Recognizes (parser : Parser α) (depth : Nat) (language : Language α) : Prop where
  reads : ∀ value next, language.Admits value → language.Ends value next →
    parser.Yields depth (language.chars value) next (.ok value)
  explains : ∀ text, parser.Meets depth text language.Explains

theorem Parser.Recognizes.congr {parser other : Parser α} {depth : Nat} {language : Language α}
    (same : ∀ cursor : Cursor, cursor.depth = depth → parser cursor = other cursor)
    (recognizes : other.Recognizes depth language) : parser.Recognizes depth language where
  reads value next admits ends := (recognizes.reads value next admits ends).congr same
  explains text := by
    obtain ⟨read, tail, outcome, split, yields, explained⟩ := recognizes.explains text
    exact ⟨read, tail, outcome, split, yields.congr same, explained⟩

section Sequences

variable {parser : Parser α} {continuation : α → Parser β} {depth : Nat} {language : Language α}
  {text second : List Char} {next : Option Char}

theorem Parser.Recognizes.yields_bind {outcome : Except Fault β}
    (recognizes : parser.Recognizes depth language) (value : α) (admits : language.Admits value)
    (ends : language.Ends value (second.head?.or next))
    (right : (continuation value).Yields depth second next outcome) :
    Yields (parser >>= continuation) depth (language.chars value ++ second) next outcome :=
  (recognizes.reads value _ admits ends).bind right

theorem Parser.Recognizes.meets_bind {goal : List Char → Option Char → Except Fault β → Prop}
    (recognizes : parser.Recognizes depth language)
    (right : ∀ value tail, text = language.chars value ++ tail → language.Admits value →
      language.Ends value tail.head? →
      (continuation value).Meets depth tail fun more => goal (language.chars value ++ more))
    (failed : ∀ value read next fault, language.Admits value → read <+: language.chars value →
      goal read next (.error fault)) :
    Meets (parser >>= continuation) depth text goal := by
  apply (recognizes.explains text).bind
  · rintro read tail value split ⟨rfl, admits, ends⟩
    exact right value tail split admits ends
  · intro read next fault ⟨value, admits, begins⟩
    exact failed value read next fault admits begins

theorem Parser.Recognizes.meets_return {whole : Language β} {wrap : α → β}
    (recognizes : parser.Recognizes depth language) (before : List Char)
    (chars : ∀ value, whole.chars (wrap value) = before ++ language.chars value)
    (admits : ∀ value, language.Admits value → whole.Admits (wrap value))
    (ends : ∀ value next, language.Ends value next → whole.Ends (wrap value) next) :
    Meets (parser >>= fun value => pure (wrap value)) depth text
      fun read => whole.Explains (before ++ read) := by
  apply recognizes.meets_bind
  · intro value tail _ isAdmitted endsValue
    apply meets_pure
    rw [List.append_nil]
    exact ⟨(chars value).symm, admits value isAdmitted, ends value _ endsValue⟩
  · intro value read next fault isAdmitted begins
    refine ⟨wrap value, admits value isAdmitted, ?_⟩
    rw [chars]
    exact (List.prefix_append_right_inj before).mpr begins

end Sequences

/-! ## Nodes by their parts

A node with several parts is read as nested pairs of them, and then put together.
-/

/-- One value after another. The first ends where the text of the second begins, or where what
follows begins if that text is empty. -/
def Language.pair (first : Language α) (second : Language β) : Language (α × β) where
  chars values := first.chars values.1 ++ second.chars values.2
  Admits values := first.Admits values.1 ∧ second.Admits values.2
  Ends values next :=
    first.Ends values.1 ((second.chars values.2).head?.or next) ∧ second.Ends values.2 next

def Parser.pair (first : Parser α) (second : Parser β) : Parser (α × β) := do
  let left ← first
  let right ← second
  return (left, right)

section Parts

variable {parser : Parser α} {other : Parser β} {depth : Nat}

theorem Parser.Recognizes.pair {first : Language α} {second : Language β}
    (left : parser.Recognizes depth first) (right : other.Recognizes depth second)
    (sample : ∃ value, second.Admits value) :
    (parser.pair other).Recognizes depth (first.pair second) where
  reads values next admits ends :=
    left.yields_bind values.1 admits.1 ends.1
      (right.reads values.2 next admits.2 ends.2).bind_pure
  explains text := by
    apply left.meets_bind
    · intro value tail _ admits ends
      apply right.meets_bind
      · rintro second rest rfl admitsSecond endsSecond
        rw [List.head?_append] at ends
        apply meets_pure
        rw [List.append_nil]
        exact ⟨rfl, ⟨admits, admitsSecond⟩, ends, endsSecond⟩
      · intro second read next fault admitsSecond begins
        exact ⟨(value, second), ⟨admits, admitsSecond⟩,
          (List.prefix_append_right_inj _).mpr begins⟩
    · -- Where the first part goes wrong, any second part completes the text.
      intro value read next fault admits begins
      obtain ⟨second, admitsSecond⟩ := sample
      exact ⟨(value, second), ⟨admits, admitsSecond⟩, begins.trans (List.prefix_append _ _)⟩

theorem Parser.Recognizes.map {parts : Language α} {whole : Language β} {build : α → β}
    (recognizes : parser.Recognizes depth parts) (builds : ∀ value, ∃ part, build part = value)
    (chars : ∀ part, whole.chars (build part) = parts.chars part)
    (admits : ∀ part, whole.Admits (build part) ↔ parts.Admits part)
    (ends : ∀ part next, whole.Ends (build part) next ↔ parts.Ends part next) :
    Recognizes (build <$> parser) depth whole where
  reads value next isAdmitted endsValue := by
    obtain ⟨part, rfl⟩ := builds value
    rw [chars]
    exact (recognizes.reads part next ((admits part).mp isAdmitted)
      ((ends part next).mp endsValue)).map
  explains text := by
    rw [map_eq_pure_bind]
    apply recognizes.meets_return []
    · exact chars
    · exact fun part isAdmitted => (admits part).mpr isAdmitted
    · exact fun part next endsPart => (ends part next).mpr endsPart

end Parts

end GenericSignature
