import GenericSignature.Proofs.Reading.Primitive
import Mathlib.Data.List.Chain

/-! The readings of repeated items.

The rounds of a repetition are counted by the characters that were ahead at its start. A reading of
rounds leaves that count open and asks only that it covers the characters that are read.
-/

set_option autoImplicit false

namespace GenericSignature

variable {α β : Type}

/-- What the rounds of a repetition read, apart from the items that went before. -/
def Parser.RoundsYield (more : Parser Bool) (item : Parser α) (depth : Nat) (read : List Char)
    (next : Option Char) (outcome : Except Fault (List α)) : Prop :=
  ∀ (ahead : List Char) (done : List α), read.length ≤ ahead.length →
    (rounds more item ahead done).Yields depth read next (outcome.map (done.reverse ++ ·))

def Parser.RoundsMeet (more : Parser Bool) (item : Parser α) (depth : Nat) (text : List Char)
    (property : List Char → Option Char → Except Fault (List α) → Prop) : Prop :=
  ∃ read tail outcome, text = read ++ tail ∧
    RoundsYield more item depth read tail.head? outcome ∧ property read tail.head? outcome

section Rounds

variable {more : Parser Bool} {item : Parser α} {depth : Nat} {first second third read : List Char}
  {next : Option Char} {value : α} {fault : Fault} {outcome : Except Fault (List α)}

theorem Parser.RoundsYield.stop (ends : more.Yields depth read next (.ok false)) :
    RoundsYield more item depth read next (.ok []) := by
  intro ahead done _
  have finish : (pure done.reverse : Parser (List α)).Yields depth [] next
      (.ok (done.reverse ++ [])) := by
    rw [List.append_nil]
    exact yields_pure done.reverse
  have whole : (rounds more item ahead done).Yields depth (read ++ []) next
      (.ok (done.reverse ++ [])) := by
    rw [rounds.eq_def]
    refine ends.bind ?_
    exact finish
  rwa [List.append_nil] at whole

theorem Parser.RoundsYield.fail
    (goes : more.Yields depth first (second.head?.or next) (.ok true))
    (failed : item.Yields depth second next (.error fault)) :
    RoundsYield more item depth (first ++ second) next (.error fault) := by
  intro ahead done _
  rw [rounds.eq_def]
  refine goes.bind ?_
  exact failed.bind_error

theorem Parser.RoundsYield.step
    (goes : more.Yields depth first ((second ++ third).head?.or next) (.ok true))
    (reads : item.Yields depth second (third.head?.or next) (.ok value))
    (progress : first ++ second ≠ []) (others : RoundsYield more item depth third next outcome) :
    RoundsYield more item depth (first ++ (second ++ third)) next (outcome.map (value :: ·)) := by
  intro ahead done covered
  have taken : 0 < (first ++ second).length := List.length_pos_iff.mpr progress
  simp only [List.length_append] at covered taken
  -- The count of rounds cannot run out here, because a character is still to be read.
  obtain ⟨char, rest, rfl⟩ : ∃ char rest, ahead = char :: rest :=
    List.exists_cons_of_length_pos (by omega)
  have remaining : third.length ≤ rest.length := by
    rw [List.length_cons] at covered
    omega
  have regrouped : (outcome.map (value :: ·)).map (done.reverse ++ ·) =
      outcome.map ((value :: done).reverse ++ ·) := by
    cases outcome <;> simp [Except.map]
  rw [rounds.eq_def, regrouped]
  refine goes.bind ?_
  refine reads.bind ?_
  exact others rest (value :: done) remaining

theorem Parser.RoundsYield.repeatWhile (yields : RoundsYield more item depth read next outcome) :
    (repeatWhile more item).Yields depth read next outcome := by
  intro before faithful level tail ahead head
  have covered : read.length ≤ before.rest.length := by
    rw [ahead, List.length_append]
    omega
  have same : outcome.map (([] : List α).reverse ++ ·) = outcome := by
    cases outcome <;> simp [Except.map]
  have rounds := yields before.rest [] covered
  rw [same] at rounds
  exact rounds before faithful level tail ahead head

theorem Parser.RoundsMeet.repeatWhile {text : List Char}
    {property : List Char → Option Char → Except Fault (List α) → Prop}
    (meets : RoundsMeet more item depth text property) :
    (repeatWhile more item).Meets depth text property := by
  obtain ⟨read, tail, outcome, split, yields, holds⟩ := meets
  exact ⟨read, tail, outcome, split, yields.repeatWhile, holds⟩

end Rounds

end GenericSignature
