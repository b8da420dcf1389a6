import GenericSignature.Proofs.Boundary
import GenericSignature.Proofs.Reading.Declaration

/-! What a parser reports when it fails.

A report is judged by the place where the cursor is left: by the characters that were read before it
and by the one that stands there. What was read still earlier can only add to the former, so the
judgement is kept by every way to put parsers together.
-/

set_option autoImplicit false

namespace GenericSignature

/-- The fault is what is wrong between the characters that were read and the next one. -/
def Fault.Describes (read : List Char) (next : Option Char) : Fault → Prop
  | .unexpectedChar _ found => next = some found
  | .unexpectedEnd _ => next = none
  | .emptyIdentifier _ => ∀ char ∈ next, Identifier.isDelimiter char = true
  | .nestedTooDeeply limit =>
    (limit = ArrayType.maxDimensions ∧ next = some '[' ∧
      List.replicate ArrayType.maxDimensions '[' <:+ read) ∨
    (limit = Cursor.maxDepth ∧ next = some '<')
  | .trailingCharacters => False

theorem Fault.Describes.append {fault : Fault} {read : List Char} {next : Option Char}
    (describes : fault.Describes read next) (before : List Char) :
    fault.Describes (before ++ read) next := by
  cases fault with
  | nestedTooDeeply limit =>
    rcases describes with ⟨same, stands, brackets⟩ | nested
    · exact .inl ⟨same, stands, brackets.trans (List.suffix_append before read)⟩
    · exact .inr nested
  | _ => exact describes

variable {α β : Type}

/-- From the cursor the parser moves on to some place, and if it fails, it says of that place what
is wrong there. -/
def Parser.ReportsFrom (parser : Parser α) (before : Cursor) : Prop :=
  ∃ read after outcome, before.Passes read after ∧ parser before = ending outcome after ∧
    ∀ fault, outcome = .error fault → fault.Describes read after.rest.head?

/-- The same wherever `next` is ahead. -/
def Parser.ReportsAt (parser : Parser α) (next : Option Char) : Prop :=
  ∀ before : Cursor, before.Faithful → before.rest.head? = next → parser.ReportsFrom before

def Parser.Reports (parser : Parser α) : Prop :=
  ∀ before : Cursor, before.Faithful → parser.ReportsFrom before

section Rules

variable {parser : Parser α} {next : Option Char} {fault : Fault} {read tail : List Char}
  {before : Cursor}

theorem Parser.Reports.at (reports : parser.Reports) (next : Option Char) :
    parser.ReportsAt next :=
  fun before faithful _ => reports before faithful

/-- A reading reports rightly if its fault describes the place that it leads to. -/
theorem Parser.Yields.reportsFrom {outcome : Except Fault α}
    (yields : parser.Yields before.depth read tail.head? outcome) (faithful : before.Faithful)
    (split : before.rest = read ++ tail)
    (describes : ∀ fault, outcome = .error fault → fault.Describes read tail.head?) :
    parser.ReportsFrom before := by
  obtain ⟨after, passes, ran⟩ := yields before faithful rfl tail split rfl
  refine ⟨read, after, outcome, passes, ran, ?_⟩
  rwa [passes.rest_eq split]

theorem Parser.reports_pure (value : α) : Reports (pure value) :=
  fun _ faithful => (yields_pure value).reportsFrom faithful (List.nil_append _).symm nofun

theorem Parser.reportsAt_fail (describes : fault.Describes [] next) :
    ReportsAt (fail fault : Parser α) next := by
  intro before faithful stands
  apply (yields_fail fault).reportsFrom faithful (List.nil_append _).symm
  rintro _ ⟨⟩
  rwa [stands]

theorem Parser.Reports.bind {continuation : α → Parser β} (left : parser.Reports)
    (right : ∀ value, (continuation value).Reports) : Reports (parser >>= continuation) := by
  intro before faithful
  obtain ⟨read, middle, outcome, passes, ran, describes⟩ := left before faithful
  cases outcome with
  | error fault =>
    refine ⟨read, middle, .error fault, passes, ?_, fun other same => ?_⟩
    · change EStateM.bind parser continuation before = _
      rw [EStateM.bind, ran]
      rfl
    · cases same
      exact describes fault rfl
  | ok value =>
    obtain ⟨more, after, outcome, passesMore, ranMore, describesMore⟩ :=
      right value middle passes.faithful
    refine ⟨read ++ more, after, outcome, passes.trans passesMore, ?_, fun fault same => ?_⟩
    · change EStateM.bind parser continuation before = _
      rw [EStateM.bind, ran]
      exact ranMore
    · exact (describesMore fault same).append read

theorem Parser.Reports.map {transform : α → β} (reports : parser.Reports) :
    Reports (transform <$> parser) := by
  rw [map_eq_pure_bind]
  exact reports.bind fun _ => reports_pure _

theorem Parser.reports_peek_bind {continuation : Option Char → Parser β}
    (right : ∀ next, (continuation next).ReportsAt next) : Reports (peek >>= continuation) :=
  fun before faithful => right before.rest.head? before faithful rfl

theorem Parser.reports_peek : Reports peek :=
  fun _ faithful => yields_peek.reportsFrom faithful (List.nil_append _).symm nofun

theorem Parser.reports_skip (bytes : Nat) : Reports (skip bytes) := by
  intro before faithful
  obtain ⟨read, passes⟩ := faithful.exists_passes_advance bytes
  exact ⟨read, _, .ok (), passes, rfl, nofun⟩

theorem Parser.Reports.nested (reports : parser.Reports) : Reports (nested parser) := by
  intro before faithful
  obtain ⟨read, after, outcome, passes, ran, describes⟩ :=
    reports { before with depth := before.depth + 1 } (faithful.of_names rfl)
  have back : after.depth - 1 = before.depth := by
    rw [passes.depth, Nat.add_sub_cancel]
  refine ⟨read, { after with depth := after.depth - 1 }, outcome,
    ⟨passes.rest, passes.position, back, passes.faithful.of_names rfl⟩, ?_, describes⟩
  rw [Parser.nested, ran]
  cases outcome <;> rfl

end Rules

/-! ## Characters and names -/

section Primitives

variable {item : Parser α} {more : Parser Bool} {wanted : Char}

theorem Parser.reports_unexpected (expected : Expected) :
    Reports (unexpected expected : Parser α) := by
  apply reports_peek_bind
  intro next
  cases next with
  | none => exact reportsAt_fail rfl
  | some found => exact reportsAt_fail rfl

theorem Parser.reports_consume (wanted : Char) : Reports (consume wanted) := by
  apply reports_peek_bind
  intro next
  apply Reports.at
  split
  · exact (reports_skip _).bind fun _ => reports_pure true
  · exact reports_pure false

theorem Parser.reports_expect (wanted : Char) (expected : Expected) :
    Reports (expect wanted expected) := by
  apply (reports_consume wanted).bind
  intro found
  cases found with
  | true => exact reports_pure _
  | false => exact reports_unexpected expected

theorem Parser.reports_name (place : NamePlace) : Reports (name place) := by
  intro before faithful
  obtain ⟨read, tail, split, inside, ends⟩ :=
    Text.exists_takeWhile Identifier.isNameChar before.rest
  by_cases empty : read = []
  · subst empty
    apply (yields_name_empty ends).reportsFrom faithful split
    rintro _ ⟨⟩ char stands
    have ends := ends char stands
    rwa [Identifier.isNameChar, Bool.not_eq_false'] at ends
  · exact (yields_name empty inside ends).reportsFrom faithful split nofun

theorem Parser.reports_shared (text : String) : Reports (shared text) :=
  fun _ faithful => (yields_shared text).reportsFrom faithful (List.nil_append _).symm nofun

theorem Parser.reports_identifier (place : NamePlace) : Reports (identifier place) :=
  (reports_name place).bind reports_shared

/-! ## Repetitions -/

theorem Parser.Reports.rounds (reportsMore : more.Reports) (reportsItem : item.Reports)
    (ahead : List Char) (done : List α) : Reports (rounds more item ahead done) := by
  induction ahead generalizing done with
  | nil =>
    rw [Parser.rounds]
    apply reportsMore.bind
    intro goes
    cases goes with
    | true => exact reportsItem.bind fun _ => reports_pure _
    | false => exact reports_pure _
  | cons _ ahead ih =>
    rw [Parser.rounds]
    apply reportsMore.bind
    intro goes
    cases goes with
    | true => exact reportsItem.bind fun next => ih (next :: done)
    | false => exact reports_pure _

theorem Parser.Reports.repeatWhile (reportsMore : more.Reports) (reportsItem : item.Reports) :
    Reports (repeatWhile more item) :=
  fun before faithful => reportsMore.rounds reportsItem before.rest [] before faithful

theorem Parser.Reports.repeatUntil (reports : item.Reports) (closing : Char) :
    Reports (repeatUntil closing item) :=
  (reports_consume closing).map.repeatWhile reports

theorem Parser.Reports.someUntil (reports : item.Reports) (closing : Char) :
    Reports (someUntil closing item) :=
  reports.bind fun _ => (reports.repeatUntil closing).bind fun _ => reports_pure _

end Primitives

/-! ## Productions -/

section Productions

variable {typeArguments : Parser (List TypeArgument)}

theorem Parser.Reports.pair {first : Parser α} {second : Parser β} (left : first.Reports)
    (right : second.Reports) : Reports (pair first second) :=
  left.bind fun _ => right.bind fun _ => reports_pure _

theorem Parser.reports_binaryName : Reports binaryName := by
  apply (reports_name .binaryName).bind
  intro first
  exact ((reports_consume '/').repeatWhile (reports_name .binaryName)).bind fun _ => reports_pure _

theorem Parser.reports_typeVariable : Reports typeVariable := by
  rw [typeVariable_eq]
  exact ((reports_expect 'T' .typeVariable).pair ((reports_identifier .typeVariable).pair
    (reports_expect ';' .typeVariableEnd))).map

theorem Parser.Reports.simpleClassType (reports : typeArguments.Reports) :
    Reports (simpleClassType typeArguments) := by
  rw [simpleClassType_eq]
  exact ((reports_identifier .nestedClass).pair reports).map

theorem Parser.Reports.classType (reports : typeArguments.Reports) :
    Reports (classType typeArguments) := by
  have nested := (reports_consume '.').repeatWhile reports.simpleClassType
  rw [classType_eq]
  exact ((reports_expect 'L' .classType).pair (reports_binaryName.pair (reports.pair
    (nested.pair (reports_expect ';' .classTypeEnd))))).map

theorem Parser.Reports.namedType (reports : typeArguments.Reports) :
    Reports (namedType typeArguments) := by
  apply reports_peek_bind
  intro next
  apply Reports.at
  split
  · exact reports.classType.bind fun _ => reports_pure _
  · exact reports_typeVariable.bind fun _ => reports_pure _
  · exact reports_unexpected .referenceType

theorem Parser.Reports.primitiveOr {reference : Parser ReferenceType}
    (reports : reference.Reports) : Reports (primitiveOr reference) := by
  apply reports_peek_bind
  intro next
  apply Reports.at
  split
  · exact (reports_skip 1).bind fun _ => reports_pure _
  · exact reports.bind fun _ => reports_pure _

theorem Text.exists_of_lt_takeWhile {wanted : Char} {count : Nat} {text : List Char}
    (more : count < (text.takeWhile (· = wanted)).length) :
    ∃ tail, text = List.replicate count wanted ++ wanted :: tail := by
  obtain ⟨total, tail, rfl, ends⟩ := exists_replicate wanted text
  rw [takeWhile_replicate_append ends, List.length_replicate] at more
  obtain ⟨extra, rfl⟩ := Nat.exists_eq_add_of_lt more
  refine ⟨List.replicate extra wanted ++ tail, ?_⟩
  rw [Nat.add_assoc, ← List.replicate_append_replicate, List.replicate_succ, List.append_assoc,
    List.cons_append]

/-- Where there are too many brackets, as many as are allowed stand before the one reported. -/
theorem Parser.Reports.arrayType (reports : typeArguments.Reports) :
    Reports (arrayType typeArguments) := by
  intro before faithful
  change Parser.ReportsFrom (if positive : 0 < (before.rest.takeWhile (· = '[')).length then _
    else _) before
  split
  · split
    · have element := reports.namedType.primitiveOr
      exact (reports_skip _).bind (fun _ => element.bind fun _ => reports_pure _) before faithful
    · next exceeds =>
      obtain ⟨tail, split⟩ := Text.exists_of_lt_takeWhile (Nat.lt_of_not_le exceeds)
      apply (yields_skip_fail (Text.byteLength_replicate_bracket _)).reportsFrom faithful split
      rintro _ ⟨⟩
      exact .inl ⟨rfl, rfl, List.suffix_rfl⟩
  · exact reports_unexpected .arrayType before faithful

theorem Parser.Reports.referenceType (reports : typeArguments.Reports) :
    Reports (referenceType typeArguments) := by
  apply reports_peek_bind
  intro next
  apply Reports.at
  split
  · exact reports.arrayType.bind fun _ => reports_pure _
  · exact reports.namedType

theorem Parser.Reports.javaType (reports : typeArguments.Reports) :
    Reports (javaType typeArguments) :=
  reports.referenceType.primitiveOr

theorem Parser.Reports.typeArgument (reports : typeArguments.Reports) :
    Reports (typeArgument typeArguments) := by
  apply reports_peek_bind
  intro next
  apply Reports.at
  split
  · exact (reports_skip 1).bind fun _ => reports_pure _
  · exact (reports_skip 1).bind fun _ => reports.referenceType.bind fun _ => reports_pure _
  · exact (reports_skip 1).bind fun _ => reports.referenceType.bind fun _ => reports_pure _
  · exact reports.referenceType.bind fun _ => reports_pure _

theorem Parser.Reports.classBound (reports : typeArguments.Reports) :
    Reports (classBound typeArguments) := by
  apply reports_peek_bind
  intro next
  apply Reports.at
  split
  · exact reports.referenceType.map
  · exact reports.referenceType.map
  · exact reports.referenceType.map
  · exact reports_pure none

theorem Parser.Reports.typeParameter (reports : typeArguments.Reports) :
    Reports (typeParameter typeArguments) := by
  have bounds := (reports_consume ':').repeatWhile reports.referenceType
  rw [typeParameter_eq]
  exact ((reports_identifier .typeParameter).pair ((reports_expect ':' .parameterBound).pair
    (reports.classBound.pair bounds))).map

theorem Parser.Reports.typeParameters (reports : typeArguments.Reports) :
    Reports (typeParameters typeArguments) := by
  apply (reports_consume '<').bind
  intro opens
  cases opens with
  | true => exact reports.typeParameter.someUntil '>'
  | false => exact reports_pure []

theorem Parser.Reports.classSignature (reports : typeArguments.Reports) :
    Reports (classSignature typeArguments) := by
  rw [classSignature_eq]
  exact (reports.typeParameters.pair (reports.classType.pair
    (reports_peek.map.repeatWhile reports.classType))).map

theorem Parser.Reports.returnType (reports : typeArguments.Reports) :
    Reports (returnType typeArguments) := by
  apply (reports_consume 'V').bind
  intro isVoid
  cases isVoid with
  | true => exact reports_pure _
  | false => exact reports.javaType.bind fun _ => reports_pure _

theorem Parser.Reports.thrownType (reports : typeArguments.Reports) :
    Reports (thrownType typeArguments) := by
  apply reports_peek_bind
  intro next
  apply Reports.at
  split
  · exact reports.classType.bind fun _ => reports_pure _
  · exact reports_typeVariable.bind fun _ => reports_pure _
  · exact reports_unexpected .thrownType

theorem Parser.Reports.methodSignature (reports : typeArguments.Reports) :
    Reports (methodSignature typeArguments) := by
  have parameters := reports.javaType.repeatUntil ')'
  have thrown := (reports_consume '^').repeatWhile reports.thrownType
  rw [methodSignature_eq]
  exact (reports.typeParameters.pair ((reports_expect '(' .parameterList).pair
    (parameters.pair (reports.returnType.pair thrown)))).map

end Productions

/-! ## All productions -/

/-- Where no level is left, a list that opens is refused at its bracket. -/
theorem Parser.reports_typeArgumentsWithin (levels : Nat) :
    Reports (typeArgumentsWithin levels) := by
  induction levels with
  | zero =>
    unfold typeArgumentsWithin
    apply reports_peek_bind
    intro next
    split
    · next opens => exact reportsAt_fail (.inr ⟨rfl, opens⟩)
    · exact (reports_pure []).at next
  | succ levels ih =>
    unfold typeArgumentsWithin
    apply reports_peek_bind
    intro next
    apply Reports.at
    split
    · have list : (someUntil '>' (typeArgument (typeArgumentsWithin levels))).Reports :=
        ih.typeArgument.someUntil '>'
      exact Reports.nested ((reports_skip 1).bind fun _ => list)
    · exact reports_pure []

theorem Parser.reports_typeArguments : Reports typeArguments :=
  fun before => reports_typeArgumentsWithin (Cursor.maxDepth - before.depth) before

theorem Nonterminal.production_reports (symbol : Nonterminal) : symbol.production.Reports := by
  have reports := Parser.reports_typeArguments
  cases symbol with
  | javaType => exact reports.javaType
  | referenceType => exact reports.referenceType
  | classType => exact reports.classType
  | simpleClassType => exact reports.simpleClassType
  | arrayType => exact reports.arrayType
  | typeVariable => exact Parser.reports_typeVariable
  | typeArgument => exact reports.typeArgument
  | typeParameter => exact reports.typeParameter
  | classSignature => exact reports.classSignature
  | methodSignature => exact reports.methodSignature
  | fieldSignature => exact reports.referenceType.bind fun _ => Parser.reports_pure _
  | returnType => exact reports.returnType
  | thrownType => exact reports.thrownType

end GenericSignature
