import GenericSignature.Proofs.Reading.Declaration

/-! The readings of the productions of the grammar. -/

set_option autoImplicit false

namespace GenericSignature

variable {symbol : Nonterminal} {depth levels : Nat}

theorem Nonterminal.productionWith_recognizes {typeArguments : Parser (List TypeArgument)}
    (recognizes : typeArguments.Recognizes depth (TypeArgument.listLanguage levels)) :
    (symbol.productionWith typeArguments).Recognizes depth (symbol.language levels) := by
  cases symbol with
  | javaType => exact Parser.javaType_recognizes recognizes
  | referenceType => exact Parser.referenceType_recognizes recognizes
  | classType => exact Parser.classType_recognizes recognizes
  | simpleClassType => exact Parser.simpleClassType_recognizes recognizes
  | arrayType => exact Parser.arrayType_recognizes recognizes
  | typeVariable => exact Parser.typeVariable_recognizes levels
  | typeArgument => exact Parser.typeArgument_recognizes recognizes
  | typeParameter => exact Parser.typeParameter_recognizes recognizes
  | classSignature => exact Parser.classSignature_recognizes recognizes
  | methodSignature => exact Parser.methodSignature_recognizes recognizes
  | fieldSignature => exact Parser.fieldSignature_recognizes recognizes
  | returnType => exact Parser.returnType_recognizes recognizes
  | thrownType => exact Parser.thrownType_recognizes recognizes

theorem Nonterminal.production_recognizes (symbol : Nonterminal) :
    symbol.production.Recognizes 0 (symbol.language Cursor.maxDepth) :=
  productionWith_recognizes Parser.typeArguments_recognizes

theorem Nonterminal.ends_none (node : symbol.Node) : symbol.Ends node none := by
  cases symbol with
  | simpleClassType => exact fun _ => ⟨nofun, nofun⟩
  | typeParameter => exact ⟨nofun, fun _ _ => ⟨nofun, nofun, nofun⟩⟩
  | classSignature => exact nofun
  | methodSignature => exact nofun
  | _ => trivial

theorem Parser.Yields.ofText {α : Type} {parser : Parser α} {outcome : Except Fault α}
    {text : String} {read tail : List Char} {next : Option Char}
    (yields : parser.Yields 0 read next outcome) (split : text.toList = read ++ tail)
    (head : tail.head? = next) :
    ∃ after, parser (Cursor.ofText text) = ending outcome after ∧ after.rest = tail ∧
      after.position = Text.byteLength read := by
  obtain ⟨after, passes, ran⟩ :=
    yields (Cursor.ofText text) (Cursor.faithful_ofText text) rfl tail split head
  refine ⟨after, ran, passes.rest_eq split, ?_⟩
  rw [passes.position]
  exact Nat.zero_add _

/-- A text in which something is left over is refused there. -/
theorem Nonterminal.parse_of_ok {text : String} {node : symbol.Node} {after : Cursor}
    (ran : symbol.production (Cursor.ofText text) = .ok node after) :
    symbol.parse text =
      if after.rest = [] then .ok node else .error ⟨after.position, .trailingCharacters⟩ := by
  rw [parse, ran]
  simp only [Cursor.isAtEnd, List.isEmpty_iff]

theorem Nonterminal.parse_of_error {text : String} {error : Malformed} {after : Cursor}
    (ran : symbol.production (Cursor.ofText text) = .error error after) :
    symbol.parse text = .error error := by
  rw [parse, ran]

end GenericSignature
