import GenericSignature.Declaration
import GenericSignature.Log
import GenericSignature.Parser.Declaration
import GenericSignature.Reference

/-! The grammar: for each of its nonterminals the nodes it derives, how one is read from a cursor
and how it is written.
-/

set_option autoImplicit false

namespace GenericSignature

inductive Nonterminal where
  | javaType
  | referenceType
  | classType
  | simpleClassType
  | arrayType
  | typeVariable
  | typeArgument
  | typeParameter
  | classSignature
  | methodSignature
  | fieldSignature
  | returnType
  | thrownType
  deriving DecidableEq, Repr

abbrev Nonterminal.Node : Nonterminal → Type
  | .javaType => JavaType
  | .referenceType => ReferenceType
  | .classType => ClassType
  | .simpleClassType => SimpleClassType
  | .arrayType => ArrayType
  | .typeVariable => TypeVariable
  | .typeArgument => TypeArgument
  | .typeParameter => TypeParameter
  | .classSignature => ClassSignature
  | .methodSignature => MethodSignature
  | .fieldSignature => FieldSignature
  | .returnType => ReturnType
  | .thrownType => ThrownType

instance Nonterminal.decEqNode (symbol : Nonterminal) : DecidableEq symbol.Node := by
  cases symbol <;> infer_instance

/-- Reads one node, however the lists of type arguments in it are read. -/
def Nonterminal.productionWith (typeArguments : Parser (List TypeArgument)) :
    (symbol : Nonterminal) → Parser symbol.Node
  | .javaType => Parser.javaType typeArguments
  | .referenceType => Parser.referenceType typeArguments
  | .classType => Parser.classType typeArguments
  | .simpleClassType => Parser.simpleClassType typeArguments
  | .arrayType => Parser.arrayType typeArguments
  | .typeVariable => Parser.typeVariable
  | .typeArgument => Parser.typeArgument typeArguments
  | .typeParameter => Parser.typeParameter typeArguments
  | .classSignature => Parser.classSignature typeArguments
  | .methodSignature => Parser.methodSignature typeArguments
  | .fieldSignature => Parser.fieldSignature typeArguments
  | .returnType => Parser.returnType typeArguments
  | .thrownType => Parser.thrownType typeArguments

def Nonterminal.production (symbol : Nonterminal) : Parser symbol.Node :=
  symbol.productionWith Parser.typeArguments

/-- Reads a whole text as one node, with nothing left over. -/
def Nonterminal.parse (symbol : Nonterminal) (text : String) : Except Malformed symbol.Node :=
  match symbol.production (Cursor.ofText text) with
  | .ok node cursor =>
    if cursor.isAtEnd then .ok node else .error ⟨cursor.position, .trailingCharacters⟩
  | .error error _ => .error error

def Nonterminal.parseLogged (symbol : Nonterminal) (text : String) :
    Logged (Except Malformed symbol.Node) :=
  match symbol.parse text with
  | .ok node => ⟨.ok node, []⟩
  | .error error => ⟨.error error, [.refused text error]⟩

def Nonterminal.chars : (symbol : Nonterminal) → symbol.Node → List Char
  | .javaType => JavaType.chars
  | .referenceType => ReferenceType.chars
  | .classType => ClassType.chars
  | .simpleClassType => SimpleClassType.chars
  | .arrayType => ArrayType.chars
  | .typeVariable => TypeVariable.chars
  | .typeArgument => TypeArgument.chars
  | .typeParameter => TypeParameter.chars
  | .classSignature => ClassSignature.chars
  | .methodSignature => MethodSignature.chars
  | .fieldSignature => FieldSignature.chars
  | .returnType => ReturnType.chars
  | .thrownType => ThrownType.chars

def Nonterminal.text (symbol : Nonterminal) (node : symbol.Node) : String :=
  String.ofList (symbol.chars node)

/-- The nonterminals whose nodes occur on their own. A nested class is named only inside of a
class type. -/
def Nonterminal.standsAlone (symbol : Nonterminal) : Bool := symbol ≠ .simpleClassType

end GenericSignature
