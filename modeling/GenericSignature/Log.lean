import GenericSignature.Text
import GenericSignature.Malformed

/-! Log records as data, and results that carry them. -/

set_option autoImplicit false

namespace GenericSignature

inductive LogLevel where
  | debug
  | trace
  deriving DecidableEq, Repr

def LogLevel.name : LogLevel → String
  | .debug => "DEBUG"
  | .trace => "TRACE"

/-- What is worth a record: a text that is refused, and each reason why the bound of a type
variable is not found where it was looked for. -/
inductive LogRecord where
  | refused (text : String) (error : Malformed)
  | cyclicBound (name : Identifier)
  | unbounded (name : Identifier)
  | undeclared (name : Identifier)
  | undeclaredByMethod (name : Identifier)
  deriving DecidableEq, Repr

def LogRecord.level : LogRecord → LogLevel
  | .refused _ _ => .debug
  | _ => .trace

def LogRecord.message : LogRecord → String
  | .refused text error => s!"Failed to parse signature `{text}`: {error.message}"
  | .cyclicBound name => s!"Type variable {name.text} has a cyclic bound, treating it as unbounded"
  | .unbounded name => s!"Type variable {name.text} is unbounded"
  | .undeclared name => s!"Type variable {name.text} is not declared"
  | .undeclaredByMethod name =>
    s!"Type variable {name.text} is not declared by the method, looking it up in the class"

def LogRecord.line (record : LogRecord) : String := s!"{record.level.name} {record.message}"

/-- A value with the records that were written on the way to it, in order. -/
structure Logged (α : Type) where
  value : α
  log : List LogRecord
  deriving DecidableEq

instance : Monad Logged where
  pure value := ⟨value, []⟩
  bind first next :=
    let second := next first.value
    ⟨second.value, first.log ++ second.log⟩

section Logged

variable {α β : Type}

theorem Logged.ext {first second : Logged α} (value : first.value = second.value)
    (log : first.log = second.log) : first = second := by
  cases first
  cases second
  simp_all

@[simp] theorem Logged.value_pure (value : α) : (pure value : Logged α).value = value := rfl

@[simp] theorem Logged.log_pure (value : α) : (pure value : Logged α).log = [] := rfl

@[simp] theorem Logged.value_bind (first : Logged α) (next : α → Logged β) :
    (first >>= next).value = (next first.value).value := rfl

@[simp] theorem Logged.log_bind (first : Logged α) (next : α → Logged β) :
    (first >>= next).log = first.log ++ (next first.value).log := rfl

end Logged

end GenericSignature
