import Mediation.Json.Mismatch
import Mediation.Text.Mark
import Mediation.Text.Steps

/-! Reading JSON text character by character. A `Reader` takes the characters that are left and
comes to a value or to a fault, in either case with what is left then. A fault knows where it lies
by the number of bytes left there; a fault that concerns a value as a whole is raised without a
place and gets the place at which the reader of the enclosing value gives up (`Reader.placed`). -/

namespace Mediation

namespace Json

/-- Why reading failed. -/
inductive Cause where
  | eofValue
  | eofList
  | eofObject
  | eofString
  | expectedColon
  | expectedListEnd
  | expectedObjectEnd
  | expectedIdent
  | expectedValue
  | invalidEscape
  | invalidNumber
  | numberOutOfRange
  | loneSurrogate
  | unexpectedEndOfEscape
  | controlCharacter
  | keyMustBeText
  | trailingComma
  | trailingCharacters
  | recursionLimit
  | mismatch (m : Mismatch)
  deriving DecidableEq, Repr

/-- What kind of failure a cause is: the text is no JSON, the text ends too early, or the value is
not what was asked for. -/
inductive Category where
  | malformed
  | unfinished
  | mismatched
  deriving DecidableEq, Repr

namespace Cause

def category : Cause → Category
  | eofValue | eofList | eofObject | eofString => .unfinished
  | mismatch _ => .mismatched
  | _ => .malformed

def message : Cause → String
  | eofValue => "EOF while parsing a value"
  | eofList => "EOF while parsing a list"
  | eofObject => "EOF while parsing an object"
  | eofString => "EOF while parsing a string"
  | expectedColon => "expected `:`"
  | expectedListEnd => "expected `,` or `]`"
  | expectedObjectEnd => "expected `,` or `\x7d`"
  | expectedIdent => "expected ident"
  | expectedValue => "expected value"
  | invalidEscape => "invalid escape"
  | invalidNumber => "invalid number"
  | numberOutOfRange => "number out of range"
  | loneSurrogate => "lone leading surrogate in hex escape"
  | unexpectedEndOfEscape => "unexpected end of hex escape"
  | controlCharacter => "control character (\\u0000-\\u001F) found while parsing a string"
  | keyMustBeText => "key must be a string"
  | trailingComma => "trailing comma"
  | trailingCharacters => "trailing characters"
  | recursionLimit => "recursion limit exceeded"
  | mismatch m => m.message

end Cause

/-- A failure, and how many bytes are left at the place where it lies. -/
structure Fault where
  cause : Cause
  left : Option Nat
  deriving DecidableEq, Repr

/-- What reading came to, and the characters left then. -/
inductive Outcome (α : Type) where
  | done (value : α) (rest : List Char)
  | failed (fault : Fault) (rest : List Char)
  deriving Repr

/-- Reads a value from the characters that are left. -/
def Reader (α : Type) : Type := List Char → Outcome α

namespace Reader

variable {α β : Type}

protected def pure (a : α) : Reader α := fun s => .done a s

protected def bind (r : Reader α) (f : α → Reader β) : Reader β := fun s =>
  match r s with
  | .done a rest => f a rest
  | .failed fault rest => .failed fault rest

instance : Monad Reader where
  pure := Reader.pure
  bind := Reader.bind

theorem pure_apply (a : α) (s : List Char) : (Pure.pure a : Reader α) s = .done a s := rfl

theorem bind_apply (r : Reader α) (f : α → Reader β) (s : List Char) :
    (r >>= f) s = match r s with
      | .done a rest => f a rest
      | .failed fault rest => .failed fault rest := rfl

/-- Fails a number of bytes further on than reading has come, or at the end of the text. -/
def failAfter (bytes : Nat) (cause : Cause) : Reader α := fun s =>
  .failed ⟨cause, some (Text.size s - bytes)⟩ s

/-- Fails a number of bytes before the place that reading has come to. -/
def failBefore (bytes : Nat) (cause : Cause) : Reader α := fun s =>
  .failed ⟨cause, some (Text.size s + bytes)⟩ s

def failHere (cause : Cause) : Reader α := failAfter 0 cause

def failNext (cause : Cause) : Reader α := failAfter 1 cause

def mismatch (m : Mismatch) : Reader α := fun s => .failed ⟨.mismatch m, none⟩ s

/-- The answer, or a fault without a place. -/
def judged : Except Mismatch α → Reader α
  | .ok a => pure a
  | .error m => mismatch m

/-- Gives a fault without a place the place that reading has come to. -/
def placed (r : Reader α) : Reader α := fun s =>
  match r s with
  | .failed ⟨cause, none⟩ rest => .failed ⟨cause, some (Text.size rest)⟩ rest
  | outcome => outcome

/-- Reads the inside of a container and then its end. The end is looked for even if the inside has
failed; the failure of the inside is the one that counts. -/
def closedBy (close : Reader Unit) (inside : Reader α) : Reader α := fun s =>
  match inside s with
  | .done a rest =>
      match close rest with
      | .done _ rest => .done a rest
      | .failed fault rest => .failed fault rest
  | .failed fault rest =>
      match close rest with
      | .done _ rest | .failed _ rest => .failed fault rest

def isBlank (c : Char) : Bool := c = ' ' || c = '\n' || c = '\t' || c = '\r'

def skipBlanks : Reader Unit := fun s => .done () (s.dropWhile isBlank)

/-- The character that comes next, if any is left. -/
def peek? : Reader (Option Char) := fun s => .done s.head? s

def advance : Reader Unit := fun s => .done () s.tail

/-- The character after the blanks; at the end of the text the given cause. -/
def peekToken (eof : Cause) : Reader Char := do
  skipBlanks
  match ← peek? with
  | some c => pure c
  | none => failNext eof

def word : List Char → Reader Unit
  | [] => pure ()
  | expected :: rest => do
    match ← peek? with
    | none => failHere .eofValue
    | some c => if c = expected then do advance; word rest else failNext .expectedIdent

variable {σ : Type}

/-- Takes steps until one of them says that there are no more. -/
def steps (step : σ → Reader (Option σ)) (start : σ) : Reader σ := fun s =>
  Text.stepsAlong step s start s

/-- Gathers what a reader finds until it finds nothing more. -/
def many (next : Reader (Option α)) : Reader (List α) := do
  let found ← steps (fun found => do return (← next).map (· :: found)) []
  pure found.reverse

end Reader

/-- Why a text could not be read, and where. -/
structure ReadError where
  cause : Cause
  mark : Option Mark
  deriving DecidableEq, Repr

namespace ReadError

def message (e : ReadError) : String :=
  match e.mark with
  | some mark =>
      e.cause.message ++ " at line " ++ toString mark.line ++ " column " ++ toString mark.column
  | none => e.cause.message

end ReadError

namespace Reader

variable {α : Type}

def atEnd : Reader Unit := do
  skipBlanks
  match ← peek? with
  | some _ => failNext .trailingCharacters
  | none => pure ()

def run (r : Reader α) (text : String) : Except ReadError α :=
  match (do let a ← r; atEnd; pure a : Reader α) text.toList with
  | .done a _ => .ok a
  | .failed fault _ =>
      let bytes := Text.bytes text
      .error ⟨fault.cause, fault.left.map fun left => Mark.ofOffset bytes (bytes.length - left)⟩

end Reader

end Json

end Mediation
