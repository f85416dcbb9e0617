import Mediation.Json.Reader.Value

/-! Passing over a JSON value that nobody asks for. It has the grammar of any other value, but
nothing is made of it: containers may nest to any depth, numbers may be of any size, and escapes may
spell halves of pairs. What has been opened is kept on a stack. -/

namespace Mediation

namespace Json

/-- A container that has been opened. -/
inductive Bracket where
  | array
  | object
  deriving DecidableEq, Repr

namespace Bracket

def close : Bracket → Char
  | array => ']'
  | object => '\x7d'

/-- What is wrong if the text ends between the members of the container. -/
def eof : Bracket → Cause
  | array => .eofList
  | object => .eofObject

/-- What is wrong if something else follows a member of the container. -/
def expectedEnd : Bracket → Cause
  | array => .expectedListEnd
  | object => .expectedObjectEnd

end Bracket

namespace Reader

/-- Passes over an escape; its backslash has been read. -/
def skipEscape : Reader Unit := do
  match ← peek? with
  | none => failHere .eofString
  | some 'u' => do advance; discard hexUnit
  | some letter => if (escapedChar? letter).isSome then advance else failAfter 1 .invalidEscape

/-- Passes over one character of a string; nothing at the closing quote. -/
def skipTextChar? : Reader (Option Unit) := do
  match ← peek? with
  | none => failHere .eofString
  | some '"' => do advance; pure none
  | some '\\' => do advance; some <$> skipEscape
  | some c => if c.toNat < 32 then failHere .controlCharacter else some <$> advance

/-- Passes over a string; its opening quote has been read. -/
def skipText : Reader Unit := steps (fun _ => skipTextChar?) ()

/-- Passes over a number; its sign has been read. -/
def skipNumber : Reader Unit := do
  discard (integerDigits .invalidNumber)
  discard (fractionDigits? .invalidNumber)
  discard (exponentDigits? .invalidNumber)

/-- Passes over what follows a value up to the next member of a container, and gives the containers
that are then open; none if the outermost value has come to its end. -/
def skipEnds : List Bracket → Reader (List Bracket)
  | [] => pure []
  | b :: outer => do
    let c ← peekToken b.eof
    if c = ',' then do advance; pure (b :: outer)
    else if c = b.close then do advance; skipEnds outer
    else failNext b.expectedEnd

/-- Passes over an opening bracket, and over the closing one if that comes next. -/
def skipOpening (b : Bracket) (outer : List Bracket) : Reader (List Bracket) := do
  advance
  if (← peekToken b.eof) = b.close then do advance; skipEnds outer else pure (b :: outer)

/-- Passes over one value within open containers, or over the opening of one. -/
def skipPart (outer : List Bracket) : Reader (List Bracket) := do
  match ← peekToken .eofValue with
  | 'n' => do advance; word ['u', 'l', 'l']; skipEnds outer
  | 't' => do advance; word ['r', 'u', 'e']; skipEnds outer
  | 'f' => do advance; word ['a', 'l', 's', 'e']; skipEnds outer
  | '"' => do advance; skipText; skipEnds outer
  | '-' => do advance; skipNumber; skipEnds outer
  | '[' => skipOpening .array outer
  | '\x7b' => skipOpening .object outer
  | c => if c.isDigit then do skipNumber; skipEnds outer else failNext .expectedValue

/-- Passes over the key of the member that comes next, if it has one. -/
def skipKey : Bracket → Reader Unit
  | .array => pure ()
  | .object => do
    match ← peekToken .eofObject with
    | '"' => do advance; skipText; colon
    | _ => failNext .keyMustBeText

def skipValue : Reader Unit :=
  discard <| steps (fun outer => do
    match ← skipPart outer with
    | [] => pure none
    | b :: outer => do skipKey b; pure (some (b :: outer))) []

end Reader

end Json

end Mediation
