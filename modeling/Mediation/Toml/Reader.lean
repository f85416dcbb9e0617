import Mediation.Text.Steps
import Mediation.Toml.Fault

/-! Reading the characters of a TOML text one by one. A reader knows how many bytes come before what
is left, and ends with a value or with the first fault. -/

namespace Mediation

namespace Toml

/-- What is left of a text, and how many bytes come before it. -/
structure Cursor where
  offset : Nat
  rest : List Char
  deriving DecidableEq, Repr

namespace Cursor

def drop (c : Cursor) (count : Nat) : Cursor :=
  ⟨c.offset + Text.size (c.rest.take count), c.rest.drop count⟩

def stop (c : Cursor) : Nat := c.offset + Text.size c.rest

end Cursor

/-- Reads something from what is left of a text. -/
abbrev Reader (α : Type) : Type := StateT Cursor (Except Fault) α

namespace Reader

variable {α σ : Type}

def offset : Reader Nat := return (← get).offset

/-- The character that comes next, if any is left. -/
def peek? : Reader (Option Char) := return (← get).rest.head?

def skip (count : Nat) : Reader Unit := modify (·.drop count)

def failAt (span : Span) (cause : Cause) : Reader α := throw ⟨cause, some span⟩

/-- Fails in front of the character that comes next. -/
def failHere (cause : Cause) : Reader α := do
  let here ← offset
  failAt ⟨here, here⟩ cause

/-- The characters that come next and are in a class. -/
def takeWhile (p : Char → Bool) : Reader (List Char) := do
  let taken := (← get).rest.takeWhile p
  skip taken.length
  return taken

/-- Passes over a character, if it comes next. -/
def accept (c : Char) : Reader Bool := do
  if (← peek?) = some c then
    skip 1
    return true
  else return false

/-- Gathers what a reader finds until it finds nothing more. -/
def many (next : Reader (Option α)) : Reader (List α) := do
  let found ← Text.stepsAlong (fun found => do return (← next).map (· :: found)) (← get).rest []
  return found.reverse

end Reader

end Toml

end Mediation
