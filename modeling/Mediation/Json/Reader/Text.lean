import Mediation.Json.Reader.Basic
import Mediation.Text.Hex

/-! Reading a JSON string. Escapes with four hexadecimal digits spell units of UTF-16, so a
character outside the first plane takes two of them, and a unit of such a pair cannot stand alone.
-/

namespace Mediation

namespace Json

namespace Reader

/-- Four hexadecimal digits. They are counted in bytes, and nothing is said about them unless all
four bytes are there. -/
def hexUnit : Reader Nat := fun s =>
  if Text.size (s.take 4) < 4 then .failed ⟨.eofString, some 0⟩ s
  else
    match s with
    | a :: b :: c :: d :: rest =>
        match Text.hexValue? a, Text.hexValue? b, Text.hexValue? c, Text.hexValue? d with
        | some a, some b, some c, some d => .done (((a * 16 + b) * 16 + c) * 16 + d) rest
        | _, _, _, _ => failAfter 4 .invalidEscape s
    | _ => failAfter 4 .invalidEscape s

def isLeading (unit : Nat) : Bool := 0xD800 ≤ unit && unit < 0xDC00

def isTrailing (unit : Nat) : Bool := 0xDC00 ≤ unit && unit < 0xE000

/-- The character that must come next within a pair. -/
def pairMark (expected : Char) : Reader Unit := do
  match ← peek? with
  | none => failHere .eofString
  | some c => if c = expected then advance else failAfter 1 .unexpectedEndOfEscape

/-- The character spelled by one unit or a pair of units; the escape has been opened. -/
def unicodeEscape : Reader Char := do
  let unit ← hexUnit
  if isTrailing unit then failHere .loneSurrogate
  else if isLeading unit then do
    pairMark '\\'
    pairMark 'u'
    let second ← hexUnit
    if isTrailing second then
      pure (Char.ofNat (0x10000 + (unit - 0xD800) * 0x400 + (second - 0xDC00)))
    else failHere .loneSurrogate
  else pure (Char.ofNat unit)

/-- The character that a letter after a backslash stands for. -/
def escapedChar? : Char → Option Char
  | '"' => some '"'
  | '\\' => some '\\'
  | '/' => some '/'
  | 'b' => some '\x08'
  | 'f' => some '\x0c'
  | 'n' => some '\n'
  | 'r' => some '\r'
  | 't' => some '\t'
  | _ => none

/-- The character spelled by an escape; its backslash has been read. -/
def escaped : Reader Char := do
  match ← peek? with
  | none => failHere .eofString
  | some 'u' => do advance; unicodeEscape
  | some letter =>
      match escapedChar? letter with
      | some c => do advance; pure c
      | none => failAfter 1 .invalidEscape

/-- One character of a string, or nothing at the closing quote. -/
def textChar? : Reader (Option Char) := do
  match ← peek? with
  | none => failHere .eofString
  | some '"' => do advance; pure none
  | some '\\' => do advance; some <$> escaped
  | some c => if c.toNat < 32 then failAfter 1 .controlCharacter else do advance; pure (some c)

/-- A string; its opening quote has been read. -/
def text : Reader String := String.ofList <$> many textChar?

end Reader

end Json

end Mediation
