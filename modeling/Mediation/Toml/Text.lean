import Mediation.Toml.Reader

/-! TOML strings: basic ones, in which a backslash starts an escape, and literal ones, in which
every character stands for itself; either kind on one line or, between three quotes, on several. -/

namespace Mediation

namespace Toml

def isBlank (c : Char) : Bool := c = ' ' || c = '\t'

/-- Characters that may stand for themselves where a line goes on. -/
def isPrintable (c : Char) : Bool := c = '\t' || (32 ≤ c.toNat && c.toNat ≠ 127)

namespace Reader

/-- A carriage return, which a newline has to follow. -/
def carriageReturn : Reader Unit := do
  skip 1
  unless ← accept '\n' do
    failHere .strayReturn

/-- A character spelled by a number of hexadecimal digits. -/
def unicode (length : Nat) : Reader Char := do
  let start ← offset
  let digits := ((← get).rest.takeWhile fun c => (Text.hexValue? c).isSome).take length
  skip digits.length
  if digits.length < length then failHere .shortUnicode
  let value := numberOf 16 digits
  if (Char.ofNat value).toNat = value then return Char.ofNat value
  else failAt ⟨start, start⟩ .invalidUnicode

/-- The character spelled by an escape; its backslash has been read. -/
def escaped : Reader Char := do
  let some letter ← peek? | failHere .missingEscape
  let simple? : Option Char := match letter with
    | 'b' => some '\x08'
    | 't' => some '\t'
    | 'n' => some '\n'
    | 'f' => some '\x0c'
    | 'r' => some '\r'
    | 'e' => some '\x1b'
    | '"' => some '"'
    | '\\' => some '\\'
    | _ => none
  match simple?, letter with
  | some c, _ => do skip 1; return c
  | none, 'x' => do skip 1; unicode 2
  | none, 'u' => do skip 1; unicode 4
  | none, 'U' => do skip 1; unicode 8
  | none, _ => failHere .missingEscape

/-- The rest of the line behind a backslash and all blanks and ends of lines after it. Nothing but
blanks may be left on the line. -/
def joinLines : Reader Unit := do
  discard (takeWhile isBlank)
  match ← peek? with
  | some '\n' => skip 1
  | some '\r' => carriageReturn
  | _ => failHere (.text .basicBlock .newline)
  discard (many do
    match ← peek? with
    | some '\r' => return some (← carriageReturn)
    | some c =>
        if isBlank c ∨ c = '\n' then return some (← skip 1) else return none
    | none => return none)

/-- The character may stand for itself in a string of the form. -/
def isPlain : Form → Char → Bool
  | .bare, _ => false
  | .basic, c => isPrintable c && c ≠ '"' && c ≠ '\\'
  | .literal, c => isPrintable c && c ≠ '\''
  | .basicBlock, c => (isPrintable c && c ≠ '\\') || c = '\n'
  | .literalBlock, c => isPrintable c || c = '\n'

/-- The character starts something else than itself in a string of the form. -/
def isSpecial : Form → Char → Bool
  | .bare, _ | .literal, _ => false
  | .basic, c => c = '\\'
  | .basicBlock, c => c = '\\' || c = '\r'
  | .literalBlock, c => c = '\r'

/-- Fails at the characters that come next and cannot be in a string of the form. Without escapes
they are not counted. -/
def failPlain (form : Form) : Reader (Option (List Char)) := do
  let start ← offset
  match form with
  | .basic | .basicBlock => do
    discard (takeWhile fun c => !(isPlain form c || isSpecial form c))
    failAt ⟨start, ← offset⟩ (.text form .character)
  | _ => failHere (.text form .character)

/-- A piece of a string; nothing at its end. -/
def piece? (form : Form) : Reader (Option (List Char)) := do
  match (← get).rest with
  | [] => return none
  | c :: rest =>
      if isPlain form c then return some (← takeWhile (isPlain form))
      else if !(isSpecial form c) then failPlain form
      else if c = '\r' then do
        carriageReturn
        return some ['\r', '\n']
      else do
        skip 1
        let joins := form = .basicBlock ∧ rest.head?.any fun c => isBlank c || c = '\r' || c = '\n'
        if joins then
          joinLines
          return some []
        else return some [← escaped]

end Reader

namespace Word

/-- An end of line right after the opening quotes of a string on several lines is left out. -/
def dropNewline (c : Cursor) : Cursor :=
  match c.rest with
  | '\n' :: _ => c.drop 1
  | '\r' :: '\n' :: _ => c.drop 2
  | _ => c

def inside (w : Word) : Except Fault Cursor :=
  let quotes := w.form.quotes
  let fail (offset : Nat) : Except Fault Cursor :=
    .error ⟨.text w.form .quote, some ⟨offset, offset⟩⟩
  if !(quotes.isPrefixOf w.chars) then fail w.start
  else
    let opened := (⟨w.start, w.chars⟩ : Cursor).drop quotes.length
    let opened := if quotes.length = 3 then dropNewline opened else opened
    if !(quotes.isSuffixOf opened.rest) then fail w.stop
    else .ok { opened with rest := opened.rest.take (opened.rest.length - quotes.length) }

/-- The string that a word in quotes stands for. -/
def text (w : Word) : Except Fault String := do
  let pieces ← (Reader.many (Reader.piece? w.form)).run' (← w.inside)
  return String.ofList pieces.flatten

end Word

end Toml

end Mediation
