import Mediation.Text.Steps
import Mediation.Toml.Fault
import Mediation.Toml.Statement.Basic
import Mediation.Toml.Token

/-! From tokens to statements. A key or a scalar that is missing is not a fault here but a word of
no characters, which no key and no scalar can be; so whatever else is wrong with the order of the
tokens is found first, wherever it is in the text. -/

namespace Mediation

namespace Toml

/-- How deep arrays and inline tables may nest. -/
def nestingLimit : Nat := 80

/-- Reads something from the tokens that are left. -/
abbrev Parser (α : Type) : Type := StateT (List Token) (Except Fault) α

namespace Parser

variable {α σ : Type}

def peek : Parser Token := return (← get).headD ⟨.finish 0, 0, []⟩

def advance : Parser Unit := modify List.tail

/-- Passes over the token that comes next if it is of a kind. -/
def accept (kind : Token.Kind) : Parser Bool := do
  if (← peek).kind = kind then
    advance
    return true
  else return false

def failAt (span : Span) (cause : Cause) : Parser α := throw ⟨cause, some span⟩

def failBefore (t : Token) (cause : Cause) : Parser α := failAt t.before cause

/-- Fails since the text ends without what should have closed a container. -/
def failUnclosed (gap : Nat) (c : Container) : Parser α := failAt ⟨gap, gap⟩ (.unclosed c)

/-- Takes steps until one of them says that there are no more. -/
def steps (step : σ → Parser (Option σ)) (start : σ) : Parser σ := do
  Text.stepsAlong step (← get) start

/-- Gathers what a parser finds until it finds nothing more. -/
def many (next : Parser (Option α)) : Parser (List α) := do
  let found ← steps (fun found => do return (← next).map (· :: found)) []
  return found.reverse

def skipBlanks : Parser Unit := do
  discard (accept .blanks)

def isCommentChar (c : Char) : Bool := c = '\t' || (32 ≤ c.toNat && c.toNat ≠ 127)

/-- A comment; it is the token that comes next. -/
def comment : Parser Unit := do
  let t ← peek
  let valid := t.chars.takeWhile isCommentChar
  if valid.length < t.chars.length then
    let offset := t.start + Text.size valid
    failAt ⟨offset, offset⟩ .commentCharacter
  advance

/-- An end of line; it is the token that comes next. -/
def newline : Parser Unit := do
  let t ← peek
  if t.chars = ['\r'] then
    failAt ⟨t.stop, t.stop⟩ .strayReturn
  advance

/-- Passes over blanks, comments and ends of lines. -/
def skipLines : Parser Unit :=
  steps (fun _ => do
    match (← peek).kind with
    | .blanks => some <$> advance
    | .comment => some <$> comment
    | .newline => some <$> newline
    | _ => return none) ()

/-- The rest of a line with nothing but a comment on it. -/
def endOfLine : Parser Unit := do
  skipBlanks
  if (← peek).kind = .comment then comment
  let t ← peek
  match t.kind with
  | .newline => newline
  | .finish _ => return
  | _ => failBefore t .trailing

/-- Passes over the rest of a line, whatever is on it. -/
def skipLine : Parser Unit := do
  steps (fun _ => do
    match (← peek).kind with
    | .comment => some <$> comment
    | .newline | .finish _ => return none
    | _ => some <$> advance) ()
  endOfLine

/-- A key without dots, if one comes next; else an empty one. -/
def simpleKey : Parser Word := do
  let t ← peek
  match t.word? with
  | some word => do
    advance
    return word
  | none => return Word.missing .bare t.start

/-- A key, with blanks around its dots and behind it. -/
def keys : Parser (Path Word) := do
  let first ← simpleKey
  skipBlanks
  steps (fun path => do
    if ← accept .dot then
      skipBlanks
      let next ← simpleKey
      skipBlanks
      return some ⟨path.through ++ [path.last], next⟩
    else return none) ⟨[], first⟩

/-- The characters that come next and belong to a scalar without quotes: such scalars may hold dots,
and blanks between words. -/
def scalarRest : List Token → List Char × List Token
  | ⟨.dot, _, chars⟩ :: rest | ⟨.word .bare, _, chars⟩ :: rest =>
      let (more, rest) := scalarRest rest
      (chars ++ more, rest)
  | ⟨.blanks, _, blanks⟩ :: ⟨.word .bare, _, chars⟩ :: rest =>
      let (more, rest) := scalarRest rest
      (blanks ++ chars ++ more, rest)
  | tokens => ([], tokens)

/-- A scalar, of which the token that comes next is the start. -/
def scalar : Parser Term := do
  let t ← peek
  match t.kind with
  | .word .bare | .dot => do
    let (chars, rest) := scalarRest (← get)
    set rest
    return .scalar ⟨.bare, t.start, chars⟩
  | .word form => do
    advance
    return .scalar ⟨form, t.start, t.chars⟩
  | _ => return .scalar (Word.missing .bare t.start)

/-- The comma behind an item of an array, unless the end of the array comes next. -/
def itemComma : Parser Unit := do
  skipLines
  let t ← peek
  match t.kind with
  | .comma => advance
  | .closeBracket | .finish _ => return
  | .equals => failBefore t .equalsInArray
  | _ => failBefore t .missingElementComma

/-- An item of an array; nothing at its closing bracket. -/
def item? (value : Parser Term) : Parser (Option Term) := do
  skipLines
  let t ← peek
  match t.kind with
  | .closeBracket => return none
  | .finish gap => failUnclosed gap .array
  | .comma => failBefore t (.extraComma .array .value)
  | .equals => failBefore t .equalsInArray
  | .closeBrace => failBefore t (.unopened .table)
  | _ => do
    let item ← value
    itemComma
    return some item

/-- The key of an entry of an inline table; nothing at its closing brace. -/
def entryKeys? : Parser (Option (Path Word)) := do
  skipLines
  let t ← peek
  match t.kind with
  | .closeBrace => return none
  | .finish gap => failUnclosed gap .table
  | .comma => failBefore t (.extraComma .table .key)
  | .openBracket | .openBrace => failBefore t (.keylessElement .key)
  | .closeBracket => failBefore t (.strayElement .key)
  | _ => some <$> keys

/-- The sign of equality behind the key of an entry, unless the end of the table comes next. -/
def entryEquals : Parser Unit := do
  skipLines
  let t ← peek
  match t.kind with
  | .equals => advance
  | .closeBrace => return
  | .finish gap => failUnclosed gap .table
  | .comma => failBefore t (.extraComma .table .equals)
  | .closeBracket => failBefore t (.strayElement .equals)
  | _ => failBefore t (.missingAssignment .equals)

/-- The value of an entry. At the end of the table it is an empty string without its quotes. -/
def entryValue (value : Parser Term) : Parser Term := do
  skipLines
  let t ← peek
  match t.kind with
  | .closeBrace => return .scalar (Word.missing .literal t.start)
  | .finish gap => failUnclosed gap .table
  | .comma => failBefore t (.extraComma .table .value)
  | .equals => failBefore t (.extraAssignment .value)
  | .closeBracket => failBefore t (.unopened .array)
  | _ => value

/-- The comma behind an entry, unless the end of the table comes next. -/
def entryComma : Parser Unit := do
  skipLines
  let t ← peek
  match t.kind with
  | .comma => advance
  | .closeBrace | .finish _ => return
  | .equals => failBefore t (.extraAssignment .comma)
  | .openBracket | .openBrace => failBefore t (.keylessElement .comma)
  | .closeBracket => failBefore t (.strayElement .comma)
  | _ => failBefore t (.missingEntryComma .comma)

/-- An entry of an inline table; nothing at its closing brace. -/
def keyedValue? (value : Parser Term) : Parser (Option (Path Word × Term)) := do
  let some keys ← entryKeys? | return none
  entryEquals
  let value ← entryValue value
  entryComma
  return some (keys, value)

/-- What stands between brackets or braces, the opening one of which comes next, and the bytes of
all of it. -/
def enclosed (inside : Parser α) : Parser (Span × α) := do
  let opening ← peek
  advance
  let found ← inside
  let closing ← peek
  advance
  return (⟨opening.start, closing.stop⟩, found)

/-- A value in which arrays and inline tables nest up to a depth. -/
def value : Nat → Parser Term
  | 0 => do
    let t ← peek
    match t.kind with
    | .openBracket | .openBrace => failAt t.span .tooDeep
    | _ => scalar
  | depth + 1 => do
    match (← peek).kind with
    | .openBracket => do
      let (span, items) ← enclosed (many (item? (value depth)))
      return .array span items
    | .openBrace => do
      let (span, entries) ← enclosed (many (keyedValue? (value depth)))
      return .table span entries
    | _ => scalar

/-- The value of an entry on a line. -/
def lineValue : Parser Term := do
  let t ← peek
  match t.kind with
  | .equals => failAt t.span .extraEquals
  | .closeBracket => failBefore t (.unopened .array)
  | .closeBrace => failBefore t (.unopened .table)
  | _ => value nestingLimit

/-- An entry on a line of its own. -/
def entry : Parser Statement := do
  let first ← peek
  let keys ← keys
  let t ← peek
  unless ← accept .equals do
    failBefore t (if first.kind = .dot then .valueMissing else .keyWithoutValue)
  skipBlanks
  let value ← lineValue
  endOfLine
  return .entry keys value

/-- The closing brackets of a header, if they come next, and the offset behind them. -/
def headerEnd? (repeated : Bool) : Parser (Option Nat) := do
  let first ← peek
  if !(← accept .closeBracket) then return none
  if !repeated then return some first.stop
  let second ← peek
  if !(← accept .closeBracket) then
    failAt ⟨first.stop, first.stop⟩ .halfClosedHeader
  return some second.stop

/-- A header on a line of its own. One without a key need not be closed. -/
def header : Parser Statement := do
  let start := (← peek).start
  advance
  let repeated ← accept .openBracket
  skipBlanks
  let keys ← keys
  match ← headerEnd? repeated with
  | some stop => do
    endOfLine
    return .header repeated ⟨start, stop⟩ keys
  | none => do
    let last := keys.last
    unless last.chars.isEmpty do
      failAt ⟨last.stop, last.stop⟩ (.unclosedHeader repeated)
    skipLine
    return .header repeated ⟨start, last.stop⟩ keys

/-- A statement; nothing at the end of the text. -/
def statement? : Parser (Option Statement) := do
  skipLines
  let t ← peek
  match t.kind with
  | .finish _ => return none
  | .openBracket => some <$> header
  | .closeBracket => failBefore t .unopenedHeader
  | .comma | .openBrace | .closeBrace => failBefore t .missingKey
  | _ => some <$> entry

end Parser

def Statement.ofTokens (tokens : List Token) : Except Fault (List Statement) :=
  (Parser.many Parser.statement?).run' tokens

end Toml

end Mediation
