import Mediation.Toml.Number
import Mediation.Toml.Text

/-! What words stand for. A scalar without quotes is taken for what its first character starts:
a name, a number, or a date or time; whatever is none of these should have been in quotes. -/

namespace Mediation

namespace Toml

namespace Word

def cursor (w : Word) : Cursor := ⟨w.start, w.chars⟩

def fail {α : Type} (w : Word) (cause : Cause) : Except Fault α := .error ⟨cause, some w.span⟩

/-- A word that should have been in quotes, or that lacks its opening ones. -/
def unquoted {α : Type} (w : Word) : Except Fault α :=
  let forms : List Form := [.literalBlock, .basicBlock, .literal, .basic]
  match forms.find? fun form => form.quotes.isSuffixOf w.chars with
  | some form => .error ⟨.unopenedText form, some ⟨w.start, w.start⟩⟩
  | none => w.fail .unquoted

def named (negative : Bool) : Name → Value
  | .yes => .bool true
  | .no => .bool false
  | .infinity => .real (.infinite negative)
  | .noNumber => .real .nan

/-- A word without a sign that starts as a name does. -/
def bareName (w : Word) (n : Name) : Except Fault Value :=
  if w.chars = n.word.toList then .ok (named false n)
  else if w.chars.contains ' ' then w.unquoted
  else w.fail (.name n)

/-- A sign before what starts as a name does. -/
def signedName (w : Word) (rest : Cursor) (n : Name) : Except Fault Value :=
  if rest.rest = n.word.toList then .ok (named (w.chars.head? = some '-') n)
  else .error ⟨.name n, some ⟨rest.offset, rest.stop⟩⟩

def moment (w : Word) : Except Fault Value :=
  match Moment.check w.chars with
  | .ok () => .ok .moment
  | .error fault => w.fail (.moment fault)

/-- A word in which digits come next. What is behind them decides what it is. -/
def digits (w : Word) (rest : Cursor) : Except Fault Value :=
  match rest.rest.dropWhile Char.isDigit with
  | [] => Number.whole w.cursor rest
  | mark :: behind =>
      let remaining := mark :: behind
      if mark = '-' ∨ mark = ':' then w.moment
      else if remaining.contains ' ' then w.unquoted
      else if remaining.any fun c => c = '.' || c = 'e' || c = 'E' then Number.real w.cursor rest
      else if mark = '_' then Number.whole w.cursor rest
      else w.unquoted

/-- A word in which a zero comes next. A letter behind it marks a base. -/
def zero (w : Word) (rest : Cursor) (signed : Bool) : Except Fault Value :=
  let signedRadix : Except Fault Value := .error ⟨.signedRadix, some ⟨w.start, w.start + 1⟩⟩
  let mark : Span := ⟨rest.offset, rest.offset + 2⟩
  match rest.rest.tail with
  | [] => .ok (.whole (some 0))
  | letter :: _ =>
      match Radix.ofLetter? letter with
      | some radix =>
          if signed then signedRadix
          else if letter.isUpper then .error ⟨.upperRadix radix, some mark⟩
          else Number.inRadix radix (rest.drop 2)
      | none =>
          if letter = 'd' ∨ letter = 'D' then
            if signed then signedRadix else .error ⟨.extraRadix, some mark⟩
          else w.digits rest

def signed (w : Word) (rest : Cursor) : Except Fault Value :=
  match rest.rest with
  | [] => w.unquoted
  | c :: _ =>
      if c = '+' ∨ c = '-' then .error ⟨.extraSign, some ⟨rest.offset, rest.offset + 1⟩⟩
      else if c = '0' then w.zero rest true
      else if c.isDigit ∨ c = '_' then w.digits rest
      else if c = '.' then Number.real w.cursor w.cursor
      else if c = 'i' ∨ c = 'I' then w.signedName rest .infinity
      else if c = 'n' ∨ c = 'N' then w.signedName rest .noNumber
      else w.unquoted

def bare (w : Word) : Except Fault Value :=
  match w.chars with
  | [] => w.unquoted
  | c :: _ =>
      if c = '+' ∨ c = '-' then w.signed (w.cursor.drop 1)
      else if c = '0' then w.zero w.cursor false
      else if c.isDigit ∨ c = '_' then w.digits w.cursor
      else if c = '.' then Number.real w.cursor w.cursor
      else if c = 't' ∨ c = 'T' then w.bareName .yes
      else if c = 'f' ∨ c = 'F' then w.bareName .no
      else if c = 'i' ∨ c = 'I' then w.bareName .infinity
      else if c = 'n' ∨ c = 'N' then w.bareName .noNumber
      else w.unquoted

def scalar (w : Word) : Except Fault (Located Value) := do
  match w.form with
  | .bare => return ⟨w.span, ← w.bare⟩
  | _ => return ⟨w.span, .text (← w.text)⟩

/-- Characters that a key without quotes is made of. -/
def isKeyChar (c : Char) : Bool := c.isAlphanum || c = '-' || c = '_'

def bareKey (w : Word) : Except Fault String :=
  let valid := w.chars.takeWhile isKeyChar
  if w.chars.isEmpty then w.fail .emptyKey
  else if valid.length = w.chars.length then .ok (String.ofList w.chars)
  else
    let rest := w.cursor.drop valid.length
    let invalid := rest.rest.takeWhile fun c => !(isKeyChar c)
    .error ⟨.keyCharacter, some ⟨rest.offset, (rest.drop invalid.length).offset⟩⟩

/-- The key that a word stands for. A key may not be written over several lines. -/
def key (w : Word) : Except Fault (Located String) := do
  match w.form with
  | .bare => return ⟨w.span, ← w.bareKey⟩
  | .basic | .literal => return ⟨w.span, ← w.text⟩
  | .basicBlock | .literalBlock => w.fail (.blockKey w.form)

end Word

end Toml

end Mediation
