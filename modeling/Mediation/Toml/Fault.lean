import Mediation.Toml.Moment
import Mediation.Toml.Word

/-! What can be wrong with a TOML text, and how a user is told. Most reasons say what was expected
instead. -/

namespace Mediation

namespace Toml

/-- What is written between brackets or braces. -/
inductive Container where
  | array
  | table
  deriving DecidableEq, Repr

namespace Container

def name : Container → String
  | array => "array"
  | table => "inline table"

def opening : Container → String
  | array => "["
  | table => "\x7b"

def closing : Container → String
  | array => "]"
  | table => "\x7d"

end Container

/-- What has to come next between the braces of an inline table. -/
inductive Need where
  | key
  | equals
  | value
  | comma
  deriving DecidableEq, Repr

namespace Need

def name : Need → String
  | key => "key"
  | equals => "`=`"
  | value => "value"
  | comma => "`,`"

end Need

/-- What is amiss in a string. -/
inductive TextNeed where
  | quote
  | character
  /-- A backslash before blanks has to end its line. -/
  | newline
  deriving DecidableEq, Repr

/-- The scalars that are written as words. -/
inductive Name where
  | yes
  | no
  | infinity
  | noNumber
  deriving DecidableEq, Repr

namespace Name

def word : Name → String
  | yes => "true"
  | no => "false"
  | infinity => "inf"
  | noNumber => "nan"

def typeName : Name → String
  | yes | no => "boolean"
  | infinity | noNumber => "float"

end Name

/-- The runs of digits of a floating-point number. -/
inductive RealPart where
  | mantissa
  | fraction
  | exponent
  deriving DecidableEq, Repr

namespace RealPart

def name : RealPart → String
  | mantissa => "mantissa"
  | fraction => "fraction"
  | exponent => "exponent"

end RealPart

/-- Why a text is no TOML, or not the TOML that was asked for. -/
inductive Cause where
  | strayReturn
  | commentCharacter
  /-- Something comes after a statement on the same line. -/
  | trailing
  | emptyKey
  | keyCharacter
  | blockKey (form : Form)
  | tooManyKeys
  | missingKey
  | keyWithoutValue
  /-- The same, where the first key is missing too. -/
  | valueMissing
  | duplicateKey
  | notExtensible (typeName : String)
  | unopenedHeader
  | unclosedHeader (repeated : Bool)
  /-- One of two closing brackets is there. -/
  | halfClosedHeader
  | unopened (c : Container)
  | unclosed (c : Container)
  | tooDeep
  | extraComma (c : Container) (need : Need)
  | missingElementComma
  | missingEntryComma (need : Need)
  | equalsInArray
  | extraEquals
  | extraAssignment (need : Need)
  | missingAssignment (need : Need)
  | keylessElement (need : Need)
  | strayElement (need : Need)
  | unquoted
  | unopenedText (form : Form)
  | text (form : Form) (need : TextNeed)
  | missingEscape
  | shortUnicode
  | invalidUnicode
  | name (n : Name)
  | extraSign
  | looseUnderscore
  | leadingZero
  | signedRadix
  | signedDigits
  | upperRadix (radix : Radix)
  | extraRadix
  | radixDigit (radix : Radix)
  | realPart (part : RealPart)
  | realEnd
  | moment (fault : Moment.Fault)
  | integerOverflow
  | floatOverflow
  /-- The value is not what was asked for. -/
  | unsuitable (reason : String)
  deriving DecidableEq, Repr

namespace Cause

def expected (reason : String) (wanted : List String) : String :=
  reason ++ ", expected " ++ (if wanted.isEmpty then "nothing" else ", ".intercalate wanted)

def literally (text : String) : String := "`" ++ text ++ "`"

/-- What a key without quotes is made of. -/
def keyCharacters : List String := ["letters", "numbers", "`-`", "`_`"]

def escapes : List String := ["b", "e", "f", "n", "r", "\\", "\"", "x", "u", "U"]

/-- What a string of a form is made of. -/
def textCharacters : Form → List String
  | .bare => []
  | .basic => ["non-double-quote visible characters", "`\\`"]
  | .literal => ["non-single-quote visible characters"]
  | .basicBlock => ["`\\`", "characters"]
  | .literalBlock => ["non-single-quote characters"]

/-- What is amiss in a string of a form. -/
def textNeed (form : Form) : TextNeed → List String
  | .quote => [literally (String.ofList (form.quotes.take 1))]
  | .character => textCharacters form
  | .newline => ["newline"]

def message : Cause → String
  | strayReturn => expected "carriage return must be followed by newline" ["newline"]
  | commentCharacter => expected "invalid comment character" ["printable characters"]
  | trailing => expected "unexpected key or value" ["newline", "`#`"]
  | emptyKey => expected "unquoted keys cannot be empty" keyCharacters
  | keyCharacter => expected "invalid unquoted key" keyCharacters
  | blockKey form =>
      expected ("keys cannot be " ++ form.name ++ "s") ["basic string", "literal string"]
  | tooManyKeys => "recursion limit"
  | missingKey => expected "invalid key" ["key"]
  | keyWithoutValue => expected "key with no value" ["`=`"]
  | valueMissing => expected "missing value for key" ["`=`"]
  | duplicateKey => "duplicate key"
  | notExtensible typeName => "cannot extend value of type " ++ typeName ++ " with a dotted key"
  | unopenedHeader => expected "missing table open" ["`[`"]
  | unclosedHeader false => expected "unclosed table" ["`]`"]
  | unclosedHeader true => expected "unclosed array table" ["`]]`"]
  | halfClosedHeader => expected "unclosed array table" ["`]`"]
  | unopened c => expected ("missing " ++ c.name ++ " opening") [literally c.opening]
  | unclosed c => expected ("unclosed " ++ c.name) [literally c.closing]
  | tooDeep => "cannot recurse further; max recursion depth met"
  | extraComma c need => expected ("extra comma in " ++ c.name) [need.name]
  | missingElementComma => expected "missing comma between array elements" ["`,`"]
  | missingEntryComma need => expected "missing comma between key-value pairs" [need.name]
  | equalsInArray => expected "unexpected `=` in array" ["value", "`]`"]
  | extraEquals => expected "extra `=`" []
  | extraAssignment need => expected "extra assignment between key-value pairs" [need.name]
  | missingAssignment need => expected "missing assignment between key-value pairs" [need.name]
  | keylessElement need => expected "missing key for inline table element" [need.name]
  | strayElement need => expected "invalid inline table element" [need.name]
  | unquoted => expected "string values must be quoted" ["literal string"]
  | unopenedText form =>
      expected "missing opening quote" [literally (String.ofList form.quotes)]
  | text form need => expected ("invalid " ++ form.name) (textNeed form need)
  | missingEscape => expected "missing escaped value" (escapes.map literally)
  | shortUnicode => expected "too few unicode value digits" ["unicode hexadecimal value"]
  | invalidUnicode => expected "invalid value" ["unicode hexadecimal value"]
  | name n => expected ("invalid " ++ n.typeName) [literally n.word]
  | extraSign => expected "redundant numeric sign" []
  | looseUnderscore => expected "`_` may only go between digits" []
  | leadingZero => expected "unexpected leading zero" []
  | signedRadix => expected "integers with a radix cannot be signed" []
  | signedDigits => expected "unexpected sign" []
  | upperRadix radix => expected "radix must be lowercase" [literally radix.mark]
  | extraRadix => expected "redundant integer number prefix" []
  | radixDigit radix => "invalid " ++ radix.name ++ " number"
  | realPart part => expected ("invalid " ++ part.name) ["digits"]
  | realEnd => expected "invalid float" []
  | moment fault => fault.message
  | integerOverflow => "integer number overflowed"
  | floatOverflow => "floating-point number overflowed"
  | unsuitable reason => reason

end Cause

/-- Why a text could not be used, and which bytes are to blame, if any in particular are. -/
structure Fault where
  cause : Cause
  span : Option Span
  deriving DecidableEq, Repr

namespace Fault

/-- The byte continues a character that an earlier byte has started. -/
def continuesChar (b : UInt8) : Bool := 0x80 ≤ b && b < 0xC0

/-- The line that an offset is on and its column, both numbered from zero. Columns count characters,
but bytes if the offset is within a character; an offset past the end counts on from the last byte.
-/
def place (text : String) (offset : Nat) : Nat × Nat :=
  let bytes := Text.bytes text
  let known := min offset (bytes.length - 1)
  let before := bytes.take known
  let column := (before.reverse.takeWhile (· ≠ Text.newline)).length
  let upTo := (bytes.take (known + 1)).drop (known - column)
  let isWhole := !(bytes[known + 1]?.any continuesChar)
  let column := if isWhole then (upTo.filter fun b => !continuesChar b).length - 1 else column
  (before.count Text.newline, column + (offset - known))

/-- Where bytes of a text lie, and the line of the first one with the bytes marked below it. At
least one mark is made. -/
def excerpt (text : String) (span : Span) : String :=
  let (line, column) := place text span.start
  let content := ((text.splitOn "\n")[line]?).getD ""
  let number := toString (line + 1)
  let gutter := String.ofList (List.replicate (number.length + 1) ' ')
  let marks := max 1 (min span.length (content.utf8ByteSize - column))
  "TOML parse error at line " ++ number ++ ", column " ++ toString (column + 1) ++ "\n" ++
    gutter ++ "|\n" ++
    number ++ " | " ++ content ++ "\n" ++
    gutter ++ "|" ++ String.ofList (List.replicate (column + 1) ' ' ++ List.replicate marks '^') ++
    "\n"

/-- The fault as a user sees it: where it lies, if it lies anywhere, and the reason. -/
def message (f : Fault) (text : String) : String :=
  (f.span.map (excerpt text)).getD "" ++ f.cause.message ++ "\n"

end Fault

end Toml

end Mediation
