import Mediation.Json.Reader.Number
import Mediation.Json.Reader.Text

/-! Reading JSON values: the members of arrays and objects, the containers around them, and values
of any kind. How deep containers may nest is a parameter, and each container leaves one level less
for what stands in it. -/

namespace Mediation

namespace Json

namespace Reader

variable {α σ : Type}

/-- Is there another item? The comma before it is passed over. -/
def moreItems (first : Bool) : Reader Bool := do
  match ← peekToken .eofList with
  | ']' => pure false
  | c =>
      if first then pure true
      else if c = ',' then do
        advance
        match ← peekToken .eofValue with
        | ']' => failNext .trailingComma
        | _ => pure true
      else failNext .expectedListEnd

/-- Is there another entry? The comma before it is passed over, and its key is a string. -/
def moreEntries (first : Bool) : Reader Bool := do
  match ← peekToken .eofObject with
  | '\x7d' => pure false
  | c =>
      if first then
        if c = '"' then pure true else failNext .keyMustBeText
      else if c = ',' then do
        advance
        match ← peekToken .eofValue with
        | '"' => pure true
        | '\x7d' => failNext .trailingComma
        | _ => failNext .keyMustBeText
      else failNext .expectedObjectEnd

def key : Reader String := do advance; text

/-- The colon between a key and its value. -/
def colon : Reader Unit := do
  match ← peekToken .eofObject with
  | ':' => advance
  | _ => failNext .expectedColon

/-- The end of an array whose items have been read. -/
def closeArray : Reader Unit := do
  match ← peekToken .eofList with
  | ']' => advance
  | ',' => do
    advance
    skipBlanks
    match ← peek? with
    | some ']' => failNext .trailingComma
    | _ => failNext .trailingCharacters
  | _ => failNext .trailingCharacters

/-- The end of an object whose entries have been read. -/
def closeObject : Reader Unit := do
  match ← peekToken .eofObject with
  | '\x7d' => advance
  | ',' => failNext .trailingComma
  | _ => failNext .trailingCharacters

/-- An array, given a reader of what stands in it. Its opening bracket comes next. -/
def inArray (inside : Reader α) : Reader α := placed do advance; closedBy closeArray inside

/-- An object, given a reader of what stands in it. Its opening bracket comes next. -/
def inObject (inside : Reader α) : Reader α := placed do advance; closedBy closeObject inside

def tooDeep : Reader α := failNext .recursionLimit

/-- The items of an array, from the first one on or after an item that has been read. -/
def items (first : Bool) (state : σ) (item : σ → Reader σ) : Reader σ := do
  let (_, last) ← steps (fun (first, state) => do
    if ← moreItems first then return some (false, ← item state) else pure none) (first, state)
  pure last

/-- The entries of an object, each read by what its key and the entries before it ask for. -/
def entries (state : σ) (entry : σ → String → Reader σ) : Reader σ := do
  let (_, last) ← steps (fun (first, state) => do
    if ← moreEntries first then return some (false, ← entry state (← key)) else pure none)
    (true, state)
  pure last

/-- A value, given readers of the two kinds of containers, whose opening brackets come next for
them. -/
def valueWith (array object : Reader Json) : Reader Json := do
  match ← peekToken .eofValue with
  | 'n' => do advance; word ['u', 'l', 'l']; pure .null
  | 't' => do advance; word ['r', 'u', 'e']; pure (.bool true)
  | 'f' => do advance; word ['a', 'l', 's', 'e']; pure (.bool false)
  | '"' => do advance; .text <$> text
  | '-' => do advance; .number <$> number true
  | '[' => array
  | '\x7b' => object
  | c => if c.isDigit then .number <$> number false else failNext .expectedValue

/-- The items of an array, read by the same reader. -/
def itemList (first : Bool) (item : Reader α) : Reader (List α) := do
  let found ← items first [] fun found => return (← item) :: found
  pure found.reverse

/-- The entries of an object, their values read by the same reader. -/
def entryList (value : Reader α) : Reader (List (String × α)) := do
  let found ← entries [] fun found key => do
    colon
    return (key, ← value) :: found
  pure found.reverse

/-- A value in which containers nest up to a depth. -/
def value : Nat → Reader Json
  | 0 => valueWith tooDeep tooDeep
  | depth + 1 =>
      valueWith (inArray (.array <$> itemList true (value depth)))
        (inObject (.object <$> entryList (value depth)))

/-- A value that is judged as a whole. A container is not read, since none is asked for. -/
def typed (judge : Json → Except Mismatch α) : Reader α := do
  let found ← valueWith (pure (.array [])) (pure (.object []))
  placed (judged (judge found))

end Reader

def ofText (text : String) : Except ReadError Json := (Reader.value nestingLimit).run text

end Json

end Mediation
