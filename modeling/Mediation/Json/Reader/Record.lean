import Mediation.Json.Reader.Skip
import Mediation.Json.Record

/-! Reading records without reading them as values first. The fields are judged while the text is
being read, so a field that is not what it should be is found before anything that is wrong further
on, and the fault has a place. -/

namespace Mediation

namespace Json

namespace Shape

variable {σ : Type}

open Reader

/-- A shape whose fields are read from text, given how deep containers in it may nest. -/
abbrev OfText (σ : Type) : Type := Shape σ (Nat → Reader (σ → σ))

/-- The record written as the entries of an object. -/
def fromEntries (shape : OfText σ) (depth : Nat) : Reader σ := do
  let (seen, record) ← entries ([], shape.blank) fun (seen, record) key => do
    match ← judged (shape.accept seen key) with
    | some field => do
      colon
      return (key :: seen, (← field.read depth) record)
    | none => do
      colon
      skipValue
      pure (seen, record)
  judged (shape.complete seen)
  pure record

/-- The fields from an index on, written as the items of an array. -/
def fromItems (shape : OfText σ) (depth index : Nat) (record : σ) :
    List (Field (Nat → Reader (σ → σ))) → Reader σ
  | [] => pure record
  | field :: fields => do
    if ← moreItems (index = 0) then
      shape.fromItems depth (index + 1) ((← field.read depth) record) fields
    else if field.need = .defaulted then
      shape.fromItems depth (index + 1) record fields
    else mismatch (shape.tooShort index)

def reader (shape : OfText σ) (depth : Nat) : Reader σ := do
  match ← peekToken .eofValue, depth with
  | '[', 0 | '\x7b', 0 => tooDeep
  | '[', depth + 1 => inArray (shape.fromItems depth 0 shape.blank shape.fields)
  | '\x7b', depth + 1 => inObject (shape.fromEntries depth)
  | _, _ => typed fun other => .error (.invalidType other.found shape.title)

end Shape

namespace Reader

variable {α : Type}

/-- An array whose items are read by the same reader. -/
def arrayOf (item : Nat → Reader α) (depth : Nat) : Reader (List α) := do
  match ← peekToken .eofValue, depth with
  | '[', 0 => tooDeep
  | '[', depth + 1 => inArray (itemList true (item depth))
  | _, _ => typed fun other => .error (.invalidType other.found "a sequence")

/-- A name on its own, or as the only key of an object with a value of null. -/
def named (known : List (String × α)) (depth : Nat) : Reader α := do
  match ← peekToken .eofValue, depth with
  | '"', _ => typed (oneNamed known)
  | '\x7b', 0 => tooDeep
  | '\x7b', _ => do
    advance
    unless ← moreEntries true do
      failNext .expectedValue
    let a ← typed (oneNamed known)
    colon
    typed fun
      | .null => .ok ()
      | other => .error (.invalidType other.found "unit")
    skipBlanks
    match ← peek? with
    | some '\x7d' => do advance; pure a
    | some _ => failHere .expectedValue
    | none => failHere .eofObject
  | _, _ => failNext .expectedValue

/-- A reader from text, given how deep containers may nest. -/
def whole (reader : Nat → Reader α) (text : String) : Except ReadError α :=
  (reader nestingLimit).run text

end Reader

end Json

end Mediation
