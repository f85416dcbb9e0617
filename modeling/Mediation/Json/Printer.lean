import Mediation.Json.Basic
import Mediation.Text.Hex

/-! JSON text. A value is written either on one line without blanks, or with every item and entry on
a line of its own; the two differ only in what stands after brackets, commas and colons. -/

namespace Mediation

namespace Json

/-- How a character is written within quotes: the quote, the backslash and the control characters
are escaped, all others stand for themselves. -/
def escape (c : Char) : List Char :=
  if c = '"' then ['\\', '"']
  else if c = '\\' then ['\\', '\\']
  else if c = '\x08' then ['\\', 'b']
  else if c = '\t' then ['\\', 't']
  else if c = '\n' then ['\\', 'n']
  else if c = '\x0c' then ['\\', 'f']
  else if c = '\r' then ['\\', 'r']
  else if c.toNat < 32 then
    ['\\', 'u', '0', '0', Text.hexDigit (c.toNat / 16), Text.hexDigit (c.toNat % 16)]
  else [c]

def quote (s : String) : String := "\"" ++ String.ofList (s.toList.flatMap escape) ++ "\""

/-- What surrounds the members of a container. -/
structure Layout where
  /-- What starts a line at a nesting depth. -/
  newline : Nat → String
  /-- What parts a key from its value. -/
  colon : String

namespace Layout

def compact : Layout := ⟨fun _ => "", ":"⟩

/-- Every member on a line of its own, two blanks a level. -/
def pretty : Layout := ⟨fun depth => "\n" ++ String.ofList (List.replicate (2 * depth) ' '), ": "⟩

/-- The members of a container between its brackets; an empty container has nothing between them. -/
def enclose (layout : Layout) (depth : Nat) (opening closing : String) : List String → String
  | [] => opening ++ closing
  | first :: rest =>
      opening ++ layout.newline (depth + 1) ++ first ++
        String.join (rest.map fun member => "," ++ layout.newline (depth + 1) ++ member) ++
        layout.newline depth ++ closing

end Layout

mutual

/-- The text of a value at a nesting depth. -/
def render (layout : Layout) (depth : Nat) : Json → String
  | null => "null"
  | bool b => if b then "true" else "false"
  | number n => n.text
  | text s => quote s
  | array items => layout.enclose depth "[" "]" (renderItems layout (depth + 1) items)
  | object entries => layout.enclose depth "\x7b" "\x7d" (renderEntries layout (depth + 1) entries)
termination_by structural j => j

def renderItems (layout : Layout) (depth : Nat) : List Json → List String
  | [] => []
  | item :: rest => render layout depth item :: renderItems layout depth rest
termination_by structural items => items

def renderEntries (layout : Layout) (depth : Nat) : List (String × Json) → List String
  | [] => []
  | entry :: rest => renderEntry layout depth entry :: renderEntries layout depth rest
termination_by structural entries => entries

def renderEntry (layout : Layout) (depth : Nat) : String × Json → String
  | (key, value) => quote key ++ layout.colon ++ render layout depth value
termination_by structural entry => entry

end

/-- The text of a value on one line. -/
def compact (j : Json) : String := j.render .compact 0

/-- The text of a value over several lines. -/
def pretty (j : Json) : String := j.render .pretty 0

end Json

end Mediation
