import Mediation.Toml.Scalar
import Mediation.Toml.Statement.Parser
import Mediation.Toml.Table

/-! What the statements of a TOML document say. They are taken in order; the first that says
something it may not say is the one that counts. -/

namespace Mediation

namespace Toml

/-- The greatest number of tables that a key with dots may lead through. -/
def pathLimit : Nat := 79

def Path.key (keys : Path Word) : Except Fault (Path (Located String)) := do
  let through ← keys.through.mapM Word.key
  let last ← keys.last.key
  if pathLimit < through.length then
    throw ⟨.tooManyKeys, none⟩
  return ⟨through, last⟩

namespace Term

mutual

def value : Term → Except Fault (Located Value)
  | scalar w => w.scalar
  | array span items => do return ⟨span, .array (← itemValues items)⟩
  | table span entries => do return ⟨span, .table .inline (← entryValues [] entries)⟩
termination_by structural t => t

def itemValues : List Term → Except Fault (List (Located Value))
  | [] => return []
  | item :: rest => do
    let first ← value item
    return first :: (← itemValues rest)
termination_by structural items => items

/-- The entries of a table that is written between braces, added to those before them. -/
def entryValues (before : Entries) : List (Path Word × Term) → Except Fault Entries
  | [] => return before
  | entry :: rest => do
    let (path, v) ← entryValue entry
    entryValues (← before.add Entries.byInnerDots path v) rest
termination_by structural entries => entries

def entryValue : Path Word × Term → Except Fault (Path (Located String) × Located Value)
  | (keys, term) => do
    let path ← keys.key
    return (path, ← value term)
termination_by structural entry => entry

end

end Term

/-- A header that has been read, and what it begins. -/
structure Header where
  repeated : Bool
  span : Span
  path : Path (Located String)

/-- What has been said: everything in front of the last header, that header, and the entries of the
table that it begins. -/
structure Draft where
  entries : Entries
  header : Option Header
  current : Entries

namespace Draft

def finish (d : Draft) : Except Fault Entries :=
  match d.header with
  | none => .ok d.current
  | some header =>
      let table : Located Value := ⟨header.span, .table .header d.current⟩
      if header.repeated then d.entries.closeElement header.path table
      else d.entries.close header.path table

/-- Takes a statement. The table before a header is finished before the header is looked at. -/
def take (d : Draft) : Statement → Except Fault Draft
  | .entry keys value => do
    let path ← keys.key
    return { d with current := ← d.current.add Entries.byDots path (← value.value) }
  | .header repeated span keys => do
    let entries ← d.finish
    let header : Header := ⟨repeated, span, ← keys.key⟩
    if repeated then return ⟨entries, some header, []⟩
    let (entries, current) ← entries.take header.path
    return ⟨entries, some header, current⟩

end Draft

/-- Reads a text as the entries of a TOML document. -/
def ofText (text : String) : Except Fault Entries := do
  let statements ← Statement.ofTokens (Token.ofText text)
  let draft ← statements.foldlM Draft.take ⟨[], none, []⟩
  draft.finish

end Toml

end Mediation
