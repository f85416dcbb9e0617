import Mediation.Toml.Basic
import Mediation.Toml.Fault

/-! Building tables. A table may be given its entries in several places, by headers and by dotted
keys, but no place may take up again what another one has settled. -/

namespace Mediation

namespace Toml

/-- The entries of a table in the order of their keys. -/
abbrev Entries : Type := List (Located String × Located Value)

namespace Entries

def get? (entries : Entries) (key : String) : Option (Located Value) :=
  (entries.find? (·.1.value = key)).map (·.2)

/-- Gives a key a value, in place of the one it has. -/
def put (key : Located String) (value : Located Value) : Entries → Entries
  | [] => [(key, value)]
  | (key', value') :: rest =>
      if key.value < key'.value then (key, value) :: (key', value') :: rest
      else if key.value = key'.value then (key', value) :: rest
      else (key', value') :: put key value rest

def erase (entries : Entries) (key : String) : Entries := entries.filter (·.1.value ≠ key)

/-- What has to be known of a table to change it: how it came to be, and its entries. -/
structure Body where
  origin : Origin
  entries : Entries

variable {α : Type}

/-- Changes the entries of the table at the end of a path, and hands on what comes with them. Tables
on the way that are not there are made; of an array, the way leads through the last table. -/
def within (create : Origin) (refuse? : Origin → Option Cause)
    (change : Body → Except Fault (Entries × α)) :
    List (Located String) → Body → Except Fault (Entries × α)
  | [], body => change body
  | key :: path, ⟨_, entries⟩ => do
    let fail (cause : Cause) : Except Fault (Located Value × α) := .error ⟨cause, some key.span⟩
    let (value, found) ← match entries.get? key.value with
      | none => do
        let (inner, found) ← within create refuse? change path ⟨create, []⟩
        pure (⟨key.span, .table create inner⟩, found)
      | some ⟨span, .table origin inner⟩ =>
          match refuse? origin with
          | some cause => fail cause
          | none => do
            let (inner, found) ← within create refuse? change path ⟨origin, inner⟩
            pure (⟨span, .table origin inner⟩, found)
      | some ⟨span, .tables (⟨lastSpan, .table origin inner⟩ :: earlier)⟩ => do
        let (inner, found) ← within create refuse? change path ⟨origin, inner⟩
        pure (⟨span, .tables (⟨lastSpan, .table origin inner⟩ :: earlier)⟩, found)
      | some other => fail (.notExtensible other.value.typeName)
    return (entries.put key value, found)

/-- Nothing leads into a table between braces from outside. -/
def closed : Cause := .notExtensible "inline table"

/-- Headers may lead through any table that is not closed. -/
def byHeader : Origin → Option Cause
  | .inline => some closed
  | .header | .implied | .dotted => none

/-- Dotted keys may not lead through a table that has a header. -/
def byDots : Origin → Option Cause
  | .inline => some closed
  | .header => some .duplicateKey
  | .implied | .dotted => none

/-- Between braces, dotted keys lead only through tables that other dotted keys have made. -/
def byInnerDots : Origin → Option Cause
  | .inline | .header => some .duplicateKey
  | .implied | .dotted => none

/-- Adds an entry under a key with dots. The last table on the way has to be one that dotted keys
have made. -/
def add (refuse? : Origin → Option Cause) (entries : Entries) (path : Path (Located String))
    (value : Located Value) : Except Fault Entries := do
  let change (body : Body) : Except Fault (Entries × Unit) :=
    let fits := path.through = [] ∨ body.origin = .dotted
    if fits ∧ (body.entries.get? path.last.value).isNone then
      .ok (body.entries.put path.last value, ())
    else .error ⟨.duplicateKey, some path.last.span⟩
  let (entries, _) ← within .dotted refuse? change path.through ⟨.header, entries⟩
  return entries

/-- Takes out the table that a header begins, for its entries to be added. There may be such a table
already if headers of tables in it have implied it. -/
def take (entries : Entries) (path : Path (Located String)) : Except Fault (Entries × Entries) :=
  let change (body : Body) : Except Fault (Entries × Entries) :=
    match body.entries.get? path.last.value with
    | none => .ok (body.entries, [])
    | some ⟨_, .table .implied inner⟩ => .ok (body.entries.erase path.last.value, inner)
    | some _ => .error ⟨.duplicateKey, some path.last.span⟩
  within .implied byHeader change path.through ⟨.header, entries⟩

/-- Puts in the table that a header has begun. -/
def close (entries : Entries) (path : Path (Located String)) (table : Located Value) :
    Except Fault Entries := do
  let change (body : Body) : Except Fault (Entries × Unit) :=
    .ok (body.entries.put path.last table, ())
  let (entries, _) ← within .implied byHeader change path.through ⟨.header, entries⟩
  return entries

/-- Puts in the table that a header has begun as one more table of an array. -/
def closeElement (entries : Entries) (path : Path (Located String)) (table : Located Value) :
    Except Fault Entries := do
  let change (body : Body) : Except Fault (Entries × Unit) :=
    match body.entries.get? path.last.value with
    | none => .ok (body.entries.put path.last ⟨table.span, .tables [table]⟩, ())
    | some ⟨first, .tables earlier⟩ =>
        .ok (body.entries.put path.last ⟨first, .tables (table :: earlier)⟩, ())
    | some _ => .error ⟨.duplicateKey, some path.last.span⟩
  let (entries, _) ← within .implied byHeader change path.through ⟨.header, entries⟩
  return entries

end Entries

end Toml

end Mediation
