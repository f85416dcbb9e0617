import Mediation.Decimal.Shortest
import Mediation.Json.Mismatch
import Mediation.Settings
import Mediation.Toml.Document

/-! Settings in TOML, as configuration files hold them: under the key `resolver`, where all of them
may be left out. Entries that are no settings mean nothing, but their numbers have to be numbers
that can be had. -/

namespace Mediation

open Toml (Fault Located Value)

namespace Toml

namespace Real

/-- The decimal text of a number, without an exponent. -/
def text : Real → Option String
  | finite x =>
      let d := x.shortest
      let digits := (Nat.repr d.digits).toList
      let sign := if x.negative then "-" else ""
      let places := (-d.exponent).toNat
      let padded := List.replicate (places + 1 - digits.length) '0' ++ digits
      let whole := padded.length - places
      let fraction := padded.drop whole
      some (sign ++ String.ofList (padded.take whole ++ List.replicate d.exponent.toNat '0') ++
        "." ++ (if fraction.isEmpty then "0" else String.ofList fraction))
  | overflowing => none
  | infinite negative => some (if negative then "-inf" else "inf")
  | nan => some "NaN"

end Real

namespace Value

/-- How messages describe a whole number; nothing if it does not fit 128 bits. -/
def wholeText (n : Int) : Option String :=
  let shown := "integer `" ++ toString n ++ "`"
  let unsigned (bits : Nat) : Bool := 0 ≤ n && n.toNat < Nat.pow 2 bits
  let signed (bits : Nat) : Bool :=
    unsigned (bits - 1) || (n < 0 && n.natAbs ≤ Nat.pow 2 (bits - 1))
  if signed 64 || unsigned 64 then some shown
  else if signed 128 then some (shown ++ " as i128")
  else if unsigned 128 then some (shown ++ " as u128")
  else none

def overflow? : Value → Option Cause
  | whole n? => if (n?.bind wholeText).isNone then some .integerOverflow else none
  | real x => if x.text.isNone then some .floatOverflow else none
  | _ => none

/-- How messages describe a value that is neither an array nor a table. -/
def message : Value → String
  | text s => "string " ++ Text.quoted s
  | whole n? => (n?.bind wholeText).getD ""
  | real x => "floating point `" ++ x.text.getD "" ++ "`"
  | bool b => "boolean `" ++ toString b ++ "`"
  | moment | array _ | tables _ | table .. => ""

mutual

/-- The first number, in the order of keys and items, that cannot be had. -/
def firstOverflow (span : Span) : Value → Option Fault
  | array items => firstOverflowItems items
  | tables items => firstOverflowTables items
  | table _ entries => firstOverflowEntries entries
  | other => other.overflow?.map (⟨·, some span⟩)
termination_by structural v => v

def firstOverflowLocated : Located Value → Option Fault
  | ⟨span, value⟩ => firstOverflow span value
termination_by structural v => v

def firstOverflowItems : List (Located Value) → Option Fault
  | [] => none
  | item :: rest => (firstOverflowLocated item).or (firstOverflowItems rest)
termination_by structural items => items

/-- The same for tables of which the last one comes first. -/
def firstOverflowTables : List (Located Value) → Option Fault
  | [] => none
  | last :: earlier => (firstOverflowTables earlier).or (firstOverflowLocated last)
termination_by structural items => items

def firstOverflowEntries : List (Located String × Located Value) → Option Fault
  | [] => none
  | entry :: rest => (firstOverflowEntry entry).or (firstOverflowEntries rest)
termination_by structural entries => entries

def firstOverflowEntry : Located String × Located Value → Option Fault
  | (_, value) => firstOverflowLocated value
termination_by structural entry => entry

end

end Value

end Toml

namespace Settings

def nameOf {α : Type} (known : List (String × α)) (name : Located String) : Except Fault α :=
  match known.lookup name.value with
  | some a => .ok a
  | none =>
      .error ⟨.unsuitable (Json.Mismatch.unknownVariant name.value (known.map (·.1))).message,
        some name.span⟩

/-- What stands behind a name that is written as a key: nothing. -/
def nothing (v : Located Value) : Except Fault Unit :=
  let refuse (reason : String) : Except Fault Unit := .error ⟨.unsuitable reason, some v.span⟩
  match v.value with
  | .array [] | .tables [] | .table _ [] => .ok ()
  | .array _ | .tables _ => refuse "expected empty array"
  | .table .. => refuse "expected empty table"
  | other => refuse ("expected table, found " ++ other.typeName)

/-- One of several names: as a string, or as the only key of a table with nothing behind it. -/
def named {α : Type} (known : List (String × α)) (v : Located Value) : Except Fault α :=
  let refuse (reason : String) : Except Fault α := .error ⟨.unsuitable reason, some v.span⟩
  match v.value with
  | .text s => nameOf known ⟨v.span, s⟩
  | .table _ [] => refuse "wanted exactly 1 element, found 0 elements"
  | .table _ [(key, value)] => do
    let a ← nameOf known key
    nothing value
    return a
  | .table .. => refuse "wanted exactly 1 element, more than 1 element"
  | _ => refuse "wanted string or table"

/-- Takes the value of one of the settings. -/
def setAbsentBranches (s : Settings) (v : Located Value) : Except Fault Settings := do
  return { s with absentBranches := ← named (AbsentBranches.all.map fun a => (a.name, a)) v }

def setEntryRegion (s : Settings) (v : Located Value) : Except Fault Settings := do
  return { s with entryRegion := ← named (EntryRegion.all.map fun e => (e.name, e)) v }

def skip (v : Located Value) : Except Fault Unit :=
  match v.value.firstOverflow v.span with
  | some fault => .error fault
  | none => .ok ()

def setEntry (s : Settings) : Located String × Located Value → Except Fault Settings
  | (key, v) =>
      if key.value = "absent_branches" then s.setAbsentBranches v
      else if key.value = "entry_region" then s.setEntryRegion v
      else do
        skip v
        return s

/-- The settings that items stand for, in their order. -/
def ofItems : List (Located Value) → Except Fault Settings
  | [] => .ok {}
  | [absent] => setAbsentBranches {} absent
  | absent :: region :: _ => do (← setAbsentBranches {} absent).setEntryRegion region

/-- The settings that a value stands for. A date is taken for a table without settings. -/
def ofValue (v : Located Value) : Except Fault Settings :=
  match v.value with
  | .table _ entries => entries.foldlM setEntry {}
  | .array items => ofItems items
  | .tables items => ofItems items.reverse
  | .moment => .ok {}
  | other =>
      match other.overflow? with
      | some cause => .error ⟨cause, some v.span⟩
      | none =>
          .error
            ⟨.unsuitable ("invalid type: " ++ other.message ++ ", expected struct ResolverConfig"),
              some v.span⟩

def ofEntries (entries : Toml.Entries) : Except Fault Settings :=
  entries.foldlM (fun s (key, v) =>
    if key.value = "resolver" then ofValue v
    else do
      skip v
      return s) {}

def ofToml (text : String) : Except Fault Settings := do ofEntries (← Toml.ofText text)

end Settings

end Mediation
