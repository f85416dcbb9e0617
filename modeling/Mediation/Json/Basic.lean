import Mediation.Decimal.Shortest

/-! JSON values. An object keeps its entries as they were written, in order and with repeated keys;
what a repeated key means is for the reader of the value to say. `Json.canonical` gives the value as
an unordered mapping sees it: keys in order, the last of equal keys kept. -/

namespace Mediation

/-- A number: exact if it is whole and fits 64 bits, a binary floating-point number otherwise. -/
inductive Json.Number where
  | whole (n : Int)
  | real (x : Decimal.Binary64)
  deriving DecidableEq, Repr

/-- A JSON value. -/
inductive Json where
  | null
  | bool (b : Bool)
  | number (n : Json.Number)
  | text (s : String)
  | array (items : List Json)
  | object (entries : List (String × Json))

namespace Json

/-- How many containers may be open at once in a text that is read. -/
def nestingLimit : Nat := 127

mutual

/-- How many containers are open at once within the value. -/
def nesting : Json → Nat
  | array items => nestingItems items + 1
  | object entries => nestingEntries entries + 1
  | _ => 0
termination_by structural j => j

def nestingItems : List Json → Nat
  | [] => 0
  | item :: rest => max (nesting item) (nestingItems rest)
termination_by structural items => items

def nestingEntries : List (String × Json) → Nat
  | [] => 0
  | entry :: rest => max (nestingEntry entry) (nestingEntries rest)
termination_by structural entries => entries

def nestingEntry : String × Json → Nat
  | (_, value) => nesting value
termination_by structural entry => entry

end

def Number.text : Number → String
  | whole n => toString n
  | real x => x.text

/-- Puts an entry into entries with increasing keys, in place of one with the same key. -/
def insertEntry (key : String) (value : Json) : List (String × Json) → List (String × Json)
  | [] => [(key, value)]
  | (key', value') :: rest =>
      if key < key' then (key, value) :: (key', value') :: rest
      else if key = key' then (key, value) :: rest
      else (key', value') :: insertEntry key value rest

/-- The entries with increasing keys, the last of equal keys kept. -/
def sortEntries (entries : List (String × Json)) : List (String × Json) :=
  entries.foldl (fun sorted entry => insertEntry entry.1 entry.2 sorted) []

mutual

/-- The value with the entries of every object in it sorted. -/
def canonical : Json → Json
  | array items => array (canonicalItems items)
  | object entries => object (sortEntries (canonicalEntries entries))
  | leaf => leaf
termination_by structural j => j

def canonicalItems : List Json → List Json
  | [] => []
  | item :: rest => canonical item :: canonicalItems rest
termination_by structural items => items

def canonicalEntries : List (String × Json) → List (String × Json)
  | [] => []
  | entry :: rest => canonicalEntry entry :: canonicalEntries rest
termination_by structural entries => entries

def canonicalEntry : String × Json → String × Json
  | (key, value) => (key, canonical value)
termination_by structural entry => entry

end

end Json

end Mediation
