import Mediation.Json.Mismatch

/-! Records in JSON. A record is written as an object with an entry for each field, in any order, or
as an array with an item for each field, in the order in which the `Shape` of the record lists them.
Entries that name no field mean nothing. A field that is there is judged when it is come upon; what
is missing is looked for afterwards, in the order of the shape. -/

namespace Mediation

namespace Json

/-! Values of fields. -/

def uint32 : Json → Except Mismatch UInt32
  | .number (.whole n) =>
      if 0 ≤ n ∧ n < UInt32.size then .ok (UInt32.ofNat n.toNat)
      else .error (.invalidValue (.number (.whole n)) "u32")
  | other => .error (.invalidType other.found "u32")

def string : Json → Except Mismatch String
  | .text s => .ok s
  | other => .error (.invalidType other.found "a string")

def nullable {α : Type} (read : Json → Except Mismatch α) : Json → Except Mismatch (Option α)
  | .null => .ok none
  | other => some <$> read other

def list {α : Type} (read : Json → Except Mismatch α) : Json → Except Mismatch (List α)
  | .array items => items.mapM read
  | other => .error (.invalidType other.found "a sequence")

def oneNamed {α : Type} (known : List (String × α)) : Json → Except Mismatch α
  | .text name =>
      match known.lookup name with
      | some a => .ok a
      | none => .error (.unknownVariant name (known.map (·.1)))
  | other => .error (.invalidType other.found "variant identifier")

/-! Shapes of records. -/

/-- Whether a field may be left out. -/
inductive Need where
  | required
  /-- An object may leave it out, an array may not. -/
  | nullable
  | defaulted
  deriving DecidableEq, Repr

/-- A field, and how its value is read. -/
structure Field (ρ : Type) where
  key : String
  need : Need
  read : ρ

/-- The fields of a record that is gathered in a `σ`. -/
structure Shape (σ ρ : Type) where
  /-- What messages call the record. -/
  title : String
  /-- The record before any field has been read. -/
  blank : σ
  fields : List (Field ρ)

def elements (n : Nat) : String := if n = 1 then "1 element" else toString n ++ " elements"

/-! Fields whose values are read from JSON values, and what they do to the record. -/

namespace Field

variable {α σ : Type}

def required (key : String) (read : Json → Except Mismatch α) (set : α → σ → σ) :
    Field (Json → Except Mismatch (σ → σ)) :=
  ⟨key, .required, fun j => set <$> read j⟩

def optional (key : String) (read : Json → Except Mismatch α) (set : Option α → σ → σ) :
    Field (Json → Except Mismatch (σ → σ)) :=
  ⟨key, .nullable, fun j => set <$> nullable read j⟩

/-- A field that keeps the value it has in the blank record if it is missing. -/
def defaulted (key : String) (read : Json → Except Mismatch α) (set : α → σ → σ) :
    Field (Json → Except Mismatch (σ → σ)) :=
  ⟨key, .defaulted, fun j => set <$> read j⟩

end Field

namespace Shape

variable {σ ρ : Type}

/-- The field that a key names, if it names one; it may do so only once. -/
def accept (shape : Shape σ ρ) (seen : List String) (key : String) :
    Except Mismatch (Option (Field ρ)) :=
  match shape.fields.find? (·.key = key) with
  | none => .ok none
  | some field => if key ∈ seen then .error (.duplicateField key) else .ok (some field)

/-- Every field that an object may not leave out has been seen. -/
def complete (shape : Shape σ ρ) (seen : List String) : Except Mismatch Unit :=
  match shape.fields.find? fun field => field.need = .required && field.key ∉ seen with
  | some field => .error (.missingField field.key)
  | none => .ok ()

/-- The items of an array have come to an end before the field with the given index. -/
def tooShort (shape : Shape σ ρ) (index : Nat) : Mismatch :=
  .invalidLength index (shape.title ++ " with " ++ elements shape.fields.length)

/-- A shape whose fields are read from JSON values. -/
abbrev OfJson (σ : Type) : Type := Shape σ (Json → Except Mismatch (σ → σ))

/-- Reads entries in order. Also gives the keys of the fields among them and the entries that name
no field. -/
def takeEntries (shape : OfJson σ) : List String → σ → List (String × Json) →
    Except Mismatch (List String × σ × List (String × Json))
  | seen, record, [] => .ok (seen, record, [])
  | seen, record, (key, value) :: rest => do
    match ← shape.accept seen key with
    | some field => shape.takeEntries (key :: seen) ((← field.read value) record) rest
    | none =>
        let (seen, record, others) ← shape.takeEntries seen record rest
        pure (seen, record, (key, value) :: others)

/-- The record that entries make, and the entries that name none of its fields. -/
def ofEntries (shape : OfJson σ) (entries : List (String × Json)) :
    Except Mismatch (σ × List (String × Json)) := do
  let (seen, record, others) ← shape.takeEntries [] shape.blank entries
  shape.complete seen
  pure (record, others)

/-- Reads items as the fields from an index on. -/
def takeItems (shape : OfJson σ) (index : Nat) (record : σ) :
    List (Field (Json → Except Mismatch (σ → σ))) → List Json → Except Mismatch σ
  | [], [] => .ok record
  | [], items => .error (.invalidLength (index + items.length) (elements index ++ " in sequence"))
  | field :: fields, [] =>
      if field.need = .defaulted then shape.takeItems (index + 1) record fields []
      else .error (shape.tooShort index)
  | field :: fields, item :: items => do
    shape.takeItems (index + 1) ((← field.read item) record) fields items

def ofItems (shape : OfJson σ) (items : List Json) : Except Mismatch σ :=
  shape.takeItems 0 shape.blank shape.fields items

def ofJson (shape : OfJson σ) : Json → Except Mismatch σ
  | .object entries => (·.1) <$> shape.ofEntries entries
  | .array items => shape.ofItems items
  | other => .error (.invalidType other.found shape.title)

end Shape

end Json

end Mediation
