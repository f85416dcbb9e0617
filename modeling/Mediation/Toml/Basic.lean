import Mediation.Decimal.Binary64
import Mediation.Text.Mark

/-! TOML values. Every key and every value knows which bytes of the text it was written with, so a
value that turns out to be of no use can still be pointed at. -/

namespace Mediation

namespace Toml

/-- Something written in a text, and the bytes it was written with. -/
structure Located (α : Type) where
  span : Span
  value : α
  deriving DecidableEq, Repr

/-- A key with dots: the tables it leads through, and the entry it names in the last of them. -/
structure Path (α : Type) where
  through : List α
  last : α
  deriving DecidableEq, Repr

/-- A floating-point number. -/
inductive Real where
  | finite (x : Decimal.Binary64)
  /-- Too great to be had. -/
  | overflowing
  | infinite (negative : Bool)
  | nan
  deriving DecidableEq, Repr

/-- How a table came to be, which decides what may be added to it later. -/
inductive Origin where
  /-- By a header of its own. -/
  | header
  /-- By the header of a table in it. -/
  | implied
  /-- By dotted keys. -/
  | dotted
  /-- Between braces, which closes it. -/
  | inline
  deriving DecidableEq, Repr

/-- A value. Tables hold their entries in the order of the keys. -/
inductive Value where
  | text (s : String)
  /-- A whole number; nothing if it was written with what spells no number. -/
  | whole (n : Option Int)
  | real (x : Real)
  | bool (b : Bool)
  | moment
  | array (items : List (Located Value))
  /-- An array that is written table by table, last table first. -/
  | tables (items : List (Located Value))
  | table (origin : Origin) (entries : List (Located String × Located Value))

namespace Value

/-- The name of the type of a value. -/
def typeName : Value → String
  | text _ => "string"
  | whole _ => "integer"
  | real _ => "float"
  | bool _ => "boolean"
  | moment => "datetime"
  | array _ | tables _ => "array"
  | table .. => "table"

end Value

end Toml

end Mediation
