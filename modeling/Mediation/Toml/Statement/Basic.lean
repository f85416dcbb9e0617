import Mediation.Toml.Basic
import Mediation.Toml.Word

/-! The statements of a TOML text. What they say is not known yet: keys and scalars are still words,
and nothing is known about what the statements before them have said. -/

namespace Mediation

namespace Toml

/-- A value as it is written. -/
inductive Term where
  | scalar (w : Word)
  | array (span : Span) (items : List Term)
  | table (span : Span) (entries : List (Path Word × Term))

inductive Statement where
  | entry (keys : Path Word) (value : Term)
  /-- The header of a table, or of one more table of an array. -/
  | header (repeated : Bool) (span : Span) (keys : Path Word)

end Toml

end Mediation
