import Mediation.Text.Mark

/-! Keys and scalars as they are written: the form, and the characters with the quotes around them.
-/

namespace Mediation

namespace Toml

/-- How a key or a scalar is written. -/
inductive Form where
  /-- Without quotes. -/
  | bare
  /-- Between double quotes, with escapes. -/
  | basic
  /-- Between single quotes. -/
  | literal
  /-- Between three double quotes, over several lines. -/
  | basicBlock
  /-- Between three single quotes, over several lines. -/
  | literalBlock
  deriving DecidableEq, Repr

namespace Form

def quotes : Form → List Char
  | bare => []
  | basic => ['"']
  | literal => ['\'']
  | basicBlock => ['"', '"', '"']
  | literalBlock => ['\'', '\'', '\'']

def name : Form → String
  | bare => "string"
  | basic => "basic string"
  | literal => "literal string"
  | basicBlock => "multi-line basic string"
  | literalBlock => "multi-line literal string"

end Form

/-- A key without dots or a scalar: its form, the offset at which it starts, and its characters. -/
structure Word where
  form : Form
  start : Nat
  chars : List Char
  deriving DecidableEq, Repr

namespace Word

def stop (w : Word) : Nat := w.start + Text.size w.chars

def span (w : Word) : Span := ⟨w.start, w.stop⟩

/-- A word of no characters. It stands where a word is missing. -/
def missing (form : Form) (offset : Nat) : Word := ⟨form, offset, []⟩

end Word

end Toml

end Mediation
