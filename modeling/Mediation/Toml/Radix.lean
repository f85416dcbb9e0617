import Mediation.Text.Hex

/-! The bases other than ten in which whole numbers can be written. A zero and the letter of the
base come before the digits. -/

namespace Mediation

namespace Toml

inductive Radix where
  | hexadecimal
  | octal
  | binary
  deriving DecidableEq, Repr

namespace Radix

def base : Radix → Nat
  | hexadecimal => 16
  | octal => 8
  | binary => 2

def name : Radix → String
  | hexadecimal => "hexadecimal"
  | octal => "octal"
  | binary => "binary"

def mark : Radix → String
  | hexadecimal => "0x"
  | octal => "0o"
  | binary => "0b"

/-- The base that a letter stands for, in either case. -/
def ofLetter? (c : Char) : Option Radix :=
  if c = 'x' ∨ c = 'X' then some hexadecimal
  else if c = 'o' ∨ c = 'O' then some octal
  else if c = 'b' ∨ c = 'B' then some binary
  else none

/-- The character is a digit of the base. -/
def isDigit (radix : Radix) (c : Char) : Bool := (Text.hexValue? c).any (· < radix.base)

end Radix

/-- The number that digits spell in a base. -/
def numberOf (base : Nat) (digits : List Char) : Nat :=
  digits.foldl (fun n c => base * n + (Text.hexValue? c).getD 0) 0

end Toml

end Mediation
