import Mediation.Toml.Word

/-! The tokens of a TOML text. Every character belongs to one token; what tokens may follow one
another is not decided here. -/

namespace Mediation

namespace Toml

namespace Token

inductive Kind where
  | dot
  | equals
  | comma
  | openBracket
  | closeBracket
  | openBrace
  | closeBrace
  | blanks
  | newline
  | comment
  | word (form : Form)
  /-- The end of the text. What has not been closed by then should have been closed at the given
  offset. -/
  | finish (gap : Nat)
  deriving DecidableEq, Repr

end Token

/-- A token, the offset at which it starts, and its characters. -/
structure Token where
  kind : Token.Kind
  start : Nat
  chars : List Char
  deriving DecidableEq, Repr

namespace Token

def stop (t : Token) : Nat := t.start + Text.size t.chars

def span (t : Token) : Span := ⟨t.start, t.stop⟩

/-- The empty place in front of the token. -/
def before (t : Token) : Span := ⟨t.start, t.start⟩

/-- The key or scalar that the token is. -/
def word? (t : Token) : Option Word :=
  match t.kind with
  | .word form => some ⟨form, t.start, t.chars⟩
  | _ => none

/-- How many characters are left of a literal string behind its opening quote. The string ends in
front of the end of the line if it has not been closed. -/
def literalLength : List Char → Nat
  | [] => 0
  | '\'' :: _ => 1
  | '\n' :: _ => 0
  | _ :: rest => 1 + literalLength rest

/-- The same for a basic string. An escaped quote does not close it. -/
def basicLength : List Char → Nat
  | [] => 0
  | '"' :: _ => 1
  | '\n' :: _ => 0
  | '\\' :: '\\' :: rest | '\\' :: '"' :: rest => 2 + basicLength rest
  | _ :: rest => 1 + basicLength rest

/-- The number of closing quotes of a string over several lines. Up to two more than three belong to
the string. -/
def closingLength (quote : Char) (chars : List Char) : Nat :=
  3 + ((chars.take 2).takeWhile (· = quote)).length

/-- How many characters are left of a literal string over several lines. -/
def literalBlockLength : List Char → Nat
  | [] => 0
  | '\'' :: '\'' :: '\'' :: rest => closingLength '\'' rest
  | _ :: rest => 1 + literalBlockLength rest

def basicBlockLength : List Char → Nat
  | [] => 0
  | '"' :: '"' :: '"' :: rest => closingLength '"' rest
  | '\\' :: '\\' :: rest | '\\' :: '"' :: rest => 2 + basicBlockLength rest
  | _ :: rest => 1 + basicBlockLength rest

/-- Characters that end a word without quotes. Quotes do not, since only the opening one may be
missing. -/
def endsWord (c : Char) : Bool :=
  ['.', '=', ',', '[', ']', '\x7b', '\x7d', ' ', '\t', '#', '\r', '\n'].contains c

/-- The kind of the token that starts with a character, and how many of the characters behind it
belong to the token. -/
def shape (c : Char) (rest : List Char) : Kind × Nat :=
  match c, rest with
  | '.', _ => (.dot, 0)
  | '=', _ => (.equals, 0)
  | ',', _ => (.comma, 0)
  | '[', _ => (.openBracket, 0)
  | ']', _ => (.closeBracket, 0)
  | '\x7b', _ => (.openBrace, 0)
  | '\x7d', _ => (.closeBrace, 0)
  | ' ', _ | '\t', _ => (.blanks, (rest.takeWhile fun c => c = ' ' || c = '\t').length)
  | '#', _ => (.comment, (rest.takeWhile fun c => c ≠ '\r' && c ≠ '\n').length)
  | '\n', _ => (.newline, 0)
  | '\r', '\n' :: _ => (.newline, 1)
  | '\r', _ => (.newline, 0)
  | '\'', '\'' :: '\'' :: inside => (.word .literalBlock, 2 + literalBlockLength inside)
  | '\'', _ => (.word .literal, literalLength rest)
  | '"', '"' :: '"' :: inside => (.word .basicBlock, 2 + basicBlockLength inside)
  | '"', _ => (.word .basic, basicLength rest)
  | _, _ => (.word .bare, (rest.takeWhile fun c => !(endsWord c)).length)

/-- The token says something: it is more than a blank, a comment or the end of a line. -/
def isSolid (kind : Kind) : Bool :=
  match kind with
  | .blanks | .comment | .newline | .finish _ => false
  | _ => true

/-- The tokens of characters of which the first one is at the given offset. Also given are the
offset behind the last token that says something, and whether a comment is the last token of all; at
the end of such a comment nothing can be closed. -/
def split (solid : Nat) (inComment : Bool) (offset : Nat) : List Char → List Token
  | [] => [⟨.finish (if inComment then solid else offset), offset, []⟩]
  | c :: rest =>
      let (kind, length) := shape c rest
      let token : Token := ⟨kind, offset, c :: rest.take length⟩
      let solid := if isSolid kind then token.stop else solid
      token :: split solid (kind = .comment) token.stop (rest.drop length)
termination_by chars => chars.length
decreasing_by
  simp only [List.length_cons, List.length_drop]
  omega

/-- The tokens of a text. A mark of the byte order may come first. -/
def ofText (text : String) : List Token :=
  match text.toList with
  | '\ufeff' :: rest => split 3 false 3 rest
  | chars => split 0 false 0 chars

end Token

end Toml

end Mediation
