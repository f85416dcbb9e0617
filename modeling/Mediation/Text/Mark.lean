/-! Places in a text, by byte. A `Mark` is the line and column a reader reports for a byte offset, a
`Span` is a stretch of bytes. `Mark.ofOffset` goes from offsets to marks by looking back for the
last newline, `Span.atMark` goes from marks to one-byte spans by counting whole lines. -/

namespace Mediation

namespace Text

def bytes (text : String) : List UInt8 := text.toList.flatMap String.utf8EncodeChar

/-- The number of bytes that characters take in UTF-8. -/
def size (chars : List Char) : Nat := chars.foldr (fun c n => c.utf8Size + n) 0

def newline : UInt8 := 10

/-- The offset at which the line with the given number starts, lines being numbered from zero; the
end of the text if it has no such line. -/
def lineStart : Nat → List UInt8 → Nat
  | 0, _ => 0
  | _ + 1, [] => 0
  | n + 1, b :: rest => 1 + lineStart (if b = newline then n else n + 1) rest

end Text

/-- A line, numbered from one, and a column. A column is the number of bytes of the line up to and
including the one in question, so it is zero just before a line. -/
structure Mark where
  line : Nat
  column : Nat
  deriving DecidableEq, Repr

/-- The mark of the place just after the first `offset` bytes. -/
def Mark.ofOffset (bytes : List UInt8) (offset : Nat) : Mark :=
  let before := bytes.take offset
  { line := 1 + before.count Text.newline
    column := (before.reverse.takeWhile (· ≠ Text.newline)).length }

/-- The bytes from `start` up to, but not including, `stop`. -/
structure Span where
  start : Nat
  stop : Nat
  deriving DecidableEq, Repr

namespace Span

def length (s : Span) : Nat := s.stop - s.start

def isEmpty (s : Span) : Bool := s.start = s.stop

/-- The byte at a mark. What lies past the end of the text is taken back to the end, where the span
is empty; a column or line of zero counts as the first. -/
def atMark (bytes : List UInt8) (mark : Mark) : Span :=
  let start := min (Text.lineStart (mark.line - 1) bytes + (mark.column - 1)) bytes.length
  ⟨start, min (start + 1) bytes.length⟩

theorem start_le_stop_atMark (bytes : List UInt8) (mark : Mark) :
    (atMark bytes mark).start ≤ (atMark bytes mark).stop := by
  simp only [atMark]
  omega

theorem stop_atMark_le (bytes : List UInt8) (mark : Mark) :
    (atMark bytes mark).stop ≤ bytes.length := by
  simp only [atMark]
  omega

end Span

end Mediation
