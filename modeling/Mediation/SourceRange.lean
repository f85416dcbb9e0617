import Mediation.Position

/-! The stretch of markup that an element occupies. A self-closed element such as `<drop/>` is one
tag; a container has a start tag and an end tag, and its extent runs from the start of the one to
the end of the other. Both ends of a range belong to it. Ranges are taken as they come: nothing here
asks that a range starts before it stops, or that an end tag follows its start tag. -/

namespace Mediation

/-- The stretch from `start` to `stop`, both included. -/
structure TagRange where
  start : Position
  stop : Position
  deriving DecidableEq, Repr

namespace TagRange

instance : Membership Position TagRange where
  mem r p := r.start ≤ p ∧ p ≤ r.stop

instance (p : Position) (r : TagRange) : Decidable (p ∈ r) :=
  inferInstanceAs (Decidable (r.start ≤ p ∧ p ≤ r.stop))

theorem mem_iff {p : Position} {r : TagRange} : p ∈ r ↔ r.start ≤ p ∧ p ≤ r.stop := Iff.rfl

def Inverted (r : TagRange) : Prop := r.stop < r.start

instance (r : TagRange) : Decidable r.Inverted :=
  inferInstanceAs (Decidable (r.stop < r.start))

/-- The range reaches at least as far as `inner` on either side. -/
def Encloses (r inner : TagRange) : Prop := r.start ≤ inner.start ∧ inner.stop ≤ r.stop

instance (r inner : TagRange) : Decidable (r.Encloses inner) :=
  inferInstanceAs (Decidable (r.start ≤ inner.start ∧ inner.stop ≤ r.stop))

instance : ToString TagRange where
  toString r := toString r.start ++ "-" ++ toString r.stop

end TagRange

/-- The stretch of an element: one tag, or a start tag and an end tag. -/
inductive SourceRange where
  | selfClosed (tag : TagRange)
  | container (startTag endTag : TagRange)
  deriving DecidableEq, Repr

namespace SourceRange

/-- The tag that opens the element; all of it if it is self-closed. -/
def startTag : SourceRange → TagRange
  | selfClosed tag => tag
  | container startTag _ => startTag

/-- The tag that closes the element, if it has one of its own. -/
def endTag? : SourceRange → Option TagRange
  | selfClosed _ => none
  | container _ endTag => some endTag

/-- The tags of the element in document order. -/
def tags : SourceRange → List TagRange
  | selfClosed tag => [tag]
  | container startTag endTag => [startTag, endTag]

def start (r : SourceRange) : Position := r.startTag.start

def stop : SourceRange → Position
  | selfClosed tag => tag.stop
  | container _ endTag => endTag.stop

/-- From the start of the start tag to the stop of the end tag. -/
def extent (r : SourceRange) : TagRange := ⟨r.start, r.stop⟩

instance : Membership Position SourceRange where
  mem r p := p ∈ r.extent

instance (p : Position) (r : SourceRange) : Decidable (p ∈ r) :=
  inferInstanceAs (Decidable (p ∈ r.extent))

theorem mem_iff {p : Position} {r : SourceRange} : p ∈ r ↔ r.start ≤ p ∧ p ≤ r.stop := Iff.rfl

/-- An element's range is written as its extent. -/
instance : ToString SourceRange where
  toString r := toString r.extent

end SourceRange

end Mediation
