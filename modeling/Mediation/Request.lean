import Mediation.Document.Loading
import Mediation.Json.Printer
import Mediation.Json.Reader.Record
import Mediation.Stepping.StepOver

/-! Requests: a flow document and a breakpoint in one JSON text, answered by the positions to arm.
The document is an untyped value in the request; what is loaded is the text of that value, so
diagnostics point into that text and not into the request. -/

namespace Mediation

/-- A document and the breakpoint to step over in it. -/
structure Request where
  document : Json
  breakpoint : Position

/-- The positions to arm, in the order they were resolved. -/
structure Response where
  breakpoints : List Position
  deriving DecidableEq, Repr

/-! Records that are read straight from text. -/

namespace Position

/-- A position in the text of a request. -/
def textShape : Json.Shape.OfText Position where
  title := "struct Position"
  blank := ⟨0, 0⟩
  fields := [
    ⟨"line", .required, fun _ => (fun line p => { p with line }) <$> Json.Reader.typed Json.uint32⟩,
    ⟨"column", .required, fun _ =>
      (fun column p => { p with column }) <$> Json.Reader.typed Json.uint32⟩]

def ofText : String → Except Json.ReadError Position := Json.Reader.whole textShape.reader

def toJson (p : Position) : Json :=
  .object [("line", .number (.whole p.line.toNat)), ("column", .number (.whole p.column.toNat))]

end Position

namespace Request

def shape : Json.Shape.OfText Request where
  title := "struct StepOverRequest"
  blank := ⟨.null, ⟨0, 0⟩⟩
  fields := [
    ⟨"document", .required, fun depth =>
      (fun document r => { r with document := document.canonical }) <$> Json.Reader.value depth⟩,
    ⟨"breakpoint", .required, fun depth =>
      (fun breakpoint r => { r with breakpoint }) <$> Position.textShape.reader depth⟩]

/-- Reads a text as a request. Of repeated keys in the document the last one counts, and the order
of keys does not. -/
def ofText : String → Except Json.ReadError Request := Json.Reader.whole shape.reader

/-- The text of the document that is loaded. -/
def source (r : Request) : String := r.document.pretty

end Request

namespace Response

def shape : Json.Shape.OfText Response where
  title := "struct StepOverResponse"
  blank := ⟨[]⟩
  fields := [
    ⟨"breakpoints", .required, fun depth =>
      (fun breakpoints _ => ⟨breakpoints⟩) <$> Json.Reader.arrayOf Position.textShape.reader depth⟩]

def ofText : String → Except Json.ReadError Response := Json.Reader.whole shape.reader

def toJson (r : Response) : Json :=
  .object [("breakpoints", .array (r.breakpoints.map (·.toJson)))]

end Response

end Mediation
