import Mediation.Document.Elaboration
import Mediation.Document.RangeCheck
import Mediation.Document.Reading

/-! Loading: from the text of a document to an artifact that can be stepped over. Whatever is wrong
with the text ends loading at once; everything else is gathered, so that one attempt shows all of
it. -/

namespace Mediation

/-- An artifact, and what is worth a notice about its document. -/
structure Loaded where
  artifact : Artifact String
  warnings : List Diagnostic
  deriving DecidableEq

namespace Json.ReadError

/-- Texts that are no JSON are told apart from values that are no document. -/
def diagnosticCode (e : ReadError) : DiagnosticCode :=
  match e.cause.category with
  | .mismatched => .shapeMismatch
  | .malformed | .unfinished => .malformedDocument

def help (e : ReadError) : String :=
  match e.cause.category with
  | .mismatched => "check the field names and types against the flow document format"
  | .malformed | .unfinished => "the document must be a single JSON object"

/-- The diagnostic on a text that could not be read as a document. An error without a place is shown
at the start of the text. -/
def diagnostic (e : ReadError) (source : String) : Diagnostic :=
  let span := Span.atMark (Text.bytes source) (e.mark.getD ⟨0, 0⟩)
  (Diagnostic.error ("malformed flow document: " ++ e.message)).withCode e.diagnosticCode
    |>.withLabel span e.diagnosticCode.description
    |>.withHelp e.help

end Json.ReadError

namespace ArtifactRecord

/-- The artifact that the record describes, with all that was found on the way and in its ranges. -/
def examine (r : ArtifactRecord) : Noted (Artifact String) :=
  let elaborated := r.elaborate
  ⟨elaborated.value, elaborated.findings ++ elaborated.value.check⟩

end ArtifactRecord

/-- Loads a document. It is refused if one of the findings is an error; otherwise all of them are
warnings. -/
def load (source : String) : Except DocumentError Loaded :=
  match ArtifactRecord.ofText source with
  | .error e => .error ⟨[e.diagnostic source]⟩
  | .ok record =>
      let ⟨artifact, findings⟩ := record.examine
      let diagnostics := findings.map (·.diagnostic)
      if findings.any (·.severity = .error) then .error ⟨diagnostics⟩
      else .ok ⟨artifact, diagnostics⟩

end Mediation
