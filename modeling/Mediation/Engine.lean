import Mediation.Failure
import Mediation.Request

/-! Stepping over with given settings, from texts to answers. -/

namespace Mediation

/-- Loads a document, keeping its text beside the diagnostics if that fails. -/
def loadDocument (source : String) : Except Failure (Artifact String) :=
  match load source with
  | .ok loaded => .ok loaded.artifact
  | .error e => .error (.document e source)

/-- The positions to arm for a breakpoint in the document with the given text. -/
def stepOverIn (settings : Settings) (source : String) (breakpoint : Position) :
    Except Failure (List Position) := do
  return (← loadDocument source).stepOver settings breakpoint

def Request.answer (settings : Settings) (r : Request) : Except Failure Response := do
  return ⟨← stepOverIn settings r.source r.breakpoint⟩

/-- The text that answers the text of a request. -/
def answerText (settings : Settings) (text : String) : Except Failure String := do
  match Request.ofText text with
  | .error e => .error (.request e)
  | .ok request => return (← request.answer settings).toJson.compact

end Mediation
