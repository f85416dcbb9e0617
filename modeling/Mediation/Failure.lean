import Mediation.Diagnostic
import Mediation.Json.Reader.Basic

/-! What can go wrong when a breakpoint is stepped over on request. Stepping itself never fails:
failures come from files, documents, settings and requests. -/

namespace Mediation

inductive Failure where
  /-- A file could not be read, for the reason given by the system. -/
  | io (reason : String)
  /-- A document could not be loaded from a text. -/
  | document (error : DocumentError) (source : String)
  /-- The settings could not be had. -/
  | config (reason : String)
  /-- A text is no request. -/
  | request (error : Json.ReadError)
  deriving DecidableEq, Repr

namespace Failure

def message : Failure → String
  | io reason => "I/O error: " ++ reason
  | document error _ => error.message
  | config reason => "Configuration error: " ++ reason
  | request error => "Invalid request: " ++ error.message

end Failure

end Mediation
