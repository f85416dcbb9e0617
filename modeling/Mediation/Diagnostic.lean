import Mediation.Text.Mark

/-! Diagnostics: what is wrong with a document, or merely worth a notice, and which bytes of its
text that is about. -/

namespace Mediation

/-- Whether a diagnostic keeps a document from being loaded. -/
inductive Severity where
  | error
  | warning
  deriving DecidableEq, Repr

/-- What a diagnostic is about: the text of a document (`E0`), the ranges of its elements (`E1`) or
its structure (`E2`). -/
inductive DiagnosticCode where
  | malformedDocument
  | shapeMismatch
  | invertedRange
  | misorderedTags
  | emptyBranch
  | unknownMediator
  | unsupportedBranch
  | childOutsideParent
  deriving DecidableEq, Repr

/-- A remark on some bytes of a text. The primary labels mark what is wrong, the others what has to
do with it. -/
structure Label where
  span : Span
  message : String
  isPrimary : Bool
  deriving DecidableEq, Repr

/-- A diagnostic on a document. -/
structure Diagnostic where
  severity : Severity
  message : String
  code : Option DiagnosticCode := none
  labels : List Label := []
  help : Option String := none
  deriving DecidableEq, Repr

namespace Severity

def name : Severity → String
  | error => "error"
  | warning => "warning"

end Severity

namespace DiagnosticCode

def all : List DiagnosticCode :=
  [malformedDocument, shapeMismatch, invertedRange, misorderedTags, emptyBranch, unknownMediator,
    unsupportedBranch, childOutsideParent]

def id : DiagnosticCode → String
  | malformedDocument => "E001"
  | shapeMismatch => "E002"
  | invertedRange => "E100"
  | misorderedTags => "E101"
  | emptyBranch => "E200"
  | unknownMediator => "E201"
  | unsupportedBranch => "E202"
  | childOutsideParent => "E203"

def ofId? (id : String) : Option DiagnosticCode := all.find? (·.id = id)

def description : DiagnosticCode → String
  | malformedDocument => "malformed document"
  | shapeMismatch => "document shape mismatch"
  | invertedRange => "inverted range"
  | misorderedTags => "misordered tags"
  | emptyBranch => "empty branch"
  | unknownMediator => "unknown mediator"
  | unsupportedBranch => "unsupported branch"
  | childOutsideParent => "child outside parent"

end DiagnosticCode

namespace Diagnostic

def error (message : String) : Diagnostic := { severity := .error, message }

def warning (message : String) : Diagnostic := { severity := .warning, message }

def withCode (d : Diagnostic) (code : DiagnosticCode) : Diagnostic := { d with code := some code }

def withHelp (d : Diagnostic) (help : String) : Diagnostic := { d with help := some help }

def withLabel (d : Diagnostic) (span : Span) (message : String) : Diagnostic :=
  { d with labels := d.labels ++ [⟨span, message, true⟩] }

/-- Adds a label on what has to do with the problem. -/
def withSecondaryLabel (d : Diagnostic) (span : Span) (message : String) : Diagnostic :=
  { d with labels := d.labels ++ [⟨span, message, false⟩] }

instance : ToString Diagnostic where
  toString d :=
    d.severity.name ++ (d.code.elim "" fun code => "[" ++ code.id ++ "]") ++ ": " ++ d.message

end Diagnostic

/-- Why a document could not be loaded. -/
structure DocumentError where
  diagnostics : List Diagnostic
  deriving DecidableEq, Repr

namespace DocumentError

/-- The first diagnostic, and how many more there are. -/
def message (e : DocumentError) : String :=
  match e.diagnostics with
  | [] => ""
  | [d] => toString d
  | d :: rest => toString d ++ " (+" ++ toString rest.length ++ " more)"

end DocumentError

end Mediation
