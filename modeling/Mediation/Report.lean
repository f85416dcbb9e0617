import Mediation.Failure

/-! Reports: a failure as it is shown to a user. Every diagnostic on a document makes a report of
its own, at its own severity, with its labels pointing into the text; any other failure makes one
report, which points nowhere. -/

namespace Mediation

/-- One thing to show. -/
structure Report where
  message : String
  code : Option String
  severity : Option Severity
  help : Option String
  /-- The text that the labels point into. -/
  source : Option String
  /-- The labels, if there are any. -/
  labels : Option (List Label)
  deriving DecidableEq, Repr

def Diagnostic.report (source : String) (d : Diagnostic) : Report where
  message := d.message
  code := d.code.map (·.id)
  severity := some d.severity
  help := d.help
  source := some source
  labels := if d.labels.isEmpty then none else some d.labels

namespace Failure

/-- The code of a failure that has nothing to do with a document. -/
def code? : Failure → Option String
  | io _ => some "flowstep::io"
  | document .. => none
  | config _ => some "flowstep::config"
  | request _ => some "flowstep::request"

/-- What to do about a failure that has nothing to do with a document. -/
def help? : Failure → Option String
  | config _ =>
      some ("`[resolver]` accepts absent_branches = \"fall-through\" | \"ignore\" " ++
        "and entry_region = \"start-tag\" | \"outside-branches\"")
  | request _ =>
      some ("a request is \x7b\"document\": \x7b...\x7d, " ++
        "\"breakpoint\": \x7b\"line\": N, \"column\": M\x7d\x7d")
  | io _ | document .. => none

def reports : Failure → List Report
  | document error source => error.diagnostics.map (·.report source)
  | failure =>
      [{ message := failure.message, code := failure.code?, severity := none, help := failure.help?
         source := none, labels := none }]

end Failure

end Mediation
