import Mediation.Main
import Mediation.Settings.Json
import Mediation.TagTable
import Mediation.Proofs.Stepping.Progress
import Mediation.Proofs.Stepping.Entering
import Mediation.Proofs.Stepping.StopChain
import Mediation.Proofs.Layout.Basic
import Mediation.Proofs.Layout.Place
import Mediation.Proofs.Layout.StepOver
import Mediation.Proofs.Json.Reader
import Mediation.Proofs.Json.Steady.Basic
import Mediation.Proofs.Json.Steady.Value
import Mediation.Proofs.Json.Canonical
import Mediation.Proofs.Json.Recast
import Mediation.Proofs.Json.Gather
import Mediation.Proofs.Json.Judging
import Mediation.Proofs.Json.Grammar.Number
import Mediation.Proofs.Json.Printing.Leaf
import Mediation.Proofs.Json.Printing.Value
import Mediation.Proofs.Json.Record
import Mediation.Proofs.Document.Record
import Mediation.Proofs.Document.Reading
import Mediation.Proofs.Json.Printing.Record
import Mediation.Proofs.Json.Grammar.Leaf
import Mediation.Proofs.Json.Grammar.Value
import Mediation.Proofs.Json.Grammar.Printing
import Mediation.Proofs.Request
import Mediation.Proofs.Document.RangeCheck
import Mediation.Proofs.Document.Elaboration
import Mediation.Proofs.Document.Loading
import Mediation.Proofs.Document.Description
import Mediation.Proofs.Document.Recovery
import Mediation.Proofs.Document.Judging
import Mediation.Proofs.Document.Headline
import Mediation.Proofs.Stepping.Isolation
import Mediation.Proofs.Stepping.Pairing
import Mediation.Proofs.Layout.ForwardProgress
import Mediation.Proofs.Stepping.Boundary
import Mediation.Proofs.Stepping.Landing
import Mediation.Proofs.Stepping.Settings
import Mediation.Proofs.Refusal
import Mediation.Proofs.Answer
import Mediation.Proofs.Flow.Replace
import Mediation.Proofs.Flow.Redrawing
import Mediation.Proofs.Stepping.Redrawing
import Mediation.Proofs.Flow.Gap
import Mediation.Proofs.Flow.Retagging
import Mediation.Proofs.Interning
import Mediation.Proofs.Stepping.Reordering
import Mediation.Proofs.Document.Branches
import Mediation.Proofs.Document.Inspection
import Mediation.Proofs.Text.Mark
