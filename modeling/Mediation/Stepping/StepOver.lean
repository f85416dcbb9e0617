import Mediation.Artifact
import Mediation.Stepping.Scan

/-! Step-over: the positions a debugger arms so that it halts at the next statement, whichever path
control takes from the statement at a breakpoint. -/

namespace Mediation

namespace Artifact

variable {τ : Type}

/-- The positions to arm; none if the breakpoint is in no flow of the artifact or nothing runs after
its statement. -/
def stepOver (settings : Settings) (a : Artifact τ) (breakpoint : Position) : List Position :=
  Stepper.resolve ⟨settings, breakpoint⟩ (a.flowsAt breakpoint)

end Artifact

end Mediation
