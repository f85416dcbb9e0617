/-! Loops of readers. A reader goes on step by step until a step says that there is nothing more to
do. Every step that goes on passes over at least one character or token, so one step for each of
them that is left, and one at the end of the text, are enough. -/

namespace Mediation

namespace Text

variable {m : Type → Type} [Monad m] {α σ : Type}

/-- Takes at most one step for each item of a list and one more, each from the state that the one
before it came to. -/
def stepsAlong (step : σ → m (Option σ)) : List α → σ → m σ
  | [], state => do return (← step state).getD state
  | _ :: rest, state => do
    match ← step state with
    | some next => stepsAlong step rest next
    | none => return state

end Text

end Mediation
