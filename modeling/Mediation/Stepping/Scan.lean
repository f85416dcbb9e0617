import Mediation.Stepping.Placement

/-! The scan behind step-over. A stepper walks flows in order and looks for the innermost mediator
that holds its position; from there it arms the heads of the statements that may run next. What it
knows so far is a `Progress`, which passes from flow to flow, so a successor that one flow lacks is
found in the next. -/

namespace Mediation

/-- What a scan has found so far. -/
structure Progress where
  /-- The statement at the position has been passed; the next head is its successor. -/
  located : Bool := false
  /-- Nothing more will be armed. -/
  complete : Bool := false
  /-- The heads to halt at, in the order they were found. -/
  armed : List Position := []
  deriving DecidableEq, Repr

namespace Progress

def arm (s : Progress) (heads : List Position) : Progress := { s with armed := s.armed ++ heads }

/-- The successor has been reached: its head is the last one. -/
def finishAt (s : Progress) (head : Position) : Progress := { s.arm [head] with complete := true }

end Progress

/-- Steps over the statement at one position under given settings. -/
structure Stepper where
  settings : Settings
  position : Position
  deriving DecidableEq, Repr

namespace Stepper

variable {τ : Type}

/-- Arms the head of every branch that has one. That settles the matter if a head was armed and,
where absent branches fall through, none of the paths lacks one. -/
def enter (r : Stepper) (slots : List (Option (Flow τ))) (s : Progress) : Progress :=
  let heads := slots.filterMap fun slot => slot.bind (·.head?)
  let expected :=
    match r.settings.absentBranches with
    | .fallThrough => slots.length
    | .ignore => heads.length
  let s := s.arm heads
  if 0 < heads.length ∧ heads.length = expected then { s with complete := true } else s

/-- Walks the mediators of a flow in order. -/
def scan (r : Stepper) : List (Mediator τ (Flow τ)) → Progress → Progress
  | [], s => s
  | m :: rest, s =>
      if s.complete then s
      else if s.located then s.finishAt m.head
      else if r.position ∈ m then
        let s :=
          match m.kind.slots? with
          | none => s
          | some slots =>
              match _h : m.placement r.settings.entryRegion r.position with
              | .entry => r.enter slots s
              | .nested branch => r.scan branch.mediators s
              | .elsewhere => s
        if s.complete then s else r.scan rest { s with located := true }
      else r.scan rest s
termination_by mediators => mediators
decreasing_by
  · have hbranch := Flow.sizeOf_lt_of_mem_branches (Mediator.mem_branches_of_placement_eq_nested _h)
    have hmediators := branch.sizeOf_mediators_lt
    simp only [List.cons.sizeOf_spec]
    omega
  · simp +arith
  · simp +arith

/-- Goes through one flow from where earlier flows left off. -/
def scanFlow (r : Stepper) (f : Flow τ) (s : Progress) : Progress := r.scan f.mediators s

/-- The heads to arm after going through the flows in order. -/
def resolve (r : Stepper) (flows : List (Flow τ)) : List Position :=
  (flows.foldl (fun s f => r.scanFlow f s) {}).armed

end Stepper

end Mediation
