import Mediation.Settings
import Mediation.Flow.Basic

/-! Where a position lies with respect to a branching mediator: on the mediator itself, in one of
its branches, or in neither. -/

namespace Mediation

/-- The place of a position in a mediator that nests flows of type `φ`. -/
inductive Placement (φ : Type) where
  /-- Stepping from here goes into the branches. -/
  | entry
  /-- In this branch. -/
  | nested (branch : φ)
  /-- In the mediator, but neither where it is entered nor in a branch. -/
  | elsewhere
  deriving DecidableEq

namespace Mediator

variable {τ : Type}

/-- The start tag comes first, then the branches in document order; the region decides on the rest.
-/
def placement (region : EntryRegion) (p : Position) (m : Mediator τ (Flow τ)) :
    Placement (Flow τ) :=
  if p ∈ m.node.range.startTag then .entry
  else
    match m.branches.find? (p ∈ ·) with
    | some branch => .nested branch
    | none =>
        match region with
        | .startTag => .elsewhere
        | .outsideBranches => .entry

theorem mem_branches_of_placement_eq_nested {region : EntryRegion} {p : Position}
    {m : Mediator τ (Flow τ)} {c : Flow τ} (h : m.placement region p = .nested c) :
    c ∈ m.branches := by
  unfold placement at h
  split at h
  · cases h
  · split at h
    next branch hfind =>
      cases h
      exact List.mem_of_find?_eq_some hfind
    next =>
      cases region <;> cases h

end Mediator

end Mediation
