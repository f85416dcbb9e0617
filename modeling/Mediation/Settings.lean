/-! The settings of step-over resolution. Every setting has a default. -/

namespace Mediation

/-- What a branch that is absent, or has no mediators, means for a debugger that steps into the
branches of a mediator. -/
inductive AbsentBranches where
  /-- Control may pass the mediator by, so what follows it is armed unless every branch is there. -/
  | fallThrough
  /-- Only the branches that are there count; what follows is armed if none is. -/
  | ignore
  deriving DecidableEq, Repr

/-- Which positions of a branching mediator step into its branches. -/
inductive EntryRegion where
  /-- Those on its start tag. -/
  | startTag
  /-- Those in none of its branches. -/
  | outsideBranches
  deriving DecidableEq, Repr

/-- How a breakpoint is stepped over. -/
structure Settings where
  absentBranches : AbsentBranches := .fallThrough
  entryRegion : EntryRegion := .startTag
  deriving DecidableEq, Repr

namespace AbsentBranches

def name : AbsentBranches → String
  | fallThrough => "fall-through"
  | ignore => "ignore"

def all : List AbsentBranches := [fallThrough, ignore]

def ofName? (name : String) : Option AbsentBranches := all.find? (·.name = name)

end AbsentBranches

namespace EntryRegion

def name : EntryRegion → String
  | startTag => "start-tag"
  | outsideBranches => "outside-branches"

def all : List EntryRegion := [startTag, outsideBranches]

def ofName? (name : String) : Option EntryRegion := all.find? (·.name = name)

end EntryRegion

end Mediation
