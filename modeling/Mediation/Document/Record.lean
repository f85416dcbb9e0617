import Mediation.Flow.Basic

/-! What a flow document says, before anything is made of it. A mediator may be written with any of
the branches that some mediator has; which of them mean something depends on its tag and is not
decided here. Like that of flows, the layer of a mediator is written over the type `φ` of what it
nests. -/

namespace Mediation

/-- A case of a switch as written. -/
structure CaseRecord (φ : Type) where
  regex : Option String
  flow : φ

/-- A mediator as written, with every branch it may be written with. -/
structure MediatorRecord (φ : Type) where
  node : Node String
  thenFlow : Option φ
  elseFlow : Option φ
  onAccept : Option φ
  onReject : Option φ
  cases : Option (List (CaseRecord φ))
  default : Option φ
  advice : Option φ
  obligations : Option φ
  onCacheHit : Option φ
  onFail : Option φ
  targets : Option (List (Target String φ))
  target : Option (Target String φ)
  sequence : Option φ
  onComplete : Option φ

/-- A flow as written. -/
structure FlowRecord where
  node : Node String
  mediators : List (MediatorRecord FlowRecord)

/-- The sequences of a resource or of a proxy's target as written. -/
structure SequencesRecord where
  inSequence : Option FlowRecord
  outSequence : Option FlowRecord
  faultSequence : Option FlowRecord

/-- A resource of an api as written. -/
structure ResourceRecord where
  range : SourceRange
  uriTemplate : Option String
  sequences : SequencesRecord

/-- The target of a proxy as written. -/
structure ProxyTargetRecord where
  range : SourceRange
  sequences : SequencesRecord

/-- An api as written. -/
structure ApiRecord where
  name : String
  range : SourceRange
  resources : List ResourceRecord

/-- A proxy as written. -/
structure ProxyRecord where
  name : String
  range : SourceRange
  target : Option ProxyTargetRecord

/-- A named sequence as written. -/
structure SequenceRecord where
  name : String
  range : SourceRange
  mediators : List (MediatorRecord FlowRecord)

/-- A template as written. -/
structure TemplateRecord where
  name : String
  range : SourceRange
  sequence : Option FlowRecord

/-- A document as written. -/
inductive ArtifactRecord where
  | api (record : ApiRecord)
  | proxy (record : ProxyRecord)
  | sequence (record : SequenceRecord)
  | template (record : TemplateRecord)

namespace MediatorRecord

variable {φ : Type}

def bare (node : Node String) : MediatorRecord φ :=
  { node, thenFlow := none, elseFlow := none, onAccept := none, onReject := none, cases := none
    default := none, advice := none, obligations := none, onCacheHit := none, onFail := none
    targets := none, target := none, sequence := none, onComplete := none }

/-- The names of the branches that are written, in the order of the format. -/
def declared (m : MediatorRecord φ) : List String :=
  [("then", m.thenFlow.isSome), ("else", m.elseFlow.isSome), ("onAccept", m.onAccept.isSome),
    ("onReject", m.onReject.isSome), ("cases", m.cases.isSome), ("default", m.default.isSome),
    ("advice", m.advice.isSome), ("obligations", m.obligations.isSome),
    ("onCacheHit", m.onCacheHit.isSome), ("onFail", m.onFail.isSome), ("targets", m.targets.isSome),
    ("target", m.target.isSome), ("sequence", m.sequence.isSome),
    ("onComplete", m.onComplete.isSome)].filterMap fun (name, isThere) =>
      if isThere then some name else none

end MediatorRecord

end Mediation
