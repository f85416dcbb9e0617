import Mediation.Flow.Equality

/-! Artifacts: the top-level documents a breakpoint is set in. Each kind of artifact holds its root
flows differently, and so each has a rule of its own for which root flows a position steps through
(`Artifact.flowsAt`). -/

namespace Mediation

/-- The three sequences of a resource or of a proxy's target. -/
structure Sequences (τ : Type) where
  inSequence : Option (Flow τ)
  outSequence : Option (Flow τ)
  faultSequence : Option (Flow τ)
  deriving DecidableEq

/-- A resource of an api. -/
structure Resource (τ : Type) where
  node : Node τ
  uriTemplate : Option String
  sequences : Sequences τ
  deriving DecidableEq

/-- The target of a proxy. -/
structure ProxyTarget (τ : Type) where
  node : Node τ
  sequences : Sequences τ
  deriving DecidableEq

/-- A top-level document. The node of a named sequence is that of its body. -/
inductive Artifact (τ : Type) where
  | api (name : String) (node : Node τ) (resources : List (Resource τ))
  | proxy (name : String) (node : Node τ) (target : Option (ProxyTarget τ))
  | sequence (name : String) (body : Flow τ)
  | template (name : String) (node : Node τ) (body : Option (Flow τ))
  deriving DecidableEq

/-- The four kinds of artifact. -/
inductive ArtifactKind where
  | api
  | proxy
  | sequence
  | template
  deriving DecidableEq, Repr

namespace ArtifactKind

def name : ArtifactKind → String
  | api => "api"
  | proxy => "proxy"
  | sequence => "sequence"
  | template => "template"

/-- The kinds in the order messages list them. -/
def all : List ArtifactKind := [api, proxy, sequence, template]

def ofName? (name : String) : Option ArtifactKind := all.find? (·.name = name)

end ArtifactKind

namespace Sequences

variable {τ : Type}

/-- The sequences that are there: in, out, fault. -/
def toList (s : Sequences τ) : List (Flow τ) :=
  s.inSequence.toList ++ s.outSequence.toList ++ s.faultSequence.toList

/-- An api runs one sequence of a resource: the first that contains the position. -/
def apiFlowsAt (s : Sequences τ) (p : Position) : List (Flow τ) :=
  (s.toList.find? (p ∈ ·)).toList

/-- A proxy runs its in and out sequences as one, so stepping off the end of the first lands on the
head of the second; its fault sequence runs on its own. -/
def proxyFlowsAt (s : Sequences τ) (p : Position) : List (Flow τ) :=
  if (s.inSequence.any (p ∈ ·)) || (s.outSequence.any (p ∈ ·)) then
    s.inSequence.toList ++ s.outSequence.toList
  else
    s.faultSequence.toList.filter (p ∈ ·)

end Sequences

namespace Artifact

variable {τ : Type}

def kind : Artifact τ → ArtifactKind
  | api .. => .api
  | proxy .. => .proxy
  | sequence .. => .sequence
  | template .. => .template

def name : Artifact τ → String
  | api name .. | proxy name .. | sequence name _ | template name .. => name

/-- The flows that are nested in no mediator, in document order. -/
def rootFlows : Artifact τ → List (Flow τ)
  | api _ _ resources => resources.flatMap (·.sequences.toList)
  | proxy _ _ target => target.toList.flatMap (·.sequences.toList)
  | sequence _ body => [body]
  | template _ _ body => body.toList

/-- All flows at any depth, each root flow directly followed by the flows nested in it. -/
def flows (a : Artifact τ) : List (Flow τ) := a.rootFlows.flatMap (·.withNested)

/-- The root flows that a position steps through, in the order control takes them. -/
def flowsAt (a : Artifact τ) (p : Position) : List (Flow τ) :=
  match a with
  | api _ _ resources =>
      match resources.find? (p ∈ ·.node.range) with
      | some resource => resource.sequences.apiFlowsAt p
      | none => []
  | proxy _ _ target => target.toList.flatMap (·.sequences.proxyFlowsAt p)
  | sequence _ body => [body].filter (p ∈ ·)
  | template _ _ body => body.toList.filter (p ∈ ·)

end Artifact

end Mediation
