import Mediation.Artifact
import Mediation.Document.Finding
import Mediation.Document.Record

/-! Elaboration: the artifact that a document describes. The tag of a mediator decides which of its
branches mean something; the others are noted and left out, and so is a branch without mediators.

The layer of a mediator is elaborated over branches that have been elaborated already
(`MediatorRecord.elaborate`); what was found in a branch counts only if the branch is used. The
recursion through flows adds nothing to that. -/

namespace Mediation

def simpleMediators : List String :=
  ["log", "send", "property", "propertyGroup", "header", "drop", "call", "callout", "respond",
    "loopback", "payloadFactory", "enrich", "xslt", "fastXSLT", "xquery", "script", "class",
    "pojoCommand", "bean", "ejb", "dblookup", "dbreport", "event", "smooks", "store", "transaction",
    "builder", "rule", "publishEvent", "ntlm", "datamapper", "jsontransform", "call-template",
    "sequence", "enqueue", "makefault", "rewrite", "spring", "oauthService", "conditionalRouter",
    "dataServiceCall"]

/-- The branches that a mediator with the tag may be written with. -/
def supportedBranches : String → List String
  | "filter" => ["then", "else"]
  | "throttle" => ["onAccept", "onReject"]
  | "switch" => ["cases", "default"]
  | "entitlementService" => ["onAccept", "onReject", "advice", "obligations"]
  | "cache" => ["onCacheHit"]
  | "validate" => ["onFail"]
  | "iterate" => ["target"]
  | "foreach" => ["sequence"]
  | "aggregate" => ["onComplete"]
  | "clone" | "scatter-gather" => ["targets"]
  | _ => []

abbrev NotedFlow : Type := Noted (Flow String)

/-- A flow that is nested in an element; nothing if it has no mediators. -/
def NotedFlow.nonEmpty (owner : Node String) (flow : NotedFlow) : Noted (Option (Flow String)) := do
  let flow ← flow
  if flow.isEmpty then
    Noted.note (.emptyBranch flow.node owner)
    pure none
  else pure (some flow)

namespace MediatorRecord

/-- The branches that are written and mean nothing. -/
def unsupported {φ : Type} (m : MediatorRecord φ) : List String :=
  m.declared.filter (· ∉ supportedBranches m.node.tag)

def branch (owner : Node String) : Option NotedFlow → Noted (Option (Flow String))
  | none => pure none
  | some flow => flow.nonEmpty owner

def case (owner : Node String) (c : CaseRecord NotedFlow) : Noted (Case (Flow String)) := do
  return ⟨c.regex, ← c.flow.nonEmpty owner⟩

/-- A fan-out target. Its sequence is nested in the target. -/
def fanOutTarget (t : Target String NotedFlow) : Noted (Target String (Flow String)) := do
  return ⟨t.node, ← branch t.node t.sequence⟩

/-- What a mediator of its tag makes of its branches. -/
def elaborateKind (m : MediatorRecord NotedFlow) : Noted (Kind String (Flow String)) :=
  let branch := branch m.node
  match m.node.tag with
  | "filter" => return .filter (← branch m.thenFlow) (← branch m.elseFlow)
  | "throttle" => return .throttle (← branch m.onAccept) (← branch m.onReject)
  | "switch" => return .switch (← (m.cases.getD []).mapM (case m.node)) (← branch m.default)
  | "entitlementService" =>
      return .entitlement (← branch m.onAccept) (← branch m.onReject) (← branch m.advice)
        (← branch m.obligations)
  | "cache" => return .cache (← branch m.onCacheHit)
  | "validate" => return .validate (← branch m.onFail)
  | "iterate" => return .iterate (← m.target.mapM fanOutTarget)
  | "foreach" => return .foreach (← branch m.sequence)
  | "aggregate" => return .aggregate (← branch m.onComplete)
  | "clone" => return .clone (← (m.targets.getD []).mapM fanOutTarget)
  | "scatter-gather" => return .scatterGather (← (m.targets.getD []).mapM fanOutTarget)
  | tag => do
    if tag ∉ simpleMediators then
      Noted.note (.unknownMediator m.node)
    pure .simple

/-- A mediator. The branches that mean nothing are noted first. -/
def elaborate (m : MediatorRecord NotedFlow) : Noted (Mediator String (Flow String)) := do
  m.unsupported.forM fun branch => Noted.note (.unsupportedBranch m.node branch)
  return ⟨m.node, ← m.elaborateKind⟩

end MediatorRecord

namespace FlowRecord

mutual

/-- A flow and all that is nested in it. -/
def elaborate : FlowRecord → NotedFlow
  | ⟨node, mediators⟩ => do return ⟨node, ← elaborateMediators mediators⟩
termination_by structural f => f

def elaborateMediators :
    List (MediatorRecord FlowRecord) → Noted (List (Mediator String (Flow String)))
  | [] => pure []
  | m :: rest => do return (← (elaborateBranches m).elaborate) :: (← elaborateMediators rest)
termination_by structural ms => ms

/-- The mediator with every branch elaborated, whether or not it is used. -/
def elaborateBranches : MediatorRecord FlowRecord → MediatorRecord NotedFlow
  | ⟨node, thenFlow, elseFlow, onAccept, onReject, cases, default, advice, obligations, onCacheHit,
      onFail, targets, target, sequence, onComplete⟩ =>
    ⟨node, elaborateBranch thenFlow, elaborateBranch elseFlow, elaborateBranch onAccept,
      elaborateBranch onReject, elaborateCases? cases, elaborateBranch default,
      elaborateBranch advice, elaborateBranch obligations, elaborateBranch onCacheHit,
      elaborateBranch onFail, elaborateTargets? targets, elaborateTarget? target,
      elaborateBranch sequence, elaborateBranch onComplete⟩
termination_by structural m => m

def elaborateBranch : Option FlowRecord → Option NotedFlow
  | none => none
  | some f => some (elaborate f)
termination_by structural f => f

def elaborateCases? : Option (List (CaseRecord FlowRecord)) → Option (List (CaseRecord NotedFlow))
  | none => none
  | some cases => some (elaborateCases cases)
termination_by structural cases => cases

def elaborateCases : List (CaseRecord FlowRecord) → List (CaseRecord NotedFlow)
  | [] => []
  | c :: rest => elaborateCase c :: elaborateCases rest
termination_by structural cases => cases

def elaborateCase : CaseRecord FlowRecord → CaseRecord NotedFlow
  | ⟨regex, flow⟩ => ⟨regex, elaborate flow⟩
termination_by structural c => c

def elaborateTargets? :
    Option (List (Target String FlowRecord)) → Option (List (Target String NotedFlow))
  | none => none
  | some targets => some (elaborateTargets targets)
termination_by structural targets => targets

def elaborateTargets : List (Target String FlowRecord) → List (Target String NotedFlow)
  | [] => []
  | t :: rest => elaborateTarget t :: elaborateTargets rest
termination_by structural targets => targets

def elaborateTarget? : Option (Target String FlowRecord) → Option (Target String NotedFlow)
  | none => none
  | some t => some (elaborateTarget t)
termination_by structural t => t

def elaborateTarget : Target String FlowRecord → Target String NotedFlow
  | ⟨node, sequence⟩ => ⟨node, elaborateBranch sequence⟩
termination_by structural t => t

end

end FlowRecord

/-- The sequences of a resource or of a proxy's target; they may be empty. -/
def SequencesRecord.elaborate (s : SequencesRecord) : Noted (Sequences String) := do
  return {
    inSequence := ← s.inSequence.mapM (·.elaborate)
    outSequence := ← s.outSequence.mapM (·.elaborate)
    faultSequence := ← s.faultSequence.mapM (·.elaborate) }

def ResourceRecord.elaborate (r : ResourceRecord) : Noted (Resource String) := do
  return ⟨⟨"resource", r.range⟩, r.uriTemplate, ← r.sequences.elaborate⟩

def ProxyTargetRecord.elaborate (t : ProxyTargetRecord) : Noted (ProxyTarget String) := do
  return ⟨⟨"target", t.range⟩, ← t.sequences.elaborate⟩

def ArtifactRecord.elaborate : ArtifactRecord → Noted (Artifact String)
  | api r => do return .api r.name ⟨"api", r.range⟩ (← r.resources.mapM (·.elaborate))
  | proxy r => do return .proxy r.name ⟨"proxy", r.range⟩ (← r.target.mapM (·.elaborate))
  | sequence r => do
    return .sequence r.name ⟨⟨"sequence", r.range⟩, ← FlowRecord.elaborateMediators r.mediators⟩
  | template r => do
    return .template r.name ⟨"template", r.range⟩ (← r.sequence.mapM (·.elaborate))

end Mediation
