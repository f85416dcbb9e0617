import Mediation.Artifact
import Mediation.Document.Finding

/-! The check of ranges. Stepping trusts the ranges of an artifact, so those that no element can
have are found here. A child that reaches out of its parent is noted too; positions in the child are
still found by its own range. -/

namespace Mediation

namespace Node

/-- The tags of the element that stop before they start. -/
def invertedTags (n : Node String) : List Finding :=
  (n.range.tags.filter (·.Inverted)).map (.invertedRange n)

/-- The end tag of the element starts before the start tag stops. -/
def misorderedTags (n : Node String) : List Finding :=
  match n.range with
  | .container startTag endTag =>
      if endTag.start < startTag.stop then [.misorderedTags n startTag endTag] else []
  | .selfClosed _ => []

/-- What is wrong with the element on its own. -/
def check (n : Node String) : List Finding := n.invertedTags ++ n.misorderedTags

/-- What is wrong with the element, also as a part of its parent. -/
def checkWithin (n parent : Node String) : List Finding :=
  n.check ++
    if ¬n.range.extent.Inverted ∧ ¬parent.range.extent.Encloses n.range.extent then
      [.childOutsideParent n parent]
    else []

end Node

namespace Flow

mutual

/-- The findings on a flow and all that is nested in it. -/
def check (parent : Node String) : Flow String → List Finding
  | ⟨node, mediators⟩ => node.checkWithin parent ++ checkMediators node mediators
termination_by structural f => f

def checkMediators (parent : Node String) : List (Mediator String (Flow String)) → List Finding
  | [] => []
  | m :: rest => checkMediator parent m ++ checkMediators parent rest
termination_by structural ms => ms

def checkMediator (parent : Node String) : Mediator String (Flow String) → List Finding
  | ⟨node, kind⟩ => node.checkWithin parent ++ checkKind node kind
termination_by structural m => m

def checkKind (node : Node String) : Kind String (Flow String) → List Finding
  | .simple => []
  | .filter thenFlow elseFlow => checkBranch node thenFlow ++ checkBranch node elseFlow
  | .throttle onAccept onReject => checkBranch node onAccept ++ checkBranch node onReject
  | .switch cases default => checkCases node cases ++ checkBranch node default
  | .entitlement onAccept onReject advice obligations =>
      checkBranch node onAccept ++ checkBranch node onReject ++ checkBranch node advice ++
        checkBranch node obligations
  | .cache branch | .validate branch | .foreach branch | .aggregate branch =>
    checkBranch node branch
  | .iterate target => checkTarget? node target
  | .clone targets | .scatterGather targets => checkTargets node targets
termination_by structural k => k

def checkBranch (parent : Node String) : Option (Flow String) → List Finding
  | none => []
  | some f => check parent f
termination_by structural f => f

def checkCases (parent : Node String) : List (Case (Flow String)) → List Finding
  | [] => []
  | c :: rest => checkCase parent c ++ checkCases parent rest
termination_by structural cases => cases

def checkCase (parent : Node String) : Case (Flow String) → List Finding
  | ⟨_, flow⟩ => checkBranch parent flow
termination_by structural c => c

def checkTarget? (parent : Node String) : Option (Target String (Flow String)) → List Finding
  | none => []
  | some t => checkTarget parent t
termination_by structural t => t

def checkTargets (parent : Node String) : List (Target String (Flow String)) → List Finding
  | [] => []
  | t :: rest => checkTarget parent t ++ checkTargets parent rest
termination_by structural targets => targets

/-- A target is a part of its mediator, and the sequence in it is a part of the target. -/
def checkTarget (parent : Node String) : Target String (Flow String) → List Finding
  | ⟨node, sequence⟩ => node.checkWithin parent ++ checkBranch node sequence
termination_by structural t => t

end

end Flow

namespace Sequences

/-- The findings on the sequences of an element. -/
def check (parent : Node String) (s : Sequences String) : List Finding :=
  s.toList.flatMap (Flow.check parent)

end Sequences

namespace Artifact

/-- The findings on an artifact, in document order. -/
def check : Artifact String → List Finding
  | api _ node resources =>
      node.check ++ resources.flatMap fun r =>
        r.node.checkWithin node ++ r.sequences.check r.node
  | proxy _ node target =>
      node.check ++ target.toList.flatMap fun t =>
        t.node.checkWithin node ++ t.sequences.check t.node
  | sequence _ body => body.node.check ++ Flow.checkMediators body.node body.mediators
  | template _ node body => node.check ++ body.toList.flatMap (Flow.check node)

end Artifact

end Mediation
