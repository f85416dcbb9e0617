import Mediation.Diagnostic
import Mediation.Flow.Basic

/-! What there is to say about a document whose text is in order: oddities in its structure and
ranges that no element can have. Findings are made with the elements they are about; their wording
is here. -/

namespace Mediation

/-- Something to be said about an element. -/
inductive Finding where
  /-- A branch of a mediator has no mediators. -/
  | emptyBranch (branch owner : Node String)
  /-- A mediator has a tag that no mediator is known by. -/
  | unknownMediator (node : Node String)
  /-- A mediator is written with a branch that its tag does not provide for. -/
  | unsupportedBranch (node : Node String) (branch : String)
  /-- A tag stops before it starts. -/
  | invertedRange (node : Node String) (tag : TagRange)
  /-- The end tag starts before the start tag stops. -/
  | misorderedTags (node : Node String) (startTag endTag : TagRange)
  /-- An element reaches out of the one that holds it. -/
  | childOutsideParent (child parent : Node String)
  deriving DecidableEq, Repr

namespace Finding

def code : Finding → DiagnosticCode
  | emptyBranch .. => .emptyBranch
  | unknownMediator _ => .unknownMediator
  | unsupportedBranch .. => .unsupportedBranch
  | invertedRange .. => .invertedRange
  | misorderedTags .. => .misorderedTags
  | childOutsideParent .. => .childOutsideParent

/-- Only ranges that no element can have keep a document from being loaded. -/
def severity : Finding → Severity
  | invertedRange .. | misorderedTags .. => .error
  | emptyBranch .. | unknownMediator _ | unsupportedBranch .. | childOutsideParent .. => .warning

def tagText (node : Node String) : String := "`" ++ node.tag ++ "`"

def message : Finding → String
  | emptyBranch branch owner =>
      tagText branch ++ " of " ++ tagText owner ++ " at " ++ toString owner.head ++
        " has no mediators"
  | unknownMediator node => "unknown mediator " ++ tagText node ++ " at " ++ toString node.head
  | unsupportedBranch node branch =>
      tagText node ++ " at " ++ toString node.head ++ " has no `" ++ branch ++ "` branch"
  | invertedRange node tag => tagText node ++ " has an inverted range " ++ toString tag
  | misorderedTags node startTag endTag =>
      "end tag of " ++ tagText node ++ " at " ++ toString endTag.start ++
        " begins before its start tag ends at " ++ toString startTag.stop
  | childOutsideParent child parent =>
      tagText child ++ " at " ++ toString child.range ++ " is outside its parent " ++
        tagText parent ++ " at " ++ toString parent.range

def help? : Finding → Option String
  | emptyBranch .. => some "remove the empty element or add mediators to it"
  | unknownMediator _ => some "it is stepped over as a mediator without nested flows"
  | unsupportedBranch .. => some "the branch is ignored"
  | invertedRange .. => some "a range must not end before it starts"
  | misorderedTags .. => none
  | childOutsideParent .. => some "breakpoints inside it may not be found"

def diagnostic (f : Finding) : Diagnostic :=
  { severity := f.severity, message := f.message, code := some f.code, help := f.help? }

end Finding

/-- A value, and what was found on the way to it, in the order it was found. -/
structure Noted (α : Type) where
  value : α
  findings : List Finding

namespace Noted

variable {α β : Type}

instance : Monad Noted where
  pure a := ⟨a, []⟩
  bind x f :=
    let y := f x.value
    ⟨y.value, x.findings ++ y.findings⟩

def note (f : Finding) : Noted Unit := ⟨(), [f]⟩

@[simp] theorem value_pure (a : α) : (pure a : Noted α).value = a := rfl

@[simp] theorem findings_pure (a : α) : (pure a : Noted α).findings = [] := rfl

@[simp] theorem value_bind (x : Noted α) (f : α → Noted β) :
    (x >>= f).value = (f x.value).value := rfl

@[simp] theorem findings_bind (x : Noted α) (f : α → Noted β) :
    (x >>= f).findings = x.findings ++ (f x.value).findings := rfl

end Noted

end Mediation
