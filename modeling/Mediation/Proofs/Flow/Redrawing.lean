import Mediation.Artifact
import Mediation.Proofs.Flow.Replace

/-! Artifacts drawn anew: every position goes to another one, and tags, names, regexes and uri
templates may become others. Kinds stay, and so does what nests what. A redrawing goes through the
tree with one function for each type that stands between a flow and the flows it nests; taken
together these replace each flow where it stands (`Flow.redrawMediator_eq`). -/

namespace Mediation

/-- Where positions go, and what tags and texts become. -/
structure Redrawing (τ σ : Type) where
  position : Position → Position
  tag : τ → σ
  name : String → String
  regex : Option String → Option String
  uriTemplate : Option String → Option String

def TagRange.map (f : Position → Position) (r : TagRange) : TagRange := ⟨f r.start, f r.stop⟩

namespace SourceRange

def map (f : Position → Position) : SourceRange → SourceRange
  | selfClosed tag => selfClosed (tag.map f)
  | container startTag endTag => container (startTag.map f) (endTag.map f)

variable (f : Position → Position) (r : SourceRange)

@[simp] theorem startTag_map : (r.map f).startTag = r.startTag.map f := by cases r <;> rfl

@[simp] theorem start_map : (r.map f).start = f r.start := by cases r <;> rfl

@[simp] theorem stop_map : (r.map f).stop = f r.stop := by cases r <;> rfl

end SourceRange

variable {τ σ : Type}

namespace Redrawing

/-- An element, redrawn. -/
def node (e : Redrawing τ σ) (n : Node τ) : Node σ := ⟨e.tag n.tag, n.range.map e.position⟩

/-- Lines go to other lines, and nothing else changes. -/
def moveLines (lines : UInt32 → UInt32) : Redrawing τ τ where
  position q := ⟨lines q.line, q.column⟩
  tag := id
  name := id
  regex := id
  uriTemplate := id

/-- Nothing is left but kinds and ranges. -/
def forget : Redrawing τ Unit where
  position := id
  tag _ := ()
  name _ := ""
  regex _ := none
  uriTemplate _ := none

end Redrawing

namespace Flow

variable (e : Redrawing τ σ)

mutual

/-- The flow with all that is nested in it, redrawn. -/
def redraw : Flow τ → Flow σ
  | ⟨node, mediators⟩ => ⟨e.node node, redrawMediators mediators⟩
termination_by structural f => f

def redrawMediators : List (Mediator τ (Flow τ)) → List (Mediator σ (Flow σ))
  | [] => []
  | m :: rest => redrawMediator m :: redrawMediators rest
termination_by structural ms => ms

def redrawMediator : Mediator τ (Flow τ) → Mediator σ (Flow σ)
  | ⟨node, kind⟩ => ⟨e.node node, redrawKind kind⟩
termination_by structural m => m

def redrawKind : Kind τ (Flow τ) → Kind σ (Flow σ)
  | .simple => .simple
  | .filter thenFlow elseFlow => .filter (redrawBranch thenFlow) (redrawBranch elseFlow)
  | .throttle onAccept onReject => .throttle (redrawBranch onAccept) (redrawBranch onReject)
  | .switch cases default => .switch (redrawCases cases) (redrawBranch default)
  | .entitlement onAccept onReject advice obligations =>
      .entitlement (redrawBranch onAccept) (redrawBranch onReject) (redrawBranch advice)
        (redrawBranch obligations)
  | .cache branch => .cache (redrawBranch branch)
  | .validate branch => .validate (redrawBranch branch)
  | .iterate target => .iterate (redrawTarget? target)
  | .foreach branch => .foreach (redrawBranch branch)
  | .aggregate branch => .aggregate (redrawBranch branch)
  | .clone targets => .clone (redrawTargets targets)
  | .scatterGather targets => .scatterGather (redrawTargets targets)
termination_by structural k => k

def redrawBranch : Option (Flow τ) → Option (Flow σ)
  | none => none
  | some f => some (redraw f)
termination_by structural f => f

def redrawCases : List (Case (Flow τ)) → List (Case (Flow σ))
  | [] => []
  | c :: rest => redrawCase c :: redrawCases rest
termination_by structural cases => cases

def redrawCase : Case (Flow τ) → Case (Flow σ)
  | ⟨regex, flow⟩ => ⟨e.regex regex, redrawBranch flow⟩
termination_by structural c => c

def redrawTarget? : Option (Target τ (Flow τ)) → Option (Target σ (Flow σ))
  | none => none
  | some t => some (redrawTarget t)
termination_by structural t => t

def redrawTargets : List (Target τ (Flow τ)) → List (Target σ (Flow σ))
  | [] => []
  | t :: rest => redrawTarget t :: redrawTargets rest
termination_by structural targets => targets

def redrawTarget : Target τ (Flow τ) → Target σ (Flow σ)
  | ⟨node, sequence⟩ => ⟨e.node node, redrawBranch sequence⟩
termination_by structural t => t

end

theorem redrawBranch_eq (branch : Option (Flow τ)) :
    redrawBranch e branch = branch.map (redraw e) := by
  cases branch <;> rfl

theorem redrawCases_eq (cases : List (Case (Flow τ))) :
    redrawCases e cases = cases.map (·.replace e.regex (redraw e)) := by
  induction cases with
  | nil => rfl
  | cons c rest ih =>
      obtain ⟨regex, flow⟩ := c
      rw [redrawCases, redrawCase, redrawBranch_eq, ih, List.map_cons, Case.replace]

theorem redrawTarget_eq (t : Target τ (Flow τ)) : redrawTarget e t = t.replace e.node (redraw e) := by
  obtain ⟨node, sequence⟩ := t
  rw [redrawTarget, redrawBranch_eq, Target.replace]

theorem redrawTarget?_eq (target : Option (Target τ (Flow τ))) :
    redrawTarget? e target = target.map (·.replace e.node (redraw e)) := by
  cases target with
  | none => rfl
  | some t => rw [redrawTarget?, redrawTarget_eq, Option.map_some]

theorem redrawTargets_eq (targets : List (Target τ (Flow τ))) :
    redrawTargets e targets = targets.map (·.replace e.node (redraw e)) := by
  induction targets with
  | nil => rfl
  | cons t rest ih => rw [redrawTargets, redrawTarget_eq, ih, List.map_cons]

theorem redrawMediator_eq (m : Mediator τ (Flow τ)) :
    redrawMediator e m = m.replace e.node e.regex (redraw e) := by
  obtain ⟨node, kind⟩ := m
  rw [redrawMediator, Mediator.replace]
  cases kind <;> simp only [redrawKind, Kind.replace, redrawBranch_eq, redrawCases_eq,
    redrawTarget?_eq, redrawTargets_eq]

theorem redrawMediators_eq (ms : List (Mediator τ (Flow τ))) :
    redrawMediators e ms = ms.map (redrawMediator e) := by
  induction ms with
  | nil => rfl
  | cons m rest ih => rw [redrawMediators, ih, List.map_cons]

@[simp] theorem node_redraw (f : Flow τ) : (f.redraw e).node = e.node f.node := by cases f; rfl

@[simp] theorem mediators_redraw (f : Flow τ) :
    (f.redraw e).mediators = f.mediators.map (redrawMediator e) := by
  obtain ⟨node, mediators⟩ := f
  exact redrawMediators_eq e mediators

@[simp] theorem node_redrawMediator (m : Mediator τ (Flow τ)) :
    (redrawMediator e m).node = e.node m.node := by
  cases m; rfl

@[simp] theorem branches_redrawMediator (m : Mediator τ (Flow τ)) :
    (redrawMediator e m).branches = m.branches.map (redraw e) := by
  rw [redrawMediator_eq]
  exact Kind.branches_replace _ _ _ _

@[simp] theorem slots?_redrawMediator (m : Mediator τ (Flow τ)) :
    (redrawMediator e m).kind.slots? = m.kind.slots?.map (·.map (·.map (redraw e))) := by
  rw [redrawMediator_eq]
  exact Kind.slots?_replace _ _ _ _

@[simp] theorem head_redrawMediator (m : Mediator τ (Flow τ)) :
    (redrawMediator e m).head = e.position m.head := by
  rw [Mediator.head, Node.head, node_redrawMediator]
  exact SourceRange.start_map _ _

@[simp] theorem head?_redraw (f : Flow τ) : (f.redraw e).head? = f.head?.map e.position := by
  rw [head?, head?, mediators_redraw, List.head?_map, Option.map_map, Option.map_map]
  exact congrArg (Option.map · _) (funext fun m => head_redrawMediator e m)

end Flow

def Sequences.redraw (e : Redrawing τ σ) (s : Sequences τ) : Sequences σ where
  inSequence := s.inSequence.map (Flow.redraw e)
  outSequence := s.outSequence.map (Flow.redraw e)
  faultSequence := s.faultSequence.map (Flow.redraw e)

theorem Sequences.toList_redraw (e : Redrawing τ σ) (s : Sequences τ) :
    (s.redraw e).toList = s.toList.map (Flow.redraw e) := by
  simp only [toList, redraw, Option.toList_map, List.map_append]

def Resource.redraw (e : Redrawing τ σ) (r : Resource τ) : Resource σ :=
  ⟨e.node r.node, e.uriTemplate r.uriTemplate, r.sequences.redraw e⟩

def ProxyTarget.redraw (e : Redrawing τ σ) (t : ProxyTarget τ) : ProxyTarget σ :=
  ⟨e.node t.node, t.sequences.redraw e⟩

namespace Artifact

/-- The artifact with all its elements, redrawn. -/
def redraw (e : Redrawing τ σ) : Artifact τ → Artifact σ
  | api name node resources => api (e.name name) (e.node node) (resources.map (·.redraw e))
  | proxy name node target => proxy (e.name name) (e.node node) (target.map (·.redraw e))
  | sequence name body => sequence (e.name name) (body.redraw e)
  | template name node body => template (e.name name) (e.node node) (body.map (Flow.redraw e))

/-- Kinds and ranges, and what nests what. -/
def outline (a : Artifact τ) : Artifact Unit := a.redraw .forget

end Artifact

end Mediation
