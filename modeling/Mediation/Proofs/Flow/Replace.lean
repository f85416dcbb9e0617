import Mediation.Flow.Basic

/-! Mediators with everything in them replaced: their nodes, the regexes of their cases, and what they
nest. The kind of a mediator stays, with every case and every target in its place, so its branches and
its paths are those of the mediator, replaced one by one (`Kind.branches_replace`,
`Kind.slots?_replace`), and two replacements in a row are one (`Kind.replace_replace`). -/

namespace Mediation

variable {τ σ ρ φ ψ χ : Type}

def Case.replace (regex : Option String → Option String) (flow : φ → ψ) (c : Case φ) : Case ψ :=
  ⟨regex c.regex, c.flow.map flow⟩

def Target.replace (node : Node τ → Node σ) (flow : φ → ψ) (t : Target τ φ) : Target σ ψ :=
  ⟨node t.node, t.sequence.map flow⟩

namespace Kind

/-- The kind with other regexes and targets, and with other flows in its branches. -/
def replace (node : Node τ → Node σ) (regex : Option String → Option String) (flow : φ → ψ) :
    Kind τ φ → Kind σ ψ
  | simple => simple
  | filter thenFlow elseFlow => filter (thenFlow.map flow) (elseFlow.map flow)
  | throttle onAccept onReject => throttle (onAccept.map flow) (onReject.map flow)
  | switch cases default => switch (cases.map (·.replace regex flow)) (default.map flow)
  | entitlement onAccept onReject advice obligations =>
      entitlement (onAccept.map flow) (onReject.map flow) (advice.map flow) (obligations.map flow)
  | cache branch => cache (branch.map flow)
  | validate branch => validate (branch.map flow)
  | iterate target => iterate (target.map (·.replace node flow))
  | foreach branch => foreach (branch.map flow)
  | aggregate branch => aggregate (branch.map flow)
  | clone targets => clone (targets.map (·.replace node flow))
  | scatterGather targets => scatterGather (targets.map (·.replace node flow))

variable (node : Node τ → Node σ) (regex : Option String → Option String) (flow : φ → ψ)

theorem branches_replace (k : Kind τ φ) :
    (k.replace node regex flow).branches = k.branches.map flow := by
  cases k with
  | iterate target =>
      obtain _ | ⟨node, _ | branch⟩ := target <;> rfl
  | switch =>
      rw [replace, branches, branches, List.map_append, Option.toList_map, List.filterMap_map,
        List.map_filterMap]
      rfl
  | clone | scatterGather =>
      rw [replace, branches, branches, List.filterMap_map, List.map_filterMap]
      rfl
  | _ => simp [replace, branches, Option.toList_map]

theorem slots?_replace (k : Kind τ φ) :
    (k.replace node regex flow).slots? = k.slots?.map (·.map (·.map flow)) := by
  cases k with
  | iterate target =>
      obtain _ | ⟨node, _ | branch⟩ := target <;> rfl
  | switch | clone | scatterGather =>
      simp [replace, slots?, Case.replace, Target.replace, Function.comp_def]
  | _ => rfl

theorem replace_replace (node' : Node σ → Node ρ) (regex' : Option String → Option String)
    (flow' : ψ → χ) (k : Kind τ φ) :
    (k.replace node regex flow).replace node' regex' flow' =
      k.replace (node' ∘ node) (regex' ∘ regex) (flow' ∘ flow) := by
  cases k <;> simp [replace, Case.replace, Target.replace, Function.comp_def]

theorem replace_id (k : Kind τ φ) : k.replace id id id = k := by
  cases k <;> simp [replace, Case.replace, Target.replace]

end Kind

/-- The mediator with everything in it replaced. -/
def Mediator.replace (node : Node τ → Node σ) (regex : Option String → Option String) (flow : φ → ψ)
    (m : Mediator τ φ) : Mediator σ ψ :=
  ⟨node m.node, m.kind.replace node regex flow⟩

end Mediation
