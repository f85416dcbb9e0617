import Mediation.SourceRange

/-! Flows, mediators and the ways a mediator nests flows. A flow is a list of mediators in document
order, which is also the order they run in as long as none of them branches. A branching mediator
owns the flows it nests.

The layer of a mediator is written once, over the type `φ` of what it nests (`Case`, `Target`,
`Kind`, `Mediator`), and `Flow` closes the recursion. So what holds of one mediator and its branches
needs no induction. Tags are of any type `τ`: nothing but the text of diagnostics looks into one. -/

namespace Mediation

/-- An element of the markup: its tag and where it stands. -/
structure Node (τ : Type) where
  tag : τ
  range : SourceRange
  deriving DecidableEq, Repr

/-- The head of an element is where a debugger halts before it. -/
def Node.head {τ : Type} (n : Node τ) : Position := n.range.start

/-- One case of a switch. -/
structure Case (φ : Type) where
  regex : Option String
  flow : Option φ
  deriving DecidableEq

/-- A fan-out target, with a sequence of its own or a mere reference to a sequence elsewhere. -/
structure Target (τ φ : Type) where
  node : Node τ
  sequence : Option φ
  deriving DecidableEq

/-- What a mediator does with the message, as far as stepping is concerned: which flows it nests. -/
inductive Kind (τ φ : Type) where
  | simple
  | filter (thenFlow elseFlow : Option φ)
  | throttle (onAccept onReject : Option φ)
  | switch (cases : List (Case φ)) (default : Option φ)
  | entitlement (onAccept onReject advice obligations : Option φ)
  | cache (onCacheHit : Option φ)
  | validate (onFail : Option φ)
  | iterate (target : Option (Target τ φ))
  | foreach (body : Option φ)
  | aggregate (onComplete : Option φ)
  | clone (targets : List (Target τ φ))
  | scatterGather (targets : List (Target τ φ))
  deriving DecidableEq

/-- An element of a flow. -/
structure Mediator (τ φ : Type) where
  node : Node τ
  kind : Kind τ φ
  deriving DecidableEq

/-- Mediators in document order, within the element that holds them. -/
structure Flow (τ : Type) where
  node : Node τ
  mediators : List (Mediator τ (Flow τ))

/-- How the branches of a mediator relate to each other. -/
inductive Shape where
  | simple
  | singleBranch
  | dualBranch
  | multiBranch
  | fanOutBranch
  | singleBodyLoop
  | aggregateBranch
  deriving DecidableEq, Repr

namespace Kind

variable {τ φ : Type}

def shape : Kind τ φ → Shape
  | simple => .simple
  | filter .. | throttle .. => .dualBranch
  | switch .. | entitlement .. => .multiBranch
  | cache _ | validate _ => .singleBranch
  | iterate _ | foreach _ => .singleBodyLoop
  | aggregate _ => .aggregateBranch
  | clone _ | scatterGather _ => .fanOutBranch

/-- The flows a mediator of this kind nests, in document order. -/
def branches : Kind τ φ → List φ
  | simple => []
  | filter thenFlow elseFlow => thenFlow.toList ++ elseFlow.toList
  | throttle onAccept onReject => onAccept.toList ++ onReject.toList
  | switch cases default => cases.filterMap (·.flow) ++ default.toList
  | entitlement onAccept onReject advice obligations =>
      onAccept.toList ++ onReject.toList ++ advice.toList ++ obligations.toList
  | cache branch | validate branch | foreach branch | aggregate branch => branch.toList
  | iterate target => target.toList.filterMap (·.sequence)
  | clone targets | scatterGather targets => targets.filterMap (·.sequence)

/-- The paths control may take out of a mediator of this kind, one slot a path, with the flow that
runs there; a path without a flow leads past the mediator. The default of a switch is tried first.
A simple mediator has no paths to choose from. -/
def slots? : Kind τ φ → Option (List (Option φ))
  | simple => none
  | filter thenFlow elseFlow => some [thenFlow, elseFlow]
  | throttle onAccept onReject => some [onAccept, onReject]
  | switch cases default => some (default :: cases.map (·.flow))
  | entitlement onAccept onReject advice obligations =>
      some [onAccept, onReject, advice, obligations]
  | cache branch | validate branch | foreach branch | aggregate branch => some [branch]
  | iterate target => some [target.bind (·.sequence)]
  | clone targets | scatterGather targets => some (targets.map (·.sequence))

/-- What a mediator nests stands in its slots. -/
theorem mem_branches_iff_of_slots? {k : Kind τ φ} {slots : List (Option φ)}
    (h : k.slots? = some slots) {c : φ} :
    c ∈ k.branches ↔ some c ∈ slots := by
  cases k <;> simp only [slots?, Option.some.injEq, reduceCtorEq] at h <;> subst h
  case iterate target => cases target <;> simp [branches, eq_comm]
  all_goals simp [branches, eq_comm, or_comm]

theorem sizeOf_lt_of_mem_branches [SizeOf τ] [SizeOf φ] {k : Kind τ φ} {c : φ}
    (hc : c ∈ k.branches) :
    sizeOf c < sizeOf k := by
  have htarget : ∀ ts : List (Target τ φ),
      c ∈ ts.filterMap (·.sequence) → sizeOf c < sizeOf ts := by
    intro ts h
    simp only [List.mem_filterMap] at h
    obtain ⟨⟨node, sequence⟩, hmem, hseq⟩ := h
    have hlt := List.sizeOf_lt_of_mem hmem
    simp only at hseq
    subst hseq
    simp at hlt
    omega
  have hcase : ∀ cs : List (Case φ), c ∈ cs.filterMap (·.flow) → sizeOf c < sizeOf cs := by
    intro cs h
    simp only [List.mem_filterMap] at h
    obtain ⟨⟨regex, flow⟩, hmem, hflow⟩ := h
    have hlt := List.sizeOf_lt_of_mem hmem
    simp only at hflow
    subst hflow
    simp at hlt
    omega
  cases k with
  | simple => simp [branches] at hc
  | filter | throttle =>
      simp only [branches, List.mem_append, Option.mem_toList] at hc
      rcases hc with rfl | rfl <;> simp +arith
  | entitlement =>
      simp only [branches, List.mem_append, Option.mem_toList] at hc
      rcases hc with ((rfl | rfl) | rfl) | rfl <;> simp +arith
  | cache | validate | foreach | aggregate =>
      simp only [branches, Option.mem_toList] at hc
      subst hc
      simp +arith
  | switch cases default =>
      simp only [branches, List.mem_append, Option.mem_toList] at hc
      rcases hc with h | rfl
      · have := hcase cases h
        simp
        omega
      · simp +arith
  | iterate target =>
      cases target with
      | none => simp [branches] at hc
      | some target =>
          obtain ⟨node, sequence⟩ := target
          simp only [branches, Option.toList_some, List.mem_filterMap, List.mem_singleton,
            exists_eq_left] at hc
          subst hc
          simp +arith
  | clone targets | scatterGather targets =>
      have := htarget targets hc
      simp
      omega

end Kind

namespace Mediator

variable {τ φ : Type}

/-- Where a debugger halts before the mediator runs. -/
def head (m : Mediator τ φ) : Position := m.node.head

instance : Membership Position (Mediator τ φ) where
  mem m p := p ∈ m.node.range

instance (p : Position) (m : Mediator τ φ) : Decidable (p ∈ m) :=
  inferInstanceAs (Decidable (p ∈ m.node.range))

/-- The flows the mediator nests, in document order. -/
def branches (m : Mediator τ φ) : List φ := m.kind.branches

/-- Every mediator but a simple one may branch, whether or not it nests a flow. -/
def isBranching (m : Mediator τ φ) : Bool := m.kind.slots?.isSome

end Mediator

namespace Flow

variable {τ : Type}

instance : Membership Position (Flow τ) where
  mem f p := p ∈ f.node.range

instance (p : Position) (f : Flow τ) : Decidable (p ∈ f) :=
  inferInstanceAs (Decidable (p ∈ f.node.range))

def isEmpty (f : Flow τ) : Bool := f.mediators.isEmpty

def head? (f : Flow τ) : Option Position := f.mediators.head?.map (·.head)

/-- The flows nested directly in the mediators of this one, in document order. -/
def nested (f : Flow τ) : List (Flow τ) := f.mediators.flatMap (·.branches)

theorem sizeOf_mediators_lt (f : Flow τ) : sizeOf f.mediators < sizeOf f := by
  obtain ⟨node, mediators⟩ := f
  simp +arith

theorem sizeOf_lt_of_mem_branches {m : Mediator τ (Flow τ)} {c : Flow τ} (hc : c ∈ m.branches) :
    sizeOf c < sizeOf m := by
  have hlt := Kind.sizeOf_lt_of_mem_branches hc
  obtain ⟨node, kind⟩ := m
  simp at hlt ⊢
  omega

theorem sizeOf_lt_of_mem_nested {f c : Flow τ} (hc : c ∈ f.nested) : sizeOf c < sizeOf f := by
  obtain ⟨m, hm, hc⟩ := List.mem_flatMap.mp hc
  have hlt := sizeOf_lt_of_mem_branches hc
  have hmem := List.sizeOf_lt_of_mem hm
  obtain ⟨node, mediators⟩ := f
  simp at hmem ⊢
  omega

/-- The flow followed by all flows nested in it at any depth, each directly followed by its own. -/
def withNested (f : Flow τ) : List (Flow τ) :=
  f :: f.nested.attach.flatMap fun ⟨c, _⟩ => c.withNested
termination_by f
decreasing_by exact sizeOf_lt_of_mem_nested ‹_›

theorem withNested_eq (f : Flow τ) : f.withNested = f :: f.nested.flatMap withNested := by
  rw [withNested, List.flatMap_subtype (fun _ _ => rfl), List.unattach_attach]

/-- Induction over a flow and the flows nested in it. -/
theorem induct {P : Flow τ → Prop} (hstep : ∀ f : Flow τ, (∀ c ∈ f.nested, P c) → P f)
    (f : Flow τ) :
    P f :=
  hstep f fun c _ => induct hstep c
termination_by f
decreasing_by exact sizeOf_lt_of_mem_nested ‹_›

/-- Induction over mediators in a row and the flows nested in them. -/
theorem mediators_induct {P : List (Mediator τ (Flow τ)) → Prop} (nil : P [])
    (cons : ∀ m rest, (∀ c ∈ m.branches, P c.mediators) → P rest → P (m :: rest)) :
    ∀ ms, P ms
  | [] => nil
  | m :: rest =>
      cons m rest (fun c _ => mediators_induct nil cons c.mediators) (mediators_induct nil cons rest)
termination_by ms => ms
decreasing_by
  · have hbranch := sizeOf_lt_of_mem_branches ‹c ∈ m.branches›
    have hmediators := c.sizeOf_mediators_lt
    simp only [List.cons.sizeOf_spec]
    omega
  · simp +arith

end Flow

end Mediation
