import Mediation.Proofs.Element
import Mediation.Proofs.Layout.Place
import Mediation.Proofs.Stepping.RootAddress
import Mediation.Proofs.Stepping.StopChain
import Mediation.Stepping.StepOver

/-! What stepping does not depend on. A position arms only heads of mediators in the root flows that
it steps through (`Artifact.hasHead_of_mem_stepOver`); the other root flows may be anything, or be
absent, as long as they do not come to hold the position (`Artifact.stepOver_isolated`). -/

namespace Mediation

/-! Heads of a flow. -/

/-- The position is the head of a mediator of the flow, at some depth. -/
def Flow.HasHead {τ : Type} (f : Flow τ) (p : Position) : Prop :=
  ∃ g ∈ f.withNested, ∃ m ∈ g.mediators, m.head = p

/-- The mediator is in the row or nested in a mediator of the row. -/
def InRow {τ : Type} (ms : List (Mediator τ (Flow τ))) (m : Mediator τ (Flow τ)) : Prop :=
  ∃ owner ∈ ms, m = owner ∨ owner.Nests m

section

variable {τ : Type} {ms : List (Mediator τ (Flow τ))} {m : Mediator τ (Flow τ)}

theorem inRow_of_mem (hm : m ∈ ms) : InRow ms m := ⟨m, hm, .inl rfl⟩

theorem InRow.cons (h : InRow ms m) (m' : Mediator τ (Flow τ)) : InRow (m' :: ms) m := by
  obtain ⟨owner, howner, h⟩ := h
  exact ⟨owner, List.mem_cons_of_mem _ howner, h⟩

theorem InRow.branch {owner : Mediator τ (Flow τ)} (howner : InRow ms owner) {c : Flow τ}
    (hc : c ∈ owner.branches) (hm : InRow c.mediators m) :
    InRow ms m := by
  have hnests : owner.Nests m := Mediator.nests_iff.mpr ⟨c, hc, hm⟩
  obtain ⟨outer, houter, rfl | houts⟩ := howner
  · exact ⟨owner, houter, .inr hnests⟩
  · exact ⟨outer, houter, .inr (houts.trans hnests)⟩

end

namespace Stepper

variable {τ : Type}

/-- The stops of a row, and what comes behind each of them, are in the row. -/
theorem inRow_of_mem_stops (r : Stepper) {ms : List (Mediator τ (Flow τ))} {stop : Stop τ}
    (hstop : stop ∈ r.stops ms) {m : Mediator τ (Flow τ)}
    (hm : m = stop.mediator ∨ m ∈ stop.behind) :
    InRow ms m := by
  induction ms using Flow.mediators_induct with
  | nil => simp [stops_nil] at hstop
  | cons m₀ rest hbranch ih =>
      by_cases hp : r.position ∈ m₀
      · have hself : stop = ⟨m₀, rest⟩ → InRow (m₀ :: rest) m := by
          rintro rfl
          rcases hm with rfl | hm
          · exact inRow_of_mem List.mem_cons_self
          · exact (inRow_of_mem hm).cons m₀
        rcases r.exists_stops_of_mem rest hp with hstops | ⟨c, hc, hstops⟩ <;> rw [hstops] at hstop
        · exact hself (List.mem_singleton.mp hstop)
        · rcases List.mem_cons.mp hstop with hstop | hstop
          · exact hself hstop
          · exact InRow.branch (inRow_of_mem List.mem_cons_self) hc (hbranch c hc hstop)
      · rw [stops_of_not_mem r rest hp] at hstop
        exact (ih hstop).cons m₀

theorem mem_branches_of_mem_slotsAt {r : Stepper} {m : Mediator τ (Flow τ)} {c : Flow τ}
    (hc : some c ∈ r.slotsAt m) :
    c ∈ m.branches := by
  rw [slotsAt] at hc
  split at hc
  next =>
      cases hslots : m.kind.slots? with
      | none => simp [hslots] at hc
      | some slots =>
          rw [hslots, Option.getD_some] at hc
          exact (Kind.mem_branches_iff_of_slots? hslots).mpr hc
  next => cases hc
  next => cases hc

/-- A head that is armed for a branch is the head of a branch. -/
theorem exists_head?_of_mem_slotHeads {r : Stepper} {m : Mediator τ (Flow τ)} {p : Position}
    (hp : p ∈ slotHeads (r.slotsAt m)) :
    ∃ c ∈ m.branches, c.head? = some p := by
  obtain ⟨slot, hslot, hhead⟩ := List.mem_filterMap.mp hp
  obtain ⟨c, rfl, hhead⟩ := Option.bind_eq_some_iff.mp hhead
  exact ⟨c, mem_branches_of_mem_slotsAt hslot, hhead⟩

/-- What is armed from the chain of a row is the head of a mediator in the row. -/
theorem exists_of_mem_targets {r : Stepper} {ms : List (Mediator τ (Flow τ))} {p : Position}
    (hp : p ∈ r.targets (r.stops ms)) :
    ∃ m, InRow ms m ∧ m.head = p := by
  obtain ⟨last, hlast, hp | hp⟩ := exists_last_of_mem_targets hp
  · obtain ⟨c, hc, hhead⟩ := exists_head?_of_mem_slotHeads hp
    obtain ⟨m, hm, rfl⟩ := Option.map_eq_some_iff.mp hhead
    have hstop := inRow_of_mem_stops r (List.mem_of_getLast? hlast) (.inl rfl)
    exact ⟨m, hstop.branch hc (inRow_of_mem (List.mem_of_head? hm)), rfl⟩
  · obtain ⟨m, hm, rfl⟩ := Option.map_eq_some_iff.mp hp
    obtain ⟨stop, hstop, hm⟩ := List.mem_flatMap.mp (List.mem_of_head? hm)
    exact ⟨m, inRow_of_mem_stops r (List.mem_reverse.mp hstop) (.inr hm), rfl⟩

theorem hasHead_of_mem_resolve {r : Stepper} {flows : List (Flow τ)} {p : Position}
    (hp : p ∈ r.resolve flows) :
    ∃ f ∈ flows, f.HasHead p := by
  rw [resolve_eq_follow, armed_follow] at hp
  obtain ⟨m, ⟨owner, howner, hm⟩, rfl⟩ := exists_of_mem_targets hp
  obtain ⟨f, hf, howner⟩ := List.mem_flatMap.mp howner
  obtain ⟨g, hg, hm⟩ := Flow.exists_mem_withNested_iff.mpr ⟨owner, howner, hm⟩
  exact ⟨f, hf, g, hg, m, hm, rfl⟩

end Stepper

/-! Heads that an artifact arms. -/

namespace Artifact

variable {τ : Type} {a : Artifact τ}

/-- Stepping over arms heads of the flows that the position steps through. -/
theorem hasHead_of_mem_stepOver {settings : Settings} {p q : Position}
    (hq : q ∈ a.stepOver settings p) :
    ∃ f ∈ a.flowsAt p, f.HasHead q :=
  Stepper.hasHead_of_mem_resolve hq

/-- An api arms heads of one sequence, which is of the first resource that holds the position. -/
theorem exists_sequence_of_api (name : String) (node : Node τ) (resources : List (Resource τ))
    (settings : Settings) (p : Position) :
    (api name node resources).stepOver settings p = [] ∨
      ∃ r f, resources.find? (p ∈ ·.node.range) = some r ∧ f ∈ r.sequences.toList ∧
        ∀ q ∈ (api name node resources).stepOver settings p, f.HasHead q := by
  rw [or_iff_not_imp_left]
  intro hne
  obtain ⟨q, hq⟩ := List.exists_mem_of_ne_nil _ hne
  obtain ⟨f, hf, -⟩ := hasHead_of_mem_stepOver hq
  have hflows : ∀ r, resources.find? (p ∈ ·.node.range) = some r →
      (api name node resources).flowsAt p = r.sequences.apiFlowsAt p := by
    intro r hr
    simp only [flowsAt, hr]
  cases hr : resources.find? (p ∈ ·.node.range) with
  | none => simp [flowsAt, hr] at hf
  | some r =>
      rw [hflows r hr, Sequences.apiFlowsAt, Option.mem_toList] at hf
      refine ⟨r, f, rfl, List.mem_of_find?_eq_some hf, fun q hq => ?_⟩
      obtain ⟨f', hf', hhead⟩ := hasHead_of_mem_stepOver hq
      rw [hflows r hr, Sequences.apiFlowsAt, hf] at hf'
      exact List.mem_singleton.mp hf' ▸ hhead

/-- A proxy arms heads of its in and out sequences, or else heads of its fault sequence. -/
theorem exists_sequence_of_proxy (name : String) (node : Node τ) (t : ProxyTarget τ)
    (settings : Settings) (p : Position) :
    (∀ q ∈ (proxy name node (some t)).stepOver settings p,
      ∃ f ∈ t.sequences.inSequence.toList ++ t.sequences.outSequence.toList, f.HasHead q) ∨
    ∀ q ∈ (proxy name node (some t)).stepOver settings p,
      ∃ f ∈ t.sequences.faultSequence, f.HasHead q := by
  have hflows : (proxy name node (some t)).flowsAt p = t.sequences.proxyFlowsAt p :=
    List.append_nil _
  rw [Sequences.proxyFlowsAt] at hflows
  split at hflows
  next =>
      refine .inl fun q hq => ?_
      obtain ⟨f, hf, hhead⟩ := hasHead_of_mem_stepOver hq
      exact ⟨f, hflows ▸ hf, hhead⟩
  next =>
      refine .inr fun q hq => ?_
      obtain ⟨f, hf, hhead⟩ := hasHead_of_mem_stepOver hq
      rw [hflows] at hf
      exact ⟨f, Option.mem_toList.mp (List.mem_of_mem_filter hf), hhead⟩

/-- What is armed are heads of the flows that the position steps through: for an api, of one sequence
of the first resource that holds the position; for a proxy, of the in and out sequences or of the
fault sequence, never of both. The flows that the position steps through are those at some addresses.
At any other address there may be another flow that does not hold the position, or, but for the body
of a named sequence, none at all; neither these flows nor what is armed changes. -/
theorem stepOver_isolated (a : Artifact τ) (settings : Settings) (p : Position) :
    (∀ q ∈ a.stepOver settings p, ∃ f ∈ a.flowsAt p, f.HasHead q) ∧
    (∀ name node resources, a = api name node resources → a.stepOver settings p = [] ∨
      ∃ r f, resources.find? (p ∈ ·.node.range) = some r ∧ f ∈ r.sequences.toList ∧
        ∀ q ∈ a.stepOver settings p, f.HasHead q) ∧
    (∀ name node t, a = proxy name node (some t) →
      (∀ q ∈ a.stepOver settings p,
        ∃ f ∈ t.sequences.inSequence.toList ++ t.sequences.outSequence.toList, f.HasHead q) ∨
      ∀ q ∈ a.stepOver settings p, ∃ f ∈ t.sequences.faultSequence, f.HasHead q) ∧
    a.flowsAt p = (a.rootsAt p).filterMap a.root? ∧
    ∀ address f, a.root? address = some f → address ∉ a.rootsAt p →
      ∀ flow : Option (Flow τ), (∀ f' ∈ flow, p ∉ f') →
        ((a.kind = .sequence → flow ≠ none) → ∃ a', a.withRoot? address flow = some a') ∧
        ∀ a', a.withRoot? address flow = some a' →
          a'.root? address = flow ∧ (∀ other, other ≠ address → a'.root? other = a.root? other) ∧
          a'.flowsAt p = a.flowsAt p ∧ a'.stepOver settings p = a.stepOver settings p := by
  refine ⟨fun q hq => hasHead_of_mem_stepOver hq, ?_, ?_, a.flowsAt_eq p, ?_⟩
  · rintro name node resources rfl
    exact exists_sequence_of_api name node resources settings p
  · rintro name node t rfl
    exact exists_sequence_of_proxy name node t settings p
  · intro address f hroot haddress flow hflow
    refine ⟨exists_withRoot? hroot, fun a' h => ?_⟩
    have hflows := flowsAt_of_withRoot? h (Option.isSome_of_eq_some hroot) haddress hflow
    obtain ⟨hself, hothers⟩ := root?_of_withRoot? h
    refine ⟨hself, hothers, hflows, ?_⟩
    rw [stepOver, stepOver, hflows]

/-- A resource with an in sequence and a fault sequence. -/
def orders : Artifact String :=
  .api "orders" (.onLines "api" 1 11) [⟨.onLines "resource" 2 10, none,
    some ⟨.onLines "inSequence" 3 6, [⟨.onLine "log" 4, .simple⟩, ⟨.onLine "send" 5, .simple⟩]⟩,
    none,
    some ⟨.onLines "faultSequence" 7 9, [⟨.onLine "log" 8, .simple⟩]⟩⟩]

/-- Behind the log of the in sequence comes the send. -/
theorem stepOver_orders : orders.stepOver {} ⟨4, 5⟩ = [⟨5, 0⟩] := by
  have hflows : orders.flowsAt ⟨4, 5⟩ = orders.rootFlows.take 1 := by decide
  rw [stepOver, hflows]
  simp only [Stepper.resolve, orders, rootFlows, Sequences.toList, List.flatMap_cons,
    List.flatMap_nil, Option.toList, List.append_nil, List.nil_append, List.cons_append,
    List.take_succ_cons, List.take_zero, List.foldl, Stepper.scanFlow, Stepper.scan]
  decide

/-- Another fault sequence, which stands elsewhere. -/
def otherFault : Flow String :=
  ⟨.onLines "faultSequence" 20 22, [⟨.onLine "drop" 21, .simple⟩]⟩

/-- At the log of the in sequence it does not matter what the fault sequence is. -/
theorem stepOver_isolated_orders :
    (∃ f, orders.root? (.resource 0 .faultSequence) = some f) ∧
    .resource 0 .faultSequence ∉ orders.rootsAt ⟨4, 5⟩ ∧ ⟨4, 5⟩ ∉ otherFault ∧
    orders.stepOver {} ⟨4, 5⟩ = [⟨5, 0⟩] ∧
    ∃ a', orders.withRoot? (.resource 0 .faultSequence) (some otherFault) = some a' ∧
      a'.root? (.resource 0 .faultSequence) = some otherFault ∧
      a'.flowsAt ⟨4, 5⟩ = orders.flowsAt ⟨4, 5⟩ ∧ a'.stepOver {} ⟨4, 5⟩ = [⟨5, 0⟩] := by
  have hroots : .resource 0 .faultSequence ∉ orders.rootsAt ⟨4, 5⟩ := by decide
  have hfault : ⟨4, 5⟩ ∉ otherFault := by decide
  obtain ⟨hexists, hisolated⟩ := (stepOver_isolated orders {} ⟨4, 5⟩).2.2.2.2
    (.resource 0 .faultSequence) _ rfl hroots (some otherFault) (by simpa using hfault)
  obtain ⟨a', ha'⟩ := hexists fun _ => Option.some_ne_none otherFault
  obtain ⟨hself, -, hflows, hsame⟩ := hisolated a' ha'
  exact ⟨⟨_, rfl⟩, hroots, hfault, stepOver_orders, a', ha', hself, hflows, hsame.trans stepOver_orders⟩

end Artifact

end Mediation
