import Mediation.Proofs.Document.Loading
import Mediation.Proofs.Stepping.StopChain
import Mediation.Stepping.StepOver

/-! The sequences of a proxy. The in sequence runs on into the out sequence, so a position in the in
sequence is stepped over as in one flow of the mediators of both. The scan goes through both also
where only the out sequence holds the position, and it does not ask again which flow that is. It
passes over the in sequence all the same, since the mediators of a flow that loads do not hold what
the flow does not hold (`Artifact.mem_of_mem_mediator`); so the out sequence is then stepped through
alone (`stepOver_of_load_proxy`). -/

namespace Mediation

section

variable {τ : Type}

/-- The mediators of a flow, and behind them those of the flow that comes next if there is one. -/
def Flow.followedBy (f : Flow τ) (next : Option (Flow τ)) : Flow τ :=
  ⟨f.node, f.mediators ++ next.toList.flatMap (·.mediators)⟩

namespace Stepper

/-- Only the mediators count, not how they are divided among the flows. -/
theorem resolve_congr (r : Stepper) {flows flows' : List (Flow τ)}
    (h : flows.flatMap (·.mediators) = flows'.flatMap (·.mediators)) :
    r.resolve flows = r.resolve flows' := by
  rw [resolve_eq_follow, resolve_eq_follow, h]

/-- Flows whose mediators do not hold the position may be left out in front. -/
theorem resolve_append_of_not_mem (r : Stepper) {before : List (Flow τ)}
    (hbefore : ∀ f ∈ before, ∀ m ∈ f.mediators, r.position ∉ m) (flows : List (Flow τ)) :
    r.resolve (before ++ flows) = r.resolve flows := by
  have hnil : r.stops (before.flatMap (·.mediators)) = [] := by
    refine stops_eq_nil_iff.mpr fun m hm => ?_
    obtain ⟨f, hf, hm⟩ := List.mem_flatMap.mp hm
    exact hbefore f hf m hm
  rw [resolve_eq_follow, resolve_eq_follow, List.flatMap_append, stops_append_of_eq_nil hnil]

end Stepper

namespace Sequences

variable {s : Sequences τ} {p : Position}

theorem proxyFlowsAt_of_mem_inSequence {f : Flow τ} (hf : s.inSequence = some f) (hp : p ∈ f) :
    s.proxyFlowsAt p = f :: s.outSequence.toList := by
  simp [proxyFlowsAt, hf, hp]

theorem proxyFlowsAt_of_mem_outSequence {f : Flow τ} (hf : s.outSequence = some f) (hp : p ∈ f) :
    s.proxyFlowsAt p = s.inSequence.toList ++ [f] := by
  simp [proxyFlowsAt, hf, hp]

theorem proxyFlowsAt_of_not_mem (hin : ∀ f ∈ s.inSequence, p ∉ f)
    (hout : ∀ f ∈ s.outSequence, p ∉ f) :
    s.proxyFlowsAt p = s.faultSequence.toList.filter (p ∈ ·) := by
  have hany {flow : Option (Flow τ)} (hflow : ∀ f ∈ flow, p ∉ f) : flow.any (p ∈ ·) = false := by
    cases flow with
    | none => rfl
    | some f => exact decide_eq_false (hflow f rfl)
  rw [proxyFlowsAt, hany hin, hany hout]
  rfl

end Sequences

namespace Artifact

theorem stepOver_of_flowsAt_eq_nil {a : Artifact τ} {p : Position} (h : a.flowsAt p = [])
    (settings : Settings) :
    a.stepOver settings p = [] := by
  rw [stepOver, h]
  rfl

end Artifact

end

/-- In a document that loads without a warning of an element outside its parent, a root flow holds
what its mediators hold. -/
theorem mem_rootFlow_of_load {source : String} {loaded : Loaded} (h : load source = .ok loaded)
    (hwithin : ∀ d ∈ loaded.warnings, d.code ≠ some .childOutsideParent) {f : Flow String}
    (hf : f ∈ loaded.artifact.rootFlows) {m : Mediator String (Flow String)} (hm : m ∈ f.mediators)
    {p : Position} (hp : p ∈ m) :
    p ∈ f := by
  obtain ⟨r, -, hwell, rfl⟩ := load_eq_ok_iff.mp h
  obtain ⟨around, hlineage⟩ := Artifact.exists_mem_lineages hf hm
  refine Artifact.mem_around hwell (fun finding hfinding hcode => ?_) hlineage
    List.mem_cons_self p hp
  refine hwithin finding.diagnostic ?_ (congrArg some hcode)
  exact List.mem_map_of_mem (List.mem_append_right _ hfinding)

/-- How a position of a proxy is stepped over, if its document loads without a warning of an element
outside its parent. In the in sequence it is stepped over as in one flow that goes on with the
mediators of the out sequence; in the out sequence, or else in the fault sequence, as in that
sequence alone. In none of them nothing is armed. -/
theorem stepOver_of_load_proxy {source : String} {loaded : Loaded} (h : load source = .ok loaded)
    (hwithin : ∀ d ∈ loaded.warnings, d.code ≠ some .childOutsideParent) {name : String}
    {node : Node String} {target : Option (ProxyTarget String)}
    (hproxy : loaded.artifact = .proxy name node target) (settings : Settings) (p : Position) :
    (∀ t ∈ target, ∀ f ∈ t.sequences.inSequence, p ∈ f →
      loaded.artifact.stepOver settings p =
        Stepper.resolve ⟨settings, p⟩ [f.followedBy t.sequences.outSequence]) ∧
    (∀ t ∈ target, (∀ f ∈ t.sequences.inSequence, p ∉ f) →
      ∀ f ∈ t.sequences.outSequence, p ∈ f →
        loaded.artifact.stepOver settings p = Stepper.resolve ⟨settings, p⟩ [f]) ∧
    (∀ t ∈ target, (∀ f ∈ t.sequences.inSequence, p ∉ f) →
      (∀ f ∈ t.sequences.outSequence, p ∉ f) → ∀ f ∈ t.sequences.faultSequence, p ∈ f →
        loaded.artifact.stepOver settings p = Stepper.resolve ⟨settings, p⟩ [f]) ∧
    ((∀ t ∈ target, ∀ f ∈ t.sequences.toList, p ∉ f) → loaded.artifact.stepOver settings p = []) := by
  have hstep : ∀ t ∈ target, loaded.artifact.stepOver settings p =
      Stepper.resolve ⟨settings, p⟩ (t.sequences.proxyFlowsAt p) := by
    rintro t rfl
    rw [hproxy, Artifact.stepOver, Artifact.flowsAt, Option.toList_some, List.flatMap_singleton]
  refine ⟨fun t ht f hf hp => ?_, fun t ht hin f hf hp => ?_, fun t ht hin hout f hf hp => ?_,
    fun hnone => ?_⟩
  · rw [hstep t ht, Sequences.proxyFlowsAt_of_mem_inSequence hf hp]
    apply Stepper.resolve_congr
    simp [Flow.followedBy]
  · rw [hstep t ht, Sequences.proxyFlowsAt_of_mem_outSequence hf hp]
    -- the mediators of the in sequence hold only what it holds, so they do not hold `p`
    apply Stepper.resolve_append_of_not_mem
    intro g hg m hm hpm
    have hroot : g ∈ loaded.artifact.rootFlows := by
      obtain rfl := Option.mem_def.mp ht
      rw [hproxy, Artifact.rootFlows, Option.toList_some, List.flatMap_singleton]
      exact List.mem_append_left _ (List.mem_append_left _ hg)
    exact hin g (Option.mem_toList.mp hg) (mem_rootFlow_of_load h hwithin hroot hm hpm)
  · rw [hstep t ht, Sequences.proxyFlowsAt_of_not_mem hin hout, Option.mem_def.mp hf]
    simp [hp]
  · refine Artifact.stepOver_of_flowsAt_eq_nil ?_ settings
    rw [hproxy, Artifact.flowsAt, List.flatMap_eq_nil_iff]
    intro t ht
    have hnone := hnone t (Option.mem_toList.mp ht)
    rw [Sequences.proxyFlowsAt_of_not_mem (fun f hf => hnone f ?_) (fun f hf => hnone f ?_),
      List.filter_eq_nil_iff]
    · intro f hf
      simpa using hnone f (List.mem_append_right _ hf)
    all_goals simp [Sequences.toList, Option.mem_def.mp hf]

/-- A proxy with an in sequence and an out sequence. -/
def pairedJson : Json :=
  .object [
    ("kind", .text "proxy"),
    ("name", .text "orders"),
    ("range", switchingJson.container 1 10),
    ("target", .object [
      ("range", switchingJson.container 2 9),
      ("inSequence", flow "inSequence" 3 5 [mediator "log" 4]),
      ("outSequence", flow "outSequence" 6 8 [mediator "send" 7])])]
where
  mediator (tag : String) (line : Int) : Json :=
    .object [("tag", .text tag), ("range", switchingJson.selfClosed line)]
  flow (tag : String) (first last : Int) (mediators : List Json) : Json :=
    .object [("tag", .text tag), ("range", switchingJson.container first last),
      ("mediators", .array mediators)]

/-- The in sequence of the proxy. -/
def pairedIn : Flow String := ⟨.onLines "inSequence" 3 5, [⟨.onLine "log" 4, .simple⟩]⟩

/-- The out sequence of the proxy. -/
def pairedOut : Flow String := ⟨.onLines "outSequence" 6 8, [⟨.onLine "send" 7, .simple⟩]⟩

/-- Behind the log of the in sequence comes the send of the out sequence, as in one flow; at the send
itself the in sequence does not matter. -/
theorem stepOver_of_load_proxy_paired :
    ∃ artifact, load pairedJson.compact = .ok ⟨artifact, []⟩ ∧
      artifact.stepOver {} ⟨4, 5⟩ =
        Stepper.resolve ⟨{}, ⟨4, 5⟩⟩ [pairedIn.followedBy (some pairedOut)] ∧
      artifact.stepOver {} ⟨4, 5⟩ = [⟨7, 0⟩] ∧
      artifact.stepOver {} ⟨7, 5⟩ = Stepper.resolve ⟨{}, ⟨7, 5⟩⟩ [pairedOut] := by
  have hread : Json.ofText pairedJson.compact = .ok pairedJson :=
    Json.ofText_render Json.Layout.spaced_compact (by decide) (by decide)
  have hload : load pairedJson.compact =
      .ok ⟨.proxy "orders" (.onLines "proxy" 1 10)
        (some ⟨.onLines "target" 2 9, some pairedIn, some pairedOut, none⟩), []⟩ :=
    ArtifactRecord.load_of_examine
      (ArtifactRecord.ofText_eq_ok.mpr ⟨_, .proxy, _, hread, .object rfl, rfl⟩) rfl nofun
  have hin := (stepOver_of_load_proxy hload nofun rfl {} ⟨4, 5⟩).1 _ rfl pairedIn rfl (by decide)
  have hout := (stepOver_of_load_proxy hload nofun rfl {} ⟨7, 5⟩).2.1 _ rfl
    (by rintro _ ⟨⟩; decide) pairedOut rfl (by decide)
  refine ⟨_, hload, hin, hin.trans ?_, hout⟩
  simp only [Stepper.resolve, Flow.followedBy, pairedIn, pairedOut, Option.toList,
    List.flatMap_singleton, List.singleton_append, List.foldl, Stepper.scanFlow, Stepper.scan]
  decide

end Mediation
