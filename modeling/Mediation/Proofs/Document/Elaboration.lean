import Mediation.Document.Elaboration
import Mediation.Proofs.Document.Finding

/-! Elaboration, layer by layer. A mediator as written is elaborated over branches that have been
elaborated before, so what holds of elaboration is shown for one mediator and its branches
(`MediatorRecord.elaborate`) and carried through a flow by induction over what is written in it
(`FlowRecord.induct`). -/

namespace Mediation

def CaseRecord.map {φ ψ : Type} (g : φ → ψ) (c : CaseRecord φ) : CaseRecord ψ := ⟨c.regex, g c.flow⟩

def Target.map {τ φ ψ : Type} (g : φ → ψ) (t : Target τ φ) : Target τ ψ :=
  ⟨t.node, t.sequence.map g⟩

namespace MediatorRecord

variable {φ ψ : Type}

/-- The mediator with something else in the place of what is written in it. -/
def map (g : φ → ψ) (m : MediatorRecord φ) : MediatorRecord ψ where
  node := m.node
  thenFlow := m.thenFlow.map g
  elseFlow := m.elseFlow.map g
  onAccept := m.onAccept.map g
  onReject := m.onReject.map g
  cases := m.cases.map fun cases => cases.map (·.map g)
  default := m.default.map g
  advice := m.advice.map g
  obligations := m.obligations.map g
  onCacheHit := m.onCacheHit.map g
  onFail := m.onFail.map g
  targets := m.targets.map fun targets => targets.map (·.map g)
  target := m.target.map (·.map g)
  sequence := m.sequence.map g
  onComplete := m.onComplete.map g

/-- The branches in the order of the format. With each goes what is written in it, and the element
that this is directly in. -/
def fields (m : MediatorRecord φ) : List (String × List (Node String × φ)) :=
  [("then", single m.node m.thenFlow), ("else", single m.node m.elseFlow),
    ("onAccept", single m.node m.onAccept), ("onReject", single m.node m.onReject),
    ("cases", (m.cases.getD []).map fun c => (m.node, c.flow)),
    ("default", single m.node m.default), ("advice", single m.node m.advice),
    ("obligations", single m.node m.obligations), ("onCacheHit", single m.node m.onCacheHit),
    ("onFail", single m.node m.onFail), ("targets", sequences (m.targets.getD [])),
    ("target", sequences m.target.toList), ("sequence", single m.node m.sequence),
    ("onComplete", single m.node m.onComplete)]
where
  single (owner : Node String) (flow : Option φ) : List (Node String × φ) :=
    flow.toList.map (owner, ·)
  sequences (targets : List (Target String φ)) : List (Node String × φ) :=
    targets.filterMap fun t => t.sequence.map (t.node, ·)

/-- What is written in the mediator. -/
def written (m : MediatorRecord φ) : List (Node String × φ) := m.fields.flatMap (·.2)

/-- What is written in the branches that the tag of the mediator provides for. -/
def used (m : MediatorRecord φ) : List (Node String × φ) :=
  (m.fields.filter (·.1 ∈ supportedBranches m.node.tag)).flatMap (·.2)

theorem fields_map (g : φ → ψ) (m : MediatorRecord φ) :
    (m.map g).fields = m.fields.map fun field => (field.1, field.2.map fun w => (w.1, g w.2)) := by
  have hsingle : ∀ flow : Option φ, fields.single m.node (flow.map g) =
      (fields.single m.node flow).map fun w => (w.1, g w.2) := by
    intro flow
    cases flow <;> rfl
  have hcases : ∀ cases : Option (List (CaseRecord φ)),
      ((cases.map (List.map (·.map g))).getD []).map (fun c => (m.node, c.flow)) =
        ((cases.getD []).map fun c => (m.node, c.flow)).map fun w => (w.1, g w.2) := by
    intro cases
    cases cases <;> simp [CaseRecord.map]
  have hsequences : ∀ targets : List (Target String φ), fields.sequences (targets.map (·.map g)) =
      (fields.sequences targets).map fun w => (w.1, g w.2) := by
    intro targets
    simp only [fields.sequences, List.filterMap_map, List.map_filterMap, Function.comp_def,
      Target.map, Option.map_map]
  have htargets : ∀ targets : Option (List (Target String φ)),
      fields.sequences ((targets.map (List.map (·.map g))).getD []) =
        (fields.sequences (targets.getD [])).map fun w => (w.1, g w.2) := by
    intro targets
    cases targets with
    | none => rfl
    | some targets => exact hsequences targets
  have htarget : ∀ target : Option (Target String φ),
      fields.sequences (target.map (·.map g)).toList =
        (fields.sequences target.toList).map fun w => (w.1, g w.2) := by
    intro target
    cases target with
    | none => rfl
    | some target => exact hsequences [target]
  simp only [fields, map, hsingle, hcases, htargets, htarget, List.map_cons, List.map_nil]

/-- What is used in a mediator is told by its branches alone. -/
theorem used_map (g : φ → ψ) (m : MediatorRecord φ) :
    (m.map g).used = m.used.map fun w => (w.1, g w.2) := by
  simp only [used, fields_map, List.filter_map, List.flatMap_map, List.map_flatMap,
    Function.comp_def]
  rfl

theorem mem_written_of_mem_used {m : MediatorRecord φ} {w : Node String × φ} (hw : w ∈ m.used) :
    w ∈ m.written := by
  obtain ⟨field, hfield, hw⟩ := List.mem_flatMap.mp hw
  exact List.mem_flatMap.mpr ⟨field, (List.mem_filter.mp hfield).1, hw⟩

section

variable [SizeOf φ] {w : Node String × φ}

theorem sizeOf_lt_of_mem_single {owner : Node String} {o : Option φ}
    (hw : w ∈ fields.single owner o) :
    sizeOf w.2 < sizeOf o := by
  obtain ⟨c, hc, rfl⟩ := List.mem_map.mp hw
  obtain rfl : o = some c := Option.mem_toList.mp hc
  simp +arith

theorem sizeOf_lt_of_mem_cases {owner : Node String} {o : Option (List (CaseRecord φ))}
    (hw : w ∈ (o.getD []).map fun c => (owner, c.flow)) :
    sizeOf w.2 < sizeOf o := by
  obtain ⟨⟨regex, flow⟩, hc, rfl⟩ := List.mem_map.mp hw
  cases o with
  | none => cases hc
  | some cases =>
      have hlt := List.sizeOf_lt_of_mem hc
      simp at hlt ⊢
      omega

theorem exists_of_mem_sequences {targets : List (Target String φ)}
    (hw : w ∈ fields.sequences targets) :
    ∃ t ∈ targets, sizeOf w.2 < sizeOf t := by
  obtain ⟨⟨node, sequence⟩, ht, hseq⟩ := List.mem_filterMap.mp hw
  obtain ⟨c, rfl, rfl⟩ := Option.map_eq_some_iff.mp hseq
  exact ⟨_, ht, by simp +arith⟩

theorem sizeOf_lt_of_mem_targets {o : Option (List (Target String φ))}
    (hw : w ∈ fields.sequences (o.getD [])) :
    sizeOf w.2 < sizeOf o := by
  obtain ⟨t, ht, hlt⟩ := exists_of_mem_sequences hw
  cases o with
  | none => cases ht
  | some targets =>
      have hmem := List.sizeOf_lt_of_mem ht
      simp at hmem ⊢
      omega

theorem sizeOf_lt_of_mem_target {o : Option (Target String φ)}
    (hw : w ∈ fields.sequences o.toList) :
    sizeOf w.2 < sizeOf o := by
  obtain ⟨t, ht, hlt⟩ := exists_of_mem_sequences hw
  obtain rfl : o = some t := Option.mem_toList.mp ht
  simp
  omega

theorem sizeOf_lt_of_mem_written {m : MediatorRecord φ} (hw : w ∈ m.written) :
    sizeOf w.2 < sizeOf m := by
  obtain ⟨node, thenFlow, elseFlow, onAccept, onReject, cases, default, advice, obligations,
    onCacheHit, onFail, targets, target, sequence, onComplete⟩ := m
  simp only [written, fields, List.flatMap_cons, List.flatMap_nil, List.mem_append,
    List.not_mem_nil, or_false] at hw
  simp only [mk.sizeOf_spec]
  rcases hw with h | h | h | h | h | h | h | h | h | h | h | h | h | h
  iterate 4 · have := sizeOf_lt_of_mem_single h; omega
  · have := sizeOf_lt_of_mem_cases h; omega
  iterate 5 · have := sizeOf_lt_of_mem_single h; omega
  · have := sizeOf_lt_of_mem_targets h; omega
  · have := sizeOf_lt_of_mem_target h; omega
  iterate 2 · have := sizeOf_lt_of_mem_single h; omega

end

end MediatorRecord

namespace FlowRecord

/-- Induction over a flow as written and the flows written in it. -/
theorem induct {P : FlowRecord → Prop}
    (hstep : ∀ f : FlowRecord, (∀ m ∈ f.mediators, ∀ w ∈ m.written, P w.2) → P f)
    (f : FlowRecord) :
    P f :=
  hstep f fun m _ w _ => induct hstep w.2
termination_by f
decreasing_by
  have hlt := MediatorRecord.sizeOf_lt_of_mem_written ‹w ∈ m.written›
  have hmem := List.sizeOf_lt_of_mem ‹m ∈ f.mediators›
  obtain ⟨node, mediators⟩ := f
  simp at hmem ⊢
  omega

/-! The recursion of elaboration, list by list. -/

theorem elaborateBranch_eq (f : Option FlowRecord) : elaborateBranch f = f.map elaborate := by
  cases f <;> rfl

theorem elaborateCases_eq (cases : List (CaseRecord FlowRecord)) :
    elaborateCases cases = cases.map (·.map elaborate) := by
  induction cases with
  | nil => rfl
  | cons c rest ih => rw [elaborateCases, ih, elaborateCase, List.map_cons, CaseRecord.map]

theorem elaborateTarget_eq (t : Target String FlowRecord) :
    elaborateTarget t = t.map elaborate := by
  rw [elaborateTarget, elaborateBranch_eq, Target.map]

theorem elaborateTargets_eq (targets : List (Target String FlowRecord)) :
    elaborateTargets targets = targets.map (·.map elaborate) := by
  induction targets with
  | nil => rfl
  | cons t rest ih => rw [elaborateTargets, ih, elaborateTarget_eq, List.map_cons]

theorem elaborateBranches_eq (m : MediatorRecord FlowRecord) :
    elaborateBranches m = m.map elaborate := by
  have hcases : elaborateCases? m.cases = m.cases.map fun cases => cases.map (·.map elaborate) := by
    cases m.cases with
    | none => rfl
    | some cases => rw [elaborateCases?, elaborateCases_eq, Option.map_some]
  have htargets : elaborateTargets? m.targets =
      m.targets.map fun targets => targets.map (·.map elaborate) := by
    cases m.targets with
    | none => rfl
    | some targets => rw [elaborateTargets?, elaborateTargets_eq, Option.map_some]
  have htarget : elaborateTarget? m.target = m.target.map (·.map elaborate) := by
    cases m.target with
    | none => rfl
    | some t => rw [elaborateTarget?, elaborateTarget_eq, Option.map_some]
  rw [elaborateBranches, hcases, htargets, htarget]
  simp only [elaborateBranch_eq, MediatorRecord.map]

theorem elaborateMediators_eq (ms : List (MediatorRecord FlowRecord)) :
    elaborateMediators ms = ms.mapM fun m => (m.map elaborate).elaborate := by
  induction ms with
  | nil => rfl
  | cons m rest ih => rw [elaborateMediators, ih, elaborateBranches_eq, List.mapM_cons]

theorem elaborate_eq (f : FlowRecord) :
    f.elaborate = do
      return ⟨f.node, ← f.mediators.mapM fun m => (m.map elaborate).elaborate⟩ := by
  obtain ⟨node, mediators⟩ := f
  rw [elaborate, elaborateMediators_eq]

end FlowRecord

/-! Branches. -/

namespace NotedFlow

variable {P : Finding → Prop} {owner : Node String}

theorem value_nonEmpty (owner : Node String) (flow : NotedFlow) :
    (flow.nonEmpty owner).value = if flow.value.isEmpty then none else some flow.value := by
  rw [nonEmpty, Noted.value_bind]
  split <;> rfl

theorem all_nonEmpty {flow : NotedFlow} :
    (flow.nonEmpty owner).All P ↔
      Noted.All P flow ∧ (flow.value.isEmpty = true → P (.emptyBranch flow.value.node owner)) := by
  rw [nonEmpty, Noted.all_bind]
  split
  next h => simp [h]
  next h => simp [h]

end NotedFlow

namespace MediatorRecord

variable {P : Finding → Prop} {owner : Node String}

theorem all_branch {flow : Option NotedFlow} :
    (branch owner flow).All P ↔ ∀ w ∈ fields.single owner flow, (w.2.nonEmpty w.1).All P := by
  cases flow <;> simp [branch, fields.single]

theorem all_cases {cases : List (CaseRecord NotedFlow)} :
    (cases.mapM (case owner)).All P ↔
      ∀ w ∈ cases.map fun c => (owner, c.flow), (w.2.nonEmpty w.1).All P := by
  simp [case]

theorem all_targets {targets : List (Target String NotedFlow)} :
    (targets.mapM fanOutTarget).All P ↔
      ∀ w ∈ fields.sequences targets, (w.2.nonEmpty w.1).All P := by
  rw [Noted.all_mapM, fields.sequences, List.forall_mem_filterMap]
  refine forall₂_congr fun t _ => ?_
  obtain ⟨node, sequence⟩ := t
  cases sequence <;> simp [fanOutTarget, branch]

theorem all_target {target : Option (Target String NotedFlow)} :
    (target.mapM fanOutTarget).All P ↔
      ∀ w ∈ fields.sequences target.toList, (w.2.nonEmpty w.1).All P := by
  rw [← all_targets]
  cases target <;> simp

theorem value_elaborate (m : MediatorRecord NotedFlow) :
    m.elaborate.value = ⟨m.node, m.elaborateKind.value⟩ := rfl

theorem all_elaborate {m : MediatorRecord NotedFlow} :
    m.elaborate.All P ↔
      (∀ branch ∈ m.unsupported, P (.unsupportedBranch m.node branch)) ∧ m.elaborateKind.All P := by
  rw [elaborate, Noted.all_bind, List.forM_eq_forM, Noted.all_forM, Noted.all_bind]
  simp only [Noted.all_note, Noted.all_pure, and_true]

/-- No mediator is known by the tag. -/
def Unknown {φ : Type} (m : MediatorRecord φ) : Prop :=
  supportedBranches m.node.tag = [] ∧ m.node.tag ∉ simpleMediators

/-- What is found on a mediator, apart from branches that it has no use for. -/
theorem all_elaborateKind {m : MediatorRecord NotedFlow} :
    m.elaborateKind.All P ↔
      (∀ w ∈ m.used, (w.2.nonEmpty w.1).All P) ∧ (m.Unknown → P (.unknownMediator m.node)) := by
  rw [elaborateKind, used, fields, Unknown]
  split
  case h_12 =>
      have hnone : supportedBranches m.node.tag = [] := by simp [supportedBranches, *]
      by_cases hknown : m.node.tag ∈ simpleMediators <;> simp [hnone, hknown]
  all_goals
    next h =>
      simp [h, supportedBranches, all_branch, all_cases, all_targets, all_target, or_imp,
        forall_and, -Prod.forall, -List.mem_map, -Noted.all_mapM, -Noted.all_mapM_option]

theorem unsupported_map {φ ψ : Type} (g : φ → ψ) (m : MediatorRecord φ) :
    (m.map g).unsupported = m.unsupported := by
  have hdeclared : (m.map g).declared = m.declared := by
    simp only [declared, map, Option.isSome_map]
  rw [unsupported, hdeclared]
  rfl

/-- All that is found in a mediator has the property: on the mediator itself, on the branches that it
uses, and in these. -/
structure FindsOnly (P : Finding → Prop) (m : MediatorRecord FlowRecord) : Prop where
  unsupported : ∀ branch ∈ m.unsupported, P (.unsupportedBranch m.node branch)
  unknown : m.Unknown → P (.unknownMediator m.node)
  empty : ∀ w ∈ m.used, w.2.mediators = [] → P (.emptyBranch w.2.node w.1)
  nested : ∀ w ∈ m.used, w.2.elaborate.All P

end MediatorRecord

namespace FlowRecord

variable {P : Finding → Prop}

theorem value_elaborate (f : FlowRecord) :
    f.elaborate.value = ⟨f.node, f.mediators.map fun m => (m.map elaborate).elaborate.value⟩ := by
  rw [elaborate_eq, Noted.value_bind, Noted.value_mapM, Noted.value_pure]

theorem node_value_elaborate (f : FlowRecord) : f.elaborate.value.node = f.node := by
  rw [value_elaborate]

theorem isEmpty_value_elaborate (f : FlowRecord) :
    f.elaborate.value.isEmpty = true ↔ f.mediators = [] := by
  rw [value_elaborate, Flow.isEmpty, List.isEmpty_map, List.isEmpty_iff]

theorem all_elaborateMediators {ms : List (MediatorRecord FlowRecord)} :
    (elaborateMediators ms).All P ↔ ∀ m ∈ ms, m.FindsOnly P := by
  rw [elaborateMediators_eq, Noted.all_mapM]
  refine forall₂_congr fun m _ => ?_
  rw [MediatorRecord.all_elaborate, MediatorRecord.all_elaborateKind,
    MediatorRecord.unsupported_map, MediatorRecord.used_map, List.forall_mem_map]
  simp only [NotedFlow.all_nonEmpty, isEmpty_value_elaborate, node_value_elaborate]
  constructor
  · rintro ⟨hunsupported, hused, hunknown⟩
    exact ⟨hunsupported, hunknown, fun w hw => (hused w hw).2, fun w hw => (hused w hw).1⟩
  · rintro ⟨hunsupported, hunknown, hempty, hnested⟩
    exact ⟨hunsupported, fun w hw => ⟨hnested w hw, hempty w hw⟩, hunknown⟩

/-- What is found in a flow is found in its mediators. -/
theorem all_elaborate {f : FlowRecord} :
    f.elaborate.All P ↔ ∀ m ∈ f.mediators, m.FindsOnly P := by
  obtain ⟨node, mediators⟩ := f
  rw [elaborate, Noted.all_bind, all_elaborateMediators]
  simp only [Noted.all_pure, and_true]

end FlowRecord

/-! Whole documents. -/

/-- The sequences that are written: in, out, fault. -/
def SequencesRecord.toList (s : SequencesRecord) : List FlowRecord :=
  s.inSequence.toList ++ s.outSequence.toList ++ s.faultSequence.toList

/-- The flows that are written in no mediator, in document order. -/
def ArtifactRecord.rootFlows : ArtifactRecord → List FlowRecord
  | api r => r.resources.flatMap (·.sequences.toList)
  | proxy r => r.target.toList.flatMap (·.sequences.toList)
  | sequence r => [⟨⟨"sequence", r.range⟩, r.mediators⟩]
  | template r => r.sequence.toList

section

variable {P : Finding → Prop}

theorem SequencesRecord.all_elaborate {s : SequencesRecord} :
    s.elaborate.All P ↔ ∀ f ∈ s.toList, f.elaborate.All P := by
  simp [SequencesRecord.elaborate, SequencesRecord.toList, or_imp, forall_and]

/-- What is found in a document is found in its flows. -/
theorem ArtifactRecord.all_elaborate {r : ArtifactRecord} :
    r.elaborate.All P ↔ ∀ f ∈ r.rootFlows, f.elaborate.All P := by
  cases r with
  | api r =>
      rw [rootFlows, List.forall_mem_flatMap]
      simp [elaborate, ResourceRecord.elaborate, SequencesRecord.all_elaborate]
  | proxy r =>
      rw [rootFlows, List.forall_mem_flatMap]
      simp [elaborate, ProxyTargetRecord.elaborate, SequencesRecord.all_elaborate]
  | sequence r =>
      simp [elaborate, rootFlows, FlowRecord.all_elaborate, FlowRecord.all_elaborateMediators]
  | template r => simp [elaborate, rootFlows]

end

end Mediation
