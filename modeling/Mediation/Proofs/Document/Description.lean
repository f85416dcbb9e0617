import Mathlib.Data.List.Forall2
import Mathlib.Data.List.ReduceOption
import Mediation.Proofs.Document.Loading
import Mediation.Proofs.Stepping.Progress

/-! What a document says of the artifact that is made of it. A mediator is of the kind that its tag
names, and each of its branches, cases and targets comes from the one written in its place; a flow in
a branch that has no mediators leaves the place empty (`MediatorRecord.Describes`). The layer of a
mediator is again described over the type `φ` of what is written in it. Elaboration makes of a
document what the document describes (`ArtifactRecord.describes_elaborate`), so no mediator of an
artifact nests an empty flow (`ArtifactRecord.Describes.branches`), and a head is armed for every
branch that a fan-out finds. -/

namespace Mediation

namespace Kind

/-- The tags that mediators with branches are known by. -/
def tags : List String :=
  ["filter", "throttle", "switch", "entitlementService", "cache", "validate", "iterate", "foreach",
    "aggregate", "clone", "scatter-gather"]

/-- The tag that mediators of this kind are known by. Simple mediators have no tag in common. -/
def tag? {τ φ : Type} : Kind τ φ → Option String
  | simple => none
  | filter .. => some "filter"
  | throttle .. => some "throttle"
  | switch .. => some "switch"
  | entitlement .. => some "entitlementService"
  | cache _ => some "cache"
  | validate _ => some "validate"
  | iterate _ => some "iterate"
  | foreach _ => some "foreach"
  | aggregate _ => some "aggregate"
  | clone _ => some "clone"
  | scatterGather _ => some "scatter-gather"

end Kind

section

variable {φ : Type} (R : φ → Flow String → Prop)

/-- A branch as written, and what is nested for it. -/
inductive DescribesBranch : Option φ → Option (Flow String) → Prop
  | absent : DescribesBranch none none
  | present {c : φ} {f : Flow String} : R c f → f.mediators ≠ [] → DescribesBranch (some c) (some f)
  | empty {c : φ} {f : Flow String} : R c f → f.mediators = [] → DescribesBranch (some c) none

/-- A case keeps its regex, also if its flow has no mediators. -/
inductive CaseRecord.Describes : CaseRecord φ → Case (Flow String) → Prop
  | intro {regex : Option String} {c : φ} {flow : Option (Flow String)} :
      DescribesBranch R (some c) flow → Describes ⟨regex, c⟩ ⟨regex, flow⟩

/-- A target keeps its element, also if its sequence has no mediators. -/
inductive Target.Describes : Target String φ → Target String (Flow String) → Prop
  | intro {node : Node String} {c : Option φ} {sequence : Option (Flow String)} :
      DescribesBranch R c sequence → Describes ⟨node, c⟩ ⟨node, sequence⟩

/-- A mediator as written, and the mediator of the kind that its tag names. Cases and targets are
one for one and in order. The node is put into each record anew, since a record that is the same
throughout would become a parameter, and `FlowRecord.Describes` could not go through it. -/
inductive MediatorRecord.Describes : MediatorRecord φ → Mediator String (Flow String) → Prop
  | simple {m : MediatorRecord φ} {node : Node String} :
      node.tag ∉ Kind.tags → Describes { m with node } ⟨node, .simple⟩
  | filter {m : MediatorRecord φ} {node : Node String} {thenFlow elseFlow : Option (Flow String)} :
      node.tag = "filter" → DescribesBranch R m.thenFlow thenFlow →
      DescribesBranch R m.elseFlow elseFlow →
      Describes { m with node } ⟨node, .filter thenFlow elseFlow⟩
  | throttle {m : MediatorRecord φ} {node : Node String}
      {onAccept onReject : Option (Flow String)} :
      node.tag = "throttle" → DescribesBranch R m.onAccept onAccept →
      DescribesBranch R m.onReject onReject →
      Describes { m with node } ⟨node, .throttle onAccept onReject⟩
  | switch {m : MediatorRecord φ} {node : Node String} {cases : List (Case (Flow String))}
      {default : Option (Flow String)} :
      node.tag = "switch" → List.Forall₂ (CaseRecord.Describes R) (m.cases.getD []) cases →
      DescribesBranch R m.default default →
      Describes { m with node } ⟨node, .switch cases default⟩
  | entitlement {m : MediatorRecord φ} {node : Node String}
      {onAccept onReject advice obligations : Option (Flow String)} :
      node.tag = "entitlementService" → DescribesBranch R m.onAccept onAccept →
      DescribesBranch R m.onReject onReject → DescribesBranch R m.advice advice →
      DescribesBranch R m.obligations obligations →
      Describes { m with node } ⟨node, .entitlement onAccept onReject advice obligations⟩
  | cache {m : MediatorRecord φ} {node : Node String} {onCacheHit : Option (Flow String)} :
      node.tag = "cache" → DescribesBranch R m.onCacheHit onCacheHit →
      Describes { m with node } ⟨node, .cache onCacheHit⟩
  | validate {m : MediatorRecord φ} {node : Node String} {onFail : Option (Flow String)} :
      node.tag = "validate" → DescribesBranch R m.onFail onFail →
      Describes { m with node } ⟨node, .validate onFail⟩
  | iterate {m : MediatorRecord φ} {node : Node String}
      {target : Option (Target String (Flow String))} :
      node.tag = "iterate" → Option.Rel (Target.Describes R) m.target target →
      Describes { m with node } ⟨node, .iterate target⟩
  | foreach {m : MediatorRecord φ} {node : Node String} {body : Option (Flow String)} :
      node.tag = "foreach" → DescribesBranch R m.sequence body →
      Describes { m with node } ⟨node, .foreach body⟩
  | aggregate {m : MediatorRecord φ} {node : Node String} {onComplete : Option (Flow String)} :
      node.tag = "aggregate" → DescribesBranch R m.onComplete onComplete →
      Describes { m with node } ⟨node, .aggregate onComplete⟩
  | clone {m : MediatorRecord φ} {node : Node String}
      {targets : List (Target String (Flow String))} :
      node.tag = "clone" → List.Forall₂ (Target.Describes R) (m.targets.getD []) targets →
      Describes { m with node } ⟨node, .clone targets⟩
  | scatterGather {m : MediatorRecord φ} {node : Node String}
      {targets : List (Target String (Flow String))} :
      node.tag = "scatter-gather" → List.Forall₂ (Target.Describes R) (m.targets.getD []) targets →
      Describes { m with node } ⟨node, .scatterGather targets⟩

end

/-- A flow as written, and the flow with what its mediators describe. -/
inductive FlowRecord.Describes : FlowRecord → Flow String → Prop
  | intro {node : Node String} {ms : List (MediatorRecord FlowRecord)}
      {ms' : List (Mediator String (Flow String))} :
      List.Forall₂ (MediatorRecord.Describes FlowRecord.Describes) ms ms' →
      Describes ⟨node, ms⟩ ⟨node, ms'⟩

/-- The sequences as written, and those of the artifact. They may be empty. -/
structure SequencesRecord.Describes (s : SequencesRecord) (s' : Sequences String) : Prop where
  inSequence : Option.Rel FlowRecord.Describes s.inSequence s'.inSequence
  outSequence : Option.Rel FlowRecord.Describes s.outSequence s'.outSequence
  faultSequence : Option.Rel FlowRecord.Describes s.faultSequence s'.faultSequence

inductive ResourceRecord.Describes : ResourceRecord → Resource String → Prop
  | intro {r : ResourceRecord} {sequences : Sequences String} : r.sequences.Describes sequences →
      Describes r ⟨⟨"resource", r.range⟩, r.uriTemplate, sequences⟩

inductive ProxyTargetRecord.Describes : ProxyTargetRecord → ProxyTarget String → Prop
  | intro {t : ProxyTargetRecord} {sequences : Sequences String} : t.sequences.Describes sequences →
      Describes t ⟨⟨"target", t.range⟩, sequences⟩

/-- A document and its artifact. -/
inductive ArtifactRecord.Describes : ArtifactRecord → Artifact String → Prop
  | api {r : ApiRecord} {resources : List (Resource String)} :
      List.Forall₂ ResourceRecord.Describes r.resources resources →
      Describes (.api r) (.api r.name ⟨"api", r.range⟩ resources)
  | proxy {r : ProxyRecord} {target : Option (ProxyTarget String)} :
      Option.Rel ProxyTargetRecord.Describes r.target target →
      Describes (.proxy r) (.proxy r.name ⟨"proxy", r.range⟩ target)
  | sequence {r : SequenceRecord} {body : Flow String} :
      FlowRecord.Describes ⟨⟨"sequence", r.range⟩, r.mediators⟩ body →
      Describes (.sequence r) (.sequence r.name body)
  | template {r : TemplateRecord} {body : Option (Flow String)} :
      Option.Rel FlowRecord.Describes r.sequence body →
      Describes (.template r) (.template r.name ⟨"template", r.range⟩ body)

/-! Elaboration makes what is described. -/

namespace MediatorRecord

variable {φ : Type} {R : φ → Flow String → Prop} {g : φ → NotedFlow} {owner : Node String}

theorem describesBranch_branch {flow : Option φ}
    (hR : ∀ w ∈ fields.single owner flow, R w.2 (g w.2).value) :
    DescribesBranch R flow (branch owner (flow.map g)).value := by
  cases flow with
  | none => exact .absent
  | some c =>
      have hc : R c (g c).value := hR (owner, c) (List.mem_singleton.mpr rfl)
      rw [Option.map_some, branch, NotedFlow.value_nonEmpty]
      split
      next hempty => exact .empty hc (List.isEmpty_iff.mp hempty)
      next hempty => exact .present hc fun hnil => hempty (List.isEmpty_iff.mpr hnil)

theorem describes_cases {cases : Option (List (CaseRecord φ))}
    (hR : ∀ w ∈ (cases.getD []).map fun c => (owner, c.flow), R w.2 (g w.2).value) :
    List.Forall₂ (CaseRecord.Describes R) (cases.getD [])
      (((cases.map (List.map (·.map g))).getD []).mapM (case owner)).value := by
  have hgetD : (cases.map (List.map (·.map g))).getD [] = (cases.getD []).map (·.map g) := by
    cases cases <;> rfl
  rw [hgetD, Noted.value_mapM, List.map_map, List.forall₂_map_right_iff, List.forall₂_same]
  rintro ⟨regex, c⟩ hc
  refine .intro (describesBranch_branch fun w (hw : w ∈ fields.single owner (some c)) => ?_)
  rw [List.mem_singleton.mp hw]
  exact hR _ (List.mem_map_of_mem hc)

theorem describes_fanOutTarget {t : Target String φ}
    (hR : ∀ w ∈ fields.sequences [t], R w.2 (g w.2).value) :
    t.Describes R (fanOutTarget (t.map g)).value := by
  obtain ⟨node, sequence⟩ := t
  refine .intro (describesBranch_branch fun w (hw : w ∈ fields.single node sequence) => hR w ?_)
  cases sequence with
  | none => cases hw
  | some c => exact hw

theorem describes_targets {targets : Option (List (Target String φ))}
    (hR : ∀ w ∈ fields.sequences (targets.getD []), R w.2 (g w.2).value) :
    List.Forall₂ (Target.Describes R) (targets.getD [])
      (((targets.map (List.map (·.map g))).getD []).mapM fanOutTarget).value := by
  have hgetD : (targets.map (List.map (·.map g))).getD [] = (targets.getD []).map (·.map g) := by
    cases targets <;> rfl
  rw [hgetD, Noted.value_mapM, List.map_map, List.forall₂_map_right_iff, List.forall₂_same]
  refine fun t ht => describes_fanOutTarget fun w hw => hR w (List.mem_filterMap.mpr ⟨t, ht, ?_⟩)
  obtain ⟨t', ht', hseq⟩ := List.mem_filterMap.mp hw
  obtain rfl := List.mem_singleton.mp ht'
  exact hseq

theorem describes_target {target : Option (Target String φ)}
    (hR : ∀ w ∈ fields.sequences target.toList, R w.2 (g w.2).value) :
    Option.Rel (Target.Describes R) target ((target.map (·.map g)).mapM fanOutTarget).value := by
  cases target with
  | none => exact .none
  | some t => exact .some (describes_fanOutTarget hR)

/-- A mediator comes to what it describes, if everything that is written in it does. -/
theorem describes_elaborate {m : MediatorRecord φ} (hR : ∀ w ∈ m.written, R w.2 (g w.2).value) :
    m.Describes R (m.map g).elaborate.value := by
  simp only [written, fields, List.flatMap_cons, List.flatMap_nil, List.append_nil, List.mem_append,
    or_imp, forall_and] at hR
  obtain ⟨hthen, helse, hacc, hrej, hcases, hdefault, hadvice, hobl, hcache, hfail, htargets,
    htarget, hseq, hcomplete⟩ := hR
  rw [value_elaborate, elaborateKind]
  split
  case h_1 h =>
      exact .filter (m := m) h (describesBranch_branch hthen) (describesBranch_branch helse)
  case h_2 h =>
      exact .throttle (m := m) h (describesBranch_branch hacc) (describesBranch_branch hrej)
  case h_3 h =>
      exact .switch (m := m) h (describes_cases hcases) (describesBranch_branch hdefault)
  case h_4 h =>
      exact .entitlement (m := m) h (describesBranch_branch hacc) (describesBranch_branch hrej)
        (describesBranch_branch hadvice) (describesBranch_branch hobl)
  case h_5 h => exact .cache (m := m) h (describesBranch_branch hcache)
  case h_6 h => exact .validate (m := m) h (describesBranch_branch hfail)
  case h_7 h => exact .iterate (m := m) h (describes_target htarget)
  case h_8 h => exact .foreach (m := m) h (describesBranch_branch hseq)
  case h_9 h => exact .aggregate (m := m) h (describesBranch_branch hcomplete)
  case h_10 h => exact .clone (m := m) h (describes_targets htargets)
  case h_11 h => exact .scatterGather (m := m) h (describes_targets htargets)
  case h_12 =>
      have hsimple : m.node.tag ∉ Kind.tags := by
        simp only [Kind.tags, List.mem_cons, List.not_mem_nil, or_false, not_or]
        exact ⟨‹_›, ‹_›, ‹_›, ‹_›, ‹_›, ‹_›, ‹_›, ‹_›, ‹_›, ‹_›, ‹_›⟩
      by_cases hknown : (m.map g).node.tag ∈ simpleMediators
      · rw [if_neg (not_not_intro hknown)]
        exact .simple (m := m) hsimple
      · rw [if_pos hknown]
        exact .simple (m := m) hsimple

end MediatorRecord

namespace FlowRecord

theorem describes_elaborate (f : FlowRecord) : f.Describes f.elaborate.value := by
  induction f using induct with
  | hstep f ih =>
      rw [value_elaborate]
      obtain ⟨node, ms⟩ := f
      refine .intro ?_
      rw [List.forall₂_map_right_iff, List.forall₂_same]
      exact fun m hm => MediatorRecord.describes_elaborate (ih m hm)

end FlowRecord

/-- What is made of a value that may be absent is described if it is described when present. -/
theorem describes_mapM {α β : Type} {R : α → β → Prop} {f : α → Noted β}
    (h : ∀ a, R a (f a).value) (o : Option α) :
    Option.Rel R o (o.mapM f).value := by
  cases o with
  | none => exact .none
  | some a => exact .some (h a)

theorem SequencesRecord.describes_elaborate (s : SequencesRecord) :
    s.Describes s.elaborate.value where
  inSequence := describes_mapM FlowRecord.describes_elaborate s.inSequence
  outSequence := describes_mapM FlowRecord.describes_elaborate s.outSequence
  faultSequence := describes_mapM FlowRecord.describes_elaborate s.faultSequence

theorem ResourceRecord.describes_elaborate (r : ResourceRecord) : r.Describes r.elaborate.value :=
  .intro r.sequences.describes_elaborate

theorem ProxyTargetRecord.describes_elaborate (t : ProxyTargetRecord) :
    t.Describes t.elaborate.value :=
  .intro t.sequences.describes_elaborate

/-- Every document describes what elaboration makes of it. -/
theorem ArtifactRecord.describes_elaborate (r : ArtifactRecord) :
    r.Describes r.elaborate.value := by
  cases r with
  | api r =>
      refine .api ?_
      rw [Noted.value_mapM, List.forall₂_map_right_iff, List.forall₂_same]
      exact fun r _ => r.describes_elaborate
  | proxy r => exact .proxy (describes_mapM ProxyTargetRecord.describes_elaborate r.target)
  | sequence r =>
      exact .sequence (FlowRecord.describes_elaborate ⟨⟨"sequence", r.range⟩, r.mediators⟩)
  | template r => exact .template (describes_mapM FlowRecord.describes_elaborate r.sequence)

/-! What is described. -/

theorem exists_of_mem_forall₂ {α β : Type} {R : α → β → Prop} {as : List α} {bs : List β}
    (h : List.Forall₂ R as bs) {b : β} (hb : b ∈ bs) :
    ∃ a ∈ as, R a b := by
  induction h with
  | nil => cases hb
  | cons hab _ ih =>
      rcases List.mem_cons.mp hb with rfl | hb
      · exact ⟨_, List.mem_cons_self, hab⟩
      · obtain ⟨a, ha, hab⟩ := ih hb
        exact ⟨a, List.mem_cons_of_mem _ ha, hab⟩

theorem exists_of_mem_rel {α β : Type} {R : α → β → Prop} {o : Option α} {o' : Option β}
    (h : Option.Rel R o o') {b : β} (hb : b ∈ o') :
    ∃ a ∈ o, R a b := by
  cases h with
  | none => cases hb
  | some hab =>
      cases hb
      exact ⟨_, rfl, hab⟩

section

variable {φ : Type} {R : φ → Flow String → Prop}

/-- A flow that a mediator nests has mediators and comes from one that is written. -/
theorem DescribesBranch.of_mem {c : Option φ} {flow : Option (Flow String)}
    (h : DescribesBranch R c flow) {f : Flow String} (hf : f ∈ flow) :
    f.mediators ≠ [] ∧ ∃ c, R c f := by
  cases h with
  | absent => cases hf
  | present hc hne =>
      cases hf
      exact ⟨hne, _, hc⟩
  | empty => cases hf

theorem CaseRecord.Describes.of_mem {cs : List (CaseRecord φ)} {cases : List (Case (Flow String))}
    (h : List.Forall₂ (CaseRecord.Describes R) cs cases) {f : Flow String}
    (hf : f ∈ cases.filterMap (·.flow)) :
    f.mediators ≠ [] ∧ ∃ c, R c f := by
  obtain ⟨x, hx, hf⟩ := List.mem_filterMap.mp hf
  obtain ⟨c, -, ⟨hbranch⟩⟩ := exists_of_mem_forall₂ h hx
  exact hbranch.of_mem hf

theorem Target.Describes.of_mem {ts : List (Target String φ)}
    {targets : List (Target String (Flow String))}
    (h : List.Forall₂ (Target.Describes R) ts targets) {f : Flow String}
    (hf : f ∈ targets.filterMap (·.sequence)) :
    f.mediators ≠ [] ∧ ∃ c, R c f := by
  obtain ⟨x, hx, hf⟩ := List.mem_filterMap.mp hf
  obtain ⟨t, -, ⟨hbranch⟩⟩ := exists_of_mem_forall₂ h hx
  exact hbranch.of_mem hf

namespace MediatorRecord.Describes

variable {m : MediatorRecord φ} {x : Mediator String (Flow String)}

/-- No branch of a mediator is empty. -/
theorem branch (h : m.Describes R x) {f : Flow String} (hf : f ∈ x.branches) :
    f.mediators ≠ [] ∧ ∃ c, R c f := by
  cases h with
  | simple => cases hf
  | filter _ hthen helse | throttle _ hthen helse =>
      simp only [Mediator.branches, Kind.branches, List.mem_append, Option.mem_toList] at hf
      rcases hf with hf | hf
      · exact hthen.of_mem hf
      · exact helse.of_mem hf
  | switch _ hcases hdefault =>
      rcases List.mem_append.mp hf with hf | hf
      · exact CaseRecord.Describes.of_mem hcases hf
      · exact hdefault.of_mem (Option.mem_toList.mp hf)
  | entitlement _ hacc hrej hadvice hobl =>
      simp only [Mediator.branches, Kind.branches, List.mem_append, Option.mem_toList] at hf
      rcases hf with ((hf | hf) | hf) | hf
      · exact hacc.of_mem hf
      · exact hrej.of_mem hf
      · exact hadvice.of_mem hf
      · exact hobl.of_mem hf
  | cache _ hbranch | validate _ hbranch | foreach _ hbranch | aggregate _ hbranch =>
      exact hbranch.of_mem (Option.mem_toList.mp hf)
  | iterate _ htarget =>
      obtain ⟨t, ht, hf⟩ := List.mem_filterMap.mp hf
      obtain ⟨_, -, ⟨hbranch⟩⟩ := exists_of_mem_rel htarget (Option.mem_toList.mp ht)
      exact hbranch.of_mem hf
  | clone _ htargets | scatterGather _ htargets => exact Target.Describes.of_mem htargets hf

/-- A mediator is of the kind that its tag names, and simple if its tag names none. -/
theorem tag?_kind (h : m.Describes R x) :
    x.kind.tag? = if x.node.tag ∈ Kind.tags then some x.node.tag else none := by
  cases h with
  | simple htag => rw [if_neg htag]; rfl
  | _ htag => simp [htag, Kind.tag?, Kind.tags]

end MediatorRecord.Describes

end

namespace FlowRecord.Describes

theorem mediator {r : FlowRecord} {f : Flow String} (h : r.Describes f)
    {x : Mediator String (Flow String)} (hx : x ∈ f.mediators) :
    ∃ m, MediatorRecord.Describes FlowRecord.Describes m x := by
  obtain ⟨hms⟩ := h
  obtain ⟨m, -, hm⟩ := exists_of_mem_forall₂ hms hx
  exact ⟨m, hm⟩

/-- What is nested in a flow that is described is described in turn. -/
theorem nested {r : FlowRecord} {f : Flow String} (h : r.Describes f) {g : Flow String}
    (hg : g ∈ f.withNested) :
    ∃ r : FlowRecord, r.Describes g := by
  induction f using Flow.induct generalizing r with
  | hstep f ih =>
      rw [Flow.withNested_eq] at hg
      rcases List.mem_cons.mp hg with rfl | hg
      · exact ⟨r, h⟩
      · obtain ⟨c, hc, hg⟩ := List.mem_flatMap.mp hg
        obtain ⟨x, hx, hbranch⟩ := List.mem_flatMap.mp hc
        obtain ⟨m, hm⟩ := h.mediator hx
        obtain ⟨-, r', hr'⟩ := hm.branch hbranch
        exact ih c hc hr' hg

end FlowRecord.Describes

theorem SequencesRecord.Describes.flow {s : SequencesRecord} {s' : Sequences String}
    (h : s.Describes s') {f : Flow String} (hf : f ∈ s'.toList) :
    ∃ r : FlowRecord, r.Describes f := by
  have hrel : ∀ {o : Option FlowRecord} {o' : Option (Flow String)},
      Option.Rel FlowRecord.Describes o o' → f ∈ o' → ∃ r : FlowRecord, r.Describes f := by
    intro o o' ho hf
    obtain ⟨r, -, hr⟩ := exists_of_mem_rel ho hf
    exact ⟨r, hr⟩
  simp only [Sequences.toList, List.mem_append, Option.mem_toList] at hf
  rcases hf with (hf | hf) | hf
  · exact hrel h.inSequence hf
  · exact hrel h.outSequence hf
  · exact hrel h.faultSequence hf

namespace ArtifactRecord.Describes

variable {r : ArtifactRecord} {a : Artifact String}

theorem rootFlow (h : r.Describes a) {f : Flow String} (hf : f ∈ a.rootFlows) :
    ∃ r : FlowRecord, r.Describes f := by
  cases h with
  | api hresources =>
      obtain ⟨x, hx, hf⟩ := List.mem_flatMap.mp hf
      obtain ⟨_, -, ⟨hsequences⟩⟩ := exists_of_mem_forall₂ hresources hx
      exact hsequences.flow hf
  | proxy htarget =>
      obtain ⟨x, hx, hf⟩ := List.mem_flatMap.mp hf
      obtain ⟨_, -, ⟨hsequences⟩⟩ := exists_of_mem_rel htarget (Option.mem_toList.mp hx)
      exact hsequences.flow hf
  | sequence hbody =>
      obtain rfl := List.mem_singleton.mp hf
      exact ⟨_, hbody⟩
  | template hbody =>
      obtain ⟨r, -, hr⟩ := exists_of_mem_rel hbody (Option.mem_toList.mp hf)
      exact ⟨r, hr⟩

/-- Every mediator of an artifact, at any depth, is described by one that is written. -/
theorem mediator (h : r.Describes a) {f : Flow String} (hf : f ∈ a.flows)
    {x : Mediator String (Flow String)} (hx : x ∈ f.mediators) :
    ∃ m, MediatorRecord.Describes FlowRecord.Describes m x := by
  obtain ⟨root, hroot, hf⟩ := List.mem_flatMap.mp hf
  obtain ⟨r, hr⟩ := h.rootFlow hroot
  obtain ⟨r', hr'⟩ := hr.nested hf
  exact hr'.mediator hx

end ArtifactRecord.Describes

/-! What a fan-out arms. -/

/-- If no flow in the slots is empty, a head is armed for each of them, in order. -/
theorem Stepper.forall₂_slotHeads {τ : Type} {slots : List (Option (Flow τ))}
    (hne : ∀ f, some f ∈ slots → f.mediators ≠ []) :
    List.Forall₂ (fun (f : Flow τ) head => f.head? = some head) slots.reduceOption
      (slotHeads slots) := by
  induction slots with
  | nil => exact .nil
  | cons slot slots ih =>
      have hrest := ih fun f hf => hne f (List.mem_cons_of_mem _ hf)
      cases slot with
      | none => exact hrest
      | some f =>
          obtain ⟨m, rest, hms⟩ := List.exists_cons_of_ne_nil (hne f List.mem_cons_self)
          have hhead : f.head? = some m.head := by rw [Flow.head?, hms]; rfl
          have hcons : slotHeads (some f :: slots) = m.head :: slotHeads slots := by
            simp only [slotHeads, List.filterMap_cons, Option.bind_some, hhead]
          rw [List.reduceOption_cons_of_some, hcons]
          exact .cons hhead hrest

/-- What is loaded is what the document describes. At every depth a mediator is of the kind that its
tag names and nests no empty flow, so it arms one head for each of its slots that has a flow. -/
theorem describes_of_load {source : String} {loaded : Loaded} (h : load source = .ok loaded) :
    (∃ r, ArtifactRecord.ofText source = .ok r ∧ r.Describes loaded.artifact) ∧
    ∀ f ∈ loaded.artifact.flows, ∀ m ∈ f.mediators,
      (∀ c ∈ m.branches, c.mediators ≠ []) ∧
      (m.kind.tag? = if m.node.tag ∈ Kind.tags then some m.node.tag else none) ∧
      ∀ slots ∈ m.kind.slots?, ∀ (r : Stepper) (s : Progress),
        ∃ heads, (r.enter slots s).armed = s.armed ++ heads ∧
          List.Forall₂ (fun (c : Flow String) head => c.head? = some head) slots.reduceOption
            heads := by
  obtain ⟨r, hr, -, rfl⟩ := load_eq_ok_iff.mp h
  have hdescribes := r.describes_elaborate
  refine ⟨⟨r, hr, hdescribes⟩, fun f hf m hm => ?_⟩
  obtain ⟨written, hwritten⟩ := hdescribes.mediator hf hm
  have hne : ∀ c ∈ m.branches, c.mediators ≠ [] := fun c hc => (hwritten.branch hc).1
  refine ⟨hne, hwritten.tag?_kind, fun slots hslots stepper s => ?_⟩
  refine ⟨Stepper.slotHeads slots, stepper.armed_enter slots s, Stepper.forall₂_slotHeads ?_⟩
  exact fun c hc => hne c ((Kind.mem_branches_iff_of_slots? hslots).mpr hc)

/-- The switch keeps its second case, which has no flow, and arms the head of the first. -/
theorem describes_of_load_switching :
    load switchingJson.compact = .ok ⟨switchingArtifact, switchingFindings.map (·.diagnostic)⟩ ∧
    (∃ r, ArtifactRecord.ofText switchingJson.compact = .ok r ∧ r.Describes switchingArtifact) ∧
    ∀ f ∈ switchingArtifact.flows, ∀ m ∈ f.mediators,
      (∀ c ∈ m.branches, c.mediators ≠ []) ∧
      (m.kind.tag? = if m.node.tag ∈ Kind.tags then some m.node.tag else none) ∧
      ∀ slots ∈ m.kind.slots?, ∀ (r : Stepper) (s : Progress),
        ∃ heads, (r.enter slots s).armed = s.armed ++ heads ∧
          List.Forall₂ (fun (c : Flow String) head => c.head? = some head) slots.reduceOption
            heads :=
  ⟨load_switchingJson, describes_of_load load_switchingJson⟩

end Mediation
