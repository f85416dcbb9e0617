import Mathlib.Data.List.Nodup
import Mediation.Proofs.Document.Elaboration
import Mediation.Proofs.Element

/-! The branches of a mediator and the table of branches. Which branches a mediator may be written
with is said three times: in the table (`supportedBranches`), in the list of what is written
(`MediatorRecord.declared`), and by the dispatch on the tag (`MediatorRecord.elaborateKind`). Here all
three are told by what is written under each name (`MediatorRecord.content?`), and so they agree: what
is written under a name outside the table is noted once and has no other effect, and what is written
under a name of the table is nested in the mediator unless it is empty
(`MediatorRecord.elaborate_of_agrees`). -/

namespace Mediation

namespace MediatorRecord

/-- What is written in a branch. -/
inductive Content (φ : Type) where
  | flow (flow : φ)
  | cases (cases : List (CaseRecord φ))
  | targets (targets : List (Target String φ))
  | target (target : Target String φ)

/-- The flows in a branch, each with the element that it is directly in. -/
def Content.flows {φ : Type} (owner : Node String) : Content φ → List (Node String × φ)
  | flow f => [(owner, f)]
  | cases cs => cs.map fun c => (owner, c.flow)
  | targets ts => fields.sequences ts
  | target t => fields.sequences [t]

/-- The branch with something else in the place of what is written in it. -/
def Content.map {φ ψ : Type} (g : φ → ψ) : Content φ → Content ψ
  | flow f => .flow (g f)
  | cases cs => .cases (cs.map (·.map g))
  | targets ts => .targets (ts.map (·.map g))
  | target t => .target (t.map g)

variable {φ ψ : Type}

/-- The names of the branches, in the order of the format. -/
def branchNames : List String :=
  ["then", "else", "onAccept", "onReject", "cases", "default", "advice", "obligations", "onCacheHit",
    "onFail", "targets", "target", "sequence", "onComplete"]

/-- What is written in the branch of that name. -/
def content? (m : MediatorRecord φ) : String → Option (Content φ)
  | "then" => m.thenFlow.map .flow
  | "else" => m.elseFlow.map .flow
  | "onAccept" => m.onAccept.map .flow
  | "onReject" => m.onReject.map .flow
  | "cases" => m.cases.map .cases
  | "default" => m.default.map .flow
  | "advice" => m.advice.map .flow
  | "obligations" => m.obligations.map .flow
  | "onCacheHit" => m.onCacheHit.map .flow
  | "onFail" => m.onFail.map .flow
  | "targets" => m.targets.map .targets
  | "target" => m.target.map .target
  | "sequence" => m.sequence.map .flow
  | "onComplete" => m.onComplete.map .flow
  | _ => none

/-- The flows in the branch of that name, each with the element that it is directly in. -/
def flowsIn (m : MediatorRecord φ) (name : String) : List (Node String × φ) :=
  (m.content? name).toList.flatMap (·.flows m.node)

theorem content?_map (g : φ → ψ) (m : MediatorRecord φ) (name : String) :
    (m.map g).content? name = (m.content? name).map (Content.map g) := by
  unfold content?
  split <;> simp [map, Content.map, Function.comp_def]

theorem mem_branchNames {m : MediatorRecord φ} {name : String} (h : (m.content? name).isSome) :
    name ∈ branchNames := by
  unfold content? at h
  split at h <;> first | cases h | decide

theorem declared_eq (m : MediatorRecord φ) :
    m.declared = branchNames.filter fun name => (m.content? name).isSome := by
  have hentries : m.declared =
      (branchNames.map fun name => (name, (m.content? name).isSome)).filterMap fun entry =>
        if entry.2 then some entry.1 else none := by
    simp only [declared, branchNames, content?, List.map_cons, List.map_nil, Option.isSome_map]
  rw [hentries, List.filterMap_map, ← List.filterMap_eq_filter]
  rfl

theorem fields_eq (m : MediatorRecord φ) :
    m.fields = branchNames.map fun name => (name, m.flowsIn name) := by
  have hflow : ∀ flow : Option φ, fields.single m.node flow =
      (flow.map Content.flow).toList.flatMap (·.flows m.node) := by
    intro flow
    cases flow <;> rfl
  have hcases : ∀ cases : Option (List (CaseRecord φ)),
      ((cases.getD []).map fun c => (m.node, c.flow)) =
        (cases.map Content.cases).toList.flatMap (·.flows m.node) := by
    intro cases
    cases cases <;> simp [Content.flows]
  have htargets : ∀ targets : Option (List (Target String φ)), fields.sequences (targets.getD []) =
      (targets.map Content.targets).toList.flatMap (·.flows m.node) := by
    intro targets
    cases targets <;> simp [Content.flows, fields.sequences]
  have htarget : ∀ target : Option (Target String φ), fields.sequences target.toList =
      (target.map Content.target).toList.flatMap (·.flows m.node) := by
    intro target
    cases target <;> simp [Content.flows, fields.sequences]
  simp only [fields, branchNames, flowsIn, content?, List.map_cons, List.map_nil, hflow, hcases,
    htargets, htarget]

/-- What is used in a mediator is what is written under the names of the table. -/
theorem used_eq (m : MediatorRecord φ) :
    m.used = (branchNames.filter (· ∈ supportedBranches m.node.tag)).flatMap m.flowsIn := by
  rw [used, fields_eq, List.filter_map, List.flatMap_map]
  rfl

/-- A name is noted once if something is written under it that the table has no place for. -/
theorem count_unsupported (m : MediatorRecord φ) (name : String) :
    m.unsupported.count name =
      if (m.content? name).isSome ∧ name ∉ supportedBranches m.node.tag then 1 else 0 := by
  have hnodup : branchNames.Nodup := by decide
  have hunsupported : m.unsupported.Nodup := by
    rw [unsupported, declared_eq]
    exact (hnodup.filter _).filter _
  have hmem : name ∈ m.unsupported ↔
      (m.content? name).isSome ∧ name ∉ supportedBranches m.node.tag := by
    rw [unsupported, declared_eq, List.mem_filter, List.mem_filter, decide_eq_true_eq]
    exact and_congr_left fun _ => and_iff_right_of_imp mem_branchNames
  rw [hunsupported.count]
  exact if_congr hmem rfl rfl

/-- The mediators are the same element, and the same is written in every branch of the table. -/
structure Agrees (m m' : MediatorRecord φ) : Prop where
  node : m.node = m'.node
  content : ∀ name ∈ supportedBranches m.node.tag, m.content? name = m'.content? name

namespace Agrees

variable {m m' : MediatorRecord φ}

theorem used_eq (h : m.Agrees m') : m.used = m'.used := by
  rw [MediatorRecord.used_eq, MediatorRecord.used_eq, ← h.node]
  refine List.flatMap_congr fun name hname => ?_
  rw [flowsIn, flowsIn, h.content name (of_decide_eq_true (List.mem_filter.mp hname).2), h.node]

/-- What a mediator is made of, apart from what its tag has no use for, is the same. -/
theorem elaborateKind_eq {m m' : MediatorRecord NotedFlow} (h : m.Agrees m') :
    m.elaborateKind = m'.elaborateKind := by
  have hcontent := h.content
  rw [elaborateKind, elaborateKind, ← h.node]
  -- a tag outside the table asks for no branch, any other for those that the table lists under it
  split
  case h_12 => rfl
  all_goals
    next htag =>
      simp only [htag, supportedBranches, List.forall_mem_cons, content?, Option.map_inj_right,
        Content.flow.injEq, Content.cases.injEq, Content.targets.injEq, Content.target.injEq,
        imp_self, implies_true] at hcontent
      simp only [hcontent]

/-- The same is written in them if anything is made of what is written. -/
theorem map (g : φ → ψ) (h : m.Agrees m') : (m.map g).Agrees (m'.map g) where
  node := h.node
  content name hname := by
    rw [content?_map, content?_map, h.content name hname]

end Agrees

/-! What is found in a mediator and what is nested in it, branch by branch. -/

theorem sequences_eq_flatMap (ts : List (Target String φ)) :
    fields.sequences ts = ts.flatMap fun t => fields.single t.node t.sequence := by
  rw [fields.sequences, List.filterMap_eq_flatMap_toList]
  exact List.flatMap_congr fun t _ => Option.toList_map ..

section

variable {owner : Node String}

theorem findings_branch (flow : Option NotedFlow) :
    (branch owner flow).findings =
      (fields.single owner flow).flatMap fun w => (w.2.nonEmpty w.1).findings := by
  cases flow <;> simp [branch, fields.single]

theorem toList_value_branch (flow : Option NotedFlow) :
    (branch owner flow).value.toList =
      (fields.single owner flow).filterMap fun w => (w.2.nonEmpty w.1).value := by
  rw [fields.single, List.filterMap_map, List.filterMap_eq_flatMap_toList]
  cases flow with
  | none => rfl
  | some flow => exact (List.flatMap_singleton ..).symm

theorem findings_cases (cases : List (CaseRecord NotedFlow)) :
    (cases.mapM (case owner)).findings =
      (cases.map fun c => (owner, c.flow)).flatMap fun w => (w.2.nonEmpty w.1).findings := by
  simp [Noted.findings_mapM, case, List.flatMap_map]

theorem flows_value_cases (cases : List (CaseRecord NotedFlow)) :
    (cases.mapM (case owner)).value.filterMap (·.flow) =
      (cases.map fun c => (owner, c.flow)).filterMap fun w => (w.2.nonEmpty w.1).value := by
  rw [Noted.value_mapM, List.filterMap_map, List.filterMap_map]
  rfl

theorem findings_targets (targets : List (Target String NotedFlow)) :
    (targets.mapM fanOutTarget).findings =
      (fields.sequences targets).flatMap fun w => (w.2.nonEmpty w.1).findings := by
  simp [Noted.findings_mapM, sequences_eq_flatMap, fanOutTarget, findings_branch, List.flatMap_assoc]

theorem sequences_value_targets (targets : List (Target String NotedFlow)) :
    (targets.mapM fanOutTarget).value.filterMap (·.sequence) =
      (fields.sequences targets).filterMap fun w => (w.2.nonEmpty w.1).value := by
  rw [Noted.value_mapM, List.filterMap_map, List.filterMap_eq_flatMap_toList, sequences_eq_flatMap,
    List.filterMap_flatMap]
  exact List.flatMap_congr fun t _ => toList_value_branch t.sequence

theorem findings_target (target : Option (Target String NotedFlow)) :
    (target.mapM fanOutTarget).findings =
      (fields.sequences target.toList).flatMap fun w => (w.2.nonEmpty w.1).findings := by
  rw [← findings_targets, Noted.findings_mapM, Noted.findings_mapM_option]

theorem sequences_value_target (target : Option (Target String NotedFlow)) :
    (target.mapM fanOutTarget).value.toList.filterMap (·.sequence) =
      (fields.sequences target.toList).filterMap fun w => (w.2.nonEmpty w.1).value := by
  rw [← sequences_value_targets, Noted.value_mapM, Noted.value_mapM_option, Option.toList_map]

end

instance (m : MediatorRecord φ) : Decidable m.Unknown := inferInstanceAs (Decidable (_ ∧ _))

/-- What is found on a mediator, apart from branches that it has no use for: what is found in the
branches, in order, and that the tag is not known. -/
theorem findings_elaborateKind (m : MediatorRecord NotedFlow) :
    m.elaborateKind.findings = (m.used.flatMap fun w => (w.2.nonEmpty w.1).findings) ++
      if m.Unknown then [.unknownMediator m.node] else [] := by
  rw [elaborateKind, used, fields]
  split
  case h_12 =>
      have hnone : supportedBranches m.node.tag = [] := by simp [supportedBranches, *]
      by_cases hknown : m.node.tag ∈ simpleMediators <;> simp [hnone, hknown, Unknown, Noted.note]
  all_goals
    next h =>
      simp [h, supportedBranches, findings_branch, findings_cases, findings_targets,
        findings_target, Unknown]

/-- What is nested in a mediator are the flows that are used and have mediators, in order. -/
theorem branches_elaborateKind (m : MediatorRecord NotedFlow) :
    m.elaborateKind.value.branches = m.used.filterMap fun w => (w.2.nonEmpty w.1).value := by
  rw [elaborateKind, used, fields]
  split
  case h_12 =>
      have hnone : supportedBranches m.node.tag = [] := by simp [supportedBranches, *]
      by_cases hknown : m.node.tag ∈ simpleMediators <;> simp [hnone, hknown, Kind.branches]
  all_goals
    next h =>
      simp [h, supportedBranches, Kind.branches, toList_value_branch, flows_value_cases,
        sequences_value_targets, sequences_value_target, -Noted.value_mapM,
        -Noted.value_mapM_option, -List.filterMap_map]

/-! The same of what is written, through the recursion. -/

end MediatorRecord

theorem FlowRecord.isEmpty_value_eq (f : FlowRecord) :
    f.elaborate.value.isEmpty = f.mediators.isEmpty := by
  rw [value_elaborate, Flow.isEmpty, List.isEmpty_map]

namespace MediatorRecord

/-- What is found in the branches of the table and on the tag: in each branch what is found in it and,
if it has no mediators, that it is empty. -/
def foundInside (m : MediatorRecord FlowRecord) : List Finding :=
  (m.used.flatMap fun w => w.2.elaborate.findings ++
    if w.2.mediators.isEmpty then [.emptyBranch w.2.node w.1] else []) ++
  if m.Unknown then [.unknownMediator m.node] else []

theorem findings_elaborate (m : MediatorRecord FlowRecord) :
    (FlowRecord.elaborateBranches m).elaborate.findings =
      m.unsupported.map (.unsupportedBranch m.node) ++ m.foundInside := by
  have hbranch : ∀ w : Node String × FlowRecord, (w.2.elaborate.nonEmpty w.1).findings =
      w.2.elaborate.findings ++
        if w.2.mediators.isEmpty then [.emptyBranch w.2.node w.1] else [] := by
    intro w
    rw [NotedFlow.nonEmpty, Noted.findings_bind, FlowRecord.isEmpty_value_eq,
      FlowRecord.node_value_elaborate]
    split <;> rfl
  rw [FlowRecord.elaborateBranches_eq, elaborate, Noted.findings_bind, Noted.findings_forM_note,
    unsupported_map, Noted.findings_bind, Noted.findings_pure, List.append_nil,
    findings_elaborateKind, used_map, List.flatMap_map, foundInside]
  simp only [hbranch]
  rfl

theorem branches_elaborate (m : MediatorRecord FlowRecord) :
    (FlowRecord.elaborateBranches m).elaborate.value.branches =
      (m.used.filter (¬·.2.mediators.isEmpty)).map (·.2.elaborate.value) := by
  rw [FlowRecord.elaborateBranches_eq, value_elaborate, Mediator.branches, branches_elaborateKind,
    used_map, List.filterMap_map, ← List.filterMap_eq_map, List.filterMap_filter]
  refine List.filterMap_congr fun w _ => ?_
  rw [Function.comp_apply, NotedFlow.value_nonEmpty, FlowRecord.isEmpty_value_eq]
  cases w.2.mediators.isEmpty <;> rfl

/-- What elaboration makes of a mediator keeps to the table of branches. -/
structure KeepsTable (m : MediatorRecord FlowRecord) (x : Noted (Mediator String (Flow String))) :
    Prop where
  findings : x.findings = m.unsupported.map (.unsupportedBranch m.node) ++ m.foundInside
  /-- A branch outside the table is noted once, and no branch of the table is. -/
  unsupported : ∀ name, m.unsupported.count name =
    if (m.content? name).isSome ∧ name ∉ supportedBranches m.node.tag then 1 else 0
  branches : x.value.branches = (m.used.filter (¬·.2.mediators.isEmpty)).map (·.2.elaborate.value)
  /-- No flow with mediators is lost from a branch of the table. -/
  nested : ∀ name ∈ supportedBranches m.node.tag, ∀ w ∈ m.flowsIn name, w.2.mediators ≠ [] →
    w.2.elaborate.value ∈ x.value.branches

theorem keepsTable_elaborate (m : MediatorRecord FlowRecord) :
    m.KeepsTable (FlowRecord.elaborateBranches m).elaborate where
  findings := m.findings_elaborate
  unsupported := m.count_unsupported
  branches := m.branches_elaborate
  nested := by
    intro name hname w hw hne
    have hnames : name ∈ branchNames := by
      obtain ⟨c, hc, -⟩ := List.mem_flatMap.mp hw
      exact mem_branchNames (Option.isSome_of_mem (Option.mem_toList.mp hc))
    have hused : w ∈ m.used := by
      rw [used_eq]
      exact List.mem_flatMap.mpr ⟨name, List.mem_filter.mpr ⟨hnames, decide_eq_true hname⟩, hw⟩
    rw [branches_elaborate]
    exact List.mem_map.mpr ⟨w, List.mem_filter.mpr ⟨hused, by simpa using hne⟩, rfl⟩

/-- Mediators that agree on the branches of the table come to the same, and the same is found in them
apart from the branches outside the table. -/
theorem elaborate_of_agrees {m m' : MediatorRecord FlowRecord} (h : m.Agrees m') :
    (m.KeepsTable (FlowRecord.elaborateBranches m).elaborate ∧
      m'.KeepsTable (FlowRecord.elaborateBranches m').elaborate) ∧
    (FlowRecord.elaborateBranches m).elaborate.value =
      (FlowRecord.elaborateBranches m').elaborate.value ∧
    m.foundInside = m'.foundInside ∧
    (FlowRecord.elaborateBranches m).elaborate.findings.filter (·.code ≠ .unsupportedBranch) =
      (FlowRecord.elaborateBranches m').elaborate.findings.filter (·.code ≠ .unsupportedBranch) := by
  have hvalue : (FlowRecord.elaborateBranches m).elaborate.value =
      (FlowRecord.elaborateBranches m').elaborate.value := by
    simp only [FlowRecord.elaborateBranches_eq, value_elaborate]
    rw [(h.map FlowRecord.elaborate).elaborateKind_eq]
    exact congrArg (Mediator.mk · _) h.node
  have hinside : m.foundInside = m'.foundInside := by
    have hunknown : m.Unknown ↔ m'.Unknown := by rw [Unknown, Unknown, h.node]
    rw [foundInside, foundInside, h.used_eq]
    exact congrArg _ (if_congr hunknown (by rw [h.node]) rfl)
  -- what is left out of the findings is not only on the mediators themselves: a branch outside the
  -- table may also be written further in, but there it is the same for both
  have hown : ∀ (n : Node String) (names : List String),
      (names.map (Finding.unsupportedBranch n)).filter (·.code ≠ .unsupportedBranch) = [] := by
    intro n names
    rw [List.filter_map, List.map_eq_nil_iff, List.filter_eq_nil_iff]
    intro name _
    simp [Finding.code]
  refine ⟨⟨m.keepsTable_elaborate, m'.keepsTable_elaborate⟩, hvalue, hinside, ?_⟩
  rw [findings_elaborate, findings_elaborate, List.filter_append, List.filter_append, hown, hown,
    hinside]

/-- A filter with one mediator to run, written with a branch that filters do not have. -/
def filtering (onFail : Option FlowRecord) : MediatorRecord FlowRecord :=
  { bare (.onLines "filter" 1 7) with
    thenFlow := some ⟨.onLines "then" 2 4, [.bare (.onLine "log" 3)]⟩
    onFail }

/-- A branch with a mediator of a tag that is not known. -/
def strayBranch : FlowRecord := ⟨.onLine "onFail" 5, [.bare (.onLine "fancyLog" 6)]⟩

/-- The stray branch is noted; the mediator in it is not. -/
theorem elaborate_of_agrees_filtering :
    (filtering none).Agrees (filtering (some strayBranch)) ∧
    (FlowRecord.elaborateBranches (filtering none)).elaborate.value =
      (FlowRecord.elaborateBranches (filtering (some strayBranch))).elaborate.value ∧
    (FlowRecord.elaborateBranches (filtering none)).elaborate.findings = [] ∧
    (FlowRecord.elaborateBranches (filtering (some strayBranch))).elaborate.findings =
      [.unsupportedBranch (.onLines "filter" 1 7) "onFail"] := by
  have hagrees : (filtering none).Agrees (filtering (some strayBranch)) := by
    refine ⟨rfl, fun name hname => ?_⟩
    have hsupported : name ∈ ["then", "else"] := hname
    rcases List.mem_pair.mp hsupported with rfl | rfl <;> rfl
  exact ⟨hagrees, (elaborate_of_agrees hagrees).2.1, rfl, rfl⟩

end MediatorRecord

end Mediation
