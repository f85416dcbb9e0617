import Mathlib.Data.List.Perm.Basic
import Mediation.Proofs.Document.RangeCheck

/-! The check of ranges as an inspection of one element after the other. What is to be said about an
element depends on its own tags and on the element next around it, and on nothing else
(`Lineage.remarks`). The check says it about every element, in document order, and it comes to each of
them once: the elements in the order of the check are those of all flows of the artifact and of what
holds these flows (`Artifact.remarks_of_check`). -/

namespace Mediation

/-- What is to be said about an element where it stands: that a tag of it is inverted, that its end tag
starts before its start tag stops, and that it reaches out of the element next around it. -/
def Lineage.remarks (x : Lineage String) : List Diagnostic :=
  ((x.node.range.tags.filter (·.Inverted)).map fun tag =>
    { severity := .error
      message := Finding.tagText x.node ++ " has an inverted range " ++ toString tag
      code := some .invertedRange
      help := some "a range must not end before it starts" }) ++
  ((x.node.range.endTag?.toList.filter (·.start < x.node.range.startTag.stop)).map fun endTag =>
    { severity := .error
      message := "end tag of " ++ Finding.tagText x.node ++ " at " ++ toString endTag.start ++
        " begins before its start tag ends at " ++ toString x.node.range.startTag.stop
      code := some .misorderedTags }) ++
  ((x.around.head?.toList.filter fun parent => ¬x.node.range.extent.Inverted ∧
      ¬parent.range.extent.Encloses x.node.range.extent).map fun parent =>
    { severity := .warning
      message := Finding.tagText x.node ++ " at " ++ toString x.node.range.extent ++
        " is outside its parent " ++ Finding.tagText parent ++ " at " ++ toString parent.range.extent
      code := some .childOutsideParent
      help := some "breakpoints inside it may not be found" })

namespace Lineage

/-- The check finds in an element what is to be said about it. -/
theorem map_diagnostic_check (x : Lineage String) : x.check.map (·.diagnostic) = x.remarks := by
  have hinverted : x.node.invertedTags.map (·.diagnostic) =
      (x.node.range.tags.filter (·.Inverted)).map fun tag =>
        (Finding.invertedRange x.node tag).diagnostic := by
    rw [Node.invertedTags, List.map_map]
    rfl
  have hmisordered : x.node.misorderedTags.map (·.diagnostic) =
      (x.node.range.endTag?.toList.filter (·.start < x.node.range.startTag.stop)).map fun endTag =>
        (Finding.misorderedTags x.node x.node.range.startTag endTag).diagnostic := by
    rw [Node.misorderedTags]
    cases x.node.range with
    | selfClosed tag => rfl
    | container startTag endTag =>
        rw [SourceRange.endTag?, SourceRange.startTag, Option.toList_some, List.filter_singleton]
        by_cases hlt : endTag.start < startTag.stop <;> simp [hlt]
  have hcheck : x.node.check.map (·.diagnostic) = _ :=
    (List.map_append ..).trans (congrArg₂ (· ++ ·) hinverted hmisordered)
  rw [check]
  split
  next h =>
      rw [hcheck, remarks, h]
      exact (List.append_nil _).symm
  next parent outer h =>
      rw [Node.checkWithin, List.map_append, hcheck, remarks, h, List.head?_cons,
        Option.toList_some, List.filter_singleton]
      refine congrArg₂ (· ++ ·) rfl ?_
      split <;> rename_i hout <;> simp only [hout] <;> rfl

end Lineage

/-! Every element is listed once: the list goes down into each element before it goes on to the next,
and is told here as what holds the flows, flow by flow. -/

section

variable {τ : Type}

namespace Flow

/-- The elements of a flow apart from the flows nested in it: its own, and those of its mediators and of
their targets. -/
def nodes (f : Flow τ) : List (Node τ) :=
  f.node :: f.mediators.flatMap fun m => m.node :: m.kind.targets.map (·.node)

/-- The elements of a flow and of all flows nested in it. -/
def allNodes (f : Flow τ) : List (Node τ) := f.withNested.flatMap nodes

theorem allNodes_eq (f : Flow τ) :
    f.allNodes = f.nodes ++ f.mediators.flatMap fun m => m.branches.flatMap allNodes := by
  rw [allNodes, withNested_eq, List.flatMap_cons, List.flatMap_assoc, nested, List.flatMap_assoc]
  rfl

end Flow

namespace Element

/-- The elements in an element, itself among them. -/
def nodes (around : List (Node τ)) (e : Element τ) : List (Node τ) := (e.lineages around).map (·.node)

theorem nodes_eq (around : List (Node τ)) (e : Element τ) :
    e.nodes around = e.node :: e.parts.flatMap (nodes (e.node :: around)) := by
  rw [nodes, lineages_eq, List.map_cons, List.map_flatMap]
  rfl

theorem nodes_flows_perm {fs : List (Flow τ)}
    (hflow : ∀ f ∈ fs, ∀ around, ((flow f).nodes around).Perm f.allNodes) (around : List (Node τ)) :
    ((fs.map flow).flatMap (nodes around)).Perm (fs.flatMap Flow.allNodes) := by
  rw [List.flatMap_map]
  exact .flatMap_left _ fun f hf => hflow f hf around

/-- The elements in a list of elements that hold nothing but flows. -/
theorem nodes_holders_perm {α : Type} {element : α → Element τ} {flows : α → List (Flow τ)}
    (hparts : ∀ x, (element x).parts = (flows x).map flow) {xs : List α}
    (hflow : ∀ f ∈ xs.flatMap flows, ∀ around, ((flow f).nodes around).Perm f.allNodes)
    (around : List (Node τ)) :
    ((xs.map element).flatMap (nodes around)).Perm
      (xs.map (fun x => (element x).node) ++ (xs.flatMap flows).flatMap Flow.allNodes) := by
  have hholder : ∀ x ∈ xs, ((element x).nodes around).Perm
      ((element x).node :: (flows x).flatMap Flow.allNodes) := by
    intro x hx
    rw [nodes_eq, hparts]
    exact .cons _ (nodes_flows_perm (fun f hf => hflow f (List.mem_flatMap.mpr ⟨x, hx, hf⟩)) _)
  rw [List.flatMap_map, List.flatMap_assoc]
  exact (List.Perm.flatMap_left xs hholder).trans (List.map_append_flatMap_perm ..).symm

theorem nodes_targets_perm {ts : List (Target τ (Flow τ))}
    (hflow : ∀ f ∈ ts.filterMap (·.sequence), ∀ around, ((flow f).nodes around).Perm f.allNodes)
    (around : List (Node τ)) :
    ((ts.map target).flatMap (nodes around)).Perm
      (ts.map (·.node) ++ (ts.filterMap (·.sequence)).flatMap Flow.allNodes) := by
  rw [List.filterMap_eq_flatMap_toList] at hflow ⊢
  exact nodes_holders_perm (fun _ => rfl) hflow around

/-- The elements in a mediator are its targets and the elements of its branches. -/
theorem nodes_parts_perm {k : Kind τ (Flow τ)}
    (hflow : ∀ f ∈ k.branches, ∀ around, ((flow f).nodes around).Perm f.allNodes)
    (around : List (Node τ)) :
    (k.parts.flatMap (nodes around)).Perm
      (k.targets.map (·.node) ++ k.branches.flatMap Flow.allNodes) := by
  cases k with
  | iterate target => exact nodes_targets_perm hflow around
  | clone targets | scatterGather targets => exact nodes_targets_perm hflow around
  | _ =>
      simp only [Kind.parts]
      exact nodes_flows_perm hflow around

/-- The elements in a flow are those of the flow and of the flows nested in it. -/
theorem nodes_flow_perm (f : Flow τ) (around : List (Node τ)) :
    ((flow f).nodes around).Perm f.allNodes := by
  induction f using Flow.induct generalizing around with
  | hstep f ih =>
      have hmediator : ∀ m ∈ f.mediators, ∀ around, ((mediator m).nodes around).Perm
          ((m.node :: m.kind.targets.map (·.node)) ++ m.branches.flatMap Flow.allNodes) := by
        intro m hm around
        rw [nodes_eq]
        exact .cons _ (nodes_parts_perm (fun f hf => ih f (List.mem_flatMap.mpr ⟨m, hm, hf⟩)) _)
      -- in the list a mediator is followed by what is in it; the nodes of the flow come first here
      rw [nodes_eq, parts, List.flatMap_map, Flow.allNodes_eq]
      refine .cons _ ((List.Perm.flatMap_left _ fun m hm => hmediator m hm _).trans ?_)
      exact (List.flatMap_append_perm ..).symm

end Element

namespace Artifact

/-- The elements of the artifact that hold its root flows. The root of a named sequence is a flow. -/
def holders : Artifact τ → List (Node τ)
  | api _ node resources => node :: resources.map (·.node)
  | proxy _ node target => node :: target.toList.map (·.node)
  | sequence _ _ => []
  | template _ node _ => [node]

/-- The elements of an artifact are what holds its root flows, and the elements of its flows; each is
listed once. -/
theorem map_node_lineages_perm (a : Artifact τ) :
    (a.lineages.map (·.node)).Perm (a.holders ++ a.flows.flatMap Flow.nodes) := by
  have hnodes : a.lineages.map (·.node) = a.node :: a.parts.flatMap (Element.nodes [a.node]) := by
    rw [lineages, List.map_cons, List.map_flatMap]
    rfl
  have hflows : a.flows.flatMap Flow.nodes = a.rootFlows.flatMap Flow.allNodes := List.flatMap_assoc ..
  rw [hnodes, hflows]
  have hflow {fs : List (Flow τ)} : ∀ f ∈ fs, ∀ around, _ := fun f _ => Element.nodes_flow_perm f
  cases a with
  | api _ node resources => exact .cons _ (Element.nodes_holders_perm (fun _ => rfl) hflow [node])
  | proxy _ node target => exact .cons _ (Element.nodes_holders_perm (fun _ => rfl) hflow [node])
  | sequence _ body =>
      have hbody := Element.nodes_flow_perm body []
      rw [Element.nodes_eq] at hbody
      rw [rootFlows, List.flatMap_singleton]
      exact hbody
  | template _ node body => exact .cons _ (Element.nodes_flows_perm hflow [node])

/-- What the check says is what is to be said about each element, one after the other in document
order, and every element of the artifact comes up once. -/
theorem remarks_of_check (a : Artifact String) :
    a.check.map (·.diagnostic) = a.lineages.flatMap Lineage.remarks ∧
      (a.lineages.map (·.node)).Perm (a.holders ++ a.flows.flatMap Flow.nodes) := by
  refine ⟨?_, map_node_lineages_perm a⟩
  rw [check_eq_flatMap_lineages, List.map_flatMap]
  exact List.flatMap_congr fun x _ => x.map_diagnostic_check

end Artifact

end

end Mediation
