import Mathlib.Data.List.Chain
import Mediation.Proofs.Document.Loading
import Mediation.Proofs.Layout.ForwardProgress

/-! Stepping over from the head of a mediator. Both ends of a range belong to it, so where one
mediator starts right where the one before it stops, the position that they share is in both, and the
scan takes it for a position in the first. What comes next is then the very mediator at whose head
the debugger halts, and it is sent there again (`Artifact.stepOver_touching`). The same happens where
a branch starts on the header of its mediator, or the out sequence of a proxy within the last
mediator of the in sequence. As long as the mediators of a flow are in order it happens nowhere else
(`Artifact.not_mem_stepOver_of_clearAt`). -/

namespace Mediation

section

variable {τ : Type}

namespace Stepper

variable {r : Stepper}

/-- What comes behind a chain does not start at the position if no mediator that holds the position
is directly followed by one that starts there. -/
theorem successor?_ne_position {ms : List (Mediator τ (Flow τ))}
    (hrow : ms.IsChain fun m m' => r.position ∈ m → m'.head ≠ r.position)
    (hnested : ∀ m ∈ ms, ∀ c ∈ m.branches, ∀ g ∈ c.withNested,
      g.mediators.IsChain fun m m' => r.position ∈ m → m'.head ≠ r.position) :
    successor? (r.stops ms) ≠ some r.position := by
  induction ms using Flow.mediators_induct with
  | nil =>
      rw [stops_nil]
      exact nofun
  | cons m rest hbranch ih =>
      by_cases hp : r.position ∈ m
      · have hnext : rest.head?.map (·.head) ≠ some r.position := by
          intro h
          obtain ⟨m', hm', hhead⟩ := Option.map_eq_some_iff.mp h
          exact (List.isChain_cons.mp hrow).1 m' hm' hp hhead
        rcases r.exists_stops_of_mem rest hp with hstops | ⟨c, hc, hstops⟩ <;>
          rw [hstops, successor?_cons]
        · exact hnext
        · have hinner := hnested m List.mem_cons_self c hc
          have hbehind := hbranch c hc (hinner c c.mem_withNested_self) fun m' hm' c' hc' g hg =>
            hinner g (Flow.mem_withNested_of_mem_branches hm' hc' hg)
          intro h
          rcases Option.or_eq_some_iff.mp h with h | ⟨-, h⟩
          · exact hbehind h
          · exact hnext h
      · rw [stops_of_not_mem r rest hp]
        exact ih hrow.tail fun m' hm' => hnested m' (List.mem_cons_of_mem _ hm')

end Stepper

namespace Artifact

variable {a : Artifact τ} {p : Position}

/-- A position steps through one flow at most, or through the in and out sequences of a proxy. -/
theorem flowsAt_cases (a : Artifact τ) (p : Position) :
    (a.flowsAt p).length ≤ 1 ∨ ∃ name node t, a = proxy name node (some t) ∧
      a.flowsAt p = t.sequences.inSequence.toList ++ t.sequences.outSequence.toList := by
  have htoList (f : Option (Flow τ)) : f.toList.length ≤ 1 := by cases f <;> simp
  cases a with
  | api name node resources =>
      rw [flowsAt]
      split
      next => exact .inl (htoList _)
      next => exact .inl (Nat.zero_le 1)
  | proxy name node target =>
      cases target with
      | none => exact .inl (Nat.zero_le 1)
      | some t =>
          rw [flowsAt, Option.toList_some, List.flatMap_singleton, Sequences.proxyFlowsAt]
          split
          next => exact .inr ⟨name, node, t, rfl, rfl⟩
          next => exact .inl (Nat.le_trans (List.length_filter_le _ _) (htoList _))
  | sequence name body => exact .inl (List.length_filter_le _ _)
  | template name node body => exact .inl (Nat.le_trans (List.length_filter_le _ _) (htoList _))

/-- The mediators that a position steps through are in a chain if those of every root flow are, and
the chain does not break where a root flow goes on with another one. -/
theorem isChain_flowsAt {R : Mediator τ (Flow τ) → Mediator τ (Flow τ) → Prop}
    (hflows : ∀ f ∈ a.rootFlows, f.mediators.IsChain R)
    (hroots : ∀ row ∈ a.rootsBefore, ∀ m ∈ row.1.mediators.getLast?, ∀ m' : Mediator τ (Flow τ),
      row.2 = some m'.head → R m m') (p : Position) :
    ((a.flowsAt p).flatMap (·.mediators)).IsChain R := by
  rcases a.flowsAt_cases p with hlength | ⟨name, node, t, rfl, hflowsAt⟩
  · have hmem (f : Flow τ) (hf : f ∈ a.flowsAt p) := hflows f (mem_rootFlows_of_mem_flowsAt hf)
    match hflowsAt : a.flowsAt p, hlength with
    | [], _ => exact .nil
    | [f], _ =>
        rw [List.flatMap_singleton]
        exact hmem f (by rw [hflowsAt]; exact List.mem_singleton_self f)
  · have hchain (flow : Option (Flow τ)) (hflow : ∀ f ∈ flow, f ∈ t.sequences.toList) :
        (flow.toList.flatMap (·.mediators)).IsChain R := by
      cases flow with
      | none => exact .nil
      | some f =>
          rw [Option.toList_some, List.flatMap_singleton]
          refine hflows f ?_
          rw [rootFlows, Option.toList_some, List.flatMap_singleton]
          exact hflow f rfl
    rw [hflowsAt, List.flatMap_append]
    refine .append (hchain _ fun f hf => ?_) (hchain _ fun f hf => ?_) fun m hm m' hm' => ?_
    · simp [Sequences.toList, Option.mem_def.mp hf]
    · simp [Sequences.toList, Option.mem_def.mp hf]
    · cases hin : t.sequences.inSequence with
      | none => simp [hin] at hm
      | some f =>
          cases hout : t.sequences.outSequence with
          | none => simp [hout] at hm'
          | some g =>
              rw [hin, Option.toList_some, List.flatMap_singleton] at hm
              rw [hout, Option.toList_some, List.flatMap_singleton] at hm'
              refine hroots (f, g.head?) ?_ m hm m' ?_
              · simp [rootsBefore, Sequences.proxyRoots, hin, hout]
              · rw [Flow.head?, Option.mem_def.mp hm']
                rfl

/-- A mediator of a row that a position steps through is one of the artifact, at any depth. -/
theorem exists_mem_flows_of_inRow {m : Mediator τ (Flow τ)}
    (hm : InRow ((a.flowsAt p).flatMap (·.mediators)) m) :
    ∃ f ∈ a.flows, m ∈ f.mediators := by
  obtain ⟨owner, howner, hm⟩ := hm
  obtain ⟨f, hf, howner⟩ := List.mem_flatMap.mp howner
  obtain ⟨g, hg, hm⟩ := Flow.exists_mem_withNested_iff.mpr ⟨owner, howner, hm⟩
  exact ⟨g, List.mem_flatMap.mpr ⟨f, mem_rootFlows_of_mem_flowsAt hf, hg⟩, hm⟩

/-- Nothing that starts at the position comes right behind or first within a mediator that holds it.
-/
structure ClearAt (a : Artifact τ) (p : Position) : Prop where
  /-- No mediator stops there right where the next one starts. -/
  siblings : ∀ f ∈ a.flows,
    f.mediators.IsChain fun m m' => ¬(m.node.range.stop = p ∧ m'.head = p)
  /-- No branch starts there on the header of its mediator. -/
  headers : ∀ f ∈ a.flows, ∀ m ∈ f.mediators, p ∈ m.node.range.startTag →
    ∀ c ∈ m.branches, c.head? ≠ some p
  /-- What a root flow goes on with does not start there within the last mediator of the flow. -/
  roots : ∀ row ∈ a.rootsBefore, row.2 = some p → ∀ m ∈ row.1.mediators.getLast?, p ∉ m

/-- A debugger that halts at the head of a mediator is not sent there again if no mediator starts
before the one before it stops and the position is clear. -/
theorem not_mem_stepOver_of_clearAt
    (hordered : ∀ f ∈ a.flows, f.mediators.IsChain fun m m' => m.node.range.stop ≤ m'.head)
    (hp : a.ClearAt p) :
    p ∉ a.stepOver {} p := by
  intro h
  rw [stepOver, Stepper.resolve_eq_follow, Stepper.armed_follow] at h
  obtain ⟨last, hlast, h | h⟩ := Stepper.exists_last_of_mem_targets h
  · obtain ⟨c, hc, hhead⟩ := Stepper.exists_head?_of_mem_slotHeads h
    have hheader := Stepper.mem_startTag_of_mem_slotHeads rfl h
    have hrow := Stepper.inRow_of_mem_stops _ (List.mem_of_getLast? hlast) (.inl rfl)
    obtain ⟨f, hf, hm⟩ := exists_mem_flows_of_inRow hrow
    exact hp.headers f hf last.mediator hm hheader c hc hhead
  · have hchain (f : Flow τ) (hf : f ∈ a.flows) :
        f.mediators.IsChain fun m m' => p ∈ m → m'.head ≠ p := by
      refine List.isChain_iff_forall_rel_of_append_cons_cons.mpr ?_
      intro m m' before after hms hpm hhead
      have hle := List.isChain_iff_forall_rel_of_append_cons_cons.mp (hordered f hf) hms
      have hmeet := List.isChain_iff_forall_rel_of_append_cons_cons.mp (hp.siblings f hf) hms
      -- `m` stops no later than `p`, where `m'` starts, and it holds `p`, so it stops there
      rw [hhead, Position.le_iff_rank_le] at hle
      have hge := Position.le_iff_rank_le.mp hpm.2
      exact hmeet ⟨Position.rank_inj.mp (Nat.le_antisymm hle hge), hhead⟩
    refine Stepper.successor?_ne_position (isChain_flowsAt (fun f hf => ?_) ?_ p) ?_ h
    · exact hchain f (List.mem_flatMap.mpr ⟨f, hf, f.mem_withNested_self⟩)
    · intro row hrow m hm m' hnext hpm hhead
      exact hp.roots row hrow (hnext.trans (congrArg some hhead)) m hm hpm
    · intro m hm c hc g hg
      obtain ⟨f, hf, hm⟩ := List.mem_flatMap.mp hm
      have hnested := Flow.mem_withNested_of_mem_branches hm hc hg
      exact hchain g (List.mem_flatMap.mpr ⟨f, mem_rootFlows_of_mem_flowsAt hf, hnested⟩)

end Artifact

end

/-- A sequence of a send and a drop, the one right behind the other on one line. -/
def touchingJson : Json :=
  .object [
    ("kind", .text "sequence"),
    ("name", .text "main"),
    ("range", switchingJson.container 1 3),
    ("mediators", .array [mediator "send" 0 7, mediator "drop" 7 14])]
where
  position (column : Int) : Json := .array [.number (.whole 2), .number (.whole column)]
  mediator (tag : String) (first last : Int) : Json :=
    .object [("tag", .text tag),
      ("range", .object [("selfClosed", .array [position first, position last])])]

/-- What is loaded for it. -/
def touching : Artifact String :=
  .sequence "main" ⟨.onLines "sequence" 1 3,
    [⟨⟨"send", .selfClosed ⟨⟨2, 0⟩, ⟨2, 7⟩⟩⟩, .simple⟩,
      ⟨⟨"drop", .selfClosed ⟨⟨2, 7⟩, ⟨2, 14⟩⟩⟩, .simple⟩]⟩

theorem load_touchingJson : load touchingJson.compact = .ok ⟨touching, []⟩ := by
  have hread : Json.ofText touchingJson.compact = .ok touchingJson :=
    Json.ofText_render Json.Layout.spaced_compact (by decide) (by decide)
  exact ArtifactRecord.load_of_examine
    (ArtifactRecord.ofText_eq_ok.mpr ⟨_, .sequence, _, hread, .object rfl, rfl⟩) rfl nofun

namespace Artifact

theorem flows_touching : touching.flows = touching.rootFlows := by
  simp [flows, touching, rootFlows, Flow.withNested_eq, Flow.nested, Mediator.branches,
    Kind.branches]

theorem ordered_touching : ∀ f ∈ touching.flows,
    f.mediators.IsChain fun m m' => m.node.range.stop ≤ m'.head := by
  rw [flows_touching]
  decide

/-- Nothing is said about the document, and each mediator starts where the one before it stops or
later. A debugger that halts at the drop is sent there again, though nothing comes behind it. -/
theorem stepOver_touching :
    load touchingJson.compact = .ok ⟨touching, []⟩ ∧
    (∀ f ∈ touching.flows, f.mediators.IsChain fun m m' => m.node.range.stop ≤ m'.head) ∧
    (∃ f ∈ touching.flowsAt ⟨2, 7⟩, f.HasHead ⟨2, 7⟩) ∧
    touching.stepOver {} ⟨2, 7⟩ = [⟨2, 7⟩] := by
  have hstep : touching.stepOver {} ⟨2, 7⟩ = [⟨2, 7⟩] := by
    have hflows : touching.flowsAt ⟨2, 7⟩ = touching.rootFlows := by decide
    rw [stepOver, hflows]
    simp only [Stepper.resolve, touching, rootFlows, List.foldl, Stepper.scanFlow, Stepper.scan]
    decide
  have hhead : ⟨2, 7⟩ ∈ touching.stepOver {} ⟨2, 7⟩ := by
    rw [hstep]
    exact List.mem_singleton_self _
  exact ⟨load_touchingJson, ordered_touching, hasHead_of_mem_stepOver hhead, hstep⟩

/-- At the send the two do not meet, and it is not armed again. -/
theorem not_mem_stepOver_of_clearAt_touching :
    (∃ f ∈ touching.flowsAt ⟨2, 0⟩, f.HasHead ⟨2, 0⟩) ∧ touching.ClearAt ⟨2, 0⟩ ∧
    ⟨2, 0⟩ ∉ touching.stepOver {} ⟨2, 0⟩ := by
  have hclear : touching.ClearAt ⟨2, 0⟩ := by
    refine ⟨?_, ?_, by decide⟩ <;> rw [flows_touching] <;> decide
  have hhead : ∃ f ∈ touching.flowsAt ⟨2, 0⟩, f.HasHead ⟨2, 0⟩ :=
    ⟨_, List.mem_singleton_self _, _, Flow.mem_withNested_self _, _, List.mem_cons_self, rfl⟩
  exact ⟨hhead, hclear, not_mem_stepOver_of_clearAt ordered_touching hclear⟩

end Artifact

end Mediation
