import Mediation.Proofs.Layout.Place
import Mediation.Proofs.Stepping.StopChain
import Mediation.Stepping.StepOver

/-! Stepping over in properly laid out artifacts. The scan knows flows by their order and positions
by what holds them; in an artifact that is properly laid out, this comes to the same as the picture
that one has of it. The statement at a position is the innermost mediator that holds it, stepping
goes into its branches from its header (and from wherever none of its branches is, if the settings
say so), and what comes next is the next sibling, or what comes next behind the mediator that owns
the flow (`Artifact.stepOver_of_laidOut`). -/

namespace Mediation

namespace Place

variable {τ : Type}

/-- The slots that stepping goes into from a position in the mediator. -/
def slotsFrom (settings : Settings) (p : Position) (x : Place τ) : List (Option (Flow τ)) :=
  if p ∈ x.mediator.node.range.startTag ∨
      (settings.entryRegion = .outsideBranches ∧ ∀ c ∈ x.mediator.branches, p ∉ c) then
    x.mediator.kind.slots?.getD []
  else []

/-- What is armed for a position whose innermost mediator stands here: the heads of the branches it
goes into, and the head of what comes next unless the branches settle the matter. -/
def targets (settings : Settings) (p : Position) (x : Place τ) : List Position :=
  let slots := x.slotsFrom settings p
  Stepper.slotHeads slots ++
    if (⟨settings, p⟩ : Stepper).Settles slots then [] else x.next.toList

end Place

/-- Mediators that stand one after the other, properly laid out with all they nest. -/
structure LaidOutRow {τ : Type} (ms : List (Mediator τ (Flow τ))) : Prop where
  ordered : ms.Pairwise fun m m' => m.node.range.Before m'.node.range
  mediators : ∀ m ∈ ms, m.LaidOut
  branches : ∀ m ∈ ms, ∀ c ∈ m.branches, c.LaidOut

section

variable {τ : Type} {r : Stepper} {after : Option Position}

theorem Flow.LaidOut.laidOutRow {f : Flow τ} (hf : f.LaidOut) : LaidOutRow f.mediators where
  ordered := hf.row.pairwise
  mediators := hf.row.mediators
  branches _ hm _ hc := hf.branch hm hc

theorem LaidOutRow.tail {m : Mediator τ (Flow τ)} {rest : List (Mediator τ (Flow τ))}
    (h : LaidOutRow (m :: rest)) :
    LaidOutRow rest where
  ordered := (List.pairwise_cons.mp h.ordered).2
  mediators m' hm' := h.mediators m' (List.mem_cons_of_mem _ hm')
  branches m' hm' := h.branches m' (List.mem_cons_of_mem _ hm')

/-- What a place in a row holds, a mediator of the row holds. -/
theorem LaidOutRow.exists_mem {ms : List (Mediator τ (Flow τ))} (h : LaidOutRow ms) {x : Place τ}
    (hx : x ∈ places after ms) {p : Position} (hp : p ∈ x.mediator) :
    ∃ m ∈ ms, p ∈ m := by
  induction ms using Flow.mediators_induct generalizing after with
  | nil => simp [places_nil] at hx
  | cons m rest hbranch ih =>
      rcases mem_places_cons.mp hx with rfl | ⟨c, hc, hx⟩ | hx
      · exact ⟨m, List.mem_cons_self, hp⟩
      · have hlaid := h.branches m List.mem_cons_self c hc
        obtain ⟨m', hm', hp'⟩ := hbranch c hc hlaid.laidOutRow hx
        have hpc := hlaid.row.mem_of_mem hm' hp'
        exact ⟨m, List.mem_cons_self, ((h.mediators m List.mem_cons_self).mem_of_mem_branch hc hpc).1⟩
      · obtain ⟨m', hm', hp'⟩ := ih h.tail hx
        exact ⟨m', List.mem_cons_of_mem _ hm', hp'⟩

theorem Flow.LaidOut.mem_of_mem_places {f : Flow τ} (hf : f.LaidOut) {x : Place τ}
    (hx : x ∈ places after f.mediators) {p : Position} (hp : p ∈ x.mediator) :
    p ∈ f := by
  obtain ⟨m, hm, hpm⟩ := hf.laidOutRow.exists_mem hx hp
  exact hf.row.mem_of_mem hm hpm

theorem find?_eq_some_of_pairwise {α : Type} {P : α → Bool} {l : List α}
    (hl : l.Pairwise fun a b => P a = true → P b ≠ true) {a : α} (ha : a ∈ l) (hp : P a = true) :
    l.find? P = some a := by
  induction l with
  | nil => cases ha
  | cons b l ih =>
      obtain ⟨hb, hl⟩ := List.pairwise_cons.mp hl
      rcases List.mem_cons.mp ha with rfl | ha
      · rw [List.find?_cons, hp]
      · have hnot : P b = false := Bool.eq_false_iff.mpr fun h => hb a ha h hp
        rw [List.find?_cons, hnot]
        exact ih hl ha

theorem Mediator.LaidOut.find?_branch {m : Mediator τ (Flow τ)} (hm : m.LaidOut) {c : Flow τ}
    (hc : c ∈ m.branches) {p : Position} (hp : p ∈ c) :
    m.branches.find? (p ∈ ·) = some c :=
  find?_eq_some_of_pairwise (hm.branches_apart.imp fun h ha hb =>
    h p (of_decide_eq_true ha) (of_decide_eq_true hb)) hc (decide_eq_true hp)

theorem Mediator.isBranching_of_mem_branches {m : Mediator τ (Flow τ)} {c : Flow τ}
    (hc : c ∈ m.branches) :
    m.isBranching = true := by
  obtain ⟨node, kind⟩ := m
  cases kind with
  | simple => cases hc
  | _ => rfl

/-- A position in a branch is placed there. -/
theorem Mediator.LaidOut.placement_eq {m : Mediator τ (Flow τ)} (hm : m.LaidOut) {c : Flow τ}
    (hc : c ∈ m.branches) {p : Position} (hp : p ∈ c) (region : EntryRegion) :
    m.placement region p = .nested c := by
  unfold Mediator.placement
  rw [if_neg (hm.mem_of_mem_branch hc hp).2, hm.find?_branch hc hp]

theorem Mediator.LaidOut.branchAt?_eq {m : Mediator τ (Flow τ)} (hm : m.LaidOut) {c : Flow τ}
    (hc : c ∈ m.branches) (hp : r.position ∈ c) :
    r.branchAt? m = some c := by
  rw [Stepper.branchAt?, if_pos (isBranching_of_mem_branches hc), hm.placement_eq hc hp]

/-- The chain of stops ends at the innermost mediator, and behind the chain comes what comes next
there. -/
theorem stops_of_innermost {ms : List (Mediator τ (Flow τ))} (h : LaidOutRow ms) {x : Place τ}
    (hx : x ∈ places after ms) (hinner : x.mediator.Innermost r.position) :
    (r.stops ms).getLast?.map (·.mediator) = some x.mediator ∧
      (Stepper.successor? (r.stops ms)).or after = x.next := by
  induction ms using Flow.mediators_induct generalizing after with
  | nil => simp [places_nil] at hx
  | cons m rest hbranch ih =>
      rcases mem_places_cons.mp hx with rfl | ⟨c, hc, hx⟩ | hx
      · have hinside : (r.branchAt? m).elim [] (fun c => r.stops c.mediators) = [] := by
          cases hat : r.branchAt? m with
          | none => rfl
          | some c =>
              have hc := Stepper.mem_branches_of_branchAt? hat
              exact Stepper.stops_eq_nil_iff.mpr fun m' hm' =>
                hinner.2 m' ⟨c, hc, c, c.mem_withNested_self, hm'⟩
        rw [Stepper.stops_of_mem r rest hinner.1, hinside, Stepper.successor?_cons]
        exact ⟨rfl, rfl⟩
      · have hlaid := h.branches m List.mem_cons_self c hc
        have hm := h.mediators m List.mem_cons_self
        have hpc := hlaid.mem_of_mem_places hx hinner.1
        obtain ⟨hlast, hnext⟩ := hbranch c hc hlaid.laidOutRow hx
        rw [Stepper.stops_of_mem r rest (hm.mem_of_mem_branch hc hpc).1, hm.branchAt?_eq hc hpc,
          Option.elim_some, Stepper.successor?_cons, Option.or_assoc]
        refine ⟨?_, hnext⟩
        obtain ⟨last, hlast, hmediator⟩ := Option.map_eq_some_iff.mp hlast
        rw [List.getLast?_cons, hlast]
        exact congrArg some hmediator
      · obtain ⟨m', hm', hp'⟩ := h.tail.exists_mem hx hinner.1
        have hbefore := (List.pairwise_cons.mp h.ordered).1 m' hm'
        rw [Stepper.stops_of_not_mem r rest (hbefore.not_mem hp')]
        exact ih h.tail hx

/-- The slots that are entered at a mediator, told by where the position is. -/
theorem slotsAt_eq_slotsFrom (x : Place τ) :
    r.slotsAt x.mediator = x.slotsFrom r.settings r.position := by
  rw [Stepper.slotsAt, Place.slotsFrom]
  unfold Mediator.placement
  by_cases hstart : r.position ∈ x.mediator.node.range.startTag
  · rw [if_pos hstart, if_pos (.inl hstart)]
  · rw [if_neg hstart]
    cases hfind : x.mediator.branches.find? (r.position ∈ ·) with
    | some c =>
        have hin : r.position ∈ c := by simpa using List.find?_some hfind
        rw [if_neg]
        rintro (h | ⟨-, hout⟩)
        · exact hstart h
        · exact hout c (List.mem_of_find?_eq_some hfind) hin
    | none =>
        have hout : ∀ c ∈ x.mediator.branches, r.position ∉ c := fun c hc hin =>
          List.find?_eq_none.mp hfind c hc (decide_eq_true hin)
        cases hregion : r.settings.entryRegion with
        | startTag => rw [if_neg (by simp [hstart])]
        | outsideBranches => rw [if_pos (.inr ⟨rfl, hout⟩)]

/-- A row that goes on, behind mediators that do not hold the position, has the chain of stops that
its innermost mediator asks for. -/
theorem stops_append_of_innermost {before ms tail : List (Mediator τ (Flow τ))}
    (hbefore : ∀ m ∈ before, r.position ∉ m) (h : LaidOutRow ms) {x : Place τ}
    (hx : x ∈ places (tail.head?.map (·.head)) ms) (hinner : x.mediator.Innermost r.position) :
    (r.stops (before ++ (ms ++ tail))).getLast?.map (·.mediator) = some x.mediator ∧
      Stepper.successor? (r.stops (before ++ (ms ++ tail))) = x.next := by
  obtain ⟨hlast, hnext⟩ := stops_of_innermost h hx hinner
  have hne : r.stops ms ≠ [] := fun hnil => by simp [hnil] at hlast
  rw [Stepper.stops_append_of_eq_nil (Stepper.stops_eq_nil_iff.mpr hbefore),
    Stepper.stops_append_of_ne_nil hne, Stepper.mediator_getLast?_extend,
    Stepper.successor?_extend tail hne]
  exact ⟨hlast, hnext⟩

/-- In a proxy the out sequence comes behind the in sequence, and nothing before the out sequence
holds a position in it. -/
theorem Sequences.LaidOut.proxyFlowsAt_row {s : Sequences τ} {outer : SourceRange}
    (hs : s.LaidOut outer) {row : Flow τ × Option Position} (hrow : row ∈ s.proxyRoots)
    {p : Position} (hp : p ∈ row.1) :
    ∃ before tail, (s.proxyFlowsAt p).flatMap (·.mediators) = before ++ (row.1.mediators ++ tail) ∧
      (∀ m ∈ before, p ∉ m) ∧ row.2 = tail.head?.map (·.head) := by
  obtain ⟨inSequence, outSequence, faultSequence⟩ := s
  obtain ⟨hinOut, -, hfault⟩ := List.pairwise_append.mp hs.apart
  obtain ⟨-, -, hout⟩ := List.pairwise_append.mp hinOut
  simp only [proxyRoots, List.mem_append, List.mem_map, Option.mem_toList] at hrow
  rcases hrow with (⟨f, rfl, rfl⟩ | ⟨f, rfl, rfl⟩) | ⟨f, rfl, rfl⟩
  · refine ⟨[], outSequence.toList.flatMap (·.mediators), ?_, by simp, ?_⟩
    · simp [proxyFlowsAt, show p ∈ f from hp]
    · cases outSequence <;> simp [Flow.head?]
  · refine ⟨inSequence.toList.flatMap (·.mediators), [], ?_, ?_, rfl⟩
    · simp [proxyFlowsAt, show p ∈ f from hp]
    · intro m hm hpm
      obtain ⟨g, hg, hm⟩ := List.mem_flatMap.mp hm
      have hpg := (hs.flows g (by simp [toList, hg])).row.mem_of_mem hm hpm
      exact hout g hg f (by simp) p hpg hp
  · have hnot : ∀ g, g ∈ inSequence ∨ g ∈ outSequence → p ∉ g := fun g hg hpg =>
      hfault g (by simpa using hg) f (by simp) p hpg hp
    have hin : inSequence.any (p ∈ ·) = false := by
      cases inSequence with
      | none => rfl
      | some g => simpa using hnot g (.inl rfl)
    have hout : outSequence.any (p ∈ ·) = false := by
      cases outSequence with
      | none => rfl
      | some g => simpa using hnot g (.inr rfl)
    refine ⟨[], [], ?_, by simp, rfl⟩
    simp [proxyFlowsAt, hin, hout, show p ∈ f from hp]

namespace Artifact

theorem LaidOut.rootFlow {a : Artifact τ} (ha : a.LaidOut) {f : Flow τ} (hf : f ∈ a.rootFlows) :
    f.LaidOut := by
  cases a with
  | api name node resources =>
      obtain ⟨res, hres, hf⟩ := List.mem_flatMap.mp hf
      exact (ha.2.2.2 res hres).2.flows f hf
  | proxy name node target =>
      obtain ⟨t, ht, hf⟩ := List.mem_flatMap.mp hf
      exact (ha.2 t (Option.mem_toList.mp ht)).2.2.flows f hf
  | sequence name body =>
      rw [rootFlows, List.mem_singleton] at hf
      exact hf ▸ ha
  | template name node body => exact (ha.2 f (Option.mem_toList.mp hf)).2

/-- A position in a root flow steps through that flow, and what comes behind the flow is what the
artifact goes on with. -/
theorem LaidOut.flowsAt_row {a : Artifact τ} (ha : a.LaidOut) {row : Flow τ × Option Position}
    (hrow : row ∈ a.rootsBefore) {p : Position} (hp : p ∈ row.1) :
    ∃ before tail, (a.flowsAt p).flatMap (·.mediators) = before ++ (row.1.mediators ++ tail) ∧
      (∀ m ∈ before, p ∉ m) ∧ row.2 = tail.head?.map (·.head) := by
  cases a with
  | api name node resources =>
      obtain ⟨-, -, hapart, hresources⟩ := ha
      obtain ⟨res, hres, hrow⟩ := List.mem_flatMap.mp hrow
      obtain ⟨f, hf, rfl⟩ := List.mem_map.mp hrow
      obtain ⟨hproper, hseqs⟩ := hresources res hres
      have hpres : p ∈ res.node.range := ((hseqs.holds f hf).mem hproper hp).1
      have hres : resources.find? (p ∈ ·.node.range) = some res :=
        find?_eq_some_of_pairwise (hapart.imp fun h ha hb =>
          h p (of_decide_eq_true ha) (of_decide_eq_true hb)) hres (decide_eq_true hpres)
      have hseq : res.sequences.toList.find? (p ∈ ·) = some f :=
        find?_eq_some_of_pairwise (hseqs.apart.imp fun h ha hb =>
          h p (of_decide_eq_true ha) (of_decide_eq_true hb)) hf (decide_eq_true hp)
      refine ⟨[], [], ?_, by simp, rfl⟩
      simp [flowsAt, hres, Sequences.apiFlowsAt, hseq]
  | proxy name node target =>
      obtain ⟨t, ht, hroot⟩ := List.mem_flatMap.mp hrow
      rw [Option.mem_toList] at ht
      subst ht
      obtain ⟨-, -, hseqs⟩ := ha.2 t rfl
      obtain ⟨before, tail, hflows, hbefore, hnext⟩ := hseqs.proxyFlowsAt_row hroot hp
      exact ⟨before, tail, by simpa [flowsAt] using hflows, hbefore, hnext⟩
  | sequence name body =>
      rw [rootsBefore, List.mem_singleton] at hrow
      subst hrow
      refine ⟨[], [], ?_, by simp, rfl⟩
      simp [flowsAt, show p ∈ body from hp]
  | template name node body =>
      obtain ⟨f, hf, rfl⟩ := List.mem_map.mp hrow
      rw [Option.mem_toList] at hf
      subst hf
      refine ⟨[], [], ?_, by simp, rfl⟩
      simp [flowsAt, show p ∈ f from hp]

/-- The flows that a position steps through are root flows. -/
theorem mem_rootFlows_of_mem_flowsAt {a : Artifact τ} {p : Position} {f : Flow τ}
    (hf : f ∈ a.flowsAt p) :
    f ∈ a.rootFlows := by
  cases a with
  | api name node resources =>
      simp only [flowsAt] at hf
      split at hf
      next res hres =>
          refine List.mem_flatMap.mpr ⟨res, List.mem_of_find?_eq_some hres, ?_⟩
          exact List.mem_of_find?_eq_some (Option.mem_toList.mp hf)
      next => cases hf
  | proxy name node target =>
      obtain ⟨t, ht, hf⟩ := List.mem_flatMap.mp hf
      refine List.mem_flatMap.mpr ⟨t, ht, ?_⟩
      simp only [Sequences.proxyFlowsAt] at hf
      split at hf
      next => exact List.mem_append_left _ hf
      next => exact List.mem_append_right _ (List.mem_of_mem_filter hf)
  | sequence name body => exact (List.mem_filter.mp hf).1
  | template name node body => exact (List.mem_filter.mp hf).1

/-- No mediator holds the position: nothing is armed, in any artifact. -/
theorem stepOver_of_forall_not_mem {a : Artifact τ} {p : Position}
    (h : ∀ f ∈ a.flows, ∀ m ∈ f.mediators, p ∉ m) (settings : Settings) :
    a.stepOver settings p = [] := by
  have hstops : (⟨settings, p⟩ : Stepper).stops ((a.flowsAt p).flatMap (·.mediators)) = [] := by
    refine Stepper.stops_eq_nil_iff.mpr fun m hm => ?_
    obtain ⟨f, hf, hm⟩ := List.mem_flatMap.mp hm
    have hroot := mem_rootFlows_of_mem_flowsAt hf
    exact h f (List.mem_flatMap.mpr ⟨f, hroot, f.mem_withNested_self⟩) m hm
  rw [stepOver, Stepper.resolve_eq_follow, hstops]
  rfl

/-- The chain of stops ends at the innermost mediator of the artifact. -/
theorem LaidOut.stops_flowsAt {a : Artifact τ} (ha : a.LaidOut) {x : Place τ} (hx : x ∈ a.places)
    (hinner : x.mediator.Innermost r.position) :
    (r.stops ((a.flowsAt r.position).flatMap (·.mediators))).getLast?.map (·.mediator) =
        some x.mediator ∧
      Stepper.successor? (r.stops ((a.flowsAt r.position).flatMap (·.mediators))) = x.next := by
  obtain ⟨row, hrow, hx⟩ := mem_places_iff.mp hx
  have hroot : row.1 ∈ a.rootFlows := map_fst_rootsBefore a ▸ List.mem_map_of_mem hrow
  have hlaid := ha.rootFlow hroot
  have hp : r.position ∈ row.1 := hlaid.mem_of_mem_places hx hinner.1
  obtain ⟨before, tail, hflows, hbefore, hnext⟩ := ha.flowsAt_row hrow hp
  rw [hnext] at hx
  rw [hflows]
  exact stops_append_of_innermost hbefore hlaid.laidOutRow hx hinner

theorem LaidOut.stepOver_eq {a : Artifact τ} (ha : a.LaidOut) {x : Place τ} (hx : x ∈ a.places)
    {p : Position} (hinner : x.mediator.Innermost p) (settings : Settings) :
    a.stepOver settings p = x.targets settings p := by
  obtain ⟨hlast, hnext⟩ := ha.stops_flowsAt (r := ⟨settings, p⟩) hx hinner
  rw [stepOver, Stepper.resolve_eq_follow, Stepper.armed_follow, Stepper.targets_eq hlast, hnext,
    slotsAt_eq_slotsFrom, Place.targets]

/-- There is only one place whose mediator is innermost, since it can be read off the chain. -/
theorem LaidOut.innermost_unique {a : Artifact τ} (ha : a.LaidOut) {p : Position} {x y : Place τ}
    (hx : x ∈ a.places) (hy : y ∈ a.places) (hinnerx : x.mediator.Innermost p)
    (hinnery : y.mediator.Innermost p) :
    x = y := by
  obtain ⟨hlastx, hnextx⟩ := ha.stops_flowsAt (r := ⟨{}, p⟩) hx hinnerx
  obtain ⟨hlasty, hnexty⟩ := ha.stops_flowsAt (r := ⟨{}, p⟩) hy hinnery
  obtain ⟨mediatorx, nextx⟩ := x
  obtain ⟨mediatory, nexty⟩ := y
  have hmediator : mediatorx = mediatory := Option.some.inj (hlastx.symm.trans hlasty)
  have hnext : nextx = nexty := hnextx.symm.trans hnexty
  rw [hmediator, hnext]

/-- Where a mediator of the artifact holds the position, one of them is innermost. -/
theorem exists_innermost {a : Artifact τ} {p : Position}
    (h : ∃ f ∈ a.flows, ∃ m ∈ f.mediators, p ∈ m) :
    ∃ x ∈ a.places, x.mediator.Innermost p := by
  obtain ⟨f, hf, m, hm, hp⟩ := h
  obtain ⟨x, hx, rfl⟩ := exists_mem_places_iff.mpr ⟨f, hf, hm⟩
  obtain ⟨row, hrow, hx⟩ := mem_places_iff.mp hx
  obtain ⟨y, hy, hinner⟩ := Mediation.exists_innermost ⟨x, hx, hp⟩
  exact ⟨y, mem_places_iff.mpr ⟨row, hrow, hy⟩, hinner⟩

/-- In a properly laid out artifact nothing is armed for a position that no mediator holds. For any
other position there is exactly one place whose mediator is the innermost one to hold it, and what is
armed is told by that place: the heads of the branches that stepping goes into, and the head of what
comes next unless the branches settle the matter. -/
theorem stepOver_of_laidOut {a : Artifact τ} (ha : a.LaidOut) (settings : Settings) (p : Position) :
    ((∀ f ∈ a.flows, ∀ m ∈ f.mediators, p ∉ m) → a.stepOver settings p = []) ∧
    ((∃ f ∈ a.flows, ∃ m ∈ f.mediators, p ∈ m) →
      ∃ x ∈ a.places, x.mediator.Innermost p ∧ a.stepOver settings p = x.targets settings p ∧
        ∀ y ∈ a.places, y.mediator.Innermost p → y = x) := by
  refine ⟨fun h => stepOver_of_forall_not_mem h settings, fun h => ?_⟩
  obtain ⟨x, hx, hinner⟩ := exists_innermost h
  exact ⟨x, hx, hinner, ha.stepOver_eq hx hinner settings,
    fun y hy hinnery => ha.innermost_unique hy hx hinnery hinner⟩

/-- A container with its tags on two lines. -/
def container (tag : String) (first last : UInt32) : Node String :=
  ⟨tag, .container ⟨⟨first, 0⟩, ⟨first, 20⟩⟩ ⟨⟨last, 0⟩, ⟨last, 20⟩⟩⟩

/-- A proxy whose in sequence is a filter with a mediator in either branch. -/
def filteringProxy : Artifact String :=
  .proxy "filtering" (container "proxy" 1 16) <| some ⟨container "target" 2 15,
    some ⟨container "inSequence" 3 11,
      [⟨container "filter" 4 10, .filter
        (some ⟨container "then" 5 7, [⟨⟨"log", .selfClosed ⟨⟨6, 0⟩, ⟨6, 20⟩⟩⟩, .simple⟩]⟩)
        (some ⟨container "else" 8 9, [⟨⟨"drop", .selfClosed ⟨⟨8, 30⟩, ⟨8, 40⟩⟩⟩, .simple⟩]⟩)⟩]⟩,
    some ⟨container "outSequence" 12 14, [⟨⟨"send", .selfClosed ⟨⟨13, 0⟩, ⟨13, 20⟩⟩⟩, .simple⟩]⟩,
    none⟩

/-- Behind the log of the first branch nothing comes in the branch and in the in sequence. -/
theorem filteringProxy_stepOver_log :
    filteringProxy.LaidOut ∧ (∃ f ∈ filteringProxy.flows, ∃ m ∈ f.mediators, ⟨6, 5⟩ ∈ m) ∧
    ∃ x ∈ filteringProxy.places, x.mediator.Innermost ⟨6, 5⟩ ∧
      filteringProxy.stepOver {} ⟨6, 5⟩ = x.targets {} ⟨6, 5⟩ ∧
      ∀ y ∈ filteringProxy.places, y.mediator.Innermost ⟨6, 5⟩ → y = x := by
  have hflows : (∀ f ∈ filteringProxy.flows, f.RowLaidOut) ∧
      ∃ f ∈ filteringProxy.flows, ∃ m ∈ f.mediators, ⟨6, 5⟩ ∈ m := by
    simp only [filteringProxy, flows, rootFlows, Sequences.toList, Flow.withNested_eq, Flow.nested,
      Mediator.branches, Kind.branches, Option.toList, List.flatMap_cons, List.flatMap_nil,
      List.nil_append, List.cons_append, List.append_nil]
    decide
  obtain ⟨hrows, hmem⟩ := hflows
  have hlaid : filteringProxy.LaidOut := by
    refine ⟨by decide, ?_⟩
    rintro _ ⟨⟩
    refine ⟨by decide, by decide, by decide, by decide, fun f hf g hg => hrows g ?_⟩
    exact List.mem_flatMap.mpr ⟨f, by simpa [filteringProxy, rootFlows] using hf, hg⟩
  exact ⟨hlaid, hmem, (stepOver_of_laidOut hlaid {} ⟨6, 5⟩).2 hmem⟩

end Artifact

end

end Mediation
