import Mediation.Proofs.Element
import Mediation.Proofs.Flow.Gap
import Mediation.Proofs.Stepping.Landing

/-! The order in which a mediator lists its branches. Where the branches of a switch, a clone or a
scatter-gather are apart, to list them in another order only changes the order of what is armed, and
not even that unless the mediator is where the scan ends and is entered there
(`Stepper.resolve_reordered`). Both hold wherever the mediator is in its flow: a scan either comes to
the place of the mediator (`Gap.Reached`) and ends there as it does in the mediator, or it ends
elsewhere and arms what it arms with any mediator in that place. -/

namespace Mediation

/-- The kinds list the same cases or targets, each in an order of its own. -/
inductive Kind.Reordered {τ φ : Type} : Kind τ φ → Kind τ φ → Prop
  | switch {cases cases' : List (Case φ)} (default : Option φ) (h : cases.Perm cases') :
      Reordered (.switch cases default) (.switch cases' default)
  | clone {targets targets' : List (Target τ φ)} (h : targets.Perm targets') :
      Reordered (.clone targets) (.clone targets')
  | scatterGather {targets targets' : List (Target τ φ)} (h : targets.Perm targets') :
      Reordered (.scatterGather targets) (.scatterGather targets')

namespace Kind.Reordered

variable {τ φ : Type} {k k' : Kind τ φ}

theorem branches_perm (h : k.Reordered k') : k.branches.Perm k'.branches := by
  cases h with
  | switch default h => exact (h.filterMap _).append_right _
  | clone h | scatterGather h => exact h.filterMap _

theorem slots_perm (h : k.Reordered k') : (k.slots?.getD []).Perm (k'.slots?.getD []) := by
  cases h with
  | switch default h => exact (h.map _).cons _
  | clone h | scatterGather h => exact h.map _

end Kind.Reordered

section

variable {τ : Type}

/-! At the mediator itself. -/

/-- Of elements of which at most one qualifies, the one that does is found in any order. -/
theorem find?_eq_of_perm {α : Type} {P : α → Bool} {l l' : List α} (hperm : l.Perm l')
    (hl : l.Pairwise fun a b => P a = true → P b ≠ true) :
    l'.find? P = l.find? P := by
  have hl' : l'.Pairwise fun a b => P a = true → P b ≠ true :=
    hperm.pairwise hl fun hab hb ha => hab ha hb
  cases hfind : l.find? P with
  | none =>
      refine List.find?_eq_none.mpr fun a ha => ?_
      exact List.find?_eq_none.mp hfind a (hperm.mem_iff.mpr ha)
  | some a =>
      have ha := hperm.mem_iff.mp (List.mem_of_find?_eq_some hfind)
      exact find?_eq_some_of_pairwise hl' ha (List.find?_some hfind)

variable {m : Mediator τ (Flow τ)} {kind : Kind τ (Flow τ)}

theorem Mediator.placement_reordered_eq_entry_iff (hkind : m.kind.Reordered kind)
    (region : EntryRegion) (p : Position) :
    placement region p ⟨m.node, kind⟩ = .entry ↔ m.placement region p = .entry := by
  have hout : (∀ c ∈ kind.branches, p ∉ c) ↔ ∀ c ∈ m.branches, p ∉ c :=
    forall_congr' fun c => imp_congr_left hkind.branches_perm.mem_iff.symm
  rw [placement_eq_entry_iff, placement_eq_entry_iff]
  exact or_congr_right (and_congr_right' hout)

namespace Stepper

variable {r : Stepper}

theorem branchAt?_reordered (hkind : m.kind.Reordered kind)
    (hapart : m.branches.Pairwise fun c c' => c.node.range.Apart c'.node.range) :
    r.branchAt? ⟨m.node, kind⟩ = r.branchAt? m := by
  have hfind : kind.branches.find? (r.position ∈ ·) = m.branches.find? (r.position ∈ ·) :=
    find?_eq_of_perm hkind.branches_perm <| hapart.imp fun h hc hc' =>
      h r.position (of_decide_eq_true hc) (of_decide_eq_true hc')
  rw [branchAt?_eq, branchAt?_eq]
  exact congrArg _ hfind

/-- What settles the matter does not depend on the order of paths. -/
theorem settles_congr {slots slots' : List (Option (Flow τ))}
    (hheads : (slotHeads slots).Perm (slotHeads slots')) (hlength : slots.length = slots'.length) :
    r.Settles slots ↔ r.Settles slots' := by
  rw [Settles, Settles, ← List.length_pos_iff, ← List.length_pos_iff, hheads.length_eq, hlength]

end Stepper

namespace Place

variable {settings : Settings} {p : Position} {next : Option Position}

theorem slotsFrom_reordered (hkind : m.kind.Reordered kind) (settings : Settings) (p : Position)
    (next : Option Position) :
    (slotsFrom settings p ⟨⟨m.node, kind⟩, next⟩).Perm (slotsFrom settings p ⟨m, next⟩) := by
  have hplacement := Mediator.placement_reordered_eq_entry_iff hkind settings.entryRegion p
  by_cases hentry : m.placement settings.entryRegion p = .entry
  · have hslots : slotsFrom settings p ⟨m, next⟩ = m.kind.slots?.getD [] := slotsFrom_of_entry hentry
    have hslots' : slotsFrom settings p ⟨⟨m.node, kind⟩, next⟩ = kind.slots?.getD [] :=
      slotsFrom_of_entry (hplacement.mpr hentry)
    rw [hslots, hslots']
    exact hkind.slots_perm.symm
  · have hslots : slotsFrom settings p ⟨m, next⟩ = [] := slotsFrom_of_ne_entry hentry
    have hslots' : slotsFrom settings p ⟨⟨m.node, kind⟩, next⟩ = [] :=
      slotsFrom_of_ne_entry (mt hplacement.mp hentry)
    rw [hslots, hslots']

theorem targets_reordered (hkind : m.kind.Reordered kind) :
    (targets settings p ⟨⟨m.node, kind⟩, next⟩).Perm (targets settings p ⟨m, next⟩) := by
  have hslots := slotsFrom_reordered hkind settings p next
  have hheads : (Stepper.slotHeads _).Perm (Stepper.slotHeads _) := hslots.filterMap _
  rw [targets, targets]
  refine hheads.append ?_
  rw [if_congr (Stepper.settles_congr hheads hslots.length_eq) rfl rfl]

/-- Where the mediator is not entered, there is nothing to arm but what comes next. -/
theorem targets_reordered_of_ne_entry (hkind : m.kind.Reordered kind)
    (hentry : m.placement settings.entryRegion p ≠ .entry) :
    targets settings p ⟨⟨m.node, kind⟩, next⟩ = targets settings p ⟨m, next⟩ := by
  have hslots : slotsFrom settings p ⟨m, next⟩ = [] := slotsFrom_of_ne_entry hentry
  have hperm := slotsFrom_reordered hkind settings p next
  rw [targets_of_slotsFrom_eq_nil hslots, targets_of_slotsFrom_eq_nil (hslots ▸ hperm).eq_nil]

end Place

/-! Around the mediator. -/

section

variable {settings : Settings} {p : Position} {owner : Mediator τ (Option (Flow τ))} {c c' : Flow τ}

theorem forall_branches_close (hnode : c'.node = c.node) :
    (∀ b ∈ (owner.close c').branches, p ∉ b) ↔ ∀ b ∈ (owner.close c).branches, p ∉ b := by
  rw [Mediator.branches_close, Mediator.branches_close, List.forall_mem_map, List.forall_mem_map]
  refine forall₂_congr fun b _ => ?_
  cases b with
  | none => exact not_congr (iff_of_eq (congrArg (p ∈ ·.range) hnode))
  | some b => exact Iff.rfl

theorem slotHeads_close (hhead : c'.head? = c.head?) (slots : List (Option (Option (Flow τ)))) :
    Stepper.slotHeads (slots.map (·.map (·.getD c'))) =
      Stepper.slotHeads (slots.map (·.map (·.getD c))) := by
  rw [Stepper.slotHeads, Stepper.slotHeads, List.filterMap_map, List.filterMap_map]
  refine List.filterMap_congr fun slot _ => ?_
  obtain _ | _ | b := slot
  · rfl
  · exact hhead
  · rfl

/-- Of the flow that closes a mediator, only the node and the head matter at the mediator. -/
theorem Place.targets_close (hnode : c'.node = c.node) (hhead : c'.head? = c.head?)
    (next : Option Position) :
    targets settings p ⟨owner.close c', next⟩ = targets settings p ⟨owner.close c, next⟩ := by
  obtain ⟨slots, hslots⟩ : ∃ slots : List (Option (Option (Flow τ))), ∀ b : Flow τ, b.node = c.node →
      slotsFrom settings p ⟨owner.close b, next⟩ = slots.map (·.map (·.getD b)) := by
    refine ⟨if p ∈ owner.node.range.startTag ∨ (settings.entryRegion = .outsideBranches ∧
      ∀ b ∈ (owner.close c).branches, p ∉ b) then owner.kind.slots?.getD [] else [],
      fun b hnode => ?_⟩
    rw [slotsFrom, apply_ite (List.map _)]
    refine ite_congr (propext (or_congr_right (and_congr_right' (forall_branches_close hnode))))
      (fun _ => ?_) fun _ => rfl
    rw [Mediator.slots?_close]
    cases owner.kind.slots? <;> rfl
  have hheads := slotHeads_close hhead slots
  rw [targets, targets, hslots c' hnode, hslots c rfl, hheads]
  refine congrArg _ (if_congr (Stepper.settles_congr (.of_eq hheads) ?_) rfl rfl)
  rw [List.length_map, List.length_map]

namespace Stepper

variable {r : Stepper}

theorem branchAt?_close (r : Stepper) (owner : Mediator τ (Option (Flow τ))) (c : Flow τ) :
    r.branchAt? (owner.close c) =
      if r.position ∈ owner.node.range.startTag then none
      else (owner.branches.find? fun b => r.position ∈ (b.elim c.node (·.node)).range).map
        (·.getD c) := by
  rw [branchAt?_eq, Mediator.branches_close, List.find?_map]
  refine ite_congr rfl (fun _ => rfl) fun _ => congrArg _ (congrArg (List.find? · _) ?_)
  funext b
  cases b <;> rfl

/-- Of that flow, the mediators only matter where the scan goes on into it. -/
theorem targets_landingIn_close (hnode : c'.node = c.node) (hhead : c'.head? = c.head?)
    {next : Option Position}
    (hopen : r.position ∉ owner.node.range.startTag →
      owner.branches.find? (fun b => r.position ∈ (b.elim c.node (·.node)).range) = some none →
      (r.landing? next c'.mediators).map (Place.targets r.settings r.position) =
        (r.landing? next c.mediators).map (Place.targets r.settings r.position)) :
    (r.landingIn next (owner.close c')).targets r.settings r.position =
      (r.landingIn next (owner.close c)).targets r.settings r.position := by
  rw [landingIn, landingIn, ← Option.getD_map (Place.targets r.settings r.position),
    ← Option.getD_map (Place.targets r.settings r.position), Place.targets_close hnode hhead next,
    branchAt?_close, branchAt?_close, hnode]
  refine congrArg (Option.getD · _) ?_
  by_cases hheader : r.position ∈ owner.node.range.startTag
  · rw [if_pos hheader, if_pos hheader]
  · rw [if_neg hheader, if_neg hheader]
    cases hfind : owner.branches.find? fun b => r.position ∈ (b.elim c.node (·.node)).range with
    | none => rfl
    | some b =>
        cases b with
        | some b => rfl
        | none => exact hopen hheader hfind

end Stepper

end

/-! From the place of the mediator outwards. -/

theorem Mediator.mem_iff_of_node_eq {m m' : Mediator τ (Flow τ)} (h : m'.node = m.node)
    {p : Position} :
    p ∈ m' ↔ p ∈ m := by
  show p ∈ m'.node.range ↔ p ∈ m.node.range
  rw [h]

namespace Gap

variable {r : Stepper} {after : Option Position} {gap : Gap τ} {m m' : Mediator τ (Flow τ)}

/-- The scan comes to the place if the mediator stands there: none before it in its row holds the
position, and from the mediators around it the scan goes on into the branch that they have open. -/
def Reached (p : Position) (m : Mediator τ (Flow τ)) : Gap τ → Prop
  | row before _ => (∀ m' ∈ before, p ∉ m') ∧ p ∈ m
  | nested before owner _ branch inner _ =>
      (∀ m' ∈ before, p ∉ m') ∧ p ∈ owner ∧ p ∉ owner.node.range.startTag ∧
        owner.branches.find? (fun c => p ∈ (c.elim branch (·.node)).range) = some none ∧
        inner.Reached p m

/-- Where the scan comes to the place, it ends as it does in the mediator that stands there. -/
theorem Reached.landing?_fill (h : gap.Reached r.position m) (after : Option Position) :
    ∃ next, ∀ m' : Mediator τ (Flow τ), m'.node = m.node →
      r.landing? after (gap.fill m') = some (r.landingIn next m') := by
  induction gap generalizing after with
  | row before behind =>
      obtain ⟨hbefore, hm⟩ := h
      refine ⟨(behind.head?.map (·.head)).or after, fun m' hnode => ?_⟩
      rw [fill, Stepper.landing?_append, Stepper.landing?_eq_none_iff.mpr hbefore, Option.none_or,
        Stepper.landing?_of_mem behind ((Mediator.mem_iff_of_node_eq hnode).mpr hm)]
  | nested before owner one branch inner behind ih =>
      obtain ⟨hbefore, howner, hheader, hfind, hinner⟩ := h
      obtain ⟨next, hnext⟩ := ih hinner ((behind.head?.map (·.head)).or after)
      refine ⟨next, fun m' hnode => ?_⟩
      have hclose : r.position ∈ owner.close ⟨branch, inner.fill m'⟩ := howner
      rw [fill, Stepper.landing?_append, Stepper.landing?_eq_none_iff.mpr hbefore, Option.none_or,
        Stepper.landing?_of_mem behind hclose, Stepper.landingIn, Stepper.branchAt?_close,
        if_neg hheader, hfind, Option.map_some, Option.bind_some]
      show some ((r.landing? _ (inner.fill m')).getD _) = _
      rw [hnext m' hnode, Option.getD_some]

/-- Rows that differ in one mediator arm the same if they do so from this mediator on. -/
theorem map_landing?_append {α : Type} {arm : Place τ → α} {x x' : Mediator τ (Flow τ)}
    {before behind : List (Mediator τ (Flow τ))} (hnode : x'.node = x.node)
    (h : (∀ y ∈ before, r.position ∉ y) →
      (r.landing? after (x' :: behind)).map arm = (r.landing? after (x :: behind)).map arm) :
    (r.landing? after (before ++ x' :: behind)).map arm =
      (r.landing? after (before ++ x :: behind)).map arm := by
  have hhead : (x' :: behind).head?.map (·.head) = (x :: behind).head?.map (·.head) :=
    congrArg (fun node : Node τ => some node.head) hnode
  rw [Stepper.landing?_append, Stepper.landing?_append, hhead]
  cases hbefore : r.landing? (((x :: behind).head?.map (·.head)).or after) before with
  | some place => rfl
  | none => exact h (Stepper.landing?_eq_none_iff.mp hbefore)

/-- Where the scan does not come to the place, it arms the same with any mediator there. -/
theorem map_targets_landing?_fill (h : ¬gap.Reached r.position m) (hnode : m'.node = m.node)
    (after : Option Position) :
    (r.landing? after (gap.fill m')).map (Place.targets r.settings r.position) =
      (r.landing? after (gap.fill m)).map (Place.targets r.settings r.position) := by
  induction gap generalizing after with
  | row before behind =>
      refine map_landing?_append hnode fun hbefore => ?_
      have hm : r.position ∉ m := fun hm => h ⟨hbefore, hm⟩
      have hm' : r.position ∉ m' := (Mediator.mem_iff_of_node_eq hnode).not.mpr hm
      rw [Stepper.landing?_of_not_mem behind hm', Stepper.landing?_of_not_mem behind hm]
  | nested before owner one branch inner behind ih =>
      refine map_landing?_append (by rfl) fun hbefore => ?_
      by_cases howner : r.position ∈ owner
      · have hmem (c : Flow τ) : r.position ∈ owner.close c := howner
        have hhead : (⟨branch, inner.fill m'⟩ : Flow τ).head? =
            (⟨branch, inner.fill m⟩ : Flow τ).head? := inner.head?_fill hnode
        rw [Stepper.landing?_of_mem behind (hmem _), Stepper.landing?_of_mem behind (hmem _)]
        refine congrArg some (Stepper.targets_landingIn_close (by rfl) hhead fun hheader hfind => ?_)
        have hinner : ¬inner.Reached r.position m := fun hinner =>
          h ⟨hbefore, howner, hheader, hfind, hinner⟩
        exact ih hinner _
      · have hmem (c : Flow τ) : r.position ∉ owner.close c := howner
        rw [Stepper.landing?_of_not_mem behind (hmem _), Stepper.landing?_of_not_mem behind (hmem _)]

end Gap

namespace Stepper

/-- In the mediator the scan goes where it went before, and if it stays there, it arms the same paths.
-/
theorem targets_landingIn_reordered (r : Stepper) {m : Mediator τ (Flow τ)} {kind : Kind τ (Flow τ)}
    (hkind : m.kind.Reordered kind)
    (hapart : m.branches.Pairwise fun c c' => c.node.range.Apart c'.node.range)
    (next : Option Position) :
    ((r.landingIn next ⟨m.node, kind⟩).targets r.settings r.position).Perm
        ((r.landingIn next m).targets r.settings r.position) ∧
      (m.placement r.settings.entryRegion r.position ≠ .entry →
        (r.landingIn next ⟨m.node, kind⟩).targets r.settings r.position =
          (r.landingIn next m).targets r.settings r.position) := by
  rw [landingIn, landingIn, branchAt?_reordered hkind hapart]
  cases (r.branchAt? m).bind fun c => r.landing? next c.mediators with
  | none => exact ⟨Place.targets_reordered hkind, Place.targets_reordered_of_ne_entry hkind⟩
  | some x => exact ⟨.refl _, fun _ => rfl⟩

theorem landingIn_of_entry {r : Stepper} {m : Mediator τ (Flow τ)}
    (hentry : m.placement r.settings.entryRegion r.position = .entry) (next : Option Position) :
    r.landingIn next m = ⟨m, next⟩ := by
  have hat : r.branchAt? m = none := by
    rw [branchAt?, hentry]
    split <;> rfl
  rw [landingIn, hat]
  rfl

/-- Let a switch, a clone or a scatter-gather that stands anywhere in a flow list its cases or targets
in another order. If its branches are apart, the same is armed up to order, and in the same order
unless the scan ends at this mediator and the position enters it. -/
theorem resolve_reordered (f : Flow τ) {m : Mediator τ (Flow τ)} {kind : Kind τ (Flow τ)}
    (hkind : m.kind.Reordered kind)
    (hapart : m.branches.Pairwise fun c c' => c.node.range.Apart c'.node.range) :
    (InRow f.mediators m ↔ ∃ gap : Gap τ, gap.fill m = f.mediators) ∧
    ∀ gap : Gap τ, gap.fill m = f.mediators → ∀ r : Stepper,
      (r.resolve [⟨f.node, gap.fill ⟨m.node, kind⟩⟩]).Perm (r.resolve [f]) ∧
      (r.resolve [⟨f.node, gap.fill ⟨m.node, kind⟩⟩] = r.resolve [f] ∨
        gap.Reached r.position m ∧ m.placement r.settings.entryRegion r.position = .entry ∧
          ∃ next, r.landing? none f.mediators = some ⟨m, next⟩) := by
  refine ⟨Gap.inRow_iff, fun gap hfill r => ?_⟩
  rw [resolve_eq_landing, resolve_eq_landing, List.flatMap_singleton, List.flatMap_singleton, ← hfill]
  by_cases hreached : gap.Reached r.position m
  · obtain ⟨next, hlanding⟩ := hreached.landing?_fill none
    obtain ⟨hperm, hsame⟩ := r.targets_landingIn_reordered hkind hapart next
    rw [hlanding ⟨m.node, kind⟩ rfl, hlanding m rfl, Option.elim_some, Option.elim_some]
    refine ⟨hperm, ?_⟩
    by_cases hentry : m.placement r.settings.entryRegion r.position = .entry
    · exact .inr ⟨hreached, hentry, next, congrArg some (landingIn_of_entry hentry next)⟩
    · exact .inl (hsame hentry)
  · have hmap : (r.landing? none (gap.fill ⟨m.node, kind⟩)).map _ = _ :=
      Gap.map_targets_landing?_fill hreached (by rfl) none
    have hsame := congrArg (Option.elim · [] id) hmap
    simp only [Option.elim_map, Function.id_comp] at hsame
    exact ⟨.of_eq hsame, .inl hsame⟩

/-- A case for orders with a log, and one for returns with a drop. -/
def orderCase : Case (Flow String) :=
  ⟨some "order", some ⟨.onLines "case" 5 7, [⟨.onLine "log" 6, .simple⟩]⟩⟩

def returnCase : Case (Flow String) :=
  ⟨some "return", some ⟨.onLines "case" 8 10, [⟨.onLine "drop" 9, .simple⟩]⟩⟩

def routing (cases : List (Case (Flow String))) : Mediator String (Flow String) :=
  ⟨.onLines "switch" 4 11, .switch cases none⟩

/-- The first branch of a filter is for one mediator; behind the filter comes a send. -/
def filteredGap : Gap String :=
  .nested [] ⟨.onLines "filter" 2 13, .filter (some none) none⟩ rfl (.onLines "then" 3 12)
    (.row [] []) [⟨.onLine "send" 14, .simple⟩]

/-- The cases in the order in which they are written. -/
def filteredRouting : Flow String :=
  ⟨.onLines "sequence" 1 15, filteredGap.fill (routing [orderCase, returnCase])⟩

/-- A switch in the branch that is entered arms the heads of its cases, and then the send. -/
theorem resolve_filteredGap (cases : List (Case (Flow String)))
    (hentry : (routing cases).placement .startTag ⟨4, 5⟩ = .entry) :
    resolve ⟨{}, ⟨4, 5⟩⟩ [⟨filteredRouting.node, filteredGap.fill (routing cases)⟩] =
      Place.targets {} ⟨4, 5⟩ ⟨routing cases, some ⟨14, 0⟩⟩ := by
  have hfilter : (⟨4, 5⟩ : Position) ∈ (Node.onLines "filter" 2 13).range := by decide
  have hswitch : (⟨4, 5⟩ : Position) ∈ (Node.onLines "switch" 4 11).range := by decide
  have hinner : landing? ⟨{}, ⟨4, 5⟩⟩ (some ⟨14, 0⟩) [routing cases] =
      some ⟨routing cases, some ⟨14, 0⟩⟩ := by
    rw [landing?_of_mem [] hswitch, landingIn_of_entry hentry]
    rfl
  have houter : landing? ⟨{}, ⟨4, 5⟩⟩ none (filteredGap.fill (routing cases)) =
      some ⟨routing cases, some ⟨14, 0⟩⟩ := by
    simp only [filteredGap, Gap.fill, List.nil_append]
    rw [landing?_of_mem _ hfilter, landingIn]
    show some ((landing? ⟨{}, ⟨4, 5⟩⟩ (some ⟨14, 0⟩) [routing cases]).getD _) = _
    rw [hinner, Option.getD_some]
  rw [resolve_eq_landing, List.flatMap_singleton, houter, Option.elim_some]

/-- The switch is entered: what is armed for the two cases changes places. -/
theorem resolve_reordered_routing :
    (routing [orderCase, returnCase]).kind.Reordered (.switch [returnCase, orderCase] none) ∧
    ((routing [orderCase, returnCase]).branches.Pairwise fun c c' =>
      c.node.range.Apart c'.node.range) ∧
    (resolve ⟨{}, ⟨4, 5⟩⟩
      [⟨filteredRouting.node, filteredGap.fill (routing [returnCase, orderCase])⟩]).Perm
        (resolve ⟨{}, ⟨4, 5⟩⟩ [filteredRouting]) ∧
    resolve ⟨{}, ⟨4, 5⟩⟩ [filteredRouting] = [⟨6, 0⟩, ⟨9, 0⟩, ⟨14, 0⟩] ∧
    resolve ⟨{}, ⟨4, 5⟩⟩
      [⟨filteredRouting.node, filteredGap.fill (routing [returnCase, orderCase])⟩] =
        [⟨9, 0⟩, ⟨6, 0⟩, ⟨14, 0⟩] := by
  have hkind : (routing [orderCase, returnCase]).kind.Reordered
      (.switch [returnCase, orderCase] none) := .switch none (.swap _ _ _)
  have hapart : (routing [orderCase, returnCase]).branches.Pairwise fun c c' =>
      c.node.range.Apart c'.node.range := by
    decide
  have hperm := ((resolve_reordered filteredRouting hkind hapart).2 filteredGap rfl ⟨{}, ⟨4, 5⟩⟩).1
  refine ⟨hkind, hapart, hperm, ?_, ?_⟩
  · exact (resolve_filteredGap [orderCase, returnCase] (by decide)).trans (by decide)
  · exact (resolve_filteredGap [returnCase, orderCase] (by decide)).trans (by decide)

end Stepper

end

end Mediation
