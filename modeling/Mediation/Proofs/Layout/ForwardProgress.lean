import Mediation.Proofs.Document.RangeCheck
import Mediation.Proofs.Layout.StepOver
import Mediation.Proofs.Stepping.Entering
import Mediation.Proofs.Stepping.Isolation

/-! Stepping goes forward. Of the layout this asks only what concerns flows: the mediators of a flow
stand strictly between its tags and one after the other, and the flows that a mediator nests stand
strictly between its tags and apart (`Flow.Orderly`). What is armed last is behind everything that is
nested in the mediator that holds the position (`Stepper.stop_lt_successor`), and the branches of that
mediator are apart from each other, so no head is armed twice; and where only a header enters its
branches, every head that is armed is behind the position (`Flow.Orderly.resolve_forward`). -/

namespace Mediation

namespace Position

variable {a b c : Position}

theorem lt_of_le_of_lt (hab : a ≤ b) (hbc : b < c) : a < c := by
  rw [le_iff_rank_le] at hab
  rw [lt_iff_rank_lt] at hbc ⊢
  exact Nat.lt_of_le_of_lt hab hbc

theorem lt_of_lt_of_le (hab : a < b) (hbc : b ≤ c) : a < c := by
  rw [le_iff_rank_le] at hbc
  rw [lt_iff_rank_lt] at hab ⊢
  exact Nat.lt_of_lt_of_le hab hbc

theorem lt_trans (hab : a < b) (hbc : b < c) : a < c := by
  rw [lt_iff_rank_lt] at hab hbc ⊢
  exact Nat.lt_trans hab hbc

theorem not_lt_of_le (h : a ≤ b) : ¬b < a := by
  rw [le_iff_rank_le] at h
  rw [lt_iff_rank_lt]
  exact Nat.not_lt_of_le h

end Position

namespace SourceRange

variable {outer mid inner : SourceRange}

theorem Proper.wellFormed {r : SourceRange} (hr : r.Proper) : r.WellFormed where
  tags := hr.tags
  startTag_le endTag hend := by
    have hlt := hr.startTag_lt endTag hend
    rw [Position.lt_iff_rank_lt] at hlt
    exact Position.le_iff_rank_le.mpr (Nat.le_of_lt hlt)

theorem Holds.startTag_stop_lt (h : outer.Holds inner) : outer.startTag.stop < inner.start := by
  obtain ⟨_, -, hstart, -⟩ := h
  exact hstart

theorem Holds.stop_lt (ho : outer.Proper) (h : outer.Holds inner) : inner.stop < outer.stop := by
  cases outer with
  | selfClosed tag =>
      obtain ⟨_, hend, -⟩ := h
      cases hend
  | container startTag endTag =>
      obtain ⟨_, hend, -, hstop⟩ := h
      cases hend
      have he := ho.tags endTag (by simp [SourceRange.tags])
      simp only [TagRange.Inverted, Position.lt_iff_rank_lt, stop] at he hstop ⊢
      omega

theorem Holds.trans (hm : mid.Proper) (h : outer.Holds mid) (h' : mid.Holds inner) :
    outer.Holds inner := by
  obtain ⟨endTag, hend, hstart, hstop⟩ := h
  have hheader : outer.startTag.stop < mid.startTag.stop :=
    Position.lt_of_lt_of_le hstart hm.wellFormed.start_le_stop_startTag
  refine ⟨endTag, hend, ?_, ?_⟩
  · exact Position.lt_trans hheader h'.startTag_stop_lt
  · exact Position.lt_trans (h'.stop_lt hm) hstop

end SourceRange

/-- The flows that the mediator nests stand strictly between its tags, and apart from each other. -/
@[mk_iff]
structure Mediator.Orderly {τ : Type} (m : Mediator τ (Flow τ)) : Prop where
  proper : m.node.range.Proper
  holds : ∀ c ∈ m.branches, m.node.range.Holds c.node.range
  apart : m.branches.Pairwise fun c c' => c.node.range.Apart c'.node.range

instance {τ : Type} (m : Mediator τ (Flow τ)) : Decidable m.Orderly :=
  decidable_of_iff' _ (Mediator.orderly_iff m)

namespace Flow

variable {τ : Type}

/-- The mediators of the flow stand strictly between its tags and one after the other, and each of
them is orderly. -/
@[mk_iff]
structure RowOrderly (f : Flow τ) : Prop where
  proper : f.node.range.Proper
  holds : ∀ m ∈ f.mediators, f.node.range.Holds m.node.range
  ordered : f.mediators.IsChain fun m m' => m.node.range.Before m'.node.range
  mediators : ∀ m ∈ f.mediators, m.Orderly

/-- The flow is orderly at every depth. -/
def Orderly (f : Flow τ) : Prop := ∀ g ∈ f.withNested, g.RowOrderly

instance (f : Flow τ) : Decidable f.RowOrderly := decidable_of_iff' _ (rowOrderly_iff f)

instance (f : Flow τ) : Decidable f.Orderly :=
  inferInstanceAs (Decidable (∀ g ∈ f.withNested, g.RowOrderly))

end Flow

/-! Properly laid out flows are orderly: where a flow stands in a target of a mediator, it stands in
the mediator. -/

section

variable {τ : Type}

theorem Mediator.LaidOut.orderly {m : Mediator τ (Flow τ)} (hm : m.LaidOut) : m.Orderly where
  proper := hm.proper
  holds c hc := by
    rcases m.kind.elements_branches_cases with helements | ⟨helements, hbranches⟩
    · exact hm.holds c.node (helements ▸ List.mem_map_of_mem hc)
    · have hmem : c ∈ m.kind.targets.filterMap (·.sequence) := hbranches ▸ hc
      obtain ⟨t, ht, hseq⟩ := List.mem_filterMap.mp hmem
      have hnode := hm.holds t.node (helements ▸ List.mem_map_of_mem ht)
      exact hnode.trans (hm.targets_proper t ht) (hm.targets_hold t ht c hseq)
  apart := hm.branches_apart

theorem Flow.LaidOut.orderly {f : Flow τ} (hf : f.LaidOut) : f.Orderly := fun g hg =>
  have hrow := hf g hg
  ⟨hrow.proper, hrow.holds, hrow.ordered, fun m hm => (hrow.mediators m hm).orderly⟩

end

namespace Flow

variable {τ : Type} {f : Flow τ}

theorem Orderly.row (hf : f.Orderly) : f.RowOrderly := hf f f.mem_withNested_self

theorem Orderly.of_mem_withNested (hf : f.Orderly) {g : Flow τ} (hg : g ∈ f.withNested) :
    g.Orderly :=
  fun h hh => hf h (withNested_trans hg hh)

theorem Orderly.branch (hf : f.Orderly) {m : Mediator τ (Flow τ)} (hm : m ∈ f.mediators)
    {c : Flow τ} (hc : c ∈ m.branches) :
    c.Orderly :=
  fun g hg => hf g (mem_withNested_of_mem_branches hm hc hg)

/-- The flow holds every mediator that is nested in it. -/
theorem Orderly.holds_of_inRow (hf : f.Orderly) {m : Mediator τ (Flow τ)}
    (hm : InRow f.mediators m) :
    f.node.range.Holds m.node.range := by
  obtain ⟨g, hg, hmem⟩ := exists_mem_withNested_iff.mpr hm
  clear hm
  induction f using Flow.induct with
  | hstep f ih =>
      rw [withNested_eq, List.mem_cons] at hg
      rcases hg with rfl | hg
      · exact hf.row.holds m hmem
      · obtain ⟨c, hnested, hg⟩ := List.mem_flatMap.mp hg
        obtain ⟨owner, howner, hc⟩ := List.mem_flatMap.mp hnested
        have horderly := hf.row.mediators owner howner
        have hbranch := hf.branch howner hc
        have hinner := (horderly.holds c hc).trans hbranch.row.proper (ih c hnested hbranch hg)
        exact (hf.row.holds owner howner).trans horderly.proper hinner

/-- The head of an orderly flow is in the flow, strictly behind its start tag. -/
theorem Orderly.mem_of_head? (hf : f.Orderly) {q : Position} (hq : f.head? = some q) : q ∈ f := by
  obtain ⟨m, hm, rfl⟩ := Option.map_eq_some_iff.mp hq
  have hmem := List.mem_of_head? hm
  have hhead := (hf.row.mediators m hmem).proper.wellFormed.start_mem
  exact ((hf.row.holds m hmem).mem hf.row.proper hhead).1

end Flow

/-- Mediators that stand one after the other, orderly with all they nest. -/
structure OrderlyRow {τ : Type} (ms : List (Mediator τ (Flow τ))) : Prop where
  ordered : ms.IsChain fun m m' => m.node.range.Before m'.node.range
  mediators : ∀ m ∈ ms, m.Orderly
  branches : ∀ m ∈ ms, ∀ c ∈ m.branches, c.Orderly

section

variable {τ : Type}

theorem Flow.Orderly.orderlyRow {f : Flow τ} (hf : f.Orderly) : OrderlyRow f.mediators where
  ordered := hf.row.ordered
  mediators := hf.row.mediators
  branches _ hm _ hc := hf.branch hm hc

theorem OrderlyRow.tail {m : Mediator τ (Flow τ)} {rest : List (Mediator τ (Flow τ))}
    (h : OrderlyRow (m :: rest)) :
    OrderlyRow rest where
  ordered := h.ordered.tail
  mediators m' hm' := h.mediators m' (List.mem_cons_of_mem _ hm')
  branches m' hm' := h.branches m' (List.mem_cons_of_mem _ hm')

theorem OrderlyRow.stop_lt_head {m : Mediator τ (Flow τ)} {rest : List (Mediator τ (Flow τ))}
    (h : OrderlyRow (m :: rest)) {q : Position} (hq : rest.head?.map (·.head) = some q) :
    m.node.range.stop < q := by
  cases rest with
  | nil => cases hq
  | cons next rest =>
      obtain rfl := Option.some.inj hq
      exact h.ordered.rel

end

namespace Stepper

variable {τ : Type} {r : Stepper}

/-- Either nothing is entered, or all slots are; in the latter case the position is on the header if
only that is where the mediator is entered. -/
theorem slotsAt_cases (r : Stepper) (m : Mediator τ (Flow τ)) :
    r.slotsAt m = [] ∨ m.kind.slots? = some (r.slotsAt m) ∧
      (r.settings.entryRegion = .startTag → r.position ∈ m.node.range.startTag) := by
  have hslotsAt := slotsAt_eq_slotsFrom (r := r) (⟨m, none⟩ : Place τ)
  rw [Place.slotsFrom] at hslotsAt
  split at hslotsAt
  next hentry =>
      cases hslots : m.kind.slots? with
      | none => exact .inl (by rw [hslotsAt, hslots, Option.getD_none])
      | some slots =>
          refine .inr ⟨by rw [hslotsAt, hslots, Option.getD_some], fun hregion => ?_⟩
          rcases hentry with hheader | ⟨houtside, -⟩
          · exact hheader
          · cases hregion.symm.trans houtside
  next => exact .inl hslotsAt

theorem mem_startTag_of_mem_slotHeads (hregion : r.settings.entryRegion = .startTag)
    {m : Mediator τ (Flow τ)} {q : Position} (hq : q ∈ slotHeads (r.slotsAt m)) :
    r.position ∈ m.node.range.startTag := by
  rcases r.slotsAt_cases m with hnil | ⟨-, hheader⟩
  · rw [hnil] at hq
    cases hq
  · exact hheader hregion

/-- A head that is armed for a branch is in the branch. -/
theorem exists_branch_of_mem_slotHeads {m : Mediator τ (Flow τ)}
    (hbranches : ∀ c ∈ m.branches, c.Orderly) {q : Position}
    (hq : q ∈ slotHeads (r.slotsAt m)) :
    ∃ c ∈ m.branches, q ∈ c := by
  obtain ⟨c, hc, hhead⟩ := exists_head?_of_mem_slotHeads hq
  exact ⟨c, hc, (hbranches c hc).mem_of_head? hhead⟩

theorem le_stop_of_mem_slotHeads {m : Mediator τ (Flow τ)} (hm : m.Orderly)
    (hbranches : ∀ c ∈ m.branches, c.Orderly) {q : Position}
    (hq : q ∈ slotHeads (r.slotsAt m)) :
    q ≤ m.node.range.stop := by
  obtain ⟨c, hc, hq⟩ := exists_branch_of_mem_slotHeads hbranches hq
  exact ((hm.holds c hc).mem hm.proper hq).1.2

/-- From a header the heads of branches are ahead. -/
theorem lt_of_mem_slotHeads (hregion : r.settings.entryRegion = .startTag)
    {m : Mediator τ (Flow τ)} (hm : m.Orderly) (hbranches : ∀ c ∈ m.branches, c.Orderly)
    {q : Position} (hq : q ∈ slotHeads (r.slotsAt m)) :
    r.position < q := by
  have hheader : r.position ≤ m.node.range.startTag.stop :=
    (mem_startTag_of_mem_slotHeads hregion hq).2
  obtain ⟨c, hc, hq⟩ := exists_branch_of_mem_slotHeads hbranches hq
  have hahead := Position.lt_of_lt_of_le (hm.holds c hc).startTag_stop_lt hq.1
  exact Position.lt_of_le_of_lt hheader hahead

/-- Branches apart have different heads. -/
theorem nodup_slotHeads {m : Mediator τ (Flow τ)} (hm : m.Orderly)
    (hbranches : ∀ c ∈ m.branches, c.Orderly) :
    (slotHeads (r.slotsAt m)).Nodup := by
  rcases r.slotsAt_cases m with hnil | ⟨hslots, -⟩
  · rw [hnil]
    exact List.nodup_nil
  · rw [(slotHeads_perm hslots).nodup_iff, List.Nodup, List.pairwise_filterMap]
    refine hm.apart.imp_of_mem fun {c c'} hc hc' hapart q hq q' hq' heq => ?_
    subst heq
    exact hapart q ((hbranches c hc).mem_of_head? hq) ((hbranches c' hc').mem_of_head? hq')

/-- The head that comes behind a chain is behind the mediator at which the chain ends. -/
theorem stop_lt_successor {ms : List (Mediator τ (Flow τ))} (h : OrderlyRow ms) {last : Stop τ}
    (hlast : (r.stops ms).getLast? = some last) {q : Position}
    (hq : successor? (r.stops ms) = some q) :
    last.mediator.node.range.stop < q := by
  induction ms using Flow.mediators_induct with
  | nil => simp [stops_nil] at hlast
  | cons m rest hbranch ih =>
      by_cases hp : r.position ∈ m
      · have hhead := h.stop_lt_head (q := q)
        rcases r.exists_stops_of_mem rest hp with hstops | ⟨c, hc, hstops⟩ <;>
          rw [hstops, List.getLast?_cons, Option.some.injEq] at hlast <;>
          rw [hstops, successor?_cons] at hq
        · subst hlast
          exact hhead hq
        · cases hlast' : (r.stops c.mediators).getLast? with
          | none =>
              rw [List.getLast?_eq_none_iff.mp hlast'] at hlast hq
              subst hlast
              exact hhead hq
          | some last' =>
              rw [hlast', Option.getD_some] at hlast
              subst hlast
              have hcOrderly := h.branches m List.mem_cons_self c hc
              cases hsuccessor : successor? (r.stops c.mediators) with
              | some q' =>
                  rw [hsuccessor, Option.some_or] at hq
                  exact hbranch c hc hcOrderly.orderlyRow hlast' (hsuccessor.trans hq)
              | none =>
                  -- nothing comes behind the mediator within `m`, so `q` is behind `m`
                  rw [hsuccessor, Option.none_or] at hq
                  have hmOrderly := h.mediators m List.mem_cons_self
                  have hin := inRow_of_mem_stops r (List.mem_of_getLast? hlast') (.inl rfl)
                  have hholds := (hmOrderly.holds c hc).trans hcOrderly.row.proper
                    (hcOrderly.holds_of_inRow hin)
                  exact Position.lt_trans (hholds.stop_lt hmOrderly.proper) (hhead hq)
      · rw [stops_of_not_mem r rest hp] at hlast hq
        exact ih h.tail hlast hq

end Stepper

namespace Flow

variable {τ : Type} {f : Flow τ}

/-- In an orderly flow no position is armed twice, and where only headers enter branches, every
position that is armed is behind the one that is stepped over. -/
theorem Orderly.resolve_forward (hf : f.Orderly) (settings : Settings) (p : Position) :
    (Stepper.resolve ⟨settings, p⟩ [f]).Nodup ∧
    (settings.entryRegion = .startTag → ∀ q ∈ Stepper.resolve ⟨settings, p⟩ [f], p < q) := by
  rw [Stepper.resolve_eq_follow, Stepper.armed_follow, List.flatMap_singleton]
  cases hlast : (Stepper.stops ⟨settings, p⟩ f.mediators).getLast? with
  | none => simp [Stepper.targets, hlast]
  | some last =>
      have hmem := List.mem_of_getLast? hlast
      obtain ⟨g, hg, hm⟩ :=
        exists_mem_withNested_iff.mpr (Stepper.inRow_of_mem_stops ⟨settings, p⟩ hmem (.inl rfl))
      have hgOrderly := hf.of_mem_withNested hg
      have horderly := hgOrderly.row.mediators last.mediator hm
      have hbranches (c) (hc : c ∈ last.mediator.branches) := hgOrderly.branch hm hc
      have hbehind (q : Position) := Stepper.stop_lt_successor (q := q) hf.orderlyRow hlast
      have hheads := Stepper.nodup_slotHeads (r := ⟨settings, p⟩) horderly hbranches
      constructor
      · simp only [Stepper.targets, hlast]
        split
        next => rwa [List.append_nil]
        next =>
            refine List.nodup_append.mpr ⟨hheads, by cases Stepper.successor? _ <;> simp, ?_⟩
            rintro q hq _ hnext rfl
            have hle := Stepper.le_stop_of_mem_slotHeads horderly hbranches hq
            exact Position.not_lt_of_le hle (hbehind q (Option.mem_toList.mp hnext))
      · intro hregion q hq
        obtain ⟨last', hlast', hq⟩ := Stepper.exists_last_of_mem_targets hq
        obtain rfl : last = last' := Option.some.inj (hlast.symm.trans hlast')
        rcases hq with hq | hq
        · exact Stepper.lt_of_mem_slotHeads hregion horderly hbranches hq
        · have hp : p ≤ last.mediator.node.range.stop := (Stepper.mem_of_mem_stops hmem).2
          exact Position.lt_of_le_of_lt hp (hbehind q hq)

/-- A switch between a case, a case that is empty and a default, with a send behind it. -/
def switching : Flow String :=
  ⟨.onLines "sequence" 1 11,
    [⟨.onLines "switch" 2 9, .switch
        [⟨some "a", some ⟨.onLines "case" 3 5, [⟨.onLine "log" 4, .simple⟩]⟩⟩, ⟨none, none⟩]
        (some ⟨.onLines "default" 6 8, [⟨.onLine "drop" 7, .simple⟩]⟩)⟩,
      ⟨.onLine "send" 10, .simple⟩]⟩

/-- On the header of the switch the default is armed before the case that stands before it; all heads
are different and behind the header. -/
theorem resolve_forward_switching :
    switching.Orderly ∧ Stepper.resolve ⟨{}, ⟨2, 5⟩⟩ [switching] = [⟨7, 0⟩, ⟨4, 0⟩, ⟨10, 0⟩] ∧
    (Stepper.resolve ⟨{}, ⟨2, 5⟩⟩ [switching]).Nodup ∧
    ∀ q ∈ Stepper.resolve ⟨{}, ⟨2, 5⟩⟩ [switching], ⟨2, 5⟩ < q := by
  have horderly : switching.Orderly := by
    simp only [Orderly, switching, withNested_eq, nested, Mediator.branches, Kind.branches,
      Option.toList, List.filterMap, List.flatMap_cons, List.flatMap_nil, List.nil_append,
      List.cons_append, List.append_nil]
    decide
  obtain ⟨hnodup, hforward⟩ := Orderly.resolve_forward horderly {} ⟨2, 5⟩
  refine ⟨horderly, ?_, hnodup, hforward rfl⟩
  simp only [Stepper.resolve, switching, List.foldl, Stepper.scanFlow, Stepper.scan]
  decide

end Flow

end Mediation
