import Mediation.Proofs.Element
import Mediation.Proofs.Stepping.Landing

/-! What the settings change. Under any settings a scan ends at the same place, so two settings differ
only in what they arm there. How absent branches are taken shows only where the place is entered and
some of its paths have a head and others have none: then one more head is armed behind the others if
they fall through (`Stepper.resolve_absentBranches`). Which positions enter a mediator shows only at a
place that holds the position neither on its header nor in a branch: there the heads of its branches
are armed first, or only they, if such positions enter it too (`Stepper.resolve_entryRegion`). -/

namespace Mediation

variable {τ : Type} {region : EntryRegion} {p : Position}

namespace Stepper

/-- Some of the paths have a head to halt at, and some have none. -/
def Mixed (slots : List (Option (Flow τ))) : Prop :=
  (∃ slot ∈ slots, slot.bind (·.head?) ≠ none) ∧ ∃ slot ∈ slots, slot.bind (·.head?) = none

instance (slots : List (Option (Flow τ))) : Decidable (Mixed slots) :=
  inferInstanceAs (Decidable (_ ∧ _))

theorem slotHeads_ne_nil_iff {slots : List (Option (Flow τ))} :
    slotHeads slots ≠ [] ↔ ∃ slot ∈ slots, slot.bind (·.head?) ≠ none := by
  rw [slotHeads, ne_eq, List.filterMap_eq_nil_iff]
  push Not
  rfl

theorem length_slotHeads_eq_iff {slots : List (Option (Flow τ))} :
    (slotHeads slots).length = slots.length ↔ ¬∃ slot ∈ slots, slot.bind (·.head?) = none := by
  rw [slotHeads, List.filterMap_length_eq_length]
  push Not
  exact forall₂_congr fun _ _ => Option.isSome_iff_ne_none

/-- Where absent branches are ignored, one head settles the matter. -/
theorem settles_ignore_iff {slots : List (Option (Flow τ))} :
    (⟨⟨.ignore, region⟩, p⟩ : Stepper).Settles slots ↔ slotHeads slots ≠ [] :=
  and_iff_left (.inl rfl)

/-- Where they fall through, no path may be without a head. -/
theorem settles_fallThrough_iff {slots : List (Option (Flow τ))} :
    (⟨⟨.fallThrough, region⟩, p⟩ : Stepper).Settles slots ↔ slotHeads slots ≠ [] ∧ ¬Mixed slots := by
  have hlength : (⟨⟨.fallThrough, region⟩, p⟩ : Stepper).Settles slots ↔
      slotHeads slots ≠ [] ∧ (slotHeads slots).length = slots.length :=
    and_congr_right' (or_iff_right nofun)
  rw [hlength, length_slotHeads_eq_iff]
  refine and_congr_right fun hheads => not_congr ?_
  exact (and_iff_right (slotHeads_ne_nil_iff.mp hheads)).symm

end Stepper

namespace Place

variable {x : Place τ}

/-- The two entry regions differ where the position is neither on the header nor in a branch. -/
theorem slotsFrom_entryRegion (x : Place τ) (policy : AbsentBranches) (p : Position) :
    x.slotsFrom ⟨policy, .outsideBranches⟩ p = x.slotsFrom ⟨policy, .startTag⟩ p ∨
      x.mediator.placement .startTag p = .elsewhere ∧
      x.slotsFrom ⟨policy, .outsideBranches⟩ p = x.mediator.kind.slots?.getD [] ∧
      x.slotsFrom ⟨policy, .startTag⟩ p = [] := by
  by_cases hheader : p ∈ x.mediator.node.range.startTag
  · left
    rw [slotsFrom, slotsFrom, if_pos (.inl hheader), if_pos (.inl hheader)]
  · have hnil : x.slotsFrom ⟨policy, .startTag⟩ p = [] :=
      if_neg fun h => h.elim hheader fun h => EntryRegion.noConfusion h.1
    by_cases hout : ∀ c ∈ x.mediator.branches, p ∉ c
    · right
      exact ⟨Mediator.placement_eq_elsewhere_iff.mpr ⟨rfl, hheader, hout⟩,
        if_pos (.inr ⟨rfl, hout⟩), hnil⟩
    · left
      rw [hnil]
      exact if_neg fun h => h.elim hheader (hout ·.2)

/-- Paths with a head and paths without one are only found where a mediator is entered. -/
theorem mixed_slotsFrom_iff {settings : Settings} :
    Stepper.Mixed (x.slotsFrom settings p) ↔
      ∃ slots, x.mediator.kind.slots? = some slots ∧
        x.mediator.placement settings.entryRegion p = .entry ∧ Stepper.Mixed slots := by
  constructor
  · intro h
    by_cases hentry : x.mediator.placement settings.entryRegion p = .entry
    · rw [slotsFrom_of_entry hentry] at h
      cases hslots : x.mediator.kind.slots? with
      | none => simp [hslots, Stepper.Mixed] at h
      | some slots =>
          rw [hslots, Option.getD_some] at h
          exact ⟨slots, rfl, hentry, h⟩
    · rw [slotsFrom_of_ne_entry hentry] at h
      simp [Stepper.Mixed] at h
  · rintro ⟨slots, hslots, hentry, h⟩
    rwa [slotsFrom_of_entry hentry, hslots, Option.getD_some]

/-- Absent branches that fall through add the head of what comes next where paths are mixed. -/
theorem targets_fallThrough :
    x.targets ⟨.fallThrough, region⟩ p = x.targets ⟨.ignore, region⟩ p ++
      if Stepper.Mixed (x.slotsFrom ⟨.ignore, region⟩ p) then x.next.toList else [] := by
  have hslots : x.slotsFrom ⟨.fallThrough, region⟩ p = x.slotsFrom ⟨.ignore, region⟩ p := rfl
  simp only [targets, hslots, Stepper.settles_fallThrough_iff, Stepper.settles_ignore_iff]
  by_cases hmixed : Stepper.Mixed (x.slotsFrom ⟨.ignore, region⟩ p)
  · have hheads := Stepper.slotHeads_ne_nil_iff.mpr hmixed.1
    rw [if_neg fun h => h.2 hmixed, if_pos hheads, if_pos hmixed, List.append_nil]
  · simp only [hmixed, not_false_eq_true, and_true, if_false, List.append_nil]

end Place

namespace Stepper

/-- How absent branches are taken makes a difference of one head at most, which is armed last. It is
armed exactly if the scan enters a mediator of which some paths have a head and others have none, and
it is the head that comes next behind this mediator: in its own flow, or else in the nearest flow
around it that goes on, or else in a later root flow. -/
theorem resolve_absentBranches (region : EntryRegion) (p : Position) (flows : List (Flow τ)) :
    ∃ extra : Option Position,
      resolve ⟨⟨.fallThrough, region⟩, p⟩ flows =
        resolve ⟨⟨.ignore, region⟩, p⟩ flows ++ extra.toList ∧
      ∀ q, extra = some q ↔ ∃ x ∈ Flow.places flows, ∃ slots,
        (∀ policy, landing? ⟨⟨policy, region⟩, p⟩ none (flows.flatMap (·.mediators)) = some x) ∧
        x.mediator.kind.slots? = some slots ∧ x.mediator.placement region p = .entry ∧
        Mixed slots ∧ x.next = some q := by
  have hpolicy (policy : AbsentBranches) :
      landing? ⟨⟨policy, region⟩, p⟩ none (flows.flatMap (·.mediators)) =
        landing? ⟨⟨.ignore, region⟩, p⟩ none (flows.flatMap (·.mediators)) :=
    landing?_congr (by rfl) _
  rw [resolve_eq_landing, resolve_eq_landing, hpolicy .fallThrough]
  cases hlanding : landing? ⟨⟨.ignore, region⟩, p⟩ none (flows.flatMap (·.mediators)) with
  | none =>
      refine ⟨none, rfl, fun q => iff_of_false nofun ?_⟩
      rintro ⟨x, -, slots, hx, -⟩
      cases hlanding.symm.trans (hx .ignore)
  | some x =>
      have hplaces : x ∈ Flow.places flows := by
        rw [Flow.places_eq]
        exact mem_places_of_landing? hlanding
      refine ⟨if Mixed (x.slotsFrom ⟨.ignore, region⟩ p) then x.next else none, ?_, fun q => ?_⟩
      · rw [Option.elim_some, Option.elim_some, Place.targets_fallThrough]
        split <;> rfl
      · rw [ite_eq_iff, Place.mixed_slotsFrom_iff]
        constructor
        · rintro (⟨⟨slots, hslots, hentry, hmixed⟩, hnext⟩ | ⟨-, h⟩)
          · exact ⟨x, hplaces, slots, fun policy => (hpolicy policy).trans hlanding, hslots, hentry,
              hmixed, hnext⟩
          · cases h
        · rintro ⟨x', -, slots, hx', hslots, hentry, hmixed, hnext⟩
          obtain rfl := Option.some.inj (hlanding.symm.trans (hx' .ignore))
          exact .inl ⟨⟨slots, hslots, hentry, hmixed⟩, hnext⟩

/-- A filter without an else branch, and a send behind it. -/
def halfFilter : Flow String :=
  ⟨.onLines "sequence" 1 8,
    [⟨.onLines "filter" 2 6, .filter
        (some ⟨.onLines "then" 3 5, [⟨.onLine "log" 4, .simple⟩]⟩) none⟩,
      ⟨.onLine "send" 7, .simple⟩]⟩

example : resolve ⟨⟨.fallThrough, .startTag⟩, ⟨2, 5⟩⟩ [halfFilter] = [⟨4, 0⟩, ⟨7, 0⟩] ∧
    resolve ⟨⟨.ignore, .startTag⟩, ⟨2, 5⟩⟩ [halfFilter] = [⟨4, 0⟩] := by
  cbv

/-- Which positions enter a mediator makes no difference unless the scan ends at a branching mediator
that has the position neither on its header nor in a branch. There, if such positions enter it, the
heads of its branches are armed as well, before what is armed otherwise, or instead of that if they
settle the matter. -/
theorem resolve_entryRegion (policy : AbsentBranches) (p : Position) (flows : List (Flow τ)) :
    resolve ⟨⟨policy, .outsideBranches⟩, p⟩ flows = resolve ⟨⟨policy, .startTag⟩, p⟩ flows ∨
    ∃ x ∈ Flow.places flows, ∃ slots,
      landing? ⟨⟨policy, .startTag⟩, p⟩ none (flows.flatMap (·.mediators)) = some x ∧
      x.mediator.kind.slots? = some slots ∧ x.mediator.placement .startTag p = .elsewhere ∧
      (p ∈ x.mediator ∧ p ∉ x.mediator.node.range.startTag ∧ ∀ c ∈ x.mediator.branches, p ∉ c) ∧
      resolve ⟨⟨policy, .outsideBranches⟩, p⟩ flows =
        slotHeads slots ++
          if (⟨⟨policy, .startTag⟩, p⟩ : Stepper).Settles slots then []
          else resolve ⟨⟨policy, .startTag⟩, p⟩ flows := by
  have hregion : landing? ⟨⟨policy, .outsideBranches⟩, p⟩ none (flows.flatMap (·.mediators)) =
      landing? ⟨⟨policy, .startTag⟩, p⟩ none (flows.flatMap (·.mediators)) :=
    landing?_congr (by rfl) _
  rw [resolve_eq_landing, resolve_eq_landing, hregion]
  cases hlanding : landing? ⟨⟨policy, .startTag⟩, p⟩ none (flows.flatMap (·.mediators)) with
  | none => exact .inl rfl
  | some x =>
      rw [Option.elim_some, Option.elim_some]
      have hsame (h : x.slotsFrom ⟨policy, .outsideBranches⟩ p = x.slotsFrom ⟨policy, .startTag⟩ p) :
          x.targets ⟨policy, .outsideBranches⟩ p = x.targets ⟨policy, .startTag⟩ p := by
        rw [Place.targets, h]
        rfl
      rcases x.slotsFrom_entryRegion policy p with h | ⟨helsewhere, houtside, hnil⟩
      · exact .inl (hsame h)
      · cases hslots : x.mediator.kind.slots? with
        | none => exact .inl (hsame (by rw [houtside, hnil, hslots, Option.getD_none]))
        | some slots =>
            have hplaces : x ∈ Flow.places flows := by
              rw [Flow.places_eq]
              exact mem_places_of_landing? hlanding
            have hout := (Mediator.placement_eq_elsewhere_iff.mp helsewhere).2
            refine .inr ⟨x, hplaces, slots, rfl, hslots, helsewhere,
              ⟨mem_of_landing? hlanding, hout⟩, ?_⟩
            rw [Place.targets_of_slotsFrom_eq_nil hnil, Place.targets, houtside, hslots,
              Option.getD_some]
            rfl

/-- At the end tag of the filter. -/
example : resolve ⟨⟨.ignore, .outsideBranches⟩, ⟨6, 5⟩⟩ [halfFilter] = [⟨4, 0⟩] ∧
    resolve ⟨⟨.ignore, .startTag⟩, ⟨6, 5⟩⟩ [halfFilter] = [⟨7, 0⟩] := by
  cbv

end Stepper

end Mediation
