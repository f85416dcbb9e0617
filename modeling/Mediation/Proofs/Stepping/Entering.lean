import Mathlib.Data.List.Perm.Basic
import Mediation.Proofs.Element
import Mediation.Proofs.Stepping.Progress

/-! Entering a mediator. What a mediator nests is listed twice: as its branches, among which positions
are looked for, and as its slots, whose heads are armed where it is entered. The two lists agree. The
slots that have a flow are the branches, in the order of the branches for all kinds but one: the default
of a switch is the first slot and the last branch (`Kind.filterMap_slots_switch`,
`Kind.filterMap_slots_eq`). How many slots there are does not depend on what is there
(`Kind.length_slots?`). So a mediator that is entered has the heads armed of just those flows in which a
position can be found (`Mediator.slots_agree`). -/

namespace Mediation

namespace Kind

variable {τ φ : Type} {k : Kind τ φ} {slots : List (Option φ)}

/-- How many paths lead out of a mediator of this kind, whether or not there is a flow on them. -/
def paths? : Kind τ φ → Option Nat
  | simple => none
  | filter .. | throttle .. => some 2
  | switch cases _ => some (cases.length + 1)
  | entitlement .. => some 4
  | cache _ | validate _ | iterate _ | foreach _ | aggregate _ => some 1
  | clone targets | scatterGather targets => some targets.length

/-- There is one slot for each path. -/
theorem length_slots? (k : Kind τ φ) : k.slots?.map (·.length) = k.paths? := by
  cases k <;> simp [slots?, paths?]

theorem slots?_eq_none_iff : k.slots? = none ↔ k = .simple := by
  cases k <;> simp [slots?]

theorem filterMap_id_cons (slot : Option φ) (slots : List (Option φ)) :
    (slot :: slots).filterMap id = slot.toList ++ slots.filterMap id := by
  cases slot <;> rfl

/-- The default of a switch is the first of the slots that have a flow and the last of the branches. -/
theorem filterMap_slots_switch {cases : List (Case φ)} {default : Option φ}
    (h : (switch cases default : Kind τ φ).slots? = some slots) :
    slots.filterMap id = default.toList ++ cases.filterMap (·.flow) ∧
      (switch cases default : Kind τ φ).branches = cases.filterMap (·.flow) ++ default.toList := by
  obtain rfl : default :: cases.map (·.flow) = slots := Option.some.inj h
  refine ⟨?_, rfl⟩
  rw [filterMap_id_cons, List.filterMap_map]
  rfl

/-- But for a switch, the slots that have a flow are the branches in their order. -/
theorem filterMap_slots_eq (h : k.slots? = some slots)
    (hswitch : ∀ cases default, k ≠ .switch cases default) :
    slots.filterMap id = k.branches := by
  have hnil : ([] : List (Option φ)).filterMap id = [] := rfl
  cases k with
  | simple => cases h
  | switch cases default => exact absurd rfl (hswitch cases default)
  | clone targets | scatterGather targets =>
      obtain rfl : targets.map (·.sequence) = slots := Option.some.inj h
      rw [List.filterMap_map]
      rfl
  | iterate target =>
      obtain rfl : [target.bind (·.sequence)] = slots := Option.some.inj h
      obtain _ | ⟨node, _ | f⟩ := target <;> rfl
  | _ =>
      obtain rfl := Option.some.inj h
      simp only [filterMap_id_cons, hnil, List.append_nil, branches, List.append_assoc]

/-- The slots that have a flow are the branches, in an order of their own. -/
theorem filterMap_slots_perm (h : k.slots? = some slots) : (slots.filterMap id).Perm k.branches := by
  by_cases hswitch : ∃ cases default, k = .switch cases default
  · obtain ⟨cases, default, rfl⟩ := hswitch
    obtain ⟨hslots, hbranches⟩ := filterMap_slots_switch h
    rw [hslots, hbranches]
    exact List.perm_append_comm
  · rw [filterMap_slots_eq h fun cases default heq => hswitch ⟨cases, default, heq⟩]

end Kind

namespace Stepper

variable {τ : Type}

/-- The heads that are armed for branches, up to order. -/
theorem slotHeads_perm {m : Mediator τ (Flow τ)} {slots : List (Option (Flow τ))}
    (h : m.kind.slots? = some slots) :
    (slotHeads slots).Perm (m.branches.filterMap (·.head?)) := by
  have hslots : slotHeads slots = (slots.filterMap id).filterMap (·.head?) := by
    rw [List.filterMap_filterMap]
    rfl
  rw [hslots]
  exact (Kind.filterMap_slots_perm h).filterMap _

theorem armed_leave (s : Progress) : (leave s).armed = s.armed := by
  rw [leave]
  split <;> rfl

/-- A mediator that is entered has the heads of its slots armed. -/
theorem armed_scan_of_entry {r : Stepper} {m : Mediator τ (Flow τ)} {slots : List (Option (Flow τ))}
    (hslots : m.kind.slots? = some slots) (hm : r.position ∈ m)
    (hentry : m.placement r.settings.entryRegion r.position = .entry) :
    (r.scan [m] {}).armed = slotHeads slots := by
  have hlook : r.lookInto m {} = r.enter slots {} := by
    rw [lookInto, hslots]
    simp only [hentry]
  rw [scan_of_mem r [] rfl rfl hm, scan_nil, armed_leave, hlook, armed_enter]
  exact List.nil_append _

end Stepper

namespace Mediator

variable {τ : Type} {m : Mediator τ (Flow τ)}

/-- A position in a branch is found in a branch, unless it is on the header. -/
theorem exists_placement_eq_nested {c : Flow τ} (hc : c ∈ m.branches) {p : Position} (hp : p ∈ c)
    (hheader : p ∉ m.node.range.startTag) (region : EntryRegion) :
    ∃ c' ∈ m.branches, p ∈ c' ∧ m.placement region p = .nested c' := by
  cases hfind : m.branches.find? (p ∈ ·) with
  | none => exact absurd (decide_eq_true hp) (List.find?_eq_none.mp hfind c hc)
  | some c' =>
      have hmem := List.mem_of_find?_eq_some hfind
      have hp' : p ∈ c' := by simpa using List.find?_some hfind
      refine ⟨c', hmem, hp', ?_⟩
      unfold placement
      rw [if_neg hheader, hfind]

/-- The branches of a mediator and its slots agree: what stands in the slots is the branches, in the
same order unless the mediator is a switch, whose default comes first in one list and last in the other.
Only a simple mediator has no slots, and no branches either. Positions are found in branches and nowhere
else, and where the mediator is entered, whatever the settings, the heads of its branches are armed, of
each that has one. -/
theorem slots_agree (m : Mediator τ (Flow τ)) :
    (m.kind.slots? = none ↔ m.kind = .simple) ∧ (m.kind = .simple → m.branches = []) ∧
    m.kind.slots?.map (·.length) = m.kind.paths? ∧
    (∀ slots, m.kind.slots? = some slots →
      (slots.filterMap id).Perm m.branches ∧
      (∀ cases default, m.kind = .switch cases default →
        slots.filterMap id = default.toList ++ cases.filterMap (·.flow) ∧
          m.branches = cases.filterMap (·.flow) ++ default.toList) ∧
      ((∀ cases default, m.kind ≠ .switch cases default) → slots.filterMap id = m.branches)) ∧
    (∀ region p c, m.placement region p = .nested c → c ∈ m.branches) ∧
    (∀ region, ∀ c ∈ m.branches, ∀ p ∈ c, p ∉ m.node.range.startTag →
      ∃ c' ∈ m.branches, p ∈ c' ∧ m.placement region p = .nested c') ∧
    ∀ r : Stepper, m.isBranching → r.position ∈ m →
      m.placement r.settings.entryRegion r.position = .entry →
      (r.scan [m] {}).armed.Perm (m.branches.filterMap (·.head?)) := by
  refine ⟨Kind.slots?_eq_none_iff, fun hsimple => ?_, m.kind.length_slots?, fun slots hslots => ?_,
    fun _ _ _ => mem_branches_of_placement_eq_nested,
    fun region c hc p hp hheader => exists_placement_eq_nested hc hp hheader region,
    fun r hbranching hm hentry => ?_⟩
  · rw [branches, hsimple]
    rfl
  · refine ⟨Kind.filterMap_slots_perm hslots, fun cases default hkind => ?_, fun hswitch => ?_⟩
    · rw [hkind] at hslots
      rw [branches, hkind]
      exact Kind.filterMap_slots_switch hslots
    · exact Kind.filterMap_slots_eq hslots hswitch
  · obtain ⟨slots, hslots⟩ := Option.isSome_iff_exists.mp hbranching
    rw [Stepper.armed_scan_of_entry hslots hm hentry]
    exact Stepper.slotHeads_perm hslots

/-- A switch with two cases, the first of them without a flow, and with a default. -/
def defaultedSwitch : Mediator String (Flow String) :=
  ⟨.onLines "switch" 1 8, .switch
    [⟨some "a", none⟩, ⟨some "b", some ⟨.onLines "case" 2 4, [⟨.onLine "log" 3, .simple⟩]⟩⟩]
    (some ⟨.onLines "default" 5 7, [⟨.onLine "send" 6, .simple⟩]⟩)⟩

/-- The default stands first in the slots and last in the branches, and the first case in neither. -/
theorem slots_agree_defaultedSwitch :
    defaultedSwitch.kind.slots?.map (·.length) = some 3 ∧
    (∃ slots, defaultedSwitch.kind.slots? = some slots ∧
      (slots.filterMap id).map (·.node) = [.onLines "default" 5 7, .onLines "case" 2 4]) ∧
    defaultedSwitch.branches.map (·.node) = [.onLines "case" 2 4, .onLines "default" 5 7] ∧
    (∃ c ∈ defaultedSwitch.branches, ⟨6, 0⟩ ∈ c ∧
      defaultedSwitch.placement .startTag ⟨6, 0⟩ = .nested c) ∧
    defaultedSwitch.placement .startTag ⟨1, 0⟩ = .entry ∧
    (Stepper.scan ⟨{}, ⟨1, 0⟩⟩ [defaultedSwitch] {}).armed.Perm [⟨3, 0⟩, ⟨6, 0⟩] := by
  obtain ⟨-, -, hlength, hslots, -, hplaced, harmed⟩ := slots_agree defaultedSwitch
  have horder := ((hslots _ rfl).2.1 _ _ rfl).1
  obtain ⟨c, hc, hp⟩ : ∃ c ∈ defaultedSwitch.branches, (⟨6, 0⟩ : Position) ∈ c := by decide
  refine ⟨hlength, ⟨_, rfl, congrArg (List.map (·.node)) horder⟩, rfl, ?_, by decide, ?_⟩
  · exact hplaced .startTag c hc ⟨6, 0⟩ hp (by decide)
  · exact harmed ⟨{}, ⟨1, 0⟩⟩ rfl (by decide) (by decide)

end Mediator

end Mediation
