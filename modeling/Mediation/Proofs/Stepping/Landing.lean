import Mediation.Proofs.Layout.StepOver

/-! Where a scan ends. The chain of stops ends at one mediator, and with the head that comes behind the
chain this is a place in the flows (`Stepper.landing?`). Which place it is depends on the position
alone; the settings only say what is armed there (`Stepper.resolve_eq_landing`). So two scans, of two
settings or of two flows, are compared by the places they come to. -/

namespace Mediation

section

variable {τ : Type} {after : Option Position}

theorem places_append (ms ms' : List (Mediator τ (Flow τ))) :
    places after (ms ++ ms') =
      places ((ms'.head?.map (·.head)).or after) ms ++ places after ms' := by
  induction ms with
  | nil => rw [places_nil, List.nil_append, List.nil_append]
  | cons m rest ih =>
      rw [List.cons_append, places_cons, places_cons, ih, List.head?_append, Option.map_or,
        Option.or_assoc, List.append_assoc]

/-- The places in flows that are gone through in order: behind a flow comes the first mediator that a
later flow has. -/
def Flow.places : List (Flow τ) → List (Place τ)
  | [] => []
  | f :: later => Mediation.places (later.findSome? (·.head?)) f.mediators ++ Flow.places later

theorem Flow.head?_flatMap_mediators (flows : List (Flow τ)) :
    (flows.flatMap (·.mediators)).head?.map (·.head) = flows.findSome? (·.head?) := by
  induction flows with
  | nil => rfl
  | cons f later ih =>
      rw [List.flatMap_cons, List.head?_append, Option.map_or, ih, List.findSome?_cons]
      show f.head?.or _ = _
      cases f.head? <;> rfl

/-- Flows that are gone through in order have the places of one row. -/
theorem Flow.places_eq (flows : List (Flow τ)) :
    Flow.places flows = Mediation.places none (flows.flatMap (·.mediators)) := by
  induction flows with
  | nil => rw [Flow.places, List.flatMap_nil, places_nil]
  | cons f later ih =>
      rw [Flow.places, ih, List.flatMap_cons, places_append, Flow.head?_flatMap_mediators,
        Option.or_none]

namespace Mediator

variable {region : EntryRegion} {p : Position} {m : Mediator τ (Flow τ)}

theorem forall_not_mem_of_find?_eq_none (h : m.branches.find? (p ∈ ·) = none) :
    ∀ c ∈ m.branches, p ∉ c := fun c hc hp =>
  List.find?_eq_none.mp h c hc (decide_eq_true hp)

theorem placement_eq_entry_iff :
    m.placement region p = .entry ↔
      p ∈ m.node.range.startTag ∨ (region = .outsideBranches ∧ ∀ c ∈ m.branches, p ∉ c) := by
  unfold placement
  by_cases hheader : p ∈ m.node.range.startTag
  · simp [hheader]
  · rw [if_neg hheader, or_iff_right hheader]
    cases hfind : m.branches.find? (p ∈ ·) with
    | some c =>
        have hc := List.mem_of_find?_eq_some hfind
        have hp : p ∈ c := by simpa using List.find?_some hfind
        exact ⟨nofun, fun h => absurd hp (h.2 c hc)⟩
    | none =>
        have hout := forall_not_mem_of_find?_eq_none hfind
        cases region with
        | startTag => exact ⟨nofun, fun h => nomatch h.1⟩
        | outsideBranches => exact iff_of_true rfl ⟨rfl, hout⟩

theorem placement_eq_elsewhere_iff :
    m.placement region p = .elsewhere ↔
      region = .startTag ∧ p ∉ m.node.range.startTag ∧ ∀ c ∈ m.branches, p ∉ c := by
  unfold placement
  by_cases hheader : p ∈ m.node.range.startTag
  · simp [hheader]
  · rw [if_neg hheader]
    cases hfind : m.branches.find? (p ∈ ·) with
    | some c =>
        have hc := List.mem_of_find?_eq_some hfind
        have hp : p ∈ c := by simpa using List.find?_some hfind
        exact ⟨nofun, fun h => absurd hp (h.2.2 c hc)⟩
    | none =>
        have hout := forall_not_mem_of_find?_eq_none hfind
        cases region with
        | startTag => exact iff_of_true rfl ⟨rfl, hheader, hout⟩
        | outsideBranches => exact ⟨nofun, fun h => nomatch h.1⟩

end Mediator

/-! What is armed at a place. -/

namespace Place

variable {settings : Settings} {p : Position} {x : Place τ}

theorem slotsFrom_of_entry
    (h : x.mediator.placement settings.entryRegion p = .entry) :
    x.slotsFrom settings p = x.mediator.kind.slots?.getD [] :=
  if_pos (Mediator.placement_eq_entry_iff.mp h)

theorem slotsFrom_of_ne_entry
    (h : x.mediator.placement settings.entryRegion p ≠ .entry) :
    x.slotsFrom settings p = [] :=
  if_neg (mt Mediator.placement_eq_entry_iff.mpr h)

theorem targets_of_slotsFrom_eq_nil (h : x.slotsFrom settings p = []) :
    x.targets settings p = x.next.toList := by
  simp only [targets, h]
  rw [if_neg fun hsettles => hsettles.1 rfl]
  rfl

end Place

/-! Places where scans end. -/

namespace Stepper

/-- Whether a position goes on into a branch, and into which, is no matter of settings. -/
theorem branchAt?_eq (r : Stepper) (m : Mediator τ (Flow τ)) :
    r.branchAt? m =
      if r.position ∈ m.node.range.startTag then none else m.branches.find? (r.position ∈ ·) := by
  rw [branchAt?]
  unfold Mediator.placement
  cases hbranching : m.isBranching with
  | true =>
      rw [if_pos rfl]
      by_cases hheader : r.position ∈ m.node.range.startTag
      · rw [if_pos hheader, if_pos hheader]
      · rw [if_neg hheader, if_neg hheader]
        cases m.branches.find? (r.position ∈ ·) with
        | some c => rfl
        | none => cases r.settings.entryRegion <;> rfl
  | false =>
      have hnil : m.branches = [] := List.eq_nil_iff_forall_not_mem.mpr fun c hc => by
        simp [Mediator.isBranching_of_mem_branches hc] at hbranching
      simp [hnil]

/-- Where the scan of a row ends, and what comes next there; behind the row comes `after`. -/
def landing? (r : Stepper) (after : Option Position) (ms : List (Mediator τ (Flow τ))) :
    Option (Place τ) :=
  (r.stops ms).getLast?.map fun stop => ⟨stop.mediator, (successor? (r.stops ms)).or after⟩

/-- Where it ends in a mediator that holds the position: within the branch that it goes into, or at
the mediator itself. -/
def landingIn (r : Stepper) (next : Option Position) (m : Mediator τ (Flow τ)) : Place τ :=
  ((r.branchAt? m).bind fun c => r.landing? next c.mediators).getD ⟨m, next⟩

variable {r : Stepper}

theorem landingIn_cases (r : Stepper) (next : Option Position) (m : Mediator τ (Flow τ)) :
    r.landingIn next m = ⟨m, next⟩ ∨
      ∃ c ∈ m.branches, r.landing? next c.mediators = some (r.landingIn next m) := by
  rw [landingIn]
  cases hat : r.branchAt? m with
  | none => exact .inl rfl
  | some c =>
      rw [Option.bind_some]
      cases hlanding : r.landing? next c.mediators with
      | none => exact .inl rfl
      | some x => exact .inr ⟨c, mem_branches_of_branchAt? hat, hlanding⟩

theorem landing?_nil : r.landing? after ([] : List (Mediator τ (Flow τ))) = none := by
  rw [landing?, stops_nil]
  rfl

theorem landing?_of_not_mem {m : Mediator τ (Flow τ)} (rest : List (Mediator τ (Flow τ)))
    (hm : r.position ∉ m) :
    r.landing? after (m :: rest) = r.landing? after rest := by
  rw [landing?, landing?, stops_of_not_mem r rest hm]

theorem landing?_of_mem {m : Mediator τ (Flow τ)} (rest : List (Mediator τ (Flow τ)))
    (hm : r.position ∈ m) :
    r.landing? after (m :: rest) = some (r.landingIn ((rest.head?.map (·.head)).or after) m) := by
  rw [landing?, stops_of_mem r rest hm, successor?_cons, Option.or_assoc, List.getLast?_cons,
    landingIn]
  cases r.branchAt? m with
  | none => rfl
  | some c =>
      rw [Option.elim_some, Option.bind_some, landing?]
      cases hlast : (r.stops c.mediators).getLast? with
      | none =>
          rw [List.getLast?_eq_none_iff.mp hlast]
          rfl
      | some last => rfl

/-- Of a row that goes on, only the head of what comes behind matters if the scan ends before. -/
theorem landing?_append (ms tail : List (Mediator τ (Flow τ))) :
    r.landing? after (ms ++ tail) =
      (r.landing? ((tail.head?.map (·.head)).or after) ms).or (r.landing? after tail) := by
  induction ms with
  | nil => rw [landing?_nil, List.nil_append, Option.none_or]
  | cons m rest ih =>
      rw [List.cons_append]
      by_cases hm : r.position ∈ m
      · rw [landing?_of_mem _ hm, landing?_of_mem _ hm, List.head?_append, Option.map_or,
          Option.or_assoc, Option.some_or]
      · rw [landing?_of_not_mem _ hm, landing?_of_not_mem _ hm, ih]

theorem landing?_eq_none_iff {ms : List (Mediator τ (Flow τ))} :
    r.landing? after ms = none ↔ ∀ m ∈ ms, r.position ∉ m := by
  rw [landing?, Option.map_eq_none_iff, List.getLast?_eq_none_iff, stops_eq_nil_iff]

/-- The place depends on the position alone. -/
theorem landing?_congr {r' : Stepper} (h : r.position = r'.position)
    (ms : List (Mediator τ (Flow τ))) :
    r.landing? after ms = r'.landing? after ms := by
  induction ms using Flow.mediators_induct generalizing after with
  | nil => rw [landing?_nil, landing?_nil]
  | cons m rest hbranch ih =>
      by_cases hm : r.position ∈ m
      · have hm' : r'.position ∈ m := h ▸ hm
        have hat : r'.branchAt? m = r.branchAt? m := by rw [branchAt?_eq, branchAt?_eq, h]
        rw [landing?_of_mem rest hm, landing?_of_mem rest hm', landingIn, landingIn, hat]
        cases hbranchAt : r.branchAt? m with
        | none => rfl
        | some c =>
            rw [Option.bind_some, Option.bind_some, hbranch c (mem_branches_of_branchAt? hbranchAt)]
      · have hm' : r'.position ∉ m := h ▸ hm
        rw [landing?_of_not_mem rest hm, landing?_of_not_mem rest hm', ih]

/-- What holds of the mediators of a row, and goes on from a mediator to those in its branches, holds
of the mediator at which the scan ends. -/
theorem landing?_induct {P : Mediator τ (Flow τ) → Prop}
    (hstep : ∀ m, P m → ∀ c ∈ m.branches, ∀ m' ∈ c.mediators, P m')
    {ms : List (Mediator τ (Flow τ))} (hms : ∀ m ∈ ms, P m) {x : Place τ}
    (hx : r.landing? after ms = some x) :
    P x.mediator := by
  induction ms using Flow.mediators_induct generalizing after with
  | nil =>
      rw [landing?_nil] at hx
      cases hx
  | cons m rest hbranch ih =>
      by_cases hm : r.position ∈ m
      · rw [landing?_of_mem rest hm, Option.some.injEq] at hx
        subst hx
        have hP := hms m List.mem_cons_self
        rcases r.landingIn_cases ((rest.head?.map (·.head)).or after) m with hself | ⟨c, hc, hx⟩
        · rw [hself]
          exact hP
        · exact hbranch c hc (hstep m hP c hc) hx
      · rw [landing?_of_not_mem rest hm] at hx
        exact ih (fun m' hm' => hms m' (List.mem_cons_of_mem _ hm')) hx

theorem mem_places_of_landing? {ms : List (Mediator τ (Flow τ))} {x : Place τ}
    (hx : r.landing? after ms = some x) :
    x ∈ places after ms := by
  induction ms using Flow.mediators_induct generalizing after with
  | nil =>
      rw [landing?_nil] at hx
      cases hx
  | cons m rest hbranch ih =>
      rw [mem_places_cons]
      by_cases hm : r.position ∈ m
      · rw [landing?_of_mem rest hm, Option.some.injEq] at hx
        subst hx
        rcases r.landingIn_cases ((rest.head?.map (·.head)).or after) m with hself | ⟨c, hc, hx⟩
        · exact .inl hself
        · exact .inr (.inl ⟨c, hc, hbranch c hc hx⟩)
      · rw [landing?_of_not_mem rest hm] at hx
        exact .inr (.inr (ih hx))

theorem mem_of_landing? {ms : List (Mediator τ (Flow τ))} {x : Place τ}
    (hx : r.landing? after ms = some x) :
    r.position ∈ x.mediator := by
  obtain ⟨stop, hstop, rfl⟩ := Option.map_eq_some_iff.mp hx
  exact mem_of_mem_stops (List.mem_of_getLast? hstop)

/-- The slots that are entered from the position are those of the place. -/
theorem targets_eq_of_getLast? {chain : List (Stop τ)} {stop : Stop τ}
    (h : chain.getLast? = some stop) :
    r.targets chain = Place.targets r.settings r.position ⟨stop.mediator, successor? chain⟩ := by
  simp only [targets, h, Place.targets]
  rw [slotsAt_eq_slotsFrom (r := r) ⟨stop.mediator, successor? chain⟩]

/-- What is armed is what is armed at the place where the scan ends. -/
theorem resolve_eq_landing (r : Stepper) (flows : List (Flow τ)) :
    r.resolve flows =
      (r.landing? none (flows.flatMap (·.mediators))).elim []
        (Place.targets r.settings r.position) := by
  rw [resolve_eq_follow, armed_follow, landing?]
  cases hlast : (r.stops (flows.flatMap (·.mediators))).getLast? with
  | none => simp only [targets, hlast, Option.map_none, Option.elim_none]
  | some stop =>
      rw [targets_eq_of_getLast? hlast, Option.map_some, Option.elim_some, Option.or_none]

end Stepper

end

end Mediation
