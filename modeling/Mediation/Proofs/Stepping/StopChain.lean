import Mediation.Proofs.Stepping.Progress

/-! The scan told without a state. The position is followed from mediator to branch and from there to
the mediator within, which gives a chain of stops (`Stepper.stops`); the last of them is where the
statement is. What is armed depends on the chain alone: the branches of the last stop if it is
entered there, and the first mediator behind the chain unless the branches settle the matter
(`Stepper.targets`). The scan arms exactly that (`Stepper.resolve_eq_targets`), whatever the ranges
are. -/

namespace Mediation

/-- A mediator that holds the position, and the mediators behind it in its row. -/
structure Stop (τ : Type) where
  mediator : Mediator τ (Flow τ)
  behind : List (Mediator τ (Flow τ))

namespace Stepper

variable {τ : Type}

/-- The branch in which the position is looked for next. -/
def branchAt? (r : Stepper) (m : Mediator τ (Flow τ)) : Option (Flow τ) :=
  if m.isBranching then
    match m.placement r.settings.entryRegion r.position with
    | .nested branch => some branch
    | .entry | .elsewhere => none
  else none

/-- The slots of the branches that are entered from the position; none if the mediator is simple or
the position does not enter it. -/
def slotsAt (r : Stepper) (m : Mediator τ (Flow τ)) : List (Option (Flow τ)) :=
  match m.placement r.settings.entryRegion r.position with
  | .entry => m.kind.slots?.getD []
  | .nested _ | .elsewhere => []

theorem mem_branches_of_branchAt? {r : Stepper} {m : Mediator τ (Flow τ)} {c : Flow τ}
    (h : r.branchAt? m = some c) :
    c ∈ m.branches := by
  rw [branchAt?] at h
  split at h
  next =>
      split at h
      next branch hplace =>
          cases h
          exact Mediator.mem_branches_of_placement_eq_nested hplace
      next => cases h
      next => cases h
  next => cases h

/-- The stops from the outermost to the innermost one: the first mediator of the row that holds the
position, and then those within the branch the position is in. -/
def stops (r : Stepper) : List (Mediator τ (Flow τ)) → List (Stop τ)
  | [] => []
  | m :: rest =>
      if r.position ∈ m then
        ⟨m, rest⟩ ::
          match _h : r.branchAt? m with
          | some branch => r.stops branch.mediators
          | none => []
      else r.stops rest
termination_by mediators => mediators
decreasing_by
  · have hbranch := Flow.sizeOf_lt_of_mem_branches (mem_branches_of_branchAt? _h)
    have hmediators := branch.sizeOf_mediators_lt
    simp only [List.cons.sizeOf_spec]
    omega
  · simp +arith

/-- The head of the first mediator behind the chain, looked for from the innermost row outwards. -/
def successor? (chain : List (Stop τ)) : Option Position :=
  (chain.reverse.flatMap (·.behind)).head?.map (·.head)

/-- The positions to arm, given the chain. -/
def targets (r : Stepper) (chain : List (Stop τ)) : List Position :=
  match chain.getLast? with
  | none => []
  | some stop =>
      let slots := r.slotsAt stop.mediator
      slotHeads slots ++ if r.Settles slots then [] else (successor? chain).toList

/-! The chain of a row, case by case. -/

theorem stops_nil (r : Stepper) : r.stops ([] : List (Mediator τ (Flow τ))) = [] := by rw [stops]

theorem stops_of_not_mem (r : Stepper) {m : Mediator τ (Flow τ)} (rest : List (Mediator τ (Flow τ)))
    (hm : r.position ∉ m) :
    r.stops (m :: rest) = r.stops rest := by
  rw [stops, if_neg hm]

theorem stops_of_mem (r : Stepper) {m : Mediator τ (Flow τ)} (rest : List (Mediator τ (Flow τ)))
    (hm : r.position ∈ m) :
    r.stops (m :: rest) = ⟨m, rest⟩ :: (r.branchAt? m).elim [] fun c => r.stops c.mediators := by
  rw [stops, if_pos hm]
  split <;> next h => rw [h]; rfl

/-- At a mediator that holds the position the chain either ends or goes on in one of its branches. -/
theorem exists_stops_of_mem (r : Stepper) {m : Mediator τ (Flow τ)}
    (rest : List (Mediator τ (Flow τ))) (hm : r.position ∈ m) :
    r.stops (m :: rest) = [⟨m, rest⟩] ∨
      ∃ c ∈ m.branches, r.stops (m :: rest) = ⟨m, rest⟩ :: r.stops c.mediators := by
  rw [stops_of_mem r rest hm]
  cases h : r.branchAt? m with
  | none => exact .inl rfl
  | some c => exact .inr ⟨c, mem_branches_of_branchAt? h, rfl⟩

theorem successor?_cons (stop : Stop τ) (chain : List (Stop τ)) :
    successor? (stop :: chain) = (successor? chain).or (stop.behind.head?.map (·.head)) := by
  simp only [successor?, List.reverse_cons, List.flatMap_append, List.flatMap_singleton,
    List.head?_append]
  cases (chain.reverse.flatMap (·.behind)).head? <;> rfl

theorem stops_eq_nil_iff {r : Stepper} {ms : List (Mediator τ (Flow τ))} :
    r.stops ms = [] ↔ ∀ m ∈ ms, r.position ∉ m := by
  induction ms with
  | nil => simp [stops_nil]
  | cons m rest ih =>
      by_cases hm : r.position ∈ m
      · simp [stops_of_mem r rest hm, hm]
      · simp [stops_of_not_mem r rest hm, hm, ih]

theorem mem_of_mem_stops {r : Stepper} {ms : List (Mediator τ (Flow τ))} {stop : Stop τ}
    (hstop : stop ∈ r.stops ms) :
    r.position ∈ stop.mediator := by
  induction ms using Flow.mediators_induct with
  | nil => simp [stops_nil] at hstop
  | cons m rest hbranch ih =>
      by_cases hp : r.position ∈ m
      · rcases r.exists_stops_of_mem rest hp with hstops | ⟨c, hc, hstops⟩ <;> rw [hstops] at hstop
        · rw [List.mem_singleton.mp hstop]
          exact hp
        · rcases List.mem_cons.mp hstop with rfl | hstop
          · exact hp
          · exact hbranch c hc hstop
      · rw [stops_of_not_mem r rest hp] at hstop
        exact ih hstop

/-! Rows that go on. -/

/-- The chain in a row that goes on with more mediators. -/
def extend (tail : List (Mediator τ (Flow τ))) : List (Stop τ) → List (Stop τ)
  | [] => []
  | stop :: chain => ⟨stop.mediator, stop.behind ++ tail⟩ :: chain

theorem stops_append_of_eq_nil {r : Stepper} {ms : List (Mediator τ (Flow τ))}
    (h : r.stops ms = []) (tail : List (Mediator τ (Flow τ))) :
    r.stops (ms ++ tail) = r.stops tail := by
  induction ms with
  | nil => rfl
  | cons m rest ih =>
      have hm := stops_eq_nil_iff.mp h m List.mem_cons_self
      rw [stops_of_not_mem r rest hm] at h
      rw [List.cons_append, stops_of_not_mem r _ hm, ih h]

theorem stops_append_of_ne_nil {r : Stepper} {ms : List (Mediator τ (Flow τ))}
    (h : r.stops ms ≠ []) (tail : List (Mediator τ (Flow τ))) :
    r.stops (ms ++ tail) = extend tail (r.stops ms) := by
  induction ms with
  | nil => exact absurd (stops_nil r) h
  | cons m rest ih =>
      rw [List.cons_append]
      by_cases hm : r.position ∈ m
      · rw [stops_of_mem r _ hm, stops_of_mem r _ hm, extend]
      · rw [stops_of_not_mem r rest hm] at h
        rw [stops_of_not_mem r _ hm, stops_of_not_mem r _ hm, ih h]

theorem mediator_getLast?_extend (tail : List (Mediator τ (Flow τ))) (chain : List (Stop τ)) :
    (extend tail chain).getLast?.map (·.mediator) = chain.getLast?.map (·.mediator) := by
  cases chain with
  | nil => rfl
  | cons stop chain =>
      rw [extend, List.getLast?_cons, List.getLast?_cons]
      cases chain.getLast? <;> rfl

theorem successor?_extend (tail : List (Mediator τ (Flow τ))) {chain : List (Stop τ)}
    (h : chain ≠ []) :
    successor? (extend tail chain) = (successor? chain).or (tail.head?.map (·.head)) := by
  cases chain with
  | nil => exact absurd rfl h
  | cons stop chain =>
      rw [extend, successor?_cons, successor?_cons, Option.or_assoc, List.head?_append]
      cases stop.behind.head? <;> rfl

/-- What is armed depends on the last mediator of the chain and on what comes behind the chain. -/
theorem targets_eq {r : Stepper} {chain : List (Stop τ)} {m : Mediator τ (Flow τ)}
    (h : chain.getLast?.map (·.mediator) = some m) :
    r.targets chain = slotHeads (r.slotsAt m) ++
      if r.Settles (r.slotsAt m) then [] else (successor? chain).toList := by
  obtain ⟨last, hlast, rfl⟩ := Option.map_eq_some_iff.mp h
  simp only [targets, hlast]

/-- What is armed is the head of a branch of the last mediator of the chain, or what comes behind the
chain. -/
theorem exists_last_of_mem_targets {r : Stepper} {chain : List (Stop τ)} {p : Position}
    (hp : p ∈ r.targets chain) :
    ∃ last, chain.getLast? = some last ∧
      (p ∈ slotHeads (r.slotsAt last.mediator) ∨ successor? chain = some p) := by
  rw [targets] at hp
  split at hp
  next => cases hp
  next last hlast =>
      refine ⟨last, hlast, ?_⟩
      rcases List.mem_append.mp hp with hp | hp
      · exact .inl hp
      · split at hp
        next => cases hp
        next => exact .inr (Option.mem_toList.mp hp)

/-! The scan follows the chain. -/

/-- The statement has been located, and the head of what comes next is armed if anything does. -/
def locatedBefore (s : Progress) : Option Position → Progress
  | none => { s with located := true }
  | some head => { s with located := true }.finishAt head

/-- What a scan that has found nothing yet comes to, given the chain. -/
def follow (r : Stepper) (chain : List (Stop τ)) (s : Progress) : Progress :=
  match chain.getLast? with
  | none => s
  | some stop =>
      let s := r.enter (r.slotsAt stop.mediator) s
      if s.complete then s else locatedBefore s (successor? chain)

theorem follow_nil (r : Stepper) (s : Progress) : r.follow ([] : List (Stop τ)) s = s := rfl

theorem enter_nil (r : Stepper) (s : Progress) : r.enter ([] : List (Option (Flow τ))) s = s := by
  rw [enter_eq, if_neg fun h => h.1 rfl]
  simp [slotHeads, Progress.arm]

theorem lookInto_of_branchAt? {r : Stepper} {m : Mediator τ (Flow τ)} {c : Flow τ}
    (h : r.branchAt? m = some c) (s : Progress) :
    r.lookInto m s = r.scan c.mediators s := by
  rw [branchAt?] at h
  split at h
  next hbranching =>
      split at h
      next branch hplace =>
          cases h
          obtain ⟨slots, hslots⟩ := Option.isSome_iff_exists.mp hbranching
          simp only [lookInto, hslots, hplace]
      next => cases h
      next => cases h
  next => cases h

theorem slotsAt_of_branchAt? {r : Stepper} {m : Mediator τ (Flow τ)} {c : Flow τ}
    (h : r.branchAt? m = some c) :
    r.slotsAt m = [] := by
  rw [branchAt?] at h
  split at h
  next =>
      split at h
      next hplace => simp only [slotsAt, hplace]
      next => cases h
      next => cases h
  next => cases h

theorem lookInto_of_branchAt?_eq_none {r : Stepper} {m : Mediator τ (Flow τ)}
    (h : r.branchAt? m = none) (s : Progress) :
    r.lookInto m s = r.enter (r.slotsAt m) s := by
  cases hslots : m.kind.slots? with
  | none =>
      have hnone : r.slotsAt m = [] := by
        rw [slotsAt, hslots]
        split <;> rfl
      rw [hnone, enter_nil]
      simp only [lookInto, hslots]
  | some slots =>
      rw [branchAt?, if_pos (by simp [Mediator.isBranching, hslots])] at h
      split at h
      next => cases h
      next hplace => simp only [lookInto, slotsAt, hslots, hplace, Option.getD_some]
      next hplace => simp only [lookInto, slotsAt, hslots, hplace, enter_nil]

theorem scan_leave (r : Stepper) (rest : List (Mediator τ (Flow τ))) {s : Progress}
    (hc : s.complete = false) :
    r.scan rest (leave s) = locatedBefore s (rest.head?.map (·.head)) := by
  rw [leave, if_neg (by simp [hc]),
    scan_of_located r rest (s := { s with located := true }) rfl hc]
  cases rest.head? <;> rfl

/-- A row that comes later matters only if nothing has come next before. -/
theorem scan_leave_locatedBefore (r : Stepper) (rest : List (Mediator τ (Flow τ))) {s : Progress}
    (hc : s.complete = false) (next : Option Position) :
    r.scan rest (leave (locatedBefore s next)) =
      locatedBefore s (next.or (rest.head?.map (·.head))) := by
  cases next with
  | none =>
      rw [scan_leave r rest (show (locatedBefore s none).complete = false from hc), Option.none_or]
      cases rest.head? <;> rfl
  | some head =>
      have hcomplete : (locatedBefore s (some head)).complete = true := rfl
      rw [leave, if_pos hcomplete, scan_of_complete r rest hcomplete, Option.some_or]

/-- The chain is followed from the inside: what it leaves open is looked for behind its first stop. -/
theorem follow_cons (r : Stepper) (stop : Stop τ) (chain : List (Stop τ)) (s : Progress) :
    r.follow (stop :: chain) s = r.scan stop.behind
      (leave (if chain = [] then r.enter (r.slotsAt stop.mediator) s else r.follow chain s)) := by
  cases hlast : chain.getLast? with
  | none =>
      have hnil : chain = [] := List.getLast?_eq_none_iff.mp hlast
      subst hnil
      rw [if_pos rfl, follow, List.getLast?_singleton, successor?_cons]
      simp only
      split
      next hc => rw [leave, if_pos hc, scan_of_complete r _ hc]
      next hc => rw [scan_leave r _ (Bool.not_eq_true _ ▸ hc)]; rfl
  | some last =>
      have hne : chain ≠ [] := fun hnil => by simp [hnil] at hlast
      rw [if_neg hne, follow, follow, List.getLast?_cons, hlast, Option.getD_some, successor?_cons]
      simp only
      split
      next hc => rw [leave, if_pos hc, scan_of_complete r _ hc]
      next hc => rw [scan_leave_locatedBefore r _ (Bool.not_eq_true _ ▸ hc)]

/-- From a progress without marks the scan follows the chain. The induction goes into the branches,
where the progress still has no marks: the scan looks into a branch before it marks anything. -/
theorem scan_eq_follow (r : Stepper) (ms : List (Mediator τ (Flow τ))) {s : Progress}
    (hl : s.located = false) (hc : s.complete = false) :
    r.scan ms s = r.follow (r.stops ms) s := by
  induction ms using Flow.mediators_induct with
  | nil => rw [scan_nil, stops_nil, follow_nil]
  | cons m rest hbranch ih =>
      by_cases hm : r.position ∈ m
      · rw [scan_of_mem r rest hl hc hm, stops_of_mem r rest hm, follow_cons]
        cases h : r.branchAt? m with
        | none => rw [lookInto_of_branchAt?_eq_none h, Option.elim_none, if_pos rfl]
        | some c =>
            rw [lookInto_of_branchAt? h, hbranch c (mem_branches_of_branchAt? h), Option.elim_some]
            split
            next hnil => rw [hnil, follow_nil, slotsAt_of_branchAt? h, enter_nil]
            next => rfl
      · rw [scan_of_not_mem r rest hl hc hm, stops_of_not_mem r rest hm, ih]

theorem scan_append (r : Stepper) (ms ms' : List (Mediator τ (Flow τ))) (s : Progress) :
    r.scan (ms ++ ms') s = r.scan ms' (r.scan ms s) := by
  induction ms generalizing s with
  | nil => rw [scan_nil, List.nil_append]
  | cons m rest ih =>
      rw [List.cons_append]
      cases hc : s.complete with
      | true => rw [scan_of_complete r _ hc, scan_of_complete r _ hc, scan_of_complete r _ hc]
      | false =>
          cases hl : s.located with
          | true =>
              rw [scan_of_located r _ hl hc, scan_of_located r _ hl hc]
              exact (scan_of_complete r _ rfl).symm
          | false =>
              by_cases hm : r.position ∈ m
              · rw [scan_of_mem r _ hl hc hm, scan_of_mem r _ hl hc hm, ih]
              · rw [scan_of_not_mem r _ hl hc hm, scan_of_not_mem r _ hl hc hm, ih]

/-- Flows that are gone through in order are one row of mediators. -/
theorem foldl_scanFlow (r : Stepper) (flows : List (Flow τ)) (s : Progress) :
    flows.foldl (fun s f => r.scanFlow f s) s = r.scan (flows.flatMap (·.mediators)) s := by
  induction flows generalizing s with
  | nil => rw [List.flatMap_nil, scan_nil]; rfl
  | cons f flows ih => rw [List.foldl_cons, ih, List.flatMap_cons, scan_append]; rfl

theorem resolve_eq_follow (r : Stepper) (flows : List (Flow τ)) :
    r.resolve flows = (r.follow (r.stops (flows.flatMap (·.mediators))) {}).armed := by
  rw [resolve, foldl_scanFlow, scan_eq_follow r _ rfl rfl]

theorem armed_follow (r : Stepper) (chain : List (Stop τ)) :
    (r.follow chain {}).armed = r.targets chain := by
  simp only [follow, targets]
  cases chain.getLast? with
  | none => rfl
  | some stop =>
      simp only [enter_eq]
      split
      next hsettles => simp [Progress.arm]
      next hsettles =>
          rw [if_neg (by simp [Progress.arm])]
          cases successor? chain <;> simp [locatedBefore, Progress.finishAt, Progress.arm]

/-- The scan arms the targets of the chain of stops, on any flows and under any settings. -/
theorem resolve_eq_targets (r : Stepper) (flows : List (Flow τ)) :
    r.resolve flows = r.targets (r.stops (flows.flatMap (·.mediators))) := by
  rw [resolve_eq_follow, armed_follow]

end Stepper

end Mediation
