import Mediation.Stepping.Scan

/-! How a progress goes on. A scan only ever adds to what is known: heads are appended, neither mark
is taken back, and a complete progress stays as it is (`Progress.Grows`). A progress that scans have
come to from nothing is consistent: it is complete only with a head armed, and a head is armed only
where the statement has been located or all is complete (`Progress.Consistent`). Once the statement
is located and its successor is not, positions and settings no longer matter: the next mediator that
any flow offers is the successor (`Stepper.run_of_located`). -/

namespace Mediation

namespace Progress

/-- The second progress goes on from the first. -/
structure Grows (s t : Progress) : Prop where
  armed : s.armed <+: t.armed
  located : s.located = true → t.located = true
  complete : s.complete = true → t = s

/-- The armed heads and the marks fit together. -/
structure Consistent (s : Progress) : Prop where
  armed_ne_nil : s.complete = true → s.armed ≠ []
  marked : s.armed ≠ [] → s.located = true ∨ s.complete = true

theorem Grows.refl (s : Progress) : s.Grows s := ⟨List.prefix_rfl, id, fun _ => rfl⟩

theorem Grows.trans {s t u : Progress} (hst : s.Grows t) (htu : t.Grows u) : s.Grows u where
  armed := hst.armed.trans htu.armed
  located h := htu.located (hst.located h)
  complete h := by
    have hts := hst.complete h
    subst hts
    exact htu.complete h

theorem grows_arm {s : Progress} (hc : s.complete = false) (heads : List Position) :
    s.Grows (s.arm heads) where
  armed := List.prefix_append _ _
  located := id
  complete h := by simp [hc] at h

theorem grows_finishAt {s : Progress} (hc : s.complete = false) (head : Position) :
    s.Grows (s.finishAt head) where
  armed := List.prefix_append _ _
  located := id
  complete h := by simp [hc] at h

theorem consistent_empty : Consistent {} := ⟨by simp, by simp⟩

theorem consistent_finishAt (s : Progress) (head : Position) : (s.finishAt head).Consistent :=
  ⟨fun _ => by simp [finishAt, arm], fun _ => .inr rfl⟩

end Progress

namespace Stepper

variable {τ : Type}

/-- The heads of the branches that are there and not empty, slot by slot. -/
def slotHeads (slots : List (Option (Flow τ))) : List Position :=
  slots.filterMap fun slot => slot.bind (·.head?)

/-- To arm the branches in these slots is all there is to do. -/
def Settles (r : Stepper) (slots : List (Option (Flow τ))) : Prop :=
  slotHeads slots ≠ [] ∧
    (r.settings.absentBranches = .ignore ∨ (slotHeads slots).length = slots.length)

instance (r : Stepper) (slots : List (Option (Flow τ))) : Decidable (r.Settles slots) :=
  inferInstanceAs (Decidable (_ ∧ _))

theorem enter_eq (r : Stepper) (slots : List (Option (Flow τ))) (s : Progress) :
    r.enter slots s =
      if r.Settles slots then { s.arm (slotHeads slots) with complete := true }
      else s.arm (slotHeads slots) := by
  unfold enter
  refine ite_congr (propext ?_) (fun _ => rfl) fun _ => rfl
  show 0 < (slotHeads slots).length ∧ (slotHeads slots).length = _ ↔ _
  rw [Settles, List.length_pos_iff]
  cases r.settings.absentBranches <;> simp [slotHeads]

theorem armed_enter (r : Stepper) (slots : List (Option (Flow τ))) (s : Progress) :
    (r.enter slots s).armed = s.armed ++ slotHeads slots := by
  rw [enter_eq]
  split <;> rfl

/-- What is known after a look into a mediator that holds the position. -/
def lookInto (r : Stepper) (m : Mediator τ (Flow τ)) (s : Progress) : Progress :=
  match m.kind.slots? with
  | none => s
  | some slots =>
      match m.placement r.settings.entryRegion r.position with
      | .entry => r.enter slots s
      | .nested branch => r.scan branch.mediators s
      | .elsewhere => s

/-- The statement is located once the scan has been through the mediator that holds it. -/
def leave (s : Progress) : Progress := if s.complete then s else { s with located := true }

/-! One lemma for each case of the scan. -/

theorem scan_nil (r : Stepper) (s : Progress) : r.scan ([] : List (Mediator τ (Flow τ))) s = s := by
  rw [scan]

theorem scan_of_complete (r : Stepper) (ms : List (Mediator τ (Flow τ))) {s : Progress}
    (hc : s.complete = true) :
    r.scan ms s = s := by
  cases ms with
  | nil => exact scan_nil r s
  | cons m rest => rw [scan, if_pos hc]

theorem scan_of_located (r : Stepper) (ms : List (Mediator τ (Flow τ))) {s : Progress}
    (hl : s.located = true) (hc : s.complete = false) :
    r.scan ms s = match ms.head? with
      | none => s
      | some m => s.finishAt m.head := by
  cases ms with
  | nil => exact scan_nil r s
  | cons m rest => rw [scan, if_neg (by simp [hc]), if_pos hl]; rfl

theorem scan_of_not_mem (r : Stepper) {m : Mediator τ (Flow τ)} (rest : List (Mediator τ (Flow τ)))
    {s : Progress} (hl : s.located = false) (hc : s.complete = false) (hm : r.position ∉ m) :
    r.scan (m :: rest) s = r.scan rest s := by
  rw [scan, if_neg (by simp [hc]), if_neg (by simp [hl]), if_neg hm]

theorem scan_of_mem (r : Stepper) {m : Mediator τ (Flow τ)} (rest : List (Mediator τ (Flow τ)))
    {s : Progress} (hl : s.located = false) (hc : s.complete = false) (hm : r.position ∈ m) :
    r.scan (m :: rest) s = r.scan rest (leave (r.lookInto m s)) := by
  have hlook : r.scan (m :: rest) s =
      if (r.lookInto m s).complete then r.lookInto m s
      else r.scan rest { r.lookInto m s with located := true } := by
    rw [scan, if_neg (by simp [hc]), if_neg (by simp [hl]), if_pos hm, lookInto]
    cases m.kind.slots? with
    | none => rfl
    | some slots => cases m.placement r.settings.entryRegion r.position <;> rfl
  rw [hlook, leave]
  split
  next hcomplete => rw [scan_of_complete r rest hcomplete]
  next => rfl

/-! What one scan keeps. -/

theorem grows_leave (s : Progress) : s.Grows (leave s) := by
  rw [leave]
  split
  next => exact .refl s
  next hc => exact ⟨List.prefix_rfl, fun _ => rfl, fun h => absurd h hc⟩

theorem consistent_leave {s : Progress} (hs : s.complete = true → s.armed ≠ []) :
    (leave s).Consistent := by
  rw [leave]
  split
  next hc => exact ⟨hs, fun _ => .inr hc⟩
  next hc => exact ⟨fun h => absurd h hc, fun _ => .inl rfl⟩

theorem grows_enter (r : Stepper) (slots : List (Option (Flow τ))) {s : Progress}
    (hc : s.complete = false) :
    s.Grows (r.enter slots s) := by
  have harm := Progress.grows_arm hc (slotHeads slots)
  rw [enter_eq]
  split
  next => exact ⟨harm.armed, harm.located, fun h => by simp [hc] at h⟩
  next => exact harm

theorem armed_enter_ne_nil (r : Stepper) (slots : List (Option (Flow τ))) {s : Progress}
    (hc : s.complete = false) (h : (r.enter slots s).complete = true) :
    (r.enter slots s).armed ≠ [] := by
  rw [enter_eq] at h ⊢
  split at h
  next hsettled =>
      rw [if_pos hsettled]
      exact List.append_ne_nil_of_right_ne_nil _ hsettled.1
  next => exact absurd h (by simp [Progress.arm, hc])

theorem grows_lookInto (r : Stepper) {m : Mediator τ (Flow τ)} {s : Progress}
    (hc : s.complete = false)
    (hbranch : ∀ c ∈ m.branches, s.Grows (r.scan c.mediators s)) :
    s.Grows (r.lookInto m s) := by
  rw [lookInto]
  split
  next => exact .refl s
  next slots _ =>
      split
      next => exact grows_enter r slots hc
      next branch hplace => exact hbranch branch (Mediator.mem_branches_of_placement_eq_nested hplace)
      next => exact .refl s

theorem armed_lookInto_ne_nil (r : Stepper) {m : Mediator τ (Flow τ)} {s : Progress}
    (hc : s.complete = false)
    (hbranch : ∀ c ∈ m.branches, (r.scan c.mediators s).Consistent)
    (h : (r.lookInto m s).complete = true) :
    (r.lookInto m s).armed ≠ [] := by
  rw [lookInto] at h ⊢
  split at h
  next => exact absurd h (by simp [hc])
  next slots _ =>
      split at h
      next => exact armed_enter_ne_nil r slots hc h
      next branch hplace =>
          have hmem := Mediator.mem_branches_of_placement_eq_nested hplace
          exact (hbranch branch hmem).armed_ne_nil h
      next => exact absurd h (by simp [hc])

/-- A scan goes on from the progress it is given, whatever that is. -/
theorem grows_scan (r : Stepper) (ms : List (Mediator τ (Flow τ))) (s : Progress) :
    s.Grows (r.scan ms s) := by
  induction ms using Flow.mediators_induct generalizing s with
  | nil => rw [scan_nil]; exact .refl s
  | cons m rest hbranch ih =>
      cases hc : s.complete with
      | true => rw [scan_of_complete r _ hc]; exact .refl s
      | false =>
          cases hl : s.located with
          | true =>
              rw [scan_of_located r _ hl hc]
              exact Progress.grows_finishAt hc m.head
          | false =>
              by_cases hm : r.position ∈ m
              · rw [scan_of_mem r rest hl hc hm]
                have hlook := grows_lookInto r hc fun c hmem => hbranch c hmem s
                exact (hlook.trans (grows_leave _)).trans (ih _)
              · rw [scan_of_not_mem r rest hl hc hm]
                exact ih s

/-- A scan of a consistent progress leaves it consistent. The look into a mediator alone does not,
since heads may be armed before the statement is marked as located. -/
theorem consistent_scan (r : Stepper) (ms : List (Mediator τ (Flow τ))) {s : Progress}
    (hs : s.Consistent) :
    (r.scan ms s).Consistent := by
  induction ms using Flow.mediators_induct generalizing s with
  | nil => rw [scan_nil]; exact hs
  | cons m rest hbranch ih =>
      cases hc : s.complete with
      | true => rw [scan_of_complete r _ hc]; exact hs
      | false =>
          cases hl : s.located with
          | true =>
              rw [scan_of_located r _ hl hc]
              exact Progress.consistent_finishAt s m.head
          | false =>
              by_cases hm : r.position ∈ m
              · rw [scan_of_mem r rest hl hc hm]
                exact ih (consistent_leave
                  (armed_lookInto_ne_nil r hc fun c hmem => hbranch c hmem hs))
              · rw [scan_of_not_mem r rest hl hc hm]
                exact ih hs

/-! What a run of scans keeps, each scan with a position and settings of its own. -/

/-- Scans flows in order, each with a stepper of its own. -/
def run (steps : List (Stepper × Flow τ)) (s : Progress) : Progress :=
  steps.foldl (fun s step => step.1.scanFlow step.2 s) s

theorem run_cons (r : Stepper) (f : Flow τ) (steps : List (Stepper × Flow τ)) (s : Progress) :
    run ((r, f) :: steps) s = run steps (r.scan f.mediators s) := rfl

theorem grows_run (steps : List (Stepper × Flow τ)) (s : Progress) : s.Grows (run steps s) := by
  induction steps generalizing s with
  | nil => exact .refl s
  | cons step steps ih => exact (grows_scan step.1 step.2.mediators s).trans (ih _)

theorem consistent_run (steps : List (Stepper × Flow τ)) {s : Progress} (hs : s.Consistent) :
    (run steps s).Consistent := by
  induction steps generalizing s with
  | nil => exact hs
  | cons step steps ih => exact ih (consistent_scan step.1 step.2.mediators hs)

theorem run_of_complete (steps : List (Stepper × Flow τ)) {s : Progress} (hc : s.complete = true) :
    run steps s = s :=
  (grows_run steps s).complete hc

/-- Once the statement is located, a run is over at the first mediator it comes to. -/
theorem run_of_located (steps : List (Stepper × Flow τ)) {s : Progress} (hl : s.located = true)
    (hc : s.complete = false) :
    run steps s = match steps.findSome? (·.2.head?) with
      | none => s
      | some head => s.finishAt head := by
  induction steps with
  | nil => rfl
  | cons step steps ih =>
      obtain ⟨r, f⟩ := step
      rw [run_cons, scan_of_located r _ hl hc, List.findSome?_cons]
      cases hhead : f.mediators.head? with
      | none => simp only [Flow.head?, hhead, Option.map_none]; exact ih
      | some m =>
          simp only [Flow.head?, hhead, Option.map_some]
          exact run_of_complete steps rfl

/-- A run from anywhere only adds to the progress, a run from nothing comes to a consistent progress,
and a run from where the statement is located arms exactly one more head, whatever its positions and
settings are: that of the first mediator of the first flow that has one. -/
theorem run_progress :
    (∀ (steps : List (Stepper × Flow τ)) (s : Progress), s.Grows (run steps s)) ∧
    (∀ steps : List (Stepper × Flow τ), (run steps {}).Consistent) ∧
    ∀ (steps : List (Stepper × Flow τ)) (s : Progress), s.located = true → s.complete = false →
      run steps s = match steps.findSome? (·.2.head?) with
        | none => s
        | some head => { s with armed := s.armed ++ [head], complete := true } :=
  ⟨grows_run, fun steps => consistent_run steps Progress.consistent_empty,
    fun steps _ hl hc => run_of_located steps hl hc⟩

/-- A flow without mediators is passed over, and the log behind it is the successor. -/
theorem run_progress_log :
    (⟨true, false, [⟨1, 4⟩]⟩ : Progress).located = true ∧
    (⟨true, false, [⟨1, 4⟩]⟩ : Progress).complete = false ∧
    run [(⟨{}, ⟨7, 0⟩⟩, (⟨⟨"inSequence", .selfClosed ⟨⟨2, 0⟩, ⟨2, 9⟩⟩⟩, []⟩ : Flow String)),
        (⟨{}, ⟨3, 5⟩⟩, ⟨⟨"outSequence", .container ⟨⟨3, 0⟩, ⟨3, 3⟩⟩ ⟨⟨4, 0⟩, ⟨4, 3⟩⟩⟩,
          [⟨⟨"log", .selfClosed ⟨⟨3, 5⟩, ⟨3, 9⟩⟩⟩, .simple⟩]⟩)]
      ⟨true, false, [⟨1, 4⟩]⟩ = ⟨true, true, [⟨1, 4⟩, ⟨3, 5⟩]⟩ :=
  ⟨rfl, rfl, run_progress.2.2 _ ⟨true, false, [⟨1, 4⟩]⟩ rfl rfl⟩

end Stepper

end Mediation
