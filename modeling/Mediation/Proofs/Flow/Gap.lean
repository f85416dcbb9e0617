import Mediation.Proofs.Flow.Replace
import Mediation.Proofs.Stepping.Isolation

/-! Flows with a place left free for one mediator, in the row or at any depth below it (`Gap`). Every
mediator in a flow fills such a place (`Gap.inRow_iff`), so to change one mediator where it stands is
to fill its place with another one (`Gap.fill`). Below the row the place is in a branch of a mediator
of which this branch is open; a mediator with open branches is one that nests what may be a flow and
may be none (`Mediator.close`). -/

namespace Mediation

variable {τ φ : Type}

/-! Open branches. -/

namespace Kind

/-- The kind with the flow in each branch that is open. -/
def close (k : Kind τ (Option φ)) (c : φ) : Kind τ φ := k.replace id id (·.getD c)

section

variable {α β : Type} {close : β → α} {keep : α → β} (branch : α → Option φ)
  (branch' : β → Option (Option φ))

theorem map_map_of_leftInverse (hkeep : Function.LeftInverse close keep) (parts : List α) :
    (parts.map keep).map close = parts := by
  rw [List.map_map, hkeep.comp_eq_id, List.map_id]

theorem countP_isNone_filterMap (hbranch : ∀ a, branch' (keep a) = (branch a).map some)
    (parts : List α) :
    ((parts.map keep).filterMap branch').countP (·.isNone) = 0 := by
  have hmap : (parts.map keep).filterMap branch' = (parts.filterMap branch).map some := by
    simp [List.filterMap_map, List.map_filterMap, hbranch]
  rw [hmap]
  simp [List.countP_eq_zero]

/-- Of parts in a list, one can be opened, and all the others kept as they are. -/
theorem exists_map_eq (hkeep : Function.LeftInverse close keep)
    (hbranch : ∀ a, branch' (keep a) = (branch a).map some) {parts : List α} {b : β}
    (hb : close b ∈ parts) (hopen : branch' b = some none) :
    ∃ opened : List β, opened.map close = parts ∧
      (opened.filterMap branch').countP (·.isNone) = 1 := by
  obtain ⟨before, behind, hparts⟩ := List.append_of_mem hb
  refine ⟨before.map keep ++ b :: behind.map keep, ?_, ?_⟩
  · rw [List.map_append, List.map_cons, map_map_of_leftInverse hkeep, map_map_of_leftInverse hkeep,
      hparts]
  · rw [List.filterMap_append, List.filterMap_cons_some hopen, List.countP_append, List.countP_cons,
      countP_isNone_filterMap branch branch' hbranch, countP_isNone_filterMap branch branch' hbranch]
    rfl

end

theorem leftInverse_target_replace (c : φ) :
    Function.LeftInverse (Target.replace id (·.getD c)) (Target.replace (τ := τ) id some) := by
  rintro ⟨node, _ | sequence⟩ <;> rfl

theorem leftInverse_case_replace (c : φ) :
    Function.LeftInverse (Case.replace id (·.getD c)) (Case.replace id some) := by
  rintro ⟨regex, _ | flow⟩ <;> rfl

theorem exists_targets_eq {c : φ} {targets : List (Target τ φ)}
    (hc : c ∈ targets.filterMap (·.sequence)) :
    ∃ opened : List (Target τ (Option φ)), opened.map (·.replace id (·.getD c)) = targets ∧
      (opened.filterMap (·.sequence)).countP (·.isNone) = 1 := by
  obtain ⟨⟨node, _⟩, ht, rfl⟩ := List.mem_filterMap.mp hc
  exact exists_map_eq (·.sequence) (·.sequence) (b := ⟨node, some none⟩)
    (leftInverse_target_replace c) (fun _ => rfl) ht rfl

theorem exists_cases_eq {c : φ} {cases : List (Case φ)} (hc : c ∈ cases.filterMap (·.flow)) :
    ∃ opened : List (Case (Option φ)), opened.map (·.replace id (·.getD c)) = cases ∧
      (opened.filterMap (·.flow)).countP (·.isNone) = 1 := by
  obtain ⟨⟨regex, _⟩, hcase, rfl⟩ := List.mem_filterMap.mp hc
  exact exists_map_eq (·.flow) (·.flow) (b := ⟨regex, some none⟩) (leftInverse_case_replace c)
    (fun _ => rfl) hcase rfl

/-- Any branch can be opened, and no other one with it. -/
theorem exists_close_eq {k : Kind τ φ} {c : φ} (hc : c ∈ k.branches) :
    ∃ opened : Kind τ (Option φ), opened.close c = k ∧ opened.branches.countP (·.isNone) = 1 := by
  have hkept (branch : Option φ) : (branch.map some).map (·.getD c) = branch := by
    cases branch <;> rfl
  have hcount (branch : Option φ) : (branch.map some).toList.countP (·.isNone) = 0 := by
    cases branch <;> rfl
  cases k with
  | simple => cases hc
  | filter thenFlow elseFlow =>
      simp only [branches, List.mem_append, Option.mem_toList] at hc
      rcases hc with rfl | rfl
      · refine ⟨.filter (some none) (elseFlow.map some), ?_, ?_⟩ <;>
          simp [close, replace, branches, hkept, hcount]
      · refine ⟨.filter (thenFlow.map some) (some none), ?_, ?_⟩ <;>
          simp [close, replace, branches, hkept, hcount]
  | throttle onAccept onReject =>
      simp only [branches, List.mem_append, Option.mem_toList] at hc
      rcases hc with rfl | rfl
      · refine ⟨.throttle (some none) (onReject.map some), ?_, ?_⟩ <;>
          simp [close, replace, branches, hkept, hcount]
      · refine ⟨.throttle (onAccept.map some) (some none), ?_, ?_⟩ <;>
          simp [close, replace, branches, hkept, hcount]
  | switch cases default =>
      simp only [branches, List.mem_append, Option.mem_toList] at hc
      rcases hc with hc | rfl
      · obtain ⟨opened, hopened, hone⟩ := exists_cases_eq hc
        exact ⟨.switch opened (default.map some), by simp [close, replace, hkept, hopened],
          by simp [branches, hcount, hone]⟩
      · have hcases : (cases.map (·.replace id some)).map (·.replace id (·.getD c)) = cases :=
          map_map_of_leftInverse (leftInverse_case_replace c) cases
        have hnone : ((cases.map (·.replace id some)).filterMap (·.flow)).countP (·.isNone) = 0 :=
          countP_isNone_filterMap Case.flow Case.flow (fun _ => rfl) cases
        refine ⟨.switch (cases.map (·.replace id some)) (some none), ?_, ?_⟩
        · rw [close, replace, hcases]
          rfl
        · rw [branches, List.countP_append, hnone]
          rfl
  | entitlement onAccept onReject advice obligations =>
      simp only [branches, List.mem_append, Option.mem_toList] at hc
      rcases hc with ((rfl | rfl) | rfl) | rfl
      · refine ⟨.entitlement (some none) (onReject.map some) (advice.map some)
          (obligations.map some), ?_, ?_⟩ <;> simp [close, replace, branches, hkept, hcount]
      · refine ⟨.entitlement (onAccept.map some) (some none) (advice.map some)
          (obligations.map some), ?_, ?_⟩ <;> simp [close, replace, branches, hkept, hcount]
      · refine ⟨.entitlement (onAccept.map some) (onReject.map some) (some none)
          (obligations.map some), ?_, ?_⟩ <;> simp [close, replace, branches, hkept, hcount]
      · refine ⟨.entitlement (onAccept.map some) (onReject.map some) (advice.map some)
          (some none), ?_, ?_⟩ <;> simp [close, replace, branches, hkept, hcount]
  | cache branch =>
      obtain rfl := Option.mem_toList.mp hc
      exact ⟨.cache (some none), rfl, rfl⟩
  | validate branch =>
      obtain rfl := Option.mem_toList.mp hc
      exact ⟨.validate (some none), rfl, rfl⟩
  | foreach branch =>
      obtain rfl := Option.mem_toList.mp hc
      exact ⟨.foreach (some none), rfl, rfl⟩
  | aggregate branch =>
      obtain rfl := Option.mem_toList.mp hc
      exact ⟨.aggregate (some none), rfl, rfl⟩
  | iterate target =>
      obtain ⟨⟨node, _⟩, ht, rfl⟩ := List.mem_filterMap.mp hc
      obtain rfl := Option.mem_toList.mp ht
      exact ⟨.iterate (some ⟨node, some none⟩), rfl, rfl⟩
  | clone targets =>
      obtain ⟨opened, hopened, hone⟩ := exists_targets_eq hc
      exact ⟨.clone opened, congrArg clone hopened, hone⟩
  | scatterGather targets =>
      obtain ⟨opened, hopened, hone⟩ := exists_targets_eq hc
      exact ⟨.scatterGather opened, congrArg scatterGather hopened, hone⟩

end Kind

/-- The mediator with the flow in each branch that is open. -/
def Mediator.close (m : Mediator τ (Option (Flow τ))) (c : Flow τ) : Mediator τ (Flow τ) :=
  ⟨m.node, m.kind.close c⟩

theorem Mediator.branches_close (m : Mediator τ (Option (Flow τ))) (c : Flow τ) :
    (m.close c).branches = m.branches.map (·.getD c) :=
  Kind.branches_replace _ _ _ _

theorem Mediator.slots?_close (m : Mediator τ (Option (Flow τ))) (c : Flow τ) :
    (m.close c).kind.slots? = m.kind.slots?.map (·.map (·.map (·.getD c))) :=
  Kind.slots?_replace _ _ _ _

/-- Mediators in a row, with a place left free for one. -/
inductive Gap (τ : Type) where
  /-- The place is in the row itself. -/
  | row (before behind : List (Mediator τ (Flow τ)))
  /-- The place is in the branch that the mediator has open, which is one branch only. -/
  | nested (before : List (Mediator τ (Flow τ))) (owner : Mediator τ (Option (Flow τ)))
      (one : owner.branches.countP (·.isNone) = 1) (branch : Node τ) (inner : Gap τ)
      (behind : List (Mediator τ (Flow τ)))

namespace Gap

/-- The row with the mediator in the place. -/
def fill (m : Mediator τ (Flow τ)) : Gap τ → List (Mediator τ (Flow τ))
  | row before behind => before ++ m :: behind
  | nested before owner _ branch inner behind =>
      before ++ owner.close ⟨branch, inner.fill m⟩ :: behind

theorem inRow_fill (gap : Gap τ) (m : Mediator τ (Flow τ)) : InRow (gap.fill m) m := by
  induction gap with
  | row before behind => exact inRow_of_mem List.mem_append_cons_self
  | nested before owner one branch inner behind ih =>
      have hopen : none ∈ owner.branches := by
        obtain ⟨c, hc, hnone⟩ := List.countP_pos_iff.mp (one ▸ Nat.one_pos)
        rwa [Option.isNone_iff_eq_none.mp hnone] at hc
      have hbranch : ⟨branch, inner.fill m⟩ ∈ (owner.close ⟨branch, inner.fill m⟩).branches := by
        rw [Mediator.branches_close]
        exact List.mem_map.mpr ⟨none, hopen, rfl⟩
      exact InRow.branch (inRow_of_mem List.mem_append_cons_self) hbranch ih

/-- Every mediator in a flow has a place of its own there. -/
theorem exists_fill_eq {f : Flow τ} {m : Mediator τ (Flow τ)} (hm : InRow f.mediators m) :
    ∃ gap : Gap τ, gap.fill m = f.mediators := by
  induction f using Flow.induct with
  | hstep f ih =>
      obtain ⟨owner, howner, hm⟩ := hm
      obtain ⟨before, behind, hrow⟩ := List.append_of_mem howner
      rcases hm with rfl | hnests
      · exact ⟨.row before behind, hrow.symm⟩
      · obtain ⟨c, hc, hm⟩ := Mediator.nests_iff.mp hnests
        obtain ⟨inner, hinner⟩ := ih c (List.mem_flatMap.mpr ⟨owner, howner, hc⟩) hm
        obtain ⟨opened, hclose, hone⟩ := Kind.exists_close_eq hc
        have hc : ⟨c.node, inner.fill m⟩ = c := by rw [hinner]; cases c; rfl
        have howner : Mediator.close ⟨owner.node, opened⟩ c = owner :=
          congrArg (Mediator.mk owner.node) hclose
        refine ⟨.nested before ⟨owner.node, opened⟩ hone c.node inner behind, ?_⟩
        show before ++ Mediator.close _ ⟨c.node, inner.fill m⟩ :: behind = _
        rw [hc, howner, hrow]

theorem inRow_iff {f : Flow τ} {m : Mediator τ (Flow τ)} :
    InRow f.mediators m ↔ ∃ gap : Gap τ, gap.fill m = f.mediators :=
  ⟨exists_fill_eq, fun ⟨gap, hgap⟩ => hgap ▸ gap.inRow_fill m⟩

/-- The head of the row only depends on where the mediator stands. -/
theorem head?_fill (gap : Gap τ) {m m' : Mediator τ (Flow τ)} (h : m'.node = m.node) :
    (gap.fill m').head?.map (·.head) = (gap.fill m).head?.map (·.head) := by
  cases gap with
  | row before behind =>
      cases before with
      | nil => exact congrArg (fun node => some node.head) h
      | cons => rfl
  | nested before => cases before <;> rfl

end Gap

end Mediation
