import Mathlib.Data.List.Find
import Mediation.Proofs.Element
import Mediation.Proofs.Flow.Redrawing
import Mediation.Proofs.Stepping.Isolation
import Mediation.Proofs.Stepping.Landing

/-! Stepping sees only kinds, what nests what, and the order of positions. It compares a position with
the ends of tags and never asks how far apart two positions are, so a redrawing that keeps the order of
the positions concerned (`Redrawing.KeepsOrder`) takes the place where a scan ends to the place where
it ends in the redrawn flow (`Stepper.landing?_redraw`), and with it what is armed
(`Artifact.stepOver_redraw`). There is no asking for order among all positions: a map of all positions
to positions that keeps their order is the identity. -/

namespace Mediation

/-- Where the tags of an element start and stop. -/
def SourceRange.ends (r : SourceRange) : List Position :=
  r.tags.flatMap fun tag => [tag.start, tag.stop]

/-- Where the tags of a flow start and stop, and those of all mediators and flows in it. -/
def Flow.ends {τ : Type} (f : Flow τ) : List Position :=
  f.withNested.flatMap fun g => g.node.range.ends ++ g.mediators.flatMap (·.node.range.ends)

/-- The resources of the artifact; only an api has any. -/
def Artifact.resources {τ : Type} : Artifact τ → List (Resource τ)
  | api _ _ resources => resources
  | proxy .. | sequence .. | template .. => []

/-- Where the tags of resources, flows and mediators start and stop. -/
def Artifact.ends {τ : Type} (a : Artifact τ) : List Position :=
  a.resources.flatMap (·.node.range.ends) ++ a.rootFlows.flatMap (·.ends)

/-- The redrawing is strictly increasing on the positions. -/
def Redrawing.KeepsOrder {τ σ : Type} (e : Redrawing τ σ) (S : List Position) : Prop :=
  ∀ q ∈ S, ∀ r ∈ S, q < r → e.position q < e.position r

instance {τ σ : Type} (e : Redrawing τ σ) (S : List Position) : Decidable (e.KeepsOrder S) :=
  inferInstanceAs (Decidable (∀ q ∈ S, ∀ r ∈ S, q < r → e.position q < e.position r))

theorem SourceRange.startTag_ends_subset (r : SourceRange) :
    r.startTag.start ∈ r.ends ∧ r.startTag.stop ∈ r.ends ∧ r.stop ∈ r.ends := by
  cases r <;> simp [ends, tags, startTag, stop]

section

variable {τ σ : Type}

/-- All ends of tags in the mediator are among the positions. -/
structure Mediator.Within (S : List Position) (m : Mediator τ (Flow τ)) : Prop where
  node : m.node.range.ends ⊆ S
  branches : ∀ c ∈ m.branches, c.ends ⊆ S

namespace Flow

variable {f : Flow τ} {S : List Position}

theorem node_ends_subset (h : f.ends ⊆ S) : f.node.range.ends ⊆ S := fun _ hq =>
  h (List.mem_flatMap.mpr ⟨f, f.mem_withNested_self, List.mem_append_left _ hq⟩)

theorem mediator_within (h : f.ends ⊆ S) {m : Mediator τ (Flow τ)} (hm : m ∈ f.mediators) :
    m.Within S where
  node q hq := by
    have hrow : q ∈ f.mediators.flatMap (·.node.range.ends) := List.mem_flatMap.mpr ⟨m, hm, hq⟩
    exact h (List.mem_flatMap.mpr ⟨f, f.mem_withNested_self, List.mem_append_right _ hrow⟩)
  branches c hc q hq := by
    obtain ⟨g, hg, hq⟩ := List.mem_flatMap.mp hq
    exact h (List.mem_flatMap.mpr ⟨g, mem_withNested_of_mem_branches hm hc hg, hq⟩)

end Flow

/-! What is where it was. -/

variable {e : Redrawing τ σ} {S : List Position} {p : Position}

namespace Redrawing

/-- A redrawing that is strictly increasing also goes back. -/
theorem KeepsOrder.le_iff (h : e.KeepsOrder S) {q r : Position} (hq : q ∈ S) (hr : r ∈ S) :
    e.position q ≤ e.position r ↔ q ≤ r := by
  have hlt := h q hq r hr
  have hgt := h r hr q hq
  simp only [Position.lt_iff_rank_lt] at hlt hgt
  rw [Position.le_iff_rank_le, Position.le_iff_rank_le]
  rcases Nat.lt_trichotomy q.rank r.rank with hqr | hqr | hqr
  · exact iff_of_true (Nat.le_of_lt (hlt hqr)) (Nat.le_of_lt hqr)
  · rw [Position.rank_inj.mp hqr]
    exact iff_of_true (Nat.le_refl _) (Nat.le_refl _)
  · exact iff_of_false (Nat.not_le_of_lt (hgt hqr)) (Nat.not_le_of_lt hqr)

theorem keepsOrder_moveLines {lines : UInt32 → UInt32}
    (h : ∀ q ∈ S, ∀ r ∈ S, q.line < r.line → lines q.line < lines r.line) :
    (moveLines lines : Redrawing τ τ).KeepsOrder S := by
  intro q hq r hr hqr
  rcases hqr with hline | ⟨hline, hcolumn⟩
  · exact .inl (h q hq r hr hline)
  · exact .inr ⟨congrArg lines hline, hcolumn⟩

theorem KeepsOrder.mem_startTag_iff (h : e.KeepsOrder S) (hp : p ∈ S) {r : SourceRange}
    (hr : r.ends ⊆ S) :
    e.position p ∈ (r.map e.position).startTag ↔ p ∈ r.startTag := by
  obtain ⟨hstart, hstop, -⟩ := r.startTag_ends_subset
  rw [SourceRange.startTag_map]
  exact and_congr (h.le_iff (hr hstart) hp) (h.le_iff hp (hr hstop))

theorem KeepsOrder.mem_iff (h : e.KeepsOrder S) (hp : p ∈ S) {r : SourceRange} (hr : r.ends ⊆ S) :
    e.position p ∈ r.map e.position ↔ p ∈ r := by
  obtain ⟨hstart, -, hstop⟩ := r.startTag_ends_subset
  rw [SourceRange.mem_iff, SourceRange.mem_iff, SourceRange.start_map, SourceRange.stop_map]
  exact and_congr (h.le_iff (hr hstart) hp) (h.le_iff hp (hr hstop))

theorem KeepsOrder.mem_flow_iff (h : e.KeepsOrder S) (hp : p ∈ S) {f : Flow τ} (hf : f.ends ⊆ S) :
    e.position p ∈ f.redraw e ↔ p ∈ f := by
  show e.position p ∈ (f.redraw e).node.range ↔ p ∈ f.node.range
  rw [Flow.node_redraw]
  exact h.mem_iff hp (Flow.node_ends_subset hf)

theorem KeepsOrder.mem_mediator_iff (h : e.KeepsOrder S) (hp : p ∈ S) {m : Mediator τ (Flow τ)}
    (hm : m.Within S) :
    e.position p ∈ Flow.redrawMediator e m ↔ p ∈ m := by
  show e.position p ∈ (Flow.redrawMediator e m).node.range ↔ p ∈ m.node.range
  rw [Flow.node_redrawMediator]
  exact h.mem_iff hp hm.node

end Redrawing

theorem find?_map_of_forall {α β : Type} {g : α → β} {P : α → Bool} {Q : β → Bool} {l : List α}
    (h : ∀ a ∈ l, Q (g a) = P a) :
    (l.map g).find? Q = (l.find? P).map g := by
  rw [List.find?_map]
  exact congrArg _ (List.find?_congr h)

theorem filter_map_of_forall {α β : Type} {g : α → β} {P : α → Bool} {Q : β → Bool} {l : List α}
    (h : ∀ a ∈ l, Q (g a) = P a) :
    (l.map g).filter Q = (l.filter P).map g := by
  rw [List.filter_map]
  exact congrArg _ (List.filter_congr h)

/-! The place where a scan ends. -/

/-- A place, redrawn. -/
def Place.redraw (e : Redrawing τ σ) (x : Place τ) : Place σ :=
  ⟨Flow.redrawMediator e x.mediator, x.next.map e.position⟩

namespace Stepper

/-- The stepper at the position that its own one goes to. -/
def redraw (e : Redrawing τ σ) (r : Stepper) : Stepper := ⟨r.settings, e.position r.position⟩

variable {r : Stepper} {after : Option Position}

theorem branchAt?_redraw (h : e.KeepsOrder S) (hr : r.position ∈ S) {m : Mediator τ (Flow τ)}
    (hm : m.Within S) :
    (r.redraw e).branchAt? (Flow.redrawMediator e m) = (r.branchAt? m).map (Flow.redraw e) := by
  rw [branchAt?_eq, branchAt?_eq, Flow.branches_redrawMediator, Flow.node_redrawMediator,
    apply_ite (Option.map _)]
  refine ite_congr (propext (h.mem_startTag_iff hr hm.node)) (fun _ => rfl) fun _ => ?_
  exact find?_map_of_forall fun c hc => decide_eq_decide.mpr (h.mem_flow_iff hr (hm.branches c hc))

theorem head?_map_redraw (ms : List (Mediator τ (Flow τ))) :
    ((ms.map (Flow.redrawMediator e)).head?.map (·.head)) =
      (ms.head?.map (·.head)).map e.position := by
  cases ms with
  | nil => rfl
  | cons m rest => exact congrArg some (Flow.head_redrawMediator e m)

/-- In the redrawn row the scan ends at the redrawn place. -/
theorem landing?_redraw (h : e.KeepsOrder S) (hr : r.position ∈ S) (after : Option Position)
    {ms : List (Mediator τ (Flow τ))} (hms : ∀ m ∈ ms, m.Within S) :
    (r.redraw e).landing? (after.map e.position) (ms.map (Flow.redrawMediator e)) =
      (r.landing? after ms).map (Place.redraw e) := by
  induction ms using Flow.mediators_induct generalizing after with
  | nil => rw [List.map_nil, landing?_nil, landing?_nil, Option.map_none]
  | cons m rest hbranch ih =>
      have hm := hms m List.mem_cons_self
      rw [List.map_cons]
      by_cases hp : r.position ∈ m
      · have hp' : (r.redraw e).position ∈ Flow.redrawMediator e m :=
          (h.mem_mediator_iff hr hm).mpr hp
        rw [landing?_of_mem _ hp', landing?_of_mem _ hp, head?_map_redraw, ← Option.map_or,
          Option.map_some]
        generalize (rest.head?.map (·.head)).or after = next
        rw [landingIn, landingIn, branchAt?_redraw h hr hm]
        cases hat : r.branchAt? m with
        | none => rfl
        | some c =>
            have hc := mem_branches_of_branchAt? hat
            have hwithin (m') (hm' : m' ∈ c.mediators) := Flow.mediator_within (hm.branches c hc) hm'
            rw [Option.map_some, Option.bind_some, Option.bind_some, Flow.mediators_redraw,
              hbranch c hc next hwithin]
            cases r.landing? next c.mediators <;> rfl
      · have hp' : (r.redraw e).position ∉ Flow.redrawMediator e m :=
          (h.mem_mediator_iff hr hm).not.mpr hp
        rw [landing?_of_not_mem _ hp', landing?_of_not_mem _ hp,
          ih after fun m' hm' => hms m' (List.mem_cons_of_mem _ hm')]

theorem within_of_landing? {ms : List (Mediator τ (Flow τ))} (hms : ∀ m ∈ ms, m.Within S)
    {x : Place τ} (hx : r.landing? after ms = some x) :
    x.mediator.Within S :=
  landing?_induct (fun _ hm c hc _ hm' => Flow.mediator_within (hm.branches c hc) hm') hms hx

theorem slotHeads_map_redraw (slots : List (Option (Flow τ))) :
    slotHeads (slots.map (·.map (Flow.redraw e))) = (slotHeads slots).map e.position := by
  rw [slotHeads, slotHeads, List.filterMap_map, List.map_filterMap]
  refine List.filterMap_congr fun slot _ => ?_
  cases slot with
  | none => rfl
  | some c => exact Flow.head?_redraw e c

theorem settles_map_redraw {slots : List (Option (Flow τ))} :
    (r.redraw e).Settles (slots.map (·.map (Flow.redraw e))) ↔ r.Settles slots := by
  rw [Settles, Settles, slotHeads_map_redraw, List.length_map, List.length_map, ne_eq,
    List.map_eq_nil_iff]
  rfl

end Stepper

namespace Place

variable {settings : Settings} {x : Place τ}

theorem slotsFrom_redraw (h : e.KeepsOrder S) (hp : p ∈ S) (hx : x.mediator.Within S) :
    (x.redraw e).slotsFrom settings (e.position p) =
      (x.slotsFrom settings p).map (·.map (Flow.redraw e)) := by
  rw [slotsFrom, slotsFrom, apply_ite (List.map _), redraw, Flow.branches_redrawMediator,
    Flow.node_redrawMediator, Flow.slots?_redrawMediator]
  have hout : (∀ c ∈ x.mediator.branches.map (Flow.redraw e), e.position p ∉ c) ↔
      ∀ c ∈ x.mediator.branches, p ∉ c := by
    rw [List.forall_mem_map]
    exact forall₂_congr fun c hc => (h.mem_flow_iff hp (hx.branches c hc)).not
  refine ite_congr (propext ?_) (fun _ => ?_) fun _ => rfl
  · exact or_congr (h.mem_startTag_iff hp hx.node) (and_congr_right' hout)
  · cases x.mediator.kind.slots? <;> rfl

/-- What is armed at a place is redrawn with it. -/
theorem targets_redraw (h : e.KeepsOrder S) (hp : p ∈ S) (hx : x.mediator.Within S) :
    (x.redraw e).targets settings (e.position p) = (x.targets settings p).map e.position := by
  rw [targets, targets, slotsFrom_redraw h hp hx, Stepper.slotHeads_map_redraw, List.map_append]
  refine congrArg₂ _ rfl ?_
  rw [apply_ite (List.map _)]
  refine ite_congr (propext (Stepper.settles_map_redraw (r := ⟨settings, p⟩))) (fun _ => rfl)
    fun _ => ?_
  show (x.next.map e.position).toList = _
  cases x.next <;> rfl

end Place

/-! The flows that a position steps through. -/

namespace Sequences

variable {s : Sequences τ}

theorem apiFlowsAt_redraw (h : e.KeepsOrder S) (hp : p ∈ S) (hs : ∀ f ∈ s.toList, f.ends ⊆ S) :
    (s.redraw e).apiFlowsAt (e.position p) = (s.apiFlowsAt p).map (Flow.redraw e) := by
  rw [apiFlowsAt, apiFlowsAt, toList_redraw, ← Option.toList_map]
  refine congrArg _ (find?_map_of_forall fun f hf => ?_)
  exact decide_eq_decide.mpr (h.mem_flow_iff hp (hs f hf))

theorem proxyFlowsAt_redraw (h : e.KeepsOrder S) (hp : p ∈ S) (hs : ∀ f ∈ s.toList, f.ends ⊆ S) :
    (s.redraw e).proxyFlowsAt (e.position p) = (s.proxyFlowsAt p).map (Flow.redraw e) := by
  have hmem {f : Flow τ} (hf : f ∈ s.toList) :
      decide (e.position p ∈ f.redraw e) = decide (p ∈ f) :=
    decide_eq_decide.mpr (h.mem_flow_iff hp (hs f hf))
  have hany {flow : Option (Flow τ)} (hflow : ∀ f ∈ flow, f ∈ s.toList) :
      (flow.map (Flow.redraw e)).any (e.position p ∈ ·) = flow.any (p ∈ ·) := by
    cases flow with
    | none => rfl
    | some f => exact hmem (hflow f rfl)
  have hin (f) (hf : f ∈ s.inSequence) : f ∈ s.toList := by simp [toList, Option.mem_def.mp hf]
  have hout (f) (hf : f ∈ s.outSequence) : f ∈ s.toList := by simp [toList, Option.mem_def.mp hf]
  have hfault (f) (hf : f ∈ s.faultSequence) : f ∈ s.toList := by
    simp [toList, Option.mem_def.mp hf]
  rw [proxyFlowsAt, proxyFlowsAt, apply_ite (List.map _), redraw, hany hin, hany hout,
    List.map_append, Option.toList_map, Option.toList_map, Option.toList_map]
  refine ite_congr rfl (fun _ => rfl) fun _ => ?_
  exact filter_map_of_forall fun f hf => hmem (hfault f (Option.mem_toList.mp hf))

end Sequences

namespace Artifact

variable {a : Artifact τ}

theorem ends_subset_of_mem_rootFlows {f : Flow τ} (hf : f ∈ a.rootFlows) : f.ends ⊆ a.ends :=
  fun _ hq => List.mem_append_right _ (List.mem_flatMap.mpr ⟨f, hf, hq⟩)

theorem flowsAt_redraw (h : e.KeepsOrder S) (hp : p ∈ S) (ha : a.ends ⊆ S) :
    (a.redraw e).flowsAt (e.position p) = (a.flowsAt p).map (Flow.redraw e) := by
  have hroots (f) (hf : f ∈ a.rootFlows) : f.ends ⊆ S := fun _ hq =>
    ha (ends_subset_of_mem_rootFlows hf hq)
  have hfilter (flow : Option (Flow τ)) (hflow : ∀ f ∈ flow.toList, f.ends ⊆ S) :
      (flow.map (Flow.redraw e)).toList.filter (e.position p ∈ ·) =
        (flow.toList.filter (p ∈ ·)).map (Flow.redraw e) := by
    rw [Option.toList_map]
    exact filter_map_of_forall fun f hf => decide_eq_decide.mpr (h.mem_flow_iff hp (hflow f hf))
  cases a with
  | api name node resources =>
      have hnodes (r) (hr : r ∈ resources) : r.node.range.ends ⊆ S := fun _ hq =>
        ha (List.mem_append_left _ (List.mem_flatMap.mpr ⟨r, hr, hq⟩))
      have hfind : (resources.map (·.redraw e)).find? (e.position p ∈ ·.node.range) =
          (resources.find? (p ∈ ·.node.range)).map (·.redraw e) :=
        find?_map_of_forall fun r hr => decide_eq_decide.mpr (h.mem_iff hp (hnodes r hr))
      rw [redraw, flowsAt, flowsAt, hfind]
      cases hr : resources.find? (p ∈ ·.node.range) with
      | none => rfl
      | some r =>
          have hr := List.mem_of_find?_eq_some hr
          exact Sequences.apiFlowsAt_redraw h hp fun f hf =>
            hroots f (List.mem_flatMap.mpr ⟨r, hr, hf⟩)
  | proxy name node target =>
      cases target with
      | none => rfl
      | some t =>
          rw [redraw, flowsAt, flowsAt, Option.map_some, Option.toList_some, Option.toList_some,
            List.flatMap_singleton, List.flatMap_singleton]
          exact Sequences.proxyFlowsAt_redraw h hp fun f hf =>
            hroots f (List.mem_flatMap.mpr ⟨t, List.mem_singleton_self t, hf⟩)
  | sequence name body => exact hfilter (some body) hroots
  | template name node body => exact hfilter body hroots

/-- A redrawing that keeps the order of the position and of the ends of tags takes what is armed to
what is armed in the redrawn artifact. -/
theorem stepOver_redraw_of_keepsOrder (h : e.KeepsOrder (p :: a.ends)) (settings : Settings) :
    (a.redraw e).stepOver settings (e.position p) = (a.stepOver settings p).map e.position := by
  have hp : p ∈ p :: a.ends := List.mem_cons_self
  have hends : a.ends ⊆ p :: a.ends := List.subset_cons_self _ _
  have hrow : ((a.flowsAt p).map (Flow.redraw e)).flatMap (·.mediators) =
      ((a.flowsAt p).flatMap (·.mediators)).map (Flow.redrawMediator e) := by
    simp only [List.flatMap_map, List.map_flatMap, Flow.mediators_redraw]
  have hwithin : ∀ m ∈ (a.flowsAt p).flatMap (·.mediators), m.Within (p :: a.ends) := by
    intro m hm
    obtain ⟨f, hf, hm⟩ := List.mem_flatMap.mp hm
    have hroot := ends_subset_of_mem_rootFlows (mem_rootFlows_of_mem_flowsAt hf)
    exact Flow.mediator_within (fun _ hq => hends (hroot hq)) hm
  have hlanding : Stepper.landing? ⟨settings, e.position p⟩ none _ = _ :=
    Stepper.landing?_redraw (r := ⟨settings, p⟩) h hp none hwithin
  rw [stepOver, stepOver, flowsAt_redraw h hp hends, Stepper.resolve_eq_landing,
    Stepper.resolve_eq_landing, hrow, hlanding]
  cases hx : Stepper.landing? ⟨settings, p⟩ none ((a.flowsAt p).flatMap (·.mediators)) with
  | none => rfl
  | some x => exact Place.targets_redraw h hp (Stepper.within_of_landing? hwithin hx)

/-- Only the order of positions matters. A redrawing that keeps the order of the breakpoint and of the
ends of tags, whatever it makes of tags, names, regexes and uri templates, takes what is armed to what
is armed in the redrawn artifact, head by head. In particular the lines may be moved apart or closer.
And artifacts of one outline are stepped over alike, whatever their tags and texts are. -/
theorem stepOver_redraw (a : Artifact τ) (settings : Settings) (p : Position) :
    (∀ (σ : Type) (e : Redrawing τ σ), e.KeepsOrder (p :: a.ends) →
      (a.redraw e).stepOver settings (e.position p) = (a.stepOver settings p).map e.position) ∧
    (∀ lines : UInt32 → UInt32,
      (∀ q ∈ p :: a.ends, ∀ r ∈ p :: a.ends, q.line < r.line → lines q.line < lines r.line) →
      (a.redraw (.moveLines lines)).stepOver settings ⟨lines p.line, p.column⟩ =
        (a.stepOver settings p).map fun q => ⟨lines q.line, q.column⟩) ∧
    ∀ (σ : Type) (a' : Artifact σ), a'.outline = a.outline →
      a'.stepOver settings p = a.stepOver settings p := by
  refine ⟨fun σ e h => stepOver_redraw_of_keepsOrder h settings, fun lines h => ?_, fun σ a' h => ?_⟩
  · exact stepOver_redraw_of_keepsOrder (Redrawing.keepsOrder_moveLines h) settings
  · have houtline {ρ : Type} (b : Artifact ρ) :
        b.outline.stepOver settings p = b.stepOver settings p := by
      have hkeeps : (Redrawing.forget : Redrawing ρ Unit).KeepsOrder (p :: b.ends) :=
        fun _ _ _ _ hqr => hqr
      exact (stepOver_redraw_of_keepsOrder hkeeps settings).trans (List.map_id _)
    rw [← houtline a', ← houtline a, h]

/-- Three lines come in between the log and the send of the in sequence, all moves to the right, and
tags become numbers. -/
def stretching : Redrawing String Nat where
  position q := ⟨if q.line < 5 then q.line else q.line + 3, q.column + 4⟩
  tag := String.length
  name _ := "invoices"
  regex := id
  uriTemplate _ := some "/invoices"

theorem stepOver_redraw_orders :
    stretching.KeepsOrder (⟨4, 5⟩ :: orders.ends) ∧
    (orders.redraw stretching).stepOver {} ⟨4, 9⟩ =
      (orders.stepOver {} ⟨4, 5⟩).map stretching.position ∧
    orders.stepOver {} ⟨4, 5⟩ = [⟨5, 0⟩] ∧
    (orders.redraw stretching).stepOver {} ⟨4, 9⟩ = [⟨8, 4⟩] := by
  have hkeeps : stretching.KeepsOrder (⟨4, 5⟩ :: orders.ends) := by
    simp only [ends, resources, rootFlows, orders, Sequences.toList, Flow.ends, Flow.withNested_eq,
      Flow.nested, Mediator.branches, Kind.branches, Option.toList, List.flatMap_cons,
      List.flatMap_nil, List.append_nil, List.nil_append, List.cons_append]
    decide
  have hredraw := (stepOver_redraw orders {} ⟨4, 5⟩).1 Nat stretching hkeeps
  exact ⟨hkeeps, hredraw, stepOver_orders,
    hredraw.trans (congrArg (List.map stretching.position) stepOver_orders)⟩

end Artifact

end

end Mediation
