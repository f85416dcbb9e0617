import Mathlib.Data.List.Chain
import Mathlib.Tactic.MkIffOfInductiveProp
import Mediation.Artifact

/-! Properly laid out artifacts. Every tag stops no earlier than it starts, and a start tag stops
before its end tag starts; an element stands strictly between the tags of the one that holds it; the
mediators of a flow stand one after the other; and what an element holds side by side has no
position in common. The main facts are about one mediator: a position in one of its branches is in
the mediator and not on its start tag (`Mediator.LaidOut.mem_of_mem_branch`), and it is in no other
branch (`Mediator.LaidOut.branches_apart`). -/

namespace Mediation

namespace SourceRange

/-- No tag is inverted, and the start tag stops before the end tag starts. -/
@[mk_iff]
structure Proper (r : SourceRange) : Prop where
  tags : ∀ tag ∈ r.tags, ¬tag.Inverted
  startTag_lt : ∀ endTag ∈ r.endTag?, r.startTag.stop < endTag.start

/-- The inner element stands strictly between the tags of the outer one. A self-closed element holds
nothing. -/
def Holds (outer inner : SourceRange) : Prop :=
  ∃ endTag ∈ outer.endTag?, outer.startTag.stop < inner.start ∧ inner.stop < endTag.start

/-- The elements have no position in common. -/
def Apart (r s : SourceRange) : Prop := ∀ p, p ∈ r → p ∉ s

/-- The first element stops before the second starts. -/
def Before (r s : SourceRange) : Prop := r.stop < s.start

/-- Elements have a position in common unless one of them is before the other or is inverted. -/
theorem apart_iff {r s : SourceRange} :
    r.Apart s ↔ r.Before s ∨ s.Before r ∨ r.stop < r.start ∨ s.stop < s.start := by
  simp only [Apart, Before, mem_iff, Position.lt_iff_rank_lt, Position.le_iff_rank_le]
  constructor
  · intro h
    have hr := h r.start
    have hs := h s.start
    omega
  · intro h p hr hs
    omega

instance (r : SourceRange) : Decidable r.Proper := decidable_of_iff' _ (proper_iff r)

instance (outer inner : SourceRange) : Decidable (outer.Holds inner) :=
  inferInstanceAs (Decidable (∃ endTag ∈ outer.endTag?, _ ∧ _))

instance (r s : SourceRange) : Decidable (r.Before s) :=
  inferInstanceAs (Decidable (r.stop < s.start))

instance (r s : SourceRange) : Decidable (r.Apart s) := decidable_of_iff' _ apart_iff

theorem Proper.start_le_stop {r : SourceRange} (hr : r.Proper) : r.start ≤ r.stop := by
  cases r with
  | selfClosed tag =>
      have htag := hr.tags tag (by simp [SourceRange.tags])
      rw [TagRange.Inverted, Position.lt_iff_rank_lt] at htag
      exact Position.le_iff_rank_le.mpr (Nat.le_of_not_lt htag)
  | container startTag endTag =>
      have hs := hr.tags startTag (by simp [SourceRange.tags])
      have he := hr.tags endTag (by simp [SourceRange.tags])
      have hlt := hr.startTag_lt endTag (by simp [endTag?])
      simp only [TagRange.Inverted, Position.lt_iff_rank_lt, SourceRange.startTag] at hs he hlt
      show startTag.start ≤ endTag.stop
      rw [Position.le_iff_rank_le]
      omega

theorem Holds.mem {outer inner : SourceRange} (ho : outer.Proper) (h : outer.Holds inner)
    {p : Position} (hp : p ∈ inner) :
    p ∈ outer ∧ p ∉ outer.startTag := by
  cases outer with
  | selfClosed tag =>
      obtain ⟨_, hend, -⟩ := h
      cases hend
  | container startTag endTag =>
      obtain ⟨_, hend, hstart, hstop⟩ := h
      cases hend
      have hs := ho.tags startTag (by simp [SourceRange.tags])
      have he := ho.tags endTag (by simp [SourceRange.tags])
      simp only [mem_iff, TagRange.mem_iff, TagRange.Inverted, Position.lt_iff_rank_lt,
        Position.le_iff_rank_le, start, stop, SourceRange.startTag] at hp hs he hstart hstop ⊢
      omega

theorem Before.not_mem {r s : SourceRange} (h : r.Before s) {p : Position} (hp : p ∈ s) :
    p ∉ r := by
  intro hr
  simp only [Before, mem_iff, Position.lt_iff_rank_lt, Position.le_iff_rank_le] at h hp hr
  omega

theorem Before.trans {r s t : SourceRange} (hs : s.Proper) (hrs : r.Before s) (hst : s.Before t) :
    r.Before t := by
  have hle := hs.start_le_stop
  simp only [Before, Position.lt_iff_rank_lt, Position.le_iff_rank_le] at hrs hst hle ⊢
  omega

end SourceRange

namespace Kind

variable {τ φ : Type}

/-- The fan-out targets of the kind. -/
def targets : Kind τ φ → List (Target τ φ)
  | iterate target => target.toList
  | clone targets | scatterGather targets => targets
  | _ => []

/-- The elements directly within a mediator of this kind: its targets if it fans out, its branches
otherwise. -/
def elements : Kind τ (Flow τ) → List (Node τ)
  | iterate target => target.toList.map (·.node)
  | clone targets | scatterGather targets => targets.map (·.node)
  | kind => kind.branches.map (·.node)

/-- A branch is directly within the mediator, or it is the sequence of a target. -/
theorem elements_branches_cases (k : Kind τ (Flow τ)) :
    k.elements = k.branches.map (·.node) ∨
      k.elements = k.targets.map (·.node) ∧ k.branches = k.targets.filterMap (·.sequence) := by
  cases k with
  | iterate | clone | scatterGather => exact .inr ⟨rfl, rfl⟩
  | _ => exact .inl rfl

end Kind

/-- The mediator and what it holds directly are properly laid out. -/
@[mk_iff]
structure Mediator.LaidOut {τ : Type} (m : Mediator τ (Flow τ)) : Prop where
  proper : m.node.range.Proper
  holds : ∀ n ∈ m.kind.elements, m.node.range.Holds n.range
  apart : m.kind.elements.Pairwise fun n n' => n.range.Apart n'.range
  targets_proper : ∀ t ∈ m.kind.targets, t.node.range.Proper
  targets_hold : ∀ t ∈ m.kind.targets, ∀ f ∈ t.sequence, t.node.range.Holds f.node.range

instance {τ : Type} (m : Mediator τ (Flow τ)) : Decidable m.LaidOut :=
  decidable_of_iff' _ (Mediator.laidOut_iff m)

namespace Flow

variable {τ : Type}

/-- The flow and its own mediators are properly laid out. -/
@[mk_iff]
structure RowLaidOut (f : Flow τ) : Prop where
  proper : f.node.range.Proper
  holds : ∀ m ∈ f.mediators, f.node.range.Holds m.node.range
  ordered : f.mediators.IsChain fun m m' => m.node.range.Before m'.node.range
  mediators : ∀ m ∈ f.mediators, m.LaidOut

/-- The flow is properly laid out at every depth. -/
def LaidOut (f : Flow τ) : Prop := ∀ g ∈ f.withNested, g.RowLaidOut

instance (f : Flow τ) : Decidable f.RowLaidOut := decidable_of_iff' _ (rowLaidOut_iff f)

instance (f : Flow τ) : Decidable f.LaidOut :=
  inferInstanceAs (Decidable (∀ g ∈ f.withNested, g.RowLaidOut))

end Flow

/-- The sequences stand apart in the element that holds them, and each is properly laid out. -/
@[mk_iff]
structure Sequences.LaidOut {τ : Type} (s : Sequences τ) (outer : SourceRange) : Prop where
  holds : ∀ f ∈ s.toList, outer.Holds f.node.range
  apart : s.toList.Pairwise fun f f' => f.node.range.Apart f'.node.range
  flows : ∀ f ∈ s.toList, f.LaidOut

instance {τ : Type} (s : Sequences τ) (outer : SourceRange) : Decidable (s.LaidOut outer) :=
  decidable_of_iff' _ (Sequences.laidOut_iff s outer)

/-- The artifact is properly laid out at every depth. -/
def Artifact.LaidOut {τ : Type} : Artifact τ → Prop
  | api _ node resources =>
      node.range.Proper ∧ (∀ r ∈ resources, node.range.Holds r.node.range) ∧
        (resources.Pairwise fun r r' => r.node.range.Apart r'.node.range) ∧
        ∀ r ∈ resources, r.node.range.Proper ∧ r.sequences.LaidOut r.node.range
  | proxy _ node target =>
      node.range.Proper ∧ ∀ t ∈ target, node.range.Holds t.node.range ∧ t.node.range.Proper ∧
        t.sequences.LaidOut t.node.range
  | sequence _ body => body.LaidOut
  | template _ node body =>
      node.range.Proper ∧ ∀ f ∈ body, node.range.Holds f.node.range ∧ f.LaidOut

instance {τ : Type} : (a : Artifact τ) → Decidable a.LaidOut
  | .api .. => inferInstanceAs (Decidable (_ ∧ _ ∧ _ ∧ _))
  | .proxy .. => inferInstanceAs (Decidable (_ ∧ _))
  | .sequence _ body => inferInstanceAs (Decidable body.LaidOut)
  | .template .. => inferInstanceAs (Decidable (_ ∧ _))

/-! What follows for one mediator and its branches. -/

namespace Mediator

variable {τ : Type} {m : Mediator τ (Flow τ)}

theorem LaidOut.mem_of_mem_branch (hm : m.LaidOut) {c : Flow τ} (hc : c ∈ m.branches)
    {p : Position} (hp : p ∈ c) :
    p ∈ m ∧ p ∉ m.node.range.startTag := by
  rcases m.kind.elements_branches_cases with helements | ⟨helements, hbranches⟩
  · have hmem : c.node ∈ m.kind.elements := helements ▸ List.mem_map_of_mem hc
    exact (hm.holds c.node hmem).mem hm.proper hp
  · have hmem : c ∈ m.kind.targets.filterMap (·.sequence) := hbranches ▸ hc
    obtain ⟨t, ht, hseq⟩ := List.mem_filterMap.mp hmem
    have hpt := ((hm.targets_hold t ht c hseq).mem (hm.targets_proper t ht) hp).1
    have hnode : t.node ∈ m.kind.elements := helements ▸ List.mem_map_of_mem ht
    exact (hm.holds t.node hnode).mem hm.proper hpt

theorem LaidOut.branches_apart (hm : m.LaidOut) :
    m.branches.Pairwise fun c c' => c.node.range.Apart c'.node.range := by
  have hapart := hm.apart
  rcases m.kind.elements_branches_cases with helements | ⟨helements, hbranches⟩
  · rw [helements, List.pairwise_map] at hapart
    exact hapart
  · rw [helements, List.pairwise_map] at hapart
    rw [branches, hbranches, List.pairwise_filterMap]
    refine hapart.imp_of_mem fun {t t'} ht ht' htt' c hc c' hc' p hp hp' => ?_
    have hpt := ((hm.targets_hold t ht c hc).mem (hm.targets_proper t ht) hp).1
    have hpt' := ((hm.targets_hold t' ht' c' hc').mem (hm.targets_proper t' ht') hp').1
    exact htt' p hpt hpt'

end Mediator

/-! What follows for flows. -/

namespace Flow

variable {τ : Type} {f : Flow τ}

theorem mem_withNested_self (f : Flow τ) : f ∈ f.withNested := by
  rw [withNested_eq]
  exact List.mem_cons_self

theorem mem_withNested_of_mem_branches {m : Mediator τ (Flow τ)} (hm : m ∈ f.mediators)
    {c g : Flow τ} (hc : c ∈ m.branches) (hg : g ∈ c.withNested) :
    g ∈ f.withNested := by
  rw [withNested_eq]
  have hnested : c ∈ f.nested := List.mem_flatMap.mpr ⟨m, hm, hc⟩
  exact List.mem_cons_of_mem _ (List.mem_flatMap.mpr ⟨c, hnested, hg⟩)

theorem LaidOut.row (hf : f.LaidOut) : f.RowLaidOut := hf f f.mem_withNested_self

theorem LaidOut.branch (hf : f.LaidOut) {m : Mediator τ (Flow τ)} (hm : m ∈ f.mediators)
    {c : Flow τ} (hc : c ∈ m.branches) :
    c.LaidOut :=
  fun g hg => hf g (mem_withNested_of_mem_branches hm hc hg)

theorem RowLaidOut.pairwise (hf : f.RowLaidOut) :
    f.mediators.Pairwise fun m m' => m.node.range.Before m'.node.range := by
  have hproper : ∀ m ∈ f.mediators, m.node.range.Proper := fun m hm => (hf.mediators m hm).proper
  have hordered := hf.ordered
  generalize f.mediators = ms at hproper hordered
  induction ms with
  | nil => exact .nil
  | cons m rest ih =>
      have hrest := ih (fun m' hm' => hproper m' (List.mem_cons_of_mem _ hm')) hordered.tail
      refine List.pairwise_cons.mpr ⟨fun m' hm' => ?_, hrest⟩
      cases rest with
      | nil => cases hm'
      | cons next rest =>
          have hnext : m.node.range.Before next.node.range := hordered.rel
          rcases List.mem_cons.mp hm' with rfl | hm'
          · exact hnext
          · have hlater := (List.pairwise_cons.mp hrest).1 m' hm'
            exact .trans (hproper next (by simp)) hnext hlater

theorem RowLaidOut.mem_of_mem (hf : f.RowLaidOut) {m : Mediator τ (Flow τ)} (hm : m ∈ f.mediators)
    {p : Position} (hp : p ∈ m) :
    p ∈ f :=
  ((hf.holds m hm).mem hf.proper hp).1

end Flow

end Mediation
