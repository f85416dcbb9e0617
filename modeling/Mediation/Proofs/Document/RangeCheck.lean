import Mediation.Document.RangeCheck
import Mediation.Proofs.Element

/-! What the check of ranges finds. The check goes through an artifact by a recursion of its own;
what it comes to is one look at every element and at what is next around it
(`Artifact.check_eq_flatMap_lineages`). So no error is found exactly if every element is well formed,
and if nothing is found at all, a position in an element is in all that is around it. -/

namespace Mediation

namespace SourceRange

/-- No tag is inverted, and the end tag does not start before the start tag stops. -/
structure WellFormed (r : SourceRange) : Prop where
  tags : ∀ tag ∈ r.tags, ¬tag.Inverted
  startTag_le : ∀ endTag ∈ r.endTag?, r.startTag.stop ≤ endTag.start

theorem WellFormed.stop_startTag_le {r : SourceRange} (hr : r.WellFormed) :
    r.startTag.stop ≤ r.stop := by
  cases r with
  | selfClosed tag => exact Position.le_iff_rank_le.mpr (Nat.le_refl _)
  | container startTag endTag =>
      have hend := hr.tags endTag (by simp [SourceRange.tags])
      have hle := hr.startTag_le endTag rfl
      rw [TagRange.Inverted, Position.lt_iff_rank_lt] at hend
      rw [Position.le_iff_rank_le] at hle ⊢
      exact Nat.le_trans hle (Nat.le_of_not_lt hend)

theorem WellFormed.start_le_stop_startTag {r : SourceRange} (hr : r.WellFormed) :
    r.start ≤ r.startTag.stop := by
  have hstart := hr.tags r.startTag (by cases r <;> simp [SourceRange.tags, SourceRange.startTag])
  rw [TagRange.Inverted, Position.lt_iff_rank_lt] at hstart
  exact Position.le_iff_rank_le.mpr (Nat.le_of_not_lt hstart)

/-- A well-formed element holds every position of its header. -/
theorem WellFormed.mem_of_mem_startTag {r : SourceRange} (hr : r.WellFormed) {p : Position}
    (hp : p ∈ r.startTag) :
    p ∈ r := by
  have hle := hr.stop_startTag_le
  simp only [mem_iff, TagRange.mem_iff, start, Position.le_iff_rank_le] at hp hle ⊢
  omega

/-- A well-formed element holds its head. -/
theorem WellFormed.start_mem {r : SourceRange} (hr : r.WellFormed) : r.start ∈ r := by
  have hle := hr.start_le_stop_startTag
  refine hr.mem_of_mem_startTag ⟨?_, hle⟩
  exact Position.le_iff_rank_le.mpr (Nat.le_refl _)

theorem WellFormed.not_inverted_extent {r : SourceRange} (hr : r.WellFormed) :
    ¬r.extent.Inverted := by
  have hmem := hr.start_mem
  simp only [mem_iff, TagRange.Inverted, extent, Position.lt_iff_rank_lt,
    Position.le_iff_rank_le] at hmem ⊢
  omega

/-- What encloses an element holds what the element holds. -/
theorem mem_of_encloses {r s : SourceRange} (h : r.extent.Encloses s.extent) {p : Position}
    (hp : p ∈ s) :
    p ∈ r := by
  obtain ⟨hstart, hstop⟩ := h
  simp only [extent, mem_iff, Position.le_iff_rank_le] at hstart hstop hp ⊢
  omega

end SourceRange

namespace Node

theorem invertedTags_eq_nil_iff {n : Node String} :
    n.invertedTags = [] ↔ ∀ tag ∈ n.range.tags, ¬tag.Inverted := by
  simp [invertedTags]

theorem misorderedTags_eq_nil_iff {n : Node String} :
    n.misorderedTags = [] ↔ ∀ endTag ∈ n.range.endTag?, n.range.startTag.stop ≤ endTag.start := by
  rw [misorderedTags]
  cases n.range with
  | selfClosed tag => simp [SourceRange.endTag?]
  | container startTag endTag =>
      simp [SourceRange.endTag?, SourceRange.startTag, Position.lt_iff_rank_lt,
        Position.le_iff_rank_le]

/-- The check of an element on its own finds nothing exactly if the element is well formed. -/
theorem check_eq_nil_iff {n : Node String} : n.check = [] ↔ n.range.WellFormed := by
  rw [check, List.append_eq_nil_iff, invertedTags_eq_nil_iff, misorderedTags_eq_nil_iff]
  exact ⟨fun h => ⟨h.1, h.2⟩, fun h => ⟨h.1, h.2⟩⟩

theorem severity_of_mem_check {n : Node String} {f : Finding} (hf : f ∈ n.check) :
    f.severity = .error := by
  rcases List.mem_append.mp hf with hf | hf
  · obtain ⟨tag, -, rfl⟩ := List.mem_map.mp hf
    rfl
  · rw [misorderedTags] at hf
    split at hf
    next =>
        split at hf
        next => rw [List.mem_singleton.mp hf]; rfl
        next => cases hf
    next => cases hf

end Node

/-- What there is to find on an element where it stands. -/
def Lineage.check (x : Lineage String) : List Finding :=
  match x.around with
  | [] => x.node.check
  | parent :: _ => x.node.checkWithin parent

namespace Lineage

theorem mem_check_iff {x : Lineage String} {f : Finding} :
    f ∈ x.check ↔ f ∈ x.node.check ∨
      ∃ parent ∈ x.around.head?, ¬x.node.range.extent.Inverted ∧
        ¬parent.range.extent.Encloses x.node.range.extent ∧
        f = .childOutsideParent x.node parent := by
  rw [check]
  split
  next h => simp [h]
  next parent outer h =>
      rw [Node.checkWithin, List.mem_append]
      split <;> rename_i hout <;> simp [h] <;> tauto

theorem exists_error_iff {x : Lineage String} :
    (∃ f ∈ x.check, f.severity = .error) ↔ ¬x.node.range.WellFormed := by
  rw [← Node.check_eq_nil_iff]
  constructor
  · rintro ⟨f, hf, herror⟩
    rcases mem_check_iff.mp hf with hf | ⟨parent, -, -, -, rfl⟩
    · exact List.ne_nil_of_mem hf
    · cases herror
  · intro hne
    obtain ⟨f, hf⟩ := List.exists_mem_of_ne_nil _ hne
    exact ⟨f, mem_check_iff.mpr (.inl hf), Node.severity_of_mem_check hf⟩

end Lineage

/-! The recursion of the check, list by list. -/

namespace Flow

variable (parent : Node String)

theorem checkMediators_eq (ms : List (Mediator String (Flow String))) :
    checkMediators parent ms = ms.flatMap (checkMediator parent) := by
  induction ms with
  | nil => rfl
  | cons m rest ih => rw [checkMediators, ih, List.flatMap_cons]

theorem checkBranch_eq (f : Option (Flow String)) :
    checkBranch parent f = f.toList.flatMap (check parent) := by
  cases f with
  | none => rfl
  | some f => rw [checkBranch, Option.toList_some, List.flatMap_singleton]

theorem checkCases_eq (cases : List (Case (Flow String))) :
    checkCases parent cases = (cases.filterMap (·.flow)).flatMap (check parent) := by
  induction cases with
  | nil => rfl
  | cons c rest ih =>
      obtain ⟨regex, flow⟩ := c
      cases flow <;> simp [checkCases, checkCase, checkBranch_eq, ih]

theorem checkTargets_eq (targets : List (Target String (Flow String))) :
    checkTargets parent targets = targets.flatMap (checkTarget parent) := by
  induction targets with
  | nil => rfl
  | cons t rest ih => rw [checkTargets, ih, List.flatMap_cons]

theorem checkTarget?_eq (target : Option (Target String (Flow String))) :
    checkTarget? parent target = target.toList.flatMap (checkTarget parent) := by
  cases target with
  | none => rfl
  | some t => rw [checkTarget?, Option.toList_some, List.flatMap_singleton]

end Flow

namespace Element

/-- What the check finds on an element and on all that stands in it, given what is next around it. -/
def check (parent : Node String) : Element String → List Finding
  | resource r => r.node.checkWithin parent ++ r.sequences.check r.node
  | proxyTarget t => t.node.checkWithin parent ++ t.sequences.check t.node
  | flow f => f.check parent
  | mediator m => Flow.checkMediator parent m
  | target t => Flow.checkTarget parent t

theorem checkKind_eq (node : Node String) (k : Kind String (Flow String)) :
    Flow.checkKind node k = k.parts.flatMap (check node) := by
  cases k <;> simp only [Flow.checkKind, Flow.checkBranch_eq, Flow.checkCases_eq,
    Flow.checkTargets_eq, Flow.checkTarget?_eq, Kind.parts, Kind.branches, List.flatMap_map,
    List.flatMap_append, List.flatMap_nil, check]

/-- The check looks at the element itself, and then at each of its parts. -/
theorem check_eq (parent : Node String) (e : Element String) :
    e.check parent = e.node.checkWithin parent ++ e.parts.flatMap (check e.node) := by
  cases e with
  | resource r => simp only [check, Sequences.check, node, parts, List.flatMap_map]
  | proxyTarget t => simp only [check, Sequences.check, node, parts, List.flatMap_map]
  | flow f =>
      obtain ⟨node, mediators⟩ := f
      simp only [check, Flow.check, Flow.checkMediators_eq, Element.node, parts, List.flatMap_map]
  | mediator m =>
      obtain ⟨node, kind⟩ := m
      simp only [check, Flow.checkMediator, checkKind_eq, Element.node, parts]
  | target t =>
      obtain ⟨node, sequence⟩ := t
      simp only [check, Flow.checkTarget, Flow.checkBranch_eq, Element.node, parts,
        List.flatMap_map]

/-- The check of an element looks at all elements in it, each where it stands. -/
theorem check_eq_flatMap_lineages (parent : Node String) (outer : List (Node String))
    (e : Element String) :
    e.check parent = (e.lineages (parent :: outer)).flatMap Lineage.check := by
  induction e using induct generalizing parent outer with
  | hstep e ih =>
      rw [check_eq, lineages_eq, List.flatMap_cons, List.flatMap_assoc]
      refine congrArg₂ (· ++ ·) rfl (List.flatMap_congr fun part hpart => ?_)
      exact ih part hpart e.node (parent :: outer)

end Element

namespace Artifact

/-- The findings on an artifact are those on its elements, one after the other in document order. -/
theorem check_eq_flatMap_lineages (a : Artifact String) :
    a.check = a.lineages.flatMap Lineage.check := by
  have hroot : a.check = a.node.check ++ a.parts.flatMap (Element.check a.node) := by
    cases a <;> simp only [check, node, parts, List.flatMap_map, Element.check,
      Flow.checkMediators_eq]
  rw [hroot, lineages, List.flatMap_cons, List.flatMap_assoc]
  exact congrArg₂ (· ++ ·) rfl
    (List.flatMap_congr fun part _ => Element.check_eq_flatMap_lineages a.node [] part)

theorem exists_error_iff {a : Artifact String} :
    (∃ f ∈ a.check, f.severity = .error) ↔ ∃ x ∈ a.lineages, ¬x.node.range.WellFormed := by
  simp only [check_eq_flatMap_lineages, List.mem_flatMap, ← Lineage.exists_error_iff]
  exact ⟨fun ⟨f, ⟨x, hx, hf⟩, herror⟩ => ⟨x, hx, f, hf, herror⟩,
    fun ⟨x, hx, f, hf, herror⟩ => ⟨f, ⟨x, hx, hf⟩, herror⟩⟩

/-- If every element is well formed and none is found to reach out of what is next around it, then a
position in an element is in all that is around it. -/
theorem mem_around {a : Artifact String} (hwell : ∀ x ∈ a.lineages, x.node.range.WellFormed)
    (hwithin : ∀ f ∈ a.check, f.code ≠ .childOutsideParent) {x : Lineage String}
    (hx : x ∈ a.lineages) {n : Node String} (hn : n ∈ x.around) :
    ∀ p ∈ x.node.range, p ∈ n.range := by
  refine around_induct (R := fun inner outer => ∀ p ∈ inner.range, p ∈ outer.range) ?_
    (fun _ _ _ hinner houter p hp => houter p (hinner p hp)) hx hn
  intro y hy parent hparent p hp
  refine SourceRange.mem_of_encloses (Decidable.byContradiction fun hout => ?_) hp
  refine hwithin (.childOutsideParent y.node parent) ?_ rfl
  rw [check_eq_flatMap_lineages]
  refine List.mem_flatMap.mpr ⟨y, hy, Lineage.mem_check_iff.mpr (.inr ⟨parent, hparent, ?_⟩)⟩
  exact ⟨(hwell y hy).not_inverted_extent, hout, rfl⟩

end Artifact

end Mediation
