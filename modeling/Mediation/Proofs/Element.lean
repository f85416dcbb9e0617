import Mediation.Proofs.Layout.Basic

/-! The elements of an artifact as one tree. What stands directly in an element are its parts
(`Element.parts`), and from them alone comes the list of all elements in document order, each with
the elements around it (`Artifact.lineages`). An element that is not the root of the artifact stands
in the element next around it, which is in the list with what is around it in turn
(`Artifact.exists_parent`); so what holds of every step from an element to the one around it can be
carried all the way out (`Artifact.around_induct`). -/

namespace Mediation

/-- An element of one tag, on a line of its own. -/
def Node.onLine (tag : String) (line : UInt32) : Node String :=
  ⟨tag, .selfClosed ⟨⟨line, 0⟩, ⟨line, 9⟩⟩⟩

/-- An element with its tags on two lines. -/
def Node.onLines (tag : String) (first last : UInt32) : Node String :=
  ⟨tag, .container ⟨⟨first, 0⟩, ⟨first, 9⟩⟩ ⟨⟨last, 0⟩, ⟨last, 9⟩⟩⟩

/-- An element below the root of an artifact. -/
inductive Element (τ : Type) where
  | resource (r : Resource τ)
  | proxyTarget (t : ProxyTarget τ)
  | flow (f : Flow τ)
  | mediator (m : Mediator τ (Flow τ))
  | target (t : Target τ (Flow τ))

/-- Where an element stands: its own node, and the nodes around it from the nearest one to the root.
-/
structure Lineage (τ : Type) where
  node : Node τ
  around : List (Node τ)
  deriving DecidableEq

theorem Sequences.sizeOf_lt_of_mem_toList {τ : Type} {s : Sequences τ} {f : Flow τ}
    (hf : f ∈ s.toList) :
    sizeOf f < sizeOf s := by
  obtain ⟨inSequence, outSequence, faultSequence⟩ := s
  simp only [toList, List.mem_append, Option.mem_toList] at hf
  rcases hf with (rfl | rfl) | rfl <;> simp +arith

namespace Kind

variable {τ : Type}

/-- What stands directly in a mediator of this kind: its targets if it fans out, its branches
otherwise. -/
def parts : Kind τ (Flow τ) → List (Element τ)
  | iterate target => target.toList.map .target
  | clone targets | scatterGather targets => targets.map .target
  | kind => kind.branches.map .flow

theorem mem_parts_cases {k : Kind τ (Flow τ)} {part : Element τ} (hpart : part ∈ k.parts) :
    (∃ t ∈ k.targets, part = .target t) ∨ ∃ c ∈ k.branches, part = .flow c := by
  cases k with
  | iterate | clone | scatterGather =>
      obtain ⟨t, ht, rfl⟩ := List.mem_map.mp hpart
      exact .inl ⟨t, ht, rfl⟩
  | _ =>
      obtain ⟨c, hc, rfl⟩ := List.mem_map.mp hpart
      exact .inr ⟨c, hc, rfl⟩

theorem sizeOf_lt_of_mem_targets {k : Kind τ (Flow τ)} {t : Target τ (Flow τ)}
    (ht : t ∈ k.targets) :
    sizeOf t < sizeOf k := by
  cases k with
  | iterate target =>
      simp only [targets, Option.mem_toList] at ht
      subst ht
      simp +arith
  | clone targets | scatterGather targets =>
      have hlt : sizeOf t < sizeOf targets := List.sizeOf_lt_of_mem ht
      simp
      omega
  | _ => cases ht

end Kind

namespace Element

variable {τ : Type}

def node : Element τ → Node τ
  | resource r => r.node
  | proxyTarget t => t.node
  | flow f => f.node
  | mediator m => m.node
  | target t => t.node

/-- What stands directly in the element, in document order. -/
def parts : Element τ → List (Element τ)
  | resource r => r.sequences.toList.map flow
  | proxyTarget t => t.sequences.toList.map flow
  | flow f => f.mediators.map mediator
  | mediator m => m.kind.parts
  | target t => t.sequence.toList.map flow

theorem sizeOf_lt_of_mem_parts {e part : Element τ} (hpart : part ∈ e.parts) :
    sizeOf part < sizeOf e := by
  cases e with
  | resource r =>
      obtain ⟨f, hf, rfl⟩ := List.mem_map.mp hpart
      have hlt := Sequences.sizeOf_lt_of_mem_toList hf
      obtain ⟨node, uriTemplate, sequences⟩ := r
      simp at hlt ⊢
      omega
  | proxyTarget t =>
      obtain ⟨f, hf, rfl⟩ := List.mem_map.mp hpart
      have hlt := Sequences.sizeOf_lt_of_mem_toList hf
      obtain ⟨node, sequences⟩ := t
      simp at hlt ⊢
      omega
  | flow f =>
      obtain ⟨m, hm, rfl⟩ := List.mem_map.mp hpart
      have hlt := List.sizeOf_lt_of_mem hm
      have hmediators := f.sizeOf_mediators_lt
      simp
      omega
  | mediator m =>
      obtain ⟨node, kind⟩ := m
      rcases Kind.mem_parts_cases hpart with ⟨t, ht, rfl⟩ | ⟨c, hc, rfl⟩
      · have hlt : sizeOf t < sizeOf kind := Kind.sizeOf_lt_of_mem_targets ht
        simp
        omega
      · have hlt : sizeOf c < sizeOf kind := Kind.sizeOf_lt_of_mem_branches hc
        simp
        omega
  | target t =>
      obtain ⟨f, hf, rfl⟩ := List.mem_map.mp hpart
      obtain ⟨node, sequence⟩ := t
      simp only [Option.mem_toList] at hf
      subst hf
      simp +arith

/-- The element and all that stands in it at any depth, in document order, given what is around it.
-/
def lineages (around : List (Node τ)) (e : Element τ) : List (Lineage τ) :=
  ⟨e.node, around⟩ :: e.parts.attach.flatMap fun ⟨part, _⟩ => part.lineages (e.node :: around)
termination_by e
decreasing_by exact sizeOf_lt_of_mem_parts ‹_›

theorem lineages_eq (around : List (Node τ)) (e : Element τ) :
    e.lineages around = ⟨e.node, around⟩ :: e.parts.flatMap (lineages (e.node :: around)) := by
  rw [lineages, List.flatMap_subtype (fun _ _ => rfl), List.unattach_attach]

theorem mem_lineages_self (around : List (Node τ)) (e : Element τ) :
    ⟨e.node, around⟩ ∈ e.lineages around := by
  rw [lineages_eq]
  exact List.mem_cons_self

theorem mem_lineages_of_part {around : List (Node τ)} {e part : Element τ} (hpart : part ∈ e.parts)
    {x : Lineage τ} (hx : x ∈ part.lineages (e.node :: around)) :
    x ∈ e.lineages around := by
  rw [lineages_eq]
  exact List.mem_cons_of_mem _ (List.mem_flatMap.mpr ⟨part, hpart, hx⟩)

/-- Induction over an element and what stands in it. -/
theorem induct {P : Element τ → Prop} (hstep : ∀ e : Element τ, (∀ part ∈ e.parts, P part) → P e)
    (e : Element τ) :
    P e :=
  hstep e fun part _ => induct hstep part
termination_by e
decreasing_by exact sizeOf_lt_of_mem_parts ‹_›

theorem exists_parent {e : Element τ} {around : List (Node τ)} {x : Lineage τ}
    (hx : x ∈ e.lineages around) :
    x = ⟨e.node, around⟩ ∨ ∃ y ∈ e.lineages around, x.around = y.node :: y.around := by
  induction e using induct generalizing around with
  | hstep e ih =>
      rw [lineages_eq] at hx ⊢
      rcases List.mem_cons.mp hx with rfl | hx
      · exact .inl rfl
      · obtain ⟨part, hpart, hx⟩ := List.mem_flatMap.mp hx
        refine .inr ?_
        rcases ih part hpart hx with rfl | ⟨y, hy, hxy⟩
        · exact ⟨⟨e.node, around⟩, List.mem_cons_self, rfl⟩
        · exact ⟨y, List.mem_cons_of_mem _ (List.mem_flatMap.mpr ⟨part, hpart, hy⟩), hxy⟩

end Element

namespace Artifact

variable {τ : Type}

/-- The root of the artifact. That of a named sequence is its body. -/
def node : Artifact τ → Node τ
  | api _ node _ | proxy _ node _ | template _ node _ => node
  | sequence _ body => body.node

/-- What stands directly in the root. -/
def parts : Artifact τ → List (Element τ)
  | api _ _ resources => resources.map .resource
  | proxy _ _ target => target.toList.map .proxyTarget
  | sequence _ body => body.mediators.map .mediator
  | template _ _ body => body.toList.map .flow

/-- All elements of the artifact, in document order. -/
def lineages (a : Artifact τ) : List (Lineage τ) :=
  ⟨a.node, []⟩ :: a.parts.flatMap (Element.lineages [a.node])

theorem mem_lineages_of_part {a : Artifact τ} {part : Element τ} (hpart : part ∈ a.parts)
    {x : Lineage τ} (hx : x ∈ part.lineages [a.node]) :
    x ∈ a.lineages :=
  List.mem_cons_of_mem _ (List.mem_flatMap.mpr ⟨part, hpart, hx⟩)

/-- A mediator of a root flow is an element of the artifact, and the flow is next around it. -/
theorem exists_mem_lineages {a : Artifact τ} {f : Flow τ} (hf : f ∈ a.rootFlows)
    {m : Mediator τ (Flow τ)} (hm : m ∈ f.mediators) :
    ∃ around, ⟨m.node, f.node :: around⟩ ∈ a.lineages := by
  have hflow (around : List (Node τ)) :
      ⟨m.node, f.node :: around⟩ ∈ (Element.flow f).lineages around := by
    have hpart : .mediator m ∈ (Element.flow f).parts := List.mem_map_of_mem hm
    exact Element.mem_lineages_of_part hpart (Element.mem_lineages_self _ _)
  cases a with
  | api name node resources =>
      obtain ⟨r, hr, hf⟩ := List.mem_flatMap.mp hf
      have hpart : .flow f ∈ (Element.resource r).parts := List.mem_map_of_mem hf
      have hresource := Element.mem_lineages_of_part hpart (hflow [r.node, node])
      exact ⟨_, mem_lineages_of_part (List.mem_map_of_mem hr) hresource⟩
  | proxy name node target =>
      obtain ⟨t, ht, hf⟩ := List.mem_flatMap.mp hf
      have hpart : .flow f ∈ (Element.proxyTarget t).parts := List.mem_map_of_mem hf
      have htarget := Element.mem_lineages_of_part hpart (hflow [t.node, node])
      exact ⟨_, mem_lineages_of_part (List.mem_map_of_mem ht) htarget⟩
  | sequence name body =>
      obtain rfl : f = body := List.mem_singleton.mp hf
      have hmediator := Element.mem_lineages_self [f.node] (.mediator m)
      exact ⟨[], mem_lineages_of_part (List.mem_map_of_mem hm) hmediator⟩
  | template name node body => exact ⟨_, mem_lineages_of_part (List.mem_map_of_mem hf) (hflow [node])⟩

theorem exists_parent {a : Artifact τ} {x : Lineage τ} (hx : x ∈ a.lineages) :
    x = ⟨a.node, []⟩ ∨ ∃ y ∈ a.lineages, x.around = y.node :: y.around := by
  rcases List.mem_cons.mp hx with rfl | hx
  · exact .inl rfl
  · obtain ⟨part, hpart, hx⟩ := List.mem_flatMap.mp hx
    refine .inr ?_
    rcases Element.exists_parent hx with rfl | ⟨y, hy, hxy⟩
    · exact ⟨⟨a.node, []⟩, List.mem_cons_self, rfl⟩
    · exact ⟨y, List.mem_cons_of_mem _ (List.mem_flatMap.mpr ⟨part, hpart, hy⟩), hxy⟩

/-- A relation that holds between an element and itself, and that goes on from an element to the one
next around it, holds between an element and all that is around it. -/
theorem around_induct {a : Artifact τ} {R : Node τ → Node τ → Prop}
    (hstep : ∀ x ∈ a.lineages, ∀ parent ∈ x.around.head?, R x.node parent)
    (htrans : ∀ n parent outer, R n parent → R parent outer → R n outer) {x : Lineage τ}
    (hx : x ∈ a.lineages) {n : Node τ} (hn : n ∈ x.around) :
    R x.node n := by
  obtain ⟨node, around⟩ := x
  induction around generalizing node with
  | nil => cases hn
  | cons parent outer ih =>
      have hparent := hstep _ hx parent rfl
      rcases List.mem_cons.mp hn with rfl | houter
      · exact hparent
      · rcases exists_parent hx with h | ⟨y, hy, hxy⟩
        · cases h
        · obtain ⟨rfl, rfl⟩ := List.cons.inj hxy
          exact htrans _ _ _ hparent (ih _ hy houter)

end Artifact

end Mediation
