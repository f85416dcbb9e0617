import Mediation.Proofs.Document.Inspection
import Mediation.Proofs.Flow.Redrawing

/-! Artifacts with other tags and nothing else changed. What counts are the tags that occur
(`Artifact.tags`): if two maps of tags, one after the other, do to these what a third does, they do so
to the artifact (`Artifact.retag_retag`). So a map of tags that can be taken back on the tags of an
artifact loses nothing of it. -/

namespace Mediation

variable {τ σ ρ φ ψ : Type}

/-- Tags become others, and nothing else changes. -/
def Redrawing.retag (f : τ → σ) : Redrawing τ σ where
  position := id
  tag := f
  name := id
  regex := id
  uriTemplate := id

theorem Redrawing.node_retag (f : τ → σ) (n : Node τ) : (retag f).node n = ⟨f n.tag, n.range⟩ := by
  obtain ⟨tag, range⟩ := n
  cases range <;> rfl

theorem Redrawing.node_retag_id : (retag id : Redrawing τ τ).node = id :=
  funext fun n => node_retag id n

/-! A replacement of nodes and flows sees only those that are there. -/

section

variable {flow flow' : φ → ψ}

theorem branch_map_congr {branch : Option φ} (h : ∀ f ∈ branch.toList, flow f = flow' f) :
    branch.map flow = branch.map flow' :=
  Option.map_congr fun f hf => h f (Option.mem_toList.mpr hf)

theorem Case.replace_congr (regex : Option String → Option String) {c : Case φ}
    (h : ∀ f ∈ c.flow, flow f = flow' f) :
    c.replace regex flow = c.replace regex flow' := by
  rw [replace, replace, Option.map_congr h]

theorem Target.replace_congr {node node' : Node τ → Node σ} {t : Target τ φ}
    (hnode : node t.node = node' t.node) (h : ∀ f ∈ t.sequence, flow f = flow' f) :
    t.replace node flow = t.replace node' flow' := by
  rw [replace, replace, hnode, Option.map_congr h]

theorem Kind.replace_congr {node node' : Node τ → Node σ} (regex : Option String → Option String)
    {k : Kind τ φ} (htarget : ∀ t ∈ k.targets, node t.node = node' t.node)
    (hbranch : ∀ f ∈ k.branches, flow f = flow' f) :
    k.replace node regex flow = k.replace node' regex flow' := by
  -- a branch of a kind with targets is the sequence of one of them
  have htargets {ts : List (Target τ φ)} (htarget : ∀ t ∈ ts, node t.node = node' t.node)
      (hbranch : ∀ f ∈ ts.filterMap (·.sequence), flow f = flow' f) (t : Target τ φ) (ht : t ∈ ts) :
      t.replace node flow = t.replace node' flow' :=
    Target.replace_congr (htarget t ht) fun f hf => hbranch f (List.mem_filterMap.mpr ⟨t, ht, hf⟩)
  cases k with
  | simple => rfl
  | filter thenFlow elseFlow | throttle onAccept onReject =>
      obtain ⟨hfirst, hsecond⟩ := List.forall_mem_append.mp hbranch
      rw [replace, replace, branch_map_congr hfirst, branch_map_congr hsecond]
  | switch cases default =>
      obtain ⟨hcases, hdefault⟩ := List.forall_mem_append.mp hbranch
      have hcase (c : Case φ) (hc : c ∈ cases) : c.replace regex flow = c.replace regex flow' :=
        Case.replace_congr regex fun f hf => hcases f (List.mem_filterMap.mpr ⟨c, hc, hf⟩)
      rw [replace, replace, List.map_congr_left hcase, branch_map_congr hdefault]
  | entitlement onAccept onReject advice obligations =>
      obtain ⟨hrest, hobligations⟩ := List.forall_mem_append.mp hbranch
      obtain ⟨hrest, hadvice⟩ := List.forall_mem_append.mp hrest
      obtain ⟨haccept, hreject⟩ := List.forall_mem_append.mp hrest
      rw [replace, replace, branch_map_congr haccept, branch_map_congr hreject,
        branch_map_congr hadvice, branch_map_congr hobligations]
  | cache | validate | foreach | aggregate => rw [replace, replace, branch_map_congr hbranch]
  | iterate target =>
      have hmap : target.map (·.replace node flow) = target.map (·.replace node' flow') :=
        branch_map_congr (htargets htarget hbranch)
      rw [replace, replace, hmap]
  | clone targets | scatterGather targets =>
      have hmap : targets.map (·.replace node flow) = targets.map (·.replace node' flow') :=
        List.map_congr_left (htargets htarget hbranch)
      rw [replace, replace, hmap]

end

theorem Kind.targets_replace (node : Node τ → Node σ) (regex : Option String → Option String)
    (flow : φ → ψ) (k : Kind τ φ) :
    (k.replace node regex flow).targets = k.targets.map (·.replace node flow) := by
  cases k with
  | iterate target => exact Option.toList_map
  | _ => rfl

namespace Flow

/-- The tags of a flow and of all that is nested in it. -/
def tags (c : Flow τ) : List τ := c.allNodes.map (·.tag)

theorem tag_mem_tags (c : Flow τ) : c.node.tag ∈ c.tags := by
  refine List.mem_map_of_mem ?_
  rw [allNodes_eq]
  exact List.mem_append_left _ List.mem_cons_self

theorem mem_tags_of_mediator {c : Flow τ} {m : Mediator τ (Flow τ)} (hm : m ∈ c.mediators)
    {n : Node τ} (hn : n ∈ m.node :: m.kind.targets.map (·.node)) :
    n.tag ∈ c.tags := by
  refine List.mem_map_of_mem ?_
  rw [allNodes_eq]
  exact List.mem_append_left _ (List.mem_cons_of_mem _ (List.mem_flatMap.mpr ⟨m, hm, hn⟩))

theorem tags_subset_of_branch {c d : Flow τ} {m : Mediator τ (Flow τ)} (hm : m ∈ c.mediators)
    (hd : d ∈ m.branches) :
    d.tags ⊆ c.tags := by
  refine List.map_subset _ fun n hn => ?_
  rw [c.allNodes_eq]
  exact List.mem_append_right _
    (List.mem_flatMap.mpr ⟨m, hm, List.mem_flatMap.mpr ⟨d, hd, hn⟩⟩)

theorem nodes_redraw (e : Redrawing τ σ) (c : Flow τ) : (c.redraw e).nodes = c.nodes.map e.node := by
  rw [nodes, nodes, node_redraw, mediators_redraw, List.map_cons, List.flatMap_map, List.map_flatMap]
  refine congrArg (List.cons _) (List.flatMap_congr fun m _ => ?_)
  rw [node_redrawMediator, redrawMediator_eq, Mediator.replace, Kind.targets_replace, List.map_cons,
    List.map_map, List.map_map]
  rfl

theorem allNodes_redraw (e : Redrawing τ σ) (c : Flow τ) :
    (c.redraw e).allNodes = c.allNodes.map e.node := by
  induction c using Flow.induct with
  | hstep c ih =>
      rw [allNodes_eq, allNodes_eq, nodes_redraw, mediators_redraw, List.map_append,
        List.flatMap_map, List.map_flatMap]
      refine congrArg (c.nodes.map e.node ++ ·) (List.flatMap_congr fun m hm => ?_)
      rw [branches_redrawMediator, List.flatMap_map, List.map_flatMap]
      exact List.flatMap_congr fun d hd => ih d (List.mem_flatMap.mpr ⟨m, hm, hd⟩)

theorem tags_retag (f : τ → σ) (c : Flow τ) : (c.redraw (.retag f)).tags = c.tags.map f := by
  rw [tags, tags, allNodes_redraw, List.map_map, List.map_map]
  rfl

theorem retag_retag {f : τ → σ} {g : σ → ρ} {h : τ → ρ} (c : Flow τ)
    (hc : ∀ tag ∈ c.tags, g (f tag) = h tag) :
    (c.redraw (.retag f)).redraw (.retag g) = c.redraw (.retag h) := by
  induction c using Flow.induct with
  | hstep c ih =>
      have hnode (n : Node τ) (hn : n.tag ∈ c.tags) :
          ((Redrawing.retag g).node ∘ (Redrawing.retag f).node) n = (Redrawing.retag h).node n := by
        simp only [Function.comp, Redrawing.node_retag, hc n.tag hn]
      have hmediator (m : Mediator τ (Flow τ)) (hm : m ∈ c.mediators) :
          redrawMediator (.retag g) (redrawMediator (.retag f) m) = redrawMediator (.retag h) m := by
        have hbranch (d : Flow τ) (hd : d ∈ m.branches) :
            (redraw (.retag g) ∘ redraw (.retag f)) d = redraw (.retag h) d :=
          ih d (List.mem_flatMap.mpr ⟨m, hm, hd⟩) fun tag htag =>
            hc tag (tags_subset_of_branch hm hd htag)
        have htarget (t : Target τ (Flow τ)) (ht : t ∈ m.kind.targets) :=
          hnode t.node
            (mem_tags_of_mediator hm (List.mem_cons_of_mem _ (List.mem_map_of_mem ht)))
        simp only [redrawMediator_eq, Mediator.replace, Kind.replace_replace]
        refine congrArg₂ Mediator.mk (hnode m.node (mem_tags_of_mediator hm List.mem_cons_self)) ?_
        exact Kind.replace_congr id htarget hbranch
      obtain ⟨node, mediators⟩ := c
      simp only [redraw, redrawMediators_eq, List.map_map]
      exact congrArg₂ Flow.mk (hnode node (tag_mem_tags _)) (List.map_congr_left hmediator)

theorem retag_id (c : Flow τ) : c.redraw (.retag id) = c := by
  induction c using Flow.induct with
  | hstep c ih =>
      have hmediator (m : Mediator τ (Flow τ)) (hm : m ∈ c.mediators) :
          redrawMediator (.retag id) m = id m := by
        have hkind : m.kind.replace (Redrawing.retag id).node id (redraw (.retag id)) =
            m.kind.replace id id id :=
          Kind.replace_congr id (fun t _ => congrFun Redrawing.node_retag_id t.node)
            fun d hd => ih d (List.mem_flatMap.mpr ⟨m, hm, hd⟩)
        rw [redrawMediator_eq]
        exact congrArg₂ Mediator.mk (congrFun Redrawing.node_retag_id m.node)
          (hkind.trans m.kind.replace_id)
      obtain ⟨node, mediators⟩ := c
      rw [redraw, redrawMediators_eq, Redrawing.node_retag_id, List.map_congr_left hmediator,
        List.map_id, id]

end Flow

namespace Artifact

/-- The tags of all elements, in document order. -/
def tags (a : Artifact τ) : List τ := a.lineages.map (·.node.tag)

/-- The artifact with other tags. -/
def retag (f : τ → σ) (a : Artifact τ) : Artifact σ := a.redraw (.retag f)

/-- An element is one that holds root flows, or it is in one of these. -/
theorem mem_tags_iff {a : Artifact τ} {tag : τ} :
    tag ∈ a.tags ↔ tag ∈ a.holders.map (·.tag) ∨ ∃ c ∈ a.rootFlows, tag ∈ c.tags := by
  have hflows : a.flows.flatMap Flow.nodes = a.rootFlows.flatMap Flow.allNodes := List.flatMap_assoc ..
  have hperm := a.map_node_lineages_perm.map (·.tag)
  rw [hflows, List.map_map, List.map_append, List.map_flatMap] at hperm
  exact hperm.mem_iff.trans (List.mem_append.trans (or_congr_right List.mem_flatMap))

theorem rootFlows_redraw (e : Redrawing τ σ) (a : Artifact τ) :
    (a.redraw e).rootFlows = a.rootFlows.map (Flow.redraw e) := by
  cases a with
  | api name node resources =>
      rw [redraw, rootFlows, rootFlows, List.flatMap_map, List.map_flatMap]
      exact List.flatMap_congr fun r _ => r.sequences.toList_redraw e
  | proxy name node target =>
      cases target with
      | none => rfl
      | some t =>
          simp only [redraw, rootFlows, Option.map_some, Option.toList_some, List.flatMap_singleton]
          exact t.sequences.toList_redraw e
  | sequence name body => rfl
  | template name node body => exact Option.toList_map

theorem holders_redraw (e : Redrawing τ σ) (a : Artifact τ) :
    (a.redraw e).holders = a.holders.map e.node := by
  cases a with
  | api name node resources =>
      rw [redraw, holders, holders, List.map_cons, List.map_map, List.map_map]
      rfl
  | proxy name node target =>
      rw [redraw, holders, holders, List.map_cons, Option.toList_map, List.map_map, List.map_map]
      rfl
  | sequence name body => rfl
  | template name node body => rfl

theorem mem_tags_retag {f : τ → σ} {a : Artifact τ} {tag : σ} :
    tag ∈ (a.retag f).tags ↔ tag ∈ a.tags.map f := by
  have hholders : (a.retag f).holders.map (·.tag) = (a.holders.map (·.tag)).map f := by
    rw [retag, holders_redraw, List.map_map, List.map_map]
    rfl
  rw [mem_tags_iff, hholders, retag, rootFlows_redraw]
  constructor
  · rintro (hholder | ⟨_, hmem, hflow⟩)
    · obtain ⟨tag', htag', rfl⟩ := List.mem_map.mp hholder
      exact List.mem_map_of_mem (mem_tags_iff.mpr (.inl htag'))
    · obtain ⟨c, hc, rfl⟩ := List.mem_map.mp hmem
      rw [Flow.tags_retag] at hflow
      obtain ⟨tag', htag', rfl⟩ := List.mem_map.mp hflow
      exact List.mem_map_of_mem (mem_tags_iff.mpr (.inr ⟨c, hc, htag'⟩))
  · intro htag
    obtain ⟨tag', htag', rfl⟩ := List.mem_map.mp htag
    rcases mem_tags_iff.mp htag' with hholder | ⟨c, hc, hflow⟩
    · exact .inl (List.mem_map_of_mem hholder)
    · refine .inr ⟨c.redraw (.retag f), List.mem_map_of_mem hc, ?_⟩
      rw [Flow.tags_retag]
      exact List.mem_map_of_mem hflow

theorem retag_retag {f : τ → σ} {g : σ → ρ} {h : τ → ρ} {a : Artifact τ}
    (ha : ∀ tag ∈ a.tags, g (f tag) = h tag) :
    (a.retag f).retag g = a.retag h := by
  have hnode (n : Node τ) (hn : n ∈ a.holders) :
      (Redrawing.retag g).node ((Redrawing.retag f).node n) = (Redrawing.retag h).node n := by
    have htag := ha n.tag (mem_tags_iff.mpr (.inl (List.mem_map_of_mem hn)))
    simp only [Redrawing.node_retag, htag]
  have hflow (c : Flow τ) (hc : c ∈ a.rootFlows) :
      (c.redraw (.retag f)).redraw (.retag g) = c.redraw (.retag h) :=
    c.retag_retag fun tag htag => ha tag (mem_tags_iff.mpr (.inr ⟨c, hc, htag⟩))
  have hbranch (branch : Option (Flow τ)) (h' : ∀ c ∈ branch.toList, c ∈ a.rootFlows) :
      (branch.map (Flow.redraw (.retag f))).map (Flow.redraw (.retag g)) =
        branch.map (Flow.redraw (.retag h)) := by
    rw [Option.map_map]
    exact branch_map_congr fun c hc => hflow c (h' c hc)
  have hsequences (s : Sequences τ) (hs : ∀ c ∈ s.toList, c ∈ a.rootFlows) :
      (s.redraw (.retag f)).redraw (.retag g) = s.redraw (.retag h) := by
    obtain ⟨hs, hfault⟩ := List.forall_mem_append.mp hs
    obtain ⟨hin, hout⟩ := List.forall_mem_append.mp hs
    simp only [Sequences.redraw, hbranch _ hin, hbranch _ hout, hbranch _ hfault]
  cases a with
  | api name node resources =>
      have hresource (r : Resource τ) (hr : r ∈ resources) :
          (r.redraw (.retag f)).redraw (.retag g) = r.redraw (.retag h) := by
        have hr' := hnode r.node (List.mem_cons_of_mem _ (List.mem_map_of_mem hr))
        have hs := hsequences r.sequences fun c hc => List.mem_flatMap.mpr ⟨r, hr, hc⟩
        simp only [Resource.redraw, hr', hs]
        rfl
      simp only [retag, redraw, List.map_map, hnode node List.mem_cons_self]
      exact congrArg (api name _) (List.map_congr_left hresource)
  | proxy name node target =>
      have htarget (t : ProxyTarget τ) (ht : t ∈ target) :
          (t.redraw (.retag f)).redraw (.retag g) = t.redraw (.retag h) := by
        have ht := Option.mem_toList.mpr ht
        have ht' := hnode t.node (List.mem_cons_of_mem _ (List.mem_map_of_mem ht))
        have hs := hsequences t.sequences fun c hc => List.mem_flatMap.mpr ⟨t, ht, hc⟩
        simp only [ProxyTarget.redraw, ht', hs]
      simp only [retag, redraw, Option.map_map, hnode node List.mem_cons_self]
      exact congrArg (proxy name _) (Option.map_congr htarget)
  | sequence name body => exact congrArg (sequence name) (hflow body List.mem_cons_self)
  | template name node body =>
      simp only [retag, redraw, hnode node List.mem_cons_self, hbranch body fun c hc => hc]
      rfl

theorem retag_id (a : Artifact τ) : a.retag id = a := by
  have hflow : Flow.redraw (.retag id : Redrawing τ τ) = id := funext Flow.retag_id
  have hsequences (s : Sequences τ) : s.redraw (.retag id) = s := by
    simp only [Sequences.redraw, hflow, Option.map_id, id]
  cases a with
  | api name node resources =>
      have hresource (r : Resource τ) : r.redraw (.retag id) = r := by
        rw [Resource.redraw, hsequences, Redrawing.node_retag_id]
        rfl
      rw [retag, redraw, List.map_congr_left fun r _ => hresource r, List.map_id',
        Redrawing.node_retag_id]
      rfl
  | proxy name node target =>
      have htarget (t : ProxyTarget τ) : t.redraw (.retag id) = t := by
        rw [ProxyTarget.redraw, hsequences, Redrawing.node_retag_id]
        rfl
      rw [retag, redraw, Option.map_congr fun t _ => htarget t, Option.map_id',
        Redrawing.node_retag_id]
      rfl
  | sequence name body => exact congrArg (sequence name) body.retag_id
  | template name node body =>
      rw [retag, redraw, hflow, Option.map_id, Redrawing.node_retag_id]
      rfl

end Artifact

end Mediation
