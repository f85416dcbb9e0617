import Mediation.Proofs.Layout.Basic

/-! Mediators where they stand. A place is a mediator of an artifact, at any depth, with the head
that control comes to behind it: that of its next sibling, or else what comes behind the mediator
that owns its flow. Behind a root flow nothing comes, except that the in sequence of a proxy goes on
with its out sequence (`Artifact.rootsBefore`). A mediator is innermost at a position if it holds the
position and none nested in it does; where a mediator of the artifact holds the position, one of them
is innermost (`Artifact.exists_innermost`). -/

namespace Mediation

/-- A mediator, and the head of what comes next behind it. -/
structure Place (τ : Type) where
  mediator : Mediator τ (Flow τ)
  next : Option Position

/-- The places of mediators in a row and of all nested in them, given what comes behind the row. -/
def places {τ : Type} (after : Option Position) : List (Mediator τ (Flow τ)) → List (Place τ)
  | [] => []
  | m :: rest =>
      let next := (rest.head?.map (·.head)).or after
      ⟨m, next⟩ :: (m.branches.attach.flatMap fun ⟨c, _⟩ => places next c.mediators) ++
        places after rest
termination_by mediators => mediators
decreasing_by
  · have hbranch := Flow.sizeOf_lt_of_mem_branches ‹c ∈ m.branches›
    have hmediators := c.sizeOf_mediators_lt
    simp only [List.cons.sizeOf_spec]
    omega
  · simp +arith

/-- The sequences of a proxy, and what comes behind each. -/
def Sequences.proxyRoots {τ : Type} (s : Sequences τ) : List (Flow τ × Option Position) :=
  s.inSequence.toList.map (·, s.outSequence.bind (·.head?)) ++
    s.outSequence.toList.map (·, none) ++ s.faultSequence.toList.map (·, none)

/-- The root flows, and what comes behind each. -/
def Artifact.rootsBefore {τ : Type} : Artifact τ → List (Flow τ × Option Position)
  | api _ _ resources => resources.flatMap fun r => r.sequences.toList.map (·, none)
  | proxy _ _ target => target.toList.flatMap (·.sequences.proxyRoots)
  | sequence _ body => [(body, none)]
  | template _ _ body => body.toList.map (·, none)

/-- The places in an artifact. -/
def Artifact.places {τ : Type} (a : Artifact τ) : List (Place τ) :=
  a.rootsBefore.flatMap fun (f, after) => Mediation.places after f.mediators

/-- The second mediator is nested in the first, at any depth. -/
def Mediator.Nests {τ : Type} (m m' : Mediator τ (Flow τ)) : Prop :=
  ∃ c ∈ m.branches, ∃ f ∈ c.withNested, m' ∈ f.mediators

/-- The mediator holds the position, and none that is nested in it does. -/
def Mediator.Innermost {τ : Type} (p : Position) (m : Mediator τ (Flow τ)) : Prop :=
  p ∈ m ∧ ∀ m', m.Nests m' → p ∉ m'

section

variable {τ : Type} {after : Option Position}

theorem places_nil : places after ([] : List (Mediator τ (Flow τ))) = [] := by rw [places]

theorem places_cons (m : Mediator τ (Flow τ)) (rest : List (Mediator τ (Flow τ))) :
    places after (m :: rest) =
      ⟨m, (rest.head?.map (·.head)).or after⟩ ::
        (m.branches.flatMap fun c => places ((rest.head?.map (·.head)).or after) c.mediators) ++
          places after rest := by
  rw [places]
  simp only [List.flatMap_subtype, List.unattach_attach]

theorem mem_places_cons {m : Mediator τ (Flow τ)} {rest : List (Mediator τ (Flow τ))}
    {x : Place τ} :
    x ∈ places after (m :: rest) ↔
      x = ⟨m, (rest.head?.map (·.head)).or after⟩ ∨
      (∃ c ∈ m.branches, x ∈ places ((rest.head?.map (·.head)).or after) c.mediators) ∨
      x ∈ places after rest := by
  rw [places_cons, List.mem_append, List.mem_cons, List.mem_flatMap, or_assoc]

theorem Flow.exists_mem_withNested_iff {f : Flow τ} {m : Mediator τ (Flow τ)} :
    (∃ g ∈ f.withNested, m ∈ g.mediators) ↔ ∃ owner ∈ f.mediators, m = owner ∨ owner.Nests m := by
  constructor
  · rintro ⟨g, hg, hm⟩
    rw [withNested_eq, List.mem_cons] at hg
    rcases hg with rfl | hg
    · exact ⟨m, hm, .inl rfl⟩
    · obtain ⟨c, hc, hg⟩ := List.mem_flatMap.mp hg
      obtain ⟨owner, howner, hbranch⟩ := List.mem_flatMap.mp hc
      exact ⟨owner, howner, .inr ⟨c, hbranch, g, hg, hm⟩⟩
  · rintro ⟨owner, howner, rfl | ⟨c, hc, g, hg, hm⟩⟩
    · exact ⟨f, f.mem_withNested_self, howner⟩
    · exact ⟨g, mem_withNested_of_mem_branches howner hc hg, hm⟩

theorem Mediator.nests_iff {m m' : Mediator τ (Flow τ)} :
    m.Nests m' ↔ ∃ c ∈ m.branches, ∃ owner ∈ c.mediators, m' = owner ∨ owner.Nests m' :=
  exists_congr fun _ => and_congr_right fun _ => Flow.exists_mem_withNested_iff

theorem Flow.withNested_trans {f g h : Flow τ} (hg : g ∈ f.withNested) (hh : h ∈ g.withNested) :
    h ∈ f.withNested := by
  induction f using Flow.induct with
  | hstep f ih =>
      rw [withNested_eq, List.mem_cons] at hg
      rcases hg with rfl | hg
      · exact hh
      · obtain ⟨c, hc, hg⟩ := List.mem_flatMap.mp hg
        rw [withNested_eq]
        exact List.mem_cons_of_mem _ (List.mem_flatMap.mpr ⟨c, hc, ih c hc hg⟩)

theorem Mediator.Nests.trans {m m' m'' : Mediator τ (Flow τ)} (h : m.Nests m') (h' : m'.Nests m'') :
    m.Nests m'' := by
  obtain ⟨c, hc, f, hf, hm'⟩ := h
  obtain ⟨c', hc', f', hf', hm''⟩ := h'
  exact ⟨c, hc, f', Flow.withNested_trans hf (Flow.mem_withNested_of_mem_branches hm' hc' hf'), hm''⟩

/-- The places of a row are those of its mediators and of the mediators nested in them. -/
theorem exists_mem_places_iff {ms : List (Mediator τ (Flow τ))} {m : Mediator τ (Flow τ)} :
    (∃ x ∈ places after ms, x.mediator = m) ↔ ∃ owner ∈ ms, m = owner ∨ owner.Nests m := by
  induction ms using Flow.mediators_induct generalizing after with
  | nil => simp [places_nil]
  | cons m₀ rest hbranch ih =>
      constructor
      · rintro ⟨x, hx, rfl⟩
        rcases mem_places_cons.mp hx with rfl | ⟨c, hc, hx⟩ | hx
        · exact ⟨m₀, List.mem_cons_self, .inl rfl⟩
        · have howner := (hbranch c hc).mp ⟨x, hx, rfl⟩
          exact ⟨m₀, List.mem_cons_self, .inr (Mediator.nests_iff.mpr ⟨c, hc, howner⟩)⟩
        · obtain ⟨owner, howner, h⟩ := ih.mp ⟨x, hx, rfl⟩
          exact ⟨owner, List.mem_cons_of_mem _ howner, h⟩
      · rintro ⟨owner, howner, h⟩
        rcases List.mem_cons.mp howner with rfl | howner
        · rcases h with rfl | h
          · exact ⟨_, mem_places_cons.mpr (.inl rfl), rfl⟩
          · obtain ⟨c, hc, h⟩ := Mediator.nests_iff.mp h
            obtain ⟨x, hx, rfl⟩ := (hbranch c hc).mpr h
            exact ⟨x, mem_places_cons.mpr (.inr (.inl ⟨c, hc, hx⟩)), rfl⟩
        · obtain ⟨x, hx, rfl⟩ := ih.mpr ⟨owner, howner, h⟩
          exact ⟨x, mem_places_cons.mpr (.inr (.inr hx)), rfl⟩

/-- Where a mediator of a row or one nested in it holds the position, one of these is innermost. -/
theorem exists_innermost {ms : List (Mediator τ (Flow τ))} {p : Position}
    (h : ∃ x ∈ places after ms, p ∈ x.mediator) :
    ∃ x ∈ places after ms, x.mediator.Innermost p := by
  induction ms using Flow.mediators_induct generalizing after with
  | nil => simp [places_nil] at h
  | cons m rest hbranch ih =>
      have hnested : (∃ c ∈ m.branches,
            ∃ x ∈ places ((rest.head?.map (·.head)).or after) c.mediators, p ∈ x.mediator) →
          ∃ x ∈ places after (m :: rest), x.mediator.Innermost p := by
        rintro ⟨c, hc, hx⟩
        obtain ⟨y, hy, hinner⟩ := hbranch c hc hx
        exact ⟨y, mem_places_cons.mpr (.inr (.inl ⟨c, hc, hy⟩)), hinner⟩
      obtain ⟨x, hx, hp⟩ := h
      rcases mem_places_cons.mp hx with rfl | ⟨c, hc, hx⟩ | hx
      · by_cases hdeeper : ∃ c ∈ m.branches,
            ∃ x ∈ places ((rest.head?.map (·.head)).or after) c.mediators, p ∈ x.mediator
        · exact hnested hdeeper
        · refine ⟨_, mem_places_cons.mpr (.inl rfl), hp, fun m' hm' hp' => hdeeper ?_⟩
          obtain ⟨c, hc, howner⟩ := Mediator.nests_iff.mp hm'
          obtain ⟨y, hy, rfl⟩ := exists_mem_places_iff.mpr howner
          exact ⟨c, hc, y, hy, hp'⟩
      · exact hnested ⟨c, hc, x, hx, hp⟩
      · obtain ⟨y, hy, hinner⟩ := ih ⟨x, hx, hp⟩
        exact ⟨y, mem_places_cons.mpr (.inr (.inr hy)), hinner⟩

namespace Artifact

theorem map_fst_rootsBefore (a : Artifact τ) : a.rootsBefore.map (·.1) = a.rootFlows := by
  cases a with
  | api => simp [rootsBefore, rootFlows, List.map_flatMap, Function.comp_def]
  | proxy =>
      simp [rootsBefore, rootFlows, Sequences.proxyRoots, Sequences.toList, List.map_flatMap,
        Function.comp_def]
  | sequence => rfl
  | template => simp [rootsBefore, rootFlows, Function.comp_def]

theorem mem_places_iff {a : Artifact τ} {x : Place τ} :
    x ∈ a.places ↔ ∃ row ∈ a.rootsBefore, x ∈ Mediation.places row.2 row.1.mediators :=
  List.mem_flatMap

/-- The places of an artifact are those of all mediators of its flows. -/
theorem exists_mem_places_iff {a : Artifact τ} {m : Mediator τ (Flow τ)} :
    (∃ x ∈ a.places, x.mediator = m) ↔ ∃ f ∈ a.flows, m ∈ f.mediators := by
  have hroots : (∃ f ∈ a.flows, m ∈ f.mediators) ↔
      ∃ row ∈ a.rootsBefore, ∃ x ∈ Mediation.places row.2 row.1.mediators, x.mediator = m := by
    simp only [flows, ← map_fst_rootsBefore, List.flatMap_map, List.mem_flatMap,
      Mediation.exists_mem_places_iff, ← Flow.exists_mem_withNested_iff]
    exact ⟨fun ⟨f, ⟨row, hrow, hf⟩, hm⟩ => ⟨row, hrow, f, hf, hm⟩,
      fun ⟨row, hrow, f, hf, hm⟩ => ⟨f, ⟨row, hrow, hf⟩, hm⟩⟩
  rw [hroots]
  simp only [mem_places_iff]
  exact ⟨fun ⟨x, ⟨row, hrow, hx⟩, hm⟩ => ⟨row, hrow, x, hx, hm⟩,
    fun ⟨row, hrow, x, hx, hm⟩ => ⟨x, ⟨row, hrow, hx⟩, hm⟩⟩

end Artifact

end

end Mediation
