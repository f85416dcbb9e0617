import Mediation.Document.Loading
import Mediation.Proofs.Document.Elaboration
import Mediation.Proofs.Document.RangeCheck
import Mediation.Proofs.Document.Reading
import Mediation.Proofs.Json.Printing.Value

/-! What loading promises. Elaboration finds nothing that keeps a document from being loaded
(`ArtifactRecord.warning_elaborate`), so a document that can be read loads exactly if the check of
ranges finds no error, that is, if every element of what it describes is well formed
(`load_eq_ok_iff`). -/

namespace Mediation

theorem FlowRecord.warning_elaborate (f : FlowRecord) :
    f.elaborate.All (·.severity = .warning) := by
  induction f using FlowRecord.induct with
  | hstep f ih =>
      refine all_elaborate.mpr fun m hm => ⟨fun _ _ => rfl, fun _ => rfl, fun _ _ _ => rfl, ?_⟩
      exact fun w hw => ih m hm w (MediatorRecord.mem_written_of_mem_used hw)

namespace ArtifactRecord

theorem warning_elaborate (r : ArtifactRecord) : r.elaborate.All (·.severity = .warning) :=
  all_elaborate.mpr fun f _ => f.warning_elaborate

/-- An error among the findings is one of the ranges. -/
theorem exists_error_examine_iff {r : ArtifactRecord} :
    (∃ f ∈ r.examine.findings, f.severity = .error) ↔
      ∃ x ∈ r.elaborate.value.lineages, ¬x.node.range.WellFormed := by
  rw [← Artifact.exists_error_iff]
  constructor
  · rintro ⟨f, hf, herror⟩
    rcases List.mem_append.mp hf with hf | hf
    · cases herror.symm.trans (r.warning_elaborate f hf)
    · exact ⟨f, hf, herror⟩
  · rintro ⟨f, hf, herror⟩
    exact ⟨f, List.mem_append_right _ hf, herror⟩

theorem load_of_ofText {source : String} {r : ArtifactRecord} (h : ofText source = .ok r) :
    load source =
      if ∃ f ∈ r.examine.findings, f.severity = .error then
        .error ⟨r.examine.findings.map (·.diagnostic)⟩
      else .ok ⟨r.elaborate.value, r.examine.findings.map (·.diagnostic)⟩ := by
  rw [load, h]
  refine ite_congr (propext ?_) (fun _ => rfl) fun _ => rfl
  simp only [List.any_eq_true, decide_eq_true_eq]
  rfl

theorem load_of_examine {source : String} {r : ArtifactRecord} (h : ofText source = .ok r)
    {artifact : Artifact String} {findings : List Finding}
    (hexamine : r.examine = ⟨artifact, findings⟩) (hwarning : ∀ f ∈ findings, f.severity = .warning) :
    load source = .ok ⟨artifact, findings.map (·.diagnostic)⟩ := by
  have hvalue : r.elaborate.value = artifact := congrArg Noted.value hexamine
  rw [load_of_ofText h, if_neg, hexamine, hvalue]
  rintro ⟨f, hf, herror⟩
  rw [hexamine] at hf
  cases herror.symm.trans (hwarning f hf)

end ArtifactRecord

/-- What loads can be read, and every element of what it describes is well formed. -/
theorem load_eq_ok_iff {source : String} {loaded : Loaded} :
    load source = .ok loaded ↔
      ∃ r, ArtifactRecord.ofText source = .ok r ∧
        (∀ x ∈ r.elaborate.value.lineages, x.node.range.WellFormed) ∧
        loaded = ⟨r.elaborate.value, r.examine.findings.map (·.diagnostic)⟩ := by
  cases hr : ArtifactRecord.ofText source with
  | error e => simp [load, hr]
  | ok r =>
      rw [ArtifactRecord.load_of_ofText hr]
      simp only [Except.ok.injEq, exists_eq_left']
      split
      next herror =>
          obtain ⟨x, hx, hill⟩ := ArtifactRecord.exists_error_examine_iff.mp herror
          exact ⟨nofun, fun h => absurd (h.1 x hx) hill⟩
      next herror =>
          have hwell : ∀ x ∈ r.elaborate.value.lineages, x.node.range.WellFormed := by
            simpa only [ArtifactRecord.exists_error_examine_iff, not_exists, not_and,
              not_not] using herror
          exact ⟨fun h => ⟨hwell, (Except.ok.inj h).symm⟩, fun h => h.2 ▸ rfl⟩

theorem exists_error_of_load {source : String} {e : DocumentError} (h : load source = .error e) :
    ∃ d ∈ e.diagnostics, d.severity = .error := by
  cases hr : ArtifactRecord.ofText source with
  | error cause =>
      rw [load, hr] at h
      obtain rfl := Except.error.inj h
      exact ⟨_, List.mem_singleton.mpr rfl, rfl⟩
  | ok r =>
      rw [ArtifactRecord.load_of_ofText hr] at h
      split at h
      next herror =>
          obtain rfl := Except.error.inj h
          obtain ⟨f, hf, herror⟩ := herror
          exact ⟨f.diagnostic, List.mem_map_of_mem hf, herror⟩
      next => cases h

/-- A document that can be read loads exactly if every element of what it describes is well formed.
Then an element holds its head and its header, and what is said about the document is a warning;
unless one of the warnings says that an element reaches out of its parent, an element lies within
all that is around it. If a document does not load, an error says why. -/
theorem load_guarantees (source : String) :
    (∀ r, ArtifactRecord.ofText source = .ok r →
      ((∃ loaded, load source = .ok loaded) ↔
        ∀ x ∈ r.elaborate.value.lineages, x.node.range.WellFormed)) ∧
    (∀ loaded, load source = .ok loaded →
      (∀ x ∈ loaded.artifact.lineages, x.node.range.WellFormed ∧ x.node.head ∈ x.node.range ∧
        ∀ p ∈ x.node.range.startTag, p ∈ x.node.range) ∧
      (∀ d ∈ loaded.warnings, d.severity = .warning) ∧
      ((∀ d ∈ loaded.warnings, d.code ≠ some .childOutsideParent) →
        ∀ x ∈ loaded.artifact.lineages, ∀ outer ∈ x.around,
          ∀ p ∈ x.node.range, p ∈ outer.range)) ∧
    ∀ e, load source = .error e → ∃ d ∈ e.diagnostics, d.severity = .error := by
  refine ⟨fun r hr => ?_, fun loaded hload => ?_, fun e => exists_error_of_load⟩
  · constructor
    · rintro ⟨loaded, hload⟩
      obtain ⟨r', hr', hwell, -⟩ := load_eq_ok_iff.mp hload
      obtain rfl : r = r' := Except.ok.inj (hr.symm.trans hr')
      exact hwell
    · exact fun hwell => ⟨_, load_eq_ok_iff.mpr ⟨r, hr, hwell, rfl⟩⟩
  · obtain ⟨r, -, hwell, rfl⟩ := load_eq_ok_iff.mp hload
    refine ⟨fun x hx => ?_, fun d hd => ?_, fun hwithin x hx outer houter => ?_⟩
    · exact ⟨hwell x hx, (hwell x hx).start_mem, fun p => (hwell x hx).mem_of_mem_startTag⟩
    · obtain ⟨f, hf, rfl⟩ := List.mem_map.mp hd
      cases hseverity : f.severity with
      | warning => exact hseverity
      | error =>
          obtain ⟨x, hx, hill⟩ := ArtifactRecord.exists_error_examine_iff.mp ⟨f, hf, hseverity⟩
          exact absurd (hwell x hx) hill
    · refine Artifact.mem_around hwell (fun f hf hcode => ?_) hx houter
      refine hwithin f.diagnostic (List.mem_map_of_mem (List.mem_append_right _ hf)) ?_
      exact congrArg some hcode

/-- A switch in a named sequence. The second of its cases is empty. -/
def switchingJson : Json :=
  .object [
    ("version", .number (.whole 1)),
    ("kind", .text "sequence"),
    ("name", .text "main"),
    ("range", container 1 8),
    ("mediators", .array [
      .object [
        ("tag", .text "switch"),
        ("range", container 2 7),
        ("cases", .array [
          .object [
            ("regex", .text "a"),
            ("range", container 3 5),
            ("mediators", .array [.object [("tag", .text "log"), ("range", selfClosed 4)]])],
          .object [("range", selfClosed 6)]])]])]
where
  tag (line : Int) : Json :=
    .array [.array [.number (.whole line), .number (.whole 0)],
      .array [.number (.whole line), .number (.whole 9)]]
  selfClosed (line : Int) : Json := .object [("selfClosed", tag line)]
  container (first last : Int) : Json :=
    .object [("container", .array [tag first, tag last])]

/-- What is loaded for it. -/
def switchingArtifact : Artifact String :=
  .sequence "main" ⟨.onLines "sequence" 1 8,
    [⟨.onLines "switch" 2 7, .switch
      [⟨some "a", some ⟨.onLines "case" 3 5, [⟨.onLine "log" 4, .simple⟩]⟩⟩, ⟨none, none⟩] none⟩]⟩

/-- What is found in it: the second case is empty. -/
def switchingFindings : List Finding :=
  [.emptyBranch (.onLine "case" 6) (.onLines "switch" 2 7)]

theorem load_switchingJson : load switchingJson.compact =
    .ok ⟨switchingArtifact, switchingFindings.map (·.diagnostic)⟩ := by
  have hread : Json.ofText switchingJson.compact = .ok switchingJson :=
    Json.ofText_render Json.Layout.spaced_compact (by decide) (by decide)
  have hrecord : ∃ r, ArtifactRecord.ofText switchingJson.compact = .ok r ∧
      r.examine = ⟨switchingArtifact, switchingFindings⟩ :=
    ⟨_, ArtifactRecord.ofText_eq_ok.mpr ⟨_, .sequence, _, hread, .object rfl, rfl⟩, rfl⟩
  obtain ⟨r, hr, hexamine⟩ := hrecord
  exact ArtifactRecord.load_of_examine hr hexamine (by decide)

/-- The document is fine but for a warning, and everything in it lies within what is around it. -/
theorem load_guarantees_switching :
    load switchingJson.compact = .ok ⟨switchingArtifact, switchingFindings.map (·.diagnostic)⟩ ∧
    (∀ d ∈ switchingFindings.map (·.diagnostic), d.code ≠ some .childOutsideParent) ∧
    ∀ x ∈ switchingArtifact.lineages, x.node.head ∈ x.node.range ∧
      ∀ outer ∈ x.around, ∀ p ∈ x.node.range, p ∈ outer.range := by
  have hcodes : ∀ d ∈ switchingFindings.map (·.diagnostic), d.code ≠ some .childOutsideParent := by
    decide
  obtain ⟨hwell, -, hwithin⟩ :=
    (load_guarantees switchingJson.compact).2.1 _ load_switchingJson
  exact ⟨load_switchingJson, hcodes, fun x hx => ⟨(hwell x hx).2.1, hwithin hcodes x hx⟩⟩

end Mediation
