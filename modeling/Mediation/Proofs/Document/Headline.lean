import Mediation.Engine
import Mediation.Proofs.Document.Loading

/-! What a document that does not load is refused with in one line. The line starts with the first thing
that there is to say about the document, whatever its severity (`DocumentError.exists_message_eq`). What
is found while a document is elaborated is said first and never keeps it from being loaded, and an
element that reaches out of its parent does not either. So the line starts with an error exactly if
nothing of that kind comes before the first element that is not well formed
(`opens_of_load_eq_error`). -/

namespace Mediation

namespace Severity

/-- The text starts with the name of the severity. -/
def Opens (severity : Severity) (text : String) : Prop := severity.name.toList <+: text.toList

theorem opens_append_iff {a b : Severity} (text : String) : a.Opens (b.name ++ text) ↔ a = b := by
  rw [Opens, String.toList_append]
  constructor
  · rintro ⟨rest, h⟩
    cases a <;> cases b
    · rfl
    · simp [name] at h
    · simp [name] at h
    · rfl
  · rintro rfl
    exact List.prefix_append _ _

end Severity

theorem Diagnostic.exists_toString_eq (d : Diagnostic) :
    ∃ text, toString d = d.severity.name ++ text := by
  refine ⟨(d.code.elim "" fun code => "[" ++ code.id ++ "]") ++ (": " ++ d.message), ?_⟩
  show d.severity.name ++ _ ++ ": " ++ d.message = _
  rw [String.append_assoc, String.append_assoc]

namespace DocumentError

/-- The message starts with the first diagnostic. -/
theorem exists_message_eq (first : Diagnostic) (rest : List Diagnostic) :
    ∃ text, (DocumentError.mk (first :: rest)).message = toString first ++ text := by
  cases rest with
  | nil => exact ⟨"", String.append_empty.symm⟩
  | cons d rest =>
      refine ⟨" (+" ++ (toString (d :: rest).length ++ " more)"), ?_⟩
      show toString first ++ " (+" ++ _ ++ " more)" = _
      rw [String.append_assoc, String.append_assoc]

/-- It starts with the severity of that diagnostic. -/
theorem opens_message_iff {severity : Severity} {first : Diagnostic} {rest : List Diagnostic} :
    severity.Opens (DocumentError.mk (first :: rest)).message ↔ severity = first.severity := by
  obtain ⟨text, hmessage⟩ := exists_message_eq first rest
  obtain ⟨text', hfirst⟩ := first.exists_toString_eq
  rw [hmessage, hfirst, String.append_assoc]
  exact Severity.opens_append_iff _

end DocumentError

/-! The first thing that is found. -/

/-- The element is well formed and does not reach out of the one next around it. -/
structure Lineage.Fits (x : Lineage String) : Prop where
  wellFormed : x.node.range.WellFormed
  within : ∀ parent ∈ x.around.head?, parent.range.extent.Encloses x.node.range.extent

namespace Lineage

variable {x : Lineage String}

theorem check_eq_nil_iff : x.check = [] ↔ x.Fits := by
  rw [List.eq_nil_iff_forall_not_mem]
  constructor
  · intro h
    have hwell : x.node.range.WellFormed := by
      rw [← Node.check_eq_nil_iff, List.eq_nil_iff_forall_not_mem]
      exact fun f hf => h f (mem_check_iff.mpr (.inl hf))
    refine ⟨hwell, fun parent hparent => Decidable.byContradiction fun hout => ?_⟩
    refine h (.childOutsideParent x.node parent) (mem_check_iff.mpr (.inr ⟨parent, hparent, ?_⟩))
    exact ⟨hwell.not_inverted_extent, hout, rfl⟩
  · rintro ⟨hwell, hwithin⟩ f hf
    rcases mem_check_iff.mp hf with hf | ⟨parent, hparent, -, hout, -⟩
    · rw [Node.check_eq_nil_iff.mpr hwell] at hf
      cases hf
    · exact hout (hwithin parent hparent)

/-- What is wrong with the element on its own is found first. -/
theorem check_prefix (x : Lineage String) : x.node.check <+: x.check := by
  rw [check]
  split
  · exact List.prefix_rfl
  · exact List.prefix_append _ _

/-- The first thing found in an element is an error exactly if the element is not well formed. -/
theorem severity_eq_error_iff {f : Finding} (hf : x.check.head? = some f) :
    f.severity = .error ↔ ¬x.node.range.WellFormed := by
  constructor
  · intro herror
    exact exists_error_iff.mp ⟨f, List.mem_of_mem_head? hf, herror⟩
  · intro hill
    obtain ⟨rest, hcheck⟩ := x.check_prefix
    obtain ⟨f', fs, hnode⟩ := List.exists_cons_of_ne_nil (mt Node.check_eq_nil_iff.mp hill)
    rw [← hcheck, hnode] at hf
    obtain rfl : f' = f := Option.some.inj hf
    exact Node.severity_of_mem_check (hnode ▸ List.mem_cons_self)

end Lineage

/-- The first thing found in an artifact is an error exactly if all fits before an element that is not
well formed. -/
theorem Artifact.head?_check_error_iff (a : Artifact String) :
    (∃ f, a.check.head? = some f ∧ f.severity = .error) ↔
      ∃ before x after, a.lineages = before ++ x :: after ∧ (∀ y ∈ before, y.Fits) ∧
        ¬x.node.range.WellFormed := by
  rw [check_eq_flatMap_lineages, List.head?_flatMap]
  constructor
  · rintro ⟨f, hf, herror⟩
    obtain ⟨before, x, after, hlineages, hx, hbefore⟩ := List.findSome?_eq_some_iff.mp hf
    refine ⟨before, x, after, hlineages, fun y hy => ?_, (Lineage.severity_eq_error_iff hx).mp herror⟩
    exact Lineage.check_eq_nil_iff.mp (List.head?_eq_none_iff.mp (hbefore y hy))
  · rintro ⟨before, x, after, hlineages, hbefore, hill⟩
    have hne : x.check ≠ [] := fun hnil => hill (Lineage.check_eq_nil_iff.mp hnil).wellFormed
    obtain ⟨f, fs, hcheck⟩ := List.exists_cons_of_ne_nil hne
    have hf : x.check.head? = some f := by rw [hcheck, List.head?_cons]
    refine ⟨f, ?_, (Lineage.severity_eq_error_iff hf).mpr hill⟩
    refine List.findSome?_eq_some_iff.mpr ⟨before, x, after, hlineages, hf, fun y hy => ?_⟩
    rw [Lineage.check_eq_nil_iff.mpr (hbefore y hy), List.head?_nil]

/-- The first thing found in a document is an error exactly if elaboration finds nothing and the first
thing found in what it describes is an error. -/
theorem ArtifactRecord.head?_findings_error_iff (r : ArtifactRecord) :
    (∃ f, r.examine.findings.head? = some f ∧ f.severity = .error) ↔
      r.elaborate.findings = [] ∧
        ∃ f, r.elaborate.value.check.head? = some f ∧ f.severity = .error := by
  have hfindings : r.examine.findings = r.elaborate.findings ++ r.elaborate.value.check := rfl
  cases helaborate : r.elaborate.findings with
  | nil =>
      rw [hfindings, helaborate, List.nil_append]
      exact (and_iff_right rfl).symm
  | cons f fs =>
      have hwarning : f.severity = .warning :=
        r.warning_elaborate f (by rw [helaborate]; exact List.mem_cons_self)
      rw [hfindings, helaborate, List.cons_append, List.head?_cons]
      constructor
      · rintro ⟨_, ⟨⟩, herror⟩
        cases hwarning.symm.trans herror
      · exact fun h => nomatch h.1

/-- The message of a failed load is about the first diagnostic, though any of them may be the error. It
starts with an error exactly if the text cannot be read as a document, or if elaboration finds nothing
and all elements fit that come before one that is not well formed. -/
theorem opens_of_load_eq_error {source : String} {e : DocumentError} (h : load source = .error e) :
    loadDocument source = .error (.document e source) ∧
    (Failure.document e source).message = e.message ∧
    (∃ d ∈ e.diagnostics, d.severity = .error) ∧
    (∃ first rest, e.diagnostics = first :: rest ∧ (toString first).toList <+: e.message.toList ∧
      ∀ severity : Severity, severity.Opens e.message ↔ severity = first.severity) ∧
    (Severity.error.Opens e.message ↔ ∀ r, ArtifactRecord.ofText source = .ok r →
      r.elaborate.findings = [] ∧
        ∃ before x after, r.elaborate.value.lineages = before ++ x :: after ∧
          (∀ y ∈ before, y.Fits) ∧ ¬x.node.range.WellFormed) := by
  have hfirst : ∃ first rest, e.diagnostics = first :: rest := by
    obtain ⟨d, hd, -⟩ := exists_error_of_load h
    exact List.exists_cons_of_ne_nil (List.ne_nil_of_mem hd)
  obtain ⟨first, rest, hdiagnostics⟩ := hfirst
  obtain ⟨diagnostics⟩ := e
  obtain rfl : diagnostics = first :: rest := hdiagnostics
  have hstarts : (toString first).toList <+: (DocumentError.mk (first :: rest)).message.toList := by
    obtain ⟨text, hmessage⟩ := DocumentError.exists_message_eq first rest
    rw [hmessage, String.toList_append]
    exact List.prefix_append _ _
  refine ⟨by rw [loadDocument, h], rfl, exists_error_of_load h,
    ⟨first, rest, rfl, hstarts, fun _ => DocumentError.opens_message_iff⟩, ?_⟩
  rw [DocumentError.opens_message_iff]
  cases hr : ArtifactRecord.ofText source with
  | error cause =>
      rw [load, hr] at h
      cases h
      refine iff_of_true rfl ?_
      intro r hr'
      cases hr'
  | ok r =>
      have hfindings : r.examine.findings.map (·.diagnostic) = first :: rest := by
        rw [ArtifactRecord.load_of_ofText hr] at h
        split at h
        · exact DocumentError.mk.inj (Except.error.inj h)
        · cases h
      have hhead : .error = first.severity ↔
          ∃ f, r.examine.findings.head? = some f ∧ f.severity = .error := by
        obtain ⟨f, fs, hexamine, rfl, -⟩ := List.map_eq_cons_iff.mp hfindings
        rw [hexamine, List.head?_cons]
        constructor
        · exact fun herror => ⟨f, rfl, herror.symm⟩
        · rintro ⟨_, ⟨⟩, herror⟩
          exact herror.symm
      rw [hhead, r.head?_findings_error_iff, Artifact.head?_check_error_iff]
      exact ⟨fun h r' hr' => by cases hr'; exact h, fun h => h r rfl⟩

/-- A named sequence of a mediator of the given tag and a send whose range is inverted. -/
def invertedJson (tag : String) : Json :=
  .object [
    ("kind", .text "sequence"),
    ("name", .text "main"),
    ("range", .object [("container", .array [tagRange 1 0 22, tagRange 9 0 11])]),
    ("mediators", .array [
      .object [("tag", .text tag), ("range", .object [("selfClosed", tagRange 2 4 10)])],
      .object [("tag", .text "send"), ("range", .object [("selfClosed", tagRange 3 20 4)])]])]
where
  tagRange (line first last : Int) : Json :=
    .array [.array [.number (.whole line), .number (.whole first)],
      .array [.number (.whole line), .number (.whole last)]]

/-- What is wrong with the send. -/
def invertedFinding : Finding :=
  .invertedRange ⟨"send", .selfClosed ⟨⟨3, 20⟩, ⟨3, 4⟩⟩⟩ ⟨⟨3, 20⟩, ⟨3, 4⟩⟩

/-- What is to be said about a mediator that is not known. -/
def customFinding : Finding := .unknownMediator ⟨"customMediator", .selfClosed ⟨⟨2, 4⟩, ⟨2, 10⟩⟩⟩

/-- A document that is written as the value of a record with an error among its findings. -/
theorem ArtifactRecord.load_compact_of_error (j : Json) (kind : ArtifactKind) (findings : List Finding)
    (hnesting : j.nesting ≤ Json.nestingLimit) (hnumbers : ∀ n ∈ j.numbers, n.Integral)
    {fields : Json} (htagged : Tagged j kind fields) {r : ArtifactRecord}
    (hrecord : ofJson kind fields = .ok r) (hfindings : r.examine.findings = findings)
    (herror : ∃ f ∈ findings, f.severity = .error) :
    load j.compact = .error ⟨findings.map (·.diagnostic)⟩ := by
  have hread : Json.ofText j.compact = .ok j :=
    Json.ofText_render Json.Layout.spaced_compact hnesting hnumbers
  have hr : ofText j.compact = .ok r := ofText_eq_ok.mpr ⟨j, kind, fields, hread, htagged, hrecord⟩
  rw [load_of_ofText hr, hfindings, if_pos herror]

theorem load_invertedJson_log :
    load (invertedJson "log").compact = .error ⟨[invertedFinding.diagnostic]⟩ := by
  have hfound : ∃ f ∈ [invertedFinding], f.severity = .error := ⟨_, List.mem_cons_self, rfl⟩
  exact ArtifactRecord.load_compact_of_error (invertedJson "log") .sequence [invertedFinding]
    (by decide) (by decide) (.object rfl) rfl rfl hfound

/-- Nothing else is found, so the message starts with the error. -/
theorem opens_of_load_eq_error_inverted :
    load (invertedJson "log").compact = .error ⟨[invertedFinding.diagnostic]⟩ ∧
    Severity.error.Opens (Failure.document ⟨[invertedFinding.diagnostic]⟩
      (invertedJson "log").compact).message := by
  obtain ⟨-, hmessage, -, ⟨first, rest, hdiagnostics, -, hopens⟩, -⟩ :=
    opens_of_load_eq_error load_invertedJson_log
  cases hdiagnostics
  exact ⟨load_invertedJson_log, hmessage ▸ (hopens .error).mpr rfl⟩

/-- The send keeps the document from being loaded, but the message is about the mediator before it, which
does not. -/
theorem message_of_load_invertedJson :
    load (invertedJson "customMediator").compact =
      .error ⟨[customFinding.diagnostic, invertedFinding.diagnostic]⟩ ∧
    (DocumentError.mk [customFinding.diagnostic, invertedFinding.diagnostic]).message =
      "warning[E201]: unknown mediator `customMediator` at 2:4 (+1 more)" ∧
    ¬Severity.error.Opens
      (DocumentError.mk [customFinding.diagnostic, invertedFinding.diagnostic]).message := by
  have hfound : ∃ f ∈ [customFinding, invertedFinding], f.severity = .error :=
    ⟨invertedFinding, List.mem_cons_of_mem _ List.mem_cons_self, rfl⟩
  refine ⟨?_, rfl, fun hopens => ?_⟩
  · exact ArtifactRecord.load_compact_of_error (invertedJson "customMediator") .sequence
      [customFinding, invertedFinding] (by decide) (by decide) (.object rfl) rfl rfl hfound
  · cases DocumentError.opens_message_iff.mp hopens

end Mediation
