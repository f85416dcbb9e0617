import Mediation.Proofs.Document.Loading
import Mediation.Proofs.Json.Grammar.Printing
import Mediation.Proofs.Request

/-! Requests for documents that do not load. A document in a request is read as a value only if it can
be read as one by itself (`Request.exists_ofText`). What is loaded then is the text of its canonical
form, and that forgets one thing, the entries whose keys are repeated later in the same object. So a
request is refused exactly if its document does not load without these entries either, and that is so
if the document does not load and no key that means something is repeated in it
(`answerText_of_load_eq_error`). With repeated keys a document that does not load can be answered
(`answerText_renamedJson`). -/

namespace Mediation

open Json (IsText)
open Json.Reader

namespace Request

/-- A document is read along with the request around it only if it can be read by itself, and it has
left room for the request. -/
theorem exists_ofText {source : String} (hsource : IsText source) {breakpoint : Position}
    {r : Request} (h : ofText (requestText source breakpoint) = .ok r) :
    ∃ j, Json.ofText source = .ok j ∧ j.nesting ≤ 126 := by
  obtain ⟨_, hread, -⟩ := run_eq_ok.mp h
  rw [toList_requestText] at hread
  obtain ⟨_, rest, hfield⟩ := Json.Shape.exists_read_of_reader rfl
    (moreEntries_quote_true Json.blanks_nil "document" _) rfl hread
  obtain ⟨j, hj, -⟩ := map_eq_done.mp hfield
  have hspells := hsource.spells.blanks Json.blanks_space
  cases hspells.settled 126 with
  | fails hfail =>
      refine absurd hj ?_
      rw [← List.append_assoc]
      exact hfail (stops_cons (.inl rfl) _) j rest
  | @reads j' v _ hv hsettled =>
      have hsource' : value 126 source.toList = .done j' v := by
        have hnil := hsettled Json.stops_nil
        rwa [List.append_nil, List.append_nil,
          value_congr (dropWhile_blanks Json.blanks_space _)] at hnil
      have hd := nesting_le_of_value hsource'
      refine ⟨j', run_eq_ok.mpr ⟨v, ?_, List.dropWhile_eq_nil_iff.mpr hv⟩, hd⟩
      exact value_of_nesting_le hsource' (hd.trans (by decide))

end Request

/-! What the canonical form forgets. -/

/-- If the text that a request is answered by loads, then so does the document of the request. -/
theorem load_of_load_pretty {source : String} (hsource : IsText source) {j : Json}
    (hj : Json.ofText source = .ok j) (hkeys : j.KeysOnce documentKeys) {loaded : Loaded}
    (h : load j.canonical.pretty = .ok loaded) :
    load source = .ok loaded := by
  have hsort := Json.keepsLast_sortEntries
  rw [Json.canonical_eq_condense] at h
  obtain ⟨r, hr, hwell, rfl⟩ := load_eq_ok_iff.mp h
  obtain ⟨j', kind, fields, hj', htagged, hrecord⟩ := ArtifactRecord.ofText_eq_ok.mp hr
  have hnumbers : ∀ n ∈ (j.condense Json.sortEntries).numbers, n.Fits := fun n hn =>
    hsource.spells.of_ofText hj n (Json.mem_numbers_of_mem_condense hsort hn)
  -- The canonical form holds what has been read from its text, and `j` holds what that form holds.
  have hrecast : Json.Recast IsKey j' (j.condense Json.sortEntries) :=
    (Json.spells_render Json.Layout.spaced_pretty hnumbers 0).of_ofText hj'
  obtain ⟨fields', htagged', hrecord'⟩ := htagged.ofJson_of_recast hrecast hrecord
  obtain ⟨fields'', htagged'', hrecord''⟩ :=
    htagged'.ofJson_of_recast (Json.recast_of_condense hsort hkeys) hrecord'
  have hr' := ArtifactRecord.ofText_eq_ok.mpr ⟨j, kind, fields'', hj, htagged'', hrecord''⟩
  exact load_eq_ok_iff.mpr ⟨r, hr', hwell, rfl⟩

section

variable {j : Json} (hd : j.nesting ≤ Json.nestingLimit) (hnumbers : ∀ n ∈ j.numbers, n.Integral)

include hd hnumbers

/-- In what order the last entries are kept, and how they are laid out, makes no difference. -/
theorem load_render_condense {keep keep' : List (String × Json) → List (String × Json)}
    (hkeep : Json.KeepsLast keep) (hkeep' : Json.KeepsLast keep') {layout layout' : Json.Layout}
    (hlayout : layout.Spaced) (hlayout' : layout'.Spaced) {loaded : Loaded}
    (h : load ((j.condense keep).render layout 0) = .ok loaded) :
    load ((j.condense keep').render layout' 0) = .ok loaded := by
  obtain ⟨r, hr, hwell, rfl⟩ := load_eq_ok_iff.mp h
  have hr' := ArtifactRecord.ofText_of_recast
    (Json.ofText_render_condense hkeep hlayout hd hnumbers)
    (Json.ofText_render_condense hkeep' hlayout' hd hnumbers)
    (Json.recast_condense_condense hkeep hkeep' j) hr
  exact load_eq_ok_iff.mpr ⟨r, hr', hwell, rfl⟩

theorem exists_load_pretty_eq_error_iff :
    (∃ e, load j.canonical.pretty = .error e) ↔ ∃ e, load j.latest.compact = .error e := by
  have hnot (source : String) :
      (∃ e, load source = .error e) ↔ ¬∃ loaded, load source = .ok loaded := by
    cases load source <;> simp
  have hsort := Json.keepsLast_sortEntries
  have hlast := Json.keepsLast_keepLast
  have hcompact := Json.Layout.spaced_compact
  have hpretty := Json.Layout.spaced_pretty
  rw [hnot, hnot, Json.canonical_eq_condense]
  refine not_congr (exists_congr fun loaded => ⟨fun h => ?_, fun h => ?_⟩)
  · exact load_render_condense hd hnumbers hsort hlast hpretty hcompact h
  · exact load_render_condense hd hnumbers hlast hsort hcompact hpretty h

end

/-- What a request is refused with is the error of the text that it is answered by. -/
theorem answerText_eq_error_iff {source : String} {j : Json} (hj : Json.ofText source = .ok j)
    (hd : j.nesting ≤ 126) {settings : Settings} {breakpoint : Position} {failure : Failure} :
    answerText settings (requestText source breakpoint) = .error failure ↔
      ∃ e, load j.canonical.pretty = .error e ∧ failure = .document e j.canonical.pretty := by
  rw [answerText_requestText hj hd, loadDocument]
  cases load j.canonical.pretty with
  | ok loaded => simp [Except.map]
  | error e => simp [Except.map, eq_comm]

/-- A value that is no record is a document that does not load. -/
theorem exists_error_of_ofJson {source : String} {j : Json} (hj : Json.ofText source = .ok j)
    (h : ∀ kind fields, ArtifactRecord.Tagged j kind fields →
      ∀ r, ArtifactRecord.ofJson kind fields ≠ .ok r) :
    ∃ e, load source = .error e := by
  cases hload : load source with
  | error e => exact ⟨e, rfl⟩
  | ok loaded =>
      obtain ⟨r, hr, -, -⟩ := load_eq_ok_iff.mp hload
      obtain ⟨j', kind, fields, hj', htagged, hrecord⟩ := ArtifactRecord.ofText_eq_ok.mp hr
      cases hj.symm.trans hj'
      exact absurd hrecord (h kind fields htagged r)

/-- A request for a document that does not load is refused if no key that means something is repeated
in the document. In general, where the document is a value of whole numbers that leaves room for the
request around it, it is refused exactly if the document does not load either with only the last of the
entries with one key left in each object. If the document is a value, what is refused is the text of its
canonical form. -/
theorem answerText_of_load_eq_error {source : String} (hsource : IsText source) {e : DocumentError}
    (h : load source = .error e) (settings : Settings) (breakpoint : Position) :
    ((∀ j, Json.ofText source = .ok j → j.KeysOnce documentKeys) →
      ∃ failure, answerText settings (requestText source breakpoint) = .error failure) ∧
    ∀ j, Json.ofText source = .ok j → j.nesting ≤ 126 →
      (∀ failure, answerText settings (requestText source breakpoint) = .error failure →
        ∃ e', load j.canonical.pretty = .error e' ∧ failure = .document e' j.canonical.pretty) ∧
      ((∀ n ∈ j.numbers, n.Integral) →
        ((∃ failure, answerText settings (requestText source breakpoint) = .error failure) ↔
          ∃ e', load j.latest.compact = .error e')) := by
  constructor
  · intro hkeys
    cases hrequest : Request.ofText (requestText source breakpoint) with
    | error e => exact ⟨.request e, by rw [answerText, hrequest]⟩
    | ok r =>
        obtain ⟨j, hj, hd⟩ := Request.exists_ofText hsource hrequest
        cases hload : load j.canonical.pretty with
        | ok loaded => cases h.symm.trans (load_of_load_pretty hsource hj (hkeys j hj) hload)
        | error e' => exact ⟨_, (answerText_eq_error_iff hj hd).mpr ⟨e', hload, rfl⟩⟩
  · intro j hj hd
    refine ⟨fun failure => (answerText_eq_error_iff hj hd).mp, fun hnumbers => ?_⟩
    rw [← exists_load_pretty_eq_error_iff (Nat.le_trans hd (by decide)) hnumbers]
    constructor
    · rintro ⟨failure, hfailure⟩
      obtain ⟨e', hload, -⟩ := (answerText_eq_error_iff hj hd).mp hfailure
      exact ⟨e', hload⟩
    · rintro ⟨e', hload⟩
      exact ⟨_, (answerText_eq_error_iff hj hd).mpr ⟨e', hload, rfl⟩⟩

/-- A sequence without a name and without a range. -/
def namelessJson : Json := .object [("kind", .text "sequence")]

theorem isText_namelessJson : IsText namelessJson.compact := by
  let entry : Json.WrittenEntry :=
    ⟨[], "kind".toList, [], ⟨[], '"' :: ("sequence".toList ++ ['"']), []⟩⟩
  have hproper : entry.Proper :=
    ⟨Json.blanks_nil, Json.isBody_of_plain (by decide), Json.blanks_nil,
      ⟨Json.blanks_nil, Json.blanks_nil⟩⟩
  have hvalue : Json.IsValue entry.value.text := .text (Json.isBody_of_plain (by decide))
  have hobject : Json.IsValue
      ('\x7b' :: (between [] [] Json.WrittenEntry.chars [entry] ++ ['\x7d'])) :=
    .object (fun e he => List.mem_singleton.mp he ▸ hproper) fun e he =>
      List.mem_singleton.mp he ▸ hvalue
  exact ⟨⟨[], namelessJson.compact.toList, []⟩, ⟨Json.blanks_nil, Json.blanks_nil⟩, hobject,
    (List.append_nil _).symm⟩

theorem load_namelessJson : ∃ e, load namelessJson.compact = .error e := by
  have hread : Json.ofText namelessJson.compact = .ok namelessJson :=
    Json.ofText_render Json.Layout.spaced_compact (by decide) (by decide)
  refine exists_error_of_ofJson hread fun kind fields htagged r hrecord => ?_
  cases htagged
  cases kind <;> cases hrecord

/-- What is refused is the text of the value over several lines. -/
theorem answerText_namelessJson :
    IsText namelessJson.compact ∧ (∃ e, load namelessJson.compact = .error e) ∧
    (∀ j, Json.ofText namelessJson.compact = .ok j → j.KeysOnce documentKeys) ∧
    ∃ e, answerText {} (requestText namelessJson.compact ⟨1, 0⟩) =
      .error (.document e "\x7b\n  \"kind\": \"sequence\"\n\x7d") := by
  have hread : Json.ofText namelessJson.compact = .ok namelessJson :=
    Json.ofText_render Json.Layout.spaced_compact (by decide) (by decide)
  have hkeys : ∀ j, Json.ofText namelessJson.compact = .ok j → j.KeysOnce documentKeys := by
    intro j hj
    cases hread.symm.trans hj
    decide
  obtain ⟨e, hload⟩ := load_namelessJson
  obtain ⟨hrefused, hfailure⟩ :=
    answerText_of_load_eq_error isText_namelessJson hload {} ⟨1, 0⟩
  obtain ⟨failure, hanswer⟩ := hrefused hkeys
  obtain ⟨e', -, rfl⟩ := (hfailure namelessJson hread (by decide)).1 failure hanswer
  exact ⟨isText_namelessJson, ⟨e, hload⟩, hkeys, e', hanswer⟩

/-- A sequence that is named twice. -/
def renamedJson : Json :=
  .object [
    ("kind", .text "sequence"),
    ("name", .text "a"),
    ("name", .text "b"),
    ("range", selfClosed 1 0 9),
    ("mediators", .array [.object [("tag", .text "log"), ("range", selfClosed 1 2 4)]])]
where
  position (line column : Int) : Json :=
    .object [("line", .number (.whole line)), ("column", .number (.whole column))]
  selfClosed (line first last : Int) : Json :=
    .object [("selfClosed", .object [("start", position line first), ("end", position line last)])]

/-- What is loaded for a request. -/
def renamedArtifact : Artifact String :=
  .sequence "b" ⟨⟨"sequence", .selfClosed ⟨⟨1, 0⟩, ⟨1, 9⟩⟩⟩,
    [⟨⟨"log", .selfClosed ⟨⟨1, 2⟩, ⟨1, 4⟩⟩⟩, .simple⟩]⟩

/-- The document does not load, since it is named twice, but the request is answered. -/
theorem answerText_renamedJson :
    Json.ofText renamedJson.compact = .ok renamedJson ∧ renamedJson.nesting ≤ 126 ∧
    (∀ n ∈ renamedJson.numbers, n.Integral) ∧ (∃ e, load renamedJson.compact = .error e) ∧
    answerText {} (requestText renamedJson.compact ⟨1, 3⟩) =
      .ok "\x7b\"breakpoints\":[]\x7d" := by
  have hread : Json.ofText renamedJson.compact = .ok renamedJson :=
    Json.ofText_render Json.Layout.spaced_compact (by decide) (by decide)
  have hrefused : ∃ e, load renamedJson.compact = .error e := by
    refine exists_error_of_ofJson hread fun kind fields htagged r hrecord => ?_
    cases htagged
    cases kind <;> cases hrecord
  have hpretty : Json.ofText renamedJson.canonical.pretty = .ok renamedJson.canonical :=
    Json.ofText_render Json.Layout.spaced_pretty (by decide) (by decide)
  have hload : load renamedJson.canonical.pretty = .ok ⟨renamedArtifact, []⟩ :=
    ArtifactRecord.load_of_examine
      (ArtifactRecord.ofText_eq_ok.mpr ⟨_, .sequence, _, hpretty, .object rfl, rfl⟩) rfl nofun
  have hdocument : loadDocument renamedJson.canonical.pretty = .ok renamedArtifact := by
    rw [loadDocument, hload]
  have hstep : renamedArtifact.stepOver {} ⟨1, 3⟩ = [] := by
    have hflows : renamedArtifact.flowsAt ⟨1, 3⟩ = renamedArtifact.rootFlows := by decide
    rw [Artifact.stepOver, hflows]
    simp only [Stepper.resolve, renamedArtifact, Artifact.rootFlows, List.foldl, Stepper.scanFlow,
      Stepper.scan]
    decide
  refine ⟨hread, by decide, by decide, hrefused, ?_⟩
  rw [answerText_requestText hread (by decide), hdocument]
  show Except.ok (Response.mk (renamedArtifact.stepOver {} ⟨1, 3⟩)).toJson.compact = _
  rw [hstep]
  rfl

end Mediation
