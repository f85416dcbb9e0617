import Mediation.Proofs.Document.Loading
import Mediation.Proofs.Json.Judging

/-! Texts that are JSON and no documents. The reader of documents judges the kind while it reads and the
records afterwards, and takes everything else as any value; so it judges what it reads, whatever the
value is (`ArtifactRecord.judges_reader`). A text that can be read as a value is then either loaded, or
refused for a shape that no document has, or refused for ranges that no element has; it is never called
malformed (`load_of_ofText_eq_ok`). -/

namespace Mediation

namespace ArtifactRecord

open Json.Reader

variable {s rest : List Char} {depth : Nat}

theorem judges_kind {j : Json} (h : value depth s = .done j rest) : Judges kind s rest := by
  obtain ⟨rest', hjudges⟩ := exists_judges_typed h
    (Json.oneNamed (ArtifactKind.all.map fun kind => (kind.name, kind)))
  cases hjudges with
  | @accepts k hkind =>
      cases h.symm.trans ((kind_eq_done depth).mp hkind)
      exact .accepts hkind
  | refuses hkind => exact .refuses hkind

theorem judges_takeEntry {e : String × Json} (h : entry (value depth) s = .done e rest)
    (state : Option ArtifactKind × List (String × Json)) :
    Judges (key >>= takeEntry depth state) s rest := by
  obtain ⟨s₁, s₂, hkey, hcolon, hvalue⟩ := entry_eq_done.mp h
  refine .bind_of_done hkey ?_
  rw [takeEntry]
  by_cases hkind : e.1 = "kind"
  · rw [if_pos hkind]
    split
    next => exact .mismatch _ _ _
    next => exact .bind_of_done hcolon ((judges_kind hvalue).bind fun _ _ => .pure _ rest)
  · rw [if_neg hkind]
    exact .bind_of_done hcolon (.bind_of_done hvalue (.pure _ rest))

theorem judges_entriesWithKind {es : List (String × Json)}
    (h : Gather moreEntries (entry (value depth)) true s es rest) :
    Judges (entriesWithKind depth) s rest := by
  have hentries : Judges (entries (none, []) (takeEntry depth)) s rest := by
    rw [entries_eq_members]
    exact judges_members steady_moreEntries moreEntries_eq_done_true
      (steady_entry (steady_value depth)) (fun h => judges_takeEntry h _) h _
  show Judges (entries (none, []) (takeEntry depth) >>= _) s rest
  refine hentries.bind fun found _ => ?_
  obtain ⟨kind?, found⟩ := found
  cases kind? with
  | none => exact .mismatch _ _ _
  | some kind => exact .pure _ rest

theorem judges_itemsWithKind {items : List Json}
    (h : Gather moreItems (value depth) true s items rest) :
    Judges (itemsWithKind depth) s rest := by
  cases h with
  | nil hmore => exact .bind_of_done hmore (.mismatch _ _ _)
  | cons hmore hvalue hitems =>
      refine .bind_of_done hmore ((judges_kind hvalue).bind fun _ _ => ?_)
      exact .bind_of_done ((itemList_eq_done (steady_value depth)).mpr hitems) (.pure _ rest)

/-- What is neither an array nor an object is refused. -/
theorem judges_tagged {j : Json} (h : value (depth + 1) s = .done j rest) :
    Judges (tagged (depth + 1)) s rest := by
  obtain ⟨c, _, htoken, hvalue⟩ := bind_eq_done.mp h
  obtain ⟨tail, hdrop, rfl⟩ := peekToken_eq_done.mp htoken
  have htail : value (depth + 1) (c :: tail) = .done j rest := by
    have hblank : (c :: tail).dropWhile isBlank = s.dropWhile isBlank := by
      rw [← hdrop]
      exact List.dropWhile_idempotent _ _
    rw [value_congr hblank, h]
  rw [tagged]
  refine .bind_of_done htoken ?_
  split
  next hdepth => cases hdepth
  next hdepth => cases hdepth
  next hdepth =>
      cases hdepth
      obtain ⟨items, s', hitems, hclose, -⟩ := value_array_eq_done.mp hvalue
      exact .inArray (judges_itemsWithKind hitems) hclose
  next hdepth =>
      cases hdepth
      obtain ⟨es, s', hes, hclose, -⟩ := value_object_eq_done.mp hvalue
      exact .inObject (judges_entriesWithKind hes) hclose
  next =>
      obtain ⟨rest', hjudges⟩ := exists_judges_typed htail fun other =>
        .error (.invalidType other.found "internally tagged enum RawArtifact")
      cases hjudges with
      | accepts htyped =>
          obtain ⟨_, -, hjudge⟩ := typed_eq_done.mp htyped
          cases hjudge
      | refuses htyped => exact .refuses htyped

theorem judges_reader {j : Json} (h : value (depth + 1) s = .done j rest) :
    Judges (reader (depth + 1)) s rest :=
  (judges_tagged h).bind fun x _ => .judged (ofJson x.1 x.2) rest

/-- A text that can be read as a value is not read as a document only because the value is none. -/
theorem exists_mismatch_of_ofText {text : String} {j : Json} (hj : Json.ofText text = .ok j)
    {e : Json.ReadError} (he : ofText text = .error e) :
    ∃ m, e.cause = .mismatch m := by
  obtain ⟨rest, hvalue, hrest⟩ := run_eq_ok.mp hj
  exact (judges_reader hvalue).run hrest he

end ArtifactRecord

/-- What is found in a document is never that its text is malformed. -/
theorem Finding.code_ne_malformedDocument (f : Finding) : f.code ≠ .malformedDocument := by
  cases f <;> exact nofun

theorem code_ne_of_mem_findings {fs : List Finding} {d : Diagnostic}
    (hd : d ∈ fs.map (·.diagnostic)) :
    d.code ≠ some .malformedDocument := by
  obtain ⟨f, -, rfl⟩ := List.mem_map.mp hd
  exact fun hcode => f.code_ne_malformedDocument (Option.some.inj hcode)

/-- A text that can be read as a value is loaded, or refused because the value does not have the shape
of a document, or refused because the document has an element that is not well formed. In no case is it
said to be malformed. -/
theorem load_of_ofText_eq_ok {source : String} {j : Json} (hj : Json.ofText source = .ok j) :
    ((∃ loaded, load source = .ok loaded) ∨
      (∃ d, load source = .error ⟨[d]⟩ ∧ d.severity = .error ∧ d.code = some .shapeMismatch) ∨
      ∃ r, ArtifactRecord.ofText source = .ok r ∧
        load source = .error ⟨r.examine.findings.map (·.diagnostic)⟩ ∧
        ∃ x ∈ r.elaborate.value.lineages, ¬x.node.range.WellFormed) ∧
    (∀ loaded, load source = .ok loaded → ∀ d ∈ loaded.warnings, d.code ≠ some .malformedDocument) ∧
    ∀ e, load source = .error e → ∀ d ∈ e.diagnostics, d.code ≠ some .malformedDocument := by
  cases hr : ArtifactRecord.ofText source with
  | error e =>
      obtain ⟨m, hm⟩ := ArtifactRecord.exists_mismatch_of_ofText hj hr
      have hload : load source = .error ⟨[e.diagnostic source]⟩ := by rw [load, hr]
      have hcode : (e.diagnostic source).code = some .shapeMismatch := by
        show some e.diagnosticCode = _
        rw [Json.ReadError.diagnosticCode, hm]
        rfl
      refine ⟨.inr (.inl ⟨_, hload, rfl, hcode⟩), fun loaded h => ?_, fun e' h d hd => ?_⟩
      · cases hload.symm.trans h
      · cases hload.symm.trans h
        rw [List.mem_singleton.mp hd, hcode]
        decide
  | ok r =>
      have hload := ArtifactRecord.load_of_ofText hr
      split at hload
      next herror =>
          have hill := ArtifactRecord.exists_error_examine_iff.mp herror
          refine ⟨.inr (.inr ⟨r, rfl, hload, hill⟩), fun loaded h => ?_, fun e' h d hd => ?_⟩
          · cases hload.symm.trans h
          · cases hload.symm.trans h
            exact code_ne_of_mem_findings hd
      next =>
          refine ⟨.inl ⟨_, hload⟩, fun loaded h d hd => ?_, fun e' h => ?_⟩
          · cases hload.symm.trans h
            exact code_ne_of_mem_findings hd
          · cases hload.symm.trans h

/-- A document written as an array, with a name and without a range. -/
def rangelessJson : Json := .array [.text "sequence", .text "main"]

/-- The shape of the document is what is wrong. -/
theorem load_rangelessJson :
    Json.ofText rangelessJson.compact = .ok rangelessJson ∧
    ∃ d, load rangelessJson.compact = .error ⟨[d]⟩ ∧ d.code = some .shapeMismatch := by
  have hread : Json.ofText rangelessJson.compact = .ok rangelessJson :=
    Json.ofText_render Json.Layout.spaced_compact (by decide) (by decide)
  have hrefused : ∀ r, ArtifactRecord.ofText rangelessJson.compact ≠ .ok r := by
    intro r hr
    obtain ⟨j, kind, fields, hj, htagged, hrecord⟩ := ArtifactRecord.ofText_eq_ok.mp hr
    obtain rfl : rangelessJson = j := Except.ok.inj (hread.symm.trans hj)
    generalize hvalue : rangelessJson = j at htagged
    cases htagged with
    | object => cases hvalue
    | array =>
        obtain ⟨-, rfl⟩ := List.cons.inj (Json.array.inj hvalue)
        cases kind <;> cases hrecord
  refine ⟨hread, ?_⟩
  rcases (load_of_ofText_eq_ok hread).1 with ⟨loaded, hload⟩ | ⟨d, hload, -, hcode⟩ | ⟨r, hr, -⟩
  · obtain ⟨r, hr, -⟩ := load_eq_ok_iff.mp hload
    exact absurd hr (hrefused r)
  · exact ⟨d, hload, hcode⟩
  · exact absurd hr (hrefused r)

end Mediation
