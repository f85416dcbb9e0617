import Mediation.Engine
import Mediation.Proofs.Document.Reading
import Mediation.Proofs.Json.Printing.Record

/-! A request and the document in it. A request is read from the text that its document stands in
(`Request.ofText_requestText`), and what is loaded then is not that text but the text of the value it
was read as. Both make the same artifact, so a request is answered by what stepping over in the
document itself gives (`answerText_of_load`). -/

namespace Mediation

open Json (Blanks Layout)
open Json.Reader

namespace Position

theorem toList_render_toJson {layout : Layout} {c : List Char}
    (hcolon : layout.colon.toList = ':' :: c) (p : Position) (k : Nat) (s : List Char) :
    (p.toJson.render layout k).toList ++ s =
      '\x7b' :: ((layout.newline (k + 1)).toList ++ ((Json.quote "line").toList ++
        ':' :: (c ++ ((Json.Number.whole p.line.toNat).text.toList ++
          ',' :: ((layout.newline (k + 1)).toList ++ ((Json.quote "column").toList ++
            ':' :: (c ++ ((Json.Number.whole p.column.toNat).text.toList ++
              ((layout.newline k).toList ++ '\x7d' :: s))))))))) := by
  have hbrackets : "\x7b".toList = ['\x7b'] ∧ "\x7d".toList = ['\x7d'] := by decide
  rw [toJson, Json.render, Json.renderEntries_eq_map, toList_enclose, hbrackets.1, hbrackets.2]
  simp only [between, Json.toList_renderEntry, hcolon, Json.render, List.cons_append,
    List.flatMap_cons, List.flatMap_nil, List.append_nil, List.append_assoc, List.nil_append]

theorem integral_toNat (n : UInt32) : (Json.Number.whole n.toNat).Integral := by
  have hlt := n.toNat_lt
  have hmax : UInt32.size ≤ maxWhole := by decide
  show -(maxNegative : Int) ≤ n.toNat ∧ (n.toNat : Int) ≤ maxWhole
  rw [UInt32.size] at hmax
  omega

theorem uint32_toNat (n : UInt32) : Json.uint32 (.number (.whole n.toNat)) = .ok n := by
  have hlt := n.toNat_lt
  rw [Json.uint32, if_pos (by rw [UInt32.size]; omega), Int.toNat_natCast, UInt32.ofNat_toNat]

/-- A position is read as it has been written. -/
theorem reader_render {layout : Layout} (hlayout : layout.Spaced) (depth : Nat) (p : Position)
    (k : Nat) {w : List Char} (hw : Blanks w) (s : List Char) :
    textShape.reader (depth + 1) (w ++ ((p.toJson.render layout k).toList ++ s)) = .done p s := by
  obtain ⟨c, hcolon, hc⟩ := hlayout.colon
  have hnumber {n : UInt32} {s : List Char} (hs : Stops s) :
      typed Json.uint32 (c ++ ((Json.Number.whole n.toNat).text.toList ++ s)) = .done n s :=
    typed_number (integral_toNat n) (uint32_toNat n) hc hs
  have hle (u v : List Char) : v.length ≤ (c ++ (u ++ v)).length := by
    rw [List.length_append, List.length_append]
    omega
  have hdrop {t : List Char} : (w ++ '\x7b' :: t).dropWhile isBlank = '\x7b' :: t := by
    rw [dropWhile_blanks hw]
    rfl
  rw [toList_render_toJson hcolon]
  refine Json.Shape.reader_of_runs hdrop (Json.Shape.runs_field
    (moreEntries_quote_true (hlayout.newline _) "line" _) rfl (map_of_done (hnumber ?_) _) (hle _ _)
    (Json.Shape.runs_field (moreEntries_quote_false (hlayout.newline _) Json.blanks_nil "column" _)
      rfl (map_of_done (hnumber ?_) _) (hle _ _)
      (Json.Shape.runs_close (hlayout.newline k) _ s))) rfl
  · exact stops_cons (.inl rfl) _
  · exact stops_append (hlayout.newline k) (stops_cons (.inr (.inr rfl)) s)

end Position

/-- The text of a request for a document with the given text. -/
def requestText (source : String) (breakpoint : Position) : String :=
  "\x7b\"document\": " ++ source ++ ", \"breakpoint\": " ++ breakpoint.toJson.compact ++ "\x7d"

theorem toList_requestText (source : String) (breakpoint : Position) :
    (requestText source breakpoint).toList =
      '\x7b' :: ((Json.quote "document").toList ++ ':' :: ([' '] ++ (source.toList ++
        ',' :: ([' '] ++ ((Json.quote "breakpoint").toList ++
          ':' :: ([' '] ++ (breakpoint.toJson.compact.toList ++ ['\x7d']))))))) := by
  have hdocument : "\x7b\"document\": ".toList =
      '\x7b' :: ((Json.quote "document").toList ++ [':', ' ']) := by decide
  have hbreakpoint : ", \"breakpoint\": ".toList =
      ',' :: ' ' :: ((Json.quote "breakpoint").toList ++ [':', ' ']) := by decide
  have happend (a b c d e : String) : (a ++ b ++ c ++ d ++ e).toList =
      a.toList ++ (b.toList ++ (c.toList ++ (d.toList ++ e.toList))) := by
    simp only [String.toList_append, List.append_assoc]
  refine (happend _ _ _ _ _).trans ?_
  rw [hdocument, hbreakpoint]
  simp only [List.cons_append, List.append_assoc, List.nil_append]
  rfl

namespace Request

/-- A request is read as what its document is read as, with its entries sorted, and its
breakpoint. -/
theorem ofText_requestText {source : String} {j : Json} (hj : Json.ofText source = .ok j)
    (hd : j.nesting + 1 ≤ Json.nestingLimit) (breakpoint : Position) :
    ofText (requestText source breakpoint) = .ok ⟨j.canonical, breakpoint⟩ := by
  obtain ⟨rest, hread, hrest⟩ := run_eq_ok.mp hj
  have hblanks : Blanks rest := List.dropWhile_eq_nil_iff.mp hrest
  have hdocument {s : List Char} :
      value 126 ([' '] ++ (source.toList ++ ',' :: s)) = .done j (rest ++ ',' :: s) := by
    have hshallow := value_of_nesting_le hread (Nat.le_of_succ_le_succ hd)
    have happend := (steady_value 126).append (begins_none _) hshallow (stops_cons (.inl rfl) s)
    exact (value_congr rfl 126).trans happend
  have hle {s : List Char} :
      (rest ++ ',' :: s).length ≤ ([' '] ++ (source.toList ++ ',' :: s)).length := by
    have hlen := (steady_value Json.nestingLimit).length (begins_none _) hread
    simp only [List.length_append]
    omega
  have hbreakpoint (s : List Char) : Position.textShape.reader 126
      ([' '] ++ (breakpoint.toJson.compact.toList ++ s)) = .done breakpoint s :=
    Position.reader_render Json.Layout.spaced_compact 125 breakpoint 0 Json.blanks_space s
  refine run_eq_ok.mpr ⟨[], ?_, rfl⟩
  rw [toList_requestText]
  refine Json.Shape.reader_of_runs rfl (Json.Shape.runs_field
    (moreEntries_quote_true Json.blanks_nil "document" _) rfl (map_of_done hdocument _) hle
    (Json.Shape.runs_field (moreEntries_quote_false Json.blanks_space hblanks "breakpoint" _) rfl
      (map_of_done (hbreakpoint _) _) ?_ (Json.Shape.runs_close Json.blanks_nil _ []))) rfl
  simp only [List.length_append]
  omega

end Request

/-! Answers. -/

/-- A document loads as it did when it is written anew with its entries sorted. -/
theorem load_pretty {source : String} {loaded : Loaded} {j : Json} (h : load source = .ok loaded)
    (hj : Json.ofText source = .ok j) (hd : j.nesting ≤ Json.nestingLimit)
    (hnumbers : ∀ n ∈ j.numbers, n.Integral) :
    load j.canonical.pretty = .ok loaded := by
  rw [load] at h
  split at h
  next => cases h
  next record hrecord =>
      rw [load, ArtifactRecord.ofText_pretty hrecord hj hd hnumbers]
      exact h

theorem exists_ofText_of_load {source : String} {loaded : Loaded} (h : load source = .ok loaded) :
    ∃ j, Json.ofText source = .ok j := by
  rw [load] at h
  split at h
  next => cases h
  next record hrecord =>
      obtain ⟨j, _, _, hj, -, -⟩ := ArtifactRecord.ofText_eq_ok.mp hrecord
      exact ⟨j, hj⟩

/-- What is loaded for a request is the text of the value that its document has been read as, with its
entries sorted. -/
theorem answerText_requestText {source : String} {j : Json} (hj : Json.ofText source = .ok j)
    (hd : j.nesting ≤ 126) (settings : Settings) (breakpoint : Position) :
    answerText settings (requestText source breakpoint) =
      (loadDocument j.canonical.pretty).map fun artifact =>
        (Response.mk (artifact.stepOver settings breakpoint)).toJson.compact := by
  have hrequest := Request.ofText_requestText hj (Nat.succ_le_succ hd) breakpoint
  rw [answerText, hrequest]
  show (do return (← Request.answer settings _).toJson.compact : Except Failure String) = _
  rw [Request.answer, stepOverIn, Request.source]
  cases loadDocument j.canonical.pretty <;> rfl

/-- A document that loads is a value. If the value leaves room for the request around it, and its
numbers are whole numbers of 64 bits, what is loaded for a request is what has been loaded, and the
request is answered by what stepping over in that artifact gives. -/
theorem answerText_of_load {source : String} {loaded : Loaded} (h : load source = .ok loaded) :
    ∃ j, Json.ofText source = .ok j ∧
      (j.nesting ≤ 126 → (∀ n ∈ j.numbers, n.Integral) →
        load j.canonical.pretty = .ok loaded ∧
        ∀ (settings : Settings) (breakpoint : Position),
          answerText settings (requestText source breakpoint) =
            .ok (Response.mk (loaded.artifact.stepOver settings breakpoint)).toJson.compact) := by
  obtain ⟨j, hj⟩ := exists_ofText_of_load h
  refine ⟨j, hj, fun hd hnumbers => ?_⟩
  have hd' : j.nesting ≤ Json.nestingLimit := Nat.le_trans hd (by decide)
  have hload := load_pretty h hj hd' hnumbers
  refine ⟨hload, fun settings breakpoint => ?_⟩
  have hdocument : loadDocument j.canonical.pretty = .ok loaded.artifact := by
    rw [loadDocument, hload]
  rw [answerText_requestText hj hd, hdocument]
  rfl

/-- A sequence of two mediators. A member that nothing asks for stands in it twice. -/
def repeatingJson : Json :=
  .object [
    ("version", .number (.whole 1)),
    ("kind", .text "sequence"),
    ("name", .text "main"),
    ("version", .null),
    ("range", selfClosed 1 4),
    ("mediators", .array [
      .object [("range", selfClosed 2 2), ("tag", .text "log")],
      .object [("tag", .text "drop"), ("range", selfClosed 3 3)]])]
where
  position (line column : Int) : Json := .array [.number (.whole line), .number (.whole column)]
  selfClosed (first last : Int) : Json :=
    .object [("selfClosed", .array [position first 0, position last 9])]

/-- What is loaded for it. -/
def repeatingArtifact : Artifact String :=
  .sequence "main" ⟨⟨"sequence", .selfClosed ⟨⟨1, 0⟩, ⟨4, 9⟩⟩⟩,
    [⟨⟨"log", .selfClosed ⟨⟨2, 0⟩, ⟨2, 9⟩⟩⟩, .simple⟩,
      ⟨⟨"drop", .selfClosed ⟨⟨3, 0⟩, ⟨3, 9⟩⟩⟩, .simple⟩]⟩

/-- Behind the log comes the drop. -/
theorem answerText_repeatingJson :
    load repeatingJson.compact = .ok ⟨repeatingArtifact, []⟩ ∧
    repeatingJson.nesting ≤ 126 ∧ (∀ n ∈ repeatingJson.numbers, n.Integral) ∧
    answerText {} (requestText repeatingJson.compact ⟨2, 5⟩) =
      .ok "\x7b\"breakpoints\":[\x7b\"line\":3,\"column\":0\x7d]\x7d" := by
  have hread : Json.ofText repeatingJson.compact = .ok repeatingJson :=
    Json.ofText_render Json.Layout.spaced_compact (by decide) (by decide)
  have hload : load repeatingJson.compact = .ok ⟨repeatingArtifact, []⟩ := by
    have hrecord : ∃ record, ArtifactRecord.ofText repeatingJson.compact = .ok record ∧
        record.examine = ⟨repeatingArtifact, []⟩ :=
      ⟨_, ArtifactRecord.ofText_eq_ok.mpr ⟨_, .sequence, _, hread, .object rfl, rfl⟩, rfl⟩
    obtain ⟨record, hrecord, hexamine⟩ := hrecord
    rw [load, hrecord]
    simp [hexamine]
  have hstep : repeatingArtifact.stepOver {} ⟨2, 5⟩ = [⟨3, 0⟩] := by
    have hflows : repeatingArtifact.flowsAt ⟨2, 5⟩ = repeatingArtifact.rootFlows := by decide
    rw [Artifact.stepOver, hflows]
    simp only [Stepper.resolve, repeatingArtifact, Artifact.rootFlows, List.foldl, Stepper.scanFlow,
      Stepper.scan]
    decide
  obtain ⟨j, hj, hanswer⟩ := answerText_of_load hload
  obtain rfl : repeatingJson = j := Except.ok.inj (hread.symm.trans hj)
  refine ⟨hload, by decide, by decide, ?_⟩
  rw [(hanswer (by decide) (by decide)).2 {} ⟨2, 5⟩, hstep]
  rfl

end Mediation
