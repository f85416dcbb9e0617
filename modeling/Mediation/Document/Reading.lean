import Mediation.Artifact
import Mediation.Document.Record
import Mediation.Json.Reader.Value
import Mediation.Json.Record

/-! Reading a document. The text is read as one JSON value of which only the `kind` is judged right
away; the records are made from the rest when all of it has been read. So whatever is no JSON is
found first, and what is wrong with a record is found afterwards and has no place in the text. -/

namespace Mediation

open Json (Mismatch Shape Field)

/-! Ranges. -/

def Position.shape : Shape.OfJson Position where
  title := "struct Position"
  blank := ⟨0, 0⟩
  fields := [
    .required "line" Json.uint32 fun line p => { p with line },
    .required "column" Json.uint32 fun column p => { p with column }]

def TagRange.shape : Shape.OfJson TagRange where
  title := "struct RawTagRange"
  blank := ⟨⟨0, 0⟩, ⟨0, 0⟩⟩
  fields := [
    .required "start" Position.shape.ofJson fun start r => { r with start },
    .required "end" Position.shape.ofJson fun stop r => { r with stop }]

namespace SourceRange

/-- The start tag and the end tag of a container. -/
def tagsShape : Shape.OfJson (TagRange × TagRange) where
  title := "struct variant RawRange::Container"
  blank := (TagRange.shape.blank, TagRange.shape.blank)
  fields := [
    .required "startTag" TagRange.shape.ofJson fun startTag r => (startTag, r.2),
    .required "endTag" TagRange.shape.ofJson fun endTag r => (r.1, endTag)]

/-- The two ways in which a range is written. -/
inductive Form where
  | selfClosed
  | container
  deriving DecidableEq, Repr

def forms : List (String × Form) := [("selfClosed", .selfClosed), ("container", .container)]

/-- A range is written as an object with one entry, whose key is the form. -/
def ofJson : Json → Except Mismatch SourceRange
  | .object [(name, content)] => do
    match ← Json.oneNamed forms (.text name), content with
    | .selfClosed, content => selfClosed <$> TagRange.shape.ofJson content
    | .container, .array _ | .container, .object _ =>
        (fun (startTag, endTag) => container startTag endTag) <$> tagsShape.ofJson content
    | .container, other => .error (.invalidType other.found "struct variant")
  | .object _ => .error (.invalidValue .map "map with a single key")
  | .text name => do
    match ← Json.oneNamed forms (.text name) with
    | .selfClosed => .error (.invalidType .unitVariant "newtype variant")
    | .container => .error (.invalidType .unitVariant "struct variant")
  | other => .error (.invalidType other.found "string or map")

/-- What stands for a range before it has been read. -/
def blank : SourceRange := selfClosed TagRange.shape.blank

end SourceRange

/-! Flows and mediators. -/

namespace FlowRecord

/-- A flow, given how its mediators are read. -/
def shapeOf (mediator : Json → Except Mismatch (MediatorRecord FlowRecord)) :
    Shape.OfJson FlowRecord where
  title := "struct RawFlow"
  blank := ⟨⟨"", .blank⟩, []⟩
  fields := [
    .required "tag" Json.string fun tag f => { f with node := { f.node with tag } },
    .required "range" SourceRange.ofJson fun range f => { f with node := { f.node with range } },
    .defaulted "mediators" (Json.list mediator) fun mediators f => { f with mediators }]

end FlowRecord

namespace CaseRecord

/-- A case, given how its mediators are read. It is a flow with a regex, and its tag may be left
out. -/
def shapeOf (mediator : Json → Except Mismatch (MediatorRecord FlowRecord)) :
    Shape.OfJson (CaseRecord FlowRecord) where
  title := "struct RawCase"
  blank := ⟨none, ⟨⟨"case", .blank⟩, []⟩⟩
  fields := [
    .defaulted "tag" Json.string fun tag c =>
      { c with flow := { c.flow with node := { c.flow.node with tag } } },
    .required "range" SourceRange.ofJson fun range c =>
      { c with flow := { c.flow with node := { c.flow.node with range } } },
    .optional "regex" Json.string fun regex c => { c with regex },
    .defaulted "mediators" (Json.list mediator) fun mediators c =>
      { c with flow := { c.flow with mediators } }]

end CaseRecord

/-- A fan-out target, given how its sequence is read. -/
def Target.shapeOf {φ : Type} (flow : Json → Except Mismatch φ) :
    Shape.OfJson (Target String φ) where
  title := "struct RawTarget"
  blank := ⟨⟨"target", .blank⟩, none⟩
  fields := [
    .defaulted "tag" Json.string fun tag t => { t with node := { t.node with tag } },
    .required "range" SourceRange.ofJson fun range t => { t with node := { t.node with range } },
    .optional "sequence" flow fun sequence t => { t with sequence }]

/-- A mediator, given how the flows and the cases it nests are read. -/
def MediatorRecord.shapeOf {φ : Type} (flow : Json → Except Mismatch φ)
    (case : Json → Except Mismatch (CaseRecord φ)) : Shape.OfJson (MediatorRecord φ) where
  title := "struct RawMediator"
  blank := .bare ⟨"", .blank⟩
  fields := [
    .required "tag" Json.string fun tag m => { m with node := { m.node with tag } },
    .required "range" SourceRange.ofJson fun range m => { m with node := { m.node with range } },
    .optional "then" flow fun thenFlow m => { m with thenFlow },
    .optional "else" flow fun elseFlow m => { m with elseFlow },
    .optional "onAccept" flow fun onAccept m => { m with onAccept },
    .optional "onReject" flow fun onReject m => { m with onReject },
    .optional "cases" (Json.list case) fun cases m => { m with cases },
    .optional "default" flow fun default m => { m with default },
    .optional "advice" flow fun advice m => { m with advice },
    .optional "obligations" flow fun obligations m => { m with obligations },
    .optional "onCacheHit" flow fun onCacheHit m => { m with onCacheHit },
    .optional "onFail" flow fun onFail m => { m with onFail },
    .optional "targets" (Json.list (Target.shapeOf flow).ofJson) fun targets m =>
      { m with targets },
    .optional "target" (Target.shapeOf flow).ofJson fun target m => { m with target },
    .optional "sequence" flow fun sequence m => { m with sequence },
    .optional "onComplete" flow fun onComplete m => { m with onComplete }]

namespace MediatorRecord

/-- A mediator in a value that nests no deeper than `depth`. What a value nests is at least one
level less deep than the value, and a value that nests nothing is no mediator. -/
def ofJsonUpTo : Nat → Json → Except Mismatch (MediatorRecord FlowRecord)
  | 0, j => .error (.invalidType j.found "struct RawMediator")
  | depth + 1, j =>
      (shapeOf (FlowRecord.shapeOf (ofJsonUpTo depth)).ofJson
        (CaseRecord.shapeOf (ofJsonUpTo depth)).ofJson).ofJson j

def ofJson (j : Json) : Except Mismatch (MediatorRecord FlowRecord) := ofJsonUpTo j.nesting j

end MediatorRecord

def FlowRecord.ofJson : Json → Except Mismatch FlowRecord :=
  (FlowRecord.shapeOf MediatorRecord.ofJson).ofJson

/-! Artifacts. -/

def SequencesRecord.shape : Shape.OfJson SequencesRecord where
  title := "struct RawSequences"
  blank := ⟨none, none, none⟩
  fields := [
    .optional "inSequence" FlowRecord.ofJson fun inSequence s => { s with inSequence },
    .optional "outSequence" FlowRecord.ofJson fun outSequence s => { s with outSequence },
    .optional "faultSequence" FlowRecord.ofJson fun faultSequence s => { s with faultSequence }]

/-- A record with sequences, whose fields stand among its own. It is written as an object, and its
own fields are read first. -/
def SequencesRecord.within {σ : Type} (shape : Shape.OfJson σ) :
    Json → Except Mismatch (σ × SequencesRecord)
  | .object entries => do
    let (record, others) ← shape.ofEntries entries
    let (sequences, _) ← SequencesRecord.shape.ofEntries others
    pure (record, sequences)
  | other => .error (.invalidType other.found shape.title)

def ResourceRecord.ofJson (j : Json) : Except Mismatch ResourceRecord := do
  let ((range, uriTemplate), sequences) ← SequencesRecord.within
    { title := "struct RawResource"
      blank := (SourceRange.blank, none)
      fields := [
        .required "range" SourceRange.ofJson fun range r => (range, r.2),
        .optional "uriTemplate" Json.string fun uriTemplate r => (r.1, uriTemplate)] } j
  pure { range, uriTemplate, sequences }

def ProxyTargetRecord.ofJson (j : Json) : Except Mismatch ProxyTargetRecord := do
  let (range, sequences) ← SequencesRecord.within
    { title := "struct RawProxyTarget"
      blank := SourceRange.blank
      fields := [.required "range" SourceRange.ofJson fun range _ => range] } j
  pure { range, sequences }

def ApiRecord.shape : Shape.OfJson ApiRecord where
  title := "struct RawApi"
  blank := ⟨"", .blank, []⟩
  fields := [
    .required "name" Json.string fun name r => { r with name },
    .required "range" SourceRange.ofJson fun range r => { r with range },
    .defaulted "resources" (Json.list ResourceRecord.ofJson) fun resources r =>
      { r with resources }]

def ProxyRecord.shape : Shape.OfJson ProxyRecord where
  title := "struct RawProxy"
  blank := ⟨"", .blank, none⟩
  fields := [
    .required "name" Json.string fun name r => { r with name },
    .required "range" SourceRange.ofJson fun range r => { r with range },
    .optional "target" ProxyTargetRecord.ofJson fun target r => { r with target }]

def SequenceRecord.shape : Shape.OfJson SequenceRecord where
  title := "struct RawNamedSequence"
  blank := ⟨"", .blank, []⟩
  fields := [
    .required "name" Json.string fun name r => { r with name },
    .required "range" SourceRange.ofJson fun range r => { r with range },
    .defaulted "mediators" (Json.list MediatorRecord.ofJson) fun mediators r =>
      { r with mediators }]

def TemplateRecord.shape : Shape.OfJson TemplateRecord where
  title := "struct RawTemplate"
  blank := ⟨"", .blank, none⟩
  fields := [
    .required "name" Json.string fun name r => { r with name },
    .required "range" SourceRange.ofJson fun range r => { r with range },
    .optional "sequence" FlowRecord.ofJson fun sequence r => { r with sequence }]

namespace ArtifactRecord

def ofJson : ArtifactKind → Json → Except Mismatch ArtifactRecord
  | .api, j => api <$> ApiRecord.shape.ofJson j
  | .proxy, j => proxy <$> ProxyRecord.shape.ofJson j
  | .sequence, j => sequence <$> SequenceRecord.shape.ofJson j
  | .template, j => template <$> TemplateRecord.shape.ofJson j

open Json.Reader

/-- The kind of a document, judged as soon as it is met. -/
def kind : Json.Reader ArtifactKind :=
  typed (Json.oneNamed (ArtifactKind.all.map fun kind => (kind.name, kind)))

/-- The kind and the fields of a document written as an object. The kind is one entry among the
others, and there is only one. -/
def entriesWithKind (depth : Nat) : Json.Reader (ArtifactKind × Json) := do
  let (kind?, found) ← entries (none, []) fun (kind?, found) key => do
    if key = "kind" then
      if kind?.isSome then mismatch (.duplicateField "kind")
      else do
        colon
        return (some (← kind), found)
    else do
      colon
      return (kind?, (key, ← value depth) :: found)
  match kind? with
  | some kind => pure (kind, .object found.reverse)
  | none => mismatch (.missingField "kind")

/-- The kind and the fields of a document written as an array. The kind is the first item. -/
def itemsWithKind (depth : Nat) : Json.Reader (ArtifactKind × Json) := do
  if ← moreItems true then
    let kind ← kind
    return (kind, .array (← itemList false (value depth)))
  else mismatch (.missingField "kind")

/-- The kind and the fields of a document. -/
def tagged (depth : Nat) : Json.Reader (ArtifactKind × Json) := do
  match ← peekToken .eofValue, depth with
  | '[', 0 | '\x7b', 0 => tooDeep
  | '[', depth + 1 => inArray (itemsWithKind depth)
  | '\x7b', depth + 1 => inObject (entriesWithKind depth)
  | _, _ => typed fun other =>
      .error (.invalidType other.found "internally tagged enum RawArtifact")

def reader (depth : Nat) : Json.Reader ArtifactRecord := do
  let (kind, fields) ← tagged depth
  judged (ofJson kind fields)

def ofText (text : String) : Except Json.ReadError ArtifactRecord :=
  (reader Json.nestingLimit).run text

end ArtifactRecord

end Mediation
