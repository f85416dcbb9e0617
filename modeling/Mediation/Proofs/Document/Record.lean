import Mediation.Document.Reading
import Mediation.Proofs.Json.Record

/-! Documents that have been recast. Every reader of a part of a document follows itself: what it
makes of a value it makes of every value that holds the same. The parts come from the inside out.
Mediators are read level by level, and since what repeated entries have does not count, the two values
may differ in levels; so there the readers of two depths are compared
(`MediatorRecord.follows_ofJsonUpTo`). -/

namespace Mediation

open Json (Follows Field Shape Mismatch)
open Json.Field (follows_required follows_optional follows_defaulted)

/-- The keys that mean something in a document. -/
def documentKeys : List String := [
  -- ranges
  "line", "column", "start", "end", "startTag", "endTag", "selfClosed", "container",
  -- artifacts
  "kind", "name", "range", "resources", "uriTemplate", "target", "inSequence", "outSequence",
  "faultSequence", "sequence", "mediators",
  -- mediators
  "tag", "then", "else", "onAccept", "onReject", "cases", "regex", "default", "advice",
  "obligations", "onCacheHit", "onFail", "targets", "onComplete"]

abbrev IsKey (key : String) : Prop := key ∈ documentKeys

section

variable {n : Nat}

theorem follows_of_shape {σ : Type} {shape shape' : Shape.OfJson σ}
    (h : shape.Follows IsKey n shape') :
    Follows IsKey n shape.ofJson shape'.ofJson :=
  h.ofJson.of_le (Nat.le_succ n)

/-! Ranges. -/

theorem Position.follows_shape : Position.shape.Follows IsKey n Position.shape where
  keys := by simp [Position.shape, Field.required, IsKey, documentKeys]
  blank := rfl
  fields := .cons (follows_required Json.follows_uint32)
    (.cons (follows_required Json.follows_uint32) .nil)
  commute := by simp [Position.shape, Field.required]

theorem TagRange.follows_shape : TagRange.shape.Follows IsKey n TagRange.shape where
  keys := by simp [TagRange.shape, Field.required, IsKey, documentKeys]
  blank := rfl
  fields := .cons (follows_required (follows_of_shape Position.follows_shape))
    (.cons (follows_required (follows_of_shape Position.follows_shape)) .nil)
  commute := by simp [TagRange.shape, Field.required]

theorem SourceRange.follows_tagsShape :
    SourceRange.tagsShape.Follows IsKey n SourceRange.tagsShape where
  keys := by simp [SourceRange.tagsShape, Field.required, IsKey, documentKeys]
  blank := rfl
  fields := .cons (follows_required (follows_of_shape TagRange.follows_shape))
    (.cons (follows_required (follows_of_shape TagRange.follows_shape)) .nil)
  commute := by simp [SourceRange.tagsShape, Field.required]

theorem SourceRange.isKey_of_form {name : String} {form : SourceRange.Form}
    (h : Json.oneNamed SourceRange.forms (.text name) = .ok form) :
    IsKey name := by
  rw [Json.oneNamed] at h
  split at h
  next hform =>
      obtain ⟨l, l', hlist, -⟩ := List.lookup_eq_some_iff.mp hform
      have hmem : name ∈ SourceRange.forms.map (·.1) := by
        rw [hlist]
        simp
      have hall : ∀ name ∈ SourceRange.forms.map (·.1), IsKey name := by decide
      exact hall name hmem
  next => cases h

theorem SourceRange.follows_ofJson : Follows IsKey n SourceRange.ofJson SourceRange.ofJson := by
  intro j j' range hj hn hok
  cases hj with
  | @object entries entries' hkeys hes =>
      match entries with
      | [] => cases hok
      | _ :: _ :: _ => cases hok
      | [(name, content)] =>
          rw [SourceRange.ofJson, Json.bind_eq_ok] at hok
          obtain ⟨form, hform, hok⟩ := hok
          have hre : Json.Reordered IsKey [(name, content)] entries' := ⟨hkeys, hes⟩
          obtain ⟨_, hperm, hentries⟩ := hre.exists_perm
            (fun e he => List.mem_singleton.mp he ▸ isKey_of_form hform) (List.nodup_singleton name)
          obtain ⟨⟨_, content'⟩, _, ⟨rfl, hvalue⟩, hnil, rfl⟩ :=
            List.forall₂_cons_left_iff.mp hentries
          cases hnil
          obtain rfl := List.perm_singleton.mp hperm
          have hvalue : Json.Recast IsKey content content' := hvalue
          have hcontent := Json.nesting_le_of_mem_object hn _ List.mem_cons_self
          rw [SourceRange.ofJson, Json.bind_eq_ok]
          refine ⟨form, hform, ?_⟩
          cases form with
          | selfClosed =>
              exact (follows_of_shape TagRange.follows_shape).map selfClosed hvalue hcontent hok
          | container =>
              have htags : Follows IsKey n
                  (fun j => (fun (tags : TagRange × TagRange) => container tags.1 tags.2) <$>
                    tagsShape.ofJson j) _ :=
                (follows_of_shape SourceRange.follows_tagsShape).map _
              cases hvalue with
              | array hitems => exact htags (.array hitems) hcontent hok
              | object hnames hfields => exact htags (.object hnames hfields) hcontent hok
              | null | bool | whole | real | text => cases hok
  | text => exact hok
  | null | bool | whole | real | array => cases hok

/-! Flows and mediators. -/

theorem FlowRecord.follows_shapeOf
    {mediator mediator' : Json → Except Mismatch (MediatorRecord FlowRecord)}
    (h : Follows IsKey n mediator mediator') :
    (FlowRecord.shapeOf mediator).Follows IsKey n (FlowRecord.shapeOf mediator') where
  keys := by simp [FlowRecord.shapeOf, Field.required, Field.defaulted, IsKey, documentKeys]
  blank := rfl
  fields := .cons (follows_required Json.follows_string)
    (.cons (follows_required SourceRange.follows_ofJson) (.cons (follows_defaulted h.list) .nil))
  commute := by simp [FlowRecord.shapeOf, Field.required, Field.defaulted]

theorem CaseRecord.follows_shapeOf
    {mediator mediator' : Json → Except Mismatch (MediatorRecord FlowRecord)}
    (h : Follows IsKey n mediator mediator') :
    (CaseRecord.shapeOf mediator).Follows IsKey n (CaseRecord.shapeOf mediator') where
  keys := by
    simp [CaseRecord.shapeOf, Field.required, Field.optional, Field.defaulted, IsKey, documentKeys]
  blank := rfl
  fields := .cons (follows_defaulted Json.follows_string)
    (.cons (follows_required SourceRange.follows_ofJson)
      (.cons (follows_optional Json.follows_string) (.cons (follows_defaulted h.list) .nil)))
  commute := by simp [CaseRecord.shapeOf, Field.required, Field.optional, Field.defaulted]

theorem Target.follows_shapeOf {φ : Type} {flow flow' : Json → Except Mismatch φ}
    (h : Follows IsKey n flow flow') :
    (Target.shapeOf flow).Follows IsKey n (Target.shapeOf flow') where
  keys := by
    simp [Target.shapeOf, Field.required, Field.optional, Field.defaulted, IsKey, documentKeys]
  blank := rfl
  fields := .cons (follows_defaulted Json.follows_string)
    (.cons (follows_required SourceRange.follows_ofJson) (.cons (follows_optional h) .nil))
  commute := by simp [Target.shapeOf, Field.required, Field.optional, Field.defaulted]

theorem MediatorRecord.follows_shapeOf {φ : Type} {flow flow' : Json → Except Mismatch φ}
    {case case' : Json → Except Mismatch (CaseRecord φ)} (hflow : Follows IsKey n flow flow')
    (hcase : Follows IsKey n case case') :
    (MediatorRecord.shapeOf flow case).Follows IsKey n (MediatorRecord.shapeOf flow' case') where
  keys := by simp [MediatorRecord.shapeOf, Field.required, Field.optional, IsKey, documentKeys]
  blank := rfl
  fields := by
    have htarget := follows_of_shape (Target.follows_shapeOf hflow)
    refine .cons (follows_required Json.follows_string) ?_
    refine .cons (follows_required SourceRange.follows_ofJson) ?_
    refine .cons (follows_optional hflow) (.cons (follows_optional hflow) ?_)
    refine .cons (follows_optional hflow) (.cons (follows_optional hflow) ?_)
    refine .cons (follows_optional hcase.list) (.cons (follows_optional hflow) ?_)
    refine .cons (follows_optional hflow) (.cons (follows_optional hflow) ?_)
    refine .cons (follows_optional hflow) (.cons (follows_optional hflow) ?_)
    refine .cons (follows_optional htarget.list) (.cons (follows_optional htarget) ?_)
    exact .cons (follows_optional hflow) (.cons (follows_optional hflow) .nil)
  commute := by simp [MediatorRecord.shapeOf, Field.required, Field.optional]

/-- What is read from a value at one depth is read from a value that holds the same at any depth that
this value does not exceed. -/
theorem MediatorRecord.follows_ofJsonUpTo (m n : Nat) :
    Follows IsKey n (MediatorRecord.ofJsonUpTo m) (MediatorRecord.ofJsonUpTo n) := by
  induction m generalizing n with
  | zero => exact fun _ _ _ _ _ hok => nomatch hok
  | succ m ih =>
      cases n with
      | zero =>
          intro j j' record hj hn hok
          cases hj with
          | array | object => exact nomatch hn
          | null | bool | whole | real | text => cases hok
      | succ n =>
          refine (MediatorRecord.follows_shapeOf ?_ ?_).ofJson
          · exact follows_of_shape (FlowRecord.follows_shapeOf (ih n))
          · exact follows_of_shape (CaseRecord.follows_shapeOf (ih n))

theorem MediatorRecord.follows_ofJson : Follows IsKey n MediatorRecord.ofJson MediatorRecord.ofJson :=
  fun j j' _ hj _ hok =>
    MediatorRecord.follows_ofJsonUpTo j.nesting j'.nesting hj (Nat.le_refl _) hok

theorem FlowRecord.follows_ofJson : Follows IsKey n FlowRecord.ofJson FlowRecord.ofJson :=
  follows_of_shape (FlowRecord.follows_shapeOf MediatorRecord.follows_ofJson)

/-! Artifacts. -/

theorem SequencesRecord.follows_shape :
    SequencesRecord.shape.Follows IsKey n SequencesRecord.shape where
  keys := by simp [SequencesRecord.shape, Field.optional, IsKey, documentKeys]
  blank := rfl
  fields := .cons (follows_optional FlowRecord.follows_ofJson)
    (.cons (follows_optional FlowRecord.follows_ofJson)
      (.cons (follows_optional FlowRecord.follows_ofJson) .nil))
  commute := by simp [SequencesRecord.shape, Field.optional]

/-- The entries that a record with sequences leaves to its sequences are there again in any order. -/
theorem SequencesRecord.follows_within {σ : Type} {shape : Shape.OfJson σ}
    (h : shape.Follows IsKey n shape) :
    Follows IsKey n (SequencesRecord.within shape) (SequencesRecord.within shape) := by
  intro j j' x hj hn hok
  cases hj with
  | @object es es' hkeys hes =>
      have hre : Json.Reordered IsKey es es' := ⟨hkeys, hes⟩
      have hdeep := Json.nesting_le_of_mem_object hn
      obtain ⟨⟨record, others⟩, hrecord, hok⟩ := Json.bind_eq_ok.mp hok
      obtain ⟨⟨sequences, rest⟩, hsequences, hok⟩ := Json.bind_eq_ok.mp hok
      cases hok
      obtain ⟨rfl, hrecord'⟩ := h.ofEntries hre hdeep hrecord
      have hothers := SequencesRecord.follows_shape.ofEntries (hre.filter (!shape.isField ·))
        (fun e he => hdeep e (List.mem_of_mem_filter he)) hsequences
      exact Json.bind_eq_ok.mpr ⟨_, hrecord', Json.bind_eq_ok.mpr ⟨_, hothers.2, rfl⟩⟩
  | null | bool | whole | real | text | array => cases hok

theorem ResourceRecord.follows_ofJson :
    Follows IsKey n ResourceRecord.ofJson ResourceRecord.ofJson := by
  intro j j' resource hj hn hok
  rw [ResourceRecord.ofJson, Json.bind_eq_ok] at hok ⊢
  obtain ⟨x, hx, hok⟩ := hok
  refine ⟨x, SequencesRecord.follows_within ?_ hj hn hx, hok⟩
  refine ⟨by simp [Field.required, Field.optional, IsKey, documentKeys], rfl, ?_,
    by simp [Field.required, Field.optional]⟩
  exact .cons (follows_required SourceRange.follows_ofJson)
    (.cons (follows_optional Json.follows_string) .nil)

theorem ProxyTargetRecord.follows_ofJson :
    Follows IsKey n ProxyTargetRecord.ofJson ProxyTargetRecord.ofJson := by
  intro j j' target hj hn hok
  rw [ProxyTargetRecord.ofJson, Json.bind_eq_ok] at hok ⊢
  obtain ⟨x, hx, hok⟩ := hok
  refine ⟨x, SequencesRecord.follows_within ?_ hj hn hx, hok⟩
  refine ⟨by simp [Field.required, IsKey, documentKeys], rfl, ?_, by simp⟩
  exact .cons (follows_required SourceRange.follows_ofJson) .nil

theorem ApiRecord.follows_shape : ApiRecord.shape.Follows IsKey n ApiRecord.shape where
  keys := by simp [ApiRecord.shape, Field.required, Field.defaulted, IsKey, documentKeys]
  blank := rfl
  fields := .cons (follows_required Json.follows_string)
    (.cons (follows_required SourceRange.follows_ofJson)
      (.cons (follows_defaulted ResourceRecord.follows_ofJson.list) .nil))
  commute := by simp [ApiRecord.shape, Field.required, Field.defaulted]

theorem ProxyRecord.follows_shape : ProxyRecord.shape.Follows IsKey n ProxyRecord.shape where
  keys := by simp [ProxyRecord.shape, Field.required, Field.optional, IsKey, documentKeys]
  blank := rfl
  fields := .cons (follows_required Json.follows_string)
    (.cons (follows_required SourceRange.follows_ofJson)
      (.cons (follows_optional ProxyTargetRecord.follows_ofJson) .nil))
  commute := by simp [ProxyRecord.shape, Field.required, Field.optional]

theorem SequenceRecord.follows_shape : SequenceRecord.shape.Follows IsKey n SequenceRecord.shape where
  keys := by simp [SequenceRecord.shape, Field.required, Field.defaulted, IsKey, documentKeys]
  blank := rfl
  fields := .cons (follows_required Json.follows_string)
    (.cons (follows_required SourceRange.follows_ofJson)
      (.cons (follows_defaulted MediatorRecord.follows_ofJson.list) .nil))
  commute := by simp [SequenceRecord.shape, Field.required, Field.defaulted]

theorem TemplateRecord.follows_shape : TemplateRecord.shape.Follows IsKey n TemplateRecord.shape where
  keys := by simp [TemplateRecord.shape, Field.required, Field.optional, IsKey, documentKeys]
  blank := rfl
  fields := .cons (follows_required Json.follows_string)
    (.cons (follows_required SourceRange.follows_ofJson)
      (.cons (follows_optional FlowRecord.follows_ofJson) .nil))
  commute := by simp [TemplateRecord.shape, Field.required, Field.optional]

end

/-- The record that a value makes, every value makes that holds the same. -/
theorem ArtifactRecord.ofJson_of_recast {kind : ArtifactKind} {j j' : Json}
    (hj : Json.Recast IsKey j j') {record : ArtifactRecord}
    (hok : ArtifactRecord.ofJson kind j = .ok record) :
    ArtifactRecord.ofJson kind j' = .ok record := by
  have hn := Nat.le_succ j'.nesting
  cases kind with
  | api =>
      obtain ⟨r, hr, rfl⟩ := Json.map_eq_ok.mp hok
      exact Json.map_eq_ok.mpr ⟨r, ApiRecord.follows_shape.ofJson hj hn hr, rfl⟩
  | proxy =>
      obtain ⟨r, hr, rfl⟩ := Json.map_eq_ok.mp hok
      exact Json.map_eq_ok.mpr ⟨r, ProxyRecord.follows_shape.ofJson hj hn hr, rfl⟩
  | sequence =>
      obtain ⟨r, hr, rfl⟩ := Json.map_eq_ok.mp hok
      exact Json.map_eq_ok.mpr ⟨r, SequenceRecord.follows_shape.ofJson hj hn hr, rfl⟩
  | template =>
      obtain ⟨r, hr, rfl⟩ := Json.map_eq_ok.mp hok
      exact Json.map_eq_ok.mpr ⟨r, TemplateRecord.follows_shape.ofJson hj hn hr, rfl⟩

end Mediation
