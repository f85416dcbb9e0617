import Mediation.Proofs.Document.Description

/-! What elaboration keeps of a document. If no branch is empty or left out, the document is in its
artifact: two such documents that come to the same artifact are alike, that is, they are the same but
for lists of cases and of targets that are written and empty in the one and absent in the other
(`ArtifactRecord.alike_of_elaborate_eq`). The artifact is described by both documents, and what it
describes in a place is what is written there in either of them. -/

namespace Mediation

section

variable {φ : Type} (R : φ → φ → Prop)

inductive CaseRecord.Alike : CaseRecord φ → CaseRecord φ → Prop
  | intro {regex : Option String} {c c' : φ} : R c c' → Alike ⟨regex, c⟩ ⟨regex, c'⟩

inductive Target.Alike : Target String φ → Target String φ → Prop
  | intro {node : Node String} {c c' : Option φ} : Option.Rel R c c' → Alike ⟨node, c⟩ ⟨node, c'⟩

/-- Mediators as written with the same element and the same branches. A list that is absent is the
same as an empty one. -/
inductive MediatorRecord.Alike : MediatorRecord φ → MediatorRecord φ → Prop
  | intro {m m' : MediatorRecord φ} {node : Node String} :
      Option.Rel R m.thenFlow m'.thenFlow → Option.Rel R m.elseFlow m'.elseFlow →
      Option.Rel R m.onAccept m'.onAccept → Option.Rel R m.onReject m'.onReject →
      List.Forall₂ (CaseRecord.Alike R) (m.cases.getD []) (m'.cases.getD []) →
      Option.Rel R m.default m'.default → Option.Rel R m.advice m'.advice →
      Option.Rel R m.obligations m'.obligations → Option.Rel R m.onCacheHit m'.onCacheHit →
      Option.Rel R m.onFail m'.onFail →
      List.Forall₂ (Target.Alike R) (m.targets.getD []) (m'.targets.getD []) →
      Option.Rel (Target.Alike R) m.target m'.target → Option.Rel R m.sequence m'.sequence →
      Option.Rel R m.onComplete m'.onComplete →
      Alike { m with node } { m' with node }

end

/-- Flows as written with the same element and the same mediators in the same order. -/
inductive FlowRecord.Alike : FlowRecord → FlowRecord → Prop
  | intro {node : Node String} {ms ms' : List (MediatorRecord FlowRecord)} :
      List.Forall₂ (MediatorRecord.Alike FlowRecord.Alike) ms ms' → Alike ⟨node, ms⟩ ⟨node, ms'⟩

structure SequencesRecord.Alike (s s' : SequencesRecord) : Prop where
  inSequence : Option.Rel FlowRecord.Alike s.inSequence s'.inSequence
  outSequence : Option.Rel FlowRecord.Alike s.outSequence s'.outSequence
  faultSequence : Option.Rel FlowRecord.Alike s.faultSequence s'.faultSequence

inductive ResourceRecord.Alike : ResourceRecord → ResourceRecord → Prop
  | intro {range : SourceRange} {uriTemplate : Option String} {s s' : SequencesRecord} :
      s.Alike s' → Alike ⟨range, uriTemplate, s⟩ ⟨range, uriTemplate, s'⟩

inductive ProxyTargetRecord.Alike : ProxyTargetRecord → ProxyTargetRecord → Prop
  | intro {range : SourceRange} {s s' : SequencesRecord} :
      s.Alike s' → Alike ⟨range, s⟩ ⟨range, s'⟩

/-- Documents that are the same but for absent and empty lists of cases and targets. -/
inductive ArtifactRecord.Alike : ArtifactRecord → ArtifactRecord → Prop
  | api {name : String} {range : SourceRange} {rs rs' : List ResourceRecord} :
      List.Forall₂ ResourceRecord.Alike rs rs' →
      Alike (.api ⟨name, range, rs⟩) (.api ⟨name, range, rs'⟩)
  | proxy {name : String} {range : SourceRange} {t t' : Option ProxyTargetRecord} :
      Option.Rel ProxyTargetRecord.Alike t t' →
      Alike (.proxy ⟨name, range, t⟩) (.proxy ⟨name, range, t'⟩)
  | sequence {name : String} {range : SourceRange} {ms ms' : List (MediatorRecord FlowRecord)} :
      List.Forall₂ (MediatorRecord.Alike FlowRecord.Alike) ms ms' →
      Alike (.sequence ⟨name, range, ms⟩) (.sequence ⟨name, range, ms'⟩)
  | template {name : String} {range : SourceRange} {f f' : Option FlowRecord} :
      Option.Rel FlowRecord.Alike f f' →
      Alike (.template ⟨name, range, f⟩) (.template ⟨name, range, f'⟩)

/-! Relations between what is in the same place. -/

theorem forall₂_of_map_eq {α β : Type} {g : α → β} {R : α → α → Prop} {as as' : List α}
    (h : as.map g = as'.map g) (hR : ∀ a ∈ as, ∀ a' ∈ as', g a = g a' → R a a') :
    List.Forall₂ R as as' := by
  induction as generalizing as' with
  | nil =>
      rw [List.map_eq_nil_iff.mp h.symm]
      exact .nil
  | cons a as ih =>
      cases as' with
      | nil => cases h
      | cons a' as' =>
          obtain ⟨ha, has⟩ := List.cons.inj h
          refine .cons (hR a List.mem_cons_self a' List.mem_cons_self ha) (ih has ?_)
          exact fun b hb b' hb' => hR b (List.mem_cons_of_mem _ hb) b' (List.mem_cons_of_mem _ hb')

theorem rel_of_map_eq {α β : Type} {g : α → β} {R : α → α → Prop} {o o' : Option α}
    (h : o.map g = o'.map g) (hR : ∀ a ∈ o, ∀ a' ∈ o', g a = g a' → R a a') :
    Option.Rel R o o' := by
  cases o with
  | none =>
      rw [Option.map_eq_none_iff.mp h.symm]
      exact .none
  | some a =>
      cases o' with
      | none => cases h
      | some a' => exact .some (hR a rfl a' rfl (Option.some.inj h))

theorem forall₂_of_forall₂ {α β γ : Type} {R : α → γ → Prop} {R' : β → γ → Prop}
    {S : α → β → Prop} (hS : ∀ a b c, R a c → R' b c → S a b) {as : List α} {bs : List β}
    {cs : List γ} (h : List.Forall₂ R as cs) (h' : List.Forall₂ R' bs cs) :
    List.Forall₂ S as bs := by
  induction h generalizing bs with
  | nil =>
      cases h'
      exact .nil
  | cons ha _ ih =>
      cases h' with
      | cons hb h' => exact .cons (hS _ _ _ ha hb) (ih h')

theorem rel_of_rel {α β γ : Type} {R : α → γ → Prop} {R' : β → γ → Prop} {S : α → β → Prop}
    (hS : ∀ a b c, R a c → R' b c → S a b) {o : Option α} {o' : Option β} {o'' : Option γ}
    (h : Option.Rel R o o'') (h' : Option.Rel R' o' o'') :
    Option.Rel S o o' := by
  cases h with
  | none =>
      cases h'
      exact .none
  | some ha =>
      cases h' with
      | some hb => exact .some (hS _ _ _ ha hb)

namespace MediatorRecord

variable {φ : Type}

theorem alike_iff {R : φ → φ → Prop} {m m' : MediatorRecord φ} :
    m.Alike R m' ↔
      m.node = m'.node ∧
      Option.Rel R m.thenFlow m'.thenFlow ∧ Option.Rel R m.elseFlow m'.elseFlow ∧
      Option.Rel R m.onAccept m'.onAccept ∧ Option.Rel R m.onReject m'.onReject ∧
      List.Forall₂ (CaseRecord.Alike R) (m.cases.getD []) (m'.cases.getD []) ∧
      Option.Rel R m.default m'.default ∧ Option.Rel R m.advice m'.advice ∧
      Option.Rel R m.obligations m'.obligations ∧ Option.Rel R m.onCacheHit m'.onCacheHit ∧
      Option.Rel R m.onFail m'.onFail ∧
      List.Forall₂ (Target.Alike R) (m.targets.getD []) (m'.targets.getD []) ∧
      Option.Rel (Target.Alike R) m.target m'.target ∧ Option.Rel R m.sequence m'.sequence ∧
      Option.Rel R m.onComplete m'.onComplete := by
  constructor
  · rintro ⟨⟩
    exact ⟨rfl, ‹_›, ‹_›, ‹_›, ‹_›, ‹_›, ‹_›, ‹_›, ‹_›, ‹_›, ‹_›, ‹_›, ‹_›, ‹_›, ‹_›⟩
  · obtain ⟨node⟩ := m'
    rintro ⟨rfl, hthen, helse, hacc, hrej, hcases, hdefault, hadvice, hobl, hcache, hfail, htargets,
      htarget, hseq, hcomplete⟩
    exact .intro (m := m) hthen helse hacc hrej hcases hdefault hadvice hobl hcache hfail htargets
      htarget hseq hcomplete

theorem forall_mem_declared {P : String → Prop} {m : MediatorRecord φ} :
    (∀ name ∈ m.declared, P name) ↔
      (m.thenFlow.isSome → P "then") ∧ (m.elseFlow.isSome → P "else") ∧
      (m.onAccept.isSome → P "onAccept") ∧ (m.onReject.isSome → P "onReject") ∧
      (m.cases.isSome → P "cases") ∧ (m.default.isSome → P "default") ∧
      (m.advice.isSome → P "advice") ∧ (m.obligations.isSome → P "obligations") ∧
      (m.onCacheHit.isSome → P "onCacheHit") ∧ (m.onFail.isSome → P "onFail") ∧
      (m.targets.isSome → P "targets") ∧ (m.target.isSome → P "target") ∧
      (m.sequence.isSome → P "sequence") ∧ (m.onComplete.isSome → P "onComplete") := by
  simp [declared, or_imp, forall_and]

theorem unsupported_eq_nil_iff {m : MediatorRecord φ} :
    m.unsupported = [] ↔ ∀ name ∈ m.declared, name ∈ supportedBranches m.node.tag := by
  simp only [unsupported, List.filter_eq_nil_iff, decide_eq_true_eq, not_not]

/-- If no branch is left out, all that is written is used. -/
theorem mem_used_of_mem_written {m : MediatorRecord φ} (hsupported : m.unsupported = [])
    {w : Node String × φ} (hw : w ∈ m.written) :
    w ∈ m.used := by
  have hsingle : ∀ {o : Option φ}, w ∈ fields.single m.node o → o.isSome := by
    intro o ho
    cases o with
    | none => cases ho
    | some c => rfl
  have hcases : ∀ {o : Option (List (CaseRecord φ))},
      w ∈ (o.getD []).map (fun c => (m.node, c.flow)) → o.isSome := by
    intro o ho
    cases o with
    | none => cases ho
    | some cases => rfl
  have htargets : ∀ {o : Option (List (Target String φ))},
      w ∈ fields.sequences (o.getD []) → o.isSome := by
    intro o ho
    cases o with
    | none => cases ho
    | some targets => rfl
  have htarget : ∀ {o : Option (Target String φ)}, w ∈ fields.sequences o.toList → o.isSome := by
    intro o ho
    cases o with
    | none => cases ho
    | some t => rfl
  have hfields : ∀ field ∈ m.fields, w ∈ field.2 → field.1 ∈ supportedBranches m.node.tag := by
    obtain ⟨h₁, h₂, h₃, h₄, h₅, h₆, h₇, h₈, h₉, h₁₀, h₁₁, h₁₂, h₁₃, h₁₄⟩ :=
      forall_mem_declared.mp (unsupported_eq_nil_iff.mp hsupported)
    simp only [fields, List.forall_mem_cons]
    exact ⟨h₁ ∘ hsingle, h₂ ∘ hsingle, h₃ ∘ hsingle, h₄ ∘ hsingle, h₅ ∘ hcases, h₆ ∘ hsingle,
      h₇ ∘ hsingle, h₈ ∘ hsingle, h₉ ∘ hsingle, h₁₀ ∘ hsingle, h₁₁ ∘ htargets, h₁₂ ∘ htarget,
      h₁₃ ∘ hsingle, h₁₄ ∘ hsingle, List.forall_mem_nil _⟩
  obtain ⟨field, hfield, hw⟩ := List.mem_flatMap.mp hw
  have hname := decide_eq_true (hfields field hfield hw)
  exact List.mem_flatMap.mpr ⟨field, List.mem_filter.mpr ⟨hfield, hname⟩, hw⟩

end MediatorRecord

theorem supportedBranches_of_not_mem {tag : String} (h : tag ∉ Kind.tags) :
    supportedBranches tag = [] := by
  simp only [Kind.tags, List.mem_cons, List.not_mem_nil, or_false, not_or] at h
  simp [supportedBranches, h]

section

variable {φ : Type} {R R' : φ → Flow String → Prop} {S : φ → φ → Prop}

/-- What is written in one place is told by what it describes, unless that is empty. -/
theorem DescribesBranch.rel (hne : ∀ c f, R c f → f.mediators ≠ [])
    (hne' : ∀ c f, R' c f → f.mediators ≠ []) (hS : ∀ c c' f, R c f → R' c' f → S c c')
    {c c' : Option φ} {flow : Option (Flow String)} (h : DescribesBranch R c flow)
    (h' : DescribesBranch R' c' flow) :
    Option.Rel S c c' := by
  cases h with
  | absent =>
      cases h' with
      | absent => exact .none
      | empty hc' hnil => exact absurd hnil (hne' _ _ hc')
  | present hc _ =>
      cases h' with
      | present hc' _ => exact .some (hS _ _ _ hc hc')
  | empty hc hnil => exact absurd hnil (hne _ _ hc)

/-- Mediators as written that describe the same mediator are alike, if what is written in them is
told by what it describes. The tag rules out all branches but those of the kind. -/
theorem MediatorRecord.Describes.alike {m m' : MediatorRecord φ} {x : Mediator String (Flow String)}
    (h : m.Describes R x) (h' : m'.Describes R' x) (hsupported : m.unsupported = [])
    (hsupported' : m'.unsupported = [])
    (hbranch : ∀ {c c' flow}, DescribesBranch R c flow → DescribesBranch R' c' flow →
      Option.Rel S c c') :
    m.Alike S m' := by
  have hcases : ∀ {cs cs' cases}, List.Forall₂ (CaseRecord.Describes R) cs cases →
      List.Forall₂ (CaseRecord.Describes R') cs' cases →
      List.Forall₂ (CaseRecord.Alike S) cs cs' := by
    intro cs cs' cases hcs hcs'
    refine forall₂_of_forall₂ ?_ hcs hcs'
    rintro _ _ _ ⟨hc⟩ ⟨hc'⟩
    cases hbranch hc hc' with
    | some hS => exact .intro hS
  have htarget : ∀ t t' target, Target.Describes R t target → Target.Describes R' t' target →
      Target.Alike S t t' := by
    rintro _ _ _ ⟨hc⟩ ⟨hc'⟩
    exact .intro (hbranch hc hc')
  have htargets : ∀ {ts ts' targets}, List.Forall₂ (Target.Describes R) ts targets →
      List.Forall₂ (Target.Describes R') ts' targets → List.Forall₂ (Target.Alike S) ts ts' :=
    fun hts hts' => forall₂_of_forall₂ htarget hts hts'
  rw [unsupported_eq_nil_iff, forall_mem_declared] at hsupported hsupported'
  cases h with
  | simple htag =>
      cases h' with
      | simple =>
          simp [supportedBranches_of_not_mem htag] at hsupported hsupported'
          simp [alike_iff, hsupported, hsupported']
  | filter htag hthen helse =>
      cases h' with
      | filter _ hthen' helse' =>
          simp [htag, supportedBranches] at hsupported hsupported'
          simp [alike_iff, hsupported, hsupported', hbranch hthen hthen', hbranch helse helse']
  | throttle htag hacc hrej =>
      cases h' with
      | throttle _ hacc' hrej' =>
          simp [htag, supportedBranches] at hsupported hsupported'
          simp [alike_iff, hsupported, hsupported', hbranch hacc hacc', hbranch hrej hrej']
  | switch htag hcs hdefault =>
      cases h' with
      | switch _ hcs' hdefault' =>
          simp [htag, supportedBranches] at hsupported hsupported'
          simp [alike_iff, hsupported, hsupported', hcases hcs hcs', hbranch hdefault hdefault']
  | entitlement htag hacc hrej hadvice hobl =>
      cases h' with
      | entitlement _ hacc' hrej' hadvice' hobl' =>
          simp [htag, supportedBranches] at hsupported hsupported'
          simp [alike_iff, hsupported, hsupported', hbranch hacc hacc', hbranch hrej hrej',
            hbranch hadvice hadvice', hbranch hobl hobl']
  | cache htag hflow =>
      cases h' with
      | cache _ hflow' =>
          simp [htag, supportedBranches] at hsupported hsupported'
          simp [alike_iff, hsupported, hsupported', hbranch hflow hflow']
  | validate htag hflow =>
      cases h' with
      | validate _ hflow' =>
          simp [htag, supportedBranches] at hsupported hsupported'
          simp [alike_iff, hsupported, hsupported', hbranch hflow hflow']
  | iterate htag ht =>
      cases h' with
      | iterate _ ht' =>
          simp [htag, supportedBranches] at hsupported hsupported'
          simp [alike_iff, hsupported, hsupported', rel_of_rel htarget ht ht']
  | foreach htag hflow =>
      cases h' with
      | foreach _ hflow' =>
          simp [htag, supportedBranches] at hsupported hsupported'
          simp [alike_iff, hsupported, hsupported', hbranch hflow hflow']
  | aggregate htag hflow =>
      cases h' with
      | aggregate _ hflow' =>
          simp [htag, supportedBranches] at hsupported hsupported'
          simp [alike_iff, hsupported, hsupported', hbranch hflow hflow']
  | clone htag hts =>
      cases h' with
      | clone _ hts' =>
          simp [htag, supportedBranches] at hsupported hsupported'
          simp [alike_iff, hsupported, hsupported', htargets hts hts']
  | scatterGather htag hts =>
      cases h' with
      | scatterGather _ hts' =>
          simp [htag, supportedBranches] at hsupported hsupported'
          simp [alike_iff, hsupported, hsupported', htargets hts hts']

end

/-- The finding is not about a branch that is left out. -/
def Finding.Lossless (f : Finding) : Prop := f.code ≠ .emptyBranch ∧ f.code ≠ .unsupportedBranch

namespace MediatorRecord

variable {m m' : MediatorRecord FlowRecord}

theorem FindsOnly.unsupported_eq_nil (h : m.FindsOnly Finding.Lossless) : m.unsupported = [] :=
  List.eq_nil_iff_forall_not_mem.mpr fun branch hbranch => (h.unsupported branch hbranch).2 rfl

theorem FindsOnly.mediators_ne_nil (h : m.FindsOnly Finding.Lossless) {w : Node String × FlowRecord}
    (hw : w ∈ m.written) :
    w.2.mediators ≠ [] :=
  fun hnil => (h.empty w (mem_used_of_mem_written h.unsupported_eq_nil hw) hnil).1 rfl

theorem FindsOnly.lossless (h : m.FindsOnly Finding.Lossless) {w : Node String × FlowRecord}
    (hw : w ∈ m.written) :
    w.2.elaborate.All Finding.Lossless :=
  h.nested w (mem_used_of_mem_written h.unsupported_eq_nil hw)

/-- A mediator as written is told by what it comes to if the flows written in it are. -/
theorem alike_of_value_eq (h : m.FindsOnly Finding.Lossless) (h' : m'.FindsOnly Finding.Lossless)
    (heq : (m.map FlowRecord.elaborate).elaborate.value =
      (m'.map FlowRecord.elaborate).elaborate.value)
    (ih : ∀ w ∈ m.written, ∀ f', w.2.elaborate.All Finding.Lossless →
      f'.elaborate.All Finding.Lossless → w.2.elaborate.value = f'.elaborate.value → w.2.Alike f') :
    m.Alike FlowRecord.Alike m' := by
  have hne : ∀ {f : FlowRecord}, f.mediators ≠ [] → f.elaborate.value.mediators ≠ [] := by
    intro f hf
    rw [FlowRecord.value_elaborate]
    exact fun hnil => hf (List.map_eq_nil_iff.mp hnil)
  have hdescribes : m.Describes
      (fun c f => (∃ w ∈ m.written, w.2 = c) ∧ c.elaborate.value = f) _ :=
    describes_elaborate (g := FlowRecord.elaborate) fun w hw => ⟨⟨w, hw, rfl⟩, rfl⟩
  have hdescribes' : m'.Describes
      (fun c f => (∃ w ∈ m'.written, w.2 = c) ∧ c.elaborate.value = f) _ :=
    describes_elaborate (g := FlowRecord.elaborate) fun w hw => ⟨⟨w, hw, rfl⟩, rfl⟩
  rw [← heq] at hdescribes'
  refine hdescribes.alike hdescribes' h.unsupported_eq_nil h'.unsupported_eq_nil
    (DescribesBranch.rel ?_ ?_ ?_)
  · rintro _ _ ⟨⟨w, hw, rfl⟩, rfl⟩
    exact hne (h.mediators_ne_nil hw)
  · rintro _ _ ⟨⟨w, hw, rfl⟩, rfl⟩
    exact hne (h'.mediators_ne_nil hw)
  · rintro _ _ _ ⟨⟨w, hw, rfl⟩, rfl⟩ ⟨⟨w', hw', rfl⟩, hvalue⟩
    exact ih w hw w'.2 (h.lossless hw) (h'.lossless hw') hvalue.symm

end MediatorRecord

/-- A flow as written is told by what it comes to. The induction is on one of the flows only; the
other one goes along. -/
theorem FlowRecord.alike_of_value_eq {f f' : FlowRecord} (h : f.elaborate.All Finding.Lossless)
    (h' : f'.elaborate.All Finding.Lossless) (heq : f.elaborate.value = f'.elaborate.value) :
    f.Alike f' := by
  induction f using induct generalizing f' with
  | hstep f ih =>
      rw [all_elaborate] at h h'
      rw [value_elaborate, value_elaborate] at heq
      obtain ⟨node, ms⟩ := f
      obtain ⟨node', ms'⟩ := f'
      obtain ⟨rfl, hms⟩ := Flow.mk.inj heq
      refine .intro (forall₂_of_map_eq hms fun m hm m' hm' hmm' => ?_)
      exact MediatorRecord.alike_of_value_eq (h m hm) (h' m' hm') hmm' fun w hw f' =>
        ih m hm w hw

namespace SequencesRecord

theorem value_elaborate (s : SequencesRecord) :
    s.elaborate.value =
      ⟨s.inSequence.map (·.elaborate.value), s.outSequence.map (·.elaborate.value),
        s.faultSequence.map (·.elaborate.value)⟩ := by
  simp [elaborate]

theorem alike_of_value_eq {s s' : SequencesRecord}
    (h : ∀ f ∈ s.toList, f.elaborate.All Finding.Lossless)
    (h' : ∀ f ∈ s'.toList, f.elaborate.All Finding.Lossless)
    (heq : s.elaborate.value = s'.elaborate.value) :
    s.Alike s' := by
  rw [value_elaborate, value_elaborate] at heq
  obtain ⟨hin, hout, hfault⟩ := Sequences.mk.inj heq
  simp only [toList, List.mem_append, Option.mem_toList] at h h'
  refine ⟨rel_of_map_eq hin fun f hf f' hf' => ?_, rel_of_map_eq hout fun f hf f' hf' => ?_,
    rel_of_map_eq hfault fun f hf f' hf' => ?_⟩
  · exact FlowRecord.alike_of_value_eq (h f (.inl (.inl hf))) (h' f' (.inl (.inl hf')))
  · exact FlowRecord.alike_of_value_eq (h f (.inl (.inr hf))) (h' f' (.inl (.inr hf')))
  · exact FlowRecord.alike_of_value_eq (h f (.inr hf)) (h' f' (.inr hf'))

end SequencesRecord

theorem ResourceRecord.alike_of_value_eq {r r' : ResourceRecord}
    (h : ∀ f ∈ r.sequences.toList, f.elaborate.All Finding.Lossless)
    (h' : ∀ f ∈ r'.sequences.toList, f.elaborate.All Finding.Lossless)
    (heq : r.elaborate.value = r'.elaborate.value) :
    r.Alike r' := by
  obtain ⟨range, uriTemplate, s⟩ := r
  obtain ⟨range', uriTemplate', s'⟩ := r'
  obtain ⟨hnode, rfl, hs⟩ := Resource.mk.inj heq
  obtain ⟨-, rfl⟩ := Node.mk.inj hnode
  exact .intro (SequencesRecord.alike_of_value_eq h h' hs)

theorem ProxyTargetRecord.alike_of_value_eq {t t' : ProxyTargetRecord}
    (h : ∀ f ∈ t.sequences.toList, f.elaborate.All Finding.Lossless)
    (h' : ∀ f ∈ t'.sequences.toList, f.elaborate.All Finding.Lossless)
    (heq : t.elaborate.value = t'.elaborate.value) :
    t.Alike t' := by
  obtain ⟨range, s⟩ := t
  obtain ⟨range', s'⟩ := t'
  obtain ⟨hnode, hs⟩ := ProxyTarget.mk.inj heq
  obtain ⟨-, rfl⟩ := Node.mk.inj hnode
  exact .intro (SequencesRecord.alike_of_value_eq h h' hs)

/-! Documents of each kind, given that nothing is left out of their flows. -/

namespace ArtifactRecord

theorem alike_of_value_eq_api {r r' : ApiRecord}
    (h : ∀ f ∈ (api r).rootFlows, f.elaborate.All Finding.Lossless)
    (h' : ∀ f ∈ (api r').rootFlows, f.elaborate.All Finding.Lossless)
    (heq : (api r).elaborate.value = (api r').elaborate.value) :
    (api r).Alike (api r') := by
  obtain ⟨name, range, rs⟩ := r
  obtain ⟨name', range', rs'⟩ := r'
  obtain ⟨rfl, hnode, hrs⟩ := Artifact.api.inj heq
  obtain ⟨-, rfl⟩ := Node.mk.inj hnode
  rw [Noted.value_mapM, Noted.value_mapM] at hrs
  refine .api (forall₂_of_map_eq hrs fun r hr r' hr' => ?_)
  exact ResourceRecord.alike_of_value_eq
    (fun f hf => h f (List.mem_flatMap.mpr ⟨r, hr, hf⟩))
    (fun f hf => h' f (List.mem_flatMap.mpr ⟨r', hr', hf⟩))

theorem alike_of_value_eq_proxy {r r' : ProxyRecord}
    (h : ∀ f ∈ (proxy r).rootFlows, f.elaborate.All Finding.Lossless)
    (h' : ∀ f ∈ (proxy r').rootFlows, f.elaborate.All Finding.Lossless)
    (heq : (proxy r).elaborate.value = (proxy r').elaborate.value) :
    (proxy r).Alike (proxy r') := by
  obtain ⟨name, range, t⟩ := r
  obtain ⟨name', range', t'⟩ := r'
  obtain ⟨rfl, hnode, ht⟩ := Artifact.proxy.inj heq
  obtain ⟨-, rfl⟩ := Node.mk.inj hnode
  rw [Noted.value_mapM_option, Noted.value_mapM_option] at ht
  refine .proxy (rel_of_map_eq ht fun t ht t' ht' => ?_)
  exact ProxyTargetRecord.alike_of_value_eq
    (fun f hf => h f (List.mem_flatMap.mpr ⟨t, Option.mem_toList.mpr ht, hf⟩))
    (fun f hf => h' f (List.mem_flatMap.mpr ⟨t', Option.mem_toList.mpr ht', hf⟩))

theorem alike_of_value_eq_sequence {r r' : SequenceRecord}
    (h : ∀ f ∈ (sequence r).rootFlows, f.elaborate.All Finding.Lossless)
    (h' : ∀ f ∈ (sequence r').rootFlows, f.elaborate.All Finding.Lossless)
    (heq : (sequence r).elaborate.value = (sequence r').elaborate.value) :
    (sequence r).Alike (sequence r') := by
  obtain ⟨name, range, ms⟩ := r
  obtain ⟨name', range', ms'⟩ := r'
  obtain ⟨rfl, hbody⟩ := Artifact.sequence.inj heq
  have hflow : FlowRecord.Alike ⟨⟨"sequence", range⟩, ms⟩ ⟨⟨"sequence", range'⟩, ms'⟩ :=
    FlowRecord.alike_of_value_eq (h _ List.mem_cons_self) (h' _ List.mem_cons_self) hbody
  cases hflow with
  | intro hms => exact .sequence hms

theorem alike_of_value_eq_template {r r' : TemplateRecord}
    (h : ∀ f ∈ (template r).rootFlows, f.elaborate.All Finding.Lossless)
    (h' : ∀ f ∈ (template r').rootFlows, f.elaborate.All Finding.Lossless)
    (heq : (template r).elaborate.value = (template r').elaborate.value) :
    (template r).Alike (template r') := by
  obtain ⟨name, range, body⟩ := r
  obtain ⟨name', range', body'⟩ := r'
  obtain ⟨rfl, hnode, hbody⟩ := Artifact.template.inj heq
  obtain ⟨-, rfl⟩ := Node.mk.inj hnode
  rw [Noted.value_mapM_option, Noted.value_mapM_option] at hbody
  refine .template (rel_of_map_eq hbody fun f hf f' hf' => ?_)
  exact FlowRecord.alike_of_value_eq (h f (Option.mem_toList.mpr hf))
    (h' f' (Option.mem_toList.mpr hf'))

/-- If no branch of two documents is left out and they come to the same artifact, they are alike. -/
theorem alike_of_elaborate_eq {r r' : ArtifactRecord}
    (h : ∀ f ∈ r.elaborate.findings, f.code ≠ .emptyBranch ∧ f.code ≠ .unsupportedBranch)
    (h' : ∀ f ∈ r'.elaborate.findings, f.code ≠ .emptyBranch ∧ f.code ≠ .unsupportedBranch)
    (heq : r.elaborate.value = r'.elaborate.value) :
    r.Alike r' := by
  have hflows : ∀ f ∈ r.rootFlows, f.elaborate.All Finding.Lossless := all_elaborate.mp h
  have hflows' : ∀ f ∈ r'.rootFlows, f.elaborate.All Finding.Lossless := all_elaborate.mp h'
  cases r with
  | api r =>
      cases r' with
      | api r' => exact alike_of_value_eq_api hflows hflows' heq
      | _ => cases heq
  | proxy r =>
      cases r' with
      | proxy r' => exact alike_of_value_eq_proxy hflows hflows' heq
      | _ => cases heq
  | sequence r =>
      cases r' with
      | sequence r' => exact alike_of_value_eq_sequence hflows hflows' heq
      | _ => cases heq
  | template r =>
      cases r' with
      | template r' => exact alike_of_value_eq_template hflows hflows' heq
      | _ => cases heq

end ArtifactRecord

/-- A switch with nothing but a default, written with these cases. -/
def defaultOnly (cases : Option (List (CaseRecord FlowRecord))) : ArtifactRecord :=
  .sequence ⟨"main", (Node.onLines "sequence" 1 7).range,
    [{ MediatorRecord.bare (.onLines "switch" 2 6) with
      cases
      default := some ⟨.onLines "default" 3 5, [.bare (.onLine "log" 4)]⟩ }]⟩

/-- Whether the list of cases is absent or empty cannot be told from the artifact. -/
theorem alike_of_elaborate_eq_defaultOnly :
    (∀ f ∈ (defaultOnly none).elaborate.findings,
      f.code ≠ .emptyBranch ∧ f.code ≠ .unsupportedBranch) ∧
    (∀ f ∈ (defaultOnly (some [])).elaborate.findings,
      f.code ≠ .emptyBranch ∧ f.code ≠ .unsupportedBranch) ∧
    (defaultOnly none).elaborate.value = (defaultOnly (some [])).elaborate.value ∧
    (defaultOnly none).Alike (defaultOnly (some [])) := by
  have h : (defaultOnly none).elaborate.findings = [] := rfl
  have h' : (defaultOnly (some [])).elaborate.findings = [] := rfl
  refine ⟨by simp [h], by simp [h'], rfl, ?_⟩
  exact ArtifactRecord.alike_of_elaborate_eq (by simp [h]) (by simp [h']) rfl

end Mediation
