import Mediation.TagTable
import Mediation.Proofs.Flow.Retagging

/-! Tags kept in a table of any make. The table is asked for the id of one tag after the other, and
artifacts are built from the ids at any time in between. What one more tag does to the table takes
nothing away from it (`Interner.Lawful.resolve?_intern`), and so no history does
(`Interner.Lawful.knows_after`). So an id is as good as its tag: ids are equal exactly if their tags
are, and artifacts of ids exactly if they are as artifacts of tags (`Interner.ids_faithful`). The table
of this library is such a table (`TagTable.interner_lawful`), so it takes ids back to their tags
(`TagTable.map_resolve_internAll`). -/

namespace Mediation

/-- A table of type `T` that gives tags ids of type `S`, and takes an id back to its tag. -/
structure Interner (T S : Type) where
  intern : T → String → S × T
  resolve? : T → S → Option String

/-- A tag with the id that it was given when it was asked for. -/
structure Call (S : Type) where
  tag : String
  id : S
  deriving DecidableEq

namespace Interner

variable {T S : Type}

/-- A tag that is in the table keeps its id, and any other is given one that is not in use. The id
resolves to the tag from then on, and all others resolve to what they resolved to before. -/
structure Lawful (I : Interner T S) : Prop where
  known : ∀ {t id tag}, I.resolve? t id = some tag → (I.intern t tag).1 = id
  fresh : ∀ {t tag}, (∀ id, I.resolve? t id ≠ some tag) → I.resolve? t (I.intern t tag).1 = none
  resolve?_self : ∀ t tag, I.resolve? (I.intern t tag).2 (I.intern t tag).1 = some tag
  resolve?_other : ∀ {t tag id}, id ≠ (I.intern t tag).1 →
    I.resolve? (I.intern t tag).2 id = I.resolve? t id

variable (I : Interner T S)

/-- How an id shows. One that is not in the table would show as an empty text. -/
def display (t : T) (id : S) : String := (I.resolve? t id).getD ""

/-- The id of a tag that is in the table. -/
def idOf (t : T) (tag : String) : S := (I.intern t tag).1

/-- Is this the text that the id stands for? -/
def equalsText (t : T) (id : S) (text : String) : Bool := I.display t id == text

/-- The ids of several tags, asked for one after the other. -/
def calls : T → List String → List (Call S)
  | _, [] => []
  | t, tag :: rest => ⟨tag, (I.intern t tag).1⟩ :: calls (I.intern t tag).2 rest

/-- The table after several tags. -/
def after : T → List String → T
  | t, [] => t
  | t, tag :: rest => after (I.intern t tag).2 rest

/-- The artifact is the given one with ids for tags, each got by one of the calls. -/
def Builds (calls : List (Call S)) (x : Artifact String) (a : Artifact S) : Prop :=
  ∃ c : Artifact (Call S), c.tags ⊆ calls ∧ c.retag Call.tag = x ∧ c.retag Call.id = a

/-- The table takes the id of each call back to its tag. -/
def Knows (t : T) (calls : List (Call S)) : Prop := ∀ x ∈ calls, I.resolve? t x.id = some x.tag

theorem map_tag_calls (t : T) (tags : List String) : (I.calls t tags).map Call.tag = tags := by
  induction tags generalizing t with
  | nil => rfl
  | cons tag rest ih => rw [calls, List.map_cons, ih]

namespace Knows

variable {I} {t : T} {calls : List (Call S)} (h : I.Knows t calls)
include h

theorem display {x : Call S} (hx : x ∈ calls) : I.display t x.id = x.tag := by
  rw [Interner.display, h x hx, Option.getD_some]

theorem equalsText {x : Call S} (hx : x ∈ calls) (text : String) :
    I.equalsText t x.id text = true ↔ text = x.tag := by
  rw [Interner.equalsText, h.display hx, beq_iff_eq, eq_comm]

/-- An artifact shows as what it was built from. -/
theorem retag_display {x : Artifact String} {a : Artifact S} (hx : Builds calls x a) :
    a.retag (I.display t) = x := by
  obtain ⟨c, hc, rfl, rfl⟩ := hx
  exact Artifact.retag_retag fun call hcall => h.display (hc hcall)

end Knows

namespace Lawful

variable {I}
variable (hI : I.Lawful)
include hI

/-- An id in the table is that of its tag, so no two stand for one tag. -/
theorem id_unique {t : T} {id id' : S} {tag : String} (h : I.resolve? t id = some tag)
    (h' : I.resolve? t id' = some tag) :
    id = id' :=
  (hI.known h).symm.trans (hI.known h')

/-- One more tag, and what is in the table stays there. -/
theorem resolve?_intern {t : T} {id : S} {known : String} (h : I.resolve? t id = some known)
    (tag : String) :
    I.resolve? (I.intern t tag).2 id = some known := by
  by_cases hid : id = (I.intern t tag).1
  · -- the id is in use already, so the tag that it is given to now is the one it has
    have hseen : ∃ id', I.resolve? t id' = some tag := by
      by_contra hnew
      have hfree := hI.fresh (not_exists.mp hnew)
      rw [← hid, h] at hfree
      cases hfree
    obtain ⟨id', hid'⟩ := hseen
    have htag : some known = some tag := by
      rw [← h, ← hid', hid, hI.known hid']
    rw [hid, hI.resolve?_self, htag]
  · rw [hI.resolve?_other hid, h]

theorem resolve?_after {t : T} {id : S} {known : String} (h : I.resolve? t id = some known)
    (tags : List String) :
    I.resolve? (I.after t tags) id = some known := by
  induction tags generalizing t with
  | nil => exact h
  | cons tag rest ih => exact ih (hI.resolve?_intern h tag)

/-- Nothing that was asked for is forgotten, no matter what else is asked for later. -/
theorem knows_after (t : T) (tags later : List String) :
    I.Knows (I.after t (tags ++ later)) (I.calls t tags) := by
  induction tags generalizing t with
  | nil => exact fun x hx => absurd hx List.not_mem_nil
  | cons tag rest ih =>
      intro x hx
      rcases List.mem_cons.mp hx with rfl | hx
      · exact hI.resolve?_after (hI.resolve?_self t tag) (rest ++ later)
      · exact ih _ x hx

variable {t : T} {calls : List (Call S)} (h : I.Knows t calls)
include h

theorem id_eq_iff {x y : Call S} (hx : x ∈ calls) (hy : y ∈ calls) : x.id = y.id ↔ x.tag = y.tag := by
  have hx := h x hx
  have hy := h y hy
  constructor
  · intro hid
    rw [hid, hy] at hx
    exact (Option.some.inj hx).symm
  · intro htag
    rw [htag] at hx
    exact hI.id_unique hx hy

/-- Artifacts of ids are equal exactly if they show the same: the table has but one id for what an id
shows as, so the ids can be told from how the artifact shows. -/
theorem artifact_eq_iff {a b : Artifact S} (ha : a.tags ⊆ calls.map Call.id)
    (hb : b.tags ⊆ calls.map Call.id) :
    a = b ↔ a.retag (I.display t) = b.retag (I.display t) := by
  have hback {a : Artifact S} (ha : a.tags ⊆ calls.map Call.id) :
      (a.retag (I.display t)).retag (I.idOf t) = a := by
    have hid : ∀ id ∈ a.tags, I.idOf t (I.display t id) = id := by
      intro id hid
      obtain ⟨x, hx, rfl⟩ := List.mem_map.mp (ha hid)
      rw [h.display hx]
      exact hI.known (h x hx)
    exact (Artifact.retag_retag hid).trans a.retag_id
  constructor
  · exact congrArg _
  · intro heq
    rw [← hback ha, heq, hback hb]

/-- An artifact can be built once all its tags have been asked for. -/
theorem exists_builds {x : Artifact String} (hx : ∀ tag ∈ x.tags, tag ∈ calls.map Call.tag) :
    ∃ a, Builds calls x a := by
  refine ⟨_, x.retag fun tag => ⟨tag, I.idOf t tag⟩, fun y hy => ?_, ?_, rfl⟩
  · obtain ⟨tag, htag, rfl⟩ := List.mem_map.mp (Artifact.mem_tags_retag.mp hy)
    obtain ⟨call, hcall, rfl⟩ := List.mem_map.mp (hx tag htag)
    have hid : I.idOf t call.tag = call.id := hI.known (h call hcall)
    rw [hid]
    exact hcall
  · exact (Artifact.retag_retag fun _ _ => rfl).trans x.retag_id

/-- An artifact is told from what it was built from. -/
theorem retag_idOf_of_builds {x : Artifact String} {a : Artifact S} (hx : Builds calls x a) :
    x.retag (I.idOf t) = a := by
  obtain ⟨c, hc, rfl, rfl⟩ := hx
  exact Artifact.retag_retag fun call hcall => hI.known (h call (hc hcall))

end Lawful

end Interner

namespace TagTable

/-- A tag that is in the table is given its place there, and any other goes to the end. -/
theorem intern_cases (t : TagTable) (tag : String) :
    (∃ index, t.tags[index]? = some tag ∧ t.intern tag = (⟨index⟩, t)) ∨
      tag ∉ t.tags ∧ (t.intern tag).1 = ⟨t.tags.length⟩ ∧ (t.intern tag).2.tags = t.tags ++ [tag] := by
  unfold intern
  split
  next index hindex =>
    obtain ⟨hlt, htag, -⟩ := List.idxOf?_eq_some_iff.mp hindex
    exact .inl ⟨index, List.getElem?_eq_some_iff.mpr ⟨hlt, htag⟩, rfl⟩
  next hnone => exact .inr ⟨List.idxOf?_eq_none_iff.mp hnone, rfl, rfl⟩

/-- The table of tags, asked for ids. -/
def interner : Interner TagTable Id := ⟨intern, fun t id => t.tags[id.index]?⟩

theorem interner_lawful : interner.Lawful where
  known := by
    intro t id tag h
    obtain ⟨index, hindex, hintern⟩ | ⟨hnew, -, -⟩ := t.intern_cases tag
    · -- no tag is in the table twice
      obtain ⟨hlt, htag⟩ := List.getElem?_eq_some_iff.mp h
      have hsame : id.index = index :=
        (List.getElem?_inj hlt t.nodup).mp (h.trans hindex.symm)
      change (t.intern tag).1 = id
      rw [hintern, ← hsame]
    · exact absurd (List.mem_of_getElem? h) hnew
  fresh := by
    intro t tag hfree
    obtain ⟨index, hindex, -⟩ | ⟨-, hid, -⟩ := t.intern_cases tag
    · exact absurd hindex (hfree ⟨index⟩)
    · change t.tags[(t.intern tag).1.index]? = none
      rw [hid]
      exact List.getElem?_eq_none le_rfl
  resolve?_self := getElem?_intern
  resolve?_other := by
    intro t tag id hother
    change (t.intern tag).2.tags[id.index]? = t.tags[id.index]?
    obtain ⟨index, -, hintern⟩ | ⟨-, hid, htags⟩ := t.intern_cases tag
    · rw [hintern]
    · have hend : id.index ≠ t.tags.length := fun hend =>
        hother ((congrArg Id.mk hend).trans hid.symm)
      rw [htags]
      rcases Nat.lt_or_gt_of_ne hend with hlt | hgt
      · exact List.getElem?_append_left hlt
      · rw [List.getElem?_eq_none hgt.le, List.getElem?_eq_none]
        rw [List.length_append]
        exact hgt

/-- The ids of several tags are those that the table gives when it is asked for one after the other. -/
theorem internAll_eq (t : TagTable) (tags : List String) :
    t.internAll tags = ((interner.calls t tags).map Call.id, interner.after t tags) := by
  induction tags generalizing t with
  | nil => rfl
  | cons tag rest ih =>
      have hrest := ih (t.intern tag).2
      simp only [internAll, hrest]
      rfl

/-- Ids resolve to the tags that they were taken for, no matter what else is put into the table later. -/
theorem map_resolve_internAll (t : TagTable) (tags later : List String) :
    (t.internAll tags).1.map (t.internAll (tags ++ later)).2.resolve = tags := by
  have hknows := interner_lawful.knows_after t tags later
  have hresolve : ∀ x ∈ interner.calls t tags,
      (interner.after t (tags ++ later)).resolve x.id = x.tag := fun x hx => hknows.display hx
  calc (t.internAll tags).1.map (t.internAll (tags ++ later)).2.resolve
      = (interner.calls t tags).map fun x => (interner.after t (tags ++ later)).resolve x.id := by
        rw [internAll_eq, internAll_eq, List.map_map, Function.comp_def]
    _ = (interner.calls t tags).map Call.tag := List.map_congr_left hresolve
    _ = tags := interner.map_tag_calls t tags

end TagTable

/-- What else has been asked for, before, between or after, makes no difference. Ids are equal exactly if
the tags are that they were got for; an id shows as its tag and equals that text only; and artifacts
built from ids at any time are equal exactly if they show the same. What they show is what they were
built from, and that can be any artifact whose tags have been asked for. -/
theorem Interner.ids_faithful {T S : Type} {I : Interner T S} (hI : I.Lawful) (t : T)
    (tags later : List String) :
    let calls := I.calls t tags
    let now := I.after t (tags ++ later)
    calls.map Call.tag = tags ∧
      (∀ x ∈ calls, ∀ y ∈ calls, x.id = y.id ↔ x.tag = y.tag) ∧
      (∀ x ∈ calls,
        I.display now x.id = x.tag ∧ ∀ text, I.equalsText now x.id text = true ↔ text = x.tag) ∧
      (∀ a b : Artifact S, a.tags ⊆ calls.map Call.id → b.tags ⊆ calls.map Call.id →
        (a = b ↔ a.retag (I.display now) = b.retag (I.display now))) ∧
      (∀ x : Artifact String, x.tags ⊆ tags → ∃ a, Builds calls x a) ∧
      ∀ (x y : Artifact String) (a b : Artifact S), Builds calls x a → Builds calls y b →
        a.retag (I.display now) = x ∧ (a = b ↔ x = y) := by
  intro calls now
  have hknows : I.Knows now calls := hI.knows_after t tags later
  have htags : calls.map Call.tag = tags := I.map_tag_calls t tags
  refine ⟨htags, fun x hx y hy => hI.id_eq_iff hknows hx hy,
    fun x hx => ⟨hknows.display hx, hknows.equalsText hx⟩,
    fun a b ha hb => hI.artifact_eq_iff hknows ha hb, fun x hx => ?_, fun x y a b hx hy => ?_⟩
  · exact hI.exists_builds hknows fun tag htag => htags.symm ▸ hx htag
  · have hshown := hknows.retag_display hx
    refine ⟨hshown, ?_⟩
    constructor
    · intro hab
      rw [← hshown, hab, hknows.retag_display hy]
    · intro hxy
      rw [← hI.retag_idOf_of_builds hknows hx, hxy, hI.retag_idOf_of_builds hknows hy]

/-- One mediator in a flow. -/
def oneMediator {τ : Type} (outer inner : τ) : Artifact τ :=
  .sequence "main" ⟨⟨outer, .container ⟨⟨1, 0⟩, ⟨1, 9⟩⟩ ⟨⟨3, 0⟩, ⟨3, 9⟩⟩⟩,
    [⟨⟨inner, .selfClosed ⟨⟨2, 0⟩, ⟨2, 9⟩⟩⟩, .simple⟩]⟩

theorem tags_oneMediator {τ : Type} (outer inner : τ) :
    (oneMediator outer inner).tags = [outer, inner] := by
  simp [oneMediator, Artifact.tags, Artifact.lineages, Artifact.node, Artifact.parts,
    Element.lineages_eq, Element.node, Element.parts, Kind.parts, Kind.branches]

theorem ids_faithful_log_send :
    TagTable.interner.Lawful ∧
      TagTable.interner.calls {} ["log", "send", "log"] =
        [⟨"log", ⟨0⟩⟩, ⟨"send", ⟨1⟩⟩, ⟨"log", ⟨0⟩⟩] ∧
      (oneMediator ⟨0⟩ ⟨1⟩).retag
          (TagTable.interner.display
            (TagTable.interner.after {} (["log", "send", "log"] ++ ["drop"]))) =
        oneMediator "log" "send" ∧
      (oneMediator (⟨0⟩ : TagTable.Id) ⟨1⟩ = oneMediator ⟨1⟩ ⟨0⟩ ↔
        oneMediator "log" "send" = oneMediator "send" "log") := by
  have hcalls : TagTable.interner.calls {} ["log", "send", "log"] =
      [⟨"log", ⟨0⟩⟩, ⟨"send", ⟨1⟩⟩, ⟨"log", ⟨0⟩⟩] := by decide
  have hbuilt {x y : Call TagTable.Id}
      (hx : x ∈ TagTable.interner.calls {} ["log", "send", "log"])
      (hy : y ∈ TagTable.interner.calls {} ["log", "send", "log"]) :
      Interner.Builds (TagTable.interner.calls {} ["log", "send", "log"])
        (oneMediator x.tag y.tag) (oneMediator x.id y.id) := by
    refine ⟨oneMediator x y, ?_, rfl, rfl⟩
    rw [tags_oneMediator]
    exact List.cons_subset.mpr ⟨hx, List.cons_subset.mpr ⟨hy, List.nil_subset _⟩⟩
  have hlog : ⟨"log", ⟨0⟩⟩ ∈ TagTable.interner.calls {} ["log", "send", "log"] := by
    rw [hcalls]
    decide
  have hsend : ⟨"send", ⟨1⟩⟩ ∈ TagTable.interner.calls {} ["log", "send", "log"] := by
    rw [hcalls]
    decide
  obtain ⟨-, -, -, -, -, hartifacts⟩ :=
    Interner.ids_faithful TagTable.interner_lawful {} ["log", "send", "log"] ["drop"]
  exact ⟨TagTable.interner_lawful, hcalls,
    hartifacts _ _ _ _ (hbuilt hlog hsend) (hbuilt hsend hlog)⟩

end Mediation
