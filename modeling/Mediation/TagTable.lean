/-! A table of tags. Few tags recur all over a document, so each is kept once and stands for itself
by its index from then on. The table only grows, and no tag is in it twice; so indices are equal
exactly if the tags are, no matter what has been put into the table before, between or after. -/

namespace Mediation

/-- Tags in the order they were first seen. -/
structure TagTable where
  tags : List String := []
  nodup : tags.Nodup := by exact List.nodup_nil

namespace TagTable

/-- What stands for a tag. -/
structure Id where
  index : Nat
  deriving DecidableEq, Repr

def resolve (t : TagTable) (id : Id) : String := (t.tags[id.index]?).getD ""

/-- The id of a tag, and the table with the tag in it. -/
def intern (t : TagTable) (tag : String) : Id × TagTable :=
  match h : t.tags.idxOf? tag with
  | some index => (⟨index⟩, t)
  | none =>
      (⟨t.tags.length⟩,
        { tags := t.tags ++ [tag]
          nodup := by
            have hnew : tag ∉ t.tags := List.idxOf?_eq_none_iff.mp h
            exact List.nodup_append.mpr ⟨t.nodup, by simp, by
              intro a ha b hb
              rw [List.mem_singleton.mp hb]
              exact fun heq => hnew (heq ▸ ha)⟩ })

/-- An id stands for the tag that it was made from. -/
theorem getElem?_intern (t : TagTable) (tag : String) :
    (t.intern tag).2.tags[(t.intern tag).1.index]? = some tag := by
  unfold intern
  split
  next index hindex =>
    obtain ⟨hlt, htag, _⟩ := List.idxOf?_eq_some_iff.mp hindex
    exact List.getElem?_eq_some_iff.mpr ⟨hlt, htag⟩
  next => simp

/-- The ids of several tags, taken in order. -/
def internAll (t : TagTable) : List String → List Id × TagTable
  | [] => ([], t)
  | tag :: rest =>
      let (id, t) := t.intern tag
      let (ids, t) := t.internAll rest
      (id :: ids, t)

end TagTable

end Mediation
