import Mathlib.Data.List.Forall2
import Mediation.Proofs.Json.Canonical

/-! Values that hold the same. One value is recast as another if the other has all that it has, but
perhaps with the entries of its objects in another order, with something else where a key is repeated
or does not count, and with other real numbers (`Recast`). What is kept of a value, if of the entries
with one key only the last is, recasts the value (`recast_condense`); the way back leads to values in
which no key that counts is repeated (`recast_of_condense`). In what order the entries are kept does
not matter (`recast_condense_condense`). -/

namespace Mediation

namespace Json

variable {K : String → Prop}

/-- The second value holds what the first one holds. Of the entries of an object only those count
whose keys are as `K` says, but there are no others in the second than in the first. -/
inductive Recast (K : String → Prop) : Json → Json → Prop
  | null : Recast K .null .null
  | bool (b : Bool) : Recast K (.bool b) (.bool b)
  | whole (n : Int) : Recast K (.number (.whole n)) (.number (.whole n))
  | real (x y : Decimal.Binary64) : Recast K (.number (.real x)) (.number (.real y))
  | text (s : String) : Recast K (.text s) (.text s)
  | array {items items' : List Json} (h : List.Forall₂ (Recast K) items items') :
      Recast K (.array items) (.array items')
  | object {es es' : List (String × Json)} (hkeys : ∀ e' ∈ es', e'.1 ∈ es.map (·.1))
      (h : ∀ key, K key → (es.filter (·.1 = key)).length ≤ 1 →
        List.Forall₂ (fun e e' => Recast K e.2 e'.2) (es.filter (·.1 = key))
          (es'.filter (·.1 = key))) :
      Recast K (.object es) (.object es')

/-- The entries have the same key, and the second holds what the first one holds. -/
def RecastEntry (K : String → Prop) (e e' : String × Json) : Prop := e.1 = e'.1 ∧ Recast K e.2 e'.2

/-- Where a key counts and is not repeated, the second entries have for it what the first have. -/
structure Reordered (K : String → Prop) (es es' : List (String × Json)) : Prop where
  keys : ∀ e' ∈ es', e'.1 ∈ es.map (·.1)
  entries : ∀ key, K key → (es.filter (·.1 = key)).length ≤ 1 →
    List.Forall₂ (fun e e' => Recast K e.2 e'.2) (es.filter (·.1 = key)) (es'.filter (·.1 = key))

theorem Reordered.recast {es es' : List (String × Json)} (h : Reordered K es es') :
    Recast K (.object es) (.object es') :=
  .object h.keys h.entries

/-- Entries recast one by one, in the same order. -/
theorem recast_object {es es' : List (String × Json)} (h : List.Forall₂ (RecastEntry K) es es') :
    Recast K (.object es) (.object es') := by
  refine .object ?_ fun key _ hkey => ?_
  · have hkeys : es'.map (·.1) = es.map (·.1) := by
      rw [← List.forall₂_eq_eq_eq, List.forall₂_map_left_iff, List.forall₂_map_right_iff]
      exact h.flip.imp fun _ _ he => he.1.symm
    exact fun e' he' => hkeys ▸ List.mem_map_of_mem he'
  · clear hkey
    induction h with
    | nil => exact .nil
    | @cons e e' es es' he _ ih =>
        rw [List.filter_cons, List.filter_cons, he.1]
        split
        next => exact .cons he.2 ih
        next => exact ih

/-! Keeping the last of the entries with one key. -/

theorem recast_number (n : Number) : Recast K (.number n) (.number n) := by
  cases n with
  | whole n => exact .whole n
  | real x => exact .real x x

section

variable {keep keep' : List (String × Json) → List (String × Json)}

/-- What is kept of a value holds what the value holds. -/
theorem recast_condense (hkeep : KeepsLast keep) (j : Json) : Recast K j (j.condense keep) := by
  induction j using induct with
  | null => exact .null
  | bool b => exact .bool b
  | number n => exact recast_number n
  | text s => exact .text s
  | array items ih =>
      rw [condense_array]
      refine .array ?_
      rw [List.forall₂_map_right_iff, List.forall₂_same]
      exact ih
  | object entries ih =>
      rw [condense_object]
      refine .object (fun e he => ?_) fun key _ hkey => ?_
      · obtain ⟨e', he', rfl⟩ := hkeep.exists_of_mem he
        exact List.mem_map.mpr ⟨e', he', rfl⟩
      · rw [hkeep.filter_map_of_length_le hkey, List.forall₂_map_right_iff, List.forall₂_same]
        intro e he
        rw [condenseEntry_eq]
        exact ih e (List.mem_of_mem_filter he)

/-- What is kept of a value in one order holds what is kept of it in another. -/
theorem recast_condense_condense (hkeep : KeepsLast keep) (hkeep' : KeepsLast keep') (j : Json) :
    Recast K (j.condense keep) (j.condense keep') := by
  induction j using induct with
  | null => exact .null
  | bool b => exact .bool b
  | number n => exact recast_number n
  | text s => exact .text s
  | array items ih =>
      rw [condense_array, condense_array]
      refine .array ?_
      rw [List.forall₂_map_left_iff, List.forall₂_map_right_iff, List.forall₂_same]
      exact ih
  | object entries ih =>
      rw [condense_object, condense_object]
      refine .object (fun e he => ?_) fun key _ _ => ?_
      · obtain ⟨e', he', rfl⟩ := hkeep'.exists_of_mem he
        exact hkeep.mem_keys_map (e := e') he'
      · rw [hkeep.filter_map, hkeep'.filter_map, List.forall₂_map_left_iff,
          List.forall₂_map_right_iff, List.forall₂_same]
        intro e he
        rw [condenseEntry_eq, condenseEntry_eq]
        exact ih e (List.mem_of_mem_filter (List.mem_of_getLast? (Option.mem_toList.mp he)))

end

mutual

/-- The keys of every object that known keys lead to, in the order they are written. -/
def keyLists (known : List String) : Json → List (List String)
  | array items => keyListsItems known items
  | object entries => entries.map (·.1) :: keyListsEntries known entries
  | _ => []
termination_by structural j => j

def keyListsItems (known : List String) : List Json → List (List String)
  | [] => []
  | item :: rest => keyLists known item ++ keyListsItems known rest
termination_by structural items => items

def keyListsEntries (known : List String) : List (String × Json) → List (List String)
  | [] => []
  | entry :: rest => keyListsEntry known entry ++ keyListsEntries known rest
termination_by structural entries => entries

def keyListsEntry (known : List String) : String × Json → List (List String)
  | (key, value) => if key ∈ known then keyLists known value else []
termination_by structural entry => entry

end

/-- No known key is repeated in an object that known keys lead to. -/
def KeysOnce (known : List String) (j : Json) : Prop :=
  ∀ keys ∈ j.keyLists known, ∀ key ∈ known, keys.count key ≤ 1

instance (known : List String) (j : Json) : Decidable (j.KeysOnce known) :=
  inferInstanceAs (Decidable (∀ keys ∈ j.keyLists known, ∀ key ∈ known, keys.count key ≤ 1))

section

variable {known : List String}

theorem keysOnce_array {items : List Json} :
    (array items).KeysOnce known ↔ ∀ j ∈ items, j.KeysOnce known := by
  unfold KeysOnce
  rw [keyLists]
  induction items with
  | nil => simp [keyListsItems]
  | cons item rest ih => rw [keyListsItems, List.forall_mem_append, ih, List.forall_mem_cons]

theorem length_filter_key (entries : List (String × Json)) (key : String) :
    (entries.filter (·.1 = key)).length = (entries.map (·.1)).count key := by
  rw [List.count_eq_countP, List.countP_map, List.countP_eq_length_filter]
  rfl

theorem keysOnce_object {entries : List (String × Json)} :
    (object entries).KeysOnce known ↔
      (∀ key ∈ known, (entries.filter (·.1 = key)).length ≤ 1) ∧
        ∀ e ∈ entries, e.1 ∈ known → e.2.KeysOnce known := by
  have hentries (es : List (String × Json)) :
      (∀ keys ∈ keyListsEntries known es, ∀ key ∈ known, keys.count key ≤ 1) ↔
        ∀ e ∈ es, e.1 ∈ known → e.2.KeysOnce known := by
    induction es with
    | nil => simp [keyListsEntries]
    | cons e es ih =>
        rw [keyListsEntries, List.forall_mem_append, ih, List.forall_mem_cons, keyListsEntry]
        refine and_congr_left fun _ => ?_
        by_cases he : e.1 ∈ known <;> simp [he, KeysOnce]
  simp only [KeysOnce, keyLists, List.forall_mem_cons, hentries, length_filter_key]

/-- A value in which no known key is repeated holds what is kept of it. -/
theorem recast_of_condense {keep : List (String × Json) → List (String × Json)}
    (hkeep : KeepsLast keep) {j : Json} (h : j.KeysOnce known) :
    Recast (· ∈ known) (j.condense keep) j := by
  induction j using induct with
  | null => exact .null
  | bool b => exact .bool b
  | number n => exact recast_number n
  | text s => exact .text s
  | array items ih =>
      rw [condense_array]
      refine .array ?_
      rw [List.forall₂_map_left_iff, List.forall₂_same]
      exact fun j hj => ih j hj (keysOnce_array.mp h j hj)
  | object entries ih =>
      obtain ⟨honce, hentries⟩ := keysOnce_object.mp h
      rw [condense_object]
      refine .object (fun e he => hkeep.mem_keys_map he) fun key hkey _ => ?_
      rw [hkeep.filter_map_of_length_le (honce key hkey), List.forall₂_map_left_iff,
        List.forall₂_same]
      intro e he
      obtain ⟨hmem, rfl⟩ : e ∈ entries ∧ e.1 = key := by simpa using he
      rw [condenseEntry_eq]
      exact ih e hmem (hentries e hmem hkey)

end

/-! Entries in another order. -/

/-- Leaving out entries by their keys goes along with putting them in another order. -/
theorem Reordered.filter {es es' : List (String × Json)} (h : Reordered K es es')
    (p : String → Bool) :
    Reordered K (es.filter (p ·.1)) (es'.filter (p ·.1)) where
  keys e' he' := by
    obtain ⟨hmem, hp⟩ := List.mem_filter.mp he'
    obtain ⟨e, he, hkey⟩ := List.mem_map.mp (h.keys e' hmem)
    exact List.mem_map.mpr ⟨e, List.mem_filter.mpr ⟨he, hkey ▸ hp⟩, hkey⟩
  entries key hcounts hkey := by
    have hfilter (es : List (String × Json)) :
        (es.filter (p ·.1)).filter (·.1 = key) = if p key then es.filter (·.1 = key) else [] := by
      rw [List.filter_filter]
      split
      next hp =>
          refine List.filter_congr fun e _ => ?_
          by_cases he : e.1 = key <;> simp [he, hp]
      next hp =>
          refine List.filter_eq_nil_iff.mpr fun e _ => ?_
          by_cases he : e.1 = key <;> simp [he, hp]
    rw [hfilter] at hkey ⊢
    rw [hfilter]
    split
    next hp => exact h.entries key hcounts (by simpa [hp] using hkey)
    next => exact .nil

/-- An entry whose key counts and is not repeated is there again, and only once. -/
theorem Reordered.exists_entry {e : String × Json} {es es' : List (String × Json)}
    (h : Reordered K (e :: es) es') (hcounts : K e.1) (he : e.1 ∉ es.map (·.1)) :
    ∃ e', es'.filter (·.1 = e.1) = [e'] ∧ RecastEntry K e e' := by
  have hone : (e :: es).filter (·.1 = e.1) = [e] := by
    have hnone : es.filter (·.1 = e.1) = [] := by
      refine List.filter_eq_nil_iff.mpr fun e' he' heq => he ?_
      exact List.mem_map.mpr ⟨e', he', of_decide_eq_true heq⟩
    rw [List.filter_cons_of_pos (by simp), hnone]
  have hagain := h.entries e.1 hcounts (by rw [hone]; exact Nat.le_refl _)
  rw [hone, List.forall₂_cons_left_iff] at hagain
  obtain ⟨e', rest, hvalue, hnil, heq⟩ := hagain
  rw [List.forall₂_nil_left_iff] at hnil
  subst hnil
  have hmem : e' ∈ es'.filter (·.1 = e.1) := heq ▸ List.mem_cons_self
  exact ⟨e', heq, (of_decide_eq_true (List.mem_filter.mp hmem).2).symm, hvalue⟩

/-- Where all keys count and none is repeated, the second entries are the first ones recast, in some
order. -/
theorem Reordered.exists_perm {es es' : List (String × Json)} (h : Reordered K es es')
    (hcounts : ∀ e ∈ es, K e.1) (hnodup : (es.map (·.1)).Nodup) :
    ∃ es'', es'.Perm es'' ∧ List.Forall₂ (RecastEntry K) es es'' := by
  induction es generalizing es' with
  | nil =>
      rw [List.eq_nil_iff_forall_not_mem.mpr fun e' he' => List.not_mem_nil (h.keys e' he')]
      exact ⟨[], .nil, .nil⟩
  | cons e es ih =>
      obtain ⟨hnot, hnodup⟩ := List.nodup_cons.mp hnodup
      obtain ⟨hcount, hcounts⟩ := List.forall_mem_cons.mp hcounts
      obtain ⟨e', hone, hentry⟩ := h.exists_entry hcount hnot
      have hrest := h.filter fun key => !decide (key = e.1)
      have hothers : es.filter (fun e' => !decide (e'.1 = e.1)) = es := by
        refine List.filter_eq_self.mpr fun e' he' => ?_
        simpa using fun heq => hnot (List.mem_map.mpr ⟨e', he', heq⟩)
      rw [List.filter_cons_of_neg (by simp), hothers] at hrest
      obtain ⟨es'', hperm, hes⟩ := ih hrest hcounts hnodup
      have hsplit := List.filter_append_perm (fun e' => decide (e'.1 = e.1)) es'
      rw [hone] at hsplit
      exact ⟨e' :: es'', hsplit.symm.trans (hperm.cons e'), .cons hentry hes⟩

end Json

end Mediation
