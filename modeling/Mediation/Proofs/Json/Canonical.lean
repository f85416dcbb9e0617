import Mathlib.Data.List.Induction
import Mathlib.Data.List.Nodup
import Mathlib.Data.String.Basic
import Mediation.Json.Basic

/-! Values of which only the last of the entries with one key is kept, in every object. The canonical
form is one, with the keys in order (`canonical_eq_condense`); the other one here leaves the entries
where they stand (`latest`). Neither nests deeper than the value or has other numbers
(`nesting_condense_le`, `mem_numbers_of_mem_condense`). -/

namespace Mediation

namespace Json

/-- Induction over a value and what stands in it. -/
theorem induct {P : Json → Prop} (null : P .null) (bool : ∀ b, P (.bool b))
    (number : ∀ n, P (.number n)) (text : ∀ s, P (.text s))
    (array : ∀ items, (∀ j ∈ items, P j) → P (.array items))
    (object : ∀ entries, (∀ e ∈ entries, P e.2) → P (.object entries)) :
    ∀ j, P j
  | .null => null
  | .bool b => bool b
  | .number n => number n
  | .text s => text s
  | .array items => array items fun j _ => induct null bool number text array object j
  | .object entries => object entries fun e _ => induct null bool number text array object e.2
termination_by j => j
decreasing_by
  · have hlt := List.sizeOf_lt_of_mem ‹j ∈ items›
    simp +arith
    omega
  · have hlt := List.sizeOf_lt_of_mem ‹e ∈ entries›
    obtain ⟨key, value⟩ := e
    simp at hlt ⊢
    omega

/-! Nesting. -/

theorem nestingItems_le_iff {items : List Json} {n : Nat} :
    nestingItems items ≤ n ↔ ∀ j ∈ items, j.nesting ≤ n := by
  induction items with
  | nil => simp [nestingItems]
  | cons item rest ih => rw [nestingItems, Nat.max_le, ih, List.forall_mem_cons]

theorem nestingEntries_le_iff {entries : List (String × Json)} {n : Nat} :
    nestingEntries entries ≤ n ↔ ∀ e ∈ entries, e.2.nesting ≤ n := by
  induction entries with
  | nil => simp [nestingEntries]
  | cons entry rest ih => rw [nestingEntries, Nat.max_le, ih, List.forall_mem_cons, nestingEntry]

theorem nesting_array_le_iff {items : List Json} {n : Nat} :
    (array items).nesting ≤ n + 1 ↔ ∀ j ∈ items, j.nesting ≤ n := by
  rw [nesting, Nat.add_le_add_iff_right, nestingItems_le_iff]

theorem nesting_object_le_iff {entries : List (String × Json)} {n : Nat} :
    (object entries).nesting ≤ n + 1 ↔ ∀ e ∈ entries, e.2.nesting ≤ n := by
  rw [nesting, Nat.add_le_add_iff_right, nestingEntries_le_iff]

/-! Numbers. -/

mutual

/-- The numbers in the value, in the order they are written. -/
def numbers : Json → List Number
  | number n => [n]
  | array items => numbersItems items
  | object entries => numbersEntries entries
  | _ => []
termination_by structural j => j

def numbersItems : List Json → List Number
  | [] => []
  | item :: rest => numbers item ++ numbersItems rest
termination_by structural items => items

def numbersEntries : List (String × Json) → List Number
  | [] => []
  | entry :: rest => numbersEntry entry ++ numbersEntries rest
termination_by structural entries => entries

def numbersEntry : String × Json → List Number
  | (_, value) => numbers value
termination_by structural entry => entry

end

theorem mem_numbers_array {items : List Json} {n : Number} :
    n ∈ (array items).numbers ↔ ∃ j ∈ items, n ∈ j.numbers := by
  rw [numbers]
  induction items with
  | nil => simp [numbersItems]
  | cons item rest ih => rw [numbersItems, List.mem_append, ih, List.exists_mem_cons_iff]

theorem mem_numbers_object {entries : List (String × Json)} {n : Number} :
    n ∈ (object entries).numbers ↔ ∃ e ∈ entries, n ∈ e.2.numbers := by
  rw [numbers]
  induction entries with
  | nil => simp [numbersEntries]
  | cons entry rest ih =>
      rw [numbersEntries, List.mem_append, ih, List.exists_mem_cons_iff, numbersEntry]

/-! Keeping the last. -/

/-- Of the entries with one key the last is kept. -/
def KeepsLast (keep : List (String × Json) → List (String × Json)) : Prop :=
  ∀ key entries, (keep entries).filter (·.1 = key) = (entries.filter (·.1 = key)).getLast?.toList

section

variable {keep : List (String × Json) → List (String × Json)}

theorem KeepsLast.mem (h : KeepsLast keep) {e : String × Json} {entries : List (String × Json)}
    (he : e ∈ keep entries) :
    e ∈ entries := by
  have hfound : e ∈ (keep entries).filter (·.1 = e.1) := List.mem_filter.mpr ⟨he, by simp⟩
  rw [h, Option.mem_toList] at hfound
  exact List.mem_of_mem_filter (List.mem_of_getLast? hfound)

/-- No key is lost. -/
theorem KeepsLast.mem_keys (h : KeepsLast keep) {e : String × Json} {entries : List (String × Json)}
    (he : e ∈ entries) :
    e.1 ∈ (keep entries).map (·.1) := by
  have hmem : e ∈ entries.filter (·.1 = e.1) := List.mem_filter.mpr ⟨he, by simp⟩
  have hlast := h e.1 entries
  rw [List.getLast?_eq_some_getLast (List.ne_nil_of_mem hmem), Option.toList_some] at hlast
  have hfound : _ ∈ (keep entries).filter (·.1 = e.1) := hlast ▸ List.mem_cons_self
  obtain ⟨hmem, hkey⟩ := List.mem_filter.mp hfound
  exact List.mem_map.mpr ⟨_, hmem, of_decide_eq_true hkey⟩

end

/-! Entries in order. -/

theorem mem_insertEntry {key : String} {value : Json} {e : String × Json}
    {entries : List (String × Json)} (he : e ∈ insertEntry key value entries) :
    e = (key, value) ∨ e ∈ entries := by
  induction entries with
  | nil => exact .inl (List.mem_singleton.mp he)
  | cons entry rest ih =>
      rw [insertEntry] at he
      split at he
      · rcases List.mem_cons.mp he with rfl | he
        · exact .inl rfl
        · exact .inr he
      · split at he
        · rcases List.mem_cons.mp he with rfl | he
          · exact .inl rfl
          · exact .inr (List.mem_cons_of_mem _ he)
        · rcases List.mem_cons.mp he with rfl | he
          · exact .inr List.mem_cons_self
          · exact (ih he).imp_right (List.mem_cons_of_mem _)

theorem sortEntries_concat (entries : List (String × Json)) (e : String × Json) :
    sortEntries (entries ++ [e]) = insertEntry e.1 e.2 (sortEntries entries) := by
  rw [sortEntries, List.foldl_append, List.foldl_cons, List.foldl_nil, sortEntries]

/-- The keys are increasing, so none is repeated. -/
def Increasing (entries : List (String × Json)) : Prop :=
  entries.Pairwise fun e e' => e.1 < e'.1

theorem Increasing.insertEntry {key : String} {value : Json} {entries : List (String × Json)}
    (h : Increasing entries) :
    Increasing (insertEntry key value entries) := by
  induction entries with
  | nil => exact List.pairwise_singleton _ _
  | cons entry rest ih =>
      obtain ⟨hentry, hrest⟩ := List.pairwise_cons.mp h
      rw [Json.insertEntry]
      split
      next hlt =>
          refine List.pairwise_cons.mpr ⟨fun e he => ?_, h⟩
          rcases List.mem_cons.mp he with rfl | he
          · exact hlt
          · exact lt_trans hlt (hentry e he)
      next hnot =>
          split
          next heq => exact List.pairwise_cons.mpr ⟨fun e he => heq ▸ hentry e he, hrest⟩
          next hne =>
              refine List.pairwise_cons.mpr ⟨fun e he => ?_, ih hrest⟩
              rcases mem_insertEntry he with rfl | he
              · exact lt_of_le_of_ne (not_lt.mp hnot) (Ne.symm hne)
              · exact hentry e he

theorem increasing_sortEntries (entries : List (String × Json)) :
    Increasing (sortEntries entries) := by
  induction entries using List.reverseRecOn with
  | nil => exact .nil
  | append_singleton entries last ih =>
      rw [sortEntries_concat]
      exact ih.insertEntry

theorem filter_insertEntry_of_ne {key key' : String} (hne : key' ≠ key) (value : Json)
    (entries : List (String × Json)) :
    (insertEntry key' value entries).filter (·.1 = key) = entries.filter (·.1 = key) := by
  induction entries with
  | nil => simp [insertEntry, hne]
  | cons entry rest ih =>
      rw [insertEntry]
      split
      · rw [List.filter_cons_of_neg (by simpa using hne)]
      · split
        next heq =>
            rw [List.filter_cons_of_neg (by simpa using hne),
              List.filter_cons_of_neg (by simpa [← heq] using hne)]
        next => rw [List.filter_cons, List.filter_cons, ih]

theorem filter_insertEntry_self {key : String} {value : Json} {entries : List (String × Json)}
    (h : Increasing entries) :
    (insertEntry key value entries).filter (·.1 = key) = [(key, value)] := by
  induction entries with
  | nil => simp [insertEntry]
  | cons entry rest ih =>
      obtain ⟨hentry, hrest⟩ := List.pairwise_cons.mp h
      have hnone (hle : key ≤ entry.1) : rest.filter (·.1 = key) = [] := by
        refine List.filter_eq_nil_iff.mpr fun e he => ?_
        simpa using (lt_of_le_of_lt hle (hentry e he)).ne'
      rw [insertEntry]
      split
      next hlt =>
          rw [List.filter_cons_of_pos (by simp), List.filter_cons_of_neg (by simpa using hlt.ne'),
            hnone hlt.le]
      next =>
          split
          next heq => rw [List.filter_cons_of_pos (by simp), hnone heq.le]
          next hne =>
              rw [List.filter_cons_of_neg (by simpa using Ne.symm hne)]
              exact ih hrest

theorem keepsLast_sortEntries : KeepsLast sortEntries := by
  intro key entries
  induction entries using List.reverseRecOn with
  | nil => rfl
  | append_singleton entries last ih =>
      rw [sortEntries_concat, List.filter_append]
      by_cases hkey : last.1 = key
      · subst hkey
        rw [filter_insertEntry_self (increasing_sortEntries entries)]
        simp
      · rw [filter_insertEntry_of_ne hkey, ih]
        simp [hkey]

/-! Entries left where they stand. -/

/-- An entry is left out if its key comes again. -/
def keepLast : List (String × Json) → List (String × Json)
  | [] => []
  | e :: rest => if e.1 ∈ rest.map (·.1) then keepLast rest else e :: keepLast rest

theorem keepsLast_keepLast : KeepsLast keepLast := by
  intro key entries
  induction entries with
  | nil => rfl
  | cons e rest ih =>
      rw [keepLast]
      by_cases hkey : e.1 = key
      · subst hkey
        have hcons (es : List (String × Json)) :
            (e :: es).filter (·.1 = e.1) = e :: es.filter (·.1 = e.1) :=
          List.filter_cons_of_pos (by simp)
        rw [hcons rest]
        split
        next hagain =>
            obtain ⟨e', he', hkey⟩ := List.mem_map.mp hagain
            have hmem : e' ∈ rest.filter (·.1 = e.1) := List.mem_filter.mpr ⟨he', by simpa using hkey⟩
            rw [ih, List.getLast?_cons, List.getLast?_eq_some_getLast (List.ne_nil_of_mem hmem),
              Option.getD_some]
        next hlast =>
            have hnone : rest.filter (·.1 = e.1) = [] := by
              refine List.filter_eq_nil_iff.mpr fun e' he' heq => hlast ?_
              exact List.mem_map.mpr ⟨e', he', of_decide_eq_true heq⟩
            rw [hcons, ih, hnone]
            rfl
      · rw [List.filter_cons_of_neg (by simpa using hkey), ← ih]
        split
        next => rfl
        next => rw [List.filter_cons_of_neg (by simpa using hkey)]

/-! What is kept of a value. -/

mutual

/-- The value with the entries of every object in it as `keep` leaves them. -/
def condense (keep : List (String × Json) → List (String × Json)) : Json → Json
  | array items => array (condenseItems keep items)
  | object entries => object (keep (condenseEntries keep entries))
  | leaf => leaf
termination_by structural j => j

def condenseItems (keep : List (String × Json) → List (String × Json)) : List Json → List Json
  | [] => []
  | item :: rest => condense keep item :: condenseItems keep rest
termination_by structural items => items

def condenseEntries (keep : List (String × Json) → List (String × Json)) :
    List (String × Json) → List (String × Json)
  | [] => []
  | entry :: rest => condenseEntry keep entry :: condenseEntries keep rest
termination_by structural entries => entries

def condenseEntry (keep : List (String × Json) → List (String × Json)) :
    String × Json → String × Json
  | (key, value) => (key, condense keep value)
termination_by structural entry => entry

end

/-- The value with only the last of the entries with one key left in each of its objects. -/
def latest (j : Json) : Json := j.condense keepLast

section

variable {keep : List (String × Json) → List (String × Json)}

theorem condenseEntry_eq (e : String × Json) : condenseEntry keep e = (e.1, e.2.condense keep) := by
  obtain ⟨key, value⟩ := e
  rw [condenseEntry]

theorem condense_array (items : List Json) :
    (array items).condense keep = array (items.map (condense keep)) := by
  have hitems : condenseItems keep items = items.map (condense keep) := by
    induction items with
    | nil => rfl
    | cons item rest ih => rw [condenseItems, ih, List.map_cons]
  rw [condense, hitems]

theorem condense_object (entries : List (String × Json)) :
    (object entries).condense keep = object (keep (entries.map (condenseEntry keep))) := by
  have hentries : condenseEntries keep entries = entries.map (condenseEntry keep) := by
    induction entries with
    | nil => rfl
    | cons entry rest ih => rw [condenseEntries, ih, List.map_cons]
  rw [condense, hentries]

theorem KeepsLast.filter_map (h : KeepsLast keep) (key : String) (entries : List (String × Json)) :
    (keep (entries.map (condenseEntry keep))).filter (·.1 = key) =
      (entries.filter (·.1 = key)).getLast?.toList.map (condenseEntry keep) := by
  have hmap : (entries.map (condenseEntry keep)).filter (·.1 = key) =
      (entries.filter (·.1 = key)).map (condenseEntry keep) := by
    rw [List.filter_map]
    simp only [Function.comp_def, condenseEntry_eq]
  rw [h, hmap, List.getLast?_map, Option.toList_map]

/-- An entry that is not repeated is kept. -/
theorem KeepsLast.filter_map_of_length_le (h : KeepsLast keep) {key : String}
    {entries : List (String × Json)} (hkey : (entries.filter (·.1 = key)).length ≤ 1) :
    (keep (entries.map (condenseEntry keep))).filter (·.1 = key) =
      (entries.filter (·.1 = key)).map (condenseEntry keep) := by
  rw [h.filter_map]
  generalize entries.filter (·.1 = key) = found at hkey
  match found, hkey with
  | [], _ => rfl
  | [_], _ => rfl

/-- No key is lost. -/
theorem KeepsLast.mem_keys_map (h : KeepsLast keep) {e : String × Json}
    {entries : List (String × Json)} (he : e ∈ entries) :
    e.1 ∈ (keep (entries.map (condenseEntry keep))).map (·.1) := by
  have hkey := h.mem_keys (List.mem_map_of_mem (f := condenseEntry keep) he)
  rwa [condenseEntry_eq] at hkey

/-- What is kept of an object's entries comes from one of them. -/
theorem KeepsLast.exists_of_mem (h : KeepsLast keep) {e : String × Json}
    {entries : List (String × Json)} (he : e ∈ keep (entries.map (condenseEntry keep))) :
    ∃ e' ∈ entries, e = (e'.1, e'.2.condense keep) := by
  obtain ⟨e', he', rfl⟩ := List.mem_map.mp (h.mem he)
  exact ⟨e', he', condenseEntry_eq e'⟩

theorem nesting_condense_le (hkeep : KeepsLast keep) {j : Json} {n : Nat} (h : j.nesting ≤ n) :
    (j.condense keep).nesting ≤ n := by
  induction j using induct generalizing n with
  | null | bool | number | text => exact h
  | array items ih =>
      obtain _ | n := n
      · simp [nesting] at h
      rw [condense_array, nesting_array_le_iff, List.forall_mem_map]
      exact fun j hj => ih j hj (nesting_array_le_iff.mp h j hj)
  | object entries ih =>
      obtain _ | n := n
      · simp [nesting] at h
      rw [condense_object, nesting_object_le_iff]
      intro e he
      obtain ⟨e', he', rfl⟩ := hkeep.exists_of_mem he
      exact ih e' he' (nesting_object_le_iff.mp h e' he')

theorem mem_numbers_of_mem_condense (hkeep : KeepsLast keep) {j : Json} {n : Number}
    (h : n ∈ (j.condense keep).numbers) :
    n ∈ j.numbers := by
  induction j using induct with
  | null | bool | number | text => exact h
  | array items ih =>
      rw [condense_array, mem_numbers_array] at h
      obtain ⟨_, hmap, hn⟩ := h
      obtain ⟨j, hj, rfl⟩ := List.mem_map.mp hmap
      exact mem_numbers_array.mpr ⟨j, hj, ih j hj hn⟩
  | object entries ih =>
      rw [condense_object, mem_numbers_object] at h
      obtain ⟨e, he, hn⟩ := h
      obtain ⟨e', he', rfl⟩ := hkeep.exists_of_mem he
      exact mem_numbers_object.mpr ⟨e', he', ih e' he' hn⟩

end

/-! The canonical form. -/

theorem canonical_eq_condense (j : Json) : j.canonical = j.condense sortEntries := by
  induction j using induct with
  | null | bool | number | text => rfl
  | array items ih =>
      have hitems : canonicalItems items = condenseItems sortEntries items := by
        induction items with
        | nil => rfl
        | cons item rest ihrest =>
            obtain ⟨hitem, hrest⟩ := List.forall_mem_cons.mp ih
            rw [canonicalItems, condenseItems, hitem, ihrest hrest]
      rw [canonical, condense, hitems]
  | object entries ih =>
      have hentries : canonicalEntries entries = condenseEntries sortEntries entries := by
        induction entries with
        | nil => rfl
        | cons entry rest ihrest =>
            obtain ⟨hentry, hrest⟩ := List.forall_mem_cons.mp ih
            obtain ⟨key, value⟩ := entry
            rw [canonicalEntries, condenseEntries, canonicalEntry, condenseEntry, hentry, ihrest hrest]
      rw [canonical, condense, hentries]

end Json

end Mediation
