import Mediation.Proofs.Document.Record
import Mediation.Proofs.Json.Printing.Value

/-! Reading a document twice. The reader of documents takes the kind out of a value while it reads
it; what it comes to is told by the value (`tagged_eq_done`). So a text that is read as a document is
read as a value, and the text of the canonical form of that value is read as the same document
(`ofText_pretty`). -/

namespace Mediation

namespace ArtifactRecord

open Json (Recast)
open Json.Reader

variable {s rest : List Char}

/-- The value names its kind, and the other value is what is left of it then. -/
inductive Tagged : Json → ArtifactKind → Json → Prop
  | object {kind : ArtifactKind} {es : List (String × Json)}
      (h : es.filter (·.1 = "kind") = [("kind", .text kind.name)]) :
      Tagged (.object es) kind (.object (es.filter fun e => !decide (e.1 = "kind")))
  | array {kind : ArtifactKind} {items : List Json} :
      Tagged (.array (.text kind.name :: items)) kind (.array items)

/-- A value that holds the same names the same kind, and what is left of it holds the same as what was
left. -/
theorem Tagged.recast {j j' fields : Json} {kind : ArtifactKind} (h : Tagged j kind fields)
    (hj : Recast IsKey j j') :
    ∃ fields', Tagged j' kind fields' ∧ Recast IsKey fields fields' := by
  cases h with
  | @object kind es h =>
      cases hj with
      | @object _ es' hkeys hes =>
          have hre : Json.Reordered IsKey es es' := ⟨hkeys, hes⟩
          have hkind := hre.entries "kind" (by decide) (by rw [h]; exact Nat.le_refl _)
          rw [h] at hkind
          obtain ⟨⟨key, _⟩, _, ⟨⟩, ⟨⟩, hfound⟩ := List.forall₂_cons_left_iff.mp hkind
          have hkey : (key, _) ∈ es'.filter (·.1 = "kind") := hfound ▸ List.mem_cons_self
          obtain rfl : key = "kind" := of_decide_eq_true (List.mem_filter.mp hkey).2
          exact ⟨_, .object hfound, (hre.filter fun key => !decide (key = "kind")).recast⟩
  | array =>
      cases hj with
      | array hitems =>
          obtain ⟨_, _, ⟨⟩, hrest, rfl⟩ := List.forall₂_cons_left_iff.mp hitems
          exact ⟨_, .array, .array hrest⟩

theorem Tagged.ofJson_of_recast {j j' fields : Json} {kind : ArtifactKind} (h : Tagged j kind fields)
    (hj : Recast IsKey j j') {record : ArtifactRecord} (hrecord : ofJson kind fields = .ok record) :
    ∃ fields', Tagged j' kind fields' ∧ ofJson kind fields' = .ok record := by
  obtain ⟨fields', htagged, hfields⟩ := h.recast hj
  exact ⟨fields', htagged, ArtifactRecord.ofJson_of_recast hfields hrecord⟩

/-! The kind. -/

theorem oneNamed_kind_eq_ok {j : Json} {kind : ArtifactKind} :
    Json.oneNamed (ArtifactKind.all.map fun kind => (kind.name, kind)) j = .ok kind ↔
      j = .text kind.name := by
  constructor
  · intro h
    cases j with
    | text name =>
        rw [Json.oneNamed] at h
        split at h
        next found hfound =>
            cases h
            obtain ⟨_, _, hlist, -⟩ := List.lookup_eq_some_iff.mp hfound
            have hmem : (name, kind) ∈ ArtifactKind.all.map fun kind => (kind.name, kind) := by
              rw [hlist]
              simp
            obtain ⟨kind', -, heq⟩ := List.mem_map.mp hmem
            cases heq
            rfl
        next => cases h
    | null | bool | number | array | object => cases h
  · rintro rfl
    cases kind <;> rfl

/-- The kind is read where the text of its name is. -/
theorem kind_eq_done {kind : ArtifactKind} (depth : Nat) :
    ArtifactRecord.kind s = .done kind rest ↔ value depth s = .done (.text kind.name) rest := by
  simp only [ArtifactRecord.kind, typed_eq_done, oneNamed_kind_eq_ok, exists_eq_right]
  constructor
  · intro h
    have harray {s' rest' : List Char} :
        (pure (.array []) : Json.Reader Json) s' ≠ .done (.text kind.name) rest' :=
      fun h => nomatch (pure_eq_done.mp h).1
    have hobject {s' rest' : List Char} :
        (pure (.object []) : Json.Reader Json) s' ≠ .done (.text kind.name) rest' :=
      fun h => nomatch (pure_eq_done.mp h).1
    cases depth <;> exact valueWith_imp (fun h => absurd h harray) (fun h => absurd h hobject) h
  · intro h
    cases depth with
    | zero =>
        exact valueWith_imp (fun h => absurd h failNext_ne_done) (fun h => absurd h failNext_ne_done) h
    | succ depth =>
        refine valueWith_imp (fun h => ?_) (fun h => ?_) h
        · obtain ⟨_, _, -, -, h⟩ := value_array_eq_done.mp h
          cases h
        · obtain ⟨_, _, -, -, h⟩ := value_object_eq_done.mp h
          cases h

/-! The entries and the items beside it. -/

/-- Takes an entry beside those that have been found, or as the kind if it is the first to name
it. -/
def takeKind (state : Option ArtifactKind × List (String × Json)) (e : String × Json) :
    Option (Option ArtifactKind × List (String × Json)) :=
  if e.1 = "kind" then
    match state.1, Json.oneNamed (ArtifactKind.all.map fun kind => (kind.name, kind)) e.2 with
    | none, .ok kind => some (some kind, state.2)
    | _, _ => none
  else some (state.1, e :: state.2)

theorem takeKind_eq_some {state next : Option ArtifactKind × List (String × Json)} {j : Json} :
    takeKind state ("kind", j) = some next ↔
      ∃ kind, state.1 = none ∧ j = .text (ArtifactKind.name kind) ∧ next = (some kind, state.2) := by
  obtain ⟨kind?, found⟩ := state
  rw [takeKind, if_pos rfl]
  constructor
  · intro h
    split at h
    next kind hnone hkind =>
        exact ⟨kind, hnone, oneNamed_kind_eq_ok.mp hkind, (Option.some.inj h).symm⟩
    next => cases h
  · rintro ⟨kind, hnone, hj, rfl⟩
    obtain rfl : kind? = none := hnone
    rw [oneNamed_kind_eq_ok.mpr hj]

theorem takeKind_of_ne {key : String} (hkey : key ≠ "kind")
    (state : Option ArtifactKind × List (String × Json)) (j : Json) :
    takeKind state (key, j) = some (state.1, (key, j) :: state.2) := by
  rw [takeKind, if_neg hkey]

section

variable {es found found' : List (String × Json)} {kind kind' : ArtifactKind}

/-- Once the kind has been found it is not named again. -/
theorem foldlM_takeKind_some :
    es.foldlM takeKind (some kind', found) = some (some kind, found') ↔
      kind' = kind ∧ es.filter (·.1 = "kind") = [] ∧
        found' = (es.filter fun e => !decide (e.1 = "kind")).reverse ++ found := by
  induction es generalizing found with
  | nil => simp [eq_comm]
  | cons e es ih =>
      obtain ⟨k, j⟩ := e
      rw [List.foldlM_cons]
      by_cases hk : k = "kind"
      · subst hk
        have hnone : takeKind (some kind', found) ("kind", j) = none := by
          rw [Option.eq_none_iff_forall_ne_some]
          intro next hnext
          obtain ⟨_, hcontra, -, -⟩ := takeKind_eq_some.mp hnext
          cases hcontra
        simp [hnone]
      · rw [takeKind_of_ne hk]
        simp [ih, hk]

theorem foldlM_takeKind_none :
    es.foldlM takeKind (none, found) = some (some kind, found') ↔
      es.filter (·.1 = "kind") = [("kind", .text kind.name)] ∧
        found' = (es.filter fun e => !decide (e.1 = "kind")).reverse ++ found := by
  induction es generalizing found with
  | nil => simp
  | cons e es ih =>
      obtain ⟨k, j⟩ := e
      rw [List.foldlM_cons]
      by_cases hk : k = "kind"
      · subst hk
        constructor
        · intro h
          obtain ⟨next, hnext, h⟩ := Option.bind_eq_some_iff.mp h
          obtain ⟨kind', -, rfl, rfl⟩ := takeKind_eq_some.mp hnext
          obtain ⟨rfl, hnil, rfl⟩ := foldlM_takeKind_some.mp h
          simp [hnil]
        · rintro ⟨hone, rfl⟩
          rw [List.filter_cons_of_pos (by simp), List.cons.injEq, Prod.mk.injEq] at hone
          obtain ⟨⟨-, hj⟩, hnil⟩ := hone
          rw [takeKind_eq_some.mpr ⟨kind, rfl, hj, rfl⟩]
          refine foldlM_takeKind_some.mpr ⟨rfl, hnil, ?_⟩
          rw [List.filter_cons_of_neg (by simp)]
      · rw [takeKind_of_ne hk]
        simp [ih, hk]

end

/-- The reader of an entry that has the key, given what has been found before it. -/
def takeEntry (depth : Nat) (state : Option ArtifactKind × List (String × Json)) (key : String) :
    Json.Reader (Option ArtifactKind × List (String × Json)) :=
  if key = "kind" then
    if state.1.isSome then mismatch (.duplicateField "kind")
    else do
      colon
      return (some (← kind), state.2)
  else do
    colon
    return (state.1, (key, ← value depth) :: state.2)

theorem takeEntry_eq_done {depth : Nat} {state next : Option ArtifactKind × List (String × Json)}
    {key : String} :
    takeEntry depth state key s = .done next rest ↔
      ∃ j s', colon s = .done () s' ∧ value depth s' = .done j rest ∧
        takeKind state (key, j) = some next := by
  rw [takeEntry]
  by_cases hkey : key = "kind"
  · subst hkey
    rw [if_pos rfl]
    obtain ⟨_ | kind', found⟩ := state
    · simp only [Option.isSome_none, Bool.false_eq_true, if_false, bind_eq_done, pure_eq_done,
        kind_eq_done depth, takeKind_eq_some]
      constructor
      · rintro ⟨_, s', hcolon, kind, _, hkind, rfl, rfl⟩
        exact ⟨_, s', hcolon, hkind, kind, trivial, rfl, rfl⟩
      · rintro ⟨_, s', hcolon, hkind, kind, -, rfl, rfl⟩
        exact ⟨(), s', hcolon, kind, rest, hkind, rfl, rfl⟩
    · simp [takeKind_eq_some]
  · simp only [if_neg hkey, bind_eq_done, pure_eq_done, takeKind_of_ne hkey, Option.some_inj]
    constructor
    · rintro ⟨_, s', hcolon, j, _, hj, rfl, rfl⟩
      exact ⟨j, s', hcolon, hj, rfl⟩
    · rintro ⟨j, s', hcolon, hj, rfl⟩
      exact ⟨(), s', hcolon, j, rest, hj, rfl, rfl⟩

theorem entriesWithKind_eq_done {depth : Nat} {kind : ArtifactKind} {fields : Json} :
    entriesWithKind depth s = .done (kind, fields) rest ↔
      ∃ es, Gather moreEntries (entry (value depth)) true s es rest ∧
        Tagged (.object es) kind fields := by
  have hmember : Takes takeKind (entry (value depth)) fun state => key >>= takeEntry depth state := by
    intro state last s rest
    simp only [bind_eq_done, takeEntry_eq_done, entry_eq_done]
    constructor
    · rintro ⟨k, s₁, hk, j, s₂, hcolon, hj, htake⟩
      exact ⟨(k, j), ⟨s₁, s₂, hk, hcolon, hj⟩, htake⟩
    · rintro ⟨⟨k, j⟩, ⟨s₁, s₂, hk, hcolon, hj⟩, htake⟩
      exact ⟨k, s₁, hk, j, s₂, hcolon, hj, htake⟩
  have hentries {last} : entries (none, []) (takeEntry depth) s = .done last rest ↔
      ∃ es, Gather moreEntries (entry (value depth)) true s es rest ∧
        es.foldlM takeKind (none, []) = some last := by
    rw [entries_eq_members]
    exact members_eq_done steady_moreEntries moreEntries_eq_done_true
      (steady_entry (steady_value depth)) hmember
  show (entries (none, []) (takeEntry depth) >>= _) s = _ ↔ _
  rw [bind_eq_done]
  constructor
  · rintro ⟨⟨_ | kind', found⟩, s', hfound, h⟩
    · exact absurd h mismatch_ne_done
    · obtain ⟨heq, rfl⟩ := pure_eq_done.mp h
      cases heq
      obtain ⟨es, hes, hfold⟩ := hentries.mp hfound
      obtain ⟨hone, rfl⟩ := foldlM_takeKind_none.mp hfold
      rw [List.append_nil, List.reverse_reverse]
      exact ⟨es, hes, .object hone⟩
  · rintro ⟨es, hes, htagged⟩
    cases htagged with
    | object hone =>
        refine ⟨_, rest, hentries.mpr ⟨es, hes, foldlM_takeKind_none.mpr ⟨hone, rfl⟩⟩, ?_⟩
        refine pure_eq_done.mpr ⟨?_, rfl⟩
        rw [List.append_nil, List.reverse_reverse]

theorem itemsWithKind_eq_done {depth : Nat} {kind : ArtifactKind} {fields : Json} :
    itemsWithKind depth s = .done (kind, fields) rest ↔
      ∃ items, Gather moreItems (value depth) true s items rest ∧
        Tagged (.array items) kind fields := by
  have hitems {s : List Char} {items : List Json} :
      itemList false (value depth) s = .done items rest ↔
        Gather moreItems (value depth) false s items rest :=
    itemList_eq_done (steady_value depth)
  rw [itemsWithKind]
  simp only [bind_eq_done]
  constructor
  · rintro ⟨_ | _, s₁, hmore, h⟩
    · exact absurd h mismatch_ne_done
    · rw [if_pos rfl] at h
      obtain ⟨kind', s₂, hkind, items, s₃, hrest, h⟩ := by simpa only [bind_eq_done] using h
      obtain ⟨⟨⟩, rfl⟩ := pure_eq_done.mp h
      exact ⟨_, .cons hmore ((kind_eq_done depth).mp hkind) (hitems.mp hrest), .array⟩
  · rintro ⟨items, hgather, htagged⟩
    cases htagged with
    | array =>
        cases hgather with
        | cons hmore hkind hrest =>
            refine ⟨true, _, hmore, ?_⟩
            rw [if_pos rfl, bind_of_done ((kind_eq_done depth).mpr hkind),
              bind_of_done (hitems.mpr hrest)]
            rfl

theorem Tagged.nesting_pos {j fields : Json} {kind : ArtifactKind} (h : Tagged j kind fields) :
    0 < j.nesting := by
  cases h <;> exact Nat.succ_pos _

theorem tagged_array_eq_done {depth : Nat} {kind : ArtifactKind} {fields : Json} :
    inArray (itemsWithKind depth) s = .done (kind, fields) rest ↔
      ∃ j, inArray (.array <$> itemList true (value depth)) s = .done j rest ∧
        Tagged j kind fields := by
  simp only [value_array_eq_done]
  simp only [inArray_eq_done, itemsWithKind_eq_done]
  constructor
  · rintro ⟨s', ⟨items, hitems, htagged⟩, hclose⟩
    exact ⟨_, ⟨items, s', hitems, hclose, rfl⟩, htagged⟩
  · rintro ⟨_, ⟨items, s', hitems, hclose, rfl⟩, htagged⟩
    exact ⟨s', ⟨items, hitems, htagged⟩, hclose⟩

theorem tagged_object_eq_done {depth : Nat} {kind : ArtifactKind} {fields : Json} :
    inObject (entriesWithKind depth) s = .done (kind, fields) rest ↔
      ∃ j, inObject (.object <$> entryList (value depth)) s = .done j rest ∧
        Tagged j kind fields := by
  simp only [value_object_eq_done]
  simp only [inObject_eq_done, entriesWithKind_eq_done]
  constructor
  · rintro ⟨s', ⟨es, hes, htagged⟩, hclose⟩
    exact ⟨_, ⟨es, s', hes, hclose, rfl⟩, htagged⟩
  · rintro ⟨_, ⟨es, s', hes, hclose, rfl⟩, htagged⟩
    exact ⟨s', ⟨es, hes, htagged⟩, hclose⟩

/-- A document with its kind taken out is a value that names its kind. -/
theorem tagged_eq_done {depth : Nat} {kind : ArtifactKind} {fields : Json} :
    tagged (depth + 1) s = .done (kind, fields) rest ↔
      ∃ j, value (depth + 1) s = .done j rest ∧ Tagged j kind fields := by
  cases hdrop : s.dropWhile isBlank with
  | nil =>
      have hfail {β : Type} {b : β} {f : Char → Json.Reader β} :
          (peekToken .eofValue >>= f) s ≠ .done b rest := by
        intro h
        obtain ⟨_, _, htoken, -⟩ := bind_eq_done.mp h
        obtain ⟨_, hcons, -⟩ := peekToken_eq_done.mp htoken
        rw [hdrop] at hcons
        cases hcons
      constructor
      · exact fun h => absurd h hfail
      · exact fun ⟨_, h, _⟩ => absurd h hfail
  | cons c tail =>
      by_cases harray : c = '['
      · subst harray
        simp only [tagged, value, valueWith, peekToken_bind_of_dropWhile hdrop]
        exact tagged_array_eq_done
      by_cases hobject : c = '\x7b'
      · subst hobject
        simp only [tagged, value, valueWith, peekToken_bind_of_dropWhile hdrop]
        exact tagged_object_eq_done
      · constructor
        · intro h
          have htyped : tagged (depth + 1) s = typed (fun other =>
              .error (.invalidType other.found "internally tagged enum RawArtifact")) (c :: tail) := by
            rw [tagged, peekToken_bind_of_dropWhile hdrop]
            refine congrFun ?_ _
            split
            next => exact absurd rfl harray
            next => exact absurd rfl hobject
            next => exact absurd rfl harray
            next => exact absurd rfl hobject
            next => rfl
          obtain ⟨_, -, hjudge⟩ := typed_eq_done.mp (htyped.symm.trans h)
          cases hjudge
        · rintro ⟨j, hj, htagged⟩
          have hzero := nesting_eq_zero_of_valueWith hdrop harray hobject hj
          exact absurd hzero (Nat.ne_of_gt htagged.nesting_pos)

/-! The whole text. -/

theorem reader_eq_done {depth : Nat} {record : ArtifactRecord} :
    reader (depth + 1) s = .done record rest ↔ ∃ j kind fields, value (depth + 1) s = .done j rest ∧
      Tagged j kind fields ∧ ofJson kind fields = .ok record := by
  simp only [reader, bind_eq_done, judged_eq_done, Prod.exists, tagged_eq_done]
  constructor
  · rintro ⟨kind, fields, _, ⟨j, hj, htagged⟩, hrecord, rfl⟩
    exact ⟨j, kind, fields, hj, htagged, hrecord⟩
  · rintro ⟨j, kind, fields, hj, htagged, hrecord⟩
    exact ⟨kind, fields, rest, ⟨j, hj, htagged⟩, hrecord, rfl⟩

theorem ofText_eq_ok {text : String} {record : ArtifactRecord} :
    ofText text = .ok record ↔ ∃ j kind fields, Json.ofText text = .ok j ∧ Tagged j kind fields ∧
      ofJson kind fields = .ok record := by
  simp only [ofText, Json.ofText, Json.nestingLimit, run_eq_ok, reader_eq_done]
  constructor
  · rintro ⟨rest, ⟨j, kind, fields, hj, htagged, hrecord⟩, hrest⟩
    exact ⟨j, kind, fields, ⟨rest, hj, hrest⟩, htagged, hrecord⟩
  · rintro ⟨j, kind, fields, ⟨rest, hj, hrest⟩, htagged, hrecord⟩
    exact ⟨rest, ⟨j, kind, fields, hj, htagged, hrecord⟩, hrest⟩

/-- What the value of one text holds, the value of the other does too; so the texts are read as the same
document. -/
theorem ofText_of_recast {text text' : String} {j j' : Json} (hj : Json.ofText text = .ok j)
    (hj' : Json.ofText text' = .ok j') (hrecast : Recast IsKey j j') {record : ArtifactRecord}
    (h : ofText text = .ok record) :
    ofText text' = .ok record := by
  obtain ⟨_, kind, fields, hread, htagged, hrecord⟩ := ofText_eq_ok.mp h
  cases hj.symm.trans hread
  obtain ⟨fields', htagged', hrecord'⟩ := htagged.ofJson_of_recast hrecast hrecord
  exact ofText_eq_ok.mpr ⟨j', kind, fields', hj', htagged', hrecord'⟩

/-- Sorting the entries of a document and writing it anew makes no other document of it. -/
theorem ofText_pretty {text : String} {record : ArtifactRecord} {j : Json}
    (h : ofText text = .ok record) (hj : Json.ofText text = .ok j)
    (hd : j.nesting ≤ Json.nestingLimit) (hnumbers : ∀ n ∈ j.numbers, n.Integral) :
    ofText j.canonical.pretty = .ok record := by
  have hsort := Json.keepsLast_sortEntries
  rw [Json.canonical_eq_condense]
  have hread := Json.ofText_render_condense hsort Json.Layout.spaced_pretty hd hnumbers
  exact ofText_of_recast hj hread (Json.recast_condense hsort j) h

end ArtifactRecord

end Mediation
