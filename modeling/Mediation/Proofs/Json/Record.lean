import Mathlib.Data.List.Forall2
import Mathlib.Data.List.Pairwise
import Mathlib.Data.List.Perm.Basic
import Mediation.Json.Record
import Mediation.Proofs.Json.Recast

/-! Reading a value that has been recast. A reader follows another if whatever the other reads from a
value, it reads from every value that holds the same (`Follows`). Readers of records follow each
other if the readers of their fields do and the fields can be set in any order
(`Shape.Follows.ofJson`): an object's fields are there once each, and what has to be done for them
does not depend on where they stand. -/

namespace Mediation

namespace Json

section

variable {ε α β : Type}

theorem bind_eq_ok {x : Except ε α} {f : α → Except ε β} {b : β} :
    (x >>= f) = .ok b ↔ ∃ a, x = .ok a ∧ f a = .ok b := by
  cases x with
  | error e => exact ⟨fun h => (nomatch h), fun ⟨_, h, _⟩ => (nomatch h)⟩
  | ok a =>
      constructor
      · exact fun h => ⟨a, rfl, h⟩
      · rintro ⟨_, ⟨⟩, h⟩
        exact h

theorem map_eq_ok {f : α → β} {x : Except ε α} {b : β} :
    f <$> x = .ok b ↔ ∃ a, x = .ok a ∧ f a = b := by
  cases x with
  | error e => exact ⟨fun h => (nomatch h), fun ⟨_, h, _⟩ => (nomatch h)⟩
  | ok a =>
      constructor
      · rintro ⟨⟩
        exact ⟨a, rfl, rfl⟩
      · rintro ⟨_, ⟨⟩, rfl⟩
        rfl

end

/-- What the first reader reads from a value, the second reads from a value that holds the same,
provided that this nests no deeper than `n`. -/
def Follows (K : String → Prop) {α : Type} (n : Nat) (read read' : Json → Except Mismatch α) : Prop :=
  ∀ ⦃j j' a⦄, Recast K j j' → j'.nesting ≤ n → read j = .ok a → read' j' = .ok a

section

variable {K : String → Prop} {α β : Type} {n : Nat} {read read' : Json → Except Mismatch α}

theorem Follows.of_le {k : Nat} (h : Follows K n read read') (hk : k ≤ n) : Follows K k read read' :=
  fun _ _ _ hj hn hok => h hj (Nat.le_trans hn hk) hok

theorem Follows.map (h : Follows K n read read') (f : α → β) :
    Follows K n (fun j => f <$> read j) fun j => f <$> read' j := by
  intro j j' b hj hn hok
  obtain ⟨a, ha, rfl⟩ := map_eq_ok.mp hok
  exact map_eq_ok.mpr ⟨a, h hj hn ha, rfl⟩

theorem follows_uint32 : Follows K n uint32 uint32 := by
  intro j j' a hj _ hok
  cases hj with
  | whole => exact hok
  | null | bool | real | text | array | object => cases hok

theorem follows_string : Follows K n string string := by
  intro j j' a hj _ hok
  cases hj with
  | text => exact hok
  | null | bool | whole | real | array | object => cases hok

theorem Follows.nullable (h : Follows K n read read') :
    Follows K n (nullable read) (nullable read') := by
  intro j j' a hj hn hok
  cases hj with
  | null => exact hok
  | bool | whole | real | text | array | object =>
      obtain ⟨b, hb, rfl⟩ := map_eq_ok.mp hok
      exact map_eq_ok.mpr ⟨b, h (by constructor <;> assumption) hn hb, rfl⟩

theorem nesting_le_of_mem_array {items : List Json} (h : (array items).nesting ≤ n) :
    ∀ j ∈ items, j.nesting ≤ n := by
  obtain _ | n := n
  · exact nomatch h
  · exact fun j hj => Nat.le_succ_of_le (nesting_array_le_iff.mp h j hj)

theorem nesting_le_of_mem_object {entries : List (String × Json)}
    (h : (object entries).nesting ≤ n) :
    ∀ e ∈ entries, e.2.nesting ≤ n := by
  obtain _ | n := n
  · exact nomatch h
  · exact fun e he => Nat.le_succ_of_le (nesting_object_le_iff.mp h e he)

theorem Follows.mapM (h : Follows K n read read') {items items' : List Json}
    (hrecast : List.Forall₂ (Recast K) items items') (hitems : ∀ j ∈ items', j.nesting ≤ n)
    {as : List α} (hok : items.mapM read = .ok as) :
    items'.mapM read' = .ok as := by
  induction hrecast generalizing as with
  | nil => exact hok
  | cons hj _ ih =>
      obtain ⟨hn, hitems⟩ := List.forall_mem_cons.mp hitems
      rw [List.mapM_cons, bind_eq_ok] at hok
      obtain ⟨a, ha, hok⟩ := hok
      obtain ⟨as, has, hok⟩ := bind_eq_ok.mp hok
      cases hok
      rw [List.mapM_cons]
      refine bind_eq_ok.mpr ⟨a, h hj hn ha, ?_⟩
      exact bind_eq_ok.mpr ⟨as, ih hitems has, rfl⟩

theorem Follows.list (h : Follows K n read read') : Follows K n (list read) (list read') := by
  intro j j' as hj hn hok
  cases hj with
  | array hitems => exact h.mapM hitems (nesting_le_of_mem_array hn) hok
  | null | bool | whole | real | text | object => cases hok

end

/-! Fields. -/

/-- The fields read their values alike. -/
structure Field.Follows (K : String → Prop) {σ : Type} (n : Nat)
    (f f' : Field (Json → Except Mismatch (σ → σ))) : Prop where
  key : f.key = f'.key
  need : f.need = f'.need
  read : Json.Follows K n f.read f'.read

theorem Field.follows_required {K : String → Prop} {α σ : Type} {n : Nat} {key : String}
    {read read' : Json → Except Mismatch α} {set : α → σ → σ} (h : Json.Follows K n read read') :
    Field.Follows K n (.required key read set) (.required key read' set) :=
  ⟨rfl, rfl, h.map set⟩

theorem Field.follows_optional {K : String → Prop} {α σ : Type} {n : Nat} {key : String}
    {read read' : Json → Except Mismatch α} {set : Option α → σ → σ}
    (h : Json.Follows K n read read') :
    Field.Follows K n (.optional key read set) (.optional key read' set) :=
  ⟨rfl, rfl, h.nullable.map set⟩

theorem Field.follows_defaulted {K : String → Prop} {α σ : Type} {n : Nat} {key : String}
    {read read' : Json → Except Mismatch α} {set : α → σ → σ} (h : Json.Follows K n read read') :
    Field.Follows K n (.defaulted key read set) (.defaulted key read' set) :=
  ⟨rfl, rfl, h.map set⟩

/-- It does not matter which of the fields is set first. -/
def Field.Commutes {σ : Type} (f f' : Field (Json → Except Mismatch (σ → σ))) : Prop :=
  ∀ ⦃j g j' g'⦄, f.read j = .ok g → f'.read j' = .ok g' → ∀ r, g (g' r) = g' (g r)

theorem Field.Commutes.symm {σ : Type} {f f' : Field (Json → Except Mismatch (σ → σ))}
    (h : f.Commutes f') :
    f'.Commutes f :=
  fun _ _ _ _ hf' hf r => (h hf hf' r).symm

/-- Fields commute if what sets them does. -/
@[simp]
theorem Field.commutes_of_set {α β σ : Type} {k k' : String} {need need' : Need}
    {read : Json → Except Mismatch α} {set : α → σ → σ} {read' : Json → Except Mismatch β}
    {set' : β → σ → σ} (h : ∀ a b r, set a (set' b r) = set' b (set a r)) :
    Field.Commutes ⟨k, need, fun j => set <$> read j⟩ ⟨k', need', fun j => set' <$> read' j⟩ := by
  intro j g j' g' hg hg' r
  obtain ⟨a, -, rfl⟩ := map_eq_ok.mp hg
  obtain ⟨b, -, rfl⟩ := map_eq_ok.mp hg'
  exact h a b r

namespace Shape

variable {σ : Type}

/-- The records are written with the same fields, whose keys count and which read their values
alike. -/
structure Follows (K : String → Prop) (n : Nat) (shape shape' : OfJson σ) : Prop where
  keys : ∀ f ∈ shape.fields, K f.key
  blank : shape.blank = shape'.blank
  fields : List.Forall₂ (Field.Follows K n) shape.fields shape'.fields
  commute : shape'.fields.Pairwise Field.Commutes

/-- The key names a field. -/
def isField (shape : OfJson σ) (key : String) : Bool :=
  (shape.fields.find? (·.key = key)).isSome

/-- What the field that an entry names makes of its value. -/
def Reads (shape : OfJson σ) (e : String × Json) (g : σ → σ) : Prop :=
  ∃ field, shape.fields.find? (·.key = e.1) = some field ∧ field.read e.2 = .ok g

theorem takeEntries_cons_of_none {shape : OfJson σ} {e : String × Json}
    (h : shape.fields.find? (·.key = e.1) = none) (seen : List String) (r : σ)
    (rest : List (String × Json)) :
    shape.takeEntries seen r (e :: rest) =
      (fun x => (x.1, x.2.1, e :: x.2.2)) <$> shape.takeEntries seen r rest := by
  obtain ⟨key, value⟩ := e
  rw [takeEntries, accept, h]
  rfl

theorem takeEntries_cons_of_some {shape : OfJson σ} {e : String × Json}
    {field : Field (Json → Except Mismatch (σ → σ))}
    (h : shape.fields.find? (·.key = e.1) = some field) (seen : List String) (r : σ)
    (rest : List (String × Json)) :
    shape.takeEntries seen r (e :: rest) =
      if e.1 ∈ seen then .error (.duplicateField e.1)
      else field.read e.2 >>= fun g => shape.takeEntries (e.1 :: seen) (g r) rest := by
  obtain ⟨key, value⟩ := e
  rw [takeEntries, accept, h]
  dsimp only
  split <;> rfl

/-- Entries are taken just when those that name fields name different ones and their values can be
read; what they come to is then set in order. -/
theorem takeEntries_eq_ok {shape : OfJson σ} {seen seen' : List String} {r r' : σ}
    {es others : List (String × Json)} :
    shape.takeEntries seen r es = .ok (seen', r', others) ↔
      ((es.filter (shape.isField ·.1)).map (·.1)).Nodup ∧
      (∀ e ∈ es.filter (shape.isField ·.1), e.1 ∉ seen) ∧
      seen' = ((es.filter (shape.isField ·.1)).map (·.1)).reverse ++ seen ∧
      others = es.filter (!shape.isField ·.1) ∧
      ∃ gs, List.Forall₂ shape.Reads (es.filter (shape.isField ·.1)) gs ∧
        r' = gs.foldl (fun r g => g r) r := by
  induction es generalizing seen r seen' r' others with
  | nil =>
      rw [takeEntries]
      constructor
      · rintro ⟨⟩
        exact ⟨.nil, fun _ h => (nomatch h), rfl, rfl, [], .nil, rfl⟩
      · rintro ⟨-, -, rfl, rfl, gs, hgs, rfl⟩
        cases hgs
        rfl
  | cons e rest ih =>
      cases hfind : shape.fields.find? (·.key = e.1) with
      | none =>
          have hfield : shape.isField e.1 = false := by rw [isField, hfind]; rfl
          rw [takeEntries_cons_of_none hfind, map_eq_ok,
            List.filter_cons_of_neg (by simp [hfield]), List.filter_cons_of_pos (by simp [hfield])]
          constructor
          · rintro ⟨⟨_, _, others⟩, hrest, ⟨⟩⟩
            obtain ⟨hnodup, hseen, hseen', rfl, hgs⟩ := ih.mp hrest
            exact ⟨hnodup, hseen, hseen', rfl, hgs⟩
          · rintro ⟨hnodup, hseen, hseen', rfl, hgs⟩
            exact ⟨_, ih.mpr ⟨hnodup, hseen, hseen', rfl, hgs⟩, rfl⟩
      | some field =>
          have hfield : shape.isField e.1 = true := by rw [isField, hfind]; rfl
          rw [takeEntries_cons_of_some hfind, List.filter_cons_of_pos (by simp [hfield]),
            List.filter_cons_of_neg (by simp [hfield]), List.map_cons, List.nodup_cons,
            List.forall_mem_cons, List.reverse_cons, List.append_assoc]
          constructor
          · intro h
            split at h
            next => cases h
            next hnew =>
                obtain ⟨g, hg, h⟩ := bind_eq_ok.mp h
                obtain ⟨hnodup, hseen, hseen', hothers, gs, hgs, hr⟩ := ih.mp h
                refine ⟨⟨fun hmem => ?_, hnodup⟩, ⟨hnew, fun e' he' => ?_⟩, hseen', hothers,
                  g :: gs, .cons ⟨field, hfind, hg⟩ hgs, hr⟩
                · obtain ⟨e', he', heq⟩ := List.mem_map.mp hmem
                  exact hseen e' he' (heq ▸ List.mem_cons_self)
                · exact fun hmem => hseen e' he' (List.mem_cons_of_mem _ hmem)
          · rintro ⟨⟨hnot, hnodup⟩, ⟨hnew, hseen⟩, hseen', hothers, gs, hgs, hr⟩
            obtain _ | ⟨⟨field', hfind', hg⟩, hgs⟩ := hgs
            cases hfind.symm.trans hfind'
            rw [if_neg hnew]
            refine bind_eq_ok.mpr ⟨_, hg, ih.mpr ⟨hnodup, fun e' he' hmem => ?_, hseen', hothers,
              _, hgs, hr⟩⟩
            rcases List.mem_cons.mp hmem with heq | hmem
            · exact hnot (heq ▸ List.mem_map_of_mem he')
            · exact hseen e' he' hmem

theorem complete_eq_ok {shape : OfJson σ} {seen : List String} :
    shape.complete seen = .ok () ↔ ∀ f ∈ shape.fields, f.need = .required → f.key ∈ seen := by
  rw [complete]
  cases hfind : shape.fields.find? fun f => f.need = .required && f.key ∉ seen with
  | none =>
      have hnone := List.find?_eq_none.mp hfind
      simpa using hnone
  | some f =>
      have hf := List.find?_some hfind
      have hmem := List.mem_of_find?_eq_some hfind
      simp only [Bool.and_eq_true, decide_eq_true_eq] at hf
      constructor
      · rintro ⟨⟩
      · exact fun h => absurd (h f hmem hf.1) hf.2

section

variable {K : String → Prop} {n : Nat} {shape shape' : OfJson σ}

theorem Follows.find? (h : shape.Follows K n shape') (key : String) :
    (shape.fields.find? (·.key = key) = none ∧ shape'.fields.find? (·.key = key) = none) ∨
      ∃ f f', shape.fields.find? (·.key = key) = some f ∧
        shape'.fields.find? (·.key = key) = some f' ∧ f.Follows K n f' := by
  have hfields := h.fields
  generalize shape.fields = fields at hfields
  generalize shape'.fields = fields' at hfields
  induction hfields with
  | nil => exact .inl ⟨rfl, rfl⟩
  | @cons f f' fields fields' hf _ ih =>
      rw [List.find?_cons, List.find?_cons, ← hf.key]
      by_cases hkey : f.key = key
      · rw [decide_eq_true hkey]
        exact .inr ⟨f, f', rfl, rfl, hf⟩
      · rw [decide_eq_false hkey]
        exact ih

theorem Follows.isField_eq (h : shape.Follows K n shape') : shape'.isField = shape.isField := by
  funext key
  rw [isField, isField]
  rcases h.find? key with ⟨hnone, hnone'⟩ | ⟨f, f', hsome, hsome', -⟩
  · rw [hnone, hnone']
  · rw [hsome, hsome']
    rfl

theorem Follows.counts (h : shape.Follows K n shape') {key : String}
    (hkey : shape.isField key = true) :
    K key := by
  obtain ⟨f, hf⟩ := Option.isSome_iff_exists.mp hkey
  have heq := List.find?_some hf
  exact of_decide_eq_true heq ▸ h.keys f (List.mem_of_find?_eq_some hf)

theorem Follows.reads (h : shape.Follows K n shape') {e e' : String × Json} (he : RecastEntry K e e')
    (hn : e'.2.nesting ≤ n) {g : σ → σ} (hg : shape.Reads e g) :
    shape'.Reads e' g := by
  obtain ⟨field, hfind, hread⟩ := hg
  rcases h.find? e.1 with ⟨hnone, -⟩ | ⟨f, f', hsome, hsome', hf⟩
  · cases hnone.symm.trans hfind
  · cases hsome.symm.trans hfind
    exact ⟨f', he.1 ▸ hsome', hf.read he.2 hn hread⟩

theorem Follows.forall₂_reads (h : shape.Follows K n shape') {es es' : List (String × Json)}
    (hes : List.Forall₂ (RecastEntry K) es es') (hn : ∀ e ∈ es', e.2.nesting ≤ n) {gs : List (σ → σ)}
    (hgs : List.Forall₂ shape.Reads es gs) :
    List.Forall₂ shape'.Reads es' gs := by
  induction hes generalizing gs with
  | nil =>
      cases hgs
      exact .nil
  | cons he _ ih =>
      obtain ⟨hshallow, hn⟩ := List.forall_mem_cons.mp hn
      obtain _ | ⟨hg, hgs⟩ := hgs
      exact .cons (h.reads he hshallow hg) (ih hn hgs)

/-- Fields can be set in any order. -/
theorem foldl_perm_of_commute (h : shape.fields.Pairwise Field.Commutes)
    {es : List (String × Json)} (hnodup : (es.map (·.1)).Nodup) {gs gs' : List (σ → σ)}
    (hgs : List.Forall₂ shape.Reads es gs) (hperm : gs.Perm gs') (r : σ) :
    gs.foldl (fun r g => g r) r = gs'.foldl (fun r g => g r) r := by
  have hentry : ∀ g ∈ gs, ∃ e ∈ es, shape.Reads e g := by
    intro g hg
    clear hnodup hperm
    induction hgs with
    | nil => cases hg
    | cons he _ ih =>
        rcases List.mem_cons.mp hg with rfl | hg
        · exact ⟨_, List.mem_cons_self, he⟩
        · obtain ⟨e, hmem, he⟩ := ih hg
          exact ⟨e, List.mem_cons_of_mem _ hmem, he⟩
  have hsymm : Std.Symm (Field.Commutes (σ := σ)) := ⟨fun _ _ h => h.symm⟩
  refine hperm.foldl_eq' (fun g hg g' hg' r => ?_) r
  obtain ⟨e, he, f, hf, hread⟩ := hentry g hg
  obtain ⟨e', he', f', hf', hread'⟩ := hentry g' hg'
  by_cases hkey : e.1 = e'.1
  · have heq : e = e' := List.inj_on_of_nodup_map hnodup he he' hkey
    subst heq
    cases hf.symm.trans hf'
    cases hread.symm.trans hread'
    rfl
  · have hne : f ≠ f' := by
      rintro rfl
      have hk := List.find?_some hf
      have hk' := List.find?_some hf'
      simp only [decide_eq_true_eq] at hk hk'
      exact hkey (hk ▸ hk')
    have hcomm : f.Commutes f' :=
      h.forall (List.mem_of_find?_eq_some hf) (List.mem_of_find?_eq_some hf') hne
    exact (hcomm hread hread' r).symm

/-- What entries are taken for, the same entries in another order are taken for. -/
theorem Follows.takeEntries (h : shape.Follows K n shape') {es es' : List (String × Json)}
    (hes : Reordered K es es') (hn : ∀ e ∈ es', e.2.nesting ≤ n) {seen : List String} {r r' : σ}
    {others : List (String × Json)} (hok : shape.takeEntries [] r es = .ok (seen, r', others)) :
    others = es.filter (!shape.isField ·.1) ∧ ∃ seen', (∀ key ∈ seen, key ∈ seen') ∧
      shape'.takeEntries [] r es' = .ok (seen', r', es'.filter (!shape.isField ·.1)) := by
  obtain ⟨hnodup, -, rfl, hothers, gs, hgs, rfl⟩ := takeEntries_eq_ok.mp hok
  obtain ⟨es'', hperm, hrecast⟩ := (hes.filter shape.isField).exists_perm
    (fun e he => h.counts (List.mem_filter.mp he).2) hnodup
  have hkeys : (es'.filter (shape.isField ·.1)).map (·.1) |>.Perm
      ((es.filter (shape.isField ·.1)).map (·.1)) := by
    refine (hperm.map (·.1)).trans (.of_eq ?_)
    rw [← List.forall₂_eq_eq_eq, List.forall₂_map_left_iff, List.forall₂_map_right_iff]
    exact hrecast.flip.imp fun e' e he => he.1.symm
  have hreads : List.Forall₂ shape'.Reads es'' gs :=
    h.forall₂_reads hrecast (fun e he => hn e (List.mem_of_mem_filter (hperm.mem_iff.mpr he))) hgs
  obtain ⟨gs', hgs', hpermgs⟩ := List.perm_comp_forall₂ hperm hreads
  refine ⟨hothers, ((es'.filter (shape.isField ·.1)).map (·.1)).reverse ++ [], ?_,
    takeEntries_eq_ok.mpr ?_⟩
  · intro key hkey
    rw [List.append_nil, List.mem_reverse] at hkey ⊢
    exact hkeys.mem_iff.mpr hkey
  · rw [h.isField_eq]
    have hnodup' := hkeys.nodup_iff.mpr hnodup
    refine ⟨hnodup', fun _ _ h => (nomatch h), rfl, rfl, gs', hgs', ?_⟩
    exact (foldl_perm_of_commute h.commute hnodup' hgs' hpermgs r).symm

theorem Follows.complete (h : shape.Follows K n shape') {seen seen' : List String}
    (hseen : ∀ key ∈ seen, key ∈ seen') (hok : shape.complete seen = .ok ()) :
    shape'.complete seen' = .ok () := by
  rw [complete_eq_ok] at hok ⊢
  have hfields := h.fields
  generalize shape.fields = fields at hfields hok
  generalize shape'.fields = fields' at hfields
  induction hfields with
  | nil => exact fun _ hf => (nomatch hf)
  | cons hf _ ih =>
      rw [List.forall_mem_cons] at hok ⊢
      refine ⟨fun hneed => ?_, ih hok.2⟩
      rw [← hf.key]
      exact hseen _ (hok.1 (hf.need.trans hneed))

/-- The record that entries make, the same entries in another order make. -/
theorem Follows.ofEntries (h : shape.Follows K n shape') {es es' : List (String × Json)}
    (hes : Reordered K es es') (hn : ∀ e ∈ es', e.2.nesting ≤ n) {r : σ}
    {others : List (String × Json)} (hok : shape.ofEntries es = .ok (r, others)) :
    others = es.filter (!shape.isField ·.1) ∧
      shape'.ofEntries es' = .ok (r, es'.filter (!shape.isField ·.1)) := by
  rw [Shape.ofEntries] at hok ⊢
  obtain ⟨⟨seen, r', others'⟩, htake, hok⟩ := bind_eq_ok.mp hok
  obtain ⟨⟨⟩, hcomplete, hok⟩ := bind_eq_ok.mp hok
  cases hok
  rw [h.blank] at htake
  obtain ⟨hothers, seen', hseen, htake'⟩ := h.takeEntries hes hn htake
  refine ⟨hothers, bind_eq_ok.mpr ⟨_, htake', bind_eq_ok.mpr ⟨(), ?_, rfl⟩⟩⟩
  exact h.complete hseen hcomplete

theorem takeItems_of_follows {fields fields' : List (Field (Json → Except Mismatch (σ → σ)))}
    (hfields : List.Forall₂ (Field.Follows K n) fields fields') {items items' : List Json}
    (hrecast : List.Forall₂ (Recast K) items items') (hitems : ∀ j ∈ items', j.nesting ≤ n)
    {index : Nat} {r r' : σ} (hok : shape.takeItems index r fields items = .ok r') :
    shape'.takeItems index r fields' items' = .ok r' := by
  induction hfields generalizing items items' index r with
  | nil =>
      cases hrecast with
      | nil => exact hok
      | cons => cases hok
  | @cons f f' fields fields' hf _ ih =>
      cases hrecast with
      | nil =>
          rw [takeItems] at hok
          rw [takeItems, ← hf.need]
          split at hok
          next hneed =>
              rw [if_pos hneed]
              exact ih .nil hitems hok
          next => cases hok
      | cons hj hrecast =>
          obtain ⟨hn, hitems⟩ := List.forall_mem_cons.mp hitems
          rw [takeItems] at hok
          obtain ⟨g, hg, hok⟩ := bind_eq_ok.mp hok
          rw [takeItems]
          exact bind_eq_ok.mpr ⟨g, hf.read hj hn hg, ih hrecast hitems hok⟩

/-- The record that items make, the same items make. -/
theorem Follows.ofItems (h : shape.Follows K n shape') {items items' : List Json}
    (hrecast : List.Forall₂ (Recast K) items items') (hitems : ∀ j ∈ items', j.nesting ≤ n) {r : σ}
    (hok : shape.ofItems items = .ok r) :
    shape'.ofItems items' = .ok r := by
  rw [Shape.ofItems, h.blank] at hok
  exact takeItems_of_follows h.fields hrecast hitems hok

/-- The record that a value makes, every value makes that holds the same. -/
theorem Follows.ofJson (h : shape.Follows K n shape') :
    Json.Follows K (n + 1) shape.ofJson shape'.ofJson := by
  intro j j' r hj hn hok
  cases hj with
  | array hitems => exact h.ofItems hitems (nesting_array_le_iff.mp hn) hok
  | object hkeys hes =>
      obtain ⟨⟨r', others⟩, htake, rfl⟩ := map_eq_ok.mp hok
      exact map_eq_ok.mpr
        ⟨_, (h.ofEntries ⟨hkeys, hes⟩ (nesting_object_le_iff.mp hn) htake).2, rfl⟩
  | null | bool | whole | real | text => cases hok

end

end Shape

end Json

end Mediation
