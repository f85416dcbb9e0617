import Mediation.Proofs.Json.Grammar.Value
import Mediation.Proofs.Json.Recast

/-! What is written is of the grammar. Real numbers are written with a point or with an exponent
(`exists_text`), so they are read as real numbers again, though nothing is said about which. All
other leaves are read as they were. So a value is recast by what is read from its text, if anything is
(`spells_render`). -/

namespace Mediation

namespace Json

open Reader

/-! Real numbers. -/

/-- Digits with a point or an exponent. -/
def IsReal (w : List Char) : Prop :=
  ∃ i f x, IsInteger i ∧ IsFraction f ∧ IsExponent x ∧ (f ≠ [] ∨ x ≠ []) ∧ w = i ++ (f ++ x)

theorem isReal_point {i w : List Char} (hi : IsInteger i) (hne : w ≠ [])
    (hw : ∀ d ∈ w, d.isDigit = true) :
    IsReal (i ++ '.' :: w) :=
  ⟨i, '.' :: w, [], hi, .some hne hw, .none, .inl (List.cons_ne_nil _ _), by rw [List.append_nil]⟩

theorem isReal_exponent {i f sign : List Char} (hi : IsInteger i) (hf : IsFraction f)
    (hsign : sign = [] ∨ sign = ['+'] ∨ sign = ['-']) (n : Nat) :
    IsReal (i ++ (f ++ 'e' :: (sign ++ Nat.toDigits 10 n))) :=
  ⟨i, f, _, hi, hf, .some (.inl rfl) hsign Nat.toDigits_ne_nil fun _ => isDigit_of_mem_toDigits,
    .inr (List.cons_ne_nil _ _), rfl⟩

section

variable {c : Char} {ds : List Char}

/-- The point stands between digits. -/
theorem isReal_between (hc : c ≠ '0') (hds : ∀ d ∈ c :: ds, d.isDigit = true) {n : Nat}
    (hn : n < ds.length) :
    IsReal (c :: ds.take n ++ '.' :: ds.drop n) := by
  obtain ⟨hdigit, hrest⟩ := List.forall_mem_cons.mp hds
  refine isReal_point (.positive hc fun d hd => ?_) ?_ fun d hd => ?_
  · rcases List.mem_cons.mp hd with rfl | hd
    · exact hdigit
    · exact hrest d (List.mem_of_mem_take hd)
  · exact List.drop_eq_nil_iff.not.mpr (Nat.not_le.mpr hn)
  · exact hrest d (List.mem_of_mem_drop hd)

/-- There is one digit before the point, if there is a point at all, and an exponent. -/
theorem isReal_scientific (hc : c ≠ '0') (hds : ∀ d ∈ c :: ds, d.isDigit = true) (lead : Int) :
    IsReal ([c] ++ ((if ds.isEmpty then "" else ".").toList ++ (ds ++ 'e' ::
      ((if lead < 0 then "-" else "+").toList ++ Nat.toDigits 10 lead.natAbs)))) := by
  obtain ⟨hdigit, hrest⟩ := List.forall_mem_cons.mp hds
  have hone : IsInteger [c] := .positive hc (List.forall_mem_singleton.mpr hdigit)
  have hsign : (if lead < 0 then "-" else "+").toList = [] ∨
      (if lead < 0 then "-" else "+").toList = ['+'] ∨
      (if lead < 0 then "-" else "+").toList = ['-'] := by
    split
    next => exact .inr (.inr rfl)
    next => exact .inr (.inl rfl)
  cases ds with
  | nil => exact isReal_exponent hone .none hsign _
  | cons d ds =>
      have hfraction : IsFraction ('.' :: d :: ds) := .some (List.cons_ne_nil d ds) hrest
      simpa using isReal_exponent hone hfraction hsign lead.natAbs

end

/-- A number is written with a point or an exponent. -/
theorem exists_text (x : Decimal.Binary64) :
    ∃ w, IsReal w ∧ (x.text.toList = w ∨ x.text.toList = '-' :: w) := by
  have hsign {body : String} (h : IsReal body.toList) :
      ∃ w, IsReal w ∧ (((if x.negative then "-" else "") ++ body).toList = w ∨
        ((if x.negative then "-" else "") ++ body).toList = '-' :: w) := by
    refine ⟨_, h, ?_⟩
    rw [String.toList_append]
    cases x.negative with
    | true => exact .inr rfl
    | false => exact .inl rfl
  rw [Decimal.Binary64.text]
  refine hsign ?_
  generalize x.shortest = d
  split
  next =>
      show IsReal ['0', '.', '0']
      exact isReal_point .zero (List.cons_ne_nil _ _) (List.forall_mem_singleton.mpr rfl)
  next hne =>
  obtain ⟨c, ds, hdigits, hc, hds⟩ := exists_toDigits hne
  rw [Nat.toList_repr, hdigits]
  have hzeros (n : Nat) : ∀ d ∈ List.replicate n '0', d.isDigit = true := fun d hd =>
    (List.mem_replicate.mp hd).2 ▸ rfl
  split
  next hlead =>
      split
      next =>
          -- all digits stand before the point
          rw [String.toList_append, String.toList_ofList, List.cons_append]
          refine isReal_point (.positive hc fun d hd => ?_) (List.cons_ne_nil _ _)
            (List.forall_mem_singleton.mpr rfl)
          rw [← List.cons_append] at hd
          exact (List.mem_append.mp hd).elim (hds d) (hzeros _ d)
      next hexponent =>
          split
          next =>
              -- all digits stand behind the point
              simp only [String.toList_append, String.toList_ofList]
              refine isReal_point (w := _ ++ c :: ds) .zero (by simp) fun d hd => ?_
              exact (List.mem_append.mp hd).elim (hzeros _ d) (hds d)
          next hpos =>
              rw [List.length_cons] at hlead hpos ⊢
              generalize hwhole : (((ds.length + 1 : Nat) : Int) + d.exponent - 1 + 1).toNat = whole
              obtain ⟨n, rfl⟩ : ∃ n, whole = n + 1 := ⟨whole - 1, by omega⟩
              have hlt : n < ds.length := by omega
              simp only [String.toList_append, String.toList_ofList, List.take_succ_cons,
                List.drop_succ_cons, List.append_assoc]
              exact isReal_between hc hds hlt
  next =>
      simp only [String.toList_append, String.toList_ofList, Nat.toList_repr, List.append_assoc]
      exact isReal_scientific hc hds _

/-! Values. -/

/-- A real number is written so that it is read as one, if at all. -/
theorem spells_real (x : Decimal.Binary64) :
    Spells (fun j => ∃ y, j = .number (.real y)) x.text.toList := by
  obtain ⟨_, ⟨i, f, e, hi, hf, he, hne, rfl⟩, htext⟩ := exists_text x
  have hreal (j : Json) (hj : ∃ n, n.WrittenWith f e ∧ j = .number n) :
      ∃ y, j = .number (.real y) := by
    obtain ⟨_, ⟨hf, he, -⟩ | ⟨y, rfl⟩, rfl⟩ := hj
    · exact absurd hne (by simp [hf, he])
    · exact ⟨y, rfl⟩
  rcases htext with htext | htext
  · exact htext ▸ (spells_digits hi hf he).imp hreal
  · exact htext ▸ (spells_negative hi hf he).imp hreal

/-- A value is recast by what is read from its text. -/
theorem spells_render {K : String → Prop} {layout : Layout} (hlayout : layout.Spaced) {j : Json}
    (hj : ∀ n ∈ j.numbers, n.Fits) (k : Nat) :
    Spells (fun j' => Recast K j' j) (j.render layout k).toList := by
  have hleaf {j : Json} {w : List Char} (hrecast : Recast K j j)
      (h : ∀ array object {u}, Stops u → valueWith array object (w ++ u) = .done j u) :
      Spells (fun j' => Recast K j' j) w := by
    refine (spells_of_value fun d u hu => value_of_valueWith fun _ _ => h _ _ hu).imp ?_
    rintro _ rfl
    exact hrecast
  induction j using induct generalizing k with
  | null =>
      rw [render, show "null".toList = ['n', 'u', 'l', 'l'] by decide]
      exact hleaf .null fun _ _ _ _ => rfl
  | bool b =>
      rw [render]
      cases b with
      | false =>
          rw [if_neg (by decide), show "false".toList = ['f', 'a', 'l', 's', 'e'] by decide]
          exact hleaf (.bool false) fun _ _ _ _ => rfl
      | true =>
          rw [if_pos rfl, show "true".toList = ['t', 'r', 'u', 'e'] by decide]
          exact hleaf (.bool true) fun _ _ _ _ => rfl
  | number n =>
      rw [render]
      cases n with
      | whole n =>
          have hn : (Number.whole n).Integral := by
            obtain hn | ⟨_, hn⟩ := hj _ List.mem_cons_self
            · exact hn
            · cases hn
          exact hleaf (.whole n) fun _ _ _ hu => valueWith_number hn hu
      | real x =>
          refine (spells_real x).imp ?_
          rintro _ ⟨y, rfl⟩
          exact .real y x
  | text s =>
      rw [render]
      exact hleaf (.text s) fun _ _ _ _ => valueWith_text s
  | array items ih =>
      have hitems (j : Json) (hmem : j ∈ items) := nextSettled_items
        ((ih j hmem (fun n hn => hj n (mem_numbers_array.mpr ⟨j, hmem, hn⟩)) (k + 1)).blanks
          (hlayout.newline (k + 1)))
      rw [render, renderItems_eq_map, toList_enclose]
      refine (spells_array fun d => gatherSettled_between (R := Recast K) separates_moreItems
        (hlayout.newline k) (fun j hj => (hitems j hj d).1) fun j hj => (hitems j hj d).2).imp ?_
      rintro _ ⟨items', hrecast, rfl⟩
      exact .array hrecast
  | object entries ih =>
      obtain ⟨v, hcolon, hv⟩ := hlayout.colon
      have htext (e : String × Json) : (renderEntry layout (k + 1) e).toList =
          '"' :: (e.1.toList.flatMap escape ++
            '"' :: ([] ++ ':' :: (v ++ (e.2.render layout (k + 1)).toList))) := by
        rw [toList_renderEntry, toList_quote, hcolon]
        simp
      have hkey (e : String × Json) :
          Settled (fun _ => True) (· = e.1) Reader.text (e.1.toList.flatMap escape ++ ['"']) := by
        refine .reads rfl blanks_nil fun {u} _ => ?_
        rw [List.append_assoc]
        exact text_escape e.1 u
      have hspells (e : String × Json) (hmem : e ∈ entries) :=
        ih e hmem (fun n hn => hj n (mem_numbers_object.mpr ⟨e, hmem, hn⟩)) (k + 1)
      have hentries (e : String × Json) (hmem : e ∈ entries) (d : Nat) := nextSettled_entries (hkey e)
        blanks_nil ((hspells e hmem).blanks hv) d (hlayout.newline (k + 1))
      rw [render, renderEntries_eq_map, toList_enclose]
      simp only [htext]
      refine (spells_object fun d => gatherSettled_between (R := RecastEntry K) separates_moreEntries
        (hlayout.newline k) (fun e he => (hentries e he d).1) fun e he => (hentries e he d).2).imp ?_
      rintro _ ⟨entries', hrecast, rfl⟩
      exact recast_object hrecast

end Json

end Mediation
