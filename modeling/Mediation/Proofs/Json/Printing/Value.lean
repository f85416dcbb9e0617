import Mathlib.Data.List.DropRight
import Mediation.Proofs.Json.Printing.Leaf

/-! Values are read as they have been written, in any layout that puts only blanks around brackets,
commas and colons (`value_render`). Numbers have to be whole numbers of 64 bits; no others are
written so that nothing is lost. -/

namespace Mediation

namespace Json

open Reader

/-- Nothing but blanks. -/
def Blanks (w : List Char) : Prop := ∀ c ∈ w, isBlank c = true

theorem blanks_nil : Blanks [] := fun _ hc => nomatch hc

theorem blanks_space : Blanks [' '] := by
  intro c hc
  rw [List.mem_singleton.mp hc]
  rfl

/-- A layout that adds nothing but blanks to brackets, commas and colons. -/
structure Layout.Spaced (layout : Layout) : Prop where
  newline : ∀ depth, Blanks (layout.newline depth).toList
  colon : ∃ w, layout.colon.toList = ':' :: w ∧ Blanks w

theorem Layout.spaced_compact : Layout.compact.Spaced where
  newline _ := blanks_nil
  colon := ⟨[], rfl, blanks_nil⟩

theorem Layout.spaced_pretty : Layout.pretty.Spaced where
  newline depth c hc := by
    simp only [Layout.pretty, String.toList_append, String.toList_ofList, List.mem_append] at hc
    rcases hc with hc | hc
    · rw [List.mem_singleton.mp hc]
      rfl
    · rw [(List.mem_replicate.mp hc).2]
      rfl
  colon := ⟨[' '], rfl, blanks_space⟩

namespace Reader

variable {α β : Type}

/-! Blanks in front. -/

theorem peekToken_bind_congr {s t : List Char} (h : s.dropWhile isBlank = t.dropWhile isBlank)
    (eof : Cause) (f : Char → Reader β) :
    (peekToken eof >>= f) s = (peekToken eof >>= f) t := by
  have hpeek : peekToken eof s = peekToken eof t := by
    rw [peekToken, skipBlanks_bind_apply, skipBlanks_bind_apply, h]
  rw [bind_apply, bind_apply, hpeek]

theorem dropWhile_blanks {w : List Char} (hw : Blanks w) (s : List Char) :
    (w ++ s).dropWhile isBlank = s.dropWhile isBlank :=
  List.dropWhile_append_of_pos hw

theorem value_congr {s t : List Char} (h : s.dropWhile isBlank = t.dropWhile isBlank) (d : Nat) :
    value d s = value d t := by
  cases d <;> exact peekToken_bind_congr h _ _

theorem stops_append {w s : List Char} (hw : Blanks w) (hs : Stops s) : Stops (w ++ s) := by
  cases w with
  | nil => exact hs
  | cons c w =>
      intro d hd
      cases hd
      exact .inl (hw c List.mem_cons_self)

theorem stops_cons {c : Char} (hc : c = ',' ∨ c = ']' ∨ c = '\x7d') (s : List Char) :
    Stops (c :: s) := by
  intro d hd
  cases hd
  exact .inr hc

/-! Members, brackets and commas. -/

theorem moreItems_close {s tail : List Char} (h : s.dropWhile isBlank = ']' :: tail) (first : Bool) :
    moreItems first s = .done false (']' :: tail) := by
  rw [moreItems, peekToken_bind_of_dropWhile h]
  rfl

theorem moreEntries_close {s tail : List Char} (h : s.dropWhile isBlank = '\x7d' :: tail)
    (first : Bool) :
    moreEntries first s = .done false ('\x7d' :: tail) := by
  rw [moreEntries, peekToken_bind_of_dropWhile h]
  rfl

/-- A value starts, after blanks, with a character that closes no array. -/
theorem exists_dropWhile_of_value {d : Nat} {j : Json} {s rest : List Char}
    (h : value d s = .done j rest) :
    ∃ c tail, s.dropWhile isBlank = c :: tail ∧ c ≠ ']' := by
  have hclose {array object : Reader Json} (h : valueWith array object s = .done j rest) :
      ∃ c tail, s.dropWhile isBlank = c :: tail ∧ c ≠ ']' := by
    obtain ⟨c, _, htoken, h⟩ := bind_eq_done.mp h
    obtain ⟨tail, hdrop, rfl⟩ := peekToken_eq_done.mp htoken
    refine ⟨c, tail, hdrop, ?_⟩
    rintro rfl
    exact failNext_ne_done h
  cases d <;> exact hclose h

/-- What does not end the array starts its first item. -/
theorem moreItems_true {c : Char} {s tail : List Char} (h : s.dropWhile isBlank = c :: tail)
    (hc : c ≠ ']') :
    moreItems true s = .done true (c :: tail) := by
  rw [moreItems, peekToken_bind_of_dropWhile h]
  refine congrFun (?_ : _ = (pure true : Reader Bool)) _
  split
  next => exact absurd rfl hc
  next => rfl

/-- What does not end the array after a comma starts another item. -/
theorem moreItems_false {c : Char} {s tail : List Char} (h : s.dropWhile isBlank = c :: tail)
    (hc : c ≠ ']') :
    moreItems false (',' :: s) = .done true (c :: tail) := by
  show (peekToken .eofValue >>= _) s = _
  rw [peekToken_bind_of_dropWhile h]
  refine congrFun (?_ : _ = (pure true : Reader Bool)) _
  split
  next => exact absurd rfl hc
  next => rfl

/-- Where a value can be read, there is a first item. -/
theorem moreItems_true_of_value {d : Nat} {j : Json} {s rest : List Char}
    (h : value d s = .done j rest) :
    moreItems true s = .done true (s.dropWhile isBlank) := by
  obtain ⟨c, tail, hdrop, hc⟩ := exists_dropWhile_of_value h
  rw [moreItems_true hdrop hc, hdrop]

/-- Where a value can be read after a comma, there is another item. -/
theorem moreItems_false_of_value {d : Nat} {j : Json} {s rest : List Char}
    (h : value d s = .done j rest) :
    moreItems false (',' :: s) = .done true (s.dropWhile isBlank) := by
  obtain ⟨c, tail, hdrop, hc⟩ := exists_dropWhile_of_value h
  rw [moreItems_false hdrop hc, hdrop]

theorem moreEntries_true {s t : List Char} (h : s.dropWhile isBlank = '"' :: t) :
    moreEntries true s = .done true ('"' :: t) := by
  rw [moreEntries, peekToken_bind_of_dropWhile h]
  rfl

theorem moreEntries_false {s t : List Char} (h : s.dropWhile isBlank = '"' :: t) :
    moreEntries false (',' :: s) = .done true ('"' :: t) := by
  show (peekToken .eofValue >>= _) s = _
  rw [peekToken_bind_of_dropWhile h]
  rfl

theorem closeArray_bracket (s : List Char) : closeArray (']' :: s) = .done () s := rfl

theorem closeObject_brace (s : List Char) : closeObject ('\x7d' :: s) = .done () s := rfl

/-- What stands between the brackets of a container: its members with commas between them, and
blanks before each member and at the end. -/
def between (w w' : List Char) (write : α → List Char) : List α → List Char
  | [] => []
  | a :: as => w ++ write a ++ (as.flatMap fun a => ',' :: (w ++ write a)) ++ w'

theorem toList_enclose (layout : Layout) (depth : Nat) (opening closing : String)
    (f : α → String) (as : List α) :
    (layout.enclose depth opening closing (as.map f)).toList =
      opening.toList ++ between (layout.newline (depth + 1)).toList (layout.newline depth).toList
        (fun a => (f a).toList) as ++ closing.toList := by
  cases as with
  | nil => simp [Layout.enclose, between]
  | cons a as =>
      simp [Layout.enclose, between, String.toList_join, List.flatMap_map, Function.comp_def]

/-- Members that can be read where they stand are gathered from between the brackets. -/
theorem gather_between {more : Bool → Reader Bool} {member : Reader α} {write : α → List Char}
    {close : Char} {w w' : List Char} {as : List α} (hw' : Blanks w')
    (hbracket : close = ']' ∨ close = '\x7d')
    (hclose : ∀ {s tail}, s.dropWhile isBlank = close :: tail →
      ∀ first, more first s = .done false (close :: tail))
    (hfirst : ∀ a ∈ as, ∀ {rest}, Stops rest →
      ∃ s, more true (w ++ write a ++ rest) = .done true s ∧ member s = .done a rest)
    (hnext : ∀ a ∈ as, ∀ {rest}, Stops rest →
      ∃ s, more false (',' :: (w ++ write a ++ rest)) = .done true s ∧ member s = .done a rest)
    (rest : List Char) :
    Gather more member true (between w w' write as ++ close :: rest) as (close :: rest) := by
  have hblank : isBlank close = false := by rcases hbracket with rfl | rfl <;> rfl
  have hend : (w' ++ close :: rest).dropWhile isBlank = close :: rest := by
    rw [dropWhile_blanks hw', List.dropWhile_cons_of_neg (by simp [hblank])]
  have hstops (as : List α) :
      Stops ((as.flatMap fun a => ',' :: (w ++ write a)) ++ (w' ++ close :: rest)) := by
    cases as with
    | nil =>
        show Stops (w' ++ close :: rest)
        exact stops_append hw' (stops_cons (.inr hbracket) rest)
    | cons a as => exact stops_cons (.inl rfl) _
  have htail (as : List α) (hnext : ∀ a ∈ as, ∀ {rest}, Stops rest →
      ∃ s, more false (',' :: (w ++ write a ++ rest)) = .done true s ∧ member s = .done a rest) :
      Gather more member false ((as.flatMap fun a => ',' :: (w ++ write a)) ++ (w' ++ close :: rest))
        as (close :: rest) := by
    induction as with
    | nil => exact .nil (hclose hend false)
    | cons a as ih =>
        obtain ⟨s, hmore, hmember⟩ := hnext a List.mem_cons_self (hstops as)
        have has := ih fun a ha => hnext a (List.mem_cons_of_mem _ ha)
        rw [List.flatMap_cons, List.cons_append, List.cons_append, List.append_assoc (w ++ write a)]
        exact .cons hmore hmember has
  cases as with
  | nil =>
      exact .nil (hclose (List.dropWhile_cons_of_neg (by simp [hblank])) true)
  | cons a as =>
      obtain ⟨s, hmore, hmember⟩ := hfirst a List.mem_cons_self (hstops as)
      have has := htail as fun a ha => hnext a (List.mem_cons_of_mem _ ha)
      rw [between, List.append_assoc _ w', List.append_assoc (w ++ write a)]
      exact .cons hmore hmember has

end Reader

theorem renderItems_eq_map (layout : Layout) (depth : Nat) (items : List Json) :
    renderItems layout depth items = items.map (render layout depth) := by
  induction items with
  | nil => rfl
  | cons item rest ih => rw [renderItems, ih, List.map_cons]

theorem renderEntries_eq_map (layout : Layout) (depth : Nat) (entries : List (String × Json)) :
    renderEntries layout depth entries = entries.map (renderEntry layout depth) := by
  induction entries with
  | nil => rfl
  | cons entry rest ih => rw [renderEntries, ih, List.map_cons]

/-! Values. -/

section

variable {array object : Reader Json} {s : List Char}

theorem valueWith_text (k : String) :
    valueWith array object ((quote k).toList ++ s) = .done (.text k) s := by
  rw [toList_quote, List.cons_append, List.append_assoc]
  show (.text <$> Reader.text : Reader Json) _ = _
  exact map_of_done (text_escape k s) _

theorem dropWhile_of_isDigit {c : Char} (hc : c.isDigit = true) (s : List Char) :
    (c :: s).dropWhile isBlank = c :: s := by
  refine List.dropWhile_cons_of_neg fun h => ?_
  simp only [isBlank, Bool.or_eq_true, decide_eq_true_eq] at h
  rcases h with ((rfl | rfl) | rfl) | rfl <;> exact absurd hc (by decide)

theorem valueWith_digit {c : Char} (hc : c.isDigit = true) :
    valueWith array object (c :: s) = (.number <$> Reader.number false : Reader Json) (c :: s) := by
  have hdrop := dropWhile_of_isDigit hc s
  rw [valueWith, peekToken_bind_of_dropWhile hdrop]
  refine congrFun ?_ _
  split
  all_goals first
    | exact absurd hc (by decide)
    | exact if_pos hc

theorem valueWith_number {n : Number} (hn : n.Integral) (hs : Stops s) :
    valueWith array object (n.text.toList ++ s) = .done (.number n) s := by
  cases n with
  | real x =>
      obtain rfl : x = _ := hn
      have htext : (Number.real ⟨true, 0, Decimal.Binary64.minExponent⟩).text.toList =
          ['-', '0', '.', '0'] := by decide
      rw [htext]
      exact map_of_done (number_negativeZero hs) _
  | whole n =>
      obtain ⟨hlow, hhigh⟩ := hn
      rcases n with n | n
      · have htext : (Number.whole (.ofNat n)).text.toList = Nat.toDigits 10 n := Nat.toList_repr
        have hle : n ≤ maxWhole := Int.ofNat_le.mp hhigh
        obtain ⟨c, rest, hcons⟩ := List.exists_cons_of_ne_nil (Nat.toDigits_ne_nil (n := n) (b := 10))
        have hc : c.isDigit = true := isDigit_of_mem_toDigits (hcons ▸ List.mem_cons_self)
        rw [htext, hcons, List.cons_append, valueWith_digit hc, ← List.cons_append, ← hcons]
        exact map_of_done (number_toDigits hle hs) _
      · have htext : (Number.whole (.negSucc n)).text.toList = '-' :: Nat.toDigits 10 (n + 1) := by
          show ("-" ++ Nat.repr (n + 1)).toList = _
          rw [String.toList_append, Nat.toList_repr]
          rfl
        have hle : n + 1 ≤ maxNegative := by omega
        rw [htext]
        exact map_of_done (number_neg_toDigits (Nat.succ_pos n) hle hs) _

end

/-- A value that is no container is read at any depth. -/
theorem value_of_valueWith {d : Nat} {j : Json} {s rest : List Char}
    (h : ∀ array object, valueWith array object s = .done j rest) :
    value d s = .done j rest := by
  cases d <;> exact h _ _

theorem toList_renderEntry (layout : Layout) (k : Nat) (e : String × Json) :
    (renderEntry layout k e).toList =
      (quote e.1).toList ++ (layout.colon.toList ++ (e.2.render layout k).toList) := by
  obtain ⟨key, value⟩ := e
  rw [renderEntry, String.toList_append, String.toList_append, List.append_assoc]

theorem renderEntry_eq_cons (layout : Layout) (k : Nat) (e : String × Json) (rest : List Char) :
    ∃ t, (renderEntry layout k e).toList ++ rest = '"' :: t := by
  rw [toList_renderEntry, toList_quote]
  exact ⟨_, rfl⟩

/-- An entry is read as it has been written, if its value is. -/
theorem entry_render {layout : Layout} (hlayout : layout.Spaced) {d : Nat} (k : Nat)
    {e : String × Json} {s : List Char}
    (h : value d ((e.2.render layout k).toList ++ s) = .done e.2 s) :
    entry (value d) ((renderEntry layout k e).toList ++ s) = .done e s := by
  obtain ⟨w, hcolon, hw⟩ := hlayout.colon
  rw [toList_renderEntry, hcolon, List.append_assoc]
  refine entry_eq_done.mpr ⟨_, _, key_quote e.1 _, rfl, ?_⟩
  show value d (w ++ (e.2.render layout k).toList ++ s) = _
  rw [List.append_assoc, value_congr (dropWhile_blanks hw _), h]

section

variable {layout : Layout} {d k : Nat}

/-- An array is read as it has been written, if its items are. -/
theorem array_render (hlayout : layout.Spaced) {items : List Json}
    (hitems : ∀ j ∈ items, ∀ {s}, Stops s →
      value d ((j.render layout (k + 1)).toList ++ s) = .done j s) (s : List Char) :
    value (d + 1) (((array items).render layout k).toList ++ s) = .done (.array items) s := by
  have hread : ∀ j ∈ items, ∀ {rest}, Stops rest →
      value d ((layout.newline (k + 1)).toList ++ (j.render layout (k + 1)).toList ++ rest) =
        .done j rest := by
    intro j hj rest hrest
    rw [List.append_assoc, value_congr (dropWhile_blanks (hlayout.newline _) _)]
    exact hitems j hj hrest
  rw [render, renderItems_eq_map, toList_enclose, List.append_assoc, List.append_assoc]
  refine value_array_eq_done.mpr ⟨items, ']' :: s, ?_, closeArray_bracket s, rfl⟩
  refine gather_between (hlayout.newline k) (.inl rfl) moreItems_close ?_ ?_ s
  · intro j hj rest hrest
    have h := hread j hj hrest
    refine ⟨_, moreItems_true_of_value h, ?_⟩
    rw [value_congr (List.dropWhile_idempotent _ _), h]
  · intro j hj rest hrest
    have h := hread j hj hrest
    refine ⟨_, moreItems_false_of_value h, ?_⟩
    rw [value_congr (List.dropWhile_idempotent _ _), h]

theorem object_render (hlayout : layout.Spaced) {entries : List (String × Json)}
    (hentries : ∀ e ∈ entries, ∀ {s}, Stops s →
      value d ((e.2.render layout (k + 1)).toList ++ s) = .done e.2 s) (s : List Char) :
    value (d + 1) (((object entries).render layout k).toList ++ s) = .done (.object entries) s := by
  have hread : ∀ e ∈ entries, ∀ {rest}, Stops rest →
      entry (value d) ((renderEntry layout (k + 1) e).toList ++ rest) = .done e rest :=
    fun e he _ hrest => entry_render hlayout (k + 1) (hentries e he hrest)
  have hquote (e : String × Json) (rest : List Char) :
      ∃ t, ((layout.newline (k + 1)).toList ++ (renderEntry layout (k + 1) e).toList ++
          rest).dropWhile isBlank = '"' :: t ∧
        (renderEntry layout (k + 1) e).toList ++ rest = '"' :: t := by
    obtain ⟨t, ht⟩ := renderEntry_eq_cons layout (k + 1) e rest
    refine ⟨t, ?_, ht⟩
    rw [List.append_assoc, dropWhile_blanks (hlayout.newline _), ht]
    rfl
  rw [render, renderEntries_eq_map, toList_enclose, List.append_assoc, List.append_assoc]
  refine value_object_eq_done.mpr ⟨entries, '\x7d' :: s, ?_, closeObject_brace s, rfl⟩
  refine gather_between (hlayout.newline k) (.inr rfl) moreEntries_close ?_ ?_ s
  · intro e he rest hrest
    obtain ⟨t, hdrop, ht⟩ := hquote e rest
    exact ⟨_, moreEntries_true hdrop, ht ▸ hread e he hrest⟩
  · intro e he rest hrest
    obtain ⟨t, hdrop, ht⟩ := hquote e rest
    exact ⟨_, moreEntries_false hdrop, ht ▸ hread e he hrest⟩

/-- What is written for a value is read as that value, if the depth suffices and nothing is lost with
its numbers. -/
theorem value_render (hlayout : layout.Spaced) {j : Json} (hd : j.nesting ≤ d)
    (hj : ∀ n ∈ j.numbers, n.Integral) (k : Nat) {s : List Char} (hs : Stops s) :
    value d ((j.render layout k).toList ++ s) = .done j s := by
  induction j using induct generalizing d k s with
  | null =>
      rw [render, show "null".toList = ['n', 'u', 'l', 'l'] by decide]
      exact value_of_valueWith fun _ _ => rfl
  | bool b =>
      rw [render]
      cases b with
      | false =>
          rw [if_neg (by decide), show "false".toList = ['f', 'a', 'l', 's', 'e'] by decide]
          exact value_of_valueWith fun _ _ => rfl
      | true =>
          rw [if_pos rfl, show "true".toList = ['t', 'r', 'u', 'e'] by decide]
          exact value_of_valueWith fun _ _ => rfl
  | number n =>
      rw [render]
      exact value_of_valueWith fun _ _ => valueWith_number (hj n List.mem_cons_self) hs
  | text t =>
      rw [render]
      exact value_of_valueWith fun _ _ => valueWith_text t
  | array items ih =>
      obtain _ | d := d
      · exact nomatch hd
      refine array_render hlayout (fun j hmem _ hs => ?_) s
      have hnumbers : ∀ n ∈ j.numbers, n.Integral := fun n hn =>
        hj n (mem_numbers_array.mpr ⟨j, hmem, hn⟩)
      exact ih j hmem (nesting_array_le_iff.mp hd j hmem) hnumbers (k + 1) hs
  | object entries ih =>
      obtain _ | d := d
      · exact nomatch hd
      refine object_render hlayout (fun e hmem _ hs => ?_) s
      have hnumbers : ∀ n ∈ e.2.numbers, n.Integral := fun n hn =>
        hj n (mem_numbers_object.mpr ⟨e, hmem, hn⟩)
      exact ih e hmem (nesting_object_le_iff.mp hd e hmem) hnumbers (k + 1) hs

end

theorem stops_nil : Stops [] := fun _ hd => nomatch hd

/-- The text of a value that does not nest too deep is read as that value. -/
theorem ofText_render {layout : Layout} (hlayout : layout.Spaced) {j : Json}
    (hd : j.nesting ≤ nestingLimit) (hj : ∀ n ∈ j.numbers, n.Integral) :
    ofText (j.render layout 0) = .ok j := by
  have h := value_render hlayout hd hj 0 stops_nil
  rw [List.append_nil] at h
  exact run_eq_ok.mpr ⟨[], h, rfl⟩

/-- What is kept of the value can be written and read as well. -/
theorem ofText_render_condense {keep : List (String × Json) → List (String × Json)}
    (hkeep : KeepsLast keep) {layout : Layout} (hlayout : layout.Spaced) {j : Json}
    (hd : j.nesting ≤ nestingLimit) (hj : ∀ n ∈ j.numbers, n.Integral) :
    ofText ((j.condense keep).render layout 0) = .ok (j.condense keep) :=
  ofText_render hlayout (nesting_condense_le hkeep hd) fun n hn =>
    hj n (mem_numbers_of_mem_condense hkeep hn)

end Json

end Mediation
