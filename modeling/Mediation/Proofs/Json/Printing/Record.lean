import Mediation.Json.Reader.Record
import Mediation.Proofs.Json.Printing.Value

/-! Records are read as they have been written. A record that is read straight from text is gathered
by a loop over its entries; if each entry names a field that has not been seen and its value can be
read, the loop goes on (`runs_field`), and it ends in the record once all fields that have to be there
have been seen (`reader_of_runs`). An array of records is gathered by a loop over its items in the
same way (`arrayOf_enclose`). -/

namespace Mediation

namespace Json

open Reader

namespace Reader

variable {α : Type} {s : List Char}

theorem moreEntries_congr {t : List Char} (h : s.dropWhile isBlank = t.dropWhile isBlank)
    (first : Bool) :
    moreEntries first s = moreEntries first t :=
  peekToken_bind_congr h _ _

theorem moreEntries_quote_true {w : List Char} (hw : Blanks w) (k : String) (t : List Char) :
    moreEntries true (w ++ ((quote k).toList ++ t)) = .done true ((quote k).toList ++ t) := by
  rw [toList_quote]
  refine moreEntries_true ?_
  rw [dropWhile_blanks hw]
  rfl

theorem moreEntries_quote_false {w w' : List Char} (hw : Blanks w) (hw' : Blanks w') (k : String)
    (t : List Char) :
    moreEntries false (w' ++ ',' :: (w ++ ((quote k).toList ++ t))) =
      .done true ((quote k).toList ++ t) := by
  rw [moreEntries_congr (dropWhile_blanks hw' _), toList_quote]
  refine moreEntries_false ?_
  rw [dropWhile_blanks hw]
  rfl

/-- A number that is judged as a whole, after blanks. -/
theorem typed_number {judge : Json → Except Mismatch α} {n : Number} (hn : n.Integral) {a : α}
    (ha : judge (.number n) = .ok a) {w : List Char} (hw : Blanks w) (hs : Stops s) :
    typed judge (w ++ (n.text.toList ++ s)) = .done a s := by
  refine typed_eq_done.mpr ⟨.number n, ?_, ha⟩
  rw [valueWith, peekToken_bind_congr (dropWhile_blanks hw _)]
  exact valueWith_number hn hs

/-! Arrays of records. -/

/-- Reads the next item, if there is one, and adds it to those that were found before. -/
def nextItem (item : Reader α) : Bool × List α → Reader (Option (Bool × List α)) :=
  nextMember moreItems fun found => (· :: found) <$> item

/-- An item that is read as it has been written is found, and the loop goes on behind it. -/
theorem runs_item {item : Reader α} {a : α} {found : List α} {first : Bool} {u t rest : List Char}
    {last : Bool × List α} (hne : u ≠ []) (hmore : moreItems first s = .done true (u ++ t))
    (hread : item (u ++ t) = .done a t)
    (hrest : Runs (nextItem item) (false, a :: found) t last rest) :
    Runs (nextItem item) (first, found) s last rest := by
  refine .go (nextMember_eq_done_some.mpr ⟨rfl, _, hmore, map_of_done hread _⟩) ?_ hrest
  have hle := (steady_moreItems first).length (begins_none _) hmore
  have hpos := List.length_pos_iff.mpr hne
  rw [List.length_append] at hle
  omega

/-- Records that are read as they have been written are read so from between the brackets. -/
theorem itemList_between {item : Reader α} {write : α → List Char} {w w' : List Char}
    (hw : Blanks w) (hw' : Blanks w') (hopen : ∀ a, ∃ t, write a = '\x7b' :: t)
    (hread : ∀ a s, item (write a ++ s) = .done a s) (as : List α) (s : List Char) :
    itemList true item (between w w' write as ++ ']' :: s) = .done as (']' :: s) := by
  have hend : (w' ++ ']' :: s).dropWhile isBlank = ']' :: s := by
    rw [dropWhile_blanks hw']
    rfl
  have hne (a : α) : write a ≠ [] := by
    obtain ⟨t, ht⟩ := hopen a
    exact ht ▸ List.cons_ne_nil _ _
  have hdrop (t : List Char) : (w ++ '\x7b' :: t).dropWhile isBlank = '\x7b' :: t := by
    rw [dropWhile_blanks hw]
    rfl
  have hfirst (a : α) (t : List Char) :
      moreItems true (w ++ (write a ++ t)) = .done true (write a ++ t) := by
    obtain ⟨u, hu⟩ := hopen a
    rw [hu]
    exact moreItems_true (hdrop (u ++ t)) (by decide)
  have hnext (a : α) (t : List Char) :
      moreItems false (',' :: (w ++ (write a ++ t))) = .done true (write a ++ t) := by
    obtain ⟨u, hu⟩ := hopen a
    rw [hu]
    exact moreItems_false (hdrop (u ++ t)) (by decide)
  have htail (as found : List α) : Runs (nextItem item) (false, found)
      ((as.flatMap fun a => ',' :: (w ++ write a)) ++ (w' ++ ']' :: s))
      (false, as.reverse ++ found) (']' :: s) := by
    induction as generalizing found with
    | nil => exact .stop (nextMember_eq_done_none.mpr (moreItems_close hend false))
    | cons a as ih =>
        rw [List.flatMap_cons, List.cons_append, List.cons_append, List.append_assoc,
          List.append_assoc, List.reverse_cons, List.append_assoc]
        exact runs_item (hne a) (hnext a _) (hread a _) (ih (a :: found))
  have hruns : ∃ first, Runs (nextItem item) (true, []) (between w w' write as ++ ']' :: s)
      (first, as.reverse) (']' :: s) := by
    cases as with
    | nil => exact ⟨true, .stop (nextMember_eq_done_none.mpr (moreItems_close rfl true))⟩
    | cons a as =>
        rw [between, List.append_assoc _ w', List.append_assoc (w ++ write a), List.append_assoc,
          List.reverse_cons]
        exact ⟨false, runs_item (hne a) (hfirst a _) (hread a _) (htail as [a])⟩
  obtain ⟨first, hruns⟩ := hruns
  show (members moreItems (fun found => (· :: found) <$> item) true [] >>=
    fun found => pure found.reverse) _ = _
  rw [bind_of_done hruns.members_eq, List.reverse_reverse]
  rfl

/-- An array of records is read as it has been written, if each record is. -/
theorem arrayOf_enclose {item : Nat → Reader α} {layout : Layout} (hlayout : layout.Spaced)
    {depth : Nat} {f : α → String} (hopen : ∀ a, ∃ t, (f a).toList = '\x7b' :: t)
    (hread : ∀ a s, item depth ((f a).toList ++ s) = .done a s) (k : Nat) {w : List Char}
    (hw : Blanks w) (as : List α) (s : List Char) :
    arrayOf item (depth + 1) (w ++ ((layout.enclose k "[" "]" (as.map f)).toList ++ s)) =
      .done as s := by
  have hdrop (t : List Char) : (w ++ '[' :: t).dropWhile isBlank = '[' :: t := by
    rw [dropWhile_blanks hw]
    rfl
  rw [toList_enclose, show "[".toList = ['['] from rfl, show "]".toList = [']'] from rfl,
    List.append_assoc, List.append_assoc, List.singleton_append, List.singleton_append, arrayOf,
    peekToken_bind_of_dropWhile (hdrop _)]
  have hinside := itemList_between (hlayout.newline (k + 1)) (hlayout.newline k) hopen hread as s
  exact inArray_eq_done.mpr ⟨_, hinside, closeArray_bracket s⟩

end Reader

namespace Shape

variable {σ : Type} {shape : OfText σ} {depth : Nat} {first : Bool} {s s' rest : List Char}

/-- Reads the value of the entry that has the key into the record. -/
def takeField (shape : OfText σ) (depth : Nat) (state : List String × σ) (key : String) :
    Reader (List String × σ) := do
  match ← judged (shape.accept state.1 key) with
  | some field => do
    colon
    return (key :: state.1, (← field.read depth) state.2)
  | none => do
    colon
    skipValue
    pure state

theorem takeField_of_accept {seen : List String} {record : σ} {k : String}
    {field : Field (Nat → Reader (σ → σ))} {f : σ → σ} {t : List Char}
    (haccept : shape.accept seen k = .ok (some field))
    (hread : field.read depth t = .done f rest) :
    shape.takeField depth (seen, record) k (':' :: t) = .done (k :: seen, f record) rest := by
  have hjudged : judged (shape.accept seen k) (':' :: t) = .done (some field) (':' :: t) :=
    judged_eq_done.mpr ⟨haccept, rfl⟩
  rw [takeField, bind_of_done hjudged]
  show (colon >>= _) (':' :: t) = _
  rw [bind_of_done (show colon (':' :: t) = .done () t from rfl), bind_of_done hread]
  rfl

theorem exists_read_of_takeField {seen : List String} {record : σ} {k : String}
    {field : Field (Nat → Reader (σ → σ))} {next : List String × σ} {t : List Char}
    (haccept : shape.accept seen k = .ok (some field))
    (h : shape.takeField depth (seen, record) k (':' :: t) = .done next rest) :
    ∃ f rest', field.read depth t = .done f rest' := by
  obtain ⟨_, _, hjudged, h⟩ := bind_eq_done.mp h
  obtain ⟨hfound, rfl⟩ := judged_eq_done.mp hjudged
  cases haccept.symm.trans hfound
  obtain ⟨_, _, hcolon, h⟩ := bind_eq_done.mp h
  cases (show colon (':' :: t) = .done () t from rfl).symm.trans hcolon
  obtain ⟨f, rest', hread, -⟩ := bind_eq_done.mp h
  exact ⟨f, rest', hread⟩

/-- Reads the next entry into the record, if there is one. -/
def nextField (shape : OfText σ) (depth : Nat) :
    Bool × List String × σ → Reader (Option (Bool × List String × σ)) :=
  nextMember moreEntries fun state => key >>= shape.takeField depth state

/-- An entry that names a field is read into the record, and the loop goes on behind it. -/
theorem runs_field {seen : List String} {record : σ} {k : String}
    {field : Field (Nat → Reader (σ → σ))} {f : σ → σ} {t : List Char} {last : Bool × List String × σ}
    (hmore : moreEntries first s = .done true ((quote k).toList ++ ':' :: t))
    (haccept : shape.accept seen k = .ok (some field))
    (hread : field.read depth t = .done f s') (hle : s'.length ≤ t.length)
    (hrest : Runs (shape.nextField depth) (false, k :: seen, f record) s' last rest) :
    Runs (shape.nextField depth) (first, seen, record) s last rest := by
  refine .go ?_ ?_ hrest
  · refine nextMember_eq_done_some.mpr ⟨rfl, _, hmore, ?_⟩
    exact bind_eq_done.mpr ⟨k, _, key_quote k _, takeField_of_accept haccept hread⟩
  · have hlen := (steady_moreEntries first).length (begins_none _) hmore
    rw [List.length_append, List.length_cons] at hlen
    omega

theorem runs_close {w : List Char} (hw : Blanks w) (state : List String × σ) (s : List Char) :
    Runs (shape.nextField depth) (first, state) (w ++ '\x7d' :: s) (first, state)
      ('\x7d' :: s) := by
  have hclose : (w ++ '\x7d' :: s).dropWhile isBlank = '\x7d' :: s := by
    rw [dropWhile_blanks hw]
    rfl
  exact .stop (nextMember_eq_done_none.mpr (moreEntries_close hclose first))

/-- The record is what its entries have made of the blank one. -/
theorem reader_of_runs {seen : List String} {record : σ}
    (hdrop : s.dropWhile isBlank = '\x7b' :: s')
    (hruns : Runs (shape.nextField depth) (true, [], shape.blank) s'
      (first, seen, record) ('\x7d' :: rest))
    (hcomplete : shape.complete seen = .ok ()) :
    shape.reader (depth + 1) s = .done record rest := by
  have hinside : shape.fromEntries depth s' = .done record ('\x7d' :: rest) := by
    show (entries ([], shape.blank) (shape.takeField depth) >>= fun x => do
      judged (shape.complete x.1)
      pure x.2) s' = _
    rw [entries_eq_members, bind_of_done hruns.members_eq,
      bind_of_done (judged_eq_done.mpr ⟨hcomplete, rfl⟩)]
    rfl
  rw [reader, peekToken_bind_of_dropWhile hdrop]
  exact inObject_eq_done.mpr ⟨_, hinside, closeObject_brace rest⟩

/-- A record is read only if the first of its entries is. -/
theorem exists_read_of_reader {record : σ} {k : String} {field : Field (Nat → Reader (σ → σ))}
    {t : List Char} (hdrop : s.dropWhile isBlank = '\x7b' :: s')
    (hmore : moreEntries true s' = .done true ((quote k).toList ++ ':' :: t))
    (haccept : shape.accept [] k = .ok (some field))
    (h : shape.reader (depth + 1) s = .done record rest) :
    ∃ f rest', field.read depth t = .done f rest' := by
  rw [reader, peekToken_bind_of_dropWhile hdrop] at h
  obtain ⟨_, hinside, -⟩ := inObject_eq_done.mp h
  obtain ⟨_, _, hentries, -⟩ := bind_eq_done.mp hinside
  rw [List.tail_cons] at hentries
  have hmembers : members moreEntries (fun state => key >>= shape.takeField depth state) true
      ([], shape.blank) s' = .done _ _ :=
    (congrFun (entries_eq_members _ _).symm s').trans hentries
  obtain ⟨_, _, hsteps, -⟩ := bind_eq_done.mp hmembers
  obtain ⟨next, s₁, hstep⟩ := exists_step_of_steps hsteps
  cases next with
  | none => cases hmore.symm.trans (nextMember_eq_done_none.mp hstep)
  | some next =>
      obtain ⟨-, s₂, hmore', hmember⟩ := nextMember_eq_done_some.mp hstep
      cases hmore.symm.trans hmore'
      obtain ⟨k', s₃, hkey, htake⟩ := bind_eq_done.mp hmember
      cases (key_quote k _).symm.trans hkey
      exact exists_read_of_takeField haccept htake

end Shape

end Json

end Mediation
