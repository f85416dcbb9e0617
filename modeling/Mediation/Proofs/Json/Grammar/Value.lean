import Mediation.Proofs.Json.Grammar.Leaf

/-! Values by their grammar. What a container is read as is settled by its text if what its members
are read as is settled by theirs (`spells_array`, `spells_object`), so every text of the grammar
settles what it is read as (`spells_of_isValue`). -/

namespace Mediation

namespace Json

namespace Reader

variable {α β : Type} {more : Bool → Reader Bool} {member : Reader α} {first : Bool}
  {P : α → Prop} {t : List Char}

/-! Members. -/

/-- There is another member, and its text settles it. -/
def NextSettled (more : Bool → Reader Bool) (member : Reader α) (first : Bool) (P : α → Prop)
    (t : List Char) : Prop :=
  ∃ t', (∀ {u}, Stops u → more first (t ++ u) = .done true (t' ++ u)) ∧ Settled Stops P member t'

/-- The text up to the closing bracket settles what members are gathered. -/
inductive GatherSettled (more : Bool → Reader Bool) (member : Reader α) (first : Bool)
    (P : List α → Prop) (close : Char) (t : List Char) : Prop
  | reads {as : List α} (has : P as) (h : ∀ {blanks u}, Blanks blanks →
      Gather more member first (blanks ++ (t ++ close :: u)) as (close :: u))
  | fails (h : ∀ {blanks u}, Blanks blanks → ∀ as rest,
      ¬Gather more member first (blanks ++ (t ++ close :: u)) as rest)

theorem GatherSettled.imp {P Q : List α → Prop} {close : Char}
    (h : GatherSettled more member first P close t) (hPQ : ∀ as, P as → Q as) :
    GatherSettled more member first Q close t := by
  cases h with
  | reads has h => exact .reads (hPQ _ has) h
  | fails h => exact .fails h

theorem gather_iff_of_more {s s₁ rest : List Char} (h : more first s = .done true s₁) {as : List α} :
    Gather more member first s as rest ↔
      ∃ a s₂ as', member s₁ = .done a s₂ ∧ Gather more member false s₂ as' rest ∧ as = a :: as' := by
  constructor
  · intro hgather
    cases hgather with
    | nil hnone => cases h.symm.trans hnone
    | cons hmore hmember has =>
        cases h.symm.trans hmore
        exact ⟨_, _, _, hmember, has, rfl⟩
  · rintro ⟨a, s₂, as', hmember, has, rfl⟩
    exact .cons h hmember has

/-- What tells members and brackets apart. -/
structure Separates (more : Bool → Reader Bool) (close : Char) : Prop where
  bracket : close = ']' ∨ close = '\x7d'
  blanks : ∀ {w}, Blanks w → ∀ first s, more first (w ++ s) = more first s
  close : ∀ first s, more first (close :: s) = .done false (close :: s)

theorem separates_moreItems : Separates moreItems ']' where
  bracket := .inl rfl
  blanks hw _ s := peekToken_bind_congr (dropWhile_blanks hw s) _ _
  close first _ := moreItems_close rfl first

theorem separates_moreEntries : Separates moreEntries '\x7d' where
  bracket := .inr rfl
  blanks hw _ s := peekToken_bind_congr (dropWhile_blanks hw s) _ _
  close first _ := moreEntries_close rfl first

section

variable {close : Char} {R : α → β → Prop} {b : β} {bs : List β}

theorem gatherSettled_nil (hmore : Separates more close) (ht : Blanks t) :
    GatherSettled more member first (· = []) close t :=
  .reads rfl fun hblanks => .nil (by rw [hmore.blanks hblanks, hmore.blanks ht, hmore.close])

/-- One more member in front. -/
theorem GatherSettled.cons (hmore : Separates more close)
    (hnext : NextSettled more member first (R · b) t) {tail : List Char}
    (hstops : ∀ u, Stops (tail ++ close :: u))
    (htail : GatherSettled more member false (List.Forall₂ R · bs) close tail) :
    GatherSettled more member first (List.Forall₂ R · (b :: bs)) close (t ++ tail) := by
  obtain ⟨t', ht', hsettled⟩ := hnext
  have htrue {blanks u : List Char} (hblanks : Blanks blanks) :
      more first (blanks ++ (t ++ tail ++ close :: u)) = .done true (t' ++ (tail ++ close :: u)) := by
    rw [hmore.blanks hblanks, List.append_assoc]
    exact ht' (hstops u)
  cases hsettled with
  | fails hfail =>
      refine .fails fun {blanks u} hblanks as rest hgather => ?_
      obtain ⟨a, s₂, _, ha, -⟩ := (gather_iff_of_more (htrue hblanks)).mp hgather
      exact hfail (hstops u) a s₂ ha
  | reads ha hleft hread =>
      cases htail with
      | reads has hgather =>
          refine .reads (.cons ha has) fun {blanks u} hblanks => ?_
          exact .cons (htrue hblanks) (hread (hstops u)) (hgather hleft)
      | fails hnone =>
          refine .fails fun {blanks u} hblanks as rest hgather => ?_
          obtain ⟨a', _, as', ha', has', -⟩ := (gather_iff_of_more (htrue hblanks)).mp hgather
          cases (hread (hstops u)).symm.trans ha'
          exact hnone hleft as' rest has'

/-- Members that are settled one by one are settled together. -/
theorem gatherSettled_between (hmore : Separates more close) {w w' : List Char} (hw' : Blanks w')
    {write : β → List Char}
    (hfirst : ∀ b ∈ bs, NextSettled more member true (R · b) (w ++ write b))
    (hnext : ∀ b ∈ bs, NextSettled more member false (R · b) (',' :: (w ++ write b))) :
    GatherSettled more member true (List.Forall₂ R · bs) close (between w w' write bs) := by
  have hstops (bs : List β) (u : List Char) :
      Stops ((bs.flatMap fun b => ',' :: (w ++ write b)) ++ w' ++ close :: u) := by
    rw [List.append_assoc]
    cases bs with
    | nil =>
        show Stops (w' ++ close :: u)
        exact stops_append hw' (stops_cons (.inr hmore.bracket) u)
    | cons b bs => exact stops_cons (.inl rfl) _
  have htail (bs : List β)
      (hnext : ∀ b ∈ bs, NextSettled more member false (R · b) (',' :: (w ++ write b))) :
      GatherSettled more member false (List.Forall₂ R · bs) close
        ((bs.flatMap fun b => ',' :: (w ++ write b)) ++ w') := by
    induction bs with
    | nil =>
        have hnil : GatherSettled more member false (· = []) close w' := gatherSettled_nil hmore hw'
        refine hnil.imp ?_
        rintro _ rfl
        exact .nil
    | cons b bs ih =>
        obtain ⟨hb, hbs⟩ := List.forall_mem_cons.mp hnext
        rw [List.flatMap_cons, List.append_assoc]
        exact .cons hmore hb (hstops bs) (ih hbs)
  cases bs with
  | nil => exact .reads .nil fun hblanks => .nil (by rw [hmore.blanks hblanks]; exact hmore.close _ _)
  | cons b bs =>
      obtain ⟨hb, -⟩ := List.forall_mem_cons.mp hfirst
      obtain ⟨-, hbs⟩ := List.forall_mem_cons.mp hnext
      rw [between, List.append_assoc]
      exact .cons hmore hb (hstops bs) (htail bs hbs)

end

/-! Values. -/

/-- The text does not look like the end of an array, and it settles the value read from it at any
depth. -/
structure Spells (P : Json → Prop) (w : List Char) : Prop where
  opens : ∃ c tail, w.dropWhile isBlank = c :: tail ∧ c ≠ ']'
  settled : ∀ d, Settled Stops P (value d) w

section

variable {P Q : Json → Prop} {w : List Char}

theorem Spells.imp (h : Spells P w) (hPQ : ∀ j, P j → Q j) : Spells Q w :=
  ⟨h.opens, fun d => (h.settled d).imp hPQ⟩

/-- Blanks around the text make no difference. -/
theorem Spells.pad (h : Spells P w) {before after : List Char} (hbefore : Blanks before)
    (hafter : Blanks after) :
    Spells P (before ++ (w ++ after)) where
  opens := by
    obtain ⟨c, tail, hdrop, hc⟩ := h.opens
    exact ⟨c, tail ++ after, by
      rw [dropWhile_blanks hbefore, dropWhile_append_of_eq_cons hdrop], hc⟩
  settled d := by
    have hread (u : List Char) :
        value d (before ++ (w ++ after) ++ u) = value d (w ++ (after ++ u)) := by
      rw [List.append_assoc, List.append_assoc, value_congr (dropWhile_blanks hbefore _)]
    cases h.settled d with
    | @reads j blanks hj hblanks h =>
        refine .reads (v := blanks ++ after) hj ?_ fun {u} hu => ?_
        · exact fun c hc => (List.mem_append.mp hc).elim (hblanks c) (hafter c)
        · rw [hread, List.append_assoc]
          exact h (stops_append hafter hu)
    | fails h =>
        refine .fails fun {u} hu => ?_
        rw [hread]
        exact h (stops_append hafter hu)

theorem Spells.blanks (h : Spells P w) {before : List Char} (hbefore : Blanks before) :
    Spells P (before ++ w) := by
  have hpad := h.pad hbefore blanks_nil
  rwa [List.append_nil] at hpad

/-- A text that is always read as one value. -/
theorem spells_of_value {j : Json}
    (h : ∀ d {u}, Stops u → value d (w ++ u) = .done j u) :
    Spells (· = j) w where
  opens := by
    have hread := h 0 stops_nil
    rw [List.append_nil] at hread
    exact exists_dropWhile_of_value hread
  settled d := .reads rfl blanks_nil (h d)

theorem settled_value_of_valueWith (h : ∀ array object, Settled Stops P (valueWith array object) w)
    (d : Nat) :
    Settled Stops P (value d) w := by
  cases d <;> exact h _ _

theorem spells_text {R : String → Prop} {body : List Char}
    (h : Settled (fun _ => True) R text (body ++ ['"'])) :
    Spells (fun j => ∃ s, R s ∧ j = .text s) ('"' :: (body ++ ['"'])) where
  opens := ⟨'"', _, rfl, by decide⟩
  settled := settled_value_of_valueWith fun _ _ =>
    ((h.anti fun _ _ => trivial).map fun s hs => ⟨s, hs, rfl⟩).congr fun _ => rfl

theorem spells_digits {i f x : List Char} (hi : IsInteger i) (hf : IsFraction f) (hx : IsExponent x) :
    Spells (fun j => ∃ n, n.WrittenWith f x ∧ j = .number n) (i ++ (f ++ x)) := by
  obtain ⟨c, ds, rfl, hc⟩ : ∃ c ds, i = c :: ds ∧ c.isDigit = true := by
    cases hi with
    | zero => exact ⟨_, _, rfl, rfl⟩
    | positive _ hds => exact ⟨_, _, rfl, hds _ List.mem_cons_self⟩
  have hsettled := settled_number hi hf hx false
  refine ⟨⟨c, ds ++ (f ++ x), ?_, ?_⟩, settled_value_of_valueWith fun _ _ => ?_⟩
  · exact dropWhile_of_isDigit hc _
  · rintro rfl
    exact absurd hc (by decide)
  · exact (hsettled.map fun n hn => ⟨n, hn, rfl⟩).congr fun _ => valueWith_digit hc

theorem spells_negative {i f x : List Char} (hi : IsInteger i) (hf : IsFraction f)
    (hx : IsExponent x) :
    Spells (fun j => ∃ n, n.WrittenWith f x ∧ j = .number n) ('-' :: (i ++ (f ++ x))) where
  opens := ⟨'-', _, rfl, by decide⟩
  settled := settled_value_of_valueWith fun _ _ =>
    ((settled_number hi hf hx true).map fun n hn => ⟨n, hn, rfl⟩).congr fun _ => rfl

theorem spells_array {R : List Json → Prop} {t : List Char}
    (h : ∀ d, GatherSettled moreItems (value d) true R ']' t) :
    Spells (fun j => ∃ items, R items ∧ j = .array items) ('[' :: (t ++ [']'])) where
  opens := ⟨'[', _, rfl, by decide⟩
  settled d := by
    have happend (u : List Char) : '[' :: (t ++ [']']) ++ u = '[' :: (t ++ ']' :: u) := by simp
    cases d with
    | zero => exact .fails fun _ _ _ => failNext_ne_done
    | succ d =>
        cases h d with
        | reads hitems hgather =>
            refine .reads ⟨_, hitems, rfl⟩ blanks_nil fun {u} _ => ?_
            rw [happend]
            exact value_array_eq_done.mpr ⟨_, _, hgather blanks_nil, closeArray_bracket u, rfl⟩
        | fails hnone =>
            refine .fails fun {u} _ j rest hj => ?_
            rw [happend] at hj
            obtain ⟨items, s', hgather, -⟩ := value_array_eq_done.mp hj
            exact hnone blanks_nil items s' hgather

theorem spells_object {R : List (String × Json) → Prop} {t : List Char}
    (h : ∀ d, GatherSettled moreEntries (entry (value d)) true R '\x7d' t) :
    Spells (fun j => ∃ entries, R entries ∧ j = .object entries) ('\x7b' :: (t ++ ['\x7d'])) where
  opens := ⟨'\x7b', _, rfl, by decide⟩
  settled d := by
    have happend (u : List Char) : '\x7b' :: (t ++ ['\x7d']) ++ u = '\x7b' :: (t ++ '\x7d' :: u) := by
      simp
    cases d with
    | zero => exact .fails fun _ _ _ => failNext_ne_done
    | succ d =>
        cases h d with
        | reads hentries hgather =>
            refine .reads ⟨_, hentries, rfl⟩ blanks_nil fun {u} _ => ?_
            rw [happend]
            exact value_object_eq_done.mpr ⟨_, _, hgather blanks_nil, closeObject_brace u, rfl⟩
        | fails hnone =>
            refine .fails fun {u} _ j rest hj => ?_
            rw [happend] at hj
            obtain ⟨entries, s', hgather, -⟩ := value_object_eq_done.mp hj
            exact hnone blanks_nil entries s' hgather

/-! Items and entries. -/

theorem nextSettled_items (h : Spells P w) (d : Nat) :
    NextSettled moreItems (value d) true P w ∧
      NextSettled moreItems (value d) false P (',' :: w) := by
  obtain ⟨c, tail, hdrop, hc⟩ := h.opens
  have hdrop' (u : List Char) : (w ++ u).dropWhile isBlank = c :: tail ++ u :=
    dropWhile_append_of_eq_cons hdrop u
  have hsettled : Settled Stops P (value d) (c :: tail) := by
    refine (h.settled d).congr fun u => value_congr ?_ d
    rw [← hdrop' u, List.dropWhile_idempotent]
  exact ⟨⟨c :: tail, fun _ => moreItems_true (hdrop' _) hc, hsettled⟩,
    ⟨c :: tail, fun _ => moreItems_false (hdrop' _) hc, hsettled⟩⟩

theorem colon_blanks {b : List Char} (hb : Blanks b) (s : List Char) :
    colon (b ++ ':' :: s) = .done () s :=
  peekToken_bind_congr (dropWhile_blanks hb _) _ _

section

variable {R : String → Prop} {body b v : List Char}

theorem settled_entry (hkey : Settled (fun _ => True) R text (body ++ ['"'])) (hb : Blanks b)
    (hv : Spells P v) (d : Nat) :
    Settled Stops (fun e => R e.1 ∧ P e.2) (entry (value d))
      ('"' :: (body ++ '"' :: (b ++ ':' :: v))) := by
  have happend (u : List Char) : '"' :: (body ++ '"' :: (b ++ ':' :: v)) ++ u =
      '"' :: (body ++ ['"'] ++ (b ++ ':' :: (v ++ u))) := by simp
  cases hkey with
  | fails h =>
      refine .fails fun {u} _ e rest he => ?_
      rw [happend] at he
      obtain ⟨s₁, _, hkey, -⟩ := entry_eq_done.mp he
      exact h trivial e.1 s₁ hkey
  | @reads k blanks hk hblanks hread =>
      have hkey (u : List Char) : key ('"' :: (body ++ ['"'] ++ (b ++ ':' :: (v ++ u)))) =
          .done k (blanks ++ b ++ ':' :: (v ++ u)) := by
        rw [List.append_assoc blanks]
        exact hread trivial
      have hcolon (u : List Char) :
          colon (blanks ++ b ++ ':' :: (v ++ u)) = .done () (v ++ u) :=
        colon_blanks (fun c hc => (List.mem_append.mp hc).elim (hblanks c) (hb c)) _
      cases hv.settled d with
      | @reads j blanks' hj hblanks' hvalue =>
          refine .reads (a := (k, j)) ⟨hk, hj⟩ hblanks' fun {u} hu => ?_
          rw [happend]
          exact entry_eq_done.mpr ⟨_, _, hkey u, hcolon u, hvalue hu⟩
      | fails hvalue =>
          refine .fails fun {u} hu e rest he => ?_
          rw [happend] at he
          obtain ⟨s₁, s₂, hkey', hcolon', hvalue'⟩ := entry_eq_done.mp he
          cases (hkey u).symm.trans hkey'
          cases (hcolon u).symm.trans hcolon'
          exact hvalue hu e.2 rest hvalue'

theorem nextSettled_entries (hkey : Settled (fun _ => True) R text (body ++ ['"'])) (hb : Blanks b)
    (hv : Spells P v) (d : Nat) {before : List Char} (hbefore : Blanks before) :
    NextSettled moreEntries (entry (value d)) true (fun e => R e.1 ∧ P e.2)
        (before ++ '"' :: (body ++ '"' :: (b ++ ':' :: v))) ∧
      NextSettled moreEntries (entry (value d)) false (fun e => R e.1 ∧ P e.2)
        (',' :: (before ++ '"' :: (body ++ '"' :: (b ++ ':' :: v)))) := by
  have hdrop (u : List Char) : (before ++ '"' :: (body ++ '"' :: (b ++ ':' :: v)) ++ u).dropWhile
      isBlank = '"' :: (body ++ '"' :: (b ++ ':' :: v) ++ u) := by
    rw [List.append_assoc, dropWhile_blanks hbefore]
    rfl
  have hsettled := settled_entry hkey hb hv d
  exact ⟨⟨_, fun {u} _ => moreEntries_true (hdrop u), hsettled⟩,
    ⟨'"' :: (body ++ '"' :: (b ++ ':' :: v)), fun {u} _ => moreEntries_false (hdrop u), hsettled⟩⟩

end

end

end Reader

open Reader

/-! The grammar. -/

/-- A text and the blanks around it. -/
structure Padded where
  before : List Char
  text : List Char
  after : List Char

namespace Padded

def chars (p : Padded) : List Char := p.before ++ (p.text ++ p.after)

/-- Nothing but blanks stands around the text. -/
structure Blank (p : Padded) : Prop where
  before : Blanks p.before
  after : Blanks p.after

end Padded

/-- What is written for an entry: a key in quotes and a value, with blanks around the key. -/
structure WrittenEntry where
  before : List Char
  body : List Char
  after : List Char
  value : Padded

namespace WrittenEntry

def chars (e : WrittenEntry) : List Char :=
  e.before ++ '"' :: (e.body ++ '"' :: (e.after ++ ':' :: e.value.chars))

/-- The key is a string, and all else around the value is blank. -/
structure Proper (e : WrittenEntry) : Prop where
  before : Blanks e.before
  body : IsBody e.body
  after : Blanks e.after
  value : e.value.Blank

end WrittenEntry

/-- The text of a value. The grammar says nothing about how deep containers nest, about how great
numbers are, about units of UTF-16 that make no character and about repeated keys. -/
inductive IsValue : List Char → Prop
  | null : IsValue ['n', 'u', 'l', 'l']
  | false : IsValue ['f', 'a', 'l', 's', 'e']
  | true : IsValue ['t', 'r', 'u', 'e']
  | number {i f x : List Char} (hi : IsInteger i) (hf : IsFraction f) (hx : IsExponent x) :
      IsValue (i ++ (f ++ x))
  | negative {i f x : List Char} (hi : IsInteger i) (hf : IsFraction f) (hx : IsExponent x) :
      IsValue ('-' :: (i ++ (f ++ x)))
  | text {w : List Char} (h : IsBody w) : IsValue ('"' :: (w ++ ['"']))
  | emptyArray {w : List Char} (hw : Blanks w) : IsValue ('[' :: (w ++ [']']))
  | array {items : List Padded} (hblank : ∀ p ∈ items, p.Blank) (h : ∀ p ∈ items, IsValue p.text) :
      IsValue ('[' :: (between [] [] Padded.chars items ++ [']']))
  | emptyObject {w : List Char} (hw : Blanks w) : IsValue ('\x7b' :: (w ++ ['\x7d']))
  | object {entries : List WrittenEntry} (hproper : ∀ e ∈ entries, e.Proper)
      (h : ∀ e ∈ entries, IsValue e.value.text) :
      IsValue ('\x7b' :: (between [] [] WrittenEntry.chars entries ++ ['\x7d']))

/-- The text is a value with blanks around it. -/
def IsText (source : String) : Prop :=
  ∃ p : Padded, p.Blank ∧ IsValue p.text ∧ source.toList = p.chars

/-- The number is real, or a whole number that is read as it is written. -/
def Number.Fits (n : Number) : Prop := n.Integral ∨ ∃ x, n = .real x

theorem forall_mem_of_forall₂ {α β : Type} {P : α → Prop} {as : List α} {bs : List β}
    (h : List.Forall₂ (fun a _ => P a) as bs) :
    ∀ a ∈ as, P a :=
  ((List.forall₂_and_left as bs).mp (h.imp fun _ _ ha => And.intro ha trivial)).1

/-- A text of the grammar settles the value that it is read as, and the whole numbers in it are all of
64 bits. -/
theorem spells_of_isValue {w : List Char} (h : IsValue w) :
    Spells (fun j => ∀ n ∈ j.numbers, n.Fits) w := by
  have hleaf {j : Json} (hj : j.numbers = []) : ∀ n ∈ j.numbers, n.Fits := by
    rw [hj]
    exact fun n hn => nomatch hn
  have hword {w : List Char} {j : Json} (hj : j.numbers = [])
      (h : ∀ array object {u}, Stops u → valueWith array object (w ++ u) = .done j u) :
      Spells (fun j => ∀ n ∈ j.numbers, n.Fits) w := by
    refine (spells_of_value fun d u hu => value_of_valueWith fun _ _ => h _ _ hu).imp ?_
    rintro _ rfl
    exact hleaf hj
  have hnumber {f x : List Char} (j : Json) (hj : ∃ n, n.WrittenWith f x ∧ j = .number n) :
      ∀ n ∈ j.numbers, n.Fits := by
    obtain ⟨n, hn, rfl⟩ := hj
    intro m hm
    rw [List.mem_singleton.mp hm]
    exact hn.imp_left (·.2.2)
  induction h with
  | null => exact hword rfl fun _ _ _ _ => rfl
  | false => exact hword rfl fun _ _ _ _ => rfl
  | true => exact hword rfl fun _ _ _ _ => rfl
  | number hi hf hx => exact (spells_digits hi hf hx).imp hnumber
  | negative hi hf hx => exact (spells_negative hi hf hx).imp hnumber
  | text h =>
      refine (spells_text (settled_text h)).imp ?_
      rintro _ ⟨s, -, rfl⟩
      exact hleaf rfl
  | emptyArray hw =>
      refine (spells_array fun d => gatherSettled_nil separates_moreItems hw).imp ?_
      rintro _ ⟨_, rfl, rfl⟩
      exact hleaf rfl
  | array hblank h ih =>
      have hitems := fun p hp => (ih p hp).pad (hblank p hp).before (hblank p hp).after
      refine (spells_array fun d => gatherSettled_between separates_moreItems blanks_nil
        (fun p hp => (nextSettled_items (hitems p hp) d).1)
        fun p hp => (nextSettled_items (hitems p hp) d).2).imp ?_
      rintro _ ⟨items, hfits, rfl⟩ n hn
      obtain ⟨j, hj, hn⟩ := mem_numbers_array.mp hn
      exact forall_mem_of_forall₂ hfits j hj n hn
  | emptyObject hw =>
      refine (spells_object fun d => gatherSettled_nil separates_moreEntries hw).imp ?_
      rintro _ ⟨_, rfl, rfl⟩
      exact hleaf rfl
  | object hproper h ih =>
      have hvalues := fun e he => (ih e he).pad (hproper e he).value.before (hproper e he).value.after
      have hentries := fun e he d => nextSettled_entries (settled_text (hproper e he).body)
        (hproper e he).after (hvalues e he) d (hproper e he).before
      refine (spells_object fun d => gatherSettled_between separates_moreEntries blanks_nil
        (fun e he => (hentries e he d).1) fun e he => (hentries e he d).2).imp ?_
      rintro _ ⟨entries, hfits, rfl⟩ n hn
      obtain ⟨e, he, hn⟩ := mem_numbers_object.mp hn
      exact (forall_mem_of_forall₂ hfits e he).2 n hn

/-- A text that settles a value is read as a value as told, if it is read. -/
theorem Reader.Spells.of_ofText {P : Json → Prop} {source : String} (h : Spells P source.toList)
    {j : Json} (hj : Json.ofText source = .ok j) :
    P j := by
  obtain ⟨rest, hread, -⟩ := run_eq_ok.mp hj
  have hsettled := h.settled nestingLimit
  cases hsettled with
  | reads ha _ h =>
      have hread' := h stops_nil
      rw [List.append_nil] at hread'
      cases hread'.symm.trans hread
      exact ha
  | fails h =>
      have hnone := h stops_nil
      rw [List.append_nil] at hnone
      exact absurd hread (hnone j rest)

theorem IsText.spells {source : String} (h : IsText source) :
    Spells (fun j => ∀ n ∈ j.numbers, n.Fits) source.toList := by
  obtain ⟨p, hblank, hvalue, hsource⟩ := h
  rw [hsource]
  exact (spells_of_isValue hvalue).pad hblank.before hblank.after

end Json

end Mediation
