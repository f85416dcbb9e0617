import Mediation.Proofs.Json.Printing.Value

/-! Strings and numbers by their grammar. A text settles what a reader makes of it if what follows the
text is of no account: either the reader comes to one and the same value, or it fails (`Settled`).
Strings settle what they are read as (`settled_text`), and so do numbers (`settled_number`): such a
text can still be refused, for half of a pair of UTF-16 units or for a number that is out of range,
but no part of what follows is ever read along with it. -/

namespace Mediation

namespace Json

namespace Reader

variable {α : Type}

/-- Whatever comes next, the reader makes the same of the text: a value as told, with at most blanks
of the text left, or none. -/
inductive Settled (next : List Char → Prop) (P : α → Prop) (r : Reader α) (w : List Char) : Prop
  | reads {a : α} {v : List Char} (ha : P a) (hv : Blanks v)
      (h : ∀ {u}, next u → r (w ++ u) = .done a (v ++ u))
  | fails (h : ∀ {u}, next u → ∀ a rest, r (w ++ u) ≠ .done a rest)

section

variable {β : Type} {next : List Char → Prop} {P : α → Prop} {Q : β → Prop} {r : Reader α}
  {f : α → Reader β} {w w' : List Char} {a : α}

theorem Settled.pure (ha : P a) : Settled next P (Pure.pure a : Reader α) [] :=
  .reads ha blanks_nil fun _ => rfl

theorem Settled.of_ne_done (h : ∀ s a rest, r s ≠ .done a rest) : Settled next P r w :=
  .fails fun _ => h _

theorem Settled.imp {P' : α → Prop} (h : Settled next P r w) (hP : ∀ a, P a → P' a) :
    Settled next P' r w := by
  cases h with
  | reads ha hblanks h => exact .reads (hP _ ha) hblanks h
  | fails h => exact .fails h

theorem Settled.anti {next' : List Char → Prop} (h : Settled next P r w)
    (hnext : ∀ u, next' u → next u) :
    Settled next' P r w := by
  cases h with
  | reads ha hblanks h => exact .reads ha hblanks fun hu => h (hnext _ hu)
  | fails h => exact .fails fun hu => h (hnext _ hu)

theorem Settled.congr {r' : Reader α} (h : Settled next P r' w')
    (hr : ∀ u, r (w ++ u) = r' (w' ++ u)) :
    Settled next P r w := by
  cases h with
  | reads ha hblanks h => exact .reads ha hblanks fun hu => (hr _).trans (h hu)
  | fails h => exact .fails fun hu a rest ha => h hu a rest ((hr _).symm.trans ha)

theorem Settled.ite {c : Prop} [Decidable c] {r' : Reader α}
    (h : c → Settled next P r w) (h' : ¬c → Settled next P r' w) :
    Settled next P (if c then r else r') w := by
  split
  next hc => exact h hc
  next hc => exact h' hc

theorem Settled.map (h : Settled next P r w) {g : α → β} (hg : ∀ a, P a → Q (g a)) :
    Settled next Q (g <$> r) w := by
  cases h with
  | reads ha hblanks h => exact .reads (hg _ ha) hblanks fun hu => map_of_done (h hu) g
  | fails h =>
      refine .fails fun hu b rest hb => ?_
      obtain ⟨a, ha, -⟩ := map_eq_done.mp hb
      exact h hu a rest ha

/-- What is read first is always the same, and the rest of the text settles what comes of it. -/
theorem Settled.bind_of_done (hr : ∀ {u}, next u → r (w ++ (w' ++ u)) = .done a (w' ++ u))
    (hf : Settled next Q (f a) w') :
    Settled next Q (r >>= f) (w ++ w') := by
  have hbind {u : List Char} (hu : next u) : (r >>= f) (w ++ w' ++ u) = f a (w' ++ u) := by
    rw [List.append_assoc, Reader.bind_of_done (hr hu)]
  cases hf with
  | reads hb hblanks h => exact .reads hb hblanks fun hu => (hbind hu).trans (h hu)
  | fails h => exact .fails fun hu b rest hb => h hu b rest ((hbind hu).symm.trans hb)

/-- The text settles what is read of it, and nothing that follows is read then. -/
theorem Settled.andThen (hr : Settled Stops P r w) (hf : ∀ a, P a → Settled Stops Q (f a) []) :
    Settled Stops Q (r >>= f) w := by
  cases hr with
  | @reads a blanks ha hblanks h =>
      cases hf a ha with
      | @reads b blanks' hb hblanks' h' =>
          refine .reads (v := blanks' ++ blanks) hb ?_ fun {u} hu => ?_
          · exact fun c hc => (List.mem_append.mp hc).elim (hblanks' c) (hblanks c)
          · rw [Reader.bind_of_done (h hu), List.append_assoc]
            exact h' (stops_append hblanks hu)
      | fails h' =>
          refine .fails fun {u} hu b rest hb => ?_
          rw [Reader.bind_of_done (h hu)] at hb
          exact h' (stops_append hblanks hu) b rest hb
  | fails h =>
      refine .fails fun hu b rest hb => ?_
      obtain ⟨a, s, ha, -⟩ := bind_eq_done.mp hb
      exact h hu a s ha

end

end Reader

open Reader

/-! Strings. -/

/-- What stands between the quotes of a string: characters that are no quotes, no backslashes and no
control characters, and escapes. -/
inductive IsBody : List Char → Prop
  | nil : IsBody []
  | plain {c : Char} {w : List Char} (hquote : c ≠ '"') (hbackslash : c ≠ '\\')
      (hcontrol : 32 ≤ c.toNat) (h : IsBody w) : IsBody (c :: w)
  | letter {c : Char} {w : List Char} (hc : c ∈ ['"', '\\', '/', 'b', 'f', 'n', 'r', 't'])
      (h : IsBody w) : IsBody ('\\' :: c :: w)
  | unit {a b c d : Char} {w : List Char} (hhex : ∀ x ∈ [a, b, c, d], (Text.hexValue? x).isSome)
      (h : IsBody w) : IsBody ('\\' :: 'u' :: a :: b :: c :: d :: w)

theorem isBody_of_plain {w : List Char} (h : w.all fun c => c ≠ '"' ∧ c ≠ '\\' ∧ 32 ≤ c.toNat) :
    IsBody w := by
  induction w with
  | nil => exact .nil
  | cons c w ih =>
      simp only [List.all_cons, Bool.and_eq_true, decide_eq_true_eq] at h
      obtain ⟨⟨hquote, hbackslash, hcontrol⟩, hw⟩ := h
      exact .plain hquote hbackslash hcontrol (ih hw)

namespace Reader

variable {s : List Char}

theorem exists_textChar?_letter {c : Char} (hc : c ∈ ['"', '\\', '/', 'b', 'f', 'n', 'r', 't']) :
    ∃ d, ∀ s, textChar? ('\\' :: c :: s) = .done (some d) s := by
  simp only [List.mem_cons, List.not_mem_nil, or_false] at hc
  rcases hc with rfl | rfl | rfl | rfl | rfl | rfl | rfl | rfl <;> exact ⟨_, fun _ => rfl⟩

theorem exists_hexUnit {a b c d : Char} (hhex : ∀ x ∈ [a, b, c, d], (Text.hexValue? x).isSome) :
    ∃ n, ∀ s, hexUnit (a :: b :: c :: d :: s) = .done n s := by
  simp only [List.forall_mem_cons, Option.isSome_iff_exists] at hhex
  obtain ⟨⟨va, ha⟩, ⟨vb, hb⟩, ⟨vc, hc⟩, ⟨vd, hd⟩, -⟩ := hhex
  exact ⟨_, fun s => hexUnit_eq_done.mpr ⟨a, b, c, d, va, vb, vc, vd, rfl, ha, hb, hc, hd, rfl⟩⟩

/-- The rest of a pair whose leading unit has been read. -/
def secondUnit (unit : Nat) : Reader Char := do
  pairMark '\\'
  pairMark 'u'
  let second ← hexUnit
  if isTrailing second then
    pure (Char.ofNat (0x10000 + (unit - 0xD800) * 0x400 + (second - 0xDC00)))
  else failHere .loneSurrogate

theorem pairMark_bind_of_ne {c expected : Char} (hc : c ≠ expected) (f : Unit → Reader α)
    (s : List Char) (a : α) (rest : List Char) :
    (pairMark expected >>= f) (c :: s) ≠ .done a rest := by
  intro h
  obtain ⟨_, _, hmark, -⟩ := bind_eq_done.mp h
  rw [pairMark, peek?_bind_apply, List.head?_cons] at hmark
  dsimp only at hmark
  rw [if_neg hc] at hmark
  exact failAfter_ne_done hmark

/-- On a body of a string the reader fails, or it takes a character and leaves a shorter body. -/
def Shortens (r : Reader Char) (w : List Char) : Prop :=
  (∀ u c rest, r (w ++ '"' :: u) ≠ .done c rest) ∨
    ∃ c w', IsBody w' ∧ w'.length < w.length ∧ ∀ u, r (w ++ '"' :: u) = .done c (w' ++ '"' :: u)

theorem shortens_secondUnit (unit : Nat) {w : List Char} (h : IsBody w) :
    Shortens (secondUnit unit) w := by
  cases h with
  | nil => exact .inl fun u => pairMark_bind_of_ne (by decide) _ u
  | plain hquote hbackslash => exact .inl fun u => pairMark_bind_of_ne hbackslash _ _
  | @letter c w hc =>
      have hne : c ≠ 'u' := by
        rintro rfl
        exact absurd hc (by decide)
      exact .inl fun u => pairMark_bind_of_ne hne _ _
  | @unit a b c d w hhex h =>
      obtain ⟨second, hsecond⟩ := exists_hexUnit hhex
      have hread (u : List Char) :
          secondUnit unit ('\\' :: 'u' :: a :: b :: c :: d :: w ++ '"' :: u) =
          (if isTrailing second then
            pure (Char.ofNat (0x10000 + (unit - 0xD800) * 0x400 + (second - 0xDC00)))
          else failHere .loneSurrogate : Reader Char) (w ++ '"' :: u) :=
        bind_of_done (hsecond _) _
      simp only [Shortens, hread]
      by_cases htrailing : isTrailing second
      · rw [if_pos htrailing]
        exact .inr ⟨_, w, h, by simp only [List.length_cons]; omega, fun u => rfl⟩
      · rw [if_neg htrailing]
        exact .inl fun u _ _ => failHere_ne_done

/-- The character spelled by the escape that a body starts with. -/
theorem shortens_unicodeEscape {a b c d : Char} {w : List Char}
    (hhex : ∀ x ∈ [a, b, c, d], (Text.hexValue? x).isSome) (h : IsBody w) :
    Shortens unicodeEscape (a :: b :: c :: d :: w) := by
  obtain ⟨unit, hunit⟩ := exists_hexUnit hhex
  have hread (u : List Char) : unicodeEscape (a :: b :: c :: d :: w ++ '"' :: u) =
      (if isTrailing unit then failHere .loneSurrogate
        else if isLeading unit then secondUnit unit
        else pure (Char.ofNat unit)) (w ++ '"' :: u) :=
    bind_of_done (hunit _) _
  have hlength : w.length < (a :: b :: c :: d :: w).length := by
    simp only [List.length_cons]
    omega
  simp only [Shortens, hread]
  by_cases htrailing : isTrailing unit
  · rw [if_pos htrailing]
    exact .inl fun u _ _ => failHere_ne_done
  rw [if_neg htrailing]
  by_cases hleading : isLeading unit
  · rw [if_pos hleading]
    rcases shortens_secondUnit unit h with hfail | ⟨pair, w', hw', hlt, hpair⟩
    · exact .inl hfail
    · exact .inr ⟨pair, w', hw', hlt.trans hlength, hpair⟩
  · rw [if_neg hleading]
    exact .inr ⟨_, w, h, hlength, fun u => rfl⟩

/-- One character of a string. -/
theorem textChar?_shortens {c : Char} {w : List Char} (h : IsBody (c :: w)) :
    (∀ u d? rest, textChar? (c :: w ++ '"' :: u) ≠ .done d? rest) ∨
      ∃ d w', IsBody w' ∧ w'.length < (c :: w).length ∧
        ∀ u, textChar? (c :: w ++ '"' :: u) = .done (some d) (w' ++ '"' :: u) := by
  cases h with
  | plain hquote hbackslash hcontrol h =>
      exact .inr ⟨c, w, h, Nat.lt_succ_self _, fun u => textChar?_plain hquote hbackslash hcontrol _⟩
  | @letter c w hc h =>
      obtain ⟨d, hd⟩ := exists_textChar?_letter hc
      exact .inr ⟨d, w, h, by simp only [List.length_cons]; omega, fun u => hd _⟩
  | @unit a b c d w hhex h =>
      have hread (u : List Char) : textChar? ('\\' :: 'u' :: a :: b :: c :: d :: w ++ '"' :: u) =
          (some <$> unicodeEscape) (a :: b :: c :: d :: w ++ '"' :: u) := rfl
      simp only [hread]
      rcases shortens_unicodeEscape hhex h with hfail | ⟨e, w', hw', hlt, he⟩
      · refine .inl fun u _ _ h => ?_
        obtain ⟨_, h, -⟩ := map_eq_done.mp h
        exact hfail u _ _ h
      · refine .inr ⟨e, w', hw', ?_, fun u => map_of_done (he u) _⟩
        simp only [List.length_cons] at hlt ⊢
        omega

/-- A body settles what the loop finds up to its closing quote. -/
theorem runs_nextChar {w : List Char} (h : IsBody w) (found : List Char) :
    (∃ last, ∀ u, Runs nextChar found (w ++ '"' :: u) last u) ∨
      ∀ u last rest, ¬Runs nextChar found (w ++ '"' :: u) last rest := by
  induction hn : w.length using Nat.strongRecOn generalizing w found with
  | ind n ih =>
      cases w with
      | nil => exact .inl ⟨found, fun u => .stop rfl⟩
      | cons c w =>
          rcases textChar?_shortens h with hfail | ⟨d, w', hw', hlt, hread⟩
          · refine .inr fun u last rest hruns => ?_
            cases hruns with
            | stop h => exact hfail u _ _ (nextChar_eq_done_none.mp h)
            | go h =>
                obtain ⟨_, h, -⟩ := nextChar_eq_done_some.mp h
                exact hfail u _ _ h
          rcases ih _ (hn ▸ hlt) hw' (d :: found) rfl with ⟨last, hruns⟩ | hnone
          · have hnext (u : List Char) : nextChar found (c :: w ++ '"' :: u) =
                .done (some (d :: found)) (w' ++ '"' :: u) :=
              nextChar_eq_done_some.mpr ⟨d, hread u, rfl⟩
            refine .inl ⟨last, fun u => .go (hnext u) ?_ (hruns u)⟩
            rw [List.length_append, List.length_append]
            omega
          · refine .inr fun u last rest hruns => ?_
            cases hruns with
            | stop h => cases (hread u).symm.trans (nextChar_eq_done_none.mp h)
            | go h _ hruns =>
                obtain ⟨e, he, rfl⟩ := nextChar_eq_done_some.mp h
                cases (hread u).symm.trans he
                exact hnone u last rest hruns

/-- A body with its closing quote settles the string that it is read as. -/
theorem settled_text {w : List Char} (h : IsBody w) :
    Settled (fun _ => True) (fun _ => True) text (w ++ ['"']) := by
  have happend (u : List Char) : w ++ ['"'] ++ u = w ++ '"' :: u := by simp
  rcases runs_nextChar h [] with ⟨last, hruns⟩ | hnone
  · refine .reads (a := String.ofList last.reverse) trivial blanks_nil fun {u} _ => ?_
    rw [happend]
    exact text_eq_done.mpr ⟨last, hruns u, rfl⟩
  · refine .fails fun {u} _ k rest h => ?_
    rw [happend] at h
    obtain ⟨last, hruns, -⟩ := text_eq_done.mp h
    exact hnone u last rest hruns

end Reader

/-! Numbers. -/

/-- What a number with such a fraction and such an exponent can be read as. -/
def Number.WrittenWith (fraction exponent : List Char) (n : Number) : Prop :=
  fraction = [] ∧ exponent = [] ∧ n.Integral ∨ ∃ y, n = .real y

namespace Reader

/-- An exponent is refused or read, whatever follows. -/
theorem settled_exponent? {w : List Char} (h : IsExponent w) (significand : Nat) :
    Settled Stops (fun e? => w ≠ [] → e?.isSome) (exponent? significand) w := by
  obtain ⟨found, hfound, hread⟩ := exists_exponentDigits? h .eofValue
  have hdigits : Settled Stops (found = ·) (exponentDigits? .eofValue) w :=
    .reads rfl blanks_nil hread
  refine hdigits.andThen ?_
  rintro _ rfl
  cases found with
  | none => exact .pure fun hw => absurd (hfound hw) (by simp)
  | some found =>
      obtain ⟨negative, ds⟩ := found
      dsimp only
      split
      next => exact .pure fun _ => rfl
      next =>
          exact .ite (fun _ => .of_ne_done fun _ _ _ => failBefore_ne_done) fun _ =>
            .pure fun _ => rfl

theorem noDigit_append {f x u : List Char} (hf : IsFraction f) (hx : IsExponent x)
    (hu : Stops u) :
    NoDigit (f ++ (x ++ u)) := by
  intro c hc
  cases hf with
  | none =>
      cases hx with
      | none => exact (hu.ne hc).1
      | some he =>
          cases hc
          rcases he with rfl | rfl <;> rfl
  | some =>
      cases hc
      rfl

theorem absorb_le {limit n : Nat} (h : n ≤ limit) (ds : List Nat) :
    (absorb limit n ds).1 ≤ limit := by
  induction ds generalizing n with
  | nil => exact h
  | cons d ds ih =>
      rw [absorb]
      split
      next hd => exact ih hd
      next => exact h

/-- The digits, the point and the exponent settle the number that they are read as: a whole number of
64 bits, if there is no point and no exponent, or some real number. -/
theorem settled_number {i f x : List Char} (hi : IsInteger i) (hf : IsFraction f) (hx : IsExponent x)
    (negative : Bool) :
    Settled Stops (Number.WrittenWith f x) (number negative) (i ++ (f ++ x)) := by
  have hpoint {u : List Char} (hu : Stops u) : ∀ c ∈ (x ++ u).head?, c ≠ '.' := by
    intro c hc
    cases hx with
    | none => exact (hu.ne hc).2.1
    | some he =>
        cases hc
        rcases he with rfl | rfl <;> decide
  have hinteger {u : List Char} (hu : Stops u) : integerDigits .eofValue (i ++ (f ++ x ++ u)) =
      .done (i.map (·.toNat - 48)) (f ++ x ++ u) := by
    rw [List.append_assoc]
    exact integerDigits_append hi (noDigit_append hf hx hu) _
  have hfraction {u : List Char} (hu : Stops u) :
      fractionDigits? .eofValue (f ++ (x ++ u)) = .done (fractionOf f) (x ++ u) :=
    fractionDigits?_append hf (noDigit_append .none hx hu) (hpoint hu) _
  have hreal (y : Decimal.Binary64) : Settled Stops (Number.WrittenWith f x) (pure (.real y)) [] :=
    .pure (.inr ⟨y, rfl⟩)
  have hrange : Settled Stops (Number.WrittenWith f x) (failHere .numberOutOfRange) [] :=
    .of_ne_done fun _ _ _ => failHere_ne_done
  refine .bind_of_done hinteger (.bind_of_done hfraction ((settled_exponent? hx _).andThen ?_))
  rintro (_ | e | _) he?
  · cases hf with
    | some =>
        dsimp only [fractionOf]
        split
        exacts [hreal _, hrange]
    | none =>
        have hnone : x = [] := by
          by_contra hne
          exact absurd (he? hne) (by decide)
        have hle := absorb_le (absorb_le (Nat.zero_le maxWhole) (i.map (·.toNat - 48))) []
        refine .ite (fun _ => ?_) fun _ => .ite (fun _ => .pure (.inl ⟨rfl, hnone, ?_⟩)) fun _ =>
          .ite (fun _ => ?_) fun hfits => .pure (.inl ⟨rfl, hnone, ?_⟩)
        · dsimp only
          split
          exacts [hreal _, hrange]
        · exact ⟨Int.le_trans (by decide) (Int.natCast_nonneg _), Int.ofNat_le.mpr hle⟩
        · dsimp only
          split
          exacts [hreal _, hrange]
        · rw [not_or, Nat.not_lt] at hfits
          exact ⟨Int.neg_le_neg (Int.ofNat_le.mpr hfits.2),
            Int.le_trans (Int.neg_nonpos_of_nonneg (Int.natCast_nonneg _)) (Int.natCast_nonneg _)⟩
  · dsimp only
    split
    exacts [hreal _, hrange]
  · exact hreal _

end Reader

end Json

end Mediation
