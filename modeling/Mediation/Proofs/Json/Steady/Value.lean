import Mediation.Proofs.Json.Steady.Basic

/-! The readers of JSON values are steady, from the digits of a number to a value of any kind. -/

namespace Mediation

namespace Json

namespace Reader

variable {α σ : Type} {start : Option Char} {k : Nat}

/-! Numbers. -/

theorem takeWhile_isDigit_append (s : List Char) {u : List Char} (hu : Stops u) :
    (s ++ u).takeWhile Char.isDigit = s.takeWhile Char.isDigit ∧
      (s ++ u).dropWhile Char.isDigit = s.dropWhile Char.isDigit ++ u := by
  induction s with
  | nil =>
      cases u with
      | nil => exact ⟨rfl, rfl⟩
      | cons c u =>
          have hc := (hu.ne (c := c) rfl).1
          exact ⟨List.takeWhile_cons_of_neg (by simp [hc]), List.dropWhile_cons_of_neg (by simp [hc])⟩
  | cons c s ih =>
      by_cases hc : c.isDigit
      · simp [hc, ih]
      · simp [hc]

theorem steady_digits : Steady start 0 digits where
  length _ h := by
    cases h
    exact length_le_of_dropWhile_eq rfl
  append {s _ _ _} _ h hu := by
    cases h
    obtain ⟨htake, hdrop⟩ := takeWhile_isDigit_append s hu
    rw [digits, htake, hdrop]

theorem steady_digits_of_isDigit {c : Char} (hc : c.isDigit) : Steady (some c) 1 digits where
  length {s _ _} hs h := by
    cases s with
    | nil => exact nomatch hs c rfl
    | cons d s =>
        cases hs c rfl
        cases h
        rw [List.dropWhile_cons_of_pos hc]
        exact Nat.succ_le_succ (length_le_of_dropWhile_eq rfl)
  append := steady_digits.append

theorem steady_failHere {cause : Cause} : Steady start k (failHere cause : Reader α) :=
  .of_ne_done fun _ _ _ => failHere_ne_done

theorem steady_failNext {cause : Cause} : Steady start k (failNext cause : Reader α) :=
  .of_ne_done fun _ _ _ => failNext_ne_done

theorem steady_failAfter {bytes : Nat} {cause : Cause} :
    Steady start k (failAfter bytes cause : Reader α) :=
  .of_ne_done fun _ _ _ => failAfter_ne_done

theorem steady_failBefore {bytes : Nat} {cause : Cause} :
    Steady start k (failBefore bytes cause : Reader α) :=
  .of_ne_done fun _ _ _ => failBefore_ne_done

theorem steady_integerDigits (eof : Cause) : Steady start 1 (integerDigits eof) := by
  refine .peek?_bind (fun c => ?_) fun _ _ => failHere_ne_done
  split
  next h => cases h
  next h =>
      refine steady_advance.bind fun _ => steady_digits.bind fun ds => ?_
      cases ds with
      | nil => exact .pure _
      | cons => exact steady_failBefore
  next c' _ h =>
      cases h
      split
      next hc => exact steady_digits_of_isDigit hc
      next => exact steady_failNext

theorem steady_fractionDigits? (eof : Cause) : Steady start 0 (fractionDigits? eof) := by
  refine .peek?_bind_pure (b := none) (fun c => ?_) rfl fun u hu => ?_
  · split
    next =>
        refine (steady_advance.bind fun _ => steady_digits.bind fun ds => ?_).taken_zero
        cases ds with
        | nil =>
            refine .peek?_bind (fun c => ?_) fun _ _ => failNext_ne_done
            exact steady_failNext
        | cons d ds => exact .peek?_bind_pure (fun c => .pure _) rfl fun u _ => by cases u <;> rfl
    next => exact .pure _
  · split
    next c h => exact absurd rfl (hu.ne h).2.1
    next => rfl

theorem steady_exponentSign : Steady start 0 exponentSign := by
  refine .peek?_bind_pure (b := false) (fun c => ?_) rfl fun u hu => ?_
  · split
    next => exact (steady_advance.bind fun _ => .pure _).taken_zero
    next => exact (steady_advance.bind fun _ => .pure _).taken_zero
    next => exact .pure _
  · split
    next h => exact absurd rfl (hu.ne h).2.2.2.2.2
    next h => exact absurd rfl (hu.ne h).2.2.2.2.1
    next => rfl

theorem steady_exponentDigits? (eof : Cause) : Steady start 0 (exponentDigits? eof) := by
  refine .peek?_bind_pure (b := none) (fun c => ?_) rfl fun u hu => ?_
  · split
    iterate 2
      next =>
          refine (steady_advance.bind fun _ => steady_exponentSign.bind fun _ => ?_).taken_zero
          refine .peek?_bind (fun d => ?_) fun _ _ => failHere_ne_done
          show Steady _ _ (if d.isDigit then _ else _)
          split
          next => exact steady_digits.bind fun _ => .pure _
          next => exact steady_failNext
    next => exact .pure _
  · split
    next h => exact absurd rfl (hu.ne h).2.2.1
    next h => exact absurd rfl (hu.ne h).2.2.2.1
    next => rfl

theorem steady_exponent? (significand : Nat) : Steady start 0 (exponent? significand) := by
  refine (steady_exponentDigits? _).bind fun found => ?_
  cases found with
  | none => exact .pure _
  | some found =>
      obtain ⟨negative, ds⟩ := found
      dsimp only
      split
      next => exact .pure _
      next =>
          split
          next => exact steady_failBefore
          next => exact .pure _

theorem steady_number (negative : Bool) : Steady start 1 (number negative) := by
  refine (steady_integerDigits _).bind fun ds => (steady_fractionDigits? _).bind fun fraction? => ?_
  refine (steady_exponent? _).bind fun exponent? => ?_
  -- whatever the number is, nothing more is read
  repeat' split
  all_goals try dsimp only
  repeat' split
  all_goals first
    | exact .pure _
    | exact steady_failHere

/-! Strings. -/

theorem hexUnit_eq_done {s rest : List Char} {n : Nat} :
    hexUnit s = .done n rest ↔ ∃ a b c d va vb vc vd, s = a :: b :: c :: d :: rest ∧
      Text.hexValue? a = some va ∧ Text.hexValue? b = some vb ∧ Text.hexValue? c = some vc ∧
      Text.hexValue? d = some vd ∧ n = ((va * 16 + vb) * 16 + vc) * 16 + vd := by
  unfold hexUnit
  constructor
  · intro h
    split at h
    next => cases h
    next =>
        split at h
        next a b c d _ _ =>
            split at h
            next va vb vc vd ha hb hc hd =>
                cases h
                exact ⟨a, b, c, d, va, vb, vc, vd, rfl, ha, hb, hc, hd, rfl⟩
            next => exact absurd h failAfter_ne_done
        next => exact absurd h failAfter_ne_done
  · rintro ⟨a, b, c, d, va, vb, vc, vd, rfl, ha, hb, hc, hd, rfl⟩
    have hsize : ¬Text.size ((a :: b :: c :: d :: rest).take 4) < 4 := by
      have ha := a.utf8Size_pos
      have hb := b.utf8Size_pos
      have hc := c.utf8Size_pos
      have hd := d.utf8Size_pos
      simp only [List.take_succ_cons, List.take_zero, Text.size, List.foldr_cons, List.foldr_nil]
      omega
    rw [if_neg hsize]
    simp only [ha, hb, hc, hd]

theorem steady_hexUnit : Steady start 0 hexUnit where
  length _ h := by
    obtain ⟨a, b, c, d, _, _, _, _, rfl, -⟩ := hexUnit_eq_done.mp h
    simp only [List.length_cons]
    omega
  append _ h _ := by
    obtain ⟨a, b, c, d, va, vb, vc, vd, rfl, hvalues⟩ := hexUnit_eq_done.mp h
    exact hexUnit_eq_done.mpr ⟨a, b, c, d, va, vb, vc, vd, rfl, hvalues⟩

theorem steady_pairMark (expected : Char) : Steady start 0 (pairMark expected) := by
  refine .peek?_bind (fun c => ?_) fun _ _ => failHere_ne_done
  show Steady _ _ (if c = expected then _ else _)
  split
  next => exact steady_advance.taken_zero
  next => exact steady_failAfter

theorem steady_unicodeEscape : Steady start 0 unicodeEscape := by
  refine steady_hexUnit.bind fun unit => ?_
  split
  next => exact steady_failHere
  next =>
      split
      next =>
          refine (steady_pairMark _).bind fun _ => (steady_pairMark _).bind fun _ => ?_
          refine steady_hexUnit.bind fun second => ?_
          split
          next => exact .pure _
          next => exact steady_failHere
      next => exact .pure _

theorem steady_escaped : Steady start 0 escaped := by
  refine .peek?_bind (fun c => ?_) fun _ _ => failHere_ne_done
  split
  next h => cases h
  next => exact (steady_advance.bind fun _ => steady_unicodeEscape).taken_zero
  next =>
      split
      next => exact (steady_advance.bind fun _ => .pure _).taken_zero
      next => exact steady_failAfter

theorem steady_textChar? : Steady start 1 textChar? := by
  refine .peek?_bind (fun c => ?_) fun _ _ => failHere_ne_done
  split
  next h => cases h
  next => exact steady_advance.bind fun _ => .pure _
  next => exact steady_advance.bind fun _ => steady_escaped.map _
  next =>
      split
      next => exact steady_failAfter
      next => exact steady_advance.bind fun _ => .pure _

theorem steady_text : Steady start 1 text := by
  have hstep (found : List Char) : Steady none 1 (do return (← textChar?).map (· :: found) :
      Reader (Option (List Char))) :=
    steady_textChar?.bind fun _ => .pure _
  refine .map (.bind (.steps hstep (fun {found _ _ _} h => ?_) _) fun _ => .pure _) _
  exact (hstep found).length (begins_none _) h

/-! Containers. -/

theorem steady_word (expected : List Char) : Steady start 0 (word expected) := by
  induction expected generalizing start with
  | nil => exact .pure _
  | cons c expected ih =>
      refine .peek?_bind (fun d => ?_) fun _ _ => failHere_ne_done
      show Steady _ _ (if d = c then _ else _)
      split
      next => exact (steady_advance.bind fun _ => ih).taken_zero
      next => exact steady_failNext

theorem steady_moreItems (first : Bool) : Steady start 0 (moreItems first) := by
  refine .peekToken_bind (fun c => ?_) _
  split
  next => exact .pure _
  next =>
      split
      next => exact .pure _
      next =>
          split
          next =>
              refine (steady_advance.bind fun _ => .peekToken_bind (fun d => ?_) _).taken_zero
              split
              next => exact steady_failNext
              next => exact .pure _
          next => exact steady_failNext

theorem steady_moreEntries (first : Bool) : Steady start 0 (moreEntries first) := by
  refine .peekToken_bind (fun c => ?_) _
  split
  next => exact .pure _
  next =>
      split
      next =>
          split
          next => exact .pure _
          next => exact steady_failNext
      next =>
          split
          next =>
              refine (steady_advance.bind fun _ => .peekToken_bind (fun d => ?_) _).taken_zero
              split
              next => exact .pure _
              next => exact steady_failNext
              next => exact steady_failNext
          next => exact steady_failNext

theorem steady_colon : Steady start 1 colon := by
  refine .peekToken_bind (fun c => ?_) _
  split
  next => exact steady_advance
  next => exact steady_failNext

theorem steady_closeArray : Steady start 1 closeArray := by
  refine .peekToken_bind (fun c => ?_) _
  split
  next => exact steady_advance
  next =>
      refine .of_ne_done fun s _ rest h => ?_
      simp only [bind_eq_done] at h
      obtain ⟨_, _, -, _, _, -, _, _, -, h⟩ := h
      split at h <;> exact failNext_ne_done h
  next => exact steady_failNext

theorem steady_closeObject : Steady start 1 closeObject := by
  refine .peekToken_bind (fun c => ?_) _
  split
  next => exact steady_advance
  next => exact steady_failNext
  next => exact steady_failNext

theorem Steady.inArray {inside : Reader α} (h : Steady none 0 inside) (c : Char) :
    Steady (some c) 1 (inArray inside) :=
  .placed (steady_advance.bind fun _ => (h.closedBy steady_closeArray).taken_zero)

theorem Steady.inObject {inside : Reader α} (h : Steady none 0 inside) (c : Char) :
    Steady (some c) 1 (inObject inside) :=
  .placed (steady_advance.bind fun _ => (h.closedBy steady_closeObject).taken_zero)

theorem steady_key : Steady (some '"') 1 key :=
  steady_advance.bind fun _ => steady_text.taken_zero

theorem moreEntries_eq_done_true {first : Bool} {s rest : List Char}
    (h : moreEntries first s = .done true rest) :
    Begins (some '"') rest := by
  obtain ⟨c, s', htoken, h⟩ := bind_eq_done.mp h
  obtain ⟨tail, -, rfl⟩ := peekToken_eq_done.mp htoken
  split at h
  next => exact nomatch (pure_eq_done.mp h).1
  next =>
      split at h
      next =>
          split at h
          next hc =>
              obtain ⟨-, rfl⟩ := pure_eq_done.mp h
              exact fun _ hd => hd ▸ hc ▸ rfl
          next => exact absurd h failNext_ne_done
      next =>
          split at h
          next =>
              rw [advance_bind_apply] at h
              obtain ⟨d, s'', htoken, h⟩ := bind_eq_done.mp h
              obtain ⟨tail', -, rfl⟩ := peekToken_eq_done.mp htoken
              split at h
              next =>
                  obtain ⟨-, rfl⟩ := pure_eq_done.mp h
                  exact fun _ hd => hd ▸ rfl
              next => exact absurd h failNext_ne_done
              next => exact absurd h failNext_ne_done
          next => exact absurd h failNext_ne_done

/-- A value is steady if the containers in it are. -/
theorem Steady.valueWith {array object : Reader Json} (harray : Steady (some '[') 1 array)
    (hobject : Steady (some '\x7b') 1 object) :
    Steady start 1 (valueWith array object) := by
  refine .peekToken_bind (fun c => ?_) _
  split
  next => exact steady_advance.bind fun _ => (steady_word _).bind fun _ => .pure _
  next => exact steady_advance.bind fun _ => (steady_word _).bind fun _ => .pure _
  next => exact steady_advance.bind fun _ => (steady_word _).bind fun _ => .pure _
  next => exact steady_advance.bind fun _ => (steady_text.taken_zero).map _
  next => exact steady_advance.bind fun _ => ((steady_number _).taken_zero).map _
  next => exact harray
  next => exact hobject
  next =>
      split
      next => exact (steady_number _).map _
      next => exact steady_failNext

theorem steady_itemList {item : Reader α} (hitem : Steady none 1 item) (first : Bool) :
    Steady start 0 (itemList first item) := by
  refine .bind ?_ fun _ => .pure _
  rw [items_eq_members]
  exact .members steady_moreItems (fun _ => begins_none _) (fun _ => hitem.bind fun _ => .pure _) _ _

theorem steady_entryList {value : Reader α} (hvalue : Steady none 1 value) :
    Steady start 0 (entryList value) := by
  refine .bind ?_ fun _ => .pure _
  rw [entries_eq_members]
  exact .members steady_moreEntries moreEntries_eq_done_true (fun _ => steady_key.bind fun _ =>
    steady_colon.taken_zero.bind fun _ => hvalue.taken_zero.bind fun _ => .pure _) _ _

/-- A value takes at least one character, and what follows it does not matter. -/
theorem steady_value (depth : Nat) : Steady start 1 (value depth) := by
  induction depth generalizing start with
  | zero => exact .valueWith steady_failNext steady_failNext
  | succ depth ih =>
      exact .valueWith (((steady_itemList ih true).map _).inArray _)
        (((steady_entryList ih).map _).inObject _)

end Reader

end Json

end Mediation
