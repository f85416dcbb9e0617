import Mediation.Json.Printer
import Mediation.Proofs.Json.Grammar.Number

/-! Strings and numbers are read as they have been written. A character is escaped so that it is read
back by itself (`textChar?_escape`); a whole number that fits 64 bits is read digit by digit, and no
digit is left over (`number_toDigits`). The only other number that has a place here is the zero with
a sign, which is what `-0` is read as (`number_negativeZero`). -/

namespace Mediation

namespace Json

/-- Whether the number is what a whole number in the range of 64 bits, signed or unsigned, is read
as. -/
def Number.Integral : Number → Prop
  | .whole n => -(Reader.maxNegative : Int) ≤ n ∧ n ≤ Reader.maxWhole
  | .real x => x = ⟨true, 0, Decimal.Binary64.minExponent⟩

instance : (n : Number) → Decidable n.Integral
  | .whole n =>
      inferInstanceAs (Decidable (-(Reader.maxNegative : Int) ≤ n ∧ n ≤ Reader.maxWhole))
  | .real x => inferInstanceAs (Decidable (x = ⟨true, 0, Decimal.Binary64.minExponent⟩))

namespace Reader

/-! Strings. -/

theorem hexValue?_hexDigit : ∀ n < 16, Text.hexValue? (Text.hexDigit n) = some n := by decide

/-- A control character without a letter of its own is spelled by its number. -/
theorem hexUnit_hexDigits {n : Nat} (hn : n < 32) (s : List Char) :
    hexUnit ('0' :: '0' :: Text.hexDigit (n / 16) :: Text.hexDigit (n % 16) :: s) = .done n s := by
  refine hexUnit_eq_done.mpr ⟨_, _, _, _, 0, 0, n / 16, n % 16, rfl, rfl, rfl, ?_, ?_, by omega⟩
  · exact hexValue?_hexDigit _ (by omega)
  · exact hexValue?_hexDigit _ (by omega)

theorem unicodeEscape_hexDigits {c : Char} (hc : c.toNat < 32) (s : List Char) :
    unicodeEscape ('0' :: '0' :: Text.hexDigit (c.toNat / 16) :: Text.hexDigit (c.toNat % 16) :: s) =
      .done c s := by
  rw [unicodeEscape, bind_of_done (hexUnit_hexDigits hc s)]
  rw [if_neg (by simp [isTrailing]; omega), if_neg (by simp [isLeading]; omega), Char.ofNat_toNat]
  rfl

theorem textChar?_plain {c : Char} (hquote : c ≠ '"') (hbackslash : c ≠ '\\')
    (hcontrol : 32 ≤ c.toNat) (s : List Char) :
    textChar? (c :: s) = .done (some c) s := by
  rw [textChar?, peek?_bind_apply, List.head?_cons]
  refine congrFun (?_ : _ = (do advance; pure (some c) : Reader (Option Char))) _
  split
  next h => cases h
  next h => exact absurd (Option.some.inj h) hquote
  next h => exact absurd (Option.some.inj h) hbackslash
  next d _ _ h =>
      cases h
      rw [if_neg (by omega)]

/-- What is written for a character within quotes is read as that character. -/
theorem textChar?_escape (c : Char) (s : List Char) :
    textChar? (escape c ++ s) = .done (some c) s := by
  unfold escape
  split
  next h => subst h; rfl
  next hquote =>
  split
  next h => subst h; rfl
  next hbackslash =>
  split
  next h => subst h; rfl
  split
  next h => subst h; rfl
  split
  next h => subst h; rfl
  split
  next h => subst h; rfl
  split
  next h => subst h; rfl
  split
  next hcontrol =>
      have hletter (s : List Char) : textChar? ('\\' :: 'u' :: s) = (some <$> unicodeEscape) s := rfl
      exact (hletter _).trans (map_of_done (unicodeEscape_hexDigits hcontrol s) some)
  next hplain => exact textChar?_plain hquote hbackslash (Nat.not_lt.mp hplain) s

theorem escape_ne_nil (c : Char) : escape c ≠ [] := by
  unfold escape
  repeat' split
  all_goals exact List.cons_ne_nil _ _

/-- One turn of the loop over the characters of a string. -/
def nextChar (found : List Char) : Reader (Option (List Char)) := do
  return (← textChar?).map (· :: found)

theorem nextChar_eq_done_some {found next s rest : List Char} :
    nextChar found s = .done (some next) rest ↔
      ∃ c, textChar? s = .done (some c) rest ∧ next = c :: found := by
  rw [nextChar, bind_eq_done]
  constructor
  · rintro ⟨_ | c, _, hc, h⟩
    · cases (pure_eq_done.mp h).1
    · obtain ⟨⟨⟩, rfl⟩ := pure_eq_done.mp h
      exact ⟨c, hc, rfl⟩
  · rintro ⟨c, hc, rfl⟩
    exact ⟨some c, rest, hc, rfl⟩

theorem nextChar_eq_done_none {found s rest : List Char} :
    nextChar found s = .done none rest ↔ textChar? s = .done none rest := by
  rw [nextChar, bind_eq_done]
  constructor
  · rintro ⟨_ | c, _, hc, h⟩
    · obtain ⟨-, rfl⟩ := pure_eq_done.mp h
      exact hc
    · cases (pure_eq_done.mp h).1
  · exact fun h => ⟨none, rest, h, rfl⟩

theorem text_eq_done {k : String} {s rest : List Char} :
    text s = .done k rest ↔
      ∃ last, Runs nextChar [] s last rest ∧ String.ofList last.reverse = k := by
  have hgo {found next s s' : List Char} (h : nextChar found s = .done (some next) s') :
      s'.length < s.length := by
    obtain ⟨c, hc, -⟩ := nextChar_eq_done_some.mp h
    have hlen := steady_textChar?.length (begins_none _) hc
    omega
  have hmany {cs : List Char} :
      many textChar? s = .done cs rest ↔
        ∃ last, Runs nextChar [] s last rest ∧ last.reverse = cs := by
    show (steps nextChar [] >>= fun found => pure found.reverse) s = _ ↔ _
    simp only [bind_eq_done, steps_eq_done hgo, pure_eq_done]
    constructor
    · rintro ⟨last, _, hruns, hlast, rfl⟩
      exact ⟨last, hruns, hlast⟩
    · rintro ⟨last, hruns, hlast⟩
      exact ⟨last, rest, hruns, hlast, rfl⟩
  rw [text, map_eq_done]
  simp only [hmany]
  constructor
  · rintro ⟨_, ⟨last, hruns, rfl⟩, hk⟩
    exact ⟨last, hruns, hk⟩
  · rintro ⟨last, hruns, hk⟩
    exact ⟨_, ⟨last, hruns, rfl⟩, hk⟩

/-- What is written for a string is read as that string. -/
theorem text_escape (k : String) (s : List Char) :
    text (k.toList.flatMap escape ++ '"' :: s) = .done k s := by
  have hruns (cs found : List Char) :
      Runs nextChar found (cs.flatMap escape ++ '"' :: s) (cs.reverse ++ found) s := by
    induction cs generalizing found with
    | nil => exact .stop rfl
    | cons c cs ih =>
        rw [List.flatMap_cons, List.append_assoc, List.reverse_cons, List.append_assoc]
        refine .go (nextChar_eq_done_some.mpr ⟨c, textChar?_escape c _, rfl⟩) ?_ (ih (c :: found))
        have hpos := List.length_pos_iff.mpr (escape_ne_nil c)
        generalize cs.flatMap escape ++ '"' :: s = t
        rw [List.length_append]
        omega
  refine text_eq_done.mpr ⟨_, hruns k.toList [], ?_⟩
  rw [List.append_nil, List.reverse_reverse, String.ofList_toList]

theorem toList_quote (k : String) : (quote k).toList = '"' :: (k.toList.flatMap escape ++ ['"']) := by
  simp [quote]

theorem key_quote (k : String) (s : List Char) : key ((quote k).toList ++ s) = .done k s := by
  rw [key, toList_quote, List.cons_append, advance_bind_apply, List.append_assoc]
  exact text_escape k s

/-! Numbers. -/

theorem absorb_of_foldl_le {limit : Nat} {ds : List Nat} {n : Nat}
    (h : ds.foldl (fun n d => 10 * n + d) n ≤ limit) :
    absorb limit n ds = (ds.foldl (fun n d => 10 * n + d) n, []) := by
  induction ds generalizing n with
  | nil => rfl
  | cons d ds ih =>
      have hmono (ds : List Nat) (m : Nat) : m ≤ ds.foldl (fun n d => 10 * n + d) m := by
        induction ds generalizing m with
        | nil => exact Nat.le_refl _
        | cons d ds ih => exact Nat.le_trans (by omega) (ih (10 * m + d))
      rw [List.foldl_cons] at h ⊢
      rw [absorb, if_pos (Nat.le_trans (hmono ds _) h), ih h]

/-- The digits of a number. -/
def digitsOf (n : Nat) : List Nat := (Nat.toDigits 10 n).map (·.toNat - 48)

theorem absorb_digitsOf {limit n : Nat} (h : n ≤ limit) : absorb limit 0 (digitsOf n) = (n, []) := by
  have hfold : (digitsOf n).foldl (fun n d => 10 * n + d) 0 = n := by
    rw [digitsOf, List.foldl_map]
    exact Nat.ofDigitChars_ten_toDigits
  rw [absorb_of_foldl_le (by rw [hfold]; exact h), hfold]

theorem isDigit_of_mem_toDigits {n : Nat} {c : Char} (hc : c ∈ Nat.toDigits 10 n) :
    c.isDigit = true :=
  Nat.isDigit_of_mem_toDigits (by decide) (by decide) hc

/-- No number but zero starts with a zero. -/
theorem head?_toDigits_ne_zero {n : Nat} (hn : 0 < n) : (Nat.toDigits 10 n).head? ≠ some '0' := by
  induction n using Nat.strongRecOn with
  | ind n ih =>
      by_cases hlt : n < 10
      · have hdigit : ∀ n < 10, 0 < n → n.digitChar ≠ '0' := by decide
        rw [Nat.toDigits_of_lt_base hlt]
        exact fun h => hdigit n hlt hn (Option.some.inj h)
      · rw [Nat.toDigits_of_base_le (by decide) (by omega), List.head?_append]
        have hne : Nat.toDigits 10 (n / 10) ≠ [] := Nat.toDigits_ne_nil
        obtain ⟨c, rest, hc⟩ := List.exists_cons_of_ne_nil hne
        have hhead := ih (n / 10) (by omega) (by omega)
        rw [hc] at hhead ⊢
        exact hhead

theorem exists_toDigits {n : Nat} (hn : n ≠ 0) :
    ∃ c ds, Nat.toDigits 10 n = c :: ds ∧ c ≠ '0' ∧ ∀ d ∈ c :: ds, d.isDigit = true := by
  obtain ⟨c, ds, hcons⟩ := List.exists_cons_of_ne_nil (Nat.toDigits_ne_nil (n := n) (b := 10))
  have hhead := head?_toDigits_ne_zero (Nat.pos_of_ne_zero hn)
  rw [hcons] at hhead
  exact ⟨c, ds, hcons, fun h => hhead (h ▸ rfl), fun d hd => isDigit_of_mem_toDigits (hcons ▸ hd)⟩

theorem isInteger_toDigits (n : Nat) : IsInteger (Nat.toDigits 10 n) := by
  by_cases hn : n = 0
  · subst hn
    rw [Nat.toDigits_zero]
    exact .zero
  · obtain ⟨c, ds, hcons, hc, hds⟩ := exists_toDigits hn
    exact hcons ▸ .positive hc hds

theorem integerDigits_toDigits (eof : Cause) (n : Nat) {s : List Char} (hs : Stops s) :
    integerDigits eof (Nat.toDigits 10 n ++ s) = .done (digitsOf n) s :=
  integerDigits_append (isInteger_toDigits n) (noDigit_of_stops hs) eof

theorem fractionDigits?_of_stops (eof : Cause) {s : List Char} (hs : Stops s) :
    fractionDigits? eof s = .done none s :=
  fractionDigits?_append .none (noDigit_of_stops hs) (fun _ hc => (hs.ne hc).2.1) eof

theorem exponent?_of_stops (significand : Nat) {s : List Char} (hs : Stops s) :
    exponent? significand s = .done none s := by
  rw [exponent?, bind_of_done (exponentDigits?_of_stops _ hs)]
  rfl

/-- A whole number of 64 bits is read from its digits. -/
theorem number_toDigits {n : Nat} (hn : n ≤ maxWhole) {s : List Char} (hs : Stops s) :
    number false (Nat.toDigits 10 n ++ s) = .done (.whole n) s := by
  rw [number, bind_of_done (integerDigits_toDigits _ n hs), absorb_digitsOf hn]
  dsimp only
  rw [bind_of_done (fractionDigits?_of_stops _ hs)]
  dsimp only [Option.getD_none, absorb]
  rw [bind_of_done (exponent?_of_stops n hs)]
  rfl

theorem number_neg_toDigits {n : Nat} (hpos : 0 < n) (hn : n ≤ maxNegative) {s : List Char}
    (hs : Stops s) :
    number true (Nat.toDigits 10 n ++ s) = .done (.whole (-(n : Int))) s := by
  have hmax : n ≤ maxWhole := Nat.le_trans hn (by decide)
  rw [number, bind_of_done (integerDigits_toDigits _ n hs), absorb_digitsOf hmax]
  dsimp only
  rw [bind_of_done (fractionDigits?_of_stops _ hs)]
  dsimp only [Option.getD_none, absorb]
  rw [bind_of_done (exponent?_of_stops n hs)]
  dsimp only
  rw [if_neg (by simp), if_neg (by simp)]
  exact congrFun (if_neg (show ¬(n = 0 ∨ maxNegative < n) by omega)) s

theorem ofDecimal?_zero :
    Decimal.Binary64.ofDecimal? true 0 (-1) = some ⟨true, 0, Decimal.Binary64.minExponent⟩ := by
  have hten : Decimal.Binary64.tenPower? 1 = some ⟨false, 5629499534213120, -49⟩ := by decide
  have hzero : Decimal.Binary64.ofRatio? 0 1 = some ⟨false, 0, Decimal.Binary64.minExponent⟩ := rfl
  have hshrink : Decimal.Binary64.shrink ⟨false, 0, Decimal.Binary64.minExponent⟩ 1 =
      some ⟨false, 0, Decimal.Binary64.minExponent⟩ := by
    rw [Decimal.Binary64.shrink, if_neg (by decide), hten]
    rfl
  rw [Decimal.Binary64.ofDecimal?, hzero, Option.bind_some]
  dsimp only
  rw [if_pos (by decide)]
  show Option.map _ (Decimal.Binary64.shrink ⟨false, 0, Decimal.Binary64.minExponent⟩ 1) = _
  rw [hshrink]
  rfl

/-- The zero with a sign is written with a point and read as it was. -/
theorem number_negativeZero {s : List Char} (hs : Stops s) :
    number true ('0' :: '.' :: '0' :: s) =
      .done (.real ⟨true, 0, Decimal.Binary64.minExponent⟩) s := by
  have hfraction : fractionDigits? .eofValue ('.' :: '0' :: s) = .done (some [0]) s :=
    fractionDigits?_append (.some (List.cons_ne_nil '0' []) (List.forall_mem_singleton.mpr rfl))
      (noDigit_of_stops hs) (fun _ hc => (hs.ne hc).2.1) _
  have hinteger : integerDigits .eofValue ('0' :: '.' :: '0' :: s) =
      .done [0] ('.' :: '0' :: s) := rfl
  have habsorb : absorb maxWhole 0 [0] = (0, []) := rfl
  have hshift : (([] : List Nat).length : Int) - ([0].length - ([] : List Nat).length : Nat) = -1 := rfl
  rw [number, bind_of_done hinteger, habsorb]
  dsimp only
  rw [bind_of_done hfraction, Option.getD_some, habsorb]
  dsimp only
  rw [bind_of_done (exponent?_of_stops _ hs)]
  dsimp only
  rw [hshift, ofDecimal?_zero]
  rfl

end Reader

end Json

end Mediation
