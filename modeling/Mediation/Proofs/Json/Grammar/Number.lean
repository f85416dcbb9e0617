import Mediation.Proofs.Json.Gather

/-! The parts of a number by their grammar: the digits before the point, the point with the digits
after it, and the exponent. Each part is read whole if what comes behind it cannot be taken for more of
it (`integerDigits_append`, `fractionDigits?_append`, `exists_exponentDigits?`). -/

namespace Mediation

namespace Json

/-- The digits before the point. -/
inductive IsInteger : List Char → Prop
  | zero : IsInteger ['0']
  | positive {c : Char} {ds : List Char} (hc : c ≠ '0') (hds : ∀ d ∈ c :: ds, d.isDigit = true) :
      IsInteger (c :: ds)

/-- The point and the digits after it, if there are any. -/
inductive IsFraction : List Char → Prop
  | none : IsFraction []
  | some {ds : List Char} (hne : ds ≠ []) (hds : ∀ d ∈ ds, d.isDigit = true) : IsFraction ('.' :: ds)

/-- The exponent with its sign, if there is one. -/
inductive IsExponent : List Char → Prop
  | none : IsExponent []
  | some {e : Char} {sign ds : List Char} (he : e = 'e' ∨ e = 'E')
      (hsign : sign = [] ∨ sign = ['+'] ∨ sign = ['-']) (hne : ds ≠ [])
      (hds : ∀ d ∈ ds, d.isDigit = true) : IsExponent (e :: (sign ++ ds))

namespace Reader

/-- No digit comes next. -/
def NoDigit (u : List Char) : Prop := ∀ c ∈ u.head?, c.isDigit = false

theorem noDigit_of_stops {u : List Char} (hu : Stops u) : NoDigit u := fun _ hc => (hu.ne hc).1

theorem digits_append {w u : List Char} (hw : ∀ d ∈ w, d.isDigit = true) (hu : NoDigit u) :
    digits (w ++ u) = .done (w.map (·.toNat - 48)) u := by
  have htake : u.takeWhile Char.isDigit = [] ∧ u.dropWhile Char.isDigit = u := by
    cases u with
    | nil => exact ⟨rfl, rfl⟩
    | cons c u =>
        have hc := hu c rfl
        exact ⟨List.takeWhile_cons_of_neg (by simp [hc]), List.dropWhile_cons_of_neg (by simp [hc])⟩
  rw [digits, List.takeWhile_append_of_pos hw, List.dropWhile_append_of_pos hw, htake.1, htake.2,
    List.append_nil]

theorem integerDigits_append {w u : List Char} (h : IsInteger w) (hu : NoDigit u) (eof : Cause) :
    integerDigits eof (w ++ u) = .done (w.map (·.toNat - 48)) u := by
  cases h with
  | zero =>
      have hnone : digits u = .done [] u := digits_append (w := []) (fun _ hd => nomatch hd) hu
      rw [List.singleton_append, integerDigits, peek?_bind_apply, List.head?_cons]
      show (advance >>= _) ('0' :: u) = _
      rw [advance_bind_apply, List.tail_cons, bind_of_done hnone]
      rfl
  | @positive c ds hc hds =>
      rw [integerDigits, peek?_bind_apply, List.cons_append, List.head?_cons]
      refine (congrFun (?_ : _ = digits) _).trans (digits_append hds hu)
      split
      next h => cases h
      next h => exact absurd (Option.some.inj h) hc
      next d _ h =>
          cases h
          rw [if_pos (hds c List.mem_cons_self)]

/-- What is read of a fraction. -/
def fractionOf : List Char → Option (List Nat)
  | [] => none
  | _ :: ds => some (ds.map (·.toNat - 48))

theorem fractionDigits?_append {w u : List Char} (h : IsFraction w) (hu : NoDigit u)
    (hpoint : ∀ c ∈ u.head?, c ≠ '.') (eof : Cause) :
    fractionDigits? eof (w ++ u) = .done (fractionOf w) u := by
  cases h with
  | none =>
      rw [List.nil_append, fractionDigits?, peek?_bind_apply]
      refine congrFun (?_ : _ = (pure none : Reader (Option (List Nat)))) u
      split
      next h => exact absurd rfl (hpoint _ h)
      next => rfl
  | @some ds hne hds =>
      obtain ⟨d, ds, rfl⟩ := List.exists_cons_of_ne_nil hne
      rw [List.cons_append, fractionDigits?, peek?_bind_apply, List.head?_cons]
      show (advance >>= _) ('.' :: (d :: ds ++ u)) = _
      rw [advance_bind_apply, List.tail_cons, bind_of_done (digits_append hds hu), peek?_bind_apply]
      rfl

theorem exponentSign_append {sign ds : List Char} (hsign : sign = [] ∨ sign = ['+'] ∨ sign = ['-'])
    (hne : ds ≠ []) (hds : ∀ d ∈ ds, d.isDigit = true) (u : List Char) :
    exponentSign (sign ++ (ds ++ u)) = .done (decide (sign = ['-'])) (ds ++ u) := by
  rcases hsign with rfl | rfl | rfl
  · obtain ⟨d, ds, rfl⟩ := List.exists_cons_of_ne_nil hne
    have hd := hds d List.mem_cons_self
    rw [List.nil_append, exponentSign, peek?_bind_apply, List.cons_append, List.head?_cons]
    refine congrFun (?_ : _ = (pure false : Reader Bool)) _
    split
    next h =>
        cases h
        exact absurd hd (by decide)
    next h =>
        cases h
        exact absurd hd (by decide)
    next => rfl
  · rfl
  · rfl

theorem exponentDigits?_of_stops (eof : Cause) {s : List Char} (hs : Stops s) :
    exponentDigits? eof s = .done none s := by
  rw [exponentDigits?, peek?_bind_apply]
  refine congrFun (?_ : _ = (pure none : Reader (Option (Bool × List Nat)))) s
  split
  next h => exact absurd rfl (hs.ne h).2.2.1
  next h => exact absurd rfl (hs.ne h).2.2.2.1
  next => rfl

theorem exists_exponentDigits? {w : List Char} (h : IsExponent w) (eof : Cause) :
    ∃ found, (w ≠ [] → found.isSome) ∧
      ∀ {u}, Stops u → exponentDigits? eof (w ++ u) = .done found u := by
  cases h with
  | none =>
      refine ⟨none, fun h => absurd rfl h, fun {u} hu => ?_⟩
      rw [List.nil_append, exponentDigits?_of_stops eof hu]
  | @some e sign ds he hsign hne hds =>
      refine ⟨some (decide (sign = ['-']), ds.map (·.toNat - 48)), fun _ => rfl, fun {u} hu => ?_⟩
      have hdigits := digits_append hds (noDigit_of_stops hu)
      have hsignRead := exponentSign_append hsign hne hds u
      obtain ⟨d, ds, rfl⟩ := List.exists_cons_of_ne_nil hne
      have hd := hds d List.mem_cons_self
      rw [List.cons_append, List.append_assoc, exponentDigits?, peek?_bind_apply, List.head?_cons]
      rcases he with rfl | rfl
      all_goals
        show (advance >>= _) _ = _
        rw [advance_bind_apply, List.tail_cons, bind_of_done hsignRead, peek?_bind_apply]
        show (if d.isDigit then _ else _ : Reader (Option (Bool × List Nat))) _ = _
        rw [if_pos hd, bind_of_done hdigits]
        rfl

end Reader

end Json

end Mediation
