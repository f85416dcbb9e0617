import Mediation.Proofs.Json.Gather

/-! Readers that judge what they read. Such a reader takes the characters of a value as a reader that
accepts any value does, and the only fault it finds in them is that the value is not what was asked for
(`Judges`). So it keeps to the grammar: whatever it is put together of, it either comes to the end of the
value or refuses the value, and never takes a text for malformed or unfinished that is neither. -/

namespace Mediation

namespace Json

namespace Reader

variable {α β σ : Type} {s s' rest : List Char}

/-- The reader comes as far as `rest`, unless it refuses what it reads there. -/
inductive Judges (r : Reader α) (s rest : List Char) : Prop
  | accepts {a : α} (h : r s = .done a rest)
  | refuses {m : Mismatch} {left : Option Nat} {s' : List Char}
      (h : r s = .failed ⟨.mismatch m, left⟩ s')

namespace Judges

theorem pure (a : α) (s : List Char) : Judges (Pure.pure a : Reader α) s s := .accepts rfl

theorem mismatch (m : Mismatch) (s rest : List Char) :
    Judges (Reader.mismatch m : Reader α) s rest :=
  .refuses rfl

theorem judged (x : Except Mismatch α) (s : List Char) : Judges (Reader.judged x) s s := by
  cases x with
  | ok a => exact .pure a s
  | error m => exact .mismatch m s s

theorem bind {r : Reader α} {f : α → Reader β} (h : Judges r s s')
    (hf : ∀ a, r s = .done a s' → Judges (f a) s' rest) :
    Judges (r >>= f) s rest := by
  cases h with
  | accepts h =>
      cases hf _ h with
      | accepts hfa => exact .accepts ((bind_of_done h f).trans hfa)
      | refuses hfa => exact .refuses ((bind_of_done h f).trans hfa)
  | refuses h => exact .refuses (by rw [bind_apply, h])

/-- A reader that accepts what it reads leaves it to the next one to judge. -/
theorem bind_of_done {r : Reader α} {f : α → Reader β} {a : α} (h : r s = .done a s')
    (hf : Judges (f a) s' rest) :
    Judges (r >>= f) s rest := by
  refine .bind (.accepts h) fun a' ha' => ?_
  cases h.symm.trans ha'
  exact hf

theorem placed {r : Reader α} (h : Judges r s rest) : Judges (Reader.placed r) s rest := by
  cases h with
  | accepts h => exact .accepts (placed_eq_done.mpr h)
  | @refuses _ left _ h =>
      cases left with
      | none => exact .refuses (by rw [Reader.placed, h])
      | some => exact .refuses (by rw [Reader.placed, h])

/-- What is inside a container is refused whether or not the end of the container is found. -/
theorem closedBy {close : Reader Unit} {inside : Reader α} (h : Judges inside s s')
    (hclose : close s' = .done () rest) :
    Judges (Reader.closedBy close inside) s rest := by
  cases h with
  | accepts h => exact .accepts (closedBy_eq_done.mpr ⟨s', h, hclose⟩)
  | @refuses m left s'' h =>
      have hfail : ∃ s₂, Reader.closedBy close inside s = .failed ⟨.mismatch m, left⟩ s₂ := by
        rw [Reader.closedBy, h]
        dsimp only
        cases close s'' <;> exact ⟨_, rfl⟩
      obtain ⟨_, hfail⟩ := hfail
      exact .refuses hfail

theorem inArray {inside : Reader α} (h : Judges inside s.tail s')
    (hclose : closeArray s' = .done () rest) :
    Judges (Reader.inArray inside) s rest :=
  .placed (.bind_of_done (show advance s = .done () s.tail from rfl) (h.closedBy hclose))

theorem inObject {inside : Reader α} (h : Judges inside s.tail s')
    (hclose : closeObject s' = .done () rest) :
    Judges (Reader.inObject inside) s rest :=
  .placed (.bind_of_done (show advance s = .done () s.tail from rfl) (h.closedBy hclose))

end Judges

/-! Values that are judged as a whole. -/

/-- Where there is a value there is one that a reader accepts that does not look into containers. -/
theorem exists_valueWith_of_value {depth : Nat} {j : Json} (h : value depth s = .done j rest) :
    ∃ j' rest', valueWith (pure (.array [])) (pure (.object [])) s = .done j' rest' := by
  have hskip {array object : Reader Json} (h : valueWith array object s = .done j rest) :
      ∃ j' rest', valueWith (pure (.array [])) (pure (.object [])) s = .done j' rest' := by
    obtain ⟨c, s₁, htoken, h⟩ := bind_eq_done.mp h
    by_cases harray : c = '['
    · subst harray
      exact ⟨.array [], s₁, bind_eq_done.mpr ⟨_, s₁, htoken, rfl⟩⟩
    by_cases hobject : c = '\x7b'
    · subst hobject
      exact ⟨.object [], s₁, bind_eq_done.mpr ⟨_, s₁, htoken, rfl⟩⟩
    refine ⟨j, rest, bind_eq_done.mpr ⟨c, s₁, htoken, ?_⟩⟩
    split at h
    next => exact h
    next => exact h
    next => exact h
    next => exact h
    next => exact h
    next => exact absurd rfl harray
    next => exact absurd rfl hobject
    next => exact h
  cases depth <;> exact hskip h

/-- A value that is judged as a whole is accepted or refused; how far the reader comes depends on what
was asked for. -/
theorem exists_judges_typed {depth : Nat} {j : Json} (h : value depth s = .done j rest)
    (judge : Json → Except Mismatch α) :
    ∃ rest', Judges (typed judge) s rest' := by
  obtain ⟨j', rest', hj'⟩ := exists_valueWith_of_value h
  exact ⟨rest', .bind_of_done hj' (.placed (.judged (judge j') rest'))⟩

/-! The members of containers. -/

section

variable {more : Bool → Reader Bool} {member : σ → Reader σ} {plain : Reader α}
  {next : Option Char} {first : Bool}

/-- One step of a loop over members, at a member that can be read. -/
theorem judges_nextMember {state : σ} (hmore : more first s = .done true s')
    (hmember : Judges (member state) s' rest) :
    Judges (nextMember more member (first, state)) s rest :=
  .bind_of_done hmore (hmember.bind fun _ _ => .pure _ rest)

/-- A loop over members that can be read comes to their end, unless it refuses one of them. -/
theorem judges_stepsAlong (hmore : ∀ first, Steady none 0 (more first))
    (hnext : ∀ {first s rest}, more first s = .done true rest → Begins next rest)
    (hplain : Steady next 1 plain)
    (hmember : ∀ {state a s rest}, plain s = .done a rest → Judges (member state) s rest)
    {as : List α} (has : Gather more plain first s as rest) {state : σ} {fuel : List Char}
    (hfuel : s.length ≤ fuel.length) :
    Judges (Text.stepsAlong (nextMember more member) fuel (first, state)) s rest := by
  induction has generalizing state fuel with
  | nil h =>
      have hstop : nextMember more member (_, state) _ = .done none _ :=
        nextMember_eq_done_none.mpr h
      exact .accepts ((Runs.stop hstop).stepsAlong_eq hfuel)
  | @cons first s s₁ s₂ rest a as htrue ha _ ih =>
      have hlt : s₂.length < s.length := by
        have hle := (hmore first).length (begins_none _) htrue
        have hlt := hplain.length (hnext htrue) ha
        omega
      cases fuel with
      | nil => exact absurd hlt (by rw [List.length_nil] at hfuel; omega)
      | cons c fuel =>
          rw [List.length_cons] at hfuel
          refine (judges_nextMember htrue (hmember ha)).bind fun next? hnext? => ?_
          cases next? with
          | none =>
              cases htrue.symm.trans (nextMember_eq_done_none.mp hnext?)
          | some y =>
              obtain ⟨first', next⟩ := y
              obtain rfl : first' = false := (nextMember_eq_done_some.mp hnext?).1
              exact ih (by omega)

/-- A reader of members that judges each of them judges them all. -/
theorem judges_members (hmore : ∀ first, Steady none 0 (more first))
    (hnext : ∀ {first s rest}, more first s = .done true rest → Begins next rest)
    (hplain : Steady next 1 plain)
    (hmember : ∀ {state a s rest}, plain s = .done a rest → Judges (member state) s rest)
    {as : List α} (has : Gather more plain first s as rest) (state : σ) :
    Judges (members more member first state) s rest := by
  have hsteps : Judges (steps (nextMember more member) (first, state)) s rest := by
    cases judges_stepsAlong hmore hnext hplain hmember has (Nat.le_refl s.length) with
    | accepts h => exact .accepts h
    | refuses h => exact .refuses h
  exact hsteps.bind fun _ _ => .pure _ rest

end

/-! Whole texts. -/

/-- A text is refused for nothing but a value that is not what was asked for, if the reader judges what
it reads and only blanks follow. -/
theorem Judges.run {r : Reader α} {text : String} (h : Judges r text.toList rest)
    (hrest : rest.dropWhile isBlank = []) {e : ReadError} (he : r.run text = .error e) :
    ∃ m, e.cause = .mismatch m := by
  cases h with
  | accepts h => cases he.symm.trans (run_eq_ok.mpr ⟨rest, h, hrest⟩)
  | @refuses m left s' h =>
      have hfail : (do let a ← r; atEnd; Pure.pure a : Reader α) text.toList =
          .failed ⟨.mismatch m, left⟩ s' := by
        rw [bind_apply, h]
      rw [Reader.run, hfail] at he
      cases he
      exact ⟨m, rfl⟩

end Reader

end Json

end Mediation
