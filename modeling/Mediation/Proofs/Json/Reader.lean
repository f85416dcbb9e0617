import Mediation.Json.Reader.Value

/-! When a reader succeeds. Each way of putting readers together succeeds just when its parts do, one
after the other (`bind_eq_done`, `closedBy_eq_done`), and a loop succeeds just when its steps do and
the last one stops it (`steps_eq_done`). The members of a container are gathered by such a loop, and
what has been gathered is told without it by `Gather`. -/

namespace Mediation

namespace Json

namespace Reader

variable {α β σ : Type} {s rest : List Char}

/-! Readers one after the other. -/

theorem bind_eq_done {r : Reader α} {f : α → Reader β} {b : β} :
    (r >>= f) s = .done b rest ↔ ∃ a s', r s = .done a s' ∧ f a s' = .done b rest := by
  rw [bind_apply]
  cases r s with
  | done a s' =>
      constructor
      · exact fun h => ⟨a, s', rfl, h⟩
      · rintro ⟨_, _, ⟨⟩, h⟩
        exact h
  | failed fault s' => simp

theorem pure_eq_done {a b : α} : (pure a : Reader α) s = .done b rest ↔ a = b ∧ s = rest := by
  rw [pure_apply, Outcome.done.injEq]

theorem map_eq_done {f : α → β} {r : Reader α} {b : β} :
    (f <$> r) s = .done b rest ↔ ∃ a, r s = .done a rest ∧ f a = b := by
  show (r >>= fun a => pure (f a)) s = .done b rest ↔ _
  simp only [bind_eq_done, pure_eq_done]
  constructor
  · rintro ⟨a, _, hr, rfl, rfl⟩
    exact ⟨a, hr, rfl⟩
  · rintro ⟨a, hr, rfl⟩
    exact ⟨a, rest, hr, rfl, rfl⟩

theorem bind_of_done {r : Reader α} {a : α} {s' : List Char} (h : r s = .done a s')
    (f : α → Reader β) :
    (r >>= f) s = f a s' := by
  rw [bind_apply, h]

theorem map_of_done {r : Reader α} {a : α} (h : r s = .done a rest) (f : α → β) :
    (f <$> r) s = .done (f a) rest :=
  map_eq_done.mpr ⟨a, h, rfl⟩

theorem placed_eq_done {r : Reader α} {a : α} : placed r s = .done a rest ↔ r s = .done a rest := by
  unfold placed
  rcases r s with _ | ⟨⟨cause, _ | left⟩, _⟩ <;> simp

theorem closedBy_eq_done {close : Reader Unit} {inside : Reader α} {a : α} :
    closedBy close inside s = .done a rest ↔
      ∃ s', inside s = .done a s' ∧ close s' = .done () rest := by
  unfold closedBy
  cases inside s with
  | done b s' =>
      dsimp only
      cases hclose : close s' with
      | done _ s'' =>
          constructor
          · rintro ⟨⟩
            exact ⟨s', rfl, hclose⟩
          · rintro ⟨_, ⟨⟩, h⟩
            cases hclose.symm.trans h
            rfl
      | failed fault s'' =>
          constructor
          · rintro ⟨⟩
          · rintro ⟨_, ⟨⟩, h⟩
            cases hclose.symm.trans h
  | failed fault s' =>
      constructor
      · dsimp only
        cases close s' <;> exact fun h => nomatch h
      · rintro ⟨_, ⟨⟩, _⟩

theorem judged_eq_done {x : Except Mismatch α} {a : α} :
    judged x s = .done a rest ↔ x = .ok a ∧ s = rest := by
  cases x with
  | ok b => simp [judged, pure_eq_done]
  | error m => simp [judged, mismatch]

@[simp] theorem failAfter_ne_done {bytes : Nat} {cause : Cause} {a : α} :
    failAfter bytes cause s ≠ .done a rest :=
  fun h => nomatch h

@[simp] theorem failBefore_ne_done {bytes : Nat} {cause : Cause} {a : α} :
    failBefore bytes cause s ≠ .done a rest :=
  fun h => nomatch h

@[simp] theorem failHere_ne_done {cause : Cause} {a : α} : failHere cause s ≠ .done a rest :=
  fun h => nomatch h

@[simp] theorem failNext_ne_done {cause : Cause} {a : α} : failNext cause s ≠ .done a rest :=
  fun h => nomatch h

@[simp] theorem mismatch_ne_done {m : Mismatch} {a : α} : mismatch m s ≠ .done a rest :=
  fun h => nomatch h

theorem peek?_bind_apply (f : Option Char → Reader β) : (peek? >>= f) s = f s.head? s := rfl

theorem advance_bind_apply (f : Unit → Reader β) : (advance >>= f) s = f () s.tail := rfl

theorem skipBlanks_bind_apply (f : Unit → Reader β) :
    (skipBlanks >>= f) s = f () (s.dropWhile isBlank) := rfl

/-- The character after the blanks comes next once they have been passed over. -/
theorem peekToken_eq_done {eof : Cause} {c : Char} :
    peekToken eof s = .done c rest ↔ ∃ tail, s.dropWhile isBlank = c :: tail ∧ rest = c :: tail := by
  rw [peekToken, skipBlanks_bind_apply, peek?_bind_apply]
  cases s.dropWhile isBlank with
  | nil => simp
  | cons d tail =>
      simp only [List.head?_cons, pure_eq_done, List.cons.injEq]
      constructor
      · rintro ⟨rfl, rfl⟩
        exact ⟨tail, ⟨rfl, rfl⟩, rfl⟩
      · rintro ⟨_, ⟨rfl, rfl⟩, rfl⟩
        exact ⟨rfl, rfl⟩

theorem peekToken_bind_of_dropWhile {c : Char} {tail : List Char}
    (h : s.dropWhile isBlank = c :: tail) (eof : Cause) (f : Char → Reader β) :
    (peekToken eof >>= f) s = f c (c :: tail) :=
  bind_of_done (peekToken_eq_done.mpr ⟨tail, h, rfl⟩) f

theorem atEnd_eq_done {u : Unit} :
    atEnd s = .done u rest ↔ s.dropWhile isBlank = [] ∧ rest = [] := by
  rw [atEnd, skipBlanks_bind_apply, peek?_bind_apply]
  cases s.dropWhile isBlank with
  | nil => simp [pure_eq_done, eq_comm]
  | cons c tail => simp

/-- A text is read if a value is and only blanks follow it. -/
theorem run_eq_ok {r : Reader α} {text : String} {a : α} :
    r.run text = .ok a ↔ ∃ rest, r text.toList = .done a rest ∧ rest.dropWhile isBlank = [] := by
  have hrun {rest : List Char} : (do let a ← r; atEnd; pure a : Reader α) text.toList = .done a rest ↔
      ∃ s', r text.toList = .done a s' ∧ s'.dropWhile isBlank = [] ∧ rest = [] := by
    simp only [bind_eq_done, pure_eq_done, atEnd_eq_done]
    constructor
    · rintro ⟨a, s', ha, _, _, ⟨hblank, rfl⟩, rfl, rfl⟩
      exact ⟨s', ha, hblank, rfl⟩
    · rintro ⟨s', ha, hblank, rfl⟩
      exact ⟨a, s', ha, (), [], ⟨hblank, rfl⟩, rfl, rfl⟩
  unfold run
  constructor
  · intro h
    split at h
    next hdone =>
        cases h
        obtain ⟨s', ha, hblank, -⟩ := hrun.mp hdone
        exact ⟨s', ha, hblank⟩
    next => cases h
  · rintro ⟨s', ha, hblank⟩
    rw [hrun.mpr ⟨s', ha, hblank, rfl⟩]

/-! Loops. -/

/-- A loop goes on, each time with fewer characters left, until a step stops it. -/
inductive Runs (step : σ → Reader (Option σ)) : σ → List Char → σ → List Char → Prop
  | stop {state : σ} {s rest : List Char} (h : step state s = .done none rest) :
      Runs step state s state rest
  | go {state next last : σ} {s s' rest : List Char} (h : step state s = .done (some next) s')
      (hlt : s'.length < s.length) (hrun : Runs step next s' last rest) :
      Runs step state s last rest

theorem Runs.stepsAlong_eq {step : σ → Reader (Option σ)} {state last : σ}
    (h : Runs step state s last rest) {fuel : List Char} (hfuel : s.length ≤ fuel.length) :
    Text.stepsAlong step fuel state s = .done last rest := by
  induction h generalizing fuel with
  | stop h => cases fuel <;> simp [Text.stepsAlong, bind_of_done h, pure_apply]
  | go h hlt _ ih =>
      cases fuel with
      | nil => exact absurd hlt (by rw [List.length_nil] at hfuel; omega)
      | cons c fuel =>
          rw [Text.stepsAlong, bind_of_done h]
          exact ih (by rw [List.length_cons] at hfuel; omega)

theorem Runs.steps_eq {step : σ → Reader (Option σ)} {state last : σ}
    (h : Runs step state s last rest) :
    steps step state s = .done last rest :=
  h.stepsAlong_eq (Nat.le_refl _)

theorem runs_of_stepsAlong {step : σ → Reader (Option σ)}
    (hstep : ∀ {state next s s'}, step state s = .done (some next) s' → s'.length < s.length)
    {state last : σ} {fuel : List Char} (hfuel : s.length ≤ fuel.length)
    (h : Text.stepsAlong step fuel state s = .done last rest) :
    Runs step state s last rest := by
  induction fuel generalizing state s with
  | nil =>
      rw [Text.stepsAlong, bind_eq_done] at h
      obtain ⟨_ | next, s', hnext, hlast⟩ := h
      · obtain ⟨rfl, rfl⟩ := pure_eq_done.mp hlast
        exact .stop hnext
      · have hlt := hstep hnext
        rw [List.length_nil] at hfuel
        omega
  | cons c fuel ih =>
      rw [Text.stepsAlong, bind_eq_done] at h
      obtain ⟨_ | next, s', hnext, hlast⟩ := h
      · obtain ⟨rfl, rfl⟩ := pure_eq_done.mp hlast
        exact .stop hnext
      · have hlt := hstep hnext
        rw [List.length_cons] at hfuel
        exact .go hnext hlt (ih (by omega) hlast)

/-- A loop whose steps all go on with fewer characters left comes to what its steps come to. -/
theorem steps_eq_done {step : σ → Reader (Option σ)}
    (hstep : ∀ {state next s s'}, step state s = .done (some next) s' → s'.length < s.length)
    {state last : σ} :
    steps step state s = .done last rest ↔ Runs step state s last rest :=
  ⟨runs_of_stepsAlong hstep (Nat.le_refl _), Runs.steps_eq⟩

/-- A loop takes a first step. -/
theorem exists_step_of_steps {step : σ → Reader (Option σ)} {state last : σ}
    (h : steps step state s = .done last rest) :
    ∃ next? s', step state s = .done next? s' := by
  cases s with
  | nil =>
      obtain ⟨next?, s', hstep, -⟩ := bind_eq_done.mp h
      exact ⟨next?, s', hstep⟩
  | cons c s =>
      obtain ⟨next?, s', hstep, -⟩ := bind_eq_done.mp h
      exact ⟨next?, s', hstep⟩

/-! The members of a container. -/

section

variable {more : Bool → Reader Bool} {member : σ → Reader σ} {x y : Bool × σ}

/-- Reads the next member of a container, if there is one. -/
def nextMember (more : Bool → Reader Bool) (member : σ → Reader σ) (x : Bool × σ) :
    Reader (Option (Bool × σ)) := do
  if ← more x.1 then return some (false, ← member x.2) else pure none

/-- Goes through the members of a container for as long as there are more. -/
def members (more : Bool → Reader Bool) (member : σ → Reader σ) (first : Bool) (state : σ) :
    Reader σ := do
  let (_, last) ← steps (nextMember more member) (first, state)
  pure last

theorem nextMember_eq_done_none :
    nextMember more member x s = .done none rest ↔ more x.1 s = .done false rest := by
  rw [nextMember, bind_eq_done]
  constructor
  · rintro ⟨_ | _, s₁, hmore, h⟩
    · obtain ⟨-, rfl⟩ := pure_eq_done.mp h
      exact hmore
    · obtain ⟨_, _, -, h⟩ := bind_eq_done.mp h
      cases (pure_eq_done.mp h).1
  · exact fun h => ⟨false, rest, h, rfl⟩

theorem nextMember_eq_done_some :
    nextMember more member x s = .done (some y) rest ↔
      y.1 = false ∧ ∃ s₁, more x.1 s = .done true s₁ ∧ member x.2 s₁ = .done y.2 rest := by
  rw [nextMember, bind_eq_done]
  constructor
  · rintro ⟨_ | _, s₁, hmore, h⟩
    · cases (pure_eq_done.mp h).1
    · obtain ⟨last, s₂, hlast, h⟩ := bind_eq_done.mp h
      obtain ⟨⟨⟩, rfl⟩ := pure_eq_done.mp h
      exact ⟨rfl, s₁, hmore, hlast⟩
  · rintro ⟨hfirst, s₁, hmore, hlast⟩
    obtain ⟨first, last⟩ := y
    obtain rfl : first = false := hfirst
    refine ⟨true, s₁, hmore, ?_⟩
    rw [if_pos rfl, bind_of_done hlast]
    rfl

theorem Runs.members_eq {first first' : Bool} {state last : σ}
    (h : Runs (nextMember more member) (first, state) s (first', last) rest) :
    members more member first state s = .done last rest := by
  rw [members, bind_of_done h.steps_eq]
  rfl

end

theorem items_eq_members (first : Bool) (state : σ) (item : σ → Reader σ) :
    items first state item = members moreItems item first state := rfl

theorem entries_eq_members (state : σ) (entry : σ → String → Reader σ) :
    entries state entry = members moreEntries (fun state => key >>= entry state) true state := by
  have hassoc (state : σ) (g : σ → Reader (Option (Bool × σ))) :
      (key >>= fun k => entry state k >>= g) = ((key >>= entry state) >>= g) := by
    funext s
    simp only [bind_apply]
    cases key s <;> rfl
  unfold entries members nextMember
  simp only [hassoc]

end Reader

end Json

end Mediation
