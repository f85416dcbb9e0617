import Mediation.Proofs.Json.Reader

/-! Readers that mind only what they read. A reader is steady if it never gives back more characters
than it was given and if it comes to the same when the text goes on, provided that the text goes on
as it may behind a value (`Stops`): otherwise more digits would make another number. All readers of
values are steady, and a value takes at least one character (`steady_value`). -/

namespace Mediation

namespace Json

namespace Reader

variable {α β σ : Type}

/-- What may follow a value: the end of the text, a blank, a comma or a closing bracket. -/
def Stops (u : List Char) : Prop :=
  ∀ c ∈ u.head?, isBlank c = true ∨ c = ',' ∨ c = ']' ∨ c = '\x7d'

/-- No number goes on with a character that may follow a value. -/
theorem Stops.ne {u : List Char} (hu : Stops u) {c : Char} (hc : c ∈ u.head?) :
    c.isDigit = false ∧ c ≠ '.' ∧ c ≠ 'e' ∧ c ≠ 'E' ∧ c ≠ '+' ∧ c ≠ '-' := by
  have hstop := hu c hc
  simp only [isBlank, Bool.or_eq_true, decide_eq_true_eq] at hstop
  rcases hstop with (((rfl | rfl) | rfl) | rfl) | rfl | rfl | rfl <;> decide

/-- The text starts with the character, if one is given. -/
def Begins (start : Option Char) (s : List Char) : Prop := ∀ c ∈ start, s.head? = some c

theorem begins_none (s : List Char) : Begins none s := fun _ h => nomatch h

/-- On a text that begins as given, the reader takes at least so many characters and does not mind
what follows. -/
structure Steady (start : Option Char) (taken : Nat) (r : Reader α) : Prop where
  length : ∀ {s a rest}, Begins start s → r s = .done a rest → rest.length + taken ≤ s.length
  append : ∀ {s a rest u}, Begins start s → r s = .done a rest → Stops u →
    r (s ++ u) = .done a (rest ++ u)

section

variable {start : Option Char} {k : Nat} {r : Reader α}

theorem Steady.of_ne_done (h : ∀ s a rest, r s ≠ .done a rest) : Steady start k r :=
  ⟨fun _ hr => absurd hr (h _ _ _), fun _ hr _ => absurd hr (h _ _ _)⟩

theorem Steady.taken_zero (h : Steady start k r) : Steady start 0 r where
  length hs hr := Nat.le_trans (Nat.le_add_right _ _) (h.length hs hr)
  append := h.append

theorem Steady.pure (a : α) : Steady start 0 (Pure.pure a : Reader α) where
  length _ hr := by
    obtain ⟨-, rfl⟩ := pure_eq_done.mp hr
    exact Nat.le_refl _
  append _ hr _ := by
    obtain ⟨rfl, rfl⟩ := pure_eq_done.mp hr
    rfl

theorem Steady.bind {f : α → Reader β} (hr : Steady start k r) (hf : ∀ a, Steady none 0 (f a)) :
    Steady start k (r >>= f) where
  length hs h := by
    obtain ⟨a, s', hra, hfa⟩ := bind_eq_done.mp h
    have hlt := hr.length hs hra
    have hle := (hf a).length (begins_none _) hfa
    omega
  append hs h hu := by
    obtain ⟨a, s', hra, hfa⟩ := bind_eq_done.mp h
    rw [bind_of_done (hr.append hs hra hu)]
    exact (hf a).append (begins_none _) hfa hu

theorem Steady.map (hr : Steady start k r) (f : α → β) : Steady start k (f <$> r) :=
  hr.bind fun a => .pure (f a)

theorem Steady.placed (hr : Steady start k r) : Steady start k (placed r) where
  length hs h := hr.length hs (placed_eq_done.mp h)
  append hs h hu := placed_eq_done.mpr (hr.append hs (placed_eq_done.mp h) hu)

theorem Steady.closedBy {close : Reader Unit} (hr : Steady start 0 r)
    (hclose : Steady none k close) :
    Steady start k (closedBy close r) where
  length hs h := by
    obtain ⟨s', hra, hrest⟩ := closedBy_eq_done.mp h
    have hle := hr.length hs hra
    have hlt := hclose.length (begins_none _) hrest
    omega
  append hs h hu := by
    obtain ⟨s', hra, hrest⟩ := closedBy_eq_done.mp h
    exact closedBy_eq_done.mpr ⟨_, hr.append hs hra hu, hclose.append (begins_none _) hrest hu⟩

theorem steady_advance {c : Char} : Steady (some c) 1 advance where
  length {s _ _} hs h := by
    cases s with
    | nil => exact nomatch hs c rfl
    | cons d s =>
        cases h
        exact Nat.le_refl _
  append {s _ _ _} hs h _ := by
    cases s with
    | nil => exact nomatch hs c rfl
    | cons d s =>
        cases h
        rfl

/-- What is peeked at comes next, and at the end of the text reading fails. -/
theorem Steady.peek?_bind {f : Option Char → Reader β} (hf : ∀ c, Steady (some c) k (f (some c)))
    (hnone : ∀ b rest, f none [] ≠ .done b rest) :
    Steady start k (peek? >>= f) where
  length {s _ _} _ h := by
    rw [peek?_bind_apply] at h
    cases s with
    | nil => exact absurd h (hnone _ _)
    | cons c s => exact (hf c).length (fun _ hc => hc ▸ rfl) h
  append {s _ _ _} _ h hu := by
    rw [peek?_bind_apply] at h ⊢
    cases s with
    | nil => exact absurd h (hnone _ _)
    | cons c s => exact (hf c).append (fun _ hc => hc ▸ rfl) h hu

/-- The end of the text counts as a character that may follow a value. -/
theorem Steady.peek?_bind_pure {f : Option Char → Reader β} {b : β}
    (hf : ∀ c, Steady (some c) 0 (f (some c))) (hnone : f none = Pure.pure b)
    (hstop : ∀ u, Stops u → f u.head? = Pure.pure b) :
    Steady start 0 (peek? >>= f) where
  length {s _ _} _ h := by
    rw [peek?_bind_apply] at h
    cases s with
    | nil =>
        rw [List.head?_nil, hnone] at h
        obtain ⟨-, rfl⟩ := pure_eq_done.mp h
        exact Nat.le_refl _
    | cons c s => exact (hf c).length (fun _ hc => hc ▸ rfl) h
  append {s _ _ _} _ h hu := by
    rw [peek?_bind_apply] at h ⊢
    cases s with
    | nil =>
        rw [List.head?_nil, hnone] at h
        obtain ⟨rfl, rfl⟩ := pure_eq_done.mp h
        rw [List.nil_append, hstop _ hu]
        rfl
    | cons c s => exact (hf c).append (fun _ hc => hc ▸ rfl) h hu

theorem dropWhile_append_of_eq_cons {p : Char → Bool} {s tail : List Char} {c : Char}
    (h : s.dropWhile p = c :: tail) (u : List Char) :
    (s ++ u).dropWhile p = c :: (tail ++ u) := by
  rw [List.dropWhile_append, h]
  rfl

theorem length_le_of_dropWhile_eq {p : Char → Bool} {s s' : List Char} (h : s.dropWhile p = s') :
    s'.length ≤ s.length :=
  h ▸ (List.dropWhile_suffix p).length_le

theorem Steady.peekToken_bind {f : Char → Reader β} (hf : ∀ c, Steady (some c) k (f c))
    (eof : Cause) :
    Steady start k (peekToken eof >>= f) where
  length _ h := by
    obtain ⟨c, _, htoken, hfc⟩ := bind_eq_done.mp h
    obtain ⟨tail, hdrop, rfl⟩ := peekToken_eq_done.mp htoken
    exact Nat.le_trans ((hf c).length (fun _ hc => hc ▸ rfl) hfc) (length_le_of_dropWhile_eq hdrop)
  append {_ _ _ u} _ h hu := by
    obtain ⟨c, _, htoken, hfc⟩ := bind_eq_done.mp h
    obtain ⟨tail, hdrop, rfl⟩ := peekToken_eq_done.mp htoken
    rw [peekToken_bind_of_dropWhile (dropWhile_append_of_eq_cons hdrop u)]
    exact (hf c).append (fun _ hc => hc ▸ rfl) hfc hu

theorem Steady.steps {step : σ → Reader (Option σ)} (hstep : ∀ state, Steady none k (step state))
    (hgo : ∀ {state next s s'}, step state s = .done (some next) s' → s'.length < s.length)
    (state : σ) :
    Steady start k (steps step state) where
  length {s last rest} hs h := by
    have hruns : Runs step state s last rest := (steps_eq_done hgo).mp h
    clear h hs
    induction hruns with
    | stop h => exact (hstep _).length (begins_none _) h
    | go _ hlt _ ih => omega
  append {s last rest u} hs h hu := by
    have hruns : Runs step state s last rest := (steps_eq_done hgo).mp h
    refine Runs.steps_eq ?_
    clear h hs
    induction hruns with
    | stop h => exact .stop ((hstep _).append (begins_none _) h hu)
    | go h hlt _ ih =>
        refine .go ((hstep _).append (begins_none _) h hu) ?_ ih
        rw [List.length_append, List.length_append]
        omega

section

variable {more : Bool → Reader Bool} {member : σ → Reader σ} {next : Option Char}

theorem Steady.nextMember (hmore : ∀ first, Steady none 0 (more first))
    (hnext : ∀ {first s rest}, more first s = .done true rest → Begins next rest)
    (hmember : ∀ state, Steady next 1 (member state)) (x : Bool × σ) :
    Steady none 0 (nextMember more member x) where
  length {s y rest} _ h := by
    cases y with
    | none => exact (hmore _).length (begins_none _) (nextMember_eq_done_none.mp h)
    | some y =>
        obtain ⟨-, s₁, htrue, hy⟩ := nextMember_eq_done_some.mp h
        have hle := (hmore _).length (begins_none _) htrue
        have hlt := (hmember _).length (hnext htrue) hy
        omega
  append {s y rest u} _ h hu := by
    cases y with
    | none =>
        have hfalse := nextMember_eq_done_none.mp h
        exact nextMember_eq_done_none.mpr ((hmore _).append (begins_none _) hfalse hu)
    | some y =>
        obtain ⟨hfirst, s₁, htrue, hy⟩ := nextMember_eq_done_some.mp h
        have htrue' := (hmore _).append (begins_none _) htrue hu
        have hy' := (hmember _).append (hnext htrue) hy hu
        exact nextMember_eq_done_some.mpr ⟨hfirst, _, htrue', hy'⟩

/-- Members are steady, since each takes a character at least. -/
theorem Steady.members (hmore : ∀ first, Steady none 0 (more first))
    (hnext : ∀ {first s rest}, more first s = .done true rest → Begins next rest)
    (hmember : ∀ state, Steady next 1 (member state)) (first : Bool) (state : σ) :
    Steady start 0 (members more member first state) := by
  refine .bind (.steps (.nextMember hmore hnext hmember) (fun h => ?_) _) fun _ => .pure _
  obtain ⟨-, s₁, htrue, hy⟩ := nextMember_eq_done_some.mp h
  have hle := (hmore _).length (begins_none _) htrue
  have hlt := (hmember _).length (hnext htrue) hy
  omega

end

end

end Reader

end Json

end Mediation
