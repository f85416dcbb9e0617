import Mediation.Proofs.Json.Canonical
import Mediation.Proofs.Json.Steady.Value

/-! The members of containers. Whatever a loop over members makes of them, it has read them one after
the other, and what it has read can be told apart from what it made of it (`members_eq_done`). Two
consequences are drawn here: the readers of lists succeed just when their members can be read, and a
value can be read at any depth that has room for what it nests (`value_of_nesting_le`). -/

namespace Mediation

namespace Json

namespace Reader

variable {α σ : Type} {s rest : List Char} {first : Bool}

/-- The members are read one after the other, and then there are no more. -/
inductive Gather (more : Bool → Reader Bool) (member : Reader α) :
    Bool → List Char → List α → List Char → Prop
  | nil {first : Bool} {s rest : List Char} (h : more first s = .done false rest) :
      Gather more member first s [] rest
  | cons {first : Bool} {s s₁ s₂ rest : List Char} {a : α} {as : List α}
      (hmore : more first s = .done true s₁) (hmember : member s₁ = .done a s₂)
      (has : Gather more member false s₂ as rest) :
      Gather more member first s (a :: as) rest

theorem Gather.imp {more : Bool → Reader Bool} {member member' : Reader α} {as : List α}
    (h : Gather more member first s as rest)
    (himp : ∀ a ∈ as, ∀ {s rest}, member s = .done a rest → member' s = .done a rest) :
    Gather more member' first s as rest := by
  induction h with
  | nil h => exact .nil h
  | cons hmore hmember _ ih =>
      refine .cons hmore (himp _ List.mem_cons_self hmember) (ih fun a ha => ?_)
      exact himp a (List.mem_cons_of_mem _ ha)

theorem Gather.forall_mem {more : Bool → Reader Bool} {member : Reader α} {as : List α}
    (h : Gather more member first s as rest) {P : α → Prop}
    (hmember : ∀ {s a rest}, member s = .done a rest → P a) :
    ∀ a ∈ as, P a := by
  induction h with
  | nil => exact fun _ ha => nomatch ha
  | cons _ ha _ ih => exact List.forall_mem_cons.mpr ⟨hmember ha, ih⟩

/-- The reader of members takes into its state what the plain reader reads. -/
def Takes (take : σ → α → Option σ) (plain : Reader α) (member : σ → Reader σ) : Prop :=
  ∀ ⦃state last s rest⦄, member state s = .done last rest ↔
    ∃ a, plain s = .done a rest ∧ take state a = some last

section

variable {more : Bool → Reader Bool} {member : σ → Reader σ} {plain : Reader α}
  {take : σ → α → Option σ} {next : Option Char} {state last : σ}

/-- What a loop goes through that takes each member into its state are members taken in order. -/
theorem exists_gather_of_runs (hmember : Takes take plain member)
    {x y : Bool × σ} (h : Runs (nextMember more member) x s y rest) :
    ∃ as, Gather more plain x.1 s as rest ∧ as.foldlM take x.2 = some y.2 := by
  induction h with
  | stop h => exact ⟨[], .nil (nextMember_eq_done_none.mp h), rfl⟩
  | go h _ _ ih =>
      obtain ⟨as, has, hfold⟩ := ih
      obtain ⟨hfirst, s₁, htrue, hlast⟩ := nextMember_eq_done_some.mp h
      obtain ⟨a, ha, htake⟩ := hmember.mp hlast
      rw [hfirst] at has
      refine ⟨a :: as, .cons htrue ha has, ?_⟩
      rw [List.foldlM_cons, htake]
      exact hfold

theorem runs_of_gather (hmore : ∀ first, Steady none 0 (more first))
    (hnext : ∀ {first s rest}, more first s = .done true rest → Begins next rest)
    (hplain : Steady next 1 plain) (hmember : Takes take plain member)
    {as : List α} (has : Gather more plain first s as rest)
    (hfold : as.foldlM take state = some last) :
    ∃ first', Runs (nextMember more member) (first, state) s (first', last) rest := by
  induction has generalizing state with
  | @nil first _ _ h =>
      cases hfold
      exact ⟨first, .stop (nextMember_eq_done_none.mpr h)⟩
  | cons htrue ha _ ih =>
      rw [List.foldlM_cons] at hfold
      obtain ⟨mid, htake, hfold⟩ := Option.bind_eq_some_iff.mp hfold
      obtain ⟨first', hruns⟩ := ih hfold
      have hmid := hmember.mpr ⟨_, ha, htake⟩
      have hle := (hmore _).length (begins_none _) htrue
      have hlt := hplain.length (hnext htrue) ha
      exact ⟨first', .go (nextMember_eq_done_some.mpr ⟨rfl, _, htrue, hmid⟩) (by omega) hruns⟩

/-- A loop that takes each member into its state comes to what taking the members in order comes
to. -/
theorem members_eq_done (hmore : ∀ first, Steady none 0 (more first))
    (hnext : ∀ {first s rest}, more first s = .done true rest → Begins next rest)
    (hplain : Steady next 1 plain) (hmember : Takes take plain member) :
    members more member first state s = .done last rest ↔
      ∃ as, Gather more plain first s as rest ∧ as.foldlM take state = some last := by
  constructor
  · intro h
    obtain ⟨⟨first', last'⟩, _, hsteps, hlast⟩ := bind_eq_done.mp h
    obtain ⟨rfl, rfl⟩ := pure_eq_done.mp hlast
    refine exists_gather_of_runs hmember ((steps_eq_done fun h => ?_).mp hsteps)
    obtain ⟨-, s₁, htrue, hlast⟩ := nextMember_eq_done_some.mp h
    obtain ⟨a, ha, -⟩ := hmember.mp hlast
    have hle := (hmore _).length (begins_none _) htrue
    have hlt := hplain.length (hnext htrue) ha
    omega
  · rintro ⟨as, has, hfold⟩
    obtain ⟨first', hruns⟩ := runs_of_gather hmore hnext hplain hmember has hfold
    exact hruns.members_eq

end

/-! Lists of members. -/

theorem foldlM_cons_eq_some {as found last : List α} :
    as.foldlM (fun found a => some (a :: found)) found = some last ↔ last = as.reverse ++ found := by
  induction as generalizing found with
  | nil => exact Option.some_inj.trans eq_comm
  | cons a as ih =>
      rw [List.foldlM_cons, List.reverse_cons, List.append_assoc]
      exact ih

theorem members_list_eq_done {more : Bool → Reader Bool} {plain : Reader α}
    {member : List α → Reader (List α)} {next : Option Char}
    (hmore : ∀ first, Steady none 0 (more first))
    (hnext : ∀ {first s rest}, more first s = .done true rest → Begins next rest)
    (hplain : Steady next 1 plain)
    (hmember : ∀ found s, member found s = ((· :: found) <$> plain) s) {as : List α} :
    (do return (← members more member first []).reverse) s = .done as rest ↔
      Gather more plain first s as rest := by
  have hloop {last : List α} :
      members more member first [] s = .done last rest ↔ Gather more plain first s last.reverse rest := by
    have htakes : Takes (fun found a => some (a :: found)) plain member := by
      intro found last s rest
      rw [hmember, map_eq_done]
      simp only [Option.some_inj]
    rw [members_eq_done hmore hnext hplain htakes]
    simp only [foldlM_cons_eq_some, List.append_nil]
    exact ⟨fun ⟨as, has, hlast⟩ => by rwa [hlast, List.reverse_reverse],
      fun h => ⟨last.reverse, h, last.reverse_reverse.symm⟩⟩
  simp only [bind_eq_done, pure_eq_done]
  constructor
  · rintro ⟨last, _, hlast, rfl, rfl⟩
    exact hloop.mp hlast
  · intro h
    exact ⟨as.reverse, rest, hloop.mpr (by rwa [List.reverse_reverse]), as.reverse_reverse, rfl⟩

/-- An item of an array. -/
theorem itemList_eq_done {item : Reader α} (hitem : Steady none 1 item) {as : List α} :
    itemList first item s = .done as rest ↔ Gather moreItems item first s as rest :=
  members_list_eq_done steady_moreItems (fun _ => begins_none _) hitem fun _ _ => rfl

/-- An entry of an object, given a reader of its value. -/
def entry (value : Reader α) : Reader (String × α) := do
  let k ← key
  colon
  return (k, ← value)

theorem steady_entry {value : Reader α} (hvalue : Steady none 1 value) :
    Steady (some '"') 1 (entry value) :=
  steady_key.bind fun _ => steady_colon.taken_zero.bind fun _ =>
    hvalue.taken_zero.bind fun _ => .pure _

theorem entryList_eq_done {value : Reader α} (hvalue : Steady none 1 value)
    {as : List (String × α)} :
    entryList value s = .done as rest ↔ Gather moreEntries (entry value) true s as rest := by
  unfold entryList
  rw [entries_eq_members]
  refine members_list_eq_done steady_moreEntries moreEntries_eq_done_true (steady_entry hvalue) ?_
  intro found s
  show _ = (entry value >>= fun a => pure (a :: found)) s
  simp only [entry, bind_apply]
  cases key s with
  | failed => rfl
  | done k s₁ =>
      dsimp only
      cases colon s₁ with
      | failed => rfl
      | done _ s₂ =>
          dsimp only
          cases value s₂ <;> rfl

theorem entry_eq_done {value : Reader α} {e : String × α} :
    entry value s = .done e rest ↔ ∃ s₁ s₂, key s = .done e.1 s₁ ∧ colon s₁ = .done () s₂ ∧
      value s₂ = .done e.2 rest := by
  simp only [entry, bind_eq_done, pure_eq_done]
  constructor
  · rintro ⟨k, s₁, hk, _, s₂, hcolon, a, _, ha, rfl, rfl⟩
    exact ⟨s₁, s₂, hk, hcolon, ha⟩
  · rintro ⟨s₁, s₂, hk, hcolon, ha⟩
    exact ⟨e.1, s₁, hk, (), s₂, hcolon, e.2, rest, ha, rfl, rfl⟩

theorem entry_imp {value value' : Reader α} {e : String × α} (h : entry value s = .done e rest)
    (himp : ∀ {s rest}, value s = .done e.2 rest → value' s = .done e.2 rest) :
    entry value' s = .done e rest := by
  obtain ⟨s₁, s₂, hk, hcolon, ha⟩ := entry_eq_done.mp h
  exact entry_eq_done.mpr ⟨s₁, s₂, hk, hcolon, himp ha⟩

/-! Values. -/

/-- A value is read by readers of containers that read it where the first ones do. -/
theorem valueWith_imp {array object array' object' : Reader Json} {j : Json}
    (harray : ∀ {s rest}, array s = .done j rest → array' s = .done j rest)
    (hobject : ∀ {s rest}, object s = .done j rest → object' s = .done j rest)
    (h : valueWith array object s = .done j rest) :
    valueWith array' object' s = .done j rest := by
  obtain ⟨c, s₁, htoken, h⟩ := bind_eq_done.mp h
  refine bind_eq_done.mpr ⟨c, s₁, htoken, ?_⟩
  split at h
  next => exact h
  next => exact h
  next => exact h
  next => exact h
  next => exact h
  next => exact harray h
  next => exact hobject h
  next => exact h

/-- What starts with no opening bracket holds nothing. -/
theorem nesting_eq_zero_of_valueWith {array object : Reader Json} {j : Json} {c : Char}
    {tail : List Char} (hdrop : s.dropWhile isBlank = c :: tail) (harray : c ≠ '[')
    (hobject : c ≠ '\x7b') (h : valueWith array object s = .done j rest) :
    j.nesting = 0 := by
  have hword {expected s' : List Char} {leaf : Json} (hleaf : leaf.nesting = 0)
      (h : (do advance; word expected; pure leaf : Reader Json) s' = .done j rest) :
      j.nesting = 0 := by
    obtain ⟨_, _, -, h⟩ := bind_eq_done.mp h
    obtain ⟨_, _, -, h⟩ := bind_eq_done.mp h
    obtain ⟨rfl, -⟩ := pure_eq_done.mp h
    exact hleaf
  rw [valueWith, peekToken_bind_of_dropWhile hdrop] at h
  split at h
  next => exact hword rfl h
  next => exact hword rfl h
  next => exact hword rfl h
  next =>
      obtain ⟨_, _, -, h⟩ := bind_eq_done.mp h
      obtain ⟨_, -, rfl⟩ := map_eq_done.mp h
      rfl
  next =>
      obtain ⟨_, _, -, h⟩ := bind_eq_done.mp h
      obtain ⟨_, -, rfl⟩ := map_eq_done.mp h
      rfl
  next => exact absurd rfl harray
  next => exact absurd rfl hobject
  next =>
      split at h
      next =>
          obtain ⟨_, -, rfl⟩ := map_eq_done.mp h
          rfl
      next => exact absurd h failNext_ne_done

theorem typed_eq_done {judge : Json → Except Mismatch α} {a : α} :
    typed judge s = .done a rest ↔ ∃ j,
      valueWith (pure (.array [])) (pure (.object [])) s = .done j rest ∧ judge j = .ok a := by
  simp only [typed, bind_eq_done, placed_eq_done, judged_eq_done]
  constructor
  · rintro ⟨j, _, hj, ha, rfl⟩
    exact ⟨j, hj, ha⟩
  · rintro ⟨j, hj, ha⟩
    exact ⟨j, rest, hj, ha, rfl⟩

theorem inArray_eq_done {inside : Reader α} {a : α} :
    inArray inside s = .done a rest ↔
      ∃ s', inside s.tail = .done a s' ∧ closeArray s' = .done () rest :=
  placed_eq_done.trans closedBy_eq_done

theorem inObject_eq_done {inside : Reader α} {a : α} :
    inObject inside s = .done a rest ↔
      ∃ s', inside s.tail = .done a s' ∧ closeObject s' = .done () rest :=
  placed_eq_done.trans closedBy_eq_done

theorem value_array_eq_done {depth : Nat} {j : Json} :
    inArray (.array <$> itemList true (value depth)) s = .done j rest ↔
      ∃ items s', Gather moreItems (value depth) true s.tail items s' ∧
        closeArray s' = .done () rest ∧ .array items = j := by
  simp only [inArray_eq_done, map_eq_done, itemList_eq_done (steady_value depth)]
  exact ⟨fun ⟨s', ⟨items, hitems, hj⟩, hclose⟩ => ⟨items, s', hitems, hclose, hj⟩,
    fun ⟨items, s', hitems, hclose, hj⟩ => ⟨s', ⟨items, hitems, hj⟩, hclose⟩⟩

theorem value_object_eq_done {depth : Nat} {j : Json} :
    inObject (.object <$> entryList (value depth)) s = .done j rest ↔
      ∃ es s', Gather moreEntries (entry (value depth)) true s.tail es s' ∧
        closeObject s' = .done () rest ∧ .object es = j := by
  simp only [inObject_eq_done, map_eq_done, entryList_eq_done (steady_value depth)]
  exact ⟨fun ⟨s', ⟨es, hes, hj⟩, hclose⟩ => ⟨es, s', hes, hclose, hj⟩,
    fun ⟨es, s', hes, hclose, hj⟩ => ⟨s', ⟨es, hes, hj⟩, hclose⟩⟩

/-- Only what a value nests has to fit the depth at which it is read. -/
theorem value_of_nesting_le {d d' : Nat} {j : Json} (h : value d s = .done j rest)
    (hj : j.nesting ≤ d') :
    value d' s = .done j rest := by
  induction d generalizing d' s rest j with
  | zero =>
      have hdeep {s' rest' : List Char} : (tooDeep : Reader Json) s' ≠ .done j rest' :=
        failNext_ne_done
      cases d' <;> exact valueWith_imp (fun h => absurd h hdeep) (fun h => absurd h hdeep) h
  | succ d ih =>
      cases d' with
      | zero =>
          refine valueWith_imp (fun h => ?_) (fun h => ?_) h
          · obtain ⟨items, _, -, -, rfl⟩ := value_array_eq_done.mp h
            exact nomatch hj
          · obtain ⟨es, _, -, -, rfl⟩ := value_object_eq_done.mp h
            exact nomatch hj
      | succ d' =>
          refine valueWith_imp (fun h => ?_) (fun h => ?_) h
          · obtain ⟨items, s', hitems, hclose, rfl⟩ := value_array_eq_done.mp h
            have hdeep := nesting_array_le_iff.mp hj
            have hitems' := hitems.imp fun j hj _ _ h => ih h (hdeep j hj)
            exact value_array_eq_done.mpr ⟨items, s', hitems', hclose, rfl⟩
          · obtain ⟨es, s', hes, hclose, rfl⟩ := value_object_eq_done.mp h
            have hdeep := nesting_object_le_iff.mp hj
            have hes' := hes.imp fun e he _ _ h => entry_imp h fun h => ih h (hdeep e he)
            exact value_object_eq_done.mpr ⟨es, s', hes', hclose, rfl⟩

/-- A value nests no deeper than the depth at which it is read. -/
theorem nesting_le_of_value {d : Nat} {j : Json} (h : value d s = .done j rest) : j.nesting ≤ d := by
  induction d generalizing s rest j with
  | zero =>
      obtain ⟨c, _, htoken, htail⟩ := bind_eq_done.mp h
      obtain ⟨tail, hdrop, rfl⟩ := peekToken_eq_done.mp htoken
      have harray : c ≠ '[' := by
        rintro rfl
        exact failNext_ne_done htail
      have hobject : c ≠ '\x7b' := by
        rintro rfl
        exact failNext_ne_done htail
      exact (nesting_eq_zero_of_valueWith hdrop harray hobject h).le
  | succ d ih =>
      obtain ⟨c, _, htoken, htail⟩ := bind_eq_done.mp h
      obtain ⟨tail, hdrop, rfl⟩ := peekToken_eq_done.mp htoken
      by_cases harray : c = '['
      · subst harray
        obtain ⟨items, _, hitems, -, rfl⟩ := value_array_eq_done.mp htail
        exact nesting_array_le_iff.mpr (hitems.forall_mem ih)
      by_cases hobject : c = '\x7b'
      · subst hobject
        obtain ⟨es, _, hes, -, rfl⟩ := value_object_eq_done.mp htail
        refine nesting_object_le_iff.mpr (hes.forall_mem fun h => ?_)
        obtain ⟨_, _, -, -, hvalue⟩ := entry_eq_done.mp h
        exact ih hvalue
      · exact (nesting_eq_zero_of_valueWith hdrop harray hobject h).le.trans (Nat.zero_le _)

end Reader

end Json

end Mediation
