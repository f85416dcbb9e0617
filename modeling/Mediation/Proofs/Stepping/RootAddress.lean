import Mathlib.Data.List.Basic
import Mediation.Artifact

/-! Root flows by address. Two root flows may look the same, so a root flow is named by where it is
in the artifact. The root flows that a position steps through are those at certain addresses
(`Artifact.flowsAt_eq`), and what is at any other address does not matter, as long as it does not
hold the position (`Artifact.flowsAt_of_withRoot?`). -/

namespace Mediation

/-- The three sequences of a resource or of a proxy's target. -/
inductive SequenceRole where
  | inSequence
  | outSequence
  | faultSequence
  deriving DecidableEq, Repr

/-- The roles in document order. -/
def SequenceRole.all : List SequenceRole := [inSequence, outSequence, faultSequence]

/-- Where a root flow is in an artifact. -/
inductive RootAddress where
  | resource (index : Nat) (role : SequenceRole)
  | target (role : SequenceRole)
  | body
  deriving DecidableEq, Repr

/-- The first hit of a search is the same if only what was not hit is changed, and to no hit. -/
theorem find?_congr_of_ne {α : Type} {P Q : α → Bool} {x : α} {l : List α}
    (hx : l.find? P ≠ some x) (hQ : Q x = false) (h : ∀ y, y ≠ x → Q y = P y) :
    l.find? Q = l.find? P := by
  induction l with
  | nil => rfl
  | cons a l ih =>
      rw [List.find?_cons] at hx
      rw [List.find?_cons, List.find?_cons]
      by_cases ha : a = x
      · subst ha
        cases hP : P a with
        | true => simp [hP] at hx
        | false =>
            rw [hP] at hx
            rw [hQ]
            exact ih hx
      · rw [h a ha]
        cases hP : P a with
        | true => rfl
        | false =>
            rw [hP] at hx
            exact ih hx

theorem map_set_of_eq {α β : Type} {f : α → β} {l : List α} {i : Nat} {a b : α}
    (h : l[i]? = some a) (hf : f b = f a) :
    (l.set i b).map f = l.map f := by
  obtain ⟨hi, rfl⟩ := List.getElem?_eq_some_iff.mp h
  have hi' : i < (l.map f).length := by rw [List.length_map]; exact hi
  rw [List.map_set, hf, ← List.getElem_map f (h := hi'), List.set_getElem_self]

namespace Sequences

variable {τ : Type}

def get? (s : Sequences τ) : SequenceRole → Option (Flow τ)
  | .inSequence => s.inSequence
  | .outSequence => s.outSequence
  | .faultSequence => s.faultSequence

def set (s : Sequences τ) (flow : Option (Flow τ)) : SequenceRole → Sequences τ
  | .inSequence => { s with inSequence := flow }
  | .outSequence => { s with outSequence := flow }
  | .faultSequence => { s with faultSequence := flow }

def holds (s : Sequences τ) (p : Position) (role : SequenceRole) : Bool := (s.get? role).any (p ∈ ·)

/-- Of a resource, the first sequence that holds the position. -/
def apiRolesAt (s : Sequences τ) (p : Position) : List SequenceRole :=
  (SequenceRole.all.find? (s.holds p)).toList

/-- Of a proxy, the in and out sequences if one of them holds the position, and otherwise the fault
sequence if that does. -/
def proxyRolesAt (s : Sequences τ) (p : Position) : List SequenceRole :=
  if s.holds p .inSequence || s.holds p .outSequence then
    [SequenceRole.inSequence, .outSequence].filter fun role => (s.get? role).isSome
  else [SequenceRole.faultSequence].filter (s.holds p)

@[simp] theorem get?_set_self (s : Sequences τ) (flow : Option (Flow τ)) (role : SequenceRole) :
    (s.set flow role).get? role = flow := by
  cases role <;> rfl

theorem get?_set_of_ne (s : Sequences τ) (flow : Option (Flow τ)) {role role' : SequenceRole}
    (h : role' ≠ role) :
    (s.set flow role).get? role' = s.get? role' := by
  revert h
  cases role <;> cases role' <;> simp [get?, set]

theorem toList_eq (s : Sequences τ) : s.toList = SequenceRole.all.filterMap s.get? := by
  obtain ⟨inSequence, outSequence, faultSequence⟩ := s
  cases inSequence <;> cases outSequence <;> cases faultSequence <;> rfl

theorem apiFlowsAt_eq (s : Sequences τ) (p : Position) :
    s.apiFlowsAt p = (s.apiRolesAt p).filterMap s.get? := by
  rw [apiFlowsAt, apiRolesAt, toList_eq, List.find?_filterMap]
  show ((SequenceRole.all.find? (s.holds p)).bind s.get?).toList = _
  cases SequenceRole.all.find? (s.holds p) with
  | none => rfl
  | some role => cases h : s.get? role <;> simp [h]

theorem proxyFlowsAt_eq (s : Sequences τ) (p : Position) :
    s.proxyFlowsAt p = (s.proxyRolesAt p).filterMap s.get? := by
  obtain ⟨inSequence, outSequence, faultSequence⟩ := s
  rw [proxyFlowsAt, proxyRolesAt]
  show (if inSequence.any (p ∈ ·) || outSequence.any (p ∈ ·) then _ else _) =
    List.filterMap _ (if inSequence.any (p ∈ ·) || outSequence.any (p ∈ ·) then _ else _)
  split
  next => cases inSequence <;> cases outSequence <;> rfl
  next =>
      cases faultSequence with
      | none => rfl
      | some f => by_cases hp : p ∈ f <;> simp [holds, get?, hp]

variable {s : Sequences τ} {p : Position} {role : SequenceRole} {flow : Option (Flow τ)}

theorem holds_set_self (hflow : ∀ f ∈ flow, p ∉ f) : (s.set flow role).holds p role = false := by
  rw [holds, get?_set_self]
  cases flow with
  | none => rfl
  | some f => exact decide_eq_false (hflow f rfl)

theorem holds_set_of_ne {role' : SequenceRole} (h : role' ≠ role) :
    (s.set flow role).holds p role' = s.holds p role' := by
  rw [holds, get?_set_of_ne s flow h, holds]

theorem holds_set_eq_false {role' : SequenceRole} (hflow : ∀ f ∈ flow, p ∉ f)
    (h : s.holds p role' = false) :
    (s.set flow role).holds p role' = false := by
  by_cases hrole : role' = role
  · rw [hrole]
    exact holds_set_self hflow
  · rw [holds_set_of_ne hrole]
    exact h

/-- Another flow for a role that an api does not run from the position leaves it with the same
sequence to run, if the flow does not hold the position. -/
theorem apiRolesAt_set (hrole : role ∉ s.apiRolesAt p) (hflow : ∀ f ∈ flow, p ∉ f) :
    (s.set flow role).apiRolesAt p = s.apiRolesAt p := by
  rw [apiRolesAt, Option.mem_toList] at hrole
  rw [apiRolesAt, apiRolesAt, find?_congr_of_ne hrole (holds_set_self hflow)]
  exact fun role' h => holds_set_of_ne h

/-- The same for a proxy. A flow that is there and not run is the fault sequence, or neither the in
nor the out sequence is run. -/
theorem proxyRolesAt_set (hpresent : (s.get? role).isSome) (hrole : role ∉ s.proxyRolesAt p)
    (hflow : ∀ f ∈ flow, p ∉ f) :
    (s.set flow role).proxyRolesAt p = s.proxyRolesAt p := by
  rw [proxyRolesAt] at hrole ⊢
  rw [proxyRolesAt]
  cases hinout : s.holds p .inSequence || s.holds p .outSequence with
  | true =>
      rw [if_pos hinout, List.mem_filter] at hrole
      obtain rfl : role = .faultSequence := by
        cases role with
        | inSequence => exact absurd ⟨by simp, hpresent⟩ hrole
        | outSequence => exact absurd ⟨by simp, hpresent⟩ hrole
        | faultSequence => rfl
      rw [holds_set_of_ne (by decide), holds_set_of_ne (by decide), hinout]
      rfl
  | false =>
      rw [hinout] at hrole
      obtain ⟨hin, hout⟩ := Bool.or_eq_false_iff.mp hinout
      rw [holds_set_eq_false hflow hin, holds_set_eq_false hflow hout]
      show [SequenceRole.faultSequence].filter _ = [SequenceRole.faultSequence].filter _
      cases hfault : s.holds p .faultSequence with
      | true =>
          have hne : .faultSequence ≠ role := by
            rintro rfl
            simp [hfault] at hrole
          rw [List.filter_singleton, List.filter_singleton, holds_set_of_ne hne]
      | false =>
          have hfault' : (s.set flow role).holds p .faultSequence = false :=
            holds_set_eq_false hflow hfault
          rw [List.filter_singleton, List.filter_singleton, hfault, hfault']

end Sequences

namespace Artifact

variable {τ : Type}

/-- The root flow at an address. -/
def root? : Artifact τ → RootAddress → Option (Flow τ)
  | api _ _ resources, .resource index role => resources[index]?.bind (·.sequences.get? role)
  | proxy _ _ target, .target role => target.bind (·.sequences.get? role)
  | sequence _ body, .body => some body
  | template _ _ body, .body => body
  | _, _ => none

/-- The artifact with another root flow at an address, or with none there. There is no such artifact
if it has no such address, and a named sequence is not without its body. -/
def withRoot? : Artifact τ → RootAddress → Option (Flow τ) → Option (Artifact τ)
  | api name node resources, .resource index role, flow =>
      resources[index]?.map fun r =>
        api name node (resources.set index { r with sequences := r.sequences.set flow role })
  | proxy name node target, .target role, flow =>
      target.map fun t => proxy name node (some { t with sequences := t.sequences.set flow role })
  | sequence name _, .body, flow => flow.map (sequence name)
  | template name node _, .body, flow => some (template name node flow)
  | _, _, _ => none

/-- The addresses of the root flows that a position steps through, in the order control takes them:
for an api in the first resource that holds the position. -/
def rootsAt (a : Artifact τ) (p : Position) : List RootAddress :=
  match a with
  | api _ _ resources =>
      (resources.findIdx? (p ∈ ·.node.range)).toList.flatMap fun index =>
        (resources[index]?.toList.flatMap (·.sequences.apiRolesAt p)).map (.resource index)
  | proxy _ _ target => (target.toList.flatMap (·.sequences.proxyRolesAt p)).map .target
  | sequence _ body => if p ∈ body then [.body] else []
  | template _ _ body => if body.any (p ∈ ·) then [.body] else []

/-- The flows that a position steps through are those at the addresses. -/
theorem flowsAt_eq (a : Artifact τ) (p : Position) :
    a.flowsAt p = (a.rootsAt p).filterMap a.root? := by
  cases a with
  | api name node resources =>
      rw [flowsAt, rootsAt, List.find?_eq_bind_findIdx?_getElem?]
      cases h : resources.findIdx? (p ∈ ·.node.range) with
      | none => rfl
      | some index =>
          obtain ⟨hindex, -, -⟩ := List.findIdx?_eq_some_iff_getElem.mp h
          have hresource : resources[index]? = some resources[index] :=
            List.getElem?_eq_getElem hindex
          rw [Option.bind_some, hresource]
          simp only [Option.toList_some, List.flatMap_singleton, List.filterMap_map,
            Sequences.apiFlowsAt_eq, hresource]
          refine List.filterMap_congr fun role _ => ?_
          rw [Function.comp_apply, root?, hresource, Option.bind_some]
  | proxy name node target =>
      cases target with
      | none => rfl
      | some t =>
          simp only [flowsAt, rootsAt, Option.toList_some, List.flatMap_singleton,
            List.filterMap_map, Sequences.proxyFlowsAt_eq]
          rfl
  | sequence name body => by_cases hp : p ∈ body <;> simp [flowsAt, rootsAt, root?, hp]
  | template name node body =>
      cases body with
      | none => rfl
      | some body => by_cases hp : p ∈ body <;> simp [flowsAt, rootsAt, root?, hp]

variable {a a' : Artifact τ} {address : RootAddress} {flow : Option (Flow τ)}

theorem exists_withRoot? {f : Flow τ} (h : a.root? address = some f)
    (hflow : a.kind = .sequence → flow ≠ none) :
    ∃ a', a.withRoot? address flow = some a' := by
  cases a with
  | api name node resources =>
      cases address with
      | resource index role =>
          obtain ⟨r, hr, -⟩ := Option.bind_eq_some_iff.mp h
          exact ⟨_, Option.map_eq_some_iff.mpr ⟨r, hr, rfl⟩⟩
      | _ => cases h
  | proxy name node target =>
      cases address with
      | target role =>
          obtain ⟨t, ht, -⟩ := Option.bind_eq_some_iff.mp h
          exact ⟨_, Option.map_eq_some_iff.mpr ⟨t, ht, rfl⟩⟩
      | _ => cases h
  | sequence name body =>
      cases address with
      | body =>
          obtain ⟨f', rfl⟩ := Option.ne_none_iff_exists'.mp (hflow rfl)
          exact ⟨_, rfl⟩
      | _ => cases h
  | template name node body =>
      cases address with
      | body => exact ⟨_, rfl⟩
      | _ => cases h

theorem root?_of_withRoot? (h : a.withRoot? address flow = some a') :
    a'.root? address = flow ∧ ∀ other, other ≠ address → a'.root? other = a.root? other := by
  unfold withRoot? at h
  split at h
  next _ name node resources index role =>
      obtain ⟨r, hr, rfl⟩ := Option.map_eq_some_iff.mp h
      obtain ⟨hindex, -⟩ := List.getElem?_eq_some_iff.mp hr
      constructor
      · rw [root?, List.getElem?_set_self hindex, Option.bind_some, Sequences.get?_set_self]
      · intro other hother
        cases other with
        | resource index' role' =>
            by_cases heq : index' = index
            · subst heq
              have hrole : role' ≠ role := fun heq => hother (heq ▸ rfl)
              rw [root?, root?, List.getElem?_set_self hindex, hr, Option.bind_some,
                Option.bind_some, Sequences.get?_set_of_ne _ _ hrole]
            · rw [root?, root?, List.getElem?_set_ne (Ne.symm heq)]
        | _ => rfl
  next _ name node target role =>
      obtain ⟨t, rfl, rfl⟩ := Option.map_eq_some_iff.mp h
      refine ⟨Sequences.get?_set_self _ _ _, fun other hother => ?_⟩
      cases other with
      | target role' => exact Sequences.get?_set_of_ne _ _ fun heq => hother (heq ▸ rfl)
      | _ => rfl
  next _ name body =>
      obtain ⟨f, rfl, rfl⟩ := Option.map_eq_some_iff.mp h
      refine ⟨rfl, fun other hother => ?_⟩
      cases other with
      | body => exact absurd rfl hother
      | _ => rfl
  next _ name node body =>
      obtain rfl := Option.some.inj h
      refine ⟨rfl, fun other hother => ?_⟩
      cases other with
      | body => exact absurd rfl hother
      | _ => rfl
  next => cases h

/-- Another root flow at an address that a position does not step through does not change which
addresses it steps through, if the flow does not hold the position. -/
theorem rootsAt_of_withRoot? {p : Position} (h : a.withRoot? address flow = some a')
    (hpresent : (a.root? address).isSome) (haddress : address ∉ a.rootsAt p)
    (hflow : ∀ f ∈ flow, p ∉ f) :
    a'.rootsAt p = a.rootsAt p := by
  unfold withRoot? at h
  split at h
  next _ name node resources index role =>
      obtain ⟨r, hr, rfl⟩ := Option.map_eq_some_iff.mp h
      -- The ranges of the resources are the same, and so is the first resource that is looked for.
      have hfind : (resources.set index { r with sequences := r.sequences.set flow role }).findIdx?
          (p ∈ ·.node.range) = resources.findIdx? (p ∈ ·.node.range) := by
        have hranges := map_set_of_eq (f := (·.node.range)) hr
          (b := { r with sequences := r.sequences.set flow role }) rfl
        have hmap := congrArg (List.findIdx? (p ∈ ·)) hranges
        rw [List.findIdx?_map, List.findIdx?_map] at hmap
        exact hmap
      rw [rootsAt] at haddress ⊢
      rw [rootsAt, hfind]
      cases hfirst : resources.findIdx? (p ∈ ·.node.range) with
      | none => rfl
      | some first =>
          rw [Option.toList_some, List.flatMap_singleton, List.flatMap_singleton]
          by_cases heq : first = index
          · subst heq
            obtain ⟨hindex, -⟩ := List.getElem?_eq_some_iff.mp hr
            have hrole : role ∉ r.sequences.apiRolesAt p := fun hrole =>
              haddress (by simpa [hfirst, hr] using hrole)
            rw [List.getElem?_set_self hindex, hr]
            simp only [Option.toList_some, List.flatMap_singleton,
              Sequences.apiRolesAt_set hrole hflow]
          · rw [List.getElem?_set_ne (Ne.symm heq)]
  next _ name node target role =>
      obtain ⟨t, rfl, rfl⟩ := Option.map_eq_some_iff.mp h
      have hrole : role ∉ t.sequences.proxyRolesAt p := fun hrole =>
        haddress (List.mem_map_of_mem (by simpa using hrole))
      simp only [rootsAt, Option.toList_some, List.flatMap_singleton,
        Sequences.proxyRolesAt_set hpresent hrole hflow]
  next _ name body =>
      obtain ⟨f, rfl, rfl⟩ := Option.map_eq_some_iff.mp h
      have hbody : p ∉ body := fun hp => haddress (by simp [rootsAt, hp])
      simp [rootsAt, hflow f rfl, hbody]
  next _ name node body =>
      obtain rfl := Option.some.inj h
      have hbody : ¬body.any (p ∈ ·) = true := fun hp => haddress (by simp [rootsAt, hp])
      have hflow' : ¬flow.any (p ∈ ·) = true := by
        cases flow with
        | none => exact Bool.false_ne_true
        | some f => simpa using hflow f rfl
      rw [rootsAt, rootsAt, if_neg hbody, if_neg hflow']
  next => cases h

/-- A root flow that a position does not step through may be another flow that does not hold the
position, or be absent. -/
theorem flowsAt_of_withRoot? {p : Position} (h : a.withRoot? address flow = some a')
    (hpresent : (a.root? address).isSome) (haddress : address ∉ a.rootsAt p)
    (hflow : ∀ f ∈ flow, p ∉ f) :
    a'.flowsAt p = a.flowsAt p :=
  calc
    a'.flowsAt p = (a'.rootsAt p).filterMap a'.root? := a'.flowsAt_eq p
    _ = (a.rootsAt p).filterMap a'.root? := by
      rw [rootsAt_of_withRoot? h hpresent haddress hflow]
    _ = (a.rootsAt p).filterMap a.root? := by
      apply List.filterMap_congr
      intro other hother
      apply (root?_of_withRoot? h).2
      rintro rfl
      exact haddress hother
    _ = a.flowsAt p := (a.flowsAt_eq p).symm

end Artifact

end Mediation
