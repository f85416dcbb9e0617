import Mediation.Flow.Basic

/-! Equality of flows is decidable. The comparison goes through both trees side by side, one
function for each type that stands between a flow and the flows it nests; `Flow.same_iff` says that
it answers yes exactly on equal flows. -/

namespace Mediation

namespace Flow

variable {τ : Type} [DecidableEq τ]

mutual

/-- Do the two flows agree in every node, every regex and every branch? -/
def same : Flow τ → Flow τ → Bool
  | ⟨n, ms⟩, ⟨n', ms'⟩ => n = n' && sameMediators ms ms'
termination_by structural f => f

def sameMediators : List (Mediator τ (Flow τ)) → List (Mediator τ (Flow τ)) → Bool
  | [], [] => true
  | m :: ms, m' :: ms' => sameMediator m m' && sameMediators ms ms'
  | _, _ => false
termination_by structural ms => ms

def sameMediator : Mediator τ (Flow τ) → Mediator τ (Flow τ) → Bool
  | ⟨n, k⟩, ⟨n', k'⟩ => n = n' && sameKind k k'
termination_by structural m => m

def sameKind : Kind τ (Flow τ) → Kind τ (Flow τ) → Bool
  | .simple, .simple => true
  | .filter a b, .filter a' b' => sameBranch a a' && sameBranch b b'
  | .throttle a b, .throttle a' b' => sameBranch a a' && sameBranch b b'
  | .switch cs d, .switch cs' d' => sameCases cs cs' && sameBranch d d'
  | .entitlement a b c d, .entitlement a' b' c' d' =>
      sameBranch a a' && sameBranch b b' && sameBranch c c' && sameBranch d d'
  | .cache a, .cache a' => sameBranch a a'
  | .validate a, .validate a' => sameBranch a a'
  | .iterate t, .iterate t' => sameTarget? t t'
  | .foreach a, .foreach a' => sameBranch a a'
  | .aggregate a, .aggregate a' => sameBranch a a'
  | .clone ts, .clone ts' => sameTargets ts ts'
  | .scatterGather ts, .scatterGather ts' => sameTargets ts ts'
  | _, _ => false
termination_by structural k => k

def sameBranch : Option (Flow τ) → Option (Flow τ) → Bool
  | none, none => true
  | some f, some f' => same f f'
  | _, _ => false
termination_by structural f => f

def sameCases : List (Case (Flow τ)) → List (Case (Flow τ)) → Bool
  | [], [] => true
  | c :: cs, c' :: cs' => sameCase c c' && sameCases cs cs'
  | _, _ => false
termination_by structural cs => cs

def sameCase : Case (Flow τ) → Case (Flow τ) → Bool
  | ⟨r, f⟩, ⟨r', f'⟩ => r = r' && sameBranch f f'
termination_by structural c => c

def sameTargets : List (Target τ (Flow τ)) → List (Target τ (Flow τ)) → Bool
  | [], [] => true
  | t :: ts, t' :: ts' => sameTarget t t' && sameTargets ts ts'
  | _, _ => false
termination_by structural ts => ts

def sameTarget? : Option (Target τ (Flow τ)) → Option (Target τ (Flow τ)) → Bool
  | none, none => true
  | some t, some t' => sameTarget t t'
  | _, _ => false
termination_by structural t => t

def sameTarget : Target τ (Flow τ) → Target τ (Flow τ) → Bool
  | ⟨n, f⟩, ⟨n', f'⟩ => n = n' && sameBranch f f'
termination_by structural t => t

end

mutual

theorem same_iff : ∀ f f' : Flow τ, same f f' = true ↔ f = f'
  | ⟨n, ms⟩, ⟨n', ms'⟩ => by simp [same, sameMediators_iff ms ms']

theorem sameMediators_iff :
    ∀ ms ms' : List (Mediator τ (Flow τ)), sameMediators ms ms' = true ↔ ms = ms'
  | [], [] => by simp [sameMediators]
  | [], _ :: _ => by simp [sameMediators]
  | _ :: _, [] => by simp [sameMediators]
  | m :: ms, m' :: ms' => by simp [sameMediators, sameMediator_iff m m', sameMediators_iff ms ms']

theorem sameMediator_iff : ∀ m m' : Mediator τ (Flow τ), sameMediator m m' = true ↔ m = m'
  | ⟨n, k⟩, ⟨n', k'⟩ => by simp [sameMediator, sameKind_iff k k']

theorem sameKind_iff : ∀ k k' : Kind τ (Flow τ), sameKind k k' = true ↔ k = k'
  | .simple, k' => by cases k' <;> simp [sameKind]
  | .filter a b, k' => by
    cases k' with
    | filter a' b' => simp [sameKind, sameBranch_iff a a', sameBranch_iff b b']
    | _ => simp [sameKind]
  | .throttle a b, k' => by
    cases k' with
    | throttle a' b' => simp [sameKind, sameBranch_iff a a', sameBranch_iff b b']
    | _ => simp [sameKind]
  | .switch cs d, k' => by
    cases k' with
    | switch cs' d' => simp [sameKind, sameCases_iff cs cs', sameBranch_iff d d']
    | _ => simp [sameKind]
  | .entitlement a b c d, k' => by
    cases k' with
    | entitlement a' b' c' d' =>
      simp [sameKind, sameBranch_iff a a', sameBranch_iff b b', sameBranch_iff c c',
        sameBranch_iff d d', and_assoc]
    | _ => simp [sameKind]
  | .cache a, k' => by
    cases k' with
    | cache a' => simp [sameKind, sameBranch_iff a a']
    | _ => simp [sameKind]
  | .validate a, k' => by
    cases k' with
    | validate a' => simp [sameKind, sameBranch_iff a a']
    | _ => simp [sameKind]
  | .iterate t, k' => by
    cases k' with
    | iterate t' => simp [sameKind, sameTarget?_iff t t']
    | _ => simp [sameKind]
  | .foreach a, k' => by
    cases k' with
    | foreach a' => simp [sameKind, sameBranch_iff a a']
    | _ => simp [sameKind]
  | .aggregate a, k' => by
    cases k' with
    | aggregate a' => simp [sameKind, sameBranch_iff a a']
    | _ => simp [sameKind]
  | .clone ts, k' => by
    cases k' with
    | clone ts' => simp [sameKind, sameTargets_iff ts ts']
    | _ => simp [sameKind]
  | .scatterGather ts, k' => by
    cases k' with
    | scatterGather ts' => simp [sameKind, sameTargets_iff ts ts']
    | _ => simp [sameKind]

theorem sameBranch_iff : ∀ f f' : Option (Flow τ), sameBranch f f' = true ↔ f = f'
  | none, none => by simp [sameBranch]
  | none, some _ => by simp [sameBranch]
  | some _, none => by simp [sameBranch]
  | some f, some f' => by simp [sameBranch, same_iff f f']

theorem sameCases_iff : ∀ cs cs' : List (Case (Flow τ)), sameCases cs cs' = true ↔ cs = cs'
  | [], [] => by simp [sameCases]
  | [], _ :: _ => by simp [sameCases]
  | _ :: _, [] => by simp [sameCases]
  | c :: cs, c' :: cs' => by simp [sameCases, sameCase_iff c c', sameCases_iff cs cs']

theorem sameCase_iff : ∀ c c' : Case (Flow τ), sameCase c c' = true ↔ c = c'
  | ⟨r, f⟩, ⟨r', f'⟩ => by simp [sameCase, sameBranch_iff f f']

theorem sameTargets_iff : ∀ ts ts' : List (Target τ (Flow τ)), sameTargets ts ts' = true ↔ ts = ts'
  | [], [] => by simp [sameTargets]
  | [], _ :: _ => by simp [sameTargets]
  | _ :: _, [] => by simp [sameTargets]
  | t :: ts, t' :: ts' => by simp [sameTargets, sameTarget_iff t t', sameTargets_iff ts ts']

theorem sameTarget?_iff : ∀ t t' : Option (Target τ (Flow τ)), sameTarget? t t' = true ↔ t = t'
  | none, none => by simp [sameTarget?]
  | none, some _ => by simp [sameTarget?]
  | some _, none => by simp [sameTarget?]
  | some t, some t' => by simp [sameTarget?, sameTarget_iff t t']

theorem sameTarget_iff : ∀ t t' : Target τ (Flow τ), sameTarget t t' = true ↔ t = t'
  | ⟨n, f⟩, ⟨n', f'⟩ => by simp [sameTarget, sameBranch_iff f f']

end

instance : DecidableEq (Flow τ) := fun f f' => decidable_of_iff _ (same_iff f f')

end Flow

end Mediation
