import Mediation.Document.Finding

/-! Values with findings. What is found on the way to a value is found step by step, so a property of
all findings (`Noted.All`) is told by what the steps find; the values of the steps are told without
their findings. -/

namespace Mediation

namespace Noted

variable {α β : Type}

/-- Every finding on the way to the value has the property. -/
def All (P : Finding → Prop) (x : Noted α) : Prop := ∀ f ∈ x.findings, P f

instance : LawfulMonad Noted :=
  LawfulMonad.mk' Noted
    (fun x => by
      show (⟨x.value, x.findings ++ []⟩ : Noted _) = x
      rw [List.append_nil])
    (fun a f => rfl)
    (fun x f g => by
      show (⟨_, (x.findings ++ _) ++ _⟩ : Noted _) = ⟨_, x.findings ++ (_ ++ _)⟩
      rw [List.append_assoc]
      rfl)

variable {P : Finding → Prop}

@[simp] theorem all_pure (a : α) : (pure a : Noted α).All P := by simp [All]

@[simp] theorem all_note (f : Finding) : (note f).All P ↔ P f := by simp [All, note]

@[simp] theorem all_bind (x : Noted α) (f : α → Noted β) :
    (x >>= f).All P ↔ x.All P ∧ (f x.value).All P := by
  simp only [All, findings_bind, List.forall_mem_append]

@[simp] theorem value_map (f : α → β) (x : Noted α) : (f <$> x).value = f x.value := rfl

@[simp] theorem all_map (f : α → β) (x : Noted α) : (f <$> x).All P ↔ x.All P := by
  rw [map_eq_pure_bind, all_bind]
  simp only [all_pure, and_true]

@[simp] theorem value_mapM (f : α → Noted β) (l : List α) :
    (l.mapM f).value = l.map fun a => (f a).value := by
  induction l with
  | nil => rfl
  | cons a l ih => rw [List.mapM_cons, value_bind, value_bind, value_pure, ih, List.map_cons]

@[simp] theorem all_mapM (f : α → Noted β) (l : List α) :
    (l.mapM f).All P ↔ ∀ a ∈ l, (f a).All P := by
  induction l with
  | nil => simp
  | cons a l ih =>
      rw [List.mapM_cons, all_bind, all_bind, ih, List.forall_mem_cons]
      simp only [all_pure, and_true]

@[simp] theorem value_mapM_option (f : α → Noted β) (o : Option α) :
    (o.mapM f).value = o.map fun a => (f a).value := by
  cases o <;> rfl

@[simp] theorem all_mapM_option (f : α → Noted β) (o : Option α) :
    (o.mapM f).All P ↔ ∀ a ∈ o, (f a).All P := by
  cases o with
  | none => simp
  | some a =>
      rw [Option.mapM_some, all_map]
      simp

@[simp] theorem all_forM (f : α → Noted Unit) (l : List α) :
    (forM l f).All P ↔ ∀ a ∈ l, (f a).All P := by
  induction l with
  | nil => simp
  | cons a l ih => rw [List.forM_cons, all_bind, ih, List.forall_mem_cons]

/-! What is found in a list of steps is what is found in each, one after the other. -/

@[simp] theorem findings_map (f : α → β) (x : Noted α) : (f <$> x).findings = x.findings := by
  rw [map_eq_pure_bind, findings_bind, findings_pure, List.append_nil]

theorem findings_mapM (f : α → Noted β) (l : List α) :
    (l.mapM f).findings = l.flatMap fun a => (f a).findings := by
  induction l with
  | nil => rfl
  | cons a l ih =>
      rw [List.mapM_cons, findings_bind, findings_bind, findings_pure, List.append_nil, ih,
        List.flatMap_cons]

theorem findings_mapM_option (f : α → Noted β) (o : Option α) :
    (o.mapM f).findings = o.toList.flatMap fun a => (f a).findings := by
  cases o with
  | none => rfl
  | some a => rw [Option.mapM_some, findings_map, Option.toList_some, List.flatMap_singleton]

theorem findings_forM_note (f : α → Finding) (l : List α) :
    (l.forM fun a => note (f a)).findings = l.map f := by
  induction l with
  | nil => rfl
  | cons a l ih =>
      rw [List.forM_eq_forM] at ih ⊢
      rw [List.forM_cons, findings_bind, ih]
      rfl

end Noted

end Mediation
