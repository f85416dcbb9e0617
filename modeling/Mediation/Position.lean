/-! Positions in the markup of an artifact. A position is a line and a column, both of 32 bits;
positions are ordered line first, and everything that is said about containment, nesting and order
of elements is said through this order. -/

namespace Mediation

/-- A line and a column of a markup file, as a debugger or an editor reports them. -/
structure Position where
  line : UInt32
  column : UInt32
  deriving DecidableEq, Repr

namespace Position

instance : LT Position where
  lt a b := a.line < b.line ∨ (a.line = b.line ∧ a.column < b.column)

instance : LE Position where
  le a b := a.line < b.line ∨ (a.line = b.line ∧ a.column ≤ b.column)

instance (a b : Position) : Decidable (a < b) :=
  inferInstanceAs (Decidable (a.line < b.line ∨ (a.line = b.line ∧ a.column < b.column)))

instance (a b : Position) : Decidable (a ≤ b) :=
  inferInstanceAs (Decidable (a.line < b.line ∨ (a.line = b.line ∧ a.column ≤ b.column)))

instance : Ord Position where
  compare a b := (compare a.line b.line).then (compare a.column b.column)

instance : ToString Position where
  toString p := toString p.line ++ ":" ++ toString p.column

/-- The rank of a position among all positions: the view through which the order is linear
arithmetic. -/
def rank (p : Position) : Nat := p.line.toNat * UInt32.size + p.column.toNat

theorem lt_iff_rank_lt {a b : Position} : a < b ↔ a.rank < b.rank := by
  have ha := a.column.toNat_lt
  have hb := b.column.toNat_lt
  show (a.line < b.line ∨ (a.line = b.line ∧ a.column < b.column)) ↔ _
  simp only [rank, UInt32.size, UInt32.lt_iff_toNat_lt, ← UInt32.toNat_inj]
  omega

theorem le_iff_rank_le {a b : Position} : a ≤ b ↔ a.rank ≤ b.rank := by
  have ha := a.column.toNat_lt
  have hb := b.column.toNat_lt
  show (a.line < b.line ∨ (a.line = b.line ∧ a.column ≤ b.column)) ↔ _
  simp only [rank, UInt32.size, UInt32.lt_iff_toNat_lt, UInt32.le_iff_toNat_le, ← UInt32.toNat_inj]
  omega

theorem rank_inj {a b : Position} : a.rank = b.rank ↔ a = b := by
  refine ⟨fun h => ?_, fun h => h ▸ rfl⟩
  have ha := a.column.toNat_lt
  have hb := b.column.toNat_lt
  obtain ⟨la, ca⟩ := a
  obtain ⟨lb, cb⟩ := b
  simp only [rank, UInt32.size] at h ha hb
  have hl : la.toNat = lb.toNat := by omega
  have hc : ca.toNat = cb.toNat := by omega
  rw [UInt32.toNat_inj.mp hl, UInt32.toNat_inj.mp hc]

end Position

end Mediation
