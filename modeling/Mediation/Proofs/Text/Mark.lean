import Mathlib.Data.List.DropRight
import Mediation.Text.Mark

/-! Marks and spans. The mark of an offset is found by looking back for the last newline before it, a
span finds the line of its mark by counting newlines from the start of the text. Whole lines, a piece
of a line and whatever follows it are seen as such by both (`Mark.ofOffset_append`,
`Text.lineStart_append`), and every offset parts a text in this way (`Text.exists_append`). So the span
at the mark of an offset is the byte before the offset, or the byte behind it if a line starts there
(`Span.atMark_ofOffset`). -/

namespace Mediation

namespace Text

/-- The line that the offset is in starts at `start`: behind the last newline before the offset, or at
the start of the text if there is none. -/
structure IsLineStart (bytes : List UInt8) (offset start : Nat) : Prop where
  le : start ≤ offset
  behind : start = 0 ∨ bytes[start - 1]? = some newline
  clear : ∀ i, start ≤ i → i < offset → bytes[i]? ≠ some newline

/-- Nothing, or bytes of which the last one is a newline. -/
def WholeLines (front : List UInt8) : Prop := ∀ b ∈ front.getLast?, b = newline

variable {front line : List UInt8}

theorem WholeLines.tail {b : UInt8} (h : WholeLines (b :: front)) : WholeLines front :=
  fun c hc => h c (List.mem_getLast?_cons hc)

theorem WholeLines.eq_nil_or_concat (h : WholeLines front) :
    front = [] ∨ ∃ init, front = init ++ [newline] := by
  rcases front.eq_nil_or_concat' with rfl | ⟨init, b, rfl⟩
  · exact .inl rfl
  · exact .inr ⟨init, by rw [h b List.getLast?_concat]⟩

/-- Behind whole lines starts the line whose number is the number of newlines in them. -/
theorem lineStart_append (hfront : WholeLines front) (rest : List UInt8) :
    lineStart (front.count newline) (front ++ rest) = front.length := by
  induction front with
  | nil => rw [List.count_nil, lineStart, List.length_nil]
  | cons b front ih =>
      rw [List.cons_append, List.length_cons, Nat.add_comm, ← ih hfront.tail]
      by_cases hb : b = newline
      · rw [hb, List.count_cons_self, lineStart, if_pos rfl]
      · -- some newline is still to come, for the last byte is one
        have hmem : newline ∈ front := by
          rcases hfront.tail.eq_nil_or_concat with rfl | ⟨init, rfl⟩
          · exact absurd (hfront b rfl) hb
          · exact List.mem_concat_self
        obtain ⟨n, hn⟩ := Nat.exists_eq_add_one_of_ne_zero (List.count_pos_iff.mpr hmem).ne'
        rw [List.count_cons_of_ne hb, hn, lineStart, if_neg hb]

theorem isLineStart_append (hfront : WholeLines front) (hline : newline ∉ line) (rest : List UInt8) :
    IsLineStart (front ++ (line ++ rest)) (front.length + line.length) front.length where
  le := Nat.le_add_right _ _
  behind := by
    rcases hfront.eq_nil_or_concat with rfl | ⟨init, rfl⟩
    · exact .inl rfl
    · refine .inr ?_
      rw [List.length_append, List.length_singleton, Nat.add_sub_cancel, List.append_assoc,
        List.getElem?_append_right (Nat.le_refl _), Nat.sub_self]
      rfl
  clear i hle hlt := by
    have hi : i - front.length < line.length := by omega
    rw [List.getElem?_append_right hle, List.getElem?_append_left hi]
    exact fun h => hline (List.mem_of_getElem? h)

/-- An offset parts a text into whole lines, the piece of its own line before it, and the rest. -/
theorem exists_append {bytes : List UInt8} {i : Nat} (hi : i ≤ bytes.length) :
    ∃ front line rest, bytes = front ++ (line ++ rest) ∧ i = front.length + line.length ∧
      WholeLines front ∧ newline ∉ line := by
  have hbefore : (bytes.take i).rdropWhile (· ≠ newline) ++ (bytes.take i).rtakeWhile (· ≠ newline) =
      bytes.take i := List.rdropWhile_append_rtakeWhile
  refine ⟨(bytes.take i).rdropWhile (· ≠ newline), (bytes.take i).rtakeWhile (· ≠ newline),
    bytes.drop i, ?_, ?_, ?_, ?_⟩
  · rw [← List.append_assoc, hbefore, List.take_append_drop]
  · rw [← List.length_append, hbefore, List.length_take, Nat.min_eq_left hi]
  · intro b hb
    obtain ⟨hne, rfl⟩ := List.mem_getLast?_eq_getLast hb
    simpa using List.rdropWhile_last_not (· ≠ newline) (bytes.take i) hne
  · intro hmem
    simpa using List.mem_rtakeWhile_imp hmem

end Text

open Text

theorem Mark.ofOffset_append {front line : List UInt8} (hfront : WholeLines front)
    (hline : newline ∉ line) (rest : List UInt8) :
    ofOffset (front ++ (line ++ rest)) (front.length + line.length) =
      ⟨1 + front.count newline, line.length⟩ := by
  have hbefore : (front ++ (line ++ rest)).take (front.length + line.length) = front ++ line := by
    rw [← List.append_assoc, ← List.length_append, List.take_left]
  have hpiece : (front ++ line).reverse.takeWhile (· ≠ newline) = line.reverse := by
    have hstop : front.reverse.takeWhile (· ≠ newline) = [] := by
      rcases hfront.eq_nil_or_concat with rfl | ⟨init, rfl⟩
      · rfl
      · rw [List.reverse_concat]
        rfl
    rw [List.reverse_append, List.takeWhile_append_of_pos, hstop, List.append_nil]
    intro b hb
    exact decide_eq_true fun h => hline (h ▸ List.mem_reverse.mp hb)
  have hcount : (front ++ line).count newline = front.count newline := by
    rw [List.count_append, List.count_eq_zero.mpr hline, Nat.add_zero]
  simp only [ofOffset, hbefore, hcount]
  rw [hpiece, List.length_reverse]

namespace Span

/-- At the mark of a place in a line stands the byte before it; at the start of the line, the byte
behind it. -/
theorem atMark_append {front line : List UInt8} (hfront : WholeLines front) (rest : List UInt8) :
    atMark (front ++ (line ++ rest)) ⟨1 + front.count newline, line.length⟩ =
      if 1 ≤ line.length then ⟨front.length + line.length - 1, front.length + line.length⟩
      else ⟨front.length + line.length,
        min (front.length + line.length + 1) (front ++ (line ++ rest)).length⟩ := by
  simp only [atMark, Nat.add_sub_cancel_left, lineStart_append hfront, List.length_append]
  split <;> simp only [mk.injEq] <;> omega

theorem isEmpty_iff {s : Span} : s.isEmpty ↔ s.start = s.stop := decide_eq_true_iff

/-- The mark of an offset is its line and its column, and the span at that mark is the byte before the
offset, or the byte behind it at the start of a line. At whatever mark, a span lies in the text and is
one byte, or it is empty and at the end of the text. -/
theorem atMark_ofOffset (text : String) :
    (∀ i ≤ (bytes text).length, ∃ start, IsLineStart (bytes text) i start ∧
      Mark.ofOffset (bytes text) i = ⟨1 + ((bytes text).take start).count newline, i - start⟩ ∧
      atMark (bytes text) (Mark.ofOffset (bytes text) i) =
        if 1 ≤ i - start then ⟨i - 1, i⟩ else ⟨i, min (i + 1) (bytes text).length⟩) ∧
    ∀ mark : Mark, (atMark (bytes text) mark).start ≤ (atMark (bytes text) mark).stop ∧
      (atMark (bytes text) mark).stop ≤ (bytes text).length ∧
      (atMark (bytes text) mark).length ≤ 1 ∧
      ((atMark (bytes text) mark).isEmpty ↔
        (atMark (bytes text) mark).start = (bytes text).length) := by
  constructor
  · intro i hi
    obtain ⟨front, line, rest, hbytes, rfl, hfront, hline⟩ := exists_append hi
    have hmark := Mark.ofOffset_append hfront hline rest
    refine ⟨front.length, ?_⟩
    rw [hbytes, hmark, List.take_left, Nat.add_sub_cancel_left]
    exact ⟨isLineStart_append hfront hline rest, rfl, atMark_append hfront rest⟩
  · intro mark
    refine ⟨start_le_stop_atMark _ _, stop_atMark_le _ _, ?_, ?_⟩
    · simp only [length, atMark]
      omega
    · rw [isEmpty_iff]
      simp only [atMark]
      omega

/-- Just behind a newline the column is zero, and the span is the byte that follows. The character in
front of the newline takes two bytes. -/
theorem atMark_ofOffset_behind_newline :
    3 ≤ (bytes "é\n\x7b").length ∧ Mark.ofOffset (bytes "é\n\x7b") 3 = ⟨2, 0⟩ ∧
      atMark (bytes "é\n\x7b") ⟨2, 0⟩ = ⟨3, 4⟩ := by
  have hlen : (bytes "é\n\x7b").length = 4 := by decide
  have hmark : Mark.ofOffset (bytes "é\n\x7b") 3 = ⟨2, 0⟩ := by decide
  obtain ⟨start, hstart, hcolumn, hspan⟩ := (atMark_ofOffset "é\n\x7b").1 3 (by omega)
  have hzero : 3 - start = 0 := congrArg Mark.column (hcolumn.symm.trans hmark)
  rw [hmark, hzero, if_neg (by decide), hlen] at hspan
  exact ⟨by omega, hmark, hspan⟩

end Span

end Mediation
