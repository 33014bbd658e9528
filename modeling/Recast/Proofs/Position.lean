import Mathlib
import Recast.Comment.Lexeme

/-!
Positions along a text.

Positions are ordered as they are read. `Position.inText` counts where the character at an offset of
a text stands: its line by the line breaks before it, its column by the characters since the last of
them. Going over the text character by character leads to the same place (`after_start`), and places
grow with the offset (`inText_lt_inText`), so that no two offsets have one position.
-/

namespace Recast.Position

variable {p q r : Position} {text : List Char}

/-! ### Reading order -/

theorem lt_iff : p < q ↔ p.line < q.line ∨ p.line = q.line ∧ p.column < q.column := Iff.rfl

theorem eq_of_not_lt (hpq : ¬ p < q) (hqp : ¬ q < p) : p = q := by
  rw [lt_iff] at hpq hqp
  have hline : p.line = q.line := by omega
  have hcolumn : p.column = q.column := by omega
  cases p
  cases q
  exact congrArg₂ Position.mk hline hcolumn

/-- Reading order is linear. -/
instance : LinearOrder Position where
  le p q := ¬ q < p
  le_refl p := by rw [lt_iff]; omega
  le_trans p q r := by simp only [lt_iff]; omega
  lt_iff_le_not_ge p q := by simp only [lt_iff]; omega
  le_antisymm p q hpq hqp := eq_of_not_lt hqp hpq
  le_total p q := by simp only [lt_iff]; omega
  toDecidableLE p q := inferInstanceAs (Decidable (¬ q < p))

theorem lt_next (p : Position) (c : Char) : p < p.next c := by
  rw [next]
  split <;> simp [lt_iff]

theorem after_append (p : Position) (a b : List Char) : p.after (a ++ b) = (p.after a).after b :=
  List.foldl_append

theorem le_after (p : Position) (text : List Char) : p ≤ p.after text := by
  induction text generalizing p with
  | nil => exact le_refl p
  | cons c rest ih => exact (lt_next p c).le.trans (ih (p.next c))

theorem lt_after (p : Position) (h : text ≠ []) : p < p.after text := by
  cases text with
  | nil => exact absurd rfl h
  | cons c rest => exact (lt_next p c).trans_le (le_after (p.next c) rest)

/-! ### Offsets -/

/-- Where the character at an offset of a text stands. -/
def inText (text : List Char) (offset : Nat) : Position where
  line := 1 + (text.take offset).count '\n'
  column := 1 + ((text.take offset).reverse.takeWhile (· ≠ '\n')).length

/-- Going over a text character by character ends where the text does. -/
theorem after_start (text : List Char) :
    (⟨1, 1⟩ : Position).after text = inText text text.length := by
  induction text using List.reverseRecOn with
  | nil => rfl
  | append_singleton text c ih =>
    rw [after_append, ih]
    simp only [after, List.foldl_cons, List.foldl_nil, next, inText, List.take_length]
    by_cases hc : c = '\n'
    · subst hc
      simp [add_assoc]
    · simp [hc, add_assoc]

theorem inText_eq (text : List Char) (offset : Nat) :
    inText text offset = (⟨1, 1⟩ : Position).after (text.take offset) := by
  rw [after_start]
  simp only [inText, List.take_length]

theorem inText_append (before rest : List Char) :
    inText (before ++ rest) before.length = (⟨1, 1⟩ : Position).after before := by
  rw [inText_eq, List.take_left]

/-- The end of a text without line breaks. -/
theorem after_start_of_line (h : '\n' ∉ text) :
    (⟨1, 1⟩ : Position).after text = ⟨1, text.length + 1⟩ := by
  have hline : text.reverse.takeWhile (· ≠ '\n') = text.reverse := by
    refine List.takeWhile_eq_self_iff.2 fun c hc => ?_
    simpa using ne_of_mem_of_not_mem (List.mem_reverse.1 hc) h
  rw [after_start, inText, List.take_length, List.count_eq_zero_of_not_mem h, hline,
    List.length_reverse, add_comm (text.length : Int) 1]
  rfl

/-- A later character has a later position. -/
theorem inText_lt_inText {i j : Nat} (hij : i < j) (hj : j ≤ text.length) :
    inText text i < inText text j := by
  have hsplit : text.take j = text.take i ++ (text.take j).drop i := by
    conv_lhs => rw [← List.take_append_drop i (text.take j), List.take_take, min_eq_left hij.le]
  have hbetween : (text.take j).drop i ≠ [] := by
    rw [ne_eq, List.drop_eq_nil_iff, List.length_take]
    omega
  rw [inText_eq, inText_eq, hsplit, after_append]
  exact lt_after _ hbetween

end Recast.Position
