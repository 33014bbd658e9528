import Mathlib
import Recast.Proofs.Grammar.Token

/-!
Numerals of Java and of TypeScript, with their values.

Both languages write numbers with runs of digits (`IsRun`), in which underscores stand between the
digits. A decimal number has a mantissa and perhaps an exponent (`IsMantissa`, `IsExponent`), and its
integer part has no zero in front of another digit. The languages differ in what they write before
and after: Java has octal numbers that start with a zero, and letters that name the type of a number
(`IsJavaNumber`); TypeScript marks octal numbers by a letter, and no two underscores stand together
(`IsScriptNumber`). The value of a numeral is the number that it writes down, before it is fitted
into a type.
-/

namespace Recast.Grammar

/-! ### Digits -/

/-- The value of a digit of a base up to sixteen. -/
def digit? (base : Nat) (c : Char) : Option Nat :=
  let n := c.toNat
  let value :=
    if 0x30 ≤ n ∧ n ≤ 0x39 then n - 0x30
    else if 0x61 ≤ n ∧ n ≤ 0x66 then n - 0x61 + 10
    else if 0x41 ≤ n ∧ n ≤ 0x46 then n - 0x41 + 10
    else base
  if value < base then some value else none

/-- The digits of a text, without what stands between them. -/
def digitsOf (base : Nat) (text : List Char) : List Nat := text.filterMap (digit? base)

/-- The number that the digits of a text write down. -/
def wholeValue (base : Nat) (text : List Char) : Nat := Nat.ofDigits base (digitsOf base text).reverse

/-- The fraction that the digits behind a point write down. -/
def fractionValue (text : List Char) : ℚ := wholeValue 10 text / 10 ^ (digitsOf 10 text).length

/-- Whether a text is made of digits with underscores between them. -/
structure IsRun (base : Nat) (text : List Char) : Prop where
  digits : ∀ c ∈ text, c = '_' ∨ (digit? base c).isSome
  nonempty : text ≠ []
  first : text.head? ≠ some '_'
  last : text.getLast? ≠ some '_'

/-! ### Decimal numbers -/

/-- Whether a text is a decimal integer without a zero in front of another digit. -/
def IsWhole (text : List Char) : Prop := text = ['0'] ∨ IsRun 10 text ∧ text.head? ≠ some '0'

/-- The part of a decimal number before its exponent. -/
inductive IsMantissa : List Char → ℚ → Prop where
  | whole {digits : List Char} : IsWhole digits → IsMantissa digits (wholeValue 10 digits)
  | point {digits : List Char} : IsWhole digits → IsMantissa (digits ++ ['.']) (wholeValue 10 digits)
  | fraction {digits part : List Char} : IsWhole digits → IsRun 10 part →
    IsMantissa (digits ++ '.' :: part) (wholeValue 10 digits + fractionValue part)
  | part {part : List Char} : IsRun 10 part → IsMantissa ('.' :: part) (fractionValue part)

/-- The exponent of a decimal number, or nothing. -/
inductive IsExponent : List Char → ℤ → Prop where
  | none : IsExponent [] 0
  | up {mark : Char} {sign digits : List Char} : mark ∈ ['e', 'E'] → sign ∈ [[], ['+']] →
    IsRun 10 digits → IsExponent (mark :: (sign ++ digits)) (wholeValue 10 digits)
  | down {mark : Char} {digits : List Char} : mark ∈ ['e', 'E'] → IsRun 10 digits →
    IsExponent (mark :: '-' :: digits) (-wholeValue 10 digits)

/-! ### The two languages -/

/-- The integers of Java, without the letter at their end. -/
inductive IsJavaInteger : List Char → ℕ → Prop where
  | decimal {digits : List Char} : IsWhole digits → IsJavaInteger digits (wholeValue 10 digits)
  | marked {mark : Char} {base : Nat} {digits : List Char} :
    (mark, base) ∈ [('x', 16), ('X', 16), ('b', 2), ('B', 2)] → IsRun base digits →
    IsJavaInteger ('0' :: mark :: digits) (wholeValue base digits)
  | octal {digits : List Char} : digits ≠ [] → IsRun 8 ('0' :: digits) →
    IsJavaInteger ('0' :: digits) (wholeValue 8 ('0' :: digits))

/-- The numbers of Java: integers, and decimal numbers. Without point, exponent and letter a decimal
number is an integer. -/
inductive IsJavaNumber : List Char → ℚ → Prop where
  | integer {digits suffix : List Char} {value : ℕ} : IsJavaInteger digits value →
    suffix ∈ [[], ['l'], ['L']] → IsJavaNumber (digits ++ suffix) value
  | decimal {mantissa exponent suffix : List Char} {m : ℚ} {e : ℤ} : IsMantissa mantissa m →
    IsExponent exponent e → suffix ∈ [[], ['f'], ['F'], ['d'], ['D']] →
    IsJavaNumber (mantissa ++ exponent ++ suffix) (m * 10 ^ e)

/-- The numbers of TypeScript, however many underscores stand together. -/
inductive IsNumeral : List Char → ℚ → Prop where
  | decimal {mantissa exponent : List Char} {m : ℚ} {e : ℤ} : IsMantissa mantissa m →
    IsExponent exponent e → IsNumeral (mantissa ++ exponent) (m * 10 ^ e)
  | marked {mark : Char} {base : Nat} {digits : List Char} :
    (mark, base) ∈ [('x', 16), ('X', 16), ('o', 8), ('O', 8), ('b', 2), ('B', 2)] →
    IsRun base digits → IsNumeral ('0' :: mark :: digits) (wholeValue base digits)

/-- Whether two underscores stand together. -/
def Doubled (text : List Char) : Prop := ['_', '_'] <:+: text

/-- The numbers of TypeScript in strict mode, but for those with an `n` at their end. -/
def IsScriptNumber (text : List Char) (value : ℚ) : Prop := IsNumeral text value ∧ ¬ Doubled text

/-! ### Characters of numerals -/

/-- A digit of a base is a decimal digit or one of the first letters. -/
theorem toNat_of_digit? {base : Nat} {c : Char} (h : (digit? base c).isSome) :
    0x30 ≤ c.toNat ∧ c.toNat ≤ 0x39 ∧ c.toNat < 0x30 + base ∨
      10 < base ∧ (0x61 ≤ c.toNat ∧ c.toNat ≤ 0x66 ∨ 0x41 ≤ c.toNat ∧ c.toNat ≤ 0x46) := by
  have hvalue : ∀ value, (if value < base then some value else none : Option Nat).isSome →
      value < base := by
    intro value
    split <;> simp_all
  have hlt := hvalue _ h
  split_ifs at hlt <;> omega

/-- A digit of a base up to ten is a decimal digit. -/
theorem isDigit_of_digit? {base : Nat} {c : Char} (hbase : base ≤ 10) (h : (digit? base c).isSome) :
    c.isDigit := by
  have hcode := toNat_of_digit? h
  rw [isDigit_iff]
  omega

namespace IsRun

variable {base : Nat} {text : List Char}

/-- A run of digits starts with one. -/
theorem exists_head (h : IsRun base text) : ∃ c rest, text = c :: rest ∧ (digit? base c).isSome := by
  obtain ⟨c, rest, rfl⟩ := List.exists_cons_of_ne_nil h.nonempty
  refine ⟨c, rest, rfl, (h.digits c List.mem_cons_self).resolve_left ?_⟩
  rintro rfl
  exact h.first rfl

/-- A run of digits ends with one. -/
theorem exists_last (h : IsRun base text) :
    ∃ front c, text = front ++ [c] ∧ (digit? base c).isSome := by
  obtain ⟨front, c, rfl⟩ := (List.eq_nil_or_concat' text).resolve_left h.nonempty
  refine ⟨front, c, rfl, (h.digits c (by simp)).resolve_left ?_⟩
  rintro rfl
  exact h.last (by simp)

end IsRun

/-! ### Parts of decimal numbers -/

section Decimal

variable {text mantissa exponent : List Char} {m : ℚ} {e : ℤ}

theorem IsWhole.run (h : IsWhole text) : IsRun 10 text := by
  rcases h with rfl | ⟨hrun, -⟩
  · refine ⟨fun c hc => ?_, by decide, by decide, by decide⟩
    obtain rfl := List.mem_singleton.1 hc
    exact .inr rfl
  · exact hrun

/-- An integer part that starts with a zero is zero. -/
theorem IsWhole.eq_zero {rest : List Char} (h : IsWhole ('0' :: rest)) : rest = [] := by
  rcases h with hzero | ⟨-, hhead⟩
  · exact (List.cons.inj hzero).2
  · exact absurd rfl hhead

/-- A mantissa that starts with a zero has nothing or the point behind it. -/
theorem IsMantissa.eq_zero {rest : List Char} (h : IsMantissa ('0' :: rest) m) :
    rest = [] ∨ rest.head? = some '.' := by
  generalize htext : '0' :: rest = text at h
  cases h with
  | whole hwhole =>
    subst htext
    exact .inl hwhole.eq_zero
  | @point digits hwhole =>
    obtain ⟨c, more, rfl, -⟩ := hwhole.run.exists_head
    obtain ⟨rfl, rfl⟩ := List.cons.inj htext
    rw [hwhole.eq_zero]
    exact .inr rfl
  | @fraction digits part hwhole =>
    obtain ⟨c, more, rfl, -⟩ := hwhole.run.exists_head
    obtain ⟨rfl, rfl⟩ := List.cons.inj htext
    rw [hwhole.eq_zero]
    exact .inr rfl
  | part => cases htext

/-- A mantissa is made of digits, underscores and a point. -/
theorem IsMantissa.chars (h : IsMantissa mantissa m) :
    ∀ c ∈ mantissa, c.isDigit ∨ c = '_' ∨ c = '.' := by
  have hrun : ∀ {text : List Char}, IsRun 10 text → ∀ c ∈ text, c.isDigit ∨ c = '_' ∨ c = '.' :=
    fun hrun c hc => (hrun.digits c hc).elim (fun h => .inr (.inl h))
      fun h => .inl (isDigit_of_digit? le_rfl h)
  cases h with
  | whole hwhole => exact hrun hwhole.run
  | point hwhole =>
    intro c hc
    rcases List.mem_append.1 hc with hc | hc
    · exact hrun hwhole.run c hc
    · exact .inr (.inr (List.mem_singleton.1 hc))
  | fraction hwhole hpart =>
    intro c hc
    rcases List.mem_append.1 hc with hc | hc
    · exact hrun hwhole.run c hc
    · rcases List.mem_cons.1 hc with rfl | hc
      · exact .inr (.inr rfl)
      · exact hrun hpart c hc
  | part hpart =>
    intro c hc
    rcases List.mem_cons.1 hc with rfl | hc
    · exact .inr (.inr rfl)
    · exact hrun hpart c hc

/-- Whether a text ends with a digit or a point. -/
def EndsDecimal (text : List Char) : Prop := ∃ front c, text = front ++ [c] ∧ (c.isDigit ∨ c = '.')

theorem EndsDecimal.append (h : EndsDecimal text) (before : List Char) :
    EndsDecimal (before ++ text) := by
  obtain ⟨front, c, rfl, hc⟩ := h
  exact ⟨before ++ front, c, by simp, hc⟩

theorem IsRun.endsDecimal {base : Nat} (hbase : base ≤ 10) (h : IsRun base text) :
    EndsDecimal text := by
  obtain ⟨front, c, rfl, hc⟩ := h.exists_last
  exact ⟨front, c, rfl, .inl (isDigit_of_digit? hbase hc)⟩

theorem IsMantissa.endsDecimal (h : IsMantissa mantissa m) : EndsDecimal mantissa := by
  cases h with
  | whole hwhole => exact hwhole.run.endsDecimal le_rfl
  | point hwhole => exact ⟨_, '.', rfl, .inr rfl⟩
  | @fraction digits part hwhole hpart =>
    have hends := (hpart.endsDecimal le_rfl).append (digits ++ ['.'])
    rwa [List.append_assoc, List.singleton_append] at hends
  | part hpart => exact (hpart.endsDecimal le_rfl).append ['.']

/-- An exponent starts with its mark. -/
theorem IsExponent.exists_mark (h : IsExponent exponent e) (hne : exponent ≠ []) :
    ∃ mark rest, exponent = mark :: rest ∧ mark ∈ ['e', 'E'] ∧ EndsDecimal rest := by
  cases h with
  | none => exact absurd rfl hne
  | up hmark _ hrun => exact ⟨_, _, rfl, hmark, (hrun.endsDecimal le_rfl).append _⟩
  | down hmark hrun => exact ⟨_, _, rfl, hmark, (hrun.endsDecimal le_rfl).append ['-']⟩

theorem endsDecimal_append (hmantissa : IsMantissa mantissa m) (hexponent : IsExponent exponent e) :
    EndsDecimal (mantissa ++ exponent) := by
  by_cases hne : exponent = []
  · rw [hne, List.append_nil]
    exact hmantissa.endsDecimal
  · obtain ⟨mark, rest, rfl, -, hends⟩ := hexponent.exists_mark hne
    exact (hends.append [mark]).append mantissa

/-- A decimal number that starts with a zero goes on with a point or an exponent, if at all. -/
theorem head?_of_decimal {rest : List Char} (after : List Char) (hmantissa : IsMantissa mantissa m)
    (hexponent : IsExponent exponent e) (h : mantissa ++ exponent ++ after = '0' :: rest) :
    rest = after ∨ ∃ c more, rest = c :: more ∧ c ∈ ['.', 'e', 'E'] := by
  obtain ⟨front, last, hlast, -⟩ := hmantissa.endsDecimal
  obtain ⟨first, more, rfl⟩ : ∃ first more, mantissa = first :: more :=
    List.exists_cons_of_ne_nil (by simp [hlast])
  obtain ⟨rfl, rfl⟩ := List.cons.inj h
  rcases hmantissa.eq_zero with rfl | hpoint
  · by_cases hne : exponent = []
    · exact .inl (by simp [hne])
    · obtain ⟨mark, tail, rfl, hmark, -⟩ := hexponent.exists_mark hne
      exact .inr ⟨mark, tail ++ after, rfl, List.mem_cons_of_mem _ hmark⟩
  · obtain ⟨tail, rfl⟩ := List.head?_eq_some_iff.1 hpoint
    exact .inr ⟨'.', tail ++ exponent ++ after, rfl, by simp⟩

end Decimal

/-! ### What numerals look like -/

/-- A number of Java does not end with a line break. -/
theorem IsJavaNumber.getLast?_ne {text : List Char} {value : ℚ} (h : IsJavaNumber text value) :
    text.getLast? ≠ some '\n' := by
  have hrun : ∀ {base : Nat} {digits : List Char} (before : List Char), IsRun base digits →
      (before ++ digits).getLast? ≠ some '\n' := by
    rintro base digits before hdigits hlast
    obtain ⟨front, c, rfl, hc⟩ := hdigits.exists_last
    obtain rfl : c = '\n' := by simpa using hlast
    have hcode := toNat_of_digit? hc
    simp at hcode
  have hdecimal : ∀ {text : List Char}, EndsDecimal text → text.getLast? ≠ some '\n' := by
    rintro text ⟨front, c, rfl, hc⟩ hlast
    obtain rfl : c = '\n' := by simpa using hlast
    exact absurd hc (by decide)
  cases h with
  | integer hinteger hsuffix =>
    simp only [List.mem_cons, List.not_mem_nil, or_false] at hsuffix
    rcases hsuffix with rfl | rfl | rfl
    · rw [List.append_nil]
      cases hinteger with
      | decimal hwhole => exact hrun [] hwhole.run
      | marked _ hdigits => exact hrun ['0', _] hdigits
      | octal _ hdigits => exact hrun [] hdigits
    · simp
    · simp
  | decimal hmantissa hexponent hsuffix =>
    simp only [List.mem_cons, List.not_mem_nil, or_false] at hsuffix
    rcases hsuffix with rfl | rfl | rfl | rfl | rfl
    · rw [List.append_nil]
      exact hdecimal (endsDecimal_append hmantissa hexponent)
    all_goals simp

namespace IsNumeral

variable {text rest : List Char} {c : Char} {value : ℚ}

/-- Behind a zero at its start, a numeral has a point, an exponent, or the mark of a base and a
digit. -/
theorem second (h : IsNumeral ('0' :: c :: rest) value) :
    c ∈ ['.', 'e', 'E'] ∨ c ∈ ['x', 'X', 'o', 'O', 'b', 'B'] ∧ rest.head? ≠ some '_' := by
  generalize htext : '0' :: c :: rest = text at h
  cases h with
  | decimal hmantissa hexponent =>
    rcases head?_of_decimal [] hmantissa hexponent (by simpa using htext.symm) with
      hnil | ⟨d, more, hmore, hd⟩
    · cases hnil
    · obtain ⟨rfl, rfl⟩ := List.cons.inj hmore
      exact .inl hd
  | marked hmark hrun =>
    obtain ⟨rfl, rfl⟩ := List.cons.inj (List.cons.inj htext).2
    refine .inr ⟨?_, hrun.first⟩
    simp only [List.mem_cons, Prod.mk.injEq, List.not_mem_nil, or_false] at hmark ⊢
    tauto

/-- A numeral ends with a digit or a point, unless it has the mark of a base. -/
theorem ends (h : IsNumeral text value) :
    EndsDecimal text ∨ ∃ mark more, text = '0' :: mark :: more ∧
      mark ∈ ['x', 'X', 'o', 'O', 'b', 'B'] := by
  cases h with
  | decimal hmantissa hexponent => exact .inl (endsDecimal_append hmantissa hexponent)
  | marked hmark hrun =>
    refine .inr ⟨_, _, rfl, ?_⟩
    simp only [List.mem_cons, Prod.mk.injEq, List.not_mem_nil, or_false] at hmark ⊢
    tauto

end IsNumeral

end Recast.Grammar
