import Mathlib
import Recast.Proofs.Grammar.Numeral
import Recast.Proofs.Render.Literal

/-!
Rendered numbers keep their value.

A number of Java is written as a number of TypeScript of the same value, but for four kinds of
spelling (`Slips`): two underscores together, which only Java allows; an octal number with an
underscore behind its zero, since the underscore then follows the `o` that is put in; an octal number
with a long suffix, which loses the suffix and gets no `o`; and a decimal number with an underscore in
its exponent, which keeps its suffix. What is written for these is no number of TypeScript of the
same value (`isScriptNumber_render_iff`).
-/

namespace Recast.Literal

open Recast.Grammar

/-! ### The spellings that fail -/

/-- Octal numbers with a long suffix. -/
def LongOctal (text : List Char) : Prop :=
  ∃ digits c, digits ≠ [] ∧ IsRun 8 ('0' :: digits) ∧ c ∈ ['l', 'L'] ∧ text = '0' :: digits ++ [c]

/-- Decimal numbers with an underscore in the exponent and a suffix. -/
def SplitExponent (text : List Char) : Prop :=
  (∀ mark rest, text = '0' :: mark :: rest → mark ∉ ['x', 'X']) ∧
    ∃ before mark after c, mark ∈ ['e', 'E'] ∧ '_' ∈ after ∧ c ∈ ['f', 'F', 'd', 'D'] ∧
      text = before ++ mark :: after ++ [c]

/-- The spellings of numbers that are not carried over. -/
def Slips (text : List Char) : Prop :=
  Doubled text ∨ ['0', '_'] <+: text ∨ LongOctal text ∨ SplitExponent text

/-! ### Letters at the end -/

section Suffix

variable {text digits front : List Char} {c : Char}

theorem dropSuffix?_of_mem {suffixes : List Char} (hc : c ∈ suffixes) (front : List Char) :
    dropSuffix? suffixes (front ++ [c]) = some front := by
  simp [dropSuffix?, hc]

theorem dropSuffix?_of_not_mem {suffixes : List Char} (hc : c ∉ suffixes) (front : List Char) :
    dropSuffix? suffixes (front ++ [c]) = none := by
  simp [dropSuffix?, hc]

theorem number?_long (hc : c ∈ ['l', 'L']) (h : isInteger digits) :
    number? (digits ++ [c]) = some digits := by
  rw [number?, longInteger?, dropSuffix?_of_mem hc, Option.filter_some, if_pos h, Option.some_or]

/-- Without a letter that can be dropped, only an octal number is written anew. -/
theorem number?_of_last (hlong : c ∉ ['l', 'L'])
    (hfloat : startsHex (front ++ [c]) ∨ c ∉ ['f', 'F', 'd', 'D']) :
    number? (front ++ [c]) = octal? (front ++ [c]) := by
  have hsuffix : suffixedFloat? (front ++ [c]) = none := by
    rcases hfloat with hhex | hfloat
    · rw [suffixedFloat?, if_pos hhex]
    · rw [suffixedFloat?, dropSuffix?_of_not_mem hfloat, Option.filter_none, ite_self]
  rw [number?, longInteger?, dropSuffix?_of_not_mem hlong, hsuffix, Option.filter_none,
    Option.none_or, Option.none_or]

/-- A number that ends with a digit or a point has no letter to drop. -/
theorem number?_of_endsDecimal (h : EndsDecimal text) : number? text = octal? text := by
  obtain ⟨front, c, rfl, hc⟩ := h
  have hletter : ∀ d : Char, d.isDigit = false → d ≠ '.' → c ≠ d := by
    rintro d hdigit hpoint rfl
    rcases hc with hc | rfl
    · rw [hdigit] at hc
      cases hc
    · exact hpoint rfl
  refine number?_of_last ?_ (.inr ?_)
  · simp [hletter]
  · simp [hletter]

/-- A decimal number with a suffix is written without it, if what is left counts as a number. -/
theorem number?_float (hc : c ∈ ['f', 'F', 'd', 'D']) (hhex : startsHex (front ++ [c]) = false) :
    number? (front ++ [c])
      = if isFloat front then some front else octal? (front ++ [c]) := by
  have hlong : c ∉ ['l', 'L'] := by
    simp only [List.mem_cons, List.not_mem_nil, or_false] at hc
    rcases hc with rfl | rfl | rfl | rfl <;> decide
  rw [number?, longInteger?, suffixedFloat?, dropSuffix?_of_not_mem hlong, dropSuffix?_of_mem hc,
    Option.filter_none, Option.none_or, Option.filter_some, hhex]
  cases isFloat front with
  | true => rfl
  | false => rfl

end Suffix

/-! ### What counts as a number -/

section Forms

variable {text digits mantissa exponent : List Char} {m : ℚ} {e : ℤ} {value : ℕ}

theorem isDecimal_of_run {base : Nat} {text : List Char} (hbase : base ≤ 10) (h : IsRun base text) :
    ∀ c ∈ text, isDecimal c := by
  intro c hc
  rcases h.digits c hc with rfl | hdigit
  · rfl
  · simp [isDecimal, isDigit_of_digit? hbase hdigit]

theorem isOctal_of_digit? {c : Char} (h : c = '_' ∨ (digit? 8 c).isSome) : isOctal c := by
  rcases h with rfl | h
  · rfl
  · have hcode : 0x30 ≤ c.toNat ∧ c.toNat < 0x38 := by
      have hdigit := toNat_of_digit? h
      omega
    simp [isOctal, Char.le_def, UInt32.le_iff_toNat_le]
    exact .inl ⟨hcode.1, Nat.le_of_lt_succ hcode.2⟩

theorem isBinary_of_digit? {c : Char} (h : c = '_' ∨ (digit? 2 c).isSome) : isBinary c := by
  rcases h with rfl | h
  · rfl
  · have hcode : c.toNat = '0'.toNat ∨ c.toNat = '1'.toNat := by
      have hdigit := toNat_of_digit? h
      have hvalues : '0'.toNat = 0x30 ∧ '1'.toNat = 0x31 := ⟨rfl, rfl⟩
      omega
    rcases hcode with hcode | hcode
    · rw [Char.toNat_inj.1 hcode]
      rfl
    · rw [Char.toNat_inj.1 hcode]
      rfl

theorem isHex_of_digit? {c : Char} (h : c = '_' ∨ (digit? 16 c).isSome) : isHex c := by
  rcases h with rfl | h
  · rfl
  · have hcode : c.isDigit ∨ 'a' ≤ c ∧ c ≤ 'f' ∨ 'A' ≤ c ∧ c ≤ 'F' := by
      have hdigit := toNat_of_digit? h
      simp only [isDigit_iff, Char.le_def, UInt32.le_iff_toNat_le, Char.toNat_val, Char.reduceToNat]
      omega
    rcases hcode with hcode | hcode | hcode <;> simp [isHex, hcode]

theorem isInteger_cons {c : Char} {rest : List Char} (hdigit : c.isDigit)
    (hrest : ∀ d ∈ rest, isDecimal d) : isInteger (c :: rest) := by
  have hmark : ∀ d more, rest = d :: more → d ∉ ['x', 'X', 'b', 'B'] := by
    rintro d more rfl hd
    have hdecimal := hrest d List.mem_cons_self
    simp only [List.mem_cons, List.not_mem_nil, or_false] at hd
    rcases hd with rfl | rfl | rfl | rfl <;> cases hdecimal
  have hall : (c.isDigit && rest.all isDecimal) = true := by
    rw [hdigit, Bool.true_and, List.all_eq_true]
    exact hrest
  unfold isInteger
  split <;> simp_all

/-- A run of digits is a digit, and digits and underscores behind it. -/
theorem exists_head_of_run (h : IsRun 10 text) :
    ∃ c rest, text = c :: rest ∧ c.isDigit ∧ ∀ d ∈ rest, isDecimal d := by
  obtain ⟨c, rest, rfl, hc⟩ := h.exists_head
  have hrest := (List.forall_mem_cons.1 (isDecimal_of_run le_rfl h)).2
  exact ⟨c, rest, rfl, isDigit_of_digit? le_rfl hc, hrest⟩

/-- An integer of Java counts as one. -/
theorem isInteger_of_java (h : IsJavaInteger digits value) : isInteger digits := by
  cases h with
  | decimal hwhole =>
    obtain ⟨c, rest, rfl, hc, hrest⟩ := exists_head_of_run hwhole.run
    exact isInteger_cons hc hrest
  | @marked mark base digits hmark hrun =>
    have hall : ∀ p : Char → Bool, (∀ c, (c = '_' ∨ (digit? base c).isSome) → p c) →
        allOf p digits := by
      intro p hp
      have hevery : ∀ c ∈ digits, p c := fun c hc => hp c (hrun.digits c hc)
      simpa [allOf, hrun.nonempty] using hevery
    simp only [List.mem_cons, Prod.mk.injEq, List.not_mem_nil, or_false] at hmark
    rcases hmark with ⟨rfl, rfl⟩ | ⟨rfl, rfl⟩ | ⟨rfl, rfl⟩ | ⟨rfl, rfl⟩
    · exact hall isHex fun c => isHex_of_digit?
    · exact hall isHex fun c => isHex_of_digit?
    · exact hall isBinary fun c => isBinary_of_digit?
    · exact hall isBinary fun c => isBinary_of_digit?
  | octal hne hrun =>
    exact isInteger_cons rfl fun d hd =>
      isDecimal_of_run (by decide) hrun d (List.mem_cons_of_mem _ hd)

/-- A run of digits has only digits if it has no underscore. -/
theorem allOf_isDigit_iff (h : IsRun 10 text) : allOf Char.isDigit text = true ↔ '_' ∉ text := by
  rw [allOf, Bool.and_eq_true, List.all_eq_true]
  constructor
  · rintro ⟨-, hdigits⟩ hmem
    exact absurd (hdigits _ hmem) (by decide)
  · intro hmem
    refine ⟨by simp [h.nonempty], fun c hc => isDigit_of_digit? le_rfl ?_⟩
    exact (h.digits c hc).resolve_left fun heq => hmem (heq ▸ hc)

/-- An exponent counts as one if it has no underscore. -/
theorem isExponent_iff (h : IsExponent exponent e) : isExponent exponent = true ↔ '_' ∉ exponent := by
  have hmarked : ∀ {mark : Char} {rest : List Char}, mark ∈ ['e', 'E'] →
      (isExponent (mark :: rest) = true ↔ isExponent ('e' :: rest) = true) ∧
        ('_' ∉ mark :: rest ↔ '_' ∉ rest) := by
    intro mark rest hmark
    simp only [List.mem_cons, List.not_mem_nil, or_false] at hmark
    rcases hmark with rfl | rfl <;> simp [isExponent]
  cases h with
  | none => simp [isExponent]
  | @up mark sign digits hmark hsign hrun =>
    rw [(hmarked hmark).1, (hmarked hmark).2]
    simp only [List.mem_cons, List.not_mem_nil, or_false] at hsign
    rcases hsign with rfl | rfl
    · obtain ⟨c, rest, rfl, hc⟩ := hrun.exists_head
      rw [List.nil_append, ← allOf_isDigit_iff hrun]
      have hdigit := isDigit_of_digit? le_rfl hc
      simp only [isExponent]
      split <;> simp_all
    · simpa [isExponent] using allOf_isDigit_iff hrun
  | @down mark digits hmark hrun =>
    rw [(hmarked hmark).1, (hmarked hmark).2]
    simpa [isExponent] using allOf_isDigit_iff hrun

/-- Up to an exponent, all characters of a decimal number but the point are dropped. -/
theorem dropWhile_isDecimal {digits : List Char} (hexponent : IsExponent exponent e)
    (hdigits : ∀ c ∈ digits, isDecimal c) : (digits ++ exponent).dropWhile isDecimal = exponent := by
  rw [List.dropWhile_append_of_pos hdigits]
  by_cases hne : exponent = []
  · rw [hne, List.dropWhile_nil]
  · obtain ⟨mark, rest, rfl, hmark, -⟩ := hexponent.exists_mark hne
    refine List.dropWhile_cons_of_neg ?_
    simp only [List.mem_cons, List.not_mem_nil, or_false] at hmark
    rcases hmark with rfl | rfl <;> decide

/-- Behind its first digit, a decimal number goes on with digits, a point and an exponent. -/
theorem isFloat_cons {c : Char} {rest : List Char} (hdigit : c.isDigit) :
    isFloat (c :: rest) =
      match rest.dropWhile isDecimal with
      | '.' :: rest => isExponent (rest.dropWhile isDecimal)
      | rest => isExponent rest := by
  unfold isFloat
  split
  · next heq =>
    obtain ⟨rfl, -⟩ := List.cons.inj heq
    cases hdigit
  · next heq =>
    obtain ⟨rfl, rfl⟩ := List.cons.inj heq
    exact (congrArg (· && _) hdigit).trans (Bool.true_and _)
  · next heq => cases heq

/-- A decimal number counts as one if its exponent has no underscore. -/
theorem isFloat_iff (hmantissa : IsMantissa mantissa m) (hexponent : IsExponent exponent e) :
    isFloat (mantissa ++ exponent) = true ↔ '_' ∉ exponent := by
  rw [← isExponent_iff hexponent]
  have hnil := dropWhile_isDecimal hexponent (List.forall_mem_nil _)
  rw [List.nil_append] at hnil
  cases hmantissa with
  | whole hwhole =>
    obtain ⟨c, rest, rfl, hc, hrest⟩ := exists_head_of_run hwhole.run
    rw [List.cons_append, isFloat_cons hc, dropWhile_isDecimal hexponent hrest]
    split
    · next more =>
      obtain ⟨mark, rest, hmark, hletter, -⟩ := hexponent.exists_mark (List.cons_ne_nil _ _)
      obtain ⟨rfl, -⟩ := List.cons.inj hmark
      exact absurd hletter (by decide)
    · rfl
  | point hwhole =>
    obtain ⟨c, rest, rfl, hc, hrest⟩ := exists_head_of_run hwhole.run
    rw [List.append_assoc, List.cons_append, isFloat_cons hc,
      List.dropWhile_append_of_pos hrest]
    simp [show isDecimal '.' = false by decide, hnil]
  | fraction hwhole hpart =>
    obtain ⟨c, rest, rfl, hc, hrest⟩ := exists_head_of_run hwhole.run
    rw [List.append_assoc, List.cons_append, isFloat_cons hc,
      List.dropWhile_append_of_pos hrest]
    simp [show isDecimal '.' = false by decide,
      dropWhile_isDecimal hexponent (isDecimal_of_run le_rfl hpart)]
  | part hpart =>
    obtain ⟨c, rest, rfl, hc⟩ := hpart.exists_head
    have hdecimal := isDecimal_of_run le_rfl hpart
    simp only [List.cons_append, isFloat]
    rw [← List.cons_append, dropWhile_isDecimal hexponent hdecimal]
    simp [hdecimal c List.mem_cons_self]

/-! ### Octal numbers -/

/-- A text is not taken for an octal number if a zero at its start has another character behind. -/
theorem octal?_eq_none (h : ∀ rest, text = '0' :: rest → ∀ c ∈ rest.head?, isOctal c = false) :
    octal? text = none := by
  unfold octal?
  split
  · next rest =>
    refine if_neg fun hall => ?_
    cases rest with
    | nil => cases hall
    | cons c more =>
      simp only [allOf, Bool.and_eq_true, List.all_cons, h _ rfl c rfl] at hall
      exact absurd hall.2.1 Bool.false_ne_true
  · rfl

/-- Decimal numbers are not taken for octal ones. -/
theorem octal?_decimal (suffix : List Char) (hmantissa : IsMantissa mantissa m)
    (hexponent : IsExponent exponent e) (hsuffix : ∀ c ∈ suffix.head?, isOctal c = false) :
    octal? (mantissa ++ exponent ++ suffix) = none := by
  refine octal?_eq_none fun rest htext => ?_
  rcases head?_of_decimal _ hmantissa hexponent htext with rfl | ⟨c, more, rfl, hc⟩
  · exact hsuffix
  · have hnone : ∀ d ∈ ['.', 'e', 'E'], isOctal d = false := by simp [isOctal]
    rintro d hd
    obtain rfl := Option.some.inj hd
    exact hnone c hc

theorem octal?_run (hne : digits ≠ []) (h : IsRun 8 ('0' :: digits)) :
    octal? ('0' :: digits) = some ('0' :: 'o' :: digits) := by
  have hall : allOf isOctal digits := by
    have hevery : ∀ c ∈ digits, isOctal c := fun c hc =>
      isOctal_of_digit? (h.digits c (List.mem_cons_of_mem _ hc))
    simpa [allOf, hne] using hevery
  exact if_pos hall

/-- Digits behind a zero are read as a number of TypeScript only with a mark between them. -/
theorem not_isNumeral_run {value : ℚ} (hne : digits ≠ []) (h : IsRun 8 ('0' :: digits)) :
    ¬ IsNumeral ('0' :: digits) value := by
  obtain ⟨c, rest, rfl⟩ := List.exists_cons_of_ne_nil hne
  intro hnumeral
  have hoctal := isOctal_of_digit? (h.digits c (by simp))
  have hmark : c ∈ ['.', 'e', 'E', 'x', 'X', 'o', 'O', 'b', 'B'] := by
    rcases hnumeral.second with hc | ⟨hc, -⟩
    · exact List.mem_append_left ['x', 'X', 'o', 'O', 'b', 'B'] hc
    · exact List.mem_append_right ['.', 'e', 'E'] hc
  have hnone : ∀ d ∈ ['.', 'e', 'E', 'x', 'X', 'o', 'O', 'b', 'B'], isOctal d = false := by
    simp [isOctal]
  rw [hnone c hmark] at hoctal
  cases hoctal

/-- With the mark of its base an octal number has a digit behind it, and keeps its value. -/
theorem isNumeral_octal_iff (hne : digits ≠ []) (h : IsRun 8 ('0' :: digits)) :
    IsNumeral ('0' :: 'o' :: digits) (wholeValue 8 ('0' :: digits)) ↔ digits.head? ≠ some '_' := by
  constructor
  · intro hnumeral
    rcases hnumeral.second with hc | ⟨-, hfirst⟩
    · exact absurd hc (by decide)
    · exact hfirst
  · intro hfirst
    have hrun : IsRun 8 digits := by
      refine ⟨fun c hc => h.digits c (List.mem_cons_of_mem _ hc), hne, hfirst, fun hlast => ?_⟩
      exact h.last (by rw [List.getLast?_cons, hlast]; rfl)
    have hvalue : wholeValue 8 ('0' :: digits) = wholeValue 8 digits := by
      have hdigits : digitsOf 8 ('0' :: digits) = 0 :: digitsOf 8 digits := rfl
      rw [wholeValue, hdigits, List.reverse_cons, Nat.ofDigits_append, Nat.ofDigits_singleton,
        Nat.mul_zero, Nat.add_zero]
      rfl
    rw [hvalue]
    exact .marked (by simp) hrun

end Forms

/-! ### Which spellings fail -/

section Slips

variable {text digits mantissa exponent : List Char} {m : ℚ} {e : ℤ}

theorem LongOctal.getLast? (h : LongOctal text) : ∃ c ∈ ['l', 'L'], text.getLast? = some c := by
  obtain ⟨digits, c, -, -, hc, rfl⟩ := h
  exact ⟨c, hc, List.getLast?_concat⟩

theorem SplitExponent.getLast? (h : SplitExponent text) :
    ∃ c ∈ ['f', 'F', 'd', 'D'], text.getLast? = some c := by
  obtain ⟨-, before, mark, after, c, -, -, hc, rfl⟩ := h
  exact ⟨c, hc, List.getLast?_concat⟩

/-- A number that ends with a digit or a point ends with no letter. -/
theorem not_mem_of_endsDecimal {letters : List Char} (h : EndsDecimal text)
    (hletters : ∀ c ∈ letters, c.isDigit = false ∧ c ≠ '.') :
    ¬ ∃ c ∈ letters, text.getLast? = some c := by
  obtain ⟨front, last, rfl, hlast⟩ := h
  rintro ⟨c, hc, heq⟩
  obtain rfl : last = c := by simpa using heq
  obtain ⟨hdigit, hpoint⟩ := hletters last hc
  rw [hdigit] at hlast
  exact hlast.elim Bool.false_ne_true hpoint

theorem not_longOctal_of_endsDecimal (h : EndsDecimal text) : ¬ LongOctal text :=
  fun hlong => not_mem_of_endsDecimal h (by simp) hlong.getLast?

theorem not_splitExponent_of_endsDecimal (h : EndsDecimal text) : ¬ SplitExponent text :=
  fun hsplit => not_mem_of_endsDecimal h (by simp) hsplit.getLast?

/-- A number that ends with a digit or a point fails only by its underscores. -/
theorem slips_of_endsDecimal (h : EndsDecimal text) :
    Slips text ↔ Doubled text ∨ ['0', '_'] <+: text := by
  simp [Slips, not_longOctal_of_endsDecimal h, not_splitExponent_of_endsDecimal h]

/-- A decimal number has no underscore behind a zero at its start. -/
theorem not_gap_decimal (suffix : List Char) (hmantissa : IsMantissa mantissa m)
    (hexponent : IsExponent exponent e) (hsuffix : suffix.head? ≠ some '_') :
    ¬ ['0', '_'] <+: mantissa ++ exponent ++ suffix := by
  rintro ⟨rest, hrest⟩
  rcases head?_of_decimal _ hmantissa hexponent hrest.symm with h | ⟨c, more, h, hc⟩
  · exact hsuffix (h ▸ rfl)
  · obtain ⟨rfl, -⟩ := List.cons.inj h
    exact absurd hc (by decide)

/-- What stands behind the mark of an exponent belongs to the exponent. -/
theorem mem_exponent {before after : List Char} {mark c : Char} (hmantissa : IsMantissa mantissa m)
    (hmark : mark ∈ ['e', 'E']) (hc : c ∈ after)
    (h : mantissa ++ exponent = before ++ mark :: after) : c ∈ exponent := by
  rcases List.append_eq_append_iff.1 h with ⟨more, -, rfl⟩ | ⟨more, rfl, hmore⟩
  · simp [hc]
  · cases more with
    | nil =>
      rw [List.nil_append] at hmore
      simp [← hmore, hc]
    | cons d more =>
      obtain ⟨rfl, -⟩ := List.cons.inj hmore
      have hchar := hmantissa.chars mark (by simp)
      simp only [List.mem_cons, List.not_mem_nil, or_false] at hmark
      rcases hmark with rfl | rfl <;> exact absurd hchar (by decide)

/-- A number with the mark of its base has a mark that is no octal digit. -/
theorem not_longOctal_marked {mark : Char} {rest : List Char} (hmark : isOctal mark = false) :
    ¬ LongOctal ('0' :: mark :: rest) := by
  rintro ⟨digits, c, hne, hrun, -, htext⟩
  obtain ⟨d, more, rfl⟩ := List.exists_cons_of_ne_nil hne
  obtain ⟨rfl, -⟩ := List.cons.inj (List.cons.inj htext).2
  rw [isOctal_of_digit? (hrun.digits mark (by simp))] at hmark
  cases hmark

/-- A suffix adds no underscores. -/
theorem doubled_concat {c : Char} (hc : c ≠ '_') : Doubled (text ++ [c]) ↔ Doubled text := by
  refine List.infix_concat_iff.trans (or_iff_right ?_)
  rintro ⟨front, hfront⟩
  have hlast := congrArg List.getLast? hfront
  simp at hlast
  exact hc hlast.symm

/-- The mark of the base is put where no underscores stand together. -/
theorem doubled_octal : Doubled ('0' :: 'o' :: digits) ↔ Doubled ('0' :: digits) := by
  simp [Doubled, List.infix_cons_iff]

end Slips

/-! ### Numbers of both kinds -/

section Written

variable {text digits mantissa exponent : List Char} {m : ℚ} {e : ℤ} {value : ℕ} {number : ℚ}

/-- What is written for a number. -/
def written (text : List Char) : List Char := (number? text).getD text

/-- Where a number of the same value is written, with the same underscores, nothing but these can
fail. -/
theorem isScriptNumber_iff {out : List Char} (hnumeral : IsNumeral out number)
    (hdoubled : Doubled out ↔ Doubled text) (hslips : Slips text → Doubled text) :
    IsScriptNumber out number ↔ ¬ Slips text := by
  rw [IsScriptNumber, and_iff_right hnumeral, hdoubled]
  exact not_congr ⟨Or.inl, hslips⟩

theorem written_decimal (hmantissa : IsMantissa mantissa m) (hexponent : IsExponent exponent e) :
    IsScriptNumber (written (mantissa ++ exponent)) (m * 10 ^ e) ↔ ¬ Slips (mantissa ++ exponent) := by
  have hends := endsDecimal_append hmantissa hexponent
  have hgap : ¬ ['0', '_'] <+: mantissa ++ exponent := by
    simpa using not_gap_decimal [] hmantissa hexponent (by simp)
  have hoctal : octal? (mantissa ++ exponent) = none := by
    simpa using octal?_decimal [] hmantissa hexponent (by simp)
  have hwritten : written (mantissa ++ exponent) = mantissa ++ exponent := by
    rw [written, number?_of_endsDecimal hends, hoctal, Option.getD_none]
  rw [hwritten]
  refine isScriptNumber_iff (.decimal hmantissa hexponent) Iff.rfl fun hslips => ?_
  exact ((slips_of_endsDecimal hends).1 hslips).resolve_right hgap

/-- The letters that name a decimal type are no digits, no long suffix and no mark of a base. -/
theorem floatSuffix_facts {c : Char} (hc : c ∈ ['f', 'F', 'd', 'D']) :
    c ≠ '_' ∧ c ≠ '.' ∧ c.isDigit = false ∧ c ∉ ['l', 'L'] ∧ isOctal c = false ∧
      c ∉ ['x', 'X', 'o', 'O', 'b', 'B'] := by
  revert c
  simp [isOctal]

/-- Behind a zero at the start of a decimal number stands a point, an exponent or the suffix, so no
mark of a base. -/
theorem not_mem_marks {c mark : Char} {rest : List Char} (hmantissa : IsMantissa mantissa m)
    (hexponent : IsExponent exponent e) (hc : c ∈ ['f', 'F', 'd', 'D'])
    (h : mantissa ++ exponent ++ [c] = '0' :: mark :: rest) :
    mark ∉ ['x', 'X', 'o', 'O', 'b', 'B'] := by
  rcases head?_of_decimal _ hmantissa hexponent h with h | ⟨d, more, h, hd⟩
  · obtain ⟨rfl, -⟩ := List.cons.inj h
    exact (floatSuffix_facts hc).2.2.2.2.2
  · obtain ⟨rfl, -⟩ := List.cons.inj h
    simp only [List.mem_cons, List.not_mem_nil, or_false] at hd
    rcases hd with rfl | rfl | rfl <;> simp

/-- The suffix of a decimal number is looked at if its exponent has no underscore. -/
theorem number?_suffixed {c : Char} (hmantissa : IsMantissa mantissa m)
    (hexponent : IsExponent exponent e) (hc : c ∈ ['f', 'F', 'd', 'D']) :
    number? (mantissa ++ exponent ++ [c]) =
      if '_' ∈ exponent then none else some (mantissa ++ exponent) := by
  have hhex : startsHex (mantissa ++ exponent ++ [c]) = false := by
    unfold startsHex
    split
    · next htext => exact absurd (by simp) (not_mem_marks hmantissa hexponent hc htext)
    · next htext => exact absurd (by simp) (not_mem_marks hmantissa hexponent hc htext)
    · rfl
  have hoctal : octal? (mantissa ++ exponent ++ [c]) = none :=
    octal?_decimal [c] hmantissa hexponent (by simp [(floatSuffix_facts hc).2.2.2.2.1])
  rw [number?_float hc hhex, hoctal]
  simp only [isFloat_iff hmantissa hexponent, ite_not]

/-- A decimal number with an underscore in its exponent keeps its suffix. -/
theorem written_splitExponent {c : Char} (hmantissa : IsMantissa mantissa m)
    (hexponent : IsExponent exponent e) (hc : c ∈ ['f', 'F', 'd', 'D']) (hsplit : '_' ∈ exponent) :
    SplitExponent (mantissa ++ exponent ++ [c]) ∧
      ¬ IsNumeral (written (mantissa ++ exponent ++ [c])) number := by
  obtain ⟨-, hpoint, hdigit, -⟩ := floatSuffix_facts hc
  constructor
  · obtain ⟨mark, after, rfl, hmarked, -⟩ := hexponent.exists_mark (List.ne_nil_of_mem hsplit)
    have hafter : '_' ∈ after := by
      rcases List.mem_cons.1 hsplit with rfl | hafter
      · exact absurd hmarked (by decide)
      · exact hafter
    refine ⟨fun other rest htext hother => ?_, mantissa, mark, after, c, hmarked, hafter, hc, rfl⟩
    exact not_mem_marks hmantissa hexponent hc htext
      (List.mem_append_left ['o', 'O', 'b', 'B'] hother)
  · rw [written, number?_suffixed hmantissa hexponent hc, if_pos hsplit, Option.getD_none]
    intro hnumeral
    rcases hnumeral.ends with ⟨front, d, htext, hd⟩ | ⟨mark, more, htext, hmarked⟩
    · obtain rfl := List.singleton_inj.1 (List.append_inj' htext rfl).2
      rcases hd with hd | hd
      · rw [hdigit] at hd
        cases hd
      · exact hpoint hd
    · exact not_mem_marks hmantissa hexponent hc htext hmarked

/-- A decimal number loses its suffix unless its exponent has an underscore. -/
theorem written_suffixed {c : Char} (hmantissa : IsMantissa mantissa m)
    (hexponent : IsExponent exponent e) (hc : c ∈ ['f', 'F', 'd', 'D']) :
    IsScriptNumber (written (mantissa ++ exponent ++ [c])) (m * 10 ^ e) ↔
      ¬ Slips (mantissa ++ exponent ++ [c]) := by
  by_cases hsplit : '_' ∈ exponent
  · obtain ⟨hslips, hnone⟩ := written_splitExponent hmantissa hexponent hc hsplit
    exact iff_of_false (fun h => hnone h.1) (not_not_intro (.inr (.inr (.inr hslips))))
  · obtain ⟨hline, -, -, hlong, -⟩ := floatSuffix_facts hc
    rw [written, number?_suffixed hmantissa hexponent hc, if_neg hsplit, Option.getD_some]
    refine isScriptNumber_iff (.decimal hmantissa hexponent) (doubled_concat hline).symm ?_
    rintro (hdoubled | hgap | hlast | ⟨-, before, mark, after, d, hmarked, hafter, -, htext⟩)
    · exact hdoubled
    · exact absurd hgap (not_gap_decimal [c] hmantissa hexponent (by simpa using hline))
    · obtain ⟨d, hd, heq⟩ := hlast.getLast?
      obtain rfl : c = d := by simpa using heq
      exact absurd hd hlong
    · refine absurd ?_ hsplit
      exact mem_exponent hmantissa hmarked hafter (List.append_inj' htext rfl).1

/-- An octal number gets the mark of its base, unless it has a suffix. -/
theorem written_octal (hne : digits ≠ []) (hrun : IsRun 8 ('0' :: digits)) :
    IsScriptNumber (written ('0' :: digits)) (wholeValue 8 ('0' :: digits)) ↔
      ¬ Slips ('0' :: digits) := by
  have hends := hrun.endsDecimal (by decide)
  have hwritten : written ('0' :: digits) = '0' :: 'o' :: digits := by
    rw [written, number?_of_endsDecimal hends, octal?_run hne hrun, Option.getD_some]
  have hgap : ['0', '_'] <+: '0' :: digits ↔ digits.head? = some '_' := by
    cases digits <;> simp [eq_comm]
  rw [hwritten, IsScriptNumber, isNumeral_octal_iff hne hrun, slips_of_endsDecimal hends, hgap,
    doubled_octal, not_or, and_comm]

/-- A number with the mark of its base fails only by its underscores. -/
theorem doubled_of_slips_marked {mark : Char} {rest : List Char} (hmark : isOctal mark = false)
    (hsplit : ¬ SplitExponent ('0' :: mark :: rest)) (h : Slips ('0' :: mark :: rest)) :
    Doubled ('0' :: mark :: rest) := by
  rcases h with hdoubled | hgap | hlong | h
  · exact hdoubled
  · obtain ⟨rfl, -⟩ := List.cons_prefix_cons.1 (List.cons_prefix_cons.1 hgap).2
    cases hmark
  · exact absurd hlong (not_longOctal_marked hmark)
  · exact absurd h hsplit

/-- The marks of bases are no octal digits. -/
theorem isOctal_mark {mark : Char} {base : Nat}
    (hmark : (mark, base) ∈ [('x', 16), ('X', 16), ('b', 2), ('B', 2)]) : isOctal mark = false := by
  simp only [List.mem_cons, Prod.mk.injEq, List.not_mem_nil, or_false] at hmark
  rcases hmark with ⟨rfl, rfl⟩ | ⟨rfl, rfl⟩ | ⟨rfl, rfl⟩ | ⟨rfl, rfl⟩ <;> simp [isOctal]

theorem isNumeral_marked {mark : Char} {base : Nat}
    (hmark : (mark, base) ∈ [('x', 16), ('X', 16), ('b', 2), ('B', 2)]) (hrun : IsRun base digits) :
    IsNumeral ('0' :: mark :: digits) (wholeValue base digits) := by
  refine .marked ?_ hrun
  simp only [List.mem_cons, Prod.mk.injEq, List.not_mem_nil, or_false] at hmark ⊢
  tauto

/-- Before its suffix an integer is written as it is. -/
theorem written_long {c : Char} (h : IsJavaInteger digits value) (hc : c ∈ ['l', 'L']) :
    IsScriptNumber (written (digits ++ [c])) value ↔ ¬ Slips (digits ++ [c]) := by
  have hline : c ≠ '_' := by
    rintro rfl
    exact absurd hc (by decide)
  have hwritten : written (digits ++ [c]) = digits := by
    rw [written, number?_long hc (isInteger_of_java h), Option.getD_some]
  have hsplit : ¬ SplitExponent (digits ++ [c]) := by
    intro h
    obtain ⟨d, hd, heq⟩ := h.getLast?
    obtain rfl : c = d := by simpa using heq
    simp only [List.mem_cons, List.not_mem_nil, or_false] at hc
    rcases hc with rfl | rfl <;> exact absurd hd (by decide)
  rw [hwritten]
  cases h with
  | decimal hwhole =>
    have hnumeral : IsNumeral digits (wholeValue 10 digits) := by
      simpa using IsNumeral.decimal (.whole hwhole) .none
    refine isScriptNumber_iff hnumeral (doubled_concat hline).symm ?_
    rintro (hdoubled | hgap | ⟨octal, d, hne, -, -, htext⟩ | h)
    · exact hdoubled
    · have hnone := not_gap_decimal [c] (.whole hwhole) .none (by simpa using hline)
      exact absurd (by simpa using hgap) hnone
    · obtain rfl := (List.append_inj' htext rfl).1
      exact absurd hwhole.eq_zero hne
    · exact absurd h hsplit
  | marked hmark hrun =>
    exact isScriptNumber_iff (isNumeral_marked hmark hrun) (doubled_concat hline).symm
      (doubled_of_slips_marked (isOctal_mark hmark) hsplit)
  | octal hne hrun =>
    refine iff_of_false (fun h => not_isNumeral_run hne hrun h.1) (not_not_intro ?_)
    exact .inr (.inr (.inl ⟨_, c, hne, hrun, hc, rfl⟩))

theorem written_marked {mark : Char} {base : Nat}
    (hmark : (mark, base) ∈ [('x', 16), ('X', 16), ('b', 2), ('B', 2)]) (hrun : IsRun base digits) :
    IsScriptNumber (written ('0' :: mark :: digits)) (wholeValue base digits) ↔
      ¬ Slips ('0' :: mark :: digits) := by
  have hoctal : octal? ('0' :: mark :: digits) = none := by
    refine octal?_eq_none fun rest htext c hc => ?_
    obtain rfl := (List.cons.inj htext).2
    obtain rfl := Option.some.inj hc
    exact isOctal_mark hmark
  have hnumber : number? ('0' :: mark :: digits) = octal? ('0' :: mark :: digits) ∧
      ¬ SplitExponent ('0' :: mark :: digits) := by
    by_cases hhex : mark ∈ ['x', 'X']
    · -- The last digit may look like a suffix, so the mark keeps it.
      obtain ⟨front, d, rfl, hd⟩ := hrun.exists_last
      have hlong : d ∉ ['l', 'L'] := by
        have hcode := toNat_of_digit? hd
        simp only [List.mem_cons, List.not_mem_nil, or_false]
        rintro (rfl | rfl) <;> simp at hcode
      have hstarts : startsHex (('0' :: mark :: front) ++ [d]) := by
        simp only [List.mem_cons, List.not_mem_nil, or_false] at hhex
        rcases hhex with rfl | rfl <;> rfl
      exact ⟨number?_of_last hlong (.inl hstarts), fun h => h.1 mark _ rfl hhex⟩
    · have hbase : base ≤ 10 := by
        simp only [List.mem_cons, Prod.mk.injEq, List.not_mem_nil, or_false] at hmark hhex
        rcases hmark with ⟨rfl, rfl⟩ | ⟨rfl, rfl⟩ | ⟨rfl, rfl⟩ | ⟨rfl, rfl⟩ <;> simp_all
      have hends := (hrun.endsDecimal hbase).append ['0', mark]
      exact ⟨number?_of_endsDecimal hends, not_splitExponent_of_endsDecimal hends⟩
  have hwritten : written ('0' :: mark :: digits) = '0' :: mark :: digits := by
    rw [written, hnumber.1, hoctal, Option.getD_none]
  rw [hwritten]
  exact isScriptNumber_iff (isNumeral_marked hmark hrun) Iff.rfl
    (doubled_of_slips_marked (isOctal_mark hmark) hnumber.2)

theorem toList_render {value : String} (h : value.toList.getLast? ≠ some '\n') :
    (render value).toList = written value.toList := by
  have hline : dropSuffix? ['\n'] value.toList = none := by
    rw [Option.eq_none_iff_forall_not_mem]
    intro rest hrest
    obtain ⟨c, hc, htext⟩ := dropSuffix?_eq_some hrest
    rw [htext, List.mem_singleton.1 hc, List.getLast?_concat] at h
    exact h rfl
  rw [render, hline, String.toList_ofList]
  rfl

end Written

/-- **Numbers keep their value**, but for the spellings that fail. -/
theorem isScriptNumber_render_iff {value : String} {number : ℚ}
    (h : IsJavaNumber value.toList number) :
    IsScriptNumber (render value).toList number ↔ ¬ Slips value.toList := by
  rw [toList_render h.getLast?_ne]
  generalize value.toList = text at h
  cases h with
  | @integer digits suffix value hinteger hsuffix =>
    simp only [List.mem_cons, List.not_mem_nil, or_false] at hsuffix
    rcases hsuffix with rfl | rfl | rfl
    · rw [List.append_nil]
      cases hinteger with
      | decimal hwhole => simpa using written_decimal (.whole hwhole) .none
      | marked hmark hrun => exact written_marked hmark hrun
      | octal hne hrun => exact written_octal hne hrun
    · exact written_long hinteger (by simp)
    · exact written_long hinteger (by simp)
  | @decimal mantissa exponent suffix m e hmantissa hexponent hsuffix =>
    simp only [List.mem_cons, List.not_mem_nil, or_false] at hsuffix
    rcases hsuffix with rfl | rfl | rfl | rfl | rfl
    · rw [List.append_nil]
      exact written_decimal hmantissa hexponent
    all_goals exact written_suffixed hmantissa hexponent (by simp)

/-- A long number of base sixteen with an underscore keeps its value. -/
theorem isScriptNumber_hexLong :
    IsJavaNumber "0x1F_FFL".toList (0x1FFF : ℕ) ∧
      IsScriptNumber (render "0x1F_FFL").toList (0x1FFF : ℕ) := by
  have htext : "0x1F_FFL".toList = '0' :: 'x' :: ['1', 'F', '_', 'F', 'F'] ++ ['L'] := by decide
  have hrun : IsRun 16 ['1', 'F', '_', 'F', 'F'] := ⟨by simp [digit?], by simp, by simp, by simp⟩
  have hvalue : wholeValue 16 ['1', 'F', '_', 'F', 'F'] = 0x1FFF := by decide
  have hnumber : IsJavaNumber "0x1F_FFL".toList (0x1FFF : ℕ) := by
    rw [htext, ← hvalue]
    exact .integer (.marked (by simp) hrun) (by simp)
  refine ⟨hnumber, (isScriptNumber_render_iff hnumber).2 fun hslips => ?_⟩
  rw [htext] at hslips
  have hdoubled := doubled_of_slips_marked (by simp [isOctal])
    (fun hsplit => hsplit.1 'x' _ rfl (by simp)) hslips
  revert hdoubled
  rw [Doubled]
  decide

/-- An octal number with a long suffix is no number of strict mode any more. -/
theorem octalLong_lost :
    IsJavaNumber "017L".toList (15 : ℕ) ∧ ∀ value, ¬ IsScriptNumber (render "017L").toList value := by
  have htext : "017L".toList = '0' :: ['1', '7'] ++ ['L'] := by decide
  have hrun : IsRun 8 ('0' :: ['1', '7']) := ⟨by simp [digit?], by simp, by simp, by simp⟩
  have hvalue : wholeValue 8 ('0' :: ['1', '7']) = 15 := by decide
  constructor
  · rw [htext, ← hvalue]
    exact .integer (.octal (by simp) hrun) (by simp)
  · have hrender : (render "017L").toList = '0' :: ['1', '7'] := by decide
    rw [hrender]
    exact fun value h => not_isNumeral_run (by simp) hrun h.1

end Recast.Literal
