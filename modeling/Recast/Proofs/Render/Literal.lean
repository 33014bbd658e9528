import Mathlib
import Recast.Proofs.Grammar.Token
import Recast.Render.Literal

/-!
Rendered literals as tokens.

A number is written as a number again: a suffix is dropped from it, or the `o` of an octal number
is put in. Quoted literals and the words that are literals stay as they are.
-/

namespace Recast.Literal

open Recast.Grammar

theorem dropSuffix?_eq_some {suffixes text rest : List Char} :
    dropSuffix? suffixes text = some rest → ∃ c ∈ suffixes, text = rest ++ [c] := by
  intro h
  unfold dropSuffix? at h
  split at h
  · rename_i c reversed hreverse
    split at h
    · rename_i hc
      obtain rfl := Option.some.inj h
      refine ⟨c, by simpa using hc, ?_⟩
      rw [← List.reverse_reverse text, hreverse, List.reverse_cons]
    · cases h
  · cases h

/-! ### Characters -/

/-- The characters of a number are those of its spelling in Java, and perhaps an `o`. -/
theorem mem_of_number? {text number : List Char} {c : Char} (h : number? text = some number)
    (hc : c ∈ number) : c ∈ text ∨ c = 'o' := by
  have hdrop : ∀ {suffixes rest : List Char}, dropSuffix? suffixes text = some rest →
      rest ⊆ text := by
    intro suffixes rest hdrop
    obtain ⟨last, -, rfl⟩ := dropSuffix?_eq_some hdrop
    exact List.subset_append_left ..
  unfold number? at h
  rcases Option.or_eq_some_iff.1 h with hlong | ⟨-, h⟩
  · exact .inl (hdrop (Option.filter_eq_some_iff.1 hlong).1 hc)
  · rcases Option.or_eq_some_iff.1 h with hfloat | ⟨-, hoctal⟩
    · unfold suffixedFloat? at hfloat
      split at hfloat
      · cases hfloat
      · exact .inl (hdrop (Option.filter_eq_some_iff.1 hfloat).1 hc)
    · unfold octal? at hoctal
      split at hoctal
      · split at hoctal
        · obtain rfl := Option.some.inj hoctal
          grind
        · cases hoctal
      · cases hoctal

/-- The characters of a literal are those of its spelling in Java, and perhaps an `o`. -/
theorem mem_of_mem_render {value : String} {c : Char} (h : c ∈ (render value).toList) :
    c ∈ value.toList ∨ c = 'o' := by
  rw [render, String.toList_ofList] at h
  rcases hnumber : number? ((dropSuffix? ['\n'] value.toList).getD value.toList) with _ | number
  · rw [hnumber] at h
    exact .inl h
  · rw [hnumber] at h
    refine (mem_of_number? hnumber h).imp_left fun hmem => ?_
    cases hdrop : dropSuffix? ['\n'] value.toList with
    | none => simpa [hdrop] using hmem
    | some rest =>
      obtain ⟨last, -, htext⟩ := dropSuffix?_eq_some hdrop
      rw [htext]
      exact List.mem_append_left _ (by simpa [hdrop] using hmem)

/-! ### Numbers -/

/-- What goes on a number may be cut before its last letter. -/
theorem isNumberTail_of_append {text : List Char} {c : Char} (hsign : c ∉ ['+', '-'])
    (h : isNumberTail (text ++ [c])) : isNumberTail text := by
  fun_induction isNumberTail text with
  | case1 => rfl
  | case2 d =>
    simp only [List.cons_append, List.nil_append, isNumberTail, hsign, and_false, if_false,
      Bool.and_eq_true] at h
    exact h.1
  | case3 d e rest hexp ih =>
    simp only [List.cons_append, isNumberTail, hexp, and_self, if_true] at h
    exact ih h
  | case4 d e rest hexp ih =>
    simp only [List.cons_append, isNumberTail, hexp, if_false, Bool.and_eq_true] at h ⊢
    exact ⟨h.1, ih h.2⟩

/-- A number may be cut before its last letter. -/
theorem isNumber_of_append {text : List Char} {c : Char} (hdigit : c.isDigit = false)
    (hsign : c ∉ ['+', '-']) (h : isNumber (text ++ [c])) : isNumber text := by
  fun_cases isNumber text with
  | case1 =>
    have hpoint : c ≠ '.' := by
      rintro rfl
      cases h
    simp [isNumber, hpoint, hdigit] at h
  | case2 => simp [isNumber, hdigit] at h
  | case3 d rest =>
    simp only [List.cons_append, isNumber, if_true, Bool.and_eq_true] at h ⊢
    exact ⟨h.1, isNumberTail_of_append hsign h.2⟩
  | case4 d rest hpoint =>
    simp only [List.cons_append, isNumber, hpoint, if_false, Bool.and_eq_true] at h ⊢
    exact ⟨h.1, isNumberTail_of_append hsign h.2⟩

theorem isNumber_of_dropSuffix? {suffixes text rest : List Char}
    (hsuffixes : ∀ c ∈ suffixes, c.isDigit = false ∧ c ∉ ['+', '-'])
    (h : isNumber text) (hdrop : dropSuffix? suffixes text = some rest) : isNumber rest := by
  obtain ⟨c, hc, rfl⟩ := dropSuffix?_eq_some hdrop
  exact isNumber_of_append (hsuffixes c hc).1 (hsuffixes c hc).2 h

theorem isNumber_octal {text octal : List Char} (h : isNumber text)
    (hoctal : octal? text = some octal) : isNumber octal := by
  unfold octal? at hoctal
  split at hoctal
  · rename_i digits
    split at hoctal
    · obtain rfl := Option.some.inj hoctal
      have htail : isNumberTail digits := by simpa [isNumber] using h
      have ho : isWordPart 'o' := by decide
      cases digits with
      | nil => simp [isNumber, isNumberTail, ho]
      | cons d digits => simpa [isNumber, isNumberTail, ho] using htail
    · cases hoctal
  · cases hoctal

/-- A number is written as a number. -/
theorem isNumber_render {value : String} (h : isNumber value.toList) :
    isNumber (render value).toList := by
  have hline : dropSuffix? ['\n'] value.toList = none := by
    rw [Option.eq_none_iff_forall_not_mem]
    intro rest hrest
    obtain ⟨c, hc, htext⟩ := dropSuffix?_eq_some hrest
    have hpart := isNumberPart_of_isNumber h c (by simp [htext])
    rw [List.mem_singleton.1 hc] at hpart
    exact absurd hpart (by decide)
  rw [render, hline]
  simp only [Option.getD_none, String.toList_ofList]
  cases hnumber : number? value.toList with
  | none => exact h
  | some text =>
    rw [number?, Option.or_eq_some_iff, Option.or_eq_some_iff] at hnumber
    rcases hnumber with hlong | ⟨-, hfloat | ⟨-, hoctal⟩⟩
    · exact isNumber_of_dropSuffix? (by simp) h (Option.filter_eq_some_iff.1 hlong).1
    · rw [suffixedFloat?] at hfloat
      split at hfloat
      · cases hfloat
      · exact isNumber_of_dropSuffix? (by simp) h (Option.filter_eq_some_iff.1 hfloat).1
    · exact isNumber_octal h hoctal

/-! ### Other literals -/

/-- A text that starts with a quote is no number, with or without its last character. -/
theorem number?_eq_none {text : List Char} (h : ∀ c ∈ text.head?, c = '"' ∨ c = '\'') :
    number? text = none := by
  have hdrop : ∀ suffixes rest, dropSuffix? suffixes text = some rest →
      isInteger rest = false ∧ isFloat rest = false := by
    intro suffixes rest hdrop
    obtain ⟨c, hc, rfl⟩ := dropSuffix?_eq_some hdrop
    cases rest with
    | nil => exact ⟨rfl, rfl⟩
    | cons d rest => rcases h d rfl with rfl | rfl <;> exact ⟨rfl, rfl⟩
  have hlong : longInteger? text = none := by
    rw [longInteger?, Option.filter_eq_none_iff]
    intro rest hrest
    simp [(hdrop _ rest hrest).1]
  have hfloat : suffixedFloat? text = none := by
    rw [suffixedFloat?]
    split
    · rfl
    · rw [Option.filter_eq_none_iff]
      intro rest hrest
      simp [(hdrop _ rest hrest).2]
  have hoctal : octal? text = none := by
    cases text with
    | nil => rfl
    | cons c rest => rcases h c rfl with rfl | rfl <;> rfl
  rw [number?, hlong, hfloat, hoctal]
  rfl

theorem render_quoted {value : String} (h : isQuoted value.toList) : render value = value := by
  have hquote : ∀ c ∈ value.toList.head?, c = '"' ∨ c = '\'' := by
    intro c hc
    cases htext : value.toList with
    | nil =>
      rw [htext] at hc
      cases hc
    | cons d rest =>
      rw [htext] at h hc
      obtain rfl : d = c := by simpa using hc
      simp only [isQuoted, Bool.and_eq_true, decide_eq_true_eq] at h
      exact h.1
  have hline : ∀ c ∈ ((dropSuffix? ['\n'] value.toList).getD value.toList).head?,
      c = '"' ∨ c = '\'' := by
    cases hdrop : dropSuffix? ['\n'] value.toList with
    | none => exact hquote
    | some rest =>
      obtain ⟨d, -, htext⟩ := dropSuffix?_eq_some hdrop
      intro c hc
      refine hquote c ?_
      rw [htext]
      cases rest with
      | nil => cases hc
      | cons => exact hc
  rw [render, number?_eq_none hline]
  exact String.ofList_toList

theorem render_keyword : ∀ value ∈ ["true", "false", "null"], render value = value := by
  decide

end Recast.Literal
