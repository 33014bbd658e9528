import Mathlib
import Recast.Text.Quoted

/-!
Quoted texts tell texts apart.

Inside quotes every character is written in one of three ways (`quoteChar_cases`), of which no one is
the beginning of another (`quoteChar_append_inj`). So a text can be told from what is between its
quotes, and the quote that it has from the first character (`quoteWith_injective`).
-/

namespace Recast.Text

variable {quote c d : Char} {shown : Char → Bool} {rest rest' : List Char}

theorem length_hexDigits (width n : Nat) : (hexDigits width n).length = width := by
  induction width generalizing n with
  | zero => rfl
  | succ width ih => rw [hexDigits, List.length_append, ih, List.length_singleton]

/-- Digits tell numbers apart, as far as there are digits. -/
theorem hexDigits_inj {width n m : Nat} (h : hexDigits width n = hexDigits width m) :
    n % 16 ^ width = m % 16 ^ width := by
  induction width generalizing n m with
  | zero => rw [Nat.pow_zero, Nat.mod_one, Nat.mod_one]
  | succ width ih =>
    have hdigit : ∀ a < 16, ∀ b < 16, Nat.digitChar a = Nat.digitChar b → a = b := by decide
    obtain ⟨hhigh, hlow⟩ := List.append_inj' h rfl
    have hlast := hdigit _ (Nat.mod_lt n (by decide)) _ (Nat.mod_lt m (by decide))
      (List.cons.inj hlow).1
    rw [Nat.pow_succ, Nat.mul_comm, Nat.mod_mul, Nat.mod_mul, hlast, ih hhigh]

/-- The letters that a character's code is announced with, and the number of its digits. -/
def codeMarks : List (Char × Nat) := [('x', 2), ('u', 4), ('U', 8)]

theorem escapeCode_eq (c : Char) : ∃ mark ∈ codeMarks,
    escapeCode c = '\\' :: mark.1 :: hexDigits mark.2 c.toNat ∧ c.toNat < 16 ^ mark.2 := by
  have hbound : c.toNat < 0x110000 := by
    have hvalid := c.valid
    simp only [UInt32.isValidChar, Nat.isValidChar] at hvalid
    simp only [Char.toNat]
    omega
  by_cases hbyte : c.toNat < 0x100
  · exact ⟨('x', 2), by decide, by simp [escapeCode, hbyte], hbyte⟩
  · by_cases hword : c.toNat < 0x10000
    · exact ⟨('u', 4), by decide, by simp [escapeCode, hbyte, hword], hword⟩
    · exact ⟨('U', 8), by decide, by simp [escapeCode, hbyte, hword],
        Nat.lt_of_lt_of_le hbound (by decide)⟩

/-- The characters that are written with a backslash and one more character, and that character. -/
def IsEscape (quote c e : Char) : Prop :=
  e = c ∧ (c = quote ∨ c = '\\') ∨ e = 't' ∧ c = '\t' ∨ e = 'n' ∧ c = '\n' ∨ e = 'r' ∧ c = '\r'

theorem quoteChar_cases (quote : Char) (shown : Char → Bool) (c : Char) :
    (quoteChar quote shown c = [c] ∧ c ≠ '\\') ∨
      (∃ e, quoteChar quote shown c = ['\\', e] ∧ IsEscape quote c e) ∨
      ∃ mark ∈ codeMarks, quoteChar quote shown c = '\\' :: mark.1 :: hexDigits mark.2 c.toNat ∧
        c.toNat < 16 ^ mark.2 := by
  unfold quoteChar
  split_ifs with hself htab hline hreturn hshown
  · exact .inr (.inl ⟨c, rfl, .inl ⟨rfl, hself⟩⟩)
  · exact .inr (.inl ⟨'t', rfl, .inr (.inl ⟨rfl, htab⟩)⟩)
  · exact .inr (.inl ⟨'n', rfl, .inr (.inr (.inl ⟨rfl, hline⟩))⟩)
  · exact .inr (.inl ⟨'r', rfl, .inr (.inr (.inr ⟨rfl, hreturn⟩))⟩)
  · exact .inl ⟨rfl, fun hbackslash => hself (.inr hbackslash)⟩
  · exact .inr (.inr (escapeCode_eq c))

theorem IsEscape.inj {e : Char} (hc : IsEscape quote c e) (hd : IsEscape quote d e)
    (hquote : quote = '\'' ∨ quote = '"') : c = d := by
  unfold IsEscape at hc hd
  grind

theorem IsEscape.not_mark {mark : Char × Nat} (hmark : mark ∈ codeMarks)
    (hquote : quote = '\'' ∨ quote = '"') : ¬ IsEscape quote c mark.1 := by
  simp only [codeMarks, List.mem_cons, List.not_mem_nil, or_false] at hmark
  unfold IsEscape
  grind

/-- What a character is written as is not the beginning of what another one is. -/
theorem quoteChar_append_inj (hquote : quote = '\'' ∨ quote = '"')
    (h : quoteChar quote shown c ++ rest = quoteChar quote shown d ++ rest') :
    c = d ∧ rest = rest' := by
  rcases quoteChar_cases quote shown c with ⟨hc, hcne⟩ | ⟨e, hc, hce⟩ | ⟨mark, hmark, hc, hcbound⟩ <;>
    rcases quoteChar_cases quote shown d with ⟨hd, hdne⟩ | ⟨f, hd, hdf⟩ | ⟨mark', hmark', hd, hdbound⟩ <;>
    rw [hc, hd] at h <;> simp only [List.cons_append, List.nil_append, List.cons.injEq] at h
  -- one character as it is, with each of the three
  · exact h
  · exact absurd h.1 hcne
  · exact absurd h.1 hcne
  -- a backslash and a character
  · exact absurd h.1.symm hdne
  · obtain ⟨-, rfl, hrest⟩ := h
    exact ⟨hce.inj hdf hquote, hrest⟩
  · obtain ⟨-, rfl, -⟩ := h
    exact absurd hce (IsEscape.not_mark hmark' hquote)
  -- a code
  · exact absurd h.1.symm hdne
  · obtain ⟨-, rfl, -⟩ := h
    exact absurd hdf (IsEscape.not_mark hmark hquote)
  · obtain ⟨-, hsame, hdigits⟩ := h
    have hwidth : mark.2 = mark'.2 := by
      simp only [codeMarks, List.mem_cons, List.not_mem_nil, or_false] at hmark hmark'
      grind
    rw [hwidth] at hdigits hcbound
    obtain ⟨hcode, hrest⟩ := List.append_inj hdigits (by simp only [length_hexDigits])
    have hnat := hexDigits_inj hcode
    rw [Nat.mod_eq_of_lt hcbound, Nat.mod_eq_of_lt hdbound] at hnat
    exact ⟨Char.toNat_inj.1 hnat, hrest⟩

theorem quoteChar_ne_nil (quote : Char) (shown : Char → Bool) (c : Char) :
    quoteChar quote shown c ≠ [] := by
  rcases quoteChar_cases quote shown c with ⟨hc, -⟩ | ⟨e, hc, -⟩ | ⟨mark, -, hc, -⟩ <;> rw [hc] <;> nofun

theorem flatMap_quoteChar_inj (hquote : quote = '\'' ∨ quote = '"') {a b : List Char}
    (h : a.flatMap (quoteChar quote shown) = b.flatMap (quoteChar quote shown)) : a = b := by
  induction a generalizing b with
  | nil =>
    cases b with
    | nil => rfl
    | cons d b => exact absurd (List.append_eq_nil_iff.1 h.symm).1 (quoteChar_ne_nil quote shown d)
  | cons c a ih =>
    cases b with
    | nil => exact absurd (List.append_eq_nil_iff.1 h).1 (quoteChar_ne_nil quote shown c)
    | cons d b =>
      obtain ⟨rfl, hrest⟩ := quoteChar_append_inj hquote h
      rw [ih hrest]

/-- Texts are equal if they are equal between quotes. -/
theorem quoteWith_injective (shown : Char → Bool) : Function.Injective (quoteWith shown) := by
  intro a b h
  have hlist := String.ofList_injective h
  simp only [List.cons_append, List.cons.injEq] at hlist
  obtain ⟨hquote, hbody⟩ := hlist
  rw [hquote] at hbody
  have hchars := List.append_cancel_right hbody
  refine String.toList_injective (flatMap_quoteChar_inj ?_ hchars)
  split
  · exact .inr rfl
  · exact .inl rfl

theorem quote_injective : Function.Injective Text.quote := quoteWith_injective prints

end Recast.Text
