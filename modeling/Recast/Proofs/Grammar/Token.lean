import Mathlib
import Recast.Text.Blank

/-!
Tokens of TypeScript expressions.

A text is cut into tokens from left to right, and each token is as long as it can be: `Lexes` says
so, with blanks between tokens. What counts as a token is decided by `Token.ofChars?`: a word, a
number, a quoted literal, or one of the signs of the language, where all its signs count and not
only those that expressions are made of, since a longer sign could swallow a shorter one.

A text has at most one list of tokens (`Lexes.unique`). The lemmas on `Maximal` say after which
characters a token ends.
-/

namespace Recast.Grammar

/-! ### What is a token -/

def isWordStart (c : Char) : Bool :=
  !Text.isBlank c && (c.isAlpha || c == '_' || c == '$' || decide (128 ≤ c.toNat))

def isWordPart (c : Char) : Bool := isWordStart c || c.isDigit

/-- Whether a text is a word: a name or a keyword. -/
def isWord : List Char → Bool
  | [] => false
  | c :: rest => isWordStart c && rest.all isWordPart

/-- Whether a text goes on a number: letters, digits, points, and the sign of an exponent. -/
def isNumberTail : List Char → Bool
  | [] => true
  | [c] => isWordPart c || c == '.'
  | c :: d :: rest =>
    if c ∈ ['e', 'E', 'p', 'P'] ∧ d ∈ ['+', '-'] then isNumberTail rest
    else (isWordPart c || c == '.') && isNumberTail (d :: rest)

/-- Whether a text is a number: it starts with a digit, or with a point and a digit. -/
def isNumber : List Char → Bool
  | [] => false
  | c :: rest =>
    if c = '.' then
      match rest with
      | [] => false
      | d :: rest => d.isDigit && isNumberTail rest
    else c.isDigit && isNumberTail rest

/-- What follows the quote that closes a literal; none if the line ends first. -/
def afterQuote (quote : Char) : List Char → Option (List Char)
  | [] => none
  | c :: rest =>
    if c = quote then some rest
    else if c = '\n' ∨ c = '\r' then none
    else if c = '\\' then
      match rest with
      | [] => none
      | _ :: rest => afterQuote quote rest
    else afterQuote quote rest

/-- Whether a text is a quoted literal. -/
def isQuoted : List Char → Bool
  | c :: rest => decide (c = '"' ∨ c = '\'') && decide (afterQuote c rest = some [])
  | [] => false

/-- The signs of the language, and the two that open a comment. -/
def signs : List String :=
  ["\x7b", "\x7d", "(", ")", "[", "]", ".", "...", ";", ",", "<", ">", "<=", ">=", "==", "!=",
   "===", "!==", "+", "-", "*", "/", "%", "**", "++", "--", "<<", ">>", ">>>", "&", "|", "^", "!",
   "~", "&&", "||", "??", "?", "?.", ":", "=", "+=", "-=", "*=", "**=", "/=", "%=", "<<=", ">>=",
   ">>>=", "&=", "|=", "^=", "&&=", "||=", "??=", "=>", "@", "#", "//", "/*"]

/-- A token of an expression. -/
inductive Token where
  | name (text : String)
  | literal (text : String)
  | this
  /-- A sign, or the keyword of an operator. -/
  | sign (text : String)
deriving DecidableEq, Repr

/-- The words that are no names. -/
def keywords : List String := ["this", "instanceof", "true", "false", "null"]

/-- Whether a text is a name. -/
def isName (text : String) : Bool := isWord text.toList && decide (text ∉ keywords)

/-- The token that a word is. -/
def Token.ofWord (word : String) : Token :=
  if word = "this" then .this
  else if word = "instanceof" then .sign word
  else if word ∈ ["true", "false", "null"] then .literal word
  else .name word

/-- The token that a text is, if it is one. -/
def Token.ofChars? (text : List Char) : Option Token :=
  let spelling := String.ofList text
  if isWord text then some (.ofWord spelling)
  else if isNumber text || isQuoted text then some (.literal spelling)
  else if spelling ∈ signs then some (.sign spelling)
  else none

/-- Whether a token ends where a rest begins: no longer text that begins there is a token. -/
def Maximal (text rest : List Char) : Prop :=
  ∀ more, more ≠ [] → more <+: rest → Token.ofChars? (text ++ more) = none

/-- The tokens of a text, each as long as it can be. -/
inductive Lexes : List Char → List Token → Prop where
  | nil : Lexes [] []
  | blank {c : Char} {rest : List Char} {tokens : List Token} :
    Text.isBlank c → Lexes rest tokens → Lexes (c :: rest) tokens
  | token {text rest : List Char} {token : Token} {tokens : List Token} :
    Token.ofChars? text = some token → Maximal text rest → Lexes rest tokens →
    Lexes (text ++ rest) (token :: tokens)

/-! ### Tokens by how they start -/

/-- The four ways in which a token can start. -/
def startsWord : List Char → Bool
  | c :: _ => isWordStart c
  | [] => false

def startsNumber : List Char → Bool
  | c :: rest => if c = '.' then rest.head?.any Char.isDigit else c.isDigit
  | [] => false

def startsQuoted : List Char → Bool
  | c :: _ => decide (c = '"' ∨ c = '\'')
  | [] => false

theorem startsWord_of_isWord {text : List Char} (h : isWord text) (rest : List Char) :
    startsWord (text ++ rest) := by
  cases text with
  | nil => cases h
  | cons c text =>
    simp only [isWord, Bool.and_eq_true] at h
    exact h.1

theorem startsNumber_of_isNumber {text : List Char} (h : isNumber text) (rest : List Char) :
    startsNumber (text ++ rest) := by
  fun_cases isNumber text with
  | case1 => cases h
  | case2 => cases h
  | case3 d tail =>
    simp only [isNumber, if_true, Bool.and_eq_true] at h
    simpa [startsNumber] using h.1
  | case4 c tail hpoint =>
    simp only [isNumber, hpoint, if_false, Bool.and_eq_true] at h
    simpa [startsNumber, hpoint] using h.1

theorem startsQuoted_of_isQuoted {text : List Char} (h : isQuoted text) (rest : List Char) :
    startsQuoted (text ++ rest) := by
  cases text with
  | nil => cases h
  | cons c text =>
    simp only [isQuoted, Bool.and_eq_true] at h
    exact h.1

theorem isDigit_iff (c : Char) : c.isDigit = true ↔ 48 ≤ c.toNat ∧ c.toNat ≤ 57 := by
  simp only [Char.isDigit, Bool.and_eq_true, decide_eq_true_eq, ge_iff_le, UInt32.le_iff_toNat_le]
  exact Iff.rfl

theorem isWordStart_toNat {c : Char} (h : isWordStart c) : c.toNat = 36 ∨ 65 ≤ c.toNat := by
  simp only [isWordStart, Bool.and_eq_true, Bool.or_eq_true, beq_iff_eq, decide_eq_true_eq,
    Char.isAlpha, Char.isUpper, Char.isLower, ge_iff_le, UInt32.le_iff_toNat_le] at h
  obtain ⟨-, (((hupper | hlower) | rfl) | rfl) | hwide⟩ := h
  · exact Or.inr hupper.1
  · exact Or.inr (le_trans (by decide) hlower.1)
  · exact Or.inr (by decide)
  · exact Or.inl rfl
  · exact Or.inr (by omega)

/-- A word does not start like a number or a quoted literal. -/
theorem starts_of_startsWord {text : List Char} (h : startsWord text) :
    startsNumber text = false ∧ startsQuoted text = false := by
  cases text with
  | nil => exact ⟨rfl, rfl⟩
  | cons c rest =>
    have hcode := isWordStart_toNat h
    have hne : ∀ d : Char, d.toNat < 65 → d.toNat ≠ 36 → c ≠ d := by
      rintro d hd hd' rfl
      omega
    have hdigit : c.isDigit = false := by
      rw [Bool.eq_false_iff, Ne, isDigit_iff]
      omega
    constructor
    · simp [startsNumber, hne '.' (by decide) (by decide), hdigit]
    · simp [startsQuoted, hne '"' (by decide) (by decide), hne '\'' (by decide) (by decide)]

theorem not_startsWord_of_startsNumber {text : List Char} (h : startsNumber text) :
    startsWord text = false := by
  rw [Bool.eq_false_iff]
  intro hword
  rw [(starts_of_startsWord hword).1] at h
  cases h

theorem not_startsWord_of_startsQuoted {text : List Char} (h : startsQuoted text) :
    startsWord text = false := by
  rw [Bool.eq_false_iff]
  intro hword
  rw [(starts_of_startsWord hword).2] at h
  cases h

/-- A quoted literal does not start like a number. -/
theorem not_startsNumber_of_startsQuoted {text : List Char} (h : startsQuoted text) :
    startsNumber text = false := by
  cases text with
  | nil => rfl
  | cons c rest =>
    have hc : c = '"' ∨ c = '\'' := of_decide_eq_true h
    rcases hc with rfl | rfl <;> rfl

/-- No sign starts like a word, a number or a quoted literal. -/
theorem signs_start : ∀ s ∈ signs, s.toList ≠ [] ∧ startsWord s.toList = false ∧
    startsNumber s.toList = false ∧ startsQuoted s.toList = false ∧
    s.toList.head?.any Text.isBlank = false := by
  decide

/-- A text is a token in at most one way. -/
theorem ofChars?_eq_none {text : List Char} (hword : isWord text = false)
    (hnumber : isNumber text = false) (hquoted : isQuoted text = false)
    (hsign : String.ofList text ∉ signs) : Token.ofChars? text = none := by
  simp [Token.ofChars?, hword, hnumber, hquoted, hsign]

theorem ofChars?_word {text : List Char} (h : isWord text) :
    Token.ofChars? text = some (.ofWord (String.ofList text)) := by
  simp [Token.ofChars?, h]

theorem isWord_eq_false {text : List Char} (h : startsWord text = false) : isWord text = false := by
  rw [Bool.eq_false_iff]
  intro hword
  have hstart := startsWord_of_isWord hword []
  rw [List.append_nil, h] at hstart
  cases hstart

theorem isNumber_eq_false {text : List Char} (h : startsNumber text = false) :
    isNumber text = false := by
  rw [Bool.eq_false_iff]
  intro hnumber
  have hstart := startsNumber_of_isNumber hnumber []
  rw [List.append_nil, h] at hstart
  cases hstart

theorem isQuoted_eq_false {text : List Char} (h : startsQuoted text = false) :
    isQuoted text = false := by
  rw [Bool.eq_false_iff]
  intro hquoted
  have hstart := startsQuoted_of_isQuoted hquoted []
  rw [List.append_nil, h] at hstart
  cases hstart

theorem ofList_not_mem_signs {text : List Char}
    (h : startsWord text = true ∨ startsNumber text = true ∨ startsQuoted text = true) :
    String.ofList text ∉ signs := by
  intro hsign
  obtain ⟨-, hword, hnumber, hquoted, -⟩ := signs_start _ hsign
  simp only [String.toList_ofList] at hword hnumber hquoted
  simp [hword, hnumber, hquoted] at h

/-! ### Where a token ends -/

theorem maximal_nil (text : List Char) : Maximal text [] := by
  intro more hmore hprefix
  exact absurd (List.prefix_nil.1 hprefix) hmore

theorem maximal_cons {text rest : List Char} {c : Char}
    (h : ∀ more, Token.ofChars? (text ++ c :: more) = none) : Maximal text (c :: rest) := by
  intro more hmore hprefix
  cases more with
  | nil => exact absurd rfl hmore
  | cons d more =>
    obtain ⟨rfl, -⟩ := List.cons_prefix_cons.1 hprefix
    exact h more

/-- A word ends before any character that is no part of words. -/
theorem maximal_word {text rest : List Char} {c : Char} (h : isWord text)
    (hc : isWordPart c = false) : Maximal text (c :: rest) := by
  refine maximal_cons fun more => ?_
  have hstart := startsWord_of_isWord h (c :: more)
  obtain ⟨hnumber, hquoted⟩ := starts_of_startsWord hstart
  refine ofChars?_eq_none ?_ (isNumber_eq_false hnumber) (isQuoted_eq_false hquoted)
    (ofList_not_mem_signs (Or.inl hstart))
  cases text with
  | nil => cases h
  | cons d text => simp [isWord, hc]

/-- The characters that numbers are made of. -/
def isNumberPart (c : Char) : Bool := isWordPart c || c ∈ ['.', '+', '-']

theorem isNumberPart_of_isNumberTail {text : List Char} (h : isNumberTail text) :
    ∀ c ∈ text, isNumberPart c := by
  fun_induction isNumberTail text with
  | case1 => simp
  | case2 c =>
    simp only [List.mem_singleton, forall_eq]
    simp only [Bool.or_eq_true, beq_iff_eq] at h
    rcases h with h | rfl
    · simp [isNumberPart, h]
    · rfl
  | case3 c d rest hexp ih =>
    obtain ⟨hc, hd⟩ := hexp
    have hletter : isNumberPart c := by
      simp only [List.mem_cons, List.not_mem_nil, or_false] at hc
      rcases hc with rfl | rfl | rfl | rfl <;> decide
    have hsign : isNumberPart d := by
      simp only [List.mem_cons, List.not_mem_nil, or_false] at hd
      rcases hd with rfl | rfl <;> decide
    simpa using ⟨hletter, hsign, ih h⟩
  | case4 c d rest hexp ih =>
    simp only [Bool.and_eq_true, Bool.or_eq_true, beq_iff_eq] at h
    have hc : isNumberPart c := by
      rcases h.1 with hpart | rfl
      · simp [isNumberPart, hpart]
      · rfl
    intro x hx
    rcases List.mem_cons.1 hx with rfl | hx
    · exact hc
    · exact ih h.2 x hx

theorem isNumberPart_of_isNumber {text : List Char} (h : isNumber text) :
    ∀ c ∈ text, isNumberPart c := by
  have hdigit : ∀ c : Char, c.isDigit → isNumberPart c := fun c hc => by
    simp [isNumberPart, isWordPart, hc]
  fun_cases isNumber text with
  | case1 => cases h
  | case2 => cases h
  | case3 d tail =>
    simp only [isNumber, if_true, Bool.and_eq_true] at h
    simpa using ⟨by decide, hdigit d h.1, isNumberPart_of_isNumberTail h.2⟩
  | case4 c tail hpoint =>
    simp only [isNumber, hpoint, if_false, Bool.and_eq_true] at h
    simpa using ⟨hdigit c h.1, isNumberPart_of_isNumberTail h.2⟩

/-- A number ends before any character that is no part of numbers. -/
theorem maximal_number {text rest : List Char} {c : Char} (h : isNumber text)
    (hc : isNumberPart c = false) : Maximal text (c :: rest) := by
  refine maximal_cons fun more => ?_
  have hstart := startsNumber_of_isNumber h (c :: more)
  have hword := not_startsWord_of_startsNumber hstart
  have hquoted : startsQuoted (text ++ c :: more) = false := by
    rw [Bool.eq_false_iff]
    intro hquoted
    rw [not_startsNumber_of_startsQuoted hquoted] at hstart
    cases hstart
  refine ofChars?_eq_none (isWord_eq_false hword) ?_ (isQuoted_eq_false hquoted)
    (ofList_not_mem_signs (Or.inr (Or.inl hstart)))
  rw [Bool.eq_false_iff]
  intro hnumber
  have hpart := isNumberPart_of_isNumber hnumber c (by simp)
  rw [hc] at hpart
  cases hpart

theorem afterQuote_append {quote : Char} {text rest : List Char} (more : List Char)
    (h : afterQuote quote text = some rest) :
    afterQuote quote (text ++ more) = some (rest ++ more) := by
  fun_induction afterQuote quote text with
  | case1 | case3 | case4 => cases h
  | case2 rest' =>
    obtain rfl := Option.some.inj h
    rw [List.cons_append, afterQuote.eq_def]
    simp
  | case5 d rest' hquote hline ih => simpa [afterQuote, hquote] using ih h
  | case6 c rest' hquote hline hescape ih =>
    rw [List.cons_append, afterQuote.eq_def]
    simpa [hquote, hline, hescape] using ih h

/-- A quoted literal ends at its quote, whatever follows. -/
theorem maximal_quoted {text : List Char} (rest : List Char) (h : isQuoted text) :
    Maximal text rest := by
  intro more hmore _
  have hstart := startsQuoted_of_isQuoted h more
  have hnumber := not_startsNumber_of_startsQuoted hstart
  have hword := not_startsWord_of_startsQuoted hstart
  refine ofChars?_eq_none (isWord_eq_false hword) (isNumber_eq_false hnumber) ?_
    (ofList_not_mem_signs (Or.inr (Or.inr hstart)))
  cases text with
  | nil => cases h
  | cons c text =>
    simp only [isQuoted, Bool.and_eq_true, decide_eq_true_eq] at h
    simp [isQuoted, afterQuote_append more h.2, hmore]

/-- A sign ends before a character that makes no other sign longer, and no number. -/
theorem maximal_sign {sign : String} {rest : List Char} {c : Char} (hsign : sign ∈ signs)
    (hlonger : ∀ other ∈ signs, ¬ (sign.toList ++ [c]) <+: other.toList)
    (hnumber : sign = "." → c.isDigit = false) : Maximal sign.toList (c :: rest) := by
  obtain ⟨hne, hword, hdigit, hquoted, -⟩ := signs_start sign hsign
  obtain ⟨d, text, htext⟩ := List.exists_cons_of_ne_nil hne
  rw [htext] at hword hdigit hquoted
  refine maximal_cons fun more => ofChars?_eq_none ?_ ?_ ?_ ?_
  · rw [htext]
    exact isWord_eq_false hword
  · rw [htext]
    refine isNumber_eq_false ?_
    simp only [startsNumber, List.cons_append] at hdigit ⊢
    split at hdigit <;> rename_i hpoint
    · rw [if_pos hpoint]
      cases text with
      | nil => exact hnumber (String.toList_injective (by rw [htext, hpoint]; rfl))
      | cons => exact hdigit
    · rw [if_neg hpoint]
      exact hdigit
  · rw [htext]
    exact isQuoted_eq_false hquoted
  · intro hlong
    refine hlonger _ hlong ⟨more, ?_⟩
    simp

/-! ### The tokens of a text -/

theorem isDigit_not_isBlank {c : Char} (h : c.isDigit) : Text.isBlank c = false := by
  rw [isDigit_iff] at h
  simp only [Text.isBlank, Bool.or_eq_false_iff, Bool.and_eq_false_iff, decide_eq_false_iff_not,
    beq_eq_false_iff_ne]
  omega

/-- A text that starts like a token is not empty, and does not start with a blank. -/
theorem not_isBlank_of_starts {text : List Char}
    (h : startsWord text = true ∨ startsNumber text = true ∨ startsQuoted text = true) :
    ∃ c rest, text = c :: rest ∧ Text.isBlank c = false := by
  cases text with
  | nil => simp [startsWord, startsNumber, startsQuoted] at h
  | cons c rest =>
    refine ⟨c, rest, rfl, ?_⟩
    rcases h with hword | hnumber | hquoted
    · simp only [startsWord, isWordStart, Bool.and_eq_true, Bool.not_eq_true'] at hword
      exact hword.1
    · simp only [startsNumber] at hnumber
      split at hnumber <;> rename_i hpoint
      · rw [hpoint]
        decide
      · exact isDigit_not_isBlank hnumber
    · have hc : c = '"' ∨ c = '\'' := of_decide_eq_true hquoted
      rcases hc with rfl | rfl <;> decide

/-- A token is not empty, and does not start with a blank. -/
theorem ofChars?_start {text : List Char} {token : Token} (h : Token.ofChars? text = some token) :
    ∃ c rest, text = c :: rest ∧ Text.isBlank c = false := by
  simp only [Token.ofChars?] at h
  split at h
  case isTrue hword =>
    have hstart := startsWord_of_isWord hword []
    rw [List.append_nil] at hstart
    exact not_isBlank_of_starts (Or.inl hstart)
  split at h
  case isTrue hliteral =>
    rw [Bool.or_eq_true] at hliteral
    rcases hliteral with hnumber | hquoted
    · have hstart := startsNumber_of_isNumber hnumber []
      rw [List.append_nil] at hstart
      exact not_isBlank_of_starts (Or.inr (Or.inl hstart))
    · have hstart := startsQuoted_of_isQuoted hquoted []
      rw [List.append_nil] at hstart
      exact not_isBlank_of_starts (Or.inr (Or.inr hstart))
  split at h
  case isTrue hsign =>
    obtain ⟨hne, -, -, -, hblank⟩ := signs_start _ hsign
    rw [String.toList_ofList] at hne hblank
    obtain ⟨c, rest, rfl⟩ := List.exists_cons_of_ne_nil hne
    exact ⟨c, rest, rfl, by simpa using hblank⟩
  case isFalse => cases h

/-- Of two tokens at the start of one text, each as long as it can be, none is the longer. -/
theorem Maximal.eq {text other rest rest' : List Char} {token : Token}
    (h : Maximal text rest) (hother : Token.ofChars? other = some token)
    (heq : text ++ rest = other ++ rest') (hle : text <+: other) : text = other := by
  obtain ⟨more, rfl⟩ := hle
  rw [List.append_assoc] at heq
  have hrest := List.append_cancel_left heq
  by_contra hne
  have hmore : more ≠ [] := by
    rintro rfl
    simp at hne
  rw [h more hmore ⟨rest', hrest.symm⟩] at hother
  cases hother

/-- A text has at most one list of tokens. -/
theorem Lexes.unique {text : List Char} {tokens others : List Token} (h : Lexes text tokens)
    (h' : Lexes text others) : tokens = others := by
  induction h generalizing others with
  | nil =>
    generalize hnil : ([] : List Char) = text at h'
    cases h' with
    | nil => rfl
    | blank => cases hnil
    | token htoken =>
      obtain ⟨c, rest, rfl, -⟩ := ofChars?_start htoken
      cases hnil
  | @blank c rest tokens hblank _ ih =>
    generalize htext : c :: rest = text at h'
    cases h' with
    | nil => cases htext
    | blank _ hrest =>
      cases htext
      exact ih hrest
    | token htoken =>
      obtain ⟨d, more, rfl, hd⟩ := ofChars?_start htoken
      cases htext
      rw [hblank] at hd
      cases hd
  | @token first rest token tokens htoken hmax _ ih =>
    generalize htext : first ++ rest = text at h'
    cases h' with
    | nil =>
      obtain ⟨c, more, rfl, -⟩ := ofChars?_start htoken
      cases htext
    | blank hblank =>
      obtain ⟨d, more, rfl, hd⟩ := ofChars?_start htoken
      cases htext
      rw [hblank] at hd
      cases hd
    | @token other rest' token' tokens' htoken' hmax' hrest' =>
      have hfirst : first = other := by
        rcases List.prefix_or_prefix_of_prefix (⟨rest, htext⟩ : first <+: other ++ rest')
          (List.prefix_append other rest') with hle | hle
        · exact hmax.eq htoken' htext hle
        · exact (hmax'.eq htoken htext.symm hle).symm
      subst hfirst
      obtain rfl := List.append_cancel_left htext
      obtain rfl := Option.some.inj (htoken.symm.trans htoken')
      rw [ih hrest']

end Recast.Grammar
