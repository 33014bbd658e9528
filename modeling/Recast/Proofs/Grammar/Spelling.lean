import Mathlib
import Recast.Proofs.Grammar.Expression

/-!
Texts that spell expressions.

`Spells ends n text t` says that a text is cut into the tokens of an expression of level `n` with
the tree `t`, whatever follows it, as long as that starts with one of the characters `ends`. Each
way to write an expression has a lemma that says what it spells.
-/

namespace Recast.Grammar

/-- The characters that may follow any expression. -/
def looseEnds : List Char := [' ', ')', ']', ',']

/-- The characters that may follow an expression that does not end with a number or a sign. -/
def tightEnds : List Char := ['.', '[', '(', '+', '-'] ++ looseEnds

/-- Whether a text is empty or starts with one of the given characters. -/
def EndsAt (ends rest : List Char) : Prop := ∀ c ∈ rest.head?, c ∈ ends

/-- Whether a text spells a tree at a level, before the given characters. -/
structure Spells (ends : List Char) (n : Nat) (text : String) (t : Tree) : Prop where
  start : ∃ c rest, text.toList = c :: rest ∧ c ≠ '='
  tokens : ∃ tokens, Derives n tokens t ∧ ∀ rest others, EndsAt ends rest → Lexes rest others →
    Lexes (text.toList ++ rest) (tokens ++ others)

/-! ### Ends of tokens -/

section Ends

variable {text rest ends : List Char}

theorem EndsAt.cons {c : Char} (hc : c ∈ ends) : EndsAt ends (c :: rest) := by
  rintro _ ⟨⟩
  exact hc

theorem EndsAt.mono {more : List Char} (hrest : EndsAt ends rest) (hends : ends ⊆ more) :
    EndsAt more rest := fun c hc => hends (hrest c hc)

theorem EndsAt.maximal (hrest : EndsAt ends rest)
    (h : ∀ c ∈ ends, ∀ rest, Maximal text (c :: rest)) : Maximal text rest := by
  cases rest with
  | nil => exact maximal_nil text
  | cons c rest => exact h c (hrest c rfl) rest

theorem tightEnds_parts : tightEnds.all (!isWordPart ·) := by decide

theorem looseEnds_parts : looseEnds.all (!isNumberPart ·) := by decide

theorem looseEnds_subset : looseEnds ⊆ tightEnds := by decide

/-- No sign has a character of words or a blank in it. -/
theorem signs_chars {sign : String} (hsign : sign ∈ signs) {c : Char} (hc : c ∈ sign.toList) :
    isWordStart c = false ∧ c ≠ ' ' := by
  have hall : ∀ sign ∈ signs, sign.toList.all fun c => !isWordStart c && c != ' ' := by decide
  simpa using List.all_eq_true.1 (hall sign hsign) c hc

/-- A sign that starts no other sign ends whatever follows. -/
theorem maximal_of_starts_none {sign : String} (hsign : sign ∈ signs) (hpoint : sign ≠ ".")
    (hnone : ∀ other ∈ signs, sign.toList <+: other.toList → other = sign) (rest : List Char) :
    Maximal sign.toList rest := by
  cases rest with
  | nil => exact maximal_nil _
  | cons c rest =>
    refine maximal_sign hsign (fun other hother hlonger => ?_) (absurd · hpoint)
    obtain rfl := hnone other hother ((List.prefix_append _ _).trans hlonger)
    simpa using hlonger.length_le

/-- The signs that start no other sign. -/
def aloneSigns : List String := ["(", ")", "[", "]", ",", "++", "--"]

theorem aloneSigns_spec : ∀ sign ∈ aloneSigns, sign ∈ signs ∧ sign ≠ "." ∧
    ∀ other ∈ signs, sign.toList <+: other.toList → other = sign := by
  decide

/-- A sign ends before a blank. -/
theorem maximal_blank {sign : String} (hsign : sign ∈ signs) (rest : List Char) :
    Maximal sign.toList (' ' :: rest) := by
  refine maximal_sign hsign (fun other hother hlonger => ?_) fun _ => rfl
  exact (signs_chars hother (hlonger.subset (by simp))).2 rfl

/-- A point ends before a word. -/
theorem maximal_point {c : Char} (hc : isWordStart c) (rest : List Char) :
    Maximal ".".toList (c :: rest) := by
  have hpoint : "." ∈ signs := by decide
  have hdigit : c.isDigit = false := by
    have hcode := isWordStart_toNat hc
    rw [Bool.eq_false_iff, Ne, isDigit_iff]
    omega
  refine maximal_sign hpoint (fun other hother hlonger => ?_) fun _ => hdigit
  have hother' := (signs_chars hother (hlonger.subset (List.mem_append_right _ List.mem_cons_self))).1
  rw [hc] at hother'
  cases hother'

/-- What makes a prefix operator another sign. -/
theorem prefixOperators_longer : ∀ operator ∈ prefixOperators, signs.all fun other =>
    !operator.toList.isPrefixOf other.toList ||
      (other.toList.drop operator.toList.length).head?.all fun c =>
        c == '=' || (operator == "-" || operator == "+") && operator.toList == [c] := by
  decide

/-- A prefix operator ends before an operand that does not start with the same sign. -/
theorem maximal_before {operator : String} {text : List Char} (hoperator : operator ∈ prefixOperators)
    (hstart : ∃ c rest, text = c :: rest ∧ c ≠ '=')
    (hsame : operator = "-" ∨ operator = "+" → ¬ operator.toList <+: text) (rest : List Char) :
    Maximal operator.toList (text ++ rest) := by
  obtain ⟨c, tail, rfl, hc⟩ := hstart
  have hsign : ∀ operator ∈ prefixOperators, operator ∈ signs ∧ operator ≠ "." := by decide
  refine maximal_sign (hsign _ hoperator).1 (fun other hother hlonger => ?_)
    (absurd · (hsign _ hoperator).2)
  obtain ⟨more, hmore⟩ := hlonger
  have hnext := List.all_eq_true.1 (prefixOperators_longer operator hoperator) other hother
  have hstart : operator.toList.isPrefixOf (operator.toList ++ c :: more) :=
    List.isPrefixOf_iff_prefix.2 (List.prefix_append _ _)
  rw [← hmore, List.append_assoc, List.singleton_append, hstart] at hnext
  simp only [Bool.not_true, Bool.false_or, List.drop_left, List.head?_cons, Option.all_some,
    Bool.or_eq_true, beq_iff_eq, hc, false_or, Bool.and_eq_true] at hnext
  apply hsame hnext.1
  rw [hnext.2]
  exact ⟨tail, rfl⟩

/-! What an expression starts with is no equals sign, so that no operator before it goes on. -/

theorem exists_start {text : List Char}
    (h : startsWord text ∨ startsNumber text ∨ startsQuoted text) :
    ∃ c rest, text = c :: rest ∧ c ≠ '=' := by
  cases text with
  | nil => rcases h with h | h | h <;> cases h
  | cons c rest =>
    refine ⟨c, rest, rfl, ?_⟩
    rintro rfl
    rcases h with h | h | h <;> cases h

theorem prefixOperators_start {operator : String} (hoperator : operator ∈ prefixOperators) :
    ∃ c rest, operator.toList = c :: rest ∧ c ≠ '=' := by
  simp only [prefixOperators, List.mem_cons, List.not_mem_nil, or_false] at hoperator
  rcases hoperator with rfl | rfl | rfl | rfl | rfl | rfl <;> exact ⟨_, _, rfl, by decide⟩

/-- A text that goes on another starts like it. -/
theorem start_append {text : String} (h : ∃ c rest, text.toList = c :: rest ∧ c ≠ '=')
    (more : String) : ∃ c rest, (text ++ more).toList = c :: rest ∧ c ≠ '=' := by
  obtain ⟨c, rest, htext, hc⟩ := h
  exact ⟨c, rest ++ more.toList, by simp [htext], hc⟩

end Ends

/-! ### Tokens before a text -/

section Lexes

variable {rest : List Char} {others : List Token}

theorem ofChars?_sign (sign : String) (h : sign ∈ signs) :
    Token.ofChars? sign.toList = some (.sign sign) := by
  obtain ⟨-, hword, hnumber, hquoted, -⟩ := signs_start sign h
  simp [Token.ofChars?, isWord_eq_false hword, isNumber_eq_false hnumber,
    isQuoted_eq_false hquoted, h]

theorem ofWord_name {text : String} (h : isName text) : Token.ofWord text = .name text := by
  simp only [isName, Bool.and_eq_true, decide_eq_true_eq, keywords, List.mem_cons,
    List.not_mem_nil, not_or] at h
  simp [Token.ofWord, h.2]

theorem ofChars?_name {text : String} (h : isName text) :
    Token.ofChars? text.toList = some (.name text) := by
  rw [ofChars?_word (Bool.and_eq_true_iff.1 h).1, String.ofList_toList, ofWord_name h]

theorem ofChars?_quoted {text : String} (h : isQuoted text.toList) :
    Token.ofChars? text.toList = some (.literal text) := by
  have hstart := startsQuoted_of_isQuoted h []
  rw [List.append_nil] at hstart
  have hword := isWord_eq_false (not_startsWord_of_startsQuoted hstart)
  simp [Token.ofChars?, hword, h]

theorem ofChars?_number {text : String} (h : isNumber text.toList) :
    Token.ofChars? text.toList = some (.literal text) := by
  have hstart := startsNumber_of_isNumber h []
  rw [List.append_nil] at hstart
  have hword := isWord_eq_false (not_startsWord_of_startsNumber hstart)
  simp [Token.ofChars?, hword, h]

theorem isName_start {text : String} (h : isName text) :
    ∃ c rest, text.toList = c :: rest ∧ isWordStart c := by
  simp only [isName, Bool.and_eq_true] at h
  cases htext : text.toList with
  | nil =>
    rw [htext] at h
    cases h.1
  | cons c rest =>
    rw [htext] at h
    simp only [isWord, Bool.and_eq_true] at h
    exact ⟨c, rest, rfl, h.1.1⟩

theorem lexes_alone (sign : String) (hsign : sign ∈ aloneSigns) (h : Lexes rest others) :
    Lexes (sign.toList ++ rest) (.sign sign :: others) :=
  have ⟨hmem, hpoint, halone⟩ := aloneSigns_spec sign hsign
  .token (ofChars?_sign sign hmem) (maximal_of_starts_none hmem hpoint halone rest) h

/-- A token between blanks. -/
theorem lexes_between {text : List Char} {token : Token} (htoken : Token.ofChars? text = some token)
    (hmaximal : ∀ rest, Maximal text (' ' :: rest)) (h : Lexes rest others) :
    Lexes (' ' :: (text ++ ' ' :: rest)) (token :: others) :=
  .blank rfl (.token htoken (hmaximal rest) (.blank rfl h))

theorem maximal_name {name : String} (hname : isName name) (hrest : EndsAt tightEnds rest) :
    Maximal name.toList rest := by
  simp only [isName, Bool.and_eq_true] at hname
  refine hrest.maximal fun c hc _ => maximal_word hname.1 ?_
  simpa using List.all_eq_true.1 tightEnds_parts c hc

theorem ofChars?_point : Token.ofChars? ['.'] = some (.sign ".") := ofChars?_sign "." (by decide)

/-- A point ends before a name. -/
theorem maximal_member {name : String} (hname : isName name) (rest : List Char) :
    Maximal ['.'] (name.toList ++ rest) := by
  obtain ⟨c, more, hmore, hc⟩ := isName_start hname
  rw [hmore]
  exact maximal_point hc _

/-- A point and a name. -/
theorem lexes_member {name : String} (hname : isName name) (hrest : EndsAt tightEnds rest)
    (h : Lexes rest others) :
    Lexes ('.' :: (name.toList ++ rest)) (.sign "." :: .name name :: others) := by
  have hlexes := Lexes.token (ofChars?_name hname) (maximal_name hname hrest) h
  exact .token ofChars?_point (maximal_member hname rest) hlexes

end Lexes

/-! ### What is spelled -/

namespace Spells

variable {ends : List Char} {m n : Nat} {text inner left right : String} {t u v : Tree}

theorem mono (h : Spells ends n text t) (hle : m ≤ n) : Spells ends m text t := by
  obtain ⟨tokens, hderives, hlexes⟩ := h.tokens
  exact ⟨h.start, tokens, hderives.mono hle, hlexes⟩

theorem loose (h : Spells tightEnds n text t) : Spells looseEnds n text t := by
  obtain ⟨tokens, hderives, hlexes⟩ := h.tokens
  exact ⟨h.start, tokens, hderives, fun rest others hrest =>
    hlexes rest others (hrest.mono looseEnds_subset)⟩

/-- A text that spells a tree parses as that tree. -/
theorem parses (h : Spells ends n text t) (hn : 1 ≤ n) : Parses text t := by
  obtain ⟨tokens, hderives, hlexes⟩ := h.tokens
  refine ⟨tokens, ?_, hderives.mono hn⟩
  have hall := hlexes [] [] (fun c hc => by cases hc) .nil
  rwa [List.append_nil, List.append_nil] at hall

/-- A single token spells what it derives. -/
theorem of_token {token : Token} (htoken : Token.ofChars? text.toList = some token)
    (hstart : startsWord text.toList ∨ startsNumber text.toList ∨ startsQuoted text.toList)
    (hderives : Derives n [token] t)
    (hmaximal : ∀ c ∈ ends, ∀ rest, Maximal text.toList (c :: rest)) : Spells ends n text t :=
  ⟨exists_start hstart, [token], hderives, fun _ _ hrest hothers =>
    .token htoken (hrest.maximal hmaximal) hothers⟩

/-! Single tokens. -/

/-- A word spells what it derives. -/
theorem of_word {token : Token} (hword : isWord text.toList) (htoken : Token.ofWord text = token)
    (hderives : Derives n [token] t) : Spells tightEnds n text t := by
  have hstart := startsWord_of_isWord hword []
  rw [List.append_nil] at hstart
  have hchars : Token.ofChars? text.toList = some token := by
    simp [ofChars?_word hword, htoken]
  refine of_token hchars (Or.inl hstart) hderives fun c hc _ => maximal_word hword ?_
  simpa using List.all_eq_true.1 tightEnds_parts c hc

theorem name (h : isName text) : Spells tightEnds 16 text (expression (.ident (.text text))) :=
  of_word (Bool.and_eq_true_iff.1 h).1 (ofWord_name h) .name

theorem keyword (h : text ∈ ["true", "false", "null"]) :
    Spells tightEnds 16 text (expression (.literal (.text text))) := by
  have hword : ∀ word ∈ ["true", "false", "null"],
      isWord word.toList ∧ Token.ofWord word = .literal word := by decide
  exact of_word (hword text h).1 (hword text h).2 .literal

theorem this : Spells tightEnds 16 "this" (expression (.this .null)) :=
  of_word (by decide) (by decide) .this

theorem quoted (h : isQuoted text.toList) :
    Spells tightEnds 16 text (expression (.literal (.text text))) := by
  have hstart := startsQuoted_of_isQuoted h []
  rw [List.append_nil] at hstart
  exact of_token (ofChars?_quoted h) (Or.inr (Or.inr hstart)) .literal
    fun _ _ _ => maximal_quoted _ h

theorem number (h : isNumber text.toList) :
    Spells looseEnds 16 text (expression (.literal (.text text))) := by
  have hstart := startsNumber_of_isNumber h []
  rw [List.append_nil] at hstart
  refine of_token (ofChars?_number h) (Or.inr (Or.inl hstart)) .literal
    fun c hc _ => maximal_number h ?_
  simpa using List.all_eq_true.1 looseEnds_parts c hc

/-! Accesses and calls. -/

theorem parens (h : Spells looseEnds 1 text t) : Spells tightEnds 16 ("(" ++ text ++ ")") t := by
  obtain ⟨tokens, hderives, hlexes⟩ := h.tokens
  refine ⟨⟨'(', text.toList ++ [')'], by simp, by decide⟩, _, hderives.parens,
    fun rest others _ hothers => ?_⟩
  have hclose := lexes_alone ")" (by decide) hothers
  have hinner := hlexes (')' :: rest) _ (EndsAt.cons (by decide)) hclose
  have hopen := lexes_alone "(" (by decide) hinner
  simpa using hopen

theorem field {name : String} (h : Spells tightEnds 16 text t) (hname : isName name) :
    Spells tightEnds 16 (text ++ "." ++ name) (expression (.field (some t) (.text name))) := by
  obtain ⟨tokens, hderives, hlexes⟩ := h.tokens
  rw [String.append_assoc]
  refine ⟨start_append h.start _, _, hderives.field, fun rest others hrest hothers => ?_⟩
  have hmember := lexes_member hname hrest hothers
  have hall := hlexes _ _ (EndsAt.cons (by decide)) hmember
  simpa using hall

theorem index (h : Spells tightEnds 16 text t) (hinner : Spells looseEnds 1 inner u) :
    Spells tightEnds 16 (text ++ "[" ++ inner ++ "]")
      (expression (.subscript (some t) (some u))) := by
  obtain ⟨tokens, hderives, hlexes⟩ := h.tokens
  obtain ⟨tokens', hderives', hlexes'⟩ := hinner.tokens
  rw [String.append_assoc, String.append_assoc]
  refine ⟨start_append h.start _, _, hderives.index hderives', fun rest others _ hothers => ?_⟩
  have hclose := lexes_alone "]" (by decide) hothers
  have hindex := hlexes' (']' :: rest) _ (EndsAt.cons (by decide)) hclose
  have hopen := lexes_alone "[" (by decide) hindex
  have hall := hlexes ('[' :: _) _ (EndsAt.cons (by decide)) hopen
  simpa using hall

/-- The arguments of a call, each spelled, with commas between them. -/
theorem arguments_tokens {arguments : List (String × Tree)}
    (h : ∀ a ∈ arguments, Spells looseEnds 1 a.1 a.2) :
    ∃ parts : List (List Token × Tree), parts.map (·.2) = arguments.map (·.2) ∧
      (∀ p ∈ parts, Derives 1 p.1 p.2) ∧
      ∀ rest others, EndsAt looseEnds rest → Lexes rest others →
        Lexes ((", ".intercalate (arguments.map (·.1))).toList ++ rest)
          ([.sign ","].intercalate (parts.map (·.1)) ++ others) := by
  induction arguments with
  | nil => exact ⟨[], rfl, by simp, fun rest others _ hothers => hothers⟩
  | cons first others ih =>
    obtain ⟨tokens, hderives, hlexes⟩ := (h first List.mem_cons_self).tokens
    obtain ⟨parts, htrees, hparts, hmore⟩ := ih fun a ha => h a (List.mem_cons_of_mem _ ha)
    refine ⟨(tokens, first.2) :: parts, by simp [htrees], List.forall_mem_cons.2 ⟨hderives, hparts⟩, ?_⟩
    intro rest tail hrest htail
    cases others with
    | nil =>
      obtain rfl : parts = [] := by simpa using htrees
      simpa using hlexes rest tail hrest htail
    | cons second others =>
      obtain ⟨part, parts, rfl⟩ : ∃ part more, parts = part :: more := by
        cases parts with
        | nil => simp at htrees
        | cons part more => exact ⟨part, more, rfl⟩
      have hcomma := lexes_alone "," (by decide) (.blank (c := ' ') rfl (hmore rest tail hrest htail))
      have hall := hlexes (',' :: _) _ (EndsAt.cons (by decide)) hcomma
      simpa using hall

theorem call {arguments : List (String × Tree)} (h : Spells tightEnds 16 text t)
    (harguments : ∀ a ∈ arguments, Spells looseEnds 1 a.1 a.2)
    (hcall : callOf? t (arguments.map (·.2)) = some u) :
    Spells tightEnds 16 (text ++ "(" ++ ", ".intercalate (arguments.map (·.1)) ++ ")") u := by
  obtain ⟨tokens, hderives, hlexes⟩ := h.tokens
  obtain ⟨parts, htrees, hparts, hmore⟩ := arguments_tokens harguments
  rw [← htrees] at hcall
  rw [String.append_assoc, String.append_assoc]
  refine ⟨start_append h.start _, _, hderives.call hparts hcall, fun rest others _ hothers => ?_⟩
  have hclose := lexes_alone ")" (by decide) hothers
  have hinner := hmore (')' :: rest) _ (EndsAt.cons (by decide)) hclose
  have hopen := lexes_alone "(" (by decide) hinner
  have hall := hlexes ('(' :: _) _ (EndsAt.cons (by decide)) hopen
  simpa using hall

/-! Operators. -/

theorem update {operator : String} (hoperator : operator ∈ updateOperators)
    (h : Spells tightEnds 16 text t) : Spells looseEnds 15 (text ++ operator)
      (expression (.unary (.text operator) (some t) false)) := by
  have halone : ∀ operator ∈ updateOperators, operator ∈ aloneSigns := by decide
  obtain ⟨tokens, hderives, hlexes⟩ := h.tokens
  refine ⟨start_append h.start _, _, hderives.update hoperator, fun rest others _ hothers => ?_⟩
  have hends : EndsAt tightEnds (operator.toList ++ rest) := by
    simp only [updateOperators, List.mem_cons, List.not_mem_nil, or_false] at hoperator
    rcases hoperator with rfl | rfl <;> exact EndsAt.cons (by decide)
  have hall := hlexes _ _ hends (lexes_alone operator (halone operator hoperator) hothers)
  simpa using hall

/-- A prefix operator goes with an operand that does not start with the same sign. -/
theorem before {operator : String} (hoperator : operator ∈ prefixOperators)
    (h : Spells looseEnds 14 text t)
    (hsame : operator = "-" ∨ operator = "+" → ¬ operator.toList <+: text.toList) :
    Spells looseEnds 14 (operator ++ text)
      (expression (.unary (.text operator) (some t) true)) := by
  have hsigns : ∀ operator ∈ prefixOperators, operator ∈ signs := by decide
  obtain ⟨tokens, hderives, hlexes⟩ := h.tokens
  refine ⟨start_append (prefixOperators_start hoperator) _, _, hderives.before hoperator,
    fun rest others hrest hothers => ?_⟩
  have hall := Lexes.token (ofChars?_sign _ (hsigns _ hoperator))
    (maximal_before hoperator h.start hsame rest) (hlexes rest others hrest hothers)
  simpa using hall

/-- A token between blanks joins two expressions. -/
theorem between {sign : String} {token : Token} (htoken : Token.ofChars? sign.toList = some token)
    (hmaximal : ∀ rest, Maximal sign.toList (' ' :: rest)) (hleft : Spells looseEnds m left t)
    (hright : Spells looseEnds n right u)
    {k : Nat} (hjoin : ∀ a b, Derives m a t → Derives n b u → Derives k (a ++ token :: b) v) :
    Spells looseEnds k (left ++ " " ++ sign ++ " " ++ right) v := by
  obtain ⟨tokens, hderives, hlexes⟩ := hleft.tokens
  obtain ⟨tokens', hderives', hlexes'⟩ := hright.tokens
  rw [String.append_assoc, String.append_assoc, String.append_assoc]
  refine ⟨start_append hleft.start _, _, hjoin _ _ hderives hderives', fun rest others hrest hothers => ?_⟩
  have hsign := lexes_between htoken hmaximal (hlexes' rest others hrest hothers)
  have hall := hlexes (' ' :: _) _ (EndsAt.cons (by decide)) hsign
  simpa using hall

theorem binary {sign operator : String} (hentry : (sign, operator, n) ∈ binaryOperators)
    (hleft : Spells looseEnds n left t) (hright : Spells looseEnds (n + 1) right u) :
    Spells looseEnds n (left ++ " " ++ sign ++ " " ++ right)
      (expression (.binary (.text operator) (some t) (some u))) := by
  have hsigns : ∀ entry ∈ binaryOperators, entry.1 ∈ signs := by decide
  have hsign := hsigns _ hentry
  exact between (ofChars?_sign _ hsign) (maximal_blank hsign) hleft hright
    fun _ _ ha hb => .binary hentry ha hb

theorem assign {operator : String} (hoperator : operator ∈ assignmentOperators)
    (hleft : Spells looseEnds 16 left t) (hright : Spells looseEnds 1 right u) :
    Spells looseEnds 1 (left ++ " " ++ operator ++ " " ++ right)
      (expression (.assign (.text operator) (some t) (some u))) := by
  have hsigns : ∀ operator ∈ assignmentOperators, operator ∈ signs := by decide
  have hsign := hsigns operator hoperator
  exact between (ofChars?_sign _ hsign) (maximal_blank hsign) hleft hright
    fun _ _ ha hb => .assign hoperator ha hb

theorem test {type : Tree} (hleft : Spells looseEnds 9 left t) (hright : Spells looseEnds 10 right u)
    (hclass : classOf? u = some type) :
    Spells looseEnds 9 (left ++ " " ++ "instanceof" ++ " " ++ right)
      (expression (.instanceOf (some t) (some type))) :=
  between rfl (fun _ => maximal_word (by decide) (by decide)) hleft hright
    fun _ _ ha hb => .test ha hb hclass

theorem choice {condition yes no : String} (hcondition : Spells looseEnds 3 condition t)
    (hyes : Spells looseEnds 1 yes u) (hno : Spells looseEnds 1 no v) :
    Spells looseEnds 2 (condition ++ " ? " ++ yes ++ " : " ++ no)
      (expression (.conditional (some t) (some u) (some v))) := by
  obtain ⟨tokens, hderives, hlexes⟩ := hcondition.tokens
  obtain ⟨tokens', hderives', hlexes'⟩ := hyes.tokens
  obtain ⟨tokens'', hderives'', hlexes''⟩ := hno.tokens
  rw [String.append_assoc, String.append_assoc, String.append_assoc]
  refine ⟨start_append hcondition.start _, _, hderives.choice hderives' hderives'',
    fun rest others hrest hothers => ?_⟩
  have hcolon := lexes_between (ofChars?_sign ":" (by decide)) (maximal_blank (by decide))
    (hlexes'' rest others hrest hothers)
  have hfirst := hlexes' (' ' :: _) _ (EndsAt.cons (by decide)) hcolon
  have hquestion := lexes_between (ofChars?_sign "?" (by decide))
    (maximal_blank (by decide)) hfirst
  have hall := hlexes (' ' :: _) _ (EndsAt.cons (by decide)) hquestion
  simpa using hall

end Spells

end Recast.Grammar
