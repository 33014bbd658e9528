import Mathlib
import Recast.Proofs.Grammar.Phrase

/-!
Texts that stand at a level.

`Stands Body ends n text` says that a text is an expression of level `n` before any of the given
characters. Each way to write an expression has a lemma that says at which level it stands.
-/

namespace Recast.Grammar

/-! ### Pieces before a text -/

/-- The characters that may follow any expression. -/
def anyEnds : List Char := [' ', ')', ']', ',', '\x7d']

/-- The characters that may follow an expression that does not end with a number or a sign. -/
def firmEnds : List Char := ['.', '[', '(', '<', ':', '+', '-'] ++ anyEnds

theorem anyEnds_subset : anyEnds ⊆ firmEnds := by decide

theorem anyEnds_parts : anyEnds.all (!isNumberPart ·) := by decide

theorem firmEnds_parts : firmEnds.all (!isWordPart ·) := by decide

/-- The signs that no other sign starts with, apart from the point. -/
def finalSigns : List String :=
  ["(", ")", "[", "]", "\x7b", "\x7d", ",", ":", "...", "=>", "++", "--"]

theorem finalSigns_spec : ∀ sign ∈ finalSigns, sign ∈ signs ∧ sign ≠ "." ∧
    ∀ other ∈ signs, sign.toList <+: other.toList → other = sign := by
  decide

section Cuts

variable {Body : String → Prop} {rest : List Char} {others : List Piece} {c : Char}

/-- A sign that no other one starts with. -/
theorem cuts_final (sign : String) (hsign : sign ∈ finalSigns) (h : Cuts Body rest others) :
    Cuts Body (sign.toList ++ rest) (.sign sign :: others) := by
  obtain ⟨hmem, hpoint, hfinal⟩ := finalSigns_spec sign hsign
  exact .token (ofChars?_sign sign hmem) (maximal_of_starts_none hmem hpoint hfinal rest) h

/-- A word before a character that is no part of words. -/
theorem cuts_word (word : String) (hword : isWord word.toList) (hrest : EndsAt firmEnds rest)
    (h : Cuts Body rest others) :
    Cuts Body (word.toList ++ rest) (.token (.ofWord word) :: others) := by
  have htoken := ofChars?_word hword
  rw [String.ofList_toList] at htoken
  refine .token htoken (hrest.maximal ?_) h
  intro c hc _
  apply maximal_word hword
  simpa using List.all_eq_true.1 firmEnds_parts c hc

/-- A name before a character that is no part of words. -/
theorem cuts_name {name : String} (hname : isName name) (hrest : EndsAt firmEnds rest)
    (h : Cuts Body rest others) : Cuts Body (name.toList ++ rest) (.word name :: others) := by
  have hcuts := cuts_word name (Bool.and_eq_true_iff.1 hname).1 hrest h
  rwa [ofWord_name hname] at hcuts

/-- A name and a blank. -/
theorem cuts_spaced (name : String) (hname : isName name) (h : Cuts Body rest others) :
    Cuts Body (name.toList ++ ' ' :: rest) (.word name :: others) :=
  cuts_name hname (EndsAt.cons (by decide)) (.blank rfl h)

/-- A token between blanks. -/
theorem cuts_between {text : List Char} {token : Token} (htoken : Token.ofChars? text = some token)
    (hmaximal : ∀ rest, Maximal text (' ' :: rest)) (h : Cuts Body rest others) :
    Cuts Body (' ' :: (text ++ ' ' :: rest)) (.token token :: others) :=
  .blank rfl (.token htoken (hmaximal rest) (.blank rfl h))

/-- A point and a name. -/
theorem cuts_member {name : String} (hname : isName name) (hrest : EndsAt firmEnds rest)
    (h : Cuts Body rest others) :
    Cuts Body ('.' :: (name.toList ++ rest)) (.sign "." :: .word name :: others) := by
  have hcuts := cuts_name hname hrest h
  exact .token ofChars?_point (maximal_member hname rest) hcuts

end Cuts

/-! ### Lists between brackets -/

section Lists

variable {Body : String → Prop} {ends rest : List Char} {others : List Piece}

/-- Whether a text has some pieces before the given characters. -/
def Before (Body : String → Prop) (ends : List Char) (text : String) (pieces : List Piece) : Prop :=
  ∀ rest others, EndsAt ends rest → Cuts Body rest others →
    Cuts Body (text.toList ++ rest) (pieces ++ others)

/-- Texts with commas between them. -/
theorem before_separated {texts : List String} {parts : List (List Piece)} (hcomma : ',' ∈ ends)
    (h : List.Forall₂ (Before Body ends) texts parts) :
    Before Body ends (", ".intercalate texts) (separated parts) := by
  induction h with
  | nil => exact fun rest others _ hothers => hothers
  | @cons text part texts parts hfirst hmore ih =>
    intro rest others hrest hothers
    cases hmore with
    | nil => simpa [separated] using hfirst rest others hrest hothers
    | cons =>
      have hnext := Cuts.blank (c := ' ') rfl (ih rest others hrest hothers)
      have hsplit := cuts_final "," (by decide) hnext
      have hall := hfirst (',' :: _) _ (EndsAt.cons hcomma) hsplit
      simpa [separated] using hall

theorem before_type {text : String} (h : IsType false text) : Before Body typeEnds text [.type] :=
  fun _ _ hrest hothers => .type h hrest hothers

/-- A bracket before a type. -/
theorem cuts_less {text : String} {closed : Bool} (htext : IsType closed text)
    (h : Cuts Body (text.toList ++ rest) others) :
    Cuts Body ('<' :: (text.toList ++ rest)) (.sign "<" :: others) := by
  obtain ⟨c, more, hmore, hc⟩ := htext.start
  have hless : "<" ∈ signs := by decide
  refine .token (ofChars?_sign "<" hless) ?_ h
  rw [hmore]
  refine maximal_sign hless ?_ (absurd · (by decide))
  intro other hother hlonger
  have hnext : ∀ other ∈ signs, ("<".toList).isPrefixOf other.toList →
      (other.toList.drop 1).head?.all fun c => !isWordStart c && c != '(' := by decide
  have hstarts : ("<".toList).isPrefixOf other.toList :=
    List.isPrefixOf_iff_prefix.2 ((List.prefix_append _ _).trans hlonger)
  obtain ⟨tail, htail⟩ := hlonger
  have hall := hnext other hother hstarts
  rw [← htail] at hall
  have hpair : isWordStart c = false ∧ c ≠ '(' := by simpa using hall
  rcases hc with hword | hparen
  · rw [hpair.1] at hword
    cases hword
  · exact hpair.2 hparen

theorem cuts_typeArguments {types : List String} (h : ∀ type ∈ types, IsType false type)
    (hcuts : Cuts Body ('(' :: rest) others) :
    Cuts Body ((typeArgumentsOf types).toList ++ '(' :: rest) (typeArguments types.length ++ others) := by
  cases types with
  | nil => simpa [typeArgumentsOf, typeArguments] using hcuts
  | cons first more =>
    have hgreater : Cuts Body (">".toList ++ '(' :: rest) (.sign ">" :: others) :=
      .token (ofChars?_sign ">" (by decide)) (maximal_sign (by decide) (by decide) (by decide)) hcuts
    have hclose : Cuts Body ('>' :: '(' :: rest) (.sign ">" :: others) := hgreater
    have hparts : List.Forall₂ (Before Body typeEnds) (first :: more)
        (List.replicate (first :: more).length [.type]) := by
      rw [List.forall₂_iff_get]
      refine ⟨by simp, ?_⟩
      intro i hi hi'
      simpa using before_type (h _ (List.get_mem _ ⟨i, hi⟩))
    have htypes := before_separated (by decide) hparts _ _ (EndsAt.cons (by decide)) hclose
    have hopen : ∃ tail, ", ".intercalate (first :: more) = first ++ tail := by
      cases more with
      | nil => exact ⟨"", by simp⟩
      | cons second more => exact ⟨_, by rw [String.intercalate_cons_cons, String.append_assoc]⟩
    obtain ⟨tail, htail⟩ := hopen
    rw [htail, String.toList_append, List.append_assoc] at htypes
    have hall := cuts_less (h first List.mem_cons_self) htypes
    simpa [typeArgumentsOf, typeArguments, htail] using hall

end Lists

/-! ### Texts that stand at a level -/

/-- Whether a text is an expression of a level, before the given characters. -/
structure Stands (Body : String → Prop) (ends : List Char) (n : Nat) (text : String) : Prop where
  start : ∃ c rest, text.toList = c :: rest ∧ c ≠ '='
  pieces : ∃ pieces, Phrase n pieces ∧ Before Body ends text pieces

/-- Whether a text is an argument. -/
structure Passes (Body : String → Prop) (text : String) (argument : Argument) : Prop where
  value : Phrase 1 argument.value
  before : Before Body anyEnds text argument.pieces

namespace Stands

variable {Body : String → Prop} {ends : List Char} {m n : Nat} {text inner left right name : String}

theorem mono (h : Stands Body ends n text) (hle : m ≤ n) : Stands Body ends m text := by
  obtain ⟨pieces, hphrase, hbefore⟩ := h.pieces
  exact ⟨h.start, pieces, hphrase.mono hle, hbefore⟩

/-- A text that stands before more characters stands before fewer. -/
theorem before_any (h : Stands Body firmEnds n text) : Stands Body anyEnds n text := by
  obtain ⟨pieces, hphrase, hbefore⟩ := h.pieces
  refine ⟨h.start, pieces, hphrase, ?_⟩
  intro rest others hrest hothers
  exact hbefore rest others (hrest.mono anyEnds_subset) hothers

theorem isPhrase (h : Stands Body ends n text) : IsPhrase Body n text := by
  obtain ⟨pieces, hphrase, hbefore⟩ := h.pieces
  have hall := hbefore [] [] (fun c hc => by cases hc) .nil
  rw [List.append_nil, List.append_nil] at hall
  exact ⟨pieces, hall, hphrase⟩

/-! Single tokens. -/

/-- A text that is one token. -/
theorem of_token {token : Token} (htoken : Token.ofChars? text.toList = some token)
    (hstart : startsWord text.toList ∨ startsNumber text.toList ∨ startsQuoted text.toList)
    (hphrase : Phrase n [.token token])
    (hmaximal : ∀ c ∈ ends, ∀ rest, Maximal text.toList (c :: rest)) : Stands Body ends n text :=
  ⟨exists_start hstart, [.token token], hphrase, fun _ _ hrest hothers =>
    .token htoken (hrest.maximal hmaximal) hothers⟩

theorem of_word (hword : isWord text.toList) (hphrase : Phrase n [.token (.ofWord text)]) :
    Stands Body firmEnds n text := by
  have hstart := startsWord_of_isWord hword []
  rw [List.append_nil] at hstart
  have htoken := ofChars?_word hword
  rw [String.ofList_toList] at htoken
  refine of_token htoken (.inl hstart) hphrase ?_
  intro c hc _
  apply maximal_word hword
  simpa using List.all_eq_true.1 firmEnds_parts c hc

theorem of_name (h : isFree name) : Stands Body firmEnds 16 name := by
  simp only [isFree, Bool.and_eq_true, decide_eq_true_eq] at h
  refine of_word (Bool.and_eq_true_iff.1 h.1).1 ?_
  rw [ofWord_name h.1]
  exact .name h.2

theorem this : Stands Body firmEnds 16 "this" := of_word (by decide) .this

theorem keyword (h : text ∈ ["true", "false", "null"]) : Stands Body firmEnds 16 text := by
  have hword : ∀ word ∈ ["true", "false", "null"],
      isWord word.toList ∧ Token.ofWord word = .literal word := by decide
  refine of_word (hword text h).1 ?_
  rw [(hword text h).2]
  exact .literal

theorem quoted (h : isQuoted text.toList) : Stands Body firmEnds 16 text := by
  have hstart := startsQuoted_of_isQuoted h []
  rw [List.append_nil] at hstart
  exact of_token (ofChars?_quoted h) (.inr (.inr hstart)) .literal fun _ _ _ => maximal_quoted _ h

theorem number (h : isNumber text.toList) : Stands Body anyEnds 16 text := by
  have hstart := startsNumber_of_isNumber h []
  rw [List.append_nil] at hstart
  refine of_token (ofChars?_number h) (.inr (.inl hstart)) .literal ?_
  intro c hc _
  apply maximal_number h
  simpa using List.all_eq_true.1 anyEnds_parts c hc

/-! Accesses, calls and what is in brackets. -/

theorem parens (h : Stands Body anyEnds 1 text) : Stands Body firmEnds 16 ("(" ++ text ++ ")") := by
  obtain ⟨pieces, hphrase, hbefore⟩ := h.pieces
  refine ⟨⟨'(', text.toList ++ [')'], by simp, by decide⟩, _, hphrase.parens, ?_⟩
  intro rest others _ hothers
  have hclose := cuts_final ")" (by decide) hothers
  have hinner := hbefore (')' :: rest) _ (EndsAt.cons (by decide)) hclose
  have hopen := cuts_final "(" (by decide) hinner
  simpa using hopen

theorem cast {type : String} (h : Stands Body anyEnds 9 text) (htype : IsType false type) :
    Stands Body firmEnds 16 ("(" ++ text ++ " as " ++ type ++ ")") := by
  obtain ⟨pieces, hphrase, hbefore⟩ := h.pieces
  refine ⟨⟨'(', text.toList ++ (" as " ++ type ++ ")").toList, by simp, by decide⟩, _,
    hphrase.cast, ?_⟩
  intro rest others _ hothers
  have hclose : Cuts Body (')' :: rest) _ := cuts_final ")" (by decide) hothers
  have htypes := Cuts.type htype (EndsAt.cons (by decide)) hclose
  have has := cuts_spaced "as" (by decide) htypes
  have hinner := hbefore (' ' :: _) _ (EndsAt.cons (by decide)) (.blank rfl has)
  have hopen := cuts_final "(" (by decide) hinner
  simpa using hopen

theorem field (h : Stands Body firmEnds 16 text) (hname : isName name) :
    Stands Body firmEnds 16 (text ++ "." ++ name) := by
  obtain ⟨pieces, hphrase, hbefore⟩ := h.pieces
  rw [String.append_assoc]
  refine ⟨start_append h.start _, _, hphrase.field name, ?_⟩
  intro rest others hrest hothers
  have hmember := cuts_member hname hrest hothers
  have hall := hbefore _ _ (EndsAt.cons (by decide)) hmember
  simpa using hall

theorem superMember (hname : isName name) : Stands Body firmEnds 16 ("super" ++ "." ++ name) := by
  refine ⟨⟨'s', "uper".toList ++ '.' :: name.toList, by simp, by decide⟩, _, .superMember name, ?_⟩
  intro rest others hrest hothers
  have hmember := cuts_member hname hrest hothers
  have hsuper : isName "super" := by decide
  have hall := cuts_name hsuper (EndsAt.cons (by decide)) hmember
  simpa using hall

theorem index (h : Stands Body firmEnds 16 text) (hinner : Stands Body anyEnds 1 inner) :
    Stands Body firmEnds 16 (text ++ "[" ++ inner ++ "]") := by
  obtain ⟨pieces, hphrase, hbefore⟩ := h.pieces
  obtain ⟨pieces', hphrase', hbefore'⟩ := hinner.pieces
  rw [String.append_assoc, String.append_assoc]
  refine ⟨start_append h.start _, _, hphrase.index hphrase', ?_⟩
  intro rest others _ hothers
  have hclose := cuts_final "]" (by decide) hothers
  have hindex := hbefore' (']' :: rest) _ (EndsAt.cons (by decide)) hclose
  have hopen := cuts_final "[" (by decide) hindex
  have hall := hbefore ('[' :: _) _ (EndsAt.cons (by decide)) hopen
  simpa using hall

theorem isChain (h : IsChain name) : ∃ pieces, Chain pieces ∧ Before Body firmEnds name pieces := by
  induction h with
  | name hname =>
    simp only [isFree, Bool.and_eq_true, decide_eq_true_eq] at hname
    exact ⟨_, .name hname.2, fun _ _ hrest hothers => cuts_name hname.1 hrest hothers⟩
  | @member text name _ hname ih =>
    obtain ⟨pieces, hchain, hbefore⟩ := ih
    refine ⟨_, .member name hchain, ?_⟩
    intro rest others hrest hothers
    have hmember := cuts_member hname hrest hothers
    have hall := hbefore _ _ (EndsAt.cons (by decide)) hmember
    simpa using hall

theorem of_chain (h : IsChain name) : Stands Body firmEnds 16 name := by
  obtain ⟨pieces, hchain, hbefore⟩ := isChain h
  obtain ⟨c, rest, hname, hc⟩ := h.start
  refine ⟨⟨c, rest, hname, ?_⟩, pieces, hchain.phrase, hbefore⟩
  rintro rfl
  cases hc

/-- An expression is an argument. -/
theorem passes (h : Stands Body anyEnds 1 text) : ∃ value, Passes Body text (.plain value) := by
  obtain ⟨pieces, hphrase, hbefore⟩ := h.pieces
  exact ⟨pieces, hphrase, hbefore⟩

theorem spread (h : isName name) (hfree : name ∉ reserved) :
    Passes Body ("..." ++ name) (.spread [.word name]) := by
  refine ⟨.lift (n := 1) (Phrase.mono (.name hfree) (by decide)), ?_⟩
  intro rest others hrest hothers
  have hname := cuts_name h (hrest.mono anyEnds_subset) hothers
  have hall := cuts_final "..." (by decide) hname
  simpa [Argument.pieces] using hall

theorem property (h : Stands Body anyEnds 1 text) :
    ∃ value, Passes Body ("\x7blength: " ++ text ++ "\x7d") (.property "length" value) := by
  obtain ⟨pieces, hphrase, hbefore⟩ := h.pieces
  refine ⟨pieces, hphrase, ?_⟩
  intro rest others _ hothers
  have hclose := cuts_final "\x7d" (by decide) hothers
  have hvalue := hbefore ('\x7d' :: rest) _ (EndsAt.cons (by decide)) hclose
  have hcolon : Cuts Body (':' :: ' ' :: _) _ := cuts_final ":" (by decide) (.blank rfl hvalue)
  have hlength : isName "length" := by decide
  have hname := cuts_name hlength (EndsAt.cons (by decide)) hcolon
  have hopen := cuts_final "\x7b" (by decide) hname
  simpa [Argument.pieces] using hopen

/-- Expressions are arguments. -/
theorem all_pass {texts : List String} (h : ∀ text ∈ texts, Stands Body anyEnds 1 text) :
    ∃ arguments, List.Forall₂ (Passes Body) texts arguments := by
  refine exists_forall₂ fun text htext => ?_
  obtain ⟨value, hvalue⟩ := (h text htext).passes
  exact ⟨.plain value, hvalue⟩

end Stands

section Calls

variable {Body : String → Prop} {text : String} {texts types : List String} {arguments : List Argument}

theorem Passes.values (h : List.Forall₂ (Passes Body) texts arguments) :
    ∀ a ∈ arguments, Phrase 1 a.value :=
  forall_mem_partners h fun _ _ ha => ha.value

/-- Arguments between parentheses, after type arguments. -/
theorem Passes.between (htypes : ∀ type ∈ types, IsType false type)
    (h : List.Forall₂ (Passes Body) texts arguments) (rest : List Char) (others : List Piece)
    (hothers : Cuts Body rest others) :
    Cuts Body ((typeArgumentsOf types ++ "(" ++ ", ".intercalate texts ++ ")").toList ++ rest)
      (typeArguments types.length ++ .sign "(" :: separated (arguments.map Argument.pieces) ++
        [.sign ")"] ++ others) := by
  have hparts : List.Forall₂ (Before Body anyEnds) texts (arguments.map Argument.pieces) :=
    List.forall₂_map_right_iff.2 (h.imp fun _ _ ha => ha.before)
  have hclose := cuts_final ")" (by decide) hothers
  have hinner := before_separated (by decide) hparts (')' :: rest) _ (EndsAt.cons (by decide)) hclose
  have hopen := cuts_final "(" (by decide) hinner
  have hall := cuts_typeArguments htypes hopen
  simpa using hall

/-- What may follow a callee. -/
theorem endsAt_between (types texts : List String) (rest : List Char) : EndsAt firmEnds
    ((typeArgumentsOf types ++ "(" ++ ", ".intercalate texts ++ ")").toList ++ rest) := by
  unfold typeArgumentsOf
  split <;> simp only [String.toList_append, List.append_assoc] <;> exact EndsAt.cons (by decide)

theorem Stands.call (h : Stands Body firmEnds 16 text) (htypes : ∀ type ∈ types, IsType false type)
    (harguments : List.Forall₂ (Passes Body) texts arguments) :
    Stands Body firmEnds 16
      (text ++ (typeArgumentsOf types ++ "(" ++ ", ".intercalate texts ++ ")")) := by
  obtain ⟨pieces, hphrase, hbefore⟩ := h.pieces
  refine ⟨start_append h.start _, _, hphrase.call types.length (Passes.values harguments), ?_⟩
  intro rest others _ hothers
  have hbetween := Passes.between htypes harguments rest others hothers
  have hall := hbefore _ _ (endsAt_between types texts rest) hbetween
  simpa using hall

theorem Stands.create (h : IsChain text) (htypes : ∀ type ∈ types, IsType false type)
    (harguments : List.Forall₂ (Passes Body) texts arguments) :
    Stands Body firmEnds 16
      ("new " ++ (text ++ (typeArgumentsOf types ++ "(" ++ ", ".intercalate texts ++ ")"))) := by
  obtain ⟨pieces, hchain, hbefore⟩ := Stands.isChain h
  have hstart (more : String) : ∃ c rest, ("new " ++ more).toList = c :: rest ∧ c ≠ '=' :=
    ⟨'n', "ew ".toList ++ more.toList, by simp, by decide⟩
  refine ⟨hstart _, _, .create types.length hchain (Passes.values harguments), ?_⟩
  intro rest others _ hothers
  have hbetween := Passes.between htypes harguments rest others hothers
  have hname := hbefore _ _ (endsAt_between types texts rest) hbetween
  have hall := cuts_spaced "new" (by decide) hname
  simpa using hall

end Calls

namespace Stands

variable {Body : String → Prop} {ends : List Char} {m n : Nat} {text left right : String}

/-- An array of the given values. -/
theorem array {texts : List String} (h : ∀ text ∈ texts, Stands Body anyEnds 1 text) :
    Stands Body firmEnds 16 ("[" ++ ", ".intercalate texts ++ "]") := by
  obtain ⟨items, hitems⟩ : ∃ items : List (List Piece), List.Forall₂
      (fun text item => Phrase 1 item ∧ Before Body anyEnds text item) texts items :=
    exists_forall₂ fun text htext => (h text htext).pieces
  have hphrases := forall_mem_partners hitems fun _ _ hitem => hitem.1
  have hparts : List.Forall₂ (Before Body anyEnds) texts items := hitems.imp fun _ _ hitem => hitem.2
  refine ⟨⟨'[', (", ".intercalate texts).toList ++ [']'], by simp, by decide⟩, _, .array hphrases, ?_⟩
  intro rest others _ hothers
  have hclose := cuts_final "]" (by decide) hothers
  have hinner := before_separated (by decide) hparts (']' :: rest) _ (EndsAt.cons (by decide)) hclose
  have hopen := cuts_final "[" (by decide) hinner
  simpa using hopen

/-! Operators. -/

theorem update {operator : String} (hoperator : operator ∈ updateOperators)
    (h : Stands Body firmEnds 16 text) : Stands Body anyEnds 15 (text ++ operator) := by
  have hfinal : ∀ operator ∈ updateOperators, operator ∈ finalSigns := by decide
  obtain ⟨pieces, hphrase, hbefore⟩ := h.pieces
  refine ⟨start_append h.start _, _, hphrase.update hoperator, ?_⟩
  intro rest others _ hothers
  have hends : EndsAt firmEnds (operator.toList ++ rest) := by
    simp only [updateOperators, List.mem_cons, List.not_mem_nil, or_false] at hoperator
    rcases hoperator with rfl | rfl <;> exact EndsAt.cons (by decide)
  have hall := hbefore _ _ hends (cuts_final operator (hfinal operator hoperator) hothers)
  simpa using hall

/-- A prefix operator goes with an operand that does not start with the same sign. -/
theorem before {operator : String} (hoperator : operator ∈ prefixOperators)
    (h : Stands Body anyEnds 14 text)
    (hsame : operator = "-" ∨ operator = "+" → ¬ operator.toList <+: text.toList) :
    Stands Body anyEnds 14 (operator ++ text) := by
  have hsigns : ∀ operator ∈ prefixOperators, operator ∈ signs := by decide
  obtain ⟨pieces, hphrase, hbefore⟩ := h.pieces
  refine ⟨start_append (prefixOperators_start hoperator) _, _, hphrase.before hoperator, ?_⟩
  intro rest others hrest hothers
  have hall := Cuts.token (ofChars?_sign _ (hsigns _ hoperator))
    (maximal_before hoperator h.start hsame rest) (hbefore rest others hrest hothers)
  simpa [Piece.sign] using hall

theorem typeof (h : Stands Body anyEnds 14 text) : Stands Body anyEnds 14 ("typeof " ++ text) := by
  obtain ⟨pieces, hphrase, hbefore⟩ := h.pieces
  refine ⟨⟨'t', "ypeof ".toList ++ text.toList, by simp, by decide⟩, _, hphrase.typeof, ?_⟩
  intro rest others hrest hothers
  have hall := cuts_spaced "typeof" (by decide) (hbefore rest others hrest hothers)
  simpa using hall

/-- A token between blanks joins two expressions. -/
theorem between {sign : String} {token : Token} (htoken : Token.ofChars? sign.toList = some token)
    (hmaximal : ∀ rest, Maximal sign.toList (' ' :: rest)) (hleft : Stands Body anyEnds m left)
    (hright : Stands Body anyEnds n right)
    {k : Nat} (hjoin : ∀ a b, Phrase m a → Phrase n b → Phrase k (a ++ .token token :: b)) :
    Stands Body anyEnds k (left ++ " " ++ sign ++ " " ++ right) := by
  obtain ⟨pieces, hphrase, hbefore⟩ := hleft.pieces
  obtain ⟨pieces', hphrase', hbefore'⟩ := hright.pieces
  rw [String.append_assoc, String.append_assoc, String.append_assoc]
  refine ⟨start_append hleft.start _, _, hjoin _ _ hphrase hphrase', ?_⟩
  intro rest others hrest hothers
  have hsign := cuts_between htoken hmaximal (hbefore' rest others hrest hothers)
  have hall := hbefore (' ' :: _) _ (EndsAt.cons (by decide)) hsign
  simpa using hall

theorem binary {sign operator : String} (hentry : (sign, operator, n) ∈ binaryOperators)
    (hleft : Stands Body anyEnds n left) (hright : Stands Body anyEnds (n + 1) right) :
    Stands Body anyEnds n (left ++ " " ++ sign ++ " " ++ right) := by
  have hsigns : ∀ entry ∈ binaryOperators, entry.1 ∈ signs := by decide
  have hsign := hsigns _ hentry
  exact between (ofChars?_sign _ hsign) (maximal_blank hsign) hleft hright
    fun _ _ ha hb => .binary hentry ha hb

theorem assign {operator : String} (hoperator : operator ∈ assignmentOperators)
    (hleft : Stands Body anyEnds 16 left) (hright : Stands Body anyEnds 1 right) :
    Stands Body anyEnds 1 (left ++ " " ++ operator ++ " " ++ right) := by
  have hsigns : ∀ operator ∈ assignmentOperators, operator ∈ signs := by decide
  have hsign := hsigns operator hoperator
  exact between (ofChars?_sign _ hsign) (maximal_blank hsign) hleft hright
    fun _ _ ha hb => .assign hoperator ha hb

theorem test (hleft : Stands Body anyEnds 9 left) (hright : Stands Body anyEnds 10 right) :
    Stands Body anyEnds 9 (left ++ " " ++ "instanceof" ++ " " ++ right) :=
  between rfl (fun _ => maximal_word (by decide) (by decide)) hleft hright
    fun _ _ ha hb => .test ha hb

theorem choice {condition yes no : String} (hcondition : Stands Body anyEnds 3 condition)
    (hyes : Stands Body anyEnds 1 yes) (hno : Stands Body anyEnds 1 no) :
    Stands Body anyEnds 2 (condition ++ " ? " ++ yes ++ " : " ++ no) := by
  obtain ⟨pieces, hphrase, hbefore⟩ := hcondition.pieces
  obtain ⟨pieces', hphrase', hbefore'⟩ := hyes.pieces
  obtain ⟨pieces'', hphrase'', hbefore''⟩ := hno.pieces
  rw [String.append_assoc, String.append_assoc, String.append_assoc]
  refine ⟨start_append hcondition.start _, _, hphrase.choice hphrase' hphrase'', ?_⟩
  intro rest others hrest hothers
  have hcolon := cuts_between (ofChars?_sign ":" (by decide)) (maximal_blank (by decide))
    (hbefore'' rest others hrest hothers)
  have hfirst := hbefore' (' ' :: _) _ (EndsAt.cons (by decide)) hcolon
  have hquestion := cuts_between (ofChars?_sign "?" (by decide)) (maximal_blank (by decide)) hfirst
  have hall := hbefore (' ' :: _) _ (EndsAt.cons (by decide)) hquestion
  simpa [Piece.sign] using hall

end Stands

/-! ### Arrow functions -/

/-- The characters that may follow a parameter. -/
def parameterEnds : List Char := [',', ')']

/-- Whether a text is a parameter. -/
structure Declares (Body : String → Prop) (text : String) (parameter : Parameter) : Prop where
  free : parameter.name ∉ reserved
  before : Before Body parameterEnds text parameter.pieces

section Arrows

variable {Body : String → Prop} {rest : List Char} {others : List Piece}
  {name text type : String} {texts : List String} {parameters : List Parameter}

theorem isFree_iff : isFree name ↔ isName name ∧ name ∉ reserved := by
  simp only [isFree, Bool.and_eq_true, decide_eq_true_eq]

theorem Declares.plain (h : isFree name) : Declares Body name (.plain name) := by
  obtain ⟨hname, hfree⟩ := isFree_iff.1 h
  refine ⟨hfree, ?_⟩
  intro rest others hrest hothers
  exact cuts_name hname (hrest.mono (by decide)) hothers

theorem Declares.typed (h : isFree name) (htype : IsType false type) :
    Declares Body (name ++ ": " ++ type) (.typed name) := by
  obtain ⟨hname, hfree⟩ := isFree_iff.1 h
  refine ⟨hfree, ?_⟩
  intro rest others hrest hothers
  have htypes := before_type htype rest others (hrest.mono (by decide)) hothers
  have hcolon : Cuts Body (':' :: ' ' :: _) _ := cuts_final ":" (by decide) (.blank rfl htypes)
  have hall := cuts_name hname (EndsAt.cons (by decide)) hcolon
  simpa [Parameter.pieces] using hall

theorem Declares.spread (h : isFree name) : Declares Body ("..." ++ name) (.rest name) := by
  obtain ⟨hname, hfree⟩ := isFree_iff.1 h
  refine ⟨hfree, ?_⟩
  intro rest others hrest hothers
  have hnames := cuts_name hname (hrest.mono (by decide)) hothers
  have hall := cuts_final "..." (by decide) hnames
  simpa [Parameter.pieces] using hall

theorem Declares.free_all (h : List.Forall₂ (Declares Body) texts parameters) :
    ∀ p ∈ parameters, p.name ∉ reserved :=
  forall_mem_partners h fun _ _ hp => hp.free

/-- What stands before the result of an arrow function. -/
theorem cuts_head (h : List.Forall₂ (Declares Body) texts parameters) (hcuts : Cuts Body rest others) :
    Cuts Body (("(" ++ ", ".intercalate texts ++ ") => ").toList ++ rest)
      (.sign "(" :: separated (parameters.map Parameter.pieces) ++
        .sign ")" :: .sign "=>" :: others) := by
  have hparts : List.Forall₂ (Before Body parameterEnds) texts (parameters.map Parameter.pieces) :=
    List.forall₂_map_right_iff.2 (h.imp fun _ _ hp => hp.before)
  have harrow := cuts_final "=>" (by decide) (Cuts.blank (c := ' ') rfl hcuts)
  have hclose := cuts_final ")" (by decide) (Cuts.blank (c := ' ') rfl harrow)
  have hinner := before_separated (by decide) hparts (')' :: _) _ (EndsAt.cons (by decide)) hclose
  have hopen := cuts_final "(" (by decide) hinner
  simpa using hopen

theorem start_head (texts : List String) (more : String) :
    ∃ c rest, ("(" ++ ", ".intercalate texts ++ ") => " ++ more).toList = c :: rest ∧ c ≠ '=' :=
  ⟨'(', (", ".intercalate texts ++ ") => " ++ more).toList, by simp, by decide⟩

/-- An arrow function with an expression as its result. -/
theorem Stands.arrow (h : List.Forall₂ (Declares Body) texts parameters)
    (hresult : Stands Body anyEnds 1 text) :
    Stands Body anyEnds 1 ("(" ++ ", ".intercalate texts ++ ") => " ++ text) := by
  obtain ⟨pieces, hphrase, hbefore⟩ := hresult.pieces
  refine ⟨start_head texts text, _, .arrow (Declares.free_all h) hphrase, ?_⟩
  intro rest others hrest hothers
  have hall := cuts_head h (hbefore rest others hrest hothers)
  simpa using hall

/-- An arrow function with a body. -/
theorem Stands.function (h : List.Forall₂ (Declares Body) texts parameters) (hbody : Body text) :
    Stands Body anyEnds 1 ("(" ++ ", ".intercalate texts ++ ") => " ++ text) := by
  refine ⟨start_head texts text, _, .function (Declares.free_all h), ?_⟩
  intro rest others _ hothers
  have hall := cuts_head h (.body hbody hothers)
  simpa using hall

end Arrows

end Recast.Grammar
