import Mathlib
import Recast.Proofs.Grammar.Token

/-!
Reading TypeScript types, as far as names, type arguments, arrays and unions go.

A type is the list of its alternatives, so that a union inside a union is no more than its
alternatives. Its text is cut into words and single signs (`typeTokens`); two angle brackets that
close two lists of arguments are two tokens. `ReadsAs` is the grammar: brackets bind tighter than
bars, and parentheses put a whole type where an alternative stands. Every word is a name here, also
one that is an operator on types elsewhere in the language.

The grammar is unambiguous (`ReadsAs.unique`). `TypeState.step` reads a type token by token, with a
stack for what is open, and every derivation leads it to the type that is derived.
-/

namespace Recast.Grammar

/-! ### Types and their tokens -/

/-- An alternative of a type: a name with type arguments, or an array. -/
inductive TypeAtom where
  | named (path : List String) (arguments : List (List TypeAtom))
  | array (element : List TypeAtom)

/-- Whether two characters that follow each other belong to one token. -/
def joins (a b : Char) : Bool := isWordPart a && isWordPart b

/-- The tokens of a type's text: words, and signs of one character; blanks are left out. -/
def typeTokens (text : String) : List String :=
  ((text.toList.splitBy joins).filter fun token => !token.all Text.isBlank).map String.ofList

/-- Whether a text starts and ends with characters of no word, so that no token goes beyond it. -/
def isMark (text : String) : Bool :=
  text.toList.head?.any (!isWordPart ·) && text.toList.getLast?.any (!isWordPart ·)

section Tokens

variable {before mark rest : String}

theorem typeTokens_append
    (h : ∀ a ∈ before.toList.getLast?, ∀ b ∈ rest.toList.head?, joins a b = false) :
    typeTokens (before ++ rest) = typeTokens before ++ typeTokens rest := by
  rw [typeTokens, String.toList_append, List.splitBy_append h, List.filter_append, List.map_append]
  rfl

theorem typeTokens_append_mark (h : isMark mark) (before : String) :
    typeTokens (before ++ mark) = typeTokens before ++ typeTokens mark := by
  refine typeTokens_append fun a _ b hb => ?_
  simp only [isMark, Bool.and_eq_true] at h
  rw [Option.mem_def.1 hb, Option.any_some, Bool.not_eq_true'] at h
  rw [joins, h.1, Bool.and_false]

theorem typeTokens_mark_append (h : isMark mark) (before rest : String) :
    typeTokens (before ++ mark ++ rest) = typeTokens (before ++ mark) ++ typeTokens rest := by
  refine typeTokens_append fun a ha b _ => ?_
  simp only [isMark, Bool.and_eq_true] at h
  cases hmark : mark.toList.getLast? with
  | none => simp [hmark] at h
  | some last =>
    rw [String.toList_append, List.getLast?_append, hmark] at ha
    cases ha
    rw [hmark, Option.any_some, Bool.not_eq_true'] at h
    rw [joins, h.2, Bool.false_and]

/-- A mark cuts a text into what stands before it and what stands behind it. -/
theorem typeTokens_mark (h : isMark mark) (before rest : String) :
    typeTokens (before ++ mark ++ rest) =
      typeTokens before ++ (typeTokens mark ++ typeTokens rest) := by
  rw [typeTokens_mark_append h, typeTokens_append_mark h, List.append_assoc]

/-- A word is one token. -/
theorem typeTokens_word {text : String} (h : isWord text.toList) : typeTokens text = [text] := by
  cases htext : text.toList with
  | nil =>
    rw [htext] at h
    cases h
  | cons c rest =>
    simp only [htext, isWord, Bool.and_eq_true, List.all_eq_true] at h
    have hparts : ∀ a ∈ c :: rest, isWordPart a := by
      rintro a ha
      rcases List.mem_cons.1 ha with rfl | ha
      · simp [isWordPart, h.1]
      · exact h.2 a ha
    have hchain : (c :: rest).IsChain fun a b => joins a b :=
      (List.pairwise_of_forall_mem_list fun a ha b hb => by
        simp [joins, hparts a ha, hparts b hb]).isChain
    have hblank : Text.isBlank c = false := by
      have hstart := h.1
      simp only [isWordStart, Bool.and_eq_true, Bool.not_eq_true'] at hstart
      exact hstart.1
    have hkept : [c :: rest].filter (fun token => !token.all Text.isBlank) = [c :: rest] := by
      simp [hblank]
    rw [typeTokens, htext, List.splitBy_of_isChain (List.cons_ne_nil c rest) hchain, hkept,
      List.map_singleton, ← htext, String.ofList_toList]

end Tokens

/-! ### The grammar -/

/-- Whether tokens are some names with dots between them. -/
inductive IsPath : List String → List String → Prop where
  | name {name : String} : isWord name.toList → IsPath [name] [name]
  | member {tokens path : List String} {name : String} : IsPath tokens path → isWord name.toList →
    IsPath (tokens ++ [".", name]) (path ++ [name])

/-- What tokens can be read as. -/
inductive TypePhrase where
  /-- An alternative of a union, which may stand before brackets. -/
  | alternative (type : List TypeAtom)
  | whole (type : List TypeAtom)
  /-- Type arguments, one at least. -/
  | arguments (types : List (List TypeAtom))

/-- The grammar of types. -/
inductive ReadsAs : List String → TypePhrase → Prop where
  | named {tokens path : List String} : IsPath tokens path →
    ReadsAs tokens (.alternative [.named path []])
  | applied {tokens path inner : List String} {types : List (List TypeAtom)} :
    IsPath tokens path → ReadsAs inner (.arguments types) →
    ReadsAs (tokens ++ "<" :: inner ++ [">"]) (.alternative [.named path types])
  | array {tokens : List String} {type : List TypeAtom} : ReadsAs tokens (.alternative type) →
    ReadsAs (tokens ++ ["[", "]"]) (.alternative [.array type])
  | parens {tokens : List String} {type : List TypeAtom} : ReadsAs tokens (.whole type) →
    ReadsAs ("(" :: tokens ++ [")"]) (.alternative type)
  | single {tokens : List String} {type : List TypeAtom} : ReadsAs tokens (.alternative type) →
    ReadsAs tokens (.whole type)
  | union {left right : List String} {type other : List TypeAtom} : ReadsAs left (.whole type) →
    ReadsAs right (.alternative other) → ReadsAs (left ++ "|" :: right) (.whole (type ++ other))
  | last {tokens : List String} {type : List TypeAtom} : ReadsAs tokens (.whole type) →
    ReadsAs tokens (.arguments [type])
  | more {tokens rest : List String} {type : List TypeAtom} {types : List (List TypeAtom)} :
    ReadsAs tokens (.whole type) → ReadsAs rest (.arguments types) →
    ReadsAs (tokens ++ "," :: rest) (.arguments (type :: types))

/-- A union on the right of a bar is no more than its alternatives. -/
theorem ReadsAs.bar {left right : List String} {type other : List TypeAtom}
    (h : ReadsAs left (.whole type)) (h' : ReadsAs right (.whole other)) :
    ReadsAs (left ++ "|" :: right) (.whole (type ++ other)) := by
  generalize hphrase : TypePhrase.whole other = phrase at h'
  induction h' generalizing other with
  | single hright =>
    cases hphrase
    exact h.union hright
  | @union inner last first second hinner hlast ih _ =>
    cases hphrase
    have hall := (ih rfl).union hlast
    rwa [List.append_assoc left, List.cons_append, List.append_assoc type] at hall
  | _ => cases hphrase

/-! ### Reading token by token -/

/-- What is open around the type at work, with the alternatives before it. -/
inductive TypeFrame where
  | parens (left : List TypeAtom)
  | arguments (left : List TypeAtom) (path : List String) (types : List (List TypeAtom))

/-- What has been read of an alternative. -/
inductive TypeMode where
  | start
  | dot (path : List String)
  | bracket (type : List TypeAtom)
  | done (type : List TypeAtom)

/-- Where the reading of a type stands: what is open, the alternatives that end in a bar, and the
alternative at work. -/
structure TypeState where
  frames : List TypeFrame := []
  left : List TypeAtom := []
  mode : TypeMode := .start

namespace TypeState

/-- The name that a type is, if it is no more than a name. -/
def path? : List TypeAtom → Option (List String)
  | [.named path []] => some path
  | _ => none

/-- The state after a token that follows an alternative. -/
def goOn (s : TypeState) (type : List TypeAtom) (token : String) : Option TypeState :=
  match token with
  | "." => (path? type).map fun path => { s with mode := .dot path }
  | "<" => (path? type).map fun path => { frames := .arguments s.left path [] :: s.frames }
  | "[" => some { s with mode := .bracket type }
  | "|" => some { s with left := s.left ++ type, mode := .start }
  | ")" =>
    match s.frames with
    | .parens left :: frames => some ⟨frames, left, .done (s.left ++ type)⟩
    | _ => none
  | "," =>
    match s.frames with
    | .arguments left path types :: frames =>
      some { frames := .arguments left path (types ++ [s.left ++ type]) :: frames }
    | _ => none
  | ">" =>
    match s.frames with
    | .arguments left path types :: frames =>
      some ⟨frames, left, .done [.named path (types ++ [s.left ++ type])]⟩
    | _ => none
  | _ => none

/-- The state after a token. -/
def step (s : TypeState) (token : String) : Option TypeState :=
  match s.mode with
  | .start =>
    if token = "(" then some { frames := .parens s.left :: s.frames }
    else some { s with mode := .done [.named [token] []] }
  | .dot path => some { s with mode := .done [.named (path ++ [token]) []] }
  | .bracket type => if token = "]" then some { s with mode := .done [.array type] } else none
  | .done type => s.goOn type token

/-- The state after some tokens. -/
def run (s : TypeState) (tokens : List String) : Option TypeState := tokens.foldlM step s

variable {frames : List TypeFrame} {left : List TypeAtom} {tokens path : List String}

theorem run_cons (s : TypeState) (token : String) (tokens : List String) :
    s.run (token :: tokens) = (s.step token).bind fun s => s.run tokens := by
  rw [run, List.foldlM_cons]
  rfl

theorem run_append (s : TypeState) (a b : List String) :
    s.run (a ++ b) = (s.run a).bind fun s => s.run b := by
  rw [run, List.foldlM_append]
  rfl

theorem run_path (h : IsPath tokens path) :
    run ⟨frames, left, .start⟩ tokens = some ⟨frames, left, .done [.named path []]⟩ := by
  induction h with
  | @name name hname =>
    have hparen : name ≠ "(" := by
      rintro rfl
      cases hname
    simp [run, step, hparen]
  | @member tokens path name _ _ ih =>
    rw [run_append, ih]
    rfl

end TypeState

/-- What reading some tokens comes to, whatever is open around them. -/
def TypePhrase.Runs (tokens : List String) : TypePhrase → Prop
  | .alternative type => ∀ frames left,
    TypeState.run ⟨frames, left, .start⟩ tokens = some ⟨frames, left, .done type⟩
  | .whole type => ∀ frames left, ∃ before last, type = before ++ last ∧
    TypeState.run ⟨frames, left, .start⟩ tokens = some ⟨frames, left ++ before, .done last⟩
  | .arguments types => ∀ frames left path read,
    TypeState.run ⟨.arguments left path read :: frames, [], .start⟩ (tokens ++ [">"]) =
      some ⟨frames, left, .done [.named path (read ++ types)]⟩

/-- Every derivation is run. -/
theorem ReadsAs.runs {tokens : List String} {phrase : TypePhrase} (h : ReadsAs tokens phrase) :
    phrase.Runs tokens := by
  induction h with
  | named hpath => exact fun frames left => TypeState.run_path hpath
  | @applied tokens path inner types hpath _ ih =>
    intro frames left
    rw [List.append_assoc, List.cons_append, TypeState.run_append, TypeState.run_path hpath]
    exact ih frames left path []
  | @array tokens type _ ih =>
    intro frames left
    rw [TypeState.run_append, ih frames left]
    rfl
  | @parens tokens type _ ih =>
    intro frames left
    obtain ⟨before, last, rfl, hrun⟩ := ih (.parens left :: frames) []
    rw [List.cons_append, TypeState.run_cons]
    change (TypeState.run ⟨.parens left :: frames, [], .start⟩ (tokens ++ [")"])) = _
    rw [TypeState.run_append, hrun]
    rfl
  | @single tokens type _ ih => exact fun frames left => ⟨[], type, rfl, by simpa using ih frames left⟩
  | @union first second type other _ _ ih ih' =>
    intro frames left
    obtain ⟨before, last, rfl, hrun⟩ := ih frames left
    refine ⟨before ++ last, other, rfl, ?_⟩
    rw [TypeState.run_append, hrun, ← List.append_assoc]
    exact ih' frames (left ++ before ++ last)
  | @last tokens type _ ih =>
    intro frames left path read
    obtain ⟨before, last, rfl, hrun⟩ := ih (.arguments left path read :: frames) []
    rw [TypeState.run_append, hrun]
    rfl
  | @more tokens rest type types _ _ ih ih' =>
    intro frames left path read
    obtain ⟨before, last, rfl, hrun⟩ := ih (.arguments left path read :: frames) []
    have hrest := ih' frames left path (read ++ [before ++ last])
    rw [List.append_assoc, List.singleton_append] at hrest
    rw [List.append_assoc, TypeState.run_append, hrun]
    exact hrest

/-- The grammar is unambiguous: some tokens are one type at most. -/
theorem ReadsAs.unique {tokens : List String} {type other : List TypeAtom}
    (h : ReadsAs tokens (.whole type)) (h' : ReadsAs tokens (.whole other)) : type = other := by
  obtain ⟨before, last, rfl, hrun⟩ := h.runs [] []
  obtain ⟨before', last', rfl, hrun'⟩ := h'.runs [] []
  rw [hrun, Option.some.injEq] at hrun'
  cases hrun'
  rfl

end Recast.Grammar
