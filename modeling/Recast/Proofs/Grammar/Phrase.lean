import Mathlib
import Recast.Proofs.Grammar.Type

/-!
The levels of TypeScript expressions.

`Phrase n pieces` says that some pieces of a text are an expression of level `n` or tighter. Beside
operators, accesses and calls it knows tests by `typeof`, casts, arrays, object creations and arrow
functions. Types and the bodies of functions count as pieces of their own: a type is read where the
grammar asks for one, and its brackets are no operators; what a body is, is left open.

Without brackets an expression has tokens only, and no operator that is looser than its level
(`Phrase.not_mem_looser`).
-/

namespace Recast.Grammar

/-! ### Pieces -/

/-- A piece of a text: a token, a type, or the body of a function. -/
inductive Piece where
  | token (token : Token)
  | type
  | body
deriving DecidableEq

namespace Piece

def sign (text : String) : Piece := .token (.sign text)

def word (text : String) : Piece := .token (.name text)

/-- The token that a piece is, if it is one. -/
def token? : Piece → Option Token
  | .token found => some found
  | _ => none

theorem eq_of_token?_eq_some {piece : Piece} {found : Token} (h : piece.token? = some found) :
    piece = .token found := by
  cases piece with
  | token => exact congrArg Piece.token (Option.some.inj h)
  | type | body => cases h

end Piece

/-- The characters that may follow a type. -/
def typeEnds : List Char := [')', ',', '>']

/-- The pieces of a text, each token as long as it can be. -/
inductive Cuts (Body : String → Prop) : List Char → List Piece → Prop where
  | nil : Cuts Body [] []
  | blank {c : Char} {rest : List Char} {pieces : List Piece} :
    Text.isBlank c → Cuts Body rest pieces → Cuts Body (c :: rest) pieces
  | token {text rest : List Char} {token : Token} {pieces : List Piece} :
    Token.ofChars? text = some token → Maximal text rest → Cuts Body rest pieces →
    Cuts Body (text ++ rest) (.token token :: pieces)
  | type {text : String} {rest : List Char} {pieces : List Piece} :
    IsType false text → EndsAt typeEnds rest → Cuts Body rest pieces →
    Cuts Body (text.toList ++ rest) (.type :: pieces)
  | body {text : String} {rest : List Char} {pieces : List Piece} :
    Body text → Cuts Body rest pieces → Cuts Body (text.toList ++ rest) (.body :: pieces)

/-! ### The grammar -/

/-- Some lists of pieces with commas between them. -/
def separated (parts : List (List Piece)) : List Piece := [.sign ","].intercalate parts

/-- The type arguments of a call; without any there are no brackets. -/
def typeArguments : Nat → List Piece
  | 0 => []
  | n + 1 => .sign "<" :: separated (List.replicate (n + 1) [.type]) ++ [.sign ">"]

/-- An argument of a call. -/
inductive Argument where
  | plain (value : List Piece)
  | spread (value : List Piece)
  /-- An object with one property. -/
  | property (name : String) (value : List Piece)

/-- The expression in an argument. -/
def Argument.value : Argument → List Piece
  | .plain value | .spread value | .property _ value => value

def Argument.pieces : Argument → List Piece
  | .plain value => value
  | .spread value => .sign "..." :: value
  | .property name value => .sign "\x7b" :: .word name :: .sign ":" :: value ++ [.sign "\x7d"]

/-- A parameter of an arrow function. -/
inductive Parameter where
  | plain (name : String)
  | typed (name : String)
  | rest (name : String)

def Parameter.name : Parameter → String
  | .plain name | .typed name | .rest name => name

def Parameter.pieces : Parameter → List Piece
  | .plain name => [.word name]
  | .typed name => [.word name, .sign ":", .type]
  | .rest name => [.sign "...", .word name]

/-- A chain of names, as a class is named. -/
inductive Chain : List Piece → Prop where
  | name {name : String} : name ∉ reserved → Chain [.word name]
  | member {pieces : List Piece} (name : String) : Chain pieces →
    Chain (pieces ++ [.sign ".", .word name])

/-- The pieces of an expression of a level. -/
inductive Phrase : Nat → List Piece → Prop where
  | name {name : String} : name ∉ reserved → Phrase 16 [.word name]
  | literal {text : String} : Phrase 16 [.token (.literal text)]
  | this : Phrase 16 [.token .this]
  | parens {inner : List Piece} : Phrase 1 inner → Phrase 16 (.sign "(" :: inner ++ [.sign ")"])
  | cast {inner : List Piece} : Phrase 9 inner →
    Phrase 16 (.sign "(" :: inner ++ [.word "as", .type, .sign ")"])
  | array {items : List (List Piece)} : (∀ item ∈ items, Phrase 1 item) →
    Phrase 16 (.sign "[" :: separated items ++ [.sign "]"])
  | superMember (name : String) : Phrase 16 [.word "super", .sign ".", .word name]
  | field {target : List Piece} (name : String) : Phrase 16 target →
    Phrase 16 (target ++ [.sign ".", .word name])
  | index {target inner : List Piece} : Phrase 16 target → Phrase 1 inner →
    Phrase 16 (target ++ .sign "[" :: inner ++ [.sign "]"])
  | call {callee : List Piece} (types : Nat) {arguments : List Argument} : Phrase 16 callee →
    (∀ a ∈ arguments, Phrase 1 a.value) →
    Phrase 16 (callee ++ typeArguments types ++
      .sign "(" :: separated (arguments.map Argument.pieces) ++ [.sign ")"])
  | create {name : List Piece} (types : Nat) {arguments : List Argument} : Chain name →
    (∀ a ∈ arguments, Phrase 1 a.value) →
    Phrase 16 (.word "new" :: name ++ typeArguments types ++
      .sign "(" :: separated (arguments.map Argument.pieces) ++ [.sign ")"])
  | update {operator : String} {operand : List Piece} : operator ∈ updateOperators →
    Phrase 16 operand → Phrase 15 (operand ++ [.sign operator])
  | before {operator : String} {operand : List Piece} : operator ∈ prefixOperators →
    Phrase 14 operand → Phrase 14 (.sign operator :: operand)
  | typeof {operand : List Piece} : Phrase 14 operand → Phrase 14 (.word "typeof" :: operand)
  | binary {sign operator : String} {n : Nat} {left right : List Piece} :
    (sign, operator, n) ∈ binaryOperators → Phrase n left → Phrase (n + 1) right →
    Phrase n (left ++ .sign sign :: right)
  | test {left right : List Piece} : Phrase 9 left → Phrase 10 right →
    Phrase 9 (left ++ .sign "instanceof" :: right)
  | choice {condition yes no : List Piece} : Phrase 3 condition → Phrase 1 yes → Phrase 1 no →
    Phrase 2 (condition ++ .sign "?" :: yes ++ .sign ":" :: no)
  | assign {operator : String} {left right : List Piece} : operator ∈ assignmentOperators →
    Phrase 16 left → Phrase 1 right → Phrase 1 (left ++ .sign operator :: right)
  | arrow {parameters : List Parameter} {result : List Piece} :
    (∀ p ∈ parameters, p.name ∉ reserved) → Phrase 1 result →
    Phrase 1 (.sign "(" :: separated (parameters.map Parameter.pieces) ++
      .sign ")" :: .sign "=>" :: result)
  | function {parameters : List Parameter} : (∀ p ∈ parameters, p.name ∉ reserved) →
    Phrase 1 (.sign "(" :: separated (parameters.map Parameter.pieces) ++
      [.sign ")", .sign "=>", .body])
  | lift {n : Nat} {pieces : List Piece} : Phrase (n + 1) pieces → Phrase n pieces

theorem Phrase.mono {m n : Nat} {pieces : List Piece} (h : Phrase n pieces) (hle : m ≤ n) :
    Phrase m pieces := by
  induction hle using Nat.decreasingInduction with
  | of_succ k _ ih => exact ih.lift
  | self => exact h

theorem Chain.phrase {pieces : List Piece} (h : Chain pieces) : Phrase 16 pieces := by
  induction h with
  | name hname => exact .name hname
  | member name _ ih => exact ih.field name

/-- Whether a text is an expression of a level. -/
def IsPhrase (Body : String → Prop) (n : Nat) (text : String) : Prop :=
  ∃ pieces, Cuts Body text.toList pieces ∧ Phrase n pieces

/-! ### What is no expression of a level -/

/-- Whether some pieces have no bracket that opens. -/
def Bracketless (pieces : List Piece) : Prop := Piece.sign "(" ∉ pieces ∧ Piece.sign "[" ∉ pieces

theorem bracketless_append {left right : List Piece} :
    Bracketless (left ++ right) ↔ Bracketless left ∧ Bracketless right := by
  simp only [Bracketless, List.mem_append, not_or]
  tauto

theorem Bracketless.tail {piece : Piece} {pieces : List Piece} (h : Bracketless (piece :: pieces)) :
    Bracketless pieces :=
  ⟨fun hmem => h.1 (List.mem_cons_of_mem _ hmem), fun hmem => h.2 (List.mem_cons_of_mem _ hmem)⟩

/-- Without brackets there are neither types nor bodies. -/
theorem Phrase.isSome_token? {n : Nat} {pieces : List Piece} (h : Phrase n pieces)
    (hopen : Bracketless pieces) : ∀ piece ∈ pieces, piece.token?.isSome := by
  induction h with
  | name | literal | this => exact List.forall_mem_singleton.2 rfl
  | superMember =>
    simp only [List.forall_mem_cons]
    exact ⟨rfl, rfl, rfl, nofun⟩
  | parens | cast | call | create | arrow | function => exact absurd (by simp) hopen.1
  | array | index => exact absurd (by simp) hopen.2
  | field _ _ ih =>
    simp only [List.forall_mem_append, List.forall_mem_cons]
    exact ⟨ih (bracketless_append.1 hopen).1, rfl, rfl, nofun⟩
  | update _ _ ih =>
    simp only [List.forall_mem_append, List.forall_mem_cons]
    exact ⟨ih (bracketless_append.1 hopen).1, rfl, nofun⟩
  | before _ _ ih | typeof _ ih =>
    rw [List.forall_mem_cons]
    exact ⟨rfl, ih hopen.tail⟩
  | binary _ _ _ ihl ihr | test _ _ ihl ihr | assign _ _ _ ihl ihr =>
    obtain ⟨hleft, hright⟩ := bracketless_append.1 hopen
    simp only [List.forall_mem_append, List.forall_mem_cons]
    exact ⟨ihl hleft, rfl, ihr hright.tail⟩
  | choice _ _ _ ihc ihy ihn =>
    obtain ⟨hfirst, hno⟩ := bracketless_append.1 hopen
    obtain ⟨hcondition, hyes⟩ := bracketless_append.1 hfirst
    simp only [List.forall_mem_append, List.forall_mem_cons]
    exact ⟨⟨ihc hcondition, rfl, ihy hyes.tail⟩, rfl, ihn hno.tail⟩
  | lift _ ih => exact ih hopen

/-- Without brackets no operator stands in an expression of a tighter level than its own. -/
theorem Phrase.not_mem_looser {sign operator : String} {k n : Nat} {pieces : List Piece}
    (hentry : (sign, operator, k) ∈ binaryOperators) (hunary : sign ∉ prefixOperators)
    (h : Phrase n pieces) (hopen : Bracketless pieces) (hk : k < n) : Piece.sign sign ∉ pieces := by
  have hlevels : ∀ entry ∈ binaryOperators, 3 ≤ entry.2.2 ∧ entry.1 ∉ updateOperators ∧
      entry.1 ≠ "." ∧ entry.1 ≠ "instanceof" ∧
      ∀ other ∈ binaryOperators, entry.1 = other.1 → entry.2.2 = other.2.2 := by
    decide
  obtain ⟨hthree, hupdate, hpoint, htest, hsame⟩ := hlevels _ hentry
  have hsign (other : String) : Piece.sign sign = .sign other ↔ sign = other := by simp [Piece.sign]
  have hword (name : String) : Piece.sign sign ≠ .word name := by simp [Piece.sign, Piece.word]
  induction h with
  | name => simpa using hword _
  | literal | this => simp [Piece.sign]
  | superMember => simp [hsign, hword, hpoint]
  | parens | cast | call | create | arrow | function => exact absurd (by simp) hopen.1
  | array | index => exact absurd (by simp) hopen.2
  | field _ _ ih => simpa [hsign, hword, hpoint] using ih (bracketless_append.1 hopen).1 hk
  | @update operator _ hoperator _ ih =>
    have hne : sign ≠ operator := fun heq => hupdate (heq ▸ hoperator)
    simpa [hsign, hne] using ih (bracketless_append.1 hopen).1 (by omega)
  | @before operator _ hoperator _ ih =>
    have hne : sign ≠ operator := fun heq => hunary (heq ▸ hoperator)
    simpa [hsign, hne] using ih hopen.tail hk
  | typeof _ ih => simpa [hword] using ih hopen.tail hk
  | @binary other _ m _ _ hother _ _ ihl ihr =>
    obtain ⟨hleft, hright⟩ := bracketless_append.1 hopen
    have hne : sign ≠ other := by
      intro heq
      have hlevel : k = m := hsame _ hother heq
      omega
    simpa [hsign, hne] using ⟨ihl hleft hk, ihr hright.tail (by omega)⟩
  | test _ _ ihl ihr =>
    obtain ⟨hleft, hright⟩ := bracketless_append.1 hopen
    simpa [hsign, htest] using ⟨ihl hleft hk, ihr hright.tail (by omega)⟩
  | choice | assign =>
    have hlow : 3 ≤ k := hthree
    omega
  | lift _ ih => exact ih hopen (by omega)

/-- A sign is spelled as it is. -/
theorem eq_of_ofChars?_sign {text : List Char} {sign : String}
    (h : Token.ofChars? text = some (.sign sign)) : sign.toList = text := by
  simp only [Token.ofChars?] at h
  split at h
  · simp only [Token.ofWord] at h
    split at h
    · cases h
    · split at h
      · cases h
        exact String.toList_ofList
      · split at h <;> cases h
  · split at h
    · cases h
    · split at h
      · cases h
        exact String.toList_ofList
      · cases h

/-- The characters of the signs among some pieces stand in the text. -/
theorem Cuts.mem_of_sign {Body : String → Prop} {text : List Char} {pieces : List Piece}
    (h : Cuts Body text pieces) {sign : String} (hmem : Piece.sign sign ∈ pieces) {c : Char}
    (hc : c ∈ sign.toList) : c ∈ text := by
  induction h with
  | nil => cases hmem
  | blank _ _ ih => exact List.mem_cons_of_mem _ (ih hmem)
  | @token first rest token pieces htoken _ _ ih =>
    rcases List.mem_cons.1 hmem with heq | hmem
    · obtain rfl := (Piece.token.inj heq).symm
      rw [eq_of_ofChars?_sign htoken] at hc
      exact List.mem_append_left _ hc
    · exact List.mem_append_right _ (ih hmem)
  | type _ _ _ ih | body _ _ ih =>
    rcases List.mem_cons.1 hmem with heq | hmem
    · cases heq
    · exact List.mem_append_right _ (ih hmem)

/-- Pieces that are tokens are the tokens of the text. -/
theorem Cuts.lexes {Body : String → Prop} {text : List Char} {pieces : List Piece}
    (h : Cuts Body text pieces) (htokens : ∀ piece ∈ pieces, piece.token?.isSome) :
    Lexes text (pieces.filterMap Piece.token?) := by
  induction h with
  | nil => exact .nil
  | blank hblank _ ih => exact .blank hblank (ih htokens)
  | token htoken hmaximal _ ih =>
    rw [List.forall_mem_cons] at htokens
    exact .token htoken hmaximal (ih htokens.2)
  | type | body =>
    rw [List.forall_mem_cons] at htokens
    cases htokens.1

end Recast.Grammar
