import Mathlib
import Recast.Proofs.Grammar.Spelling
import Recast.Proofs.Yields
import Recast.Render.Types

/-!
Texts that are types.

`IsType` is the grammar of types, as far as names, type arguments, arrays and unions go. It tells
closed types, which may stand before the brackets of an array, from unions. A `TypeTree` is a tree
that a type is read as; its text is a type (`TypeTree.isType`).
-/

namespace Recast.Grammar

/-! ### The grammar of types -/

/-- The words that no variable and no type can have as a name. -/
def reserved : List String :=
  ["typeof", "new", "super", "void", "delete", "in", "function", "class", "var", "break", "case",
   "catch", "const", "continue", "debugger", "default", "do", "else", "enum", "export", "extends",
   "finally", "for", "if", "import", "return", "switch", "throw", "try", "while", "with", "let",
   "static", "yield", "await", "implements", "interface", "package", "private", "protected",
   "public"]

/-- Whether a text names something: a name that is not reserved. -/
def isFree (text : String) : Bool := isName text && decide (text ∉ reserved)

/-- Whether a text is a chain of names. -/
inductive IsChain : String → Prop where
  | name {name : String} : isFree name → IsChain name
  | member {text name : String} : IsChain text → isName name → IsChain (text ++ "." ++ name)

/-- Whether a text is a type; `true` for one that may stand before the brackets of an array. -/
inductive IsType : Bool → String → Prop where
  | word {text : String} : isWord text.toList → IsType true text
  | chain {text : String} : IsChain text → IsType true text
  | applied {text : String} {arguments : List String} : IsChain text → arguments ≠ [] →
    (∀ a ∈ arguments, IsType false a) → IsType true (text ++ "<" ++ ", ".intercalate arguments ++ ">")
  | array {text : String} : IsType true text → IsType true (text ++ "[]")
  | parens {text : String} : IsType false text → IsType true ("(" ++ text ++ ")")
  | union {left right : String} : IsType false left → IsType true right →
    IsType false (left ++ " | " ++ right)
  | closed {text : String} : IsType true text → IsType false text

/-- Type arguments as they are written; without any there are no brackets. -/
def typeArgumentsOf (types : List String) : String :=
  if types.isEmpty then "" else "<" ++ ", ".intercalate types ++ ">"

theorem IsChain.isType {text : String} {types : List String} (h : IsChain text)
    (htypes : ∀ type ∈ types, IsType false type) : IsType true (text ++ typeArgumentsOf types) := by
  cases types with
  | nil =>
    rw [typeArgumentsOf, List.isEmpty_nil, if_pos rfl, String.append_empty]
    exact .chain h
  | cons first rest =>
    have happlied := IsType.applied h (List.cons_ne_nil first rest) htypes
    simpa [typeArgumentsOf, String.append_assoc] using happlied

/-- A chain starts like a word. -/
theorem IsChain.start {text : String} (h : IsChain text) :
    ∃ c rest, text.toList = c :: rest ∧ isWordStart c := by
  induction h with
  | name hname => exact isName_start (Bool.and_eq_true_iff.1 hname).1
  | @member text name _ _ ih =>
    obtain ⟨c, rest, htext, hc⟩ := ih
    exact ⟨c, rest ++ '.' :: name.toList, by simp [htext], hc⟩

/-- A type starts with a word or a parenthesis. -/
theorem IsType.start {closed : Bool} {text : String} (h : IsType closed text) :
    ∃ c rest, text.toList = c :: rest ∧ (isWordStart c ∨ c = '(') := by
  have happend : ∀ {left : String} (right : String),
      (∃ c rest, left.toList = c :: rest ∧ (isWordStart c ∨ c = '(')) →
        ∃ c rest, (left ++ right).toList = c :: rest ∧ (isWordStart c ∨ c = '(') := by
    rintro left right ⟨c, rest, hleft, hc⟩
    exact ⟨c, rest ++ right.toList, by simp [hleft], hc⟩
  induction h with
  | @word text hword =>
    cases htext : text.toList with
    | nil =>
      rw [htext] at hword
      cases hword
    | cons c rest =>
      rw [htext] at hword
      simp only [isWord, Bool.and_eq_true] at hword
      exact ⟨c, rest, rfl, .inl hword.1⟩
  | chain hchain =>
    obtain ⟨c, rest, htext, hc⟩ := hchain.start
    exact ⟨c, rest, htext, .inl hc⟩
  | applied hchain =>
    obtain ⟨c, rest, htext, hc⟩ := hchain.start
    rw [String.append_assoc, String.append_assoc]
    exact happend _ ⟨c, rest, htext, .inl hc⟩
  | array _ ih => exact happend _ ih
  | @parens text _ _ => exact ⟨'(', text.toList ++ [')'], by simp, .inr rfl⟩
  | union _ _ ih =>
    rw [String.append_assoc]
    exact happend _ ih
  | closed _ ih => exact ih

end Recast.Grammar

namespace Recast.Render

open Recast.Grammar

/-! ### Types of trees -/

theorem isUnionText_append (left right : List Char) :
    isUnionText (left ++ ' ' :: '|' :: ' ' :: right) = true := by
  induction left with
  | nil => rfl
  | cons c left ih =>
    rw [List.cons_append, isUnionText.eq_def]
    split
    · rfl
    · next heq =>
      cases heq
      exact ih
    · next heq => cases heq

/-- Where the element of an array stands, a type is closed. -/
theorem isType_elementText {text : String} (h : IsType false text) : IsType true (elementText text) := by
  unfold elementText
  split
  · exact h.parens
  · next hno =>
    cases h with
    | @union left right _ _ =>
      exfalso
      apply hno
      simpa using isUnionText_append left.toList right.toList
    | closed hclosed => exact hclosed

theorem isType_brackets {text : String} (h : IsType true text) (n : Nat) :
    IsType true (text ++ Text.times n "[]") := by
  induction n generalizing text with
  | zero => simpa [Text.times] using h
  | succ n ih =>
    rw [Text.times, ← String.append_assoc]
    exact ih h.array

/-- The trees that types are read as. -/
inductive TypeTree : Tree → Prop where
  | named {trivia : Trivia} {name : Word} {arguments : Option (List Tree)} {scope : Option Tree} :
    IsChain (Tree.qualifiedName (.node trivia (.type (.named name arguments scope false)))) →
    (∀ a ∈ arguments.getD [], TypeTree a) →
    TypeTree (.node trivia (.type (.named name arguments scope false)))
  | optional {trivia : Trivia} {name : Word} {argument : Tree} {scope : Option Tree} :
    TypeTree argument → TypeTree (.node trivia (.type (.named name (some [argument]) scope true)))
  | primitive {trivia : Trivia} {name : String} : isWord name.toList →
    TypeTree (.node trivia (.type (.primitive (.text name))))
  | array {trivia : Trivia} {element : Tree} {dimensions : Int} : TypeTree element →
    TypeTree (.node trivia (.type (.array (some element) dimensions)))
  | void {trivia : Trivia} : TypeTree (.node trivia (.type .void))
  | wildcard {trivia : Trivia} {kind : Option BoundKind} :
    TypeTree (.node trivia (.type (.wildcard none kind)))
  | bounded {trivia : Trivia} {bound : Tree} {kind : Option BoundKind} : TypeTree bound →
    TypeTree (.node trivia (.type (.wildcard (some bound) kind)))

theorem isType_any : IsType false "any" := .closed (.word (by decide))

/-- The texts of some types. -/
theorem exists_typeTexts {types : List Tree}
    (h : ∀ t ∈ types, ∃ text, typeText t = .ok text ∧ IsType false text) :
    ∃ texts : List String, types.mapM typeText = .ok texts ∧ texts.length = types.length ∧
      ∀ text ∈ texts, IsType false text := by
  obtain ⟨texts, htexts⟩ := exists_forall₂ h
  refine ⟨texts, mapM_eq_ok_iff.2 (htexts.imp fun _ _ htext => htext.1), htexts.length_eq.symm, ?_⟩
  exact forall_mem_partners htexts fun _ _ htext => htext.2

/-- The text of a named type is its name and its arguments. -/
theorem typeText_named {trivia : Trivia} {name : Word} {arguments : Option (List Tree)}
    {scope : Option Tree}
    (h : ∀ a ∈ arguments.getD [], ∃ text, typeText a = .ok text ∧ IsType false text) :
    ∃ types, typeText (.node trivia (.type (.named name arguments scope false))) =
        .ok (Tree.qualifiedName (.node trivia (.type (.named name arguments scope false))) ++
          typeArgumentsOf types) ∧
      types.length = (arguments.getD []).length ∧ ∀ type ∈ types, IsType false type := by
  rw [typeText, Tree.fold_node]
  rcases arguments with _ | _ | ⟨first, rest⟩
  · exact ⟨[], congrArg _ (String.append_empty).symm, rfl, nofun⟩
  · exact ⟨[], congrArg _ (String.append_empty).symm, rfl, nofun⟩
  · obtain ⟨types, htexts, hlength, htypes⟩ := exists_typeTexts h
    have hmap : ((first :: rest).map typeText).mapM id = .ok types := by
      rw [List.mapM_map]
      exact htexts
    refine ⟨types, ?_, hlength, htypes⟩
    cases types with
    | nil => cases hlength
    | cons type types =>
      simp only [typeLayer, Form.map, TypeForm.map, Option.map_some, List.map_cons] at hmap ⊢
      rw [← typeText, hmap]
      simp [typeArgumentsOf, String.append_assoc, bind, Except.bind, pure, Except.pure]

/-- The text of a type is one. -/
theorem TypeTree.isType {t : Tree} (h : TypeTree t) : ∃ text, typeText t = .ok text ∧ IsType false text := by
  induction h with
  | named hchain _ ih =>
    obtain ⟨types, htext, -, htypes⟩ := typeText_named ih
    exact ⟨_, htext, (hchain.isType htypes).closed⟩
  | optional _ ih =>
    obtain ⟨text, htext, htype⟩ := ih
    refine ⟨text ++ " | null", ?_, ?_⟩
    · rw [typeText, Tree.fold_node]
      simp only [typeLayer, Form.map, TypeForm.map, Option.map_some, List.map_cons, List.map_nil]
      rw [← typeText, htext]
      rfl
    · have hnull : " | null" = " | " ++ "null" := by decide
      rw [hnull, ← String.append_assoc]
      exact .union htype (.word (by decide))
  | primitive hword =>
    refine ⟨_, ?_, .closed (.word hword)⟩
    rw [typeText, Tree.fold_node]
    rfl
  | @array trivia element dimensions _ ih =>
    obtain ⟨text, htext, htype⟩ := ih
    refine ⟨_, ?_, .closed (isType_brackets (isType_elementText htype) dimensions.toNat)⟩
    rw [typeText, Tree.fold_node]
    simp only [typeLayer, Form.map, TypeForm.map, Option.map_some, Option.getD_some]
    rw [← typeText, htext]
    rfl
  | void =>
    refine ⟨"void", ?_, .closed (.word (by decide))⟩
    rw [typeText, Tree.fold_node]
    rfl
  | wildcard =>
    refine ⟨"any", ?_, isType_any⟩
    rw [typeText, Tree.fold_node]
    rfl
  | @bounded trivia bound kind _ ih =>
    obtain ⟨text, htext, htype⟩ := ih
    by_cases hkind : kind = some .upper
    · refine ⟨text, ?_, htype⟩
      rw [typeText, Tree.fold_node, hkind]
      exact htext
    · refine ⟨"any", ?_, isType_any⟩
      rw [typeText, Tree.fold_node]
      cases kind with
      | none => rfl
      | some kind =>
        cases kind with
        | upper => exact absurd rfl hkind
        | lower => rfl

end Recast.Render
