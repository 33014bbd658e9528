import Mathlib
import Recast.Proofs.Grammar.Type
import Recast.Proofs.Grammar.TypeReading
import Recast.Proofs.Render.Uncommented
import Recast.Proofs.Tree.Basic

/-!
What the text of a type says, and when a type has none.

`meaning` is the type that a tree stands for: an optional type is its argument or `null`, a wildcard
its upper bound or `any`, and a union has the alternatives of its members. If the names of a tree
are identifiers (`Identified`), its text is read as this type and as no other, although the
parentheses of an array are put by the text of its element and not by its shape. A text that shows
no bar with blanks around it is a single alternative (`Says`).

A tree has no text exactly if an optional type without exactly one argument stands where it is
rendered (`Renders`).
-/

namespace Recast

open Grammar

namespace Tree

/-! ### The names of a type -/

/-- The name of a type behind the names of its scopes. -/
def namePath : Tree → List String :=
  fold fun _ layer =>
    match layer with
    | .type (.named name _ (some scope) _) => scope ++ [name.display]
    | .type (.named name _ none _) => [name.display]
    | _ => []

/-- Whether a class type and its scopes have identifiers for names. -/
inductive HasNames : Tree → Prop where
  | named {trivia : Trivia} {name : String} {arguments : Option (List Tree)} {scope : Option Tree}
    {orNull : Bool} : isWord name.toList → (∀ outer ∈ scope, HasNames outer) →
    HasNames (.node trivia (.type (.named (.text name) arguments scope orNull)))

/-- The qualified name of a type is its path. -/
theorem HasNames.isPath {t : Tree} (h : t.HasNames) :
    IsPath (typeTokens t.qualifiedName) t.namePath := by
  induction h with
  | @named trivia name arguments scope orNull hname _ ih =>
    rw [qualifiedName, namePath, fold_node, fold_node]
    cases scope with
    | none =>
      change IsPath (typeTokens name) [name]
      rw [typeTokens_word hname]
      exact .name hname
    | some outer =>
      change IsPath (typeTokens (outer.qualifiedName ++ "." ++ name)) (outer.namePath ++ [name])
      have hdot : typeTokens "." = ["."] := by decide
      rw [typeTokens_mark (by decide), typeTokens_word hname, hdot]
      exact .member (ih outer rfl) hname

end Tree

namespace Render

/-! ### What a type means -/

/-- The type that is no more than a word. -/
def wordType (word : String) : List TypeAtom := [.named [word] []]

/-- The arrays of some dimensions over a type. -/
def arraysOf (element : List TypeAtom) (dimensions : Nat) : List TypeAtom :=
  (fun type => [.array type])^[dimensions] element

/-- The type that a tree stands for. -/
def meaning : Tree → List TypeAtom :=
  Tree.fold fun node layer =>
    match layer with
    | .type (.named _ arguments _ true) => (arguments.getD []).flatten ++ wordType "null"
    | .type (.named _ arguments _ false) => [.named node.namePath (arguments.getD [])]
    | .type (.array element dimensions) =>
      arraysOf (element.getD (wordType "any")) dimensions.toNat
    | .type (.primitive name) => wordType name.display
    | .type .void => wordType "void"
    | .type (.union members) => members.flatten
    | .type (.wildcard (some bound) (some .upper)) => bound
    | _ => wordType "any"

/-- Whether a tree is a type whose names are identifiers. -/
inductive Identified : Tree → Prop where
  | named {trivia : Trivia} {name : Word} {arguments : Option (List Tree)} {scope : Option Tree} :
    Tree.HasNames (.node trivia (.type (.named name arguments scope false))) →
    (∀ a ∈ arguments.getD [], Identified a) →
    Identified (.node trivia (.type (.named name arguments scope false)))
  | optional {trivia : Trivia} {name : Word} {argument : Tree} {scope : Option Tree} :
    Identified argument →
    Identified (.node trivia (.type (.named name (some [argument]) scope true)))
  | primitive {trivia : Trivia} {name : String} : isWord name.toList →
    Identified (.node trivia (.type (.primitive (.text name))))
  | void {trivia : Trivia} : Identified (.node trivia (.type .void))
  | array {trivia : Trivia} {element : Tree} {dimensions : Int} : Identified element →
    Identified (.node trivia (.type (.array (some element) dimensions)))
  | union {trivia : Trivia} {members : List Tree} : members ≠ [] →
    (∀ m ∈ members, Identified m) → Identified (.node trivia (.type (.union members)))
  | wildcard {trivia : Trivia} {bound : Option Tree} {kind : Option BoundKind} :
    (∀ b ∈ bound, Identified b) → Identified (.node trivia (.type (.wildcard bound kind)))

/-! ### Texts that say what is meant -/

/-- Whether a text is read as a type, and as a single alternative unless it shows a bar. -/
structure Says (text : String) (type : List TypeAtom) : Prop where
  whole : ReadsAs (typeTokens text) (.whole type)
  closed : isUnionText text.toList = false → ReadsAs (typeTokens text) (.alternative type)

section Says

variable {text left right : String} {type other : List TypeAtom}

theorem Says.of_alternative (h : ReadsAs (typeTokens text) (.alternative type)) :
    Says text type :=
  ⟨h.single, fun _ => h⟩

theorem says_word (h : isWord text.toList) : Says text (wordType text) := by
  refine .of_alternative ?_
  rw [typeTokens_word h]
  exact .named (.name h)

/-- Two types with a bar between them are the union of both. -/
theorem Says.bar (hleft : Says left type) (hright : Says right other) :
    Says (left ++ " | " ++ right) (type ++ other) := by
  constructor
  · have hbar : typeTokens " | " = ["|"] := by decide
    rw [typeTokens_mark (by decide), hbar]
    exact hleft.whole.bar hright.whole
  · intro hno
    have hchars : (left ++ " | " ++ right).toList =
        left.toList ++ ' ' :: '|' :: ' ' :: right.toList := by simp
    rw [hchars, isUnionText_append] at hno
    cases hno

/-- Where the element of an array stands, a text is a single alternative. -/
theorem Says.element (h : Says text type) :
    ReadsAs (typeTokens (elementText text)) (.alternative type) := by
  unfold elementText
  split
  · have hopen : typeTokens "(" = ["("] := by decide
    have hclose : typeTokens ")" = [")"] := by decide
    have hparens : "(" ++ text ++ ")" = "" ++ "(" ++ (text ++ ")") := by
      rw [String.empty_append, String.append_assoc]
    rw [hparens, typeTokens_mark (by decide), typeTokens_append_mark (by decide), hopen, hclose]
    exact h.whole.parens
  · next hno => exact h.closed (by simpa using hno)

theorem readsAs_brackets (h : ReadsAs (typeTokens text) (.alternative type)) (n : Nat) :
    ReadsAs (typeTokens (text ++ Text.times n "[]")) (.alternative (arraysOf type n)) := by
  induction n generalizing text type with
  | zero => simpa [Text.times, arraysOf] using h
  | succ n ih =>
    have hbrackets : typeTokens "[]" = ["[", "]"] := by decide
    rw [Text.times, ← String.append_assoc]
    refine ih ?_
    rw [typeTokens_append_mark (by decide), hbrackets]
    exact h.array

/-- Texts with commas between them are type arguments. -/
theorem readsAs_arguments {texts : List String} {types : List (List TypeAtom)}
    (h : List.Forall₂ Says texts types) (hne : texts ≠ []) :
    ReadsAs (typeTokens (", ".intercalate texts)) (.arguments types) := by
  induction h with
  | nil => exact absurd rfl hne
  | @cons first type rest types hfirst hrest ih =>
    cases hrest with
    | nil =>
      rw [String.intercalate_singleton]
      exact hfirst.whole.last
    | @cons second other rest types hsecond hrest =>
      have hcomma : typeTokens ", " = [","] := by decide
      rw [String.intercalate_cons_cons, typeTokens_mark (by decide), hcomma]
      exact hfirst.whole.more (ih (by simp))

/-- Texts with bars between them are a union. -/
theorem says_union {texts : List String} {types : List (List TypeAtom)}
    (h : List.Forall₂ Says texts types) (hne : texts ≠ []) :
    Says (" | ".intercalate texts) types.flatten := by
  induction h with
  | nil => exact absurd rfl hne
  | @cons first type rest types hfirst hrest ih =>
    cases hrest with
    | nil => simpa using hfirst
    | @cons second other rest types hsecond hrest =>
      rw [String.intercalate_cons_cons]
      exact hfirst.bar (ih (by simp))

/-- The text of a named type: its path, and its arguments if it has any. -/
theorem says_applied {path : List String} {arguments : List String}
    {types : List (List TypeAtom)} (hpath : IsPath (typeTokens text) path)
    (h : List.Forall₂ Says arguments types) (hne : arguments ≠ []) :
    Says (text ++ "<" ++ ", ".intercalate arguments ++ ">") [.named path types] := by
  refine .of_alternative ?_
  have hopen : typeTokens "<" = ["<"] := by decide
  have hclose : typeTokens ">" = [">"] := by decide
  rw [typeTokens_append_mark (by decide), typeTokens_mark (by decide), hopen, hclose]
  exact .applied hpath (readsAs_arguments h hne)

end Says

/-! ### Texts of trees -/

/-- The texts of some types say what the types mean. -/
theorem exists_says {types : List Tree}
    (h : ∀ t ∈ types, ∃ text, typeText t = .ok text ∧ Says text (meaning t)) :
    ∃ texts, (types.map typeText).mapM id = .ok texts ∧
      List.Forall₂ Says texts (types.map meaning) := by
  obtain ⟨texts, htexts⟩ := exists_forall₂ h
  refine ⟨texts, ?_, List.forall₂_map_right_iff.2 (htexts.imp fun _ _ htext => htext.2).flip⟩
  rw [List.mapM_map]
  exact mapM_eq_ok_iff.2 (htexts.imp fun _ _ htext => htext.1)

/-- The text of a type whose names are identifiers says what the type means. -/
theorem Identified.says {t : Tree} (h : Identified t) :
    ∃ text, typeText t = .ok text ∧ Says text (meaning t) := by
  induction h with
  | @named trivia name arguments scope hnames _ ih =>
    have hpath := hnames.isPath
    rw [typeText_node, meaning, Tree.fold_node]
    rcases arguments with _ | _ | ⟨first, rest⟩
    · exact ⟨_, rfl, .of_alternative (.named hpath)⟩
    · exact ⟨_, rfl, .of_alternative (.named hpath)⟩
    · obtain ⟨texts, htexts, hsays⟩ := exists_says ih
      have hne : texts ≠ [] := by
        rintro rfl
        cases hsays
      rw [Option.getD_some] at htexts
      refine ⟨_, ?_, says_applied hpath hsays hne⟩
      change ((first :: rest).map typeText).mapM id >>= _ = _
      rw [htexts]
      rfl
  | @optional trivia name argument scope _ ih =>
    obtain ⟨text, htext, hsays⟩ := ih
    have hnull : Says "null" (wordType "null") := says_word (by decide)
    have hmeaning : meaning (.node trivia (.type (.named name (some [argument]) scope true))) =
        meaning argument ++ wordType "null" := by
      rw [meaning, Tree.fold_node]
      change [meaning argument].flatten ++ _ = _
      rw [List.flatten_singleton]
      rfl
    rw [typeText_node, hmeaning]
    refine ⟨text ++ " | " ++ "null", ?_, hsays.bar hnull⟩
    change typeText argument >>= _ = _
    rw [htext, String.append_assoc]
    rfl
  | primitive hname =>
    rw [typeText_node, meaning, Tree.fold_node]
    exact ⟨_, rfl, says_word hname⟩
  | void =>
    rw [typeText_node, meaning, Tree.fold_node]
    exact ⟨_, rfl, says_word (by decide)⟩
  | @array trivia element dimensions _ ih =>
    obtain ⟨text, htext, hsays⟩ := ih
    rw [typeText_node, meaning, Tree.fold_node]
    refine ⟨_, ?_, .of_alternative (readsAs_brackets hsays.element dimensions.toNat)⟩
    change typeText element >>= _ = _
    rw [htext]
    rfl
  | @union trivia members hne _ ih =>
    obtain ⟨texts, htexts, hsays⟩ := exists_says ih
    have hne : texts ≠ [] := by
      rintro rfl
      simp at hsays
      exact hne hsays
    rw [typeText_node, meaning, Tree.fold_node]
    refine ⟨_, ?_, says_union hsays hne⟩
    change (members.map typeText).mapM id >>= _ = _
    rw [htexts]
    rfl
  | @wildcard trivia bound kind _ ih =>
    rw [typeText_node, meaning, Tree.fold_node]
    rcases bound with _ | bound
    · exact ⟨_, rfl, says_word (by decide)⟩
    · rcases kind with _ | _ | _
      · exact ⟨_, rfl, says_word (by decide)⟩
      · exact ih bound rfl
      · exact ⟨_, rfl, says_word (by decide)⟩

/-! ### Types without a text -/

end Render

namespace Tree

/-- Whether a node is an optional type without exactly one argument. -/
def misusesOptional (t : Tree) : Bool :=
  match t.form with
  | .type (.named _ arguments _ true) => (arguments.getD []).length != 1
  | _ => false

/-- The parts of a type whose texts are part of its own. -/
def renderedParts (t : Tree) : List Tree :=
  match t.form with
  | .type (.named _ arguments _ _) => if t.misusesOptional then [] else arguments.getD []
  | .type (.array element _) => element.toList
  | .type (.union members) => members
  | .type (.wildcard (some bound) (some .upper)) => [bound]
  | _ => []

/-- Whether a node stands where a type is rendered. -/
def Renders : Tree → Tree → Prop := Relation.ReflTransGen fun t part => part ∈ t.renderedParts

end Tree

namespace Render

theorem bind_eq_mapM (types : List Tree) (f : List String → String) :
    (do return f (← (types.map typeText).mapM id)) = f <$> types.mapM typeText := by
  rw [List.mapM_map, bind_pure_comp]
  rfl

theorem bind_eq_mapM_singleton (t : Tree) (f : String → String) :
    (do return f (← typeText t)) = (fun texts => f (texts.headD "")) <$> [t].mapM typeText := by
  rw [List.mapM_cons, List.mapM_nil]
  cases typeText t <;> rfl

/-- A type has no text if it is itself at fault, and else its text is put together from those of its
parts. -/
theorem exists_typeText_eq (t : Tree) :
    ∃ assemble : List String → String, typeText t =
      if t.misusesOptional then .error (.optionalArity t.qualifiedName)
      else assemble <$> t.renderedParts.mapM typeText := by
  rcases t with ⟨trivia, form⟩
  rw [typeText_node]
  cases form with
  | type form =>
    cases form with
    | named name arguments scope orNull =>
      rcases orNull with _ | _
      · rcases arguments with _ | _ | ⟨first, rest⟩
        · exact ⟨fun _ => _, rfl⟩
        · exact ⟨fun _ => _, rfl⟩
        · exact ⟨_, bind_eq_mapM (first :: rest) fun texts =>
            Tree.qualifiedName (.node trivia (.type (.named name (some (first :: rest)) scope false)))
              ++ "<" ++ ", ".intercalate texts ++ ">"⟩
      · rcases arguments with _ | _ | ⟨argument, _ | ⟨second, rest⟩⟩
        · exact ⟨fun _ => "", rfl⟩
        · exact ⟨fun _ => "", rfl⟩
        · exact ⟨_, bind_eq_mapM_singleton argument fun text => text ++ " | null"⟩
        · exact ⟨fun _ => "", rfl⟩
    | array element dimensions =>
      rcases element with _ | element
      · exact ⟨fun _ => _, rfl⟩
      · exact ⟨_, bind_eq_mapM_singleton element fun text =>
          elementText text ++ Text.times dimensions.toNat "[]"⟩
    | union members =>
      exact ⟨_, bind_eq_mapM members fun texts => " | ".intercalate texts⟩
    | wildcard bound kind =>
      rcases bound with _ | bound
      · exact ⟨fun _ => _, rfl⟩
      · rcases kind with _ | _ | _
        · exact ⟨fun _ => _, rfl⟩
        · exact ⟨_, (bind_pure _).symm.trans (bind_eq_mapM_singleton bound id)⟩
        · exact ⟨fun _ => _, rfl⟩
    | _ => exact ⟨fun _ => _, rfl⟩
  | _ => exact ⟨fun _ => _, rfl⟩

section Failure

variable {ε α β : Type} {f : α → Except ε β} {items : List α}

theorem mapM_error {e : ε} (h : items.mapM f = .error e) : ∃ a ∈ items, f a = .error e := by
  induction items with
  | nil => cases h
  | cons first rest ih =>
    rw [List.mapM_cons] at h
    cases hfirst : f first with
    | error cause =>
      rw [hfirst] at h
      cases h
      exact ⟨first, List.mem_cons_self, hfirst⟩
    | ok result =>
      rw [hfirst] at h
      cases hrest : rest.mapM f with
      | error cause =>
        rw [hrest] at h
        cases h
        obtain ⟨a, ha, hfa⟩ := ih hrest
        exact ⟨a, List.mem_cons_of_mem _ ha, hfa⟩
      | ok results =>
        rw [hrest] at h
        cases h

theorem exists_mapM_error {a : α} {e : ε} (ha : a ∈ items) (h : f a = .error e) :
    ∃ cause, items.mapM f = .error cause := by
  cases hresult : items.mapM f with
  | error cause => exact ⟨cause, rfl⟩
  | ok results =>
    obtain ⟨b, -, hb⟩ := exists_partner (mapM_eq_ok_iff.1 hresult) a ha
    rw [h] at hb
    cases hb

end Failure

variable {t node : Tree}

theorem mem_children_of_renderedParts {trivia : Trivia} {form : Form Tree} {part : Tree}
    (h : part ∈ (Tree.node trivia form).renderedParts) : part ∈ form.children := by
  unfold Tree.renderedParts at h
  split at h
  · next hform =>
    obtain rfl := hform
    split at h
    · cases h
    · exact List.mem_append_left _ h
  · next hform =>
    obtain rfl := hform
    exact h
  · next hform =>
    obtain rfl := hform
    exact h
  · next hform =>
    obtain rfl := hform
    exact h
  · cases h

/-- Whatever keeps a type from having a text is an optional type without exactly one argument. -/
theorem exists_of_typeText_error {state : BrokenState} (h : typeText t = .error state) :
    ∃ node, t.Renders node ∧ node.misusesOptional ∧ state = .optionalArity node.qualifiedName := by
  induction t using Tree.induct with
  | step trivia form ih =>
    obtain ⟨assemble, heq⟩ := exists_typeText_eq (.node trivia form)
    rw [heq] at h
    split at h
    · next hmisuse =>
      cases h
      exact ⟨_, .refl, hmisuse, rfl⟩
    · cases hparts : (Tree.node trivia form).renderedParts.mapM typeText with
      | error cause =>
        rw [hparts] at h
        cases h
        obtain ⟨part, hpart, herror⟩ := mapM_error hparts
        obtain ⟨node, hrenders, hnode⟩ := ih part (mem_children_of_renderedParts hpart) herror
        exact ⟨node, .head hpart hrenders, hnode⟩
      | ok texts =>
        rw [hparts] at h
        cases h

/-- A type that renders an optional type without exactly one argument has no text. -/
theorem exists_typeText_error (hrenders : t.Renders node) (hnode : node.misusesOptional) :
    ∃ state, typeText t = .error state := by
  induction hrenders using Relation.ReflTransGen.head_induction_on with
  | refl =>
    obtain ⟨assemble, heq⟩ := exists_typeText_eq node
    exact ⟨_, by rw [heq, if_pos hnode]⟩
  | @head t part hpart _ ih =>
    obtain ⟨assemble, heq⟩ := exists_typeText_eq t
    obtain ⟨state, hstate⟩ := ih
    obtain ⟨cause, hcause⟩ := exists_mapM_error hpart hstate
    rw [heq]
    split
    · exact ⟨_, rfl⟩
    · rw [hcause]
      exact ⟨cause, rfl⟩

/-- **The text of a type is unambiguous.** If the names of a type are identifiers, it has a text, and
the grammar of types reads the text as what the type means and as nothing else. Any tree has a text,
unless it renders an optional type without exactly one argument. -/
theorem typeText_unambiguous (t : Tree) :
    (Identified t → ∃ text, typeText t = .ok text ∧
      ∀ type, ReadsAs (typeTokens text) (.whole type) ↔ type = meaning t) ∧
    ((∃ state, typeText t = .error state) ↔ ∃ node, t.Renders node ∧ node.misusesOptional) := by
  constructor
  · intro h
    obtain ⟨text, htext, hsays⟩ := h.says
    refine ⟨text, htext, fun type => ⟨fun hread => hread.unique hsays.whole, ?_⟩⟩
    rintro rfl
    exact hsays.whole
  · constructor
    · rintro ⟨state, hstate⟩
      obtain ⟨node, hrenders, hnode, -⟩ := exists_of_typeText_error hstate
      exact ⟨node, hrenders, hnode⟩
    · rintro ⟨node, hrenders, hnode⟩
      exact exists_typeText_error hrenders hnode

/-- The arrays over an optional map from a wildcard to arrays of optional numbers. -/
def optionalMaps : Tree :=
  let node := fun form : TypeForm Tree => Tree.node {} (.type form)
  let optional := fun argument : Tree =>
    node (.named (.text "Optional") (some [argument]) none true)
  let name := fun word : String => node (.named (.text word) none none false)
  let bound := node (.wildcard (some (optional (name "Item"))) (some .upper))
  let numbers := node (.array (some (optional (node (.primitive (.text "number"))))) 1)
  let map := node (.named (.text "Map") (some [bound, numbers]) (some (name "util")) false)
  node (.array (some (optional map)) 2)

theorem typeText_optionalMaps :
    typeText optionalMaps = .ok "(util.Map<Item | null, (number | null)[]> | null)[][]" ∧
      ∀ type, ReadsAs (typeTokens
          "(util.Map<Item | null, (number | null)[]> | null)[][]") (.whole type) ↔
        type = [.array [.array [.named ["util", "Map"]
          [wordType "Item" ++ wordType "null", [.array (wordType "number" ++ wordType "null")]],
          .named ["null"] []]]] := by
  have hnames : Identified optionalMaps := by
    refine .array (.optional (.named (.named (by decide) ?_) ?_))
    · rintro outer ⟨⟩
      exact .named (by decide) (by simp)
    · rintro argument hargument
      rcases List.mem_cons.1 hargument with rfl | hargument
      · refine .wildcard ?_
        rintro bound ⟨⟩
        exact .optional (.named (.named (by decide) (by simp)) (by simp))
      · obtain rfl := List.mem_singleton.1 hargument
        exact .array (.optional (.primitive (by decide)))
  obtain ⟨text, htext, hreads⟩ := (typeText_unambiguous optionalMaps).1 hnames
  have hspelling : typeText optionalMaps =
      .ok "(util.Map<Item | null, (number | null)[]> | null)[][]" := rfl
  rw [hspelling, Except.ok.injEq] at htext
  subst htext
  exact ⟨hspelling, hreads⟩

end Render

end Recast
