import Mathlib
import Recast.Proofs.Grammar.Stands
import Recast.Proofs.Render.Expressions
import Recast.Proofs.Render.Gives

/-!
Levels of rendered expressions.

An operand goes without parentheses where its binding strength is no less than its place asks for.
The binding strength tells the operator of a tree; `textLevel` tells that of its text. They are the
same but for two kinds of trees. A test for a scalar type is written as a comparison of a `typeof`,
and a reference to a constructor as an arrow function; both are taken to bind tighter than they do.

An operand that fits its place is an expression of the level that the place asks for
(`gives_operand_of_fits`). The texts of arguments, types and new arrays are what they are meant to
be, too.
-/

namespace Recast

namespace Render

open Recast.Grammar

/-! ### Levels of texts -/

/-- Scopes in which expressions may hold blocks. -/
def AllowsBlocks (scope : Scope) : Prop := scope.attached = true

/-- Whether a test for a type is written with `typeof`. -/
def isScalarTest (type : Option Tree) : Bool :=
  match runtimeName type with
  | .ok name => isTypeofName name
  | .error _ => false

/-- The level of the operator that the text of an expression shows. -/
def textLevel (t : Tree) : Nat :=
  match t.form with
  | .expr (.instanceOf _ type) => if isScalarTest type then binaryLevel "==" else bindingLevel t
  | .expr (.methodReference _ name) => if name.isText "new" then assignmentLevel else bindingLevel t
  | _ => bindingLevel t

/-- Whether an expression fits where a level is asked for: it goes in parentheses there, or its text
has that level. -/
def Fits (m : Nat) (t : Tree) : Prop := bindingLevel t < m ∨ m ≤ textLevel t

instance (m : Nat) (t : Tree) : Decidable (Fits m t) := inferInstanceAs (Decidable (_ ∨ _))

/-- Whether an expression is a number. -/
def isNumeral (t : Tree) : Bool :=
  match t.form with
  | .expr (.literal value) => isNumber value.display.toList
  | _ => false

/-- Whether an expression fits before a point or a bracket, where no number may stand and no update
of a variable. -/
def FitsObject (t : Tree) : Prop :=
  bindingLevel t < postfixLevel ∨ (textLevel t = primaryLevel ∧ isNumeral t = false)

instance (t : Tree) : Decidable (FitsObject t) := inferInstanceAs (Decidable (_ ∨ _))

theorem textLevel_bounds (t : Tree) : 1 ≤ textLevel t ∧ textLevel t ≤ bindingLevel t := by
  have hbinding := bindingLevel_bounds t
  unfold textLevel
  split
  · next hform =>
    have htest : bindingLevel t = 9 := by simp [bindingLevel, hform, binaryLevel]
    split
    · rw [htest]
      decide
    · exact ⟨hbinding.1, le_rfl⟩
  · split
    · exact ⟨le_rfl, hbinding.1⟩
    · exact ⟨hbinding.1, le_rfl⟩
  · exact ⟨hbinding.1, le_rfl⟩

/-- What names a place is primary. -/
theorem textLevel_of_isPlace {t : Tree} (h : isPlace t) :
    textLevel t = primaryLevel ∧ isNumeral t = false := by
  have hlevel : bindingLevel t = primaryLevel := (isPlace_spec h).1
  unfold isPlace at h
  split at h
  · next hform => simp [textLevel, isNumeral, hform, hlevel]
  · next hform => simp [textLevel, isNumeral, hform, hlevel]
  · next hform => simp [textLevel, isNumeral, hform, hlevel]
  · cases h

/-! ### Operands -/

/-- Whether a text is written for an expression: one of its level, and before a point or a bracket
if it is primary. -/
structure Writes (Body : String → Prop) (t : Tree) (text : String) : Prop where
  loose : Stands Body anyEnds (textLevel t) text
  firm : textLevel t = primaryLevel → isNumeral t = false → Stands Body firmEnds 16 text

/-- Whether an expression is written at its level. -/
def Shows (Body : String → Prop) (t : Tree) : Prop := Gives AllowsBlocks t.rendering.expr (Writes Body t)

/-- Whether any member may be taken from a text. -/
def TakesMembers (Body : String → Prop) (code : String) : Prop :=
  ∀ name, isName name → Stands Body firmEnds 16 (code ++ "." ++ name)

/-- Whether an expression gives an operand with a property, where a level is asked for. -/
def GivesOperand (m : Nat) (t : Tree) (P : String → Prop) : Prop :=
  Gives AllowsBlocks (operand (some t.rendering) m) P

section Operands

variable {Body : String → Prop} {t : Tree} {text : String} {m : Nat}

theorem Writes.of_firm (hlevel : textLevel t = 16) (h : Stands Body firmEnds 16 text) :
    Writes Body t text :=
  ⟨hlevel ▸ h.before_any, fun _ _ => h⟩

theorem Writes.of_loose {n : Nat} (hlevel : textLevel t = n) (hn : n < 16)
    (h : Stands Body anyEnds n text) : Writes Body t text :=
  ⟨hlevel ▸ h, fun heq => absurd (hlevel.symm.trans heq) (ne_of_lt hn)⟩

/-- An operand is in parentheses, or is what its expression writes. -/
theorem gives_operand (h : Shows Body t) (m : Nat) :
    GivesOperand m t fun code =>
      (bindingLevel t < m ∧ Stands Body firmEnds 16 code) ∨
        (m ≤ bindingLevel t ∧ Writes Body t code) := by
  refine Gives.bind h fun text htext => ?_
  have hnode : slotNode (some t.rendering) = some t := slotNode_rendering (some t)
  simp only [hnode, Option.map_some, Option.getD_some]
  by_cases hlevel : bindingLevel t < m
  · have hparens := (htext.loose.mono (textLevel_bounds t).1).parens
    rw [if_pos hlevel]
    exact Gives.pure (.inl ⟨hlevel, hparens⟩)
  · rw [if_neg hlevel]
    exact Gives.pure (.inr ⟨Nat.not_lt.1 hlevel, htext⟩)

/-- An operand that fits is one of the level asked for. -/
theorem gives_operand_of_fits (h : Shows Body t) (hm : m ≤ 16) (hfits : Fits m t) :
    GivesOperand m t (Stands Body anyEnds m) := by
  refine (gives_operand h m).mono ?_
  rintro code (⟨-, hcode⟩ | ⟨hle, hcode⟩)
  · exact hcode.before_any.mono hm
  · rcases hfits with hlt | hlevel
    · exact absurd hlt (Nat.not_lt.2 hle)
    · exact hcode.loose.mono hlevel

/-- Any operand is an expression. -/
theorem gives_operand_any (h : Shows Body t) (m : Nat) :
    GivesOperand m t (Stands Body anyEnds 1) := by
  refine (gives_operand h m).mono ?_
  rintro code (⟨-, hcode⟩ | ⟨-, hcode⟩)
  · exact hcode.before_any.mono (by decide)
  · exact hcode.loose.mono (textLevel_bounds t).1

/-- An operand that fits before a point stands there. -/
theorem gives_operand_object (h : Shows Body t)
    (hfits : FitsObject t) :
    GivesOperand postfixLevel t (Stands Body firmEnds 16) := by
  refine (gives_operand h postfixLevel).mono ?_
  rintro code (⟨-, hcode⟩ | ⟨hle, hcode⟩)
  · exact hcode
  · rcases hfits with hlt | ⟨hlevel, hnumeral⟩
    · exact absurd hlt (Nat.not_lt.2 hle)
    · exact hcode.firm hlevel hnumeral

/-- A place that is assigned to is primary. -/
theorem gives_operand_place (h : Shows Body t) (hplace : isPlace t) (m : Nat) :
    GivesOperand m t (Stands Body firmEnds 16) := by
  obtain ⟨hlevel, hnumeral⟩ := textLevel_of_isPlace hplace
  refine (gives_operand h m).mono ?_
  rintro code (⟨-, hcode⟩ | ⟨-, hcode⟩)
  · exact hcode
  · exact hcode.firm hlevel hnumeral

end Operands

/-! ### Parts of expressions -/

/-- Chains of names, as classes are named. -/
inductive NameTree : Tree → Prop where
  | ident {trivia : Trivia} {name : String} : isFree name →
    NameTree (.node trivia (.expr (.ident (.text name))))
  | member {trivia : Trivia} {target : Tree} {name : String} : NameTree target → isName name →
    NameTree (.node trivia (.expr (.field (some target) (.text name))))

/-- Parameters of lambdas. -/
inductive LambdaParameter : Tree → Prop where
  | plain {trivia : Trivia} {name : String} {modifiers : List Modifier} {annotations : List Tree}
    {isVarargs : Bool} : isFree name →
    LambdaParameter (.node trivia (.part (.parameter (.text name) none modifiers annotations isVarargs)))
  | typed {trivia : Trivia} {name : String} {type : Tree} {modifiers : List Modifier}
    {annotations : List Tree} {isVarargs : Bool} : isFree name → TypeTree type →
    LambdaParameter
      (.node trivia (.part (.parameter (.text name) (some type) modifiers annotations isVarargs)))

section Parts

variable {Body : String → Prop}

theorem gives_argumentsText {arguments : List Tree}
    (h : ∀ a ∈ arguments, Shows Body a) :
    Gives AllowsBlocks (argumentsText (arguments.map Tree.rendering)) fun text =>
      ∃ texts, text = ", ".intercalate texts ∧ ∀ text ∈ texts, Stands Body anyEnds 1 text := by
  have hall : ∀ r ∈ arguments.map Tree.rendering, Gives AllowsBlocks r.expr (Stands Body anyEnds 1) := by
    rw [List.forall_mem_map]
    intro a ha
    exact (h a ha).mono fun text htext => htext.loose.mono (textLevel_bounds a).1
  refine Gives.bind (Gives.mapM hall) fun texts htexts => Gives.pure ⟨texts, rfl, ?_⟩
  exact forall_mem_partners htexts fun _ _ htext => htext

theorem gives_typeArgumentsText {types : List Tree} (h : ∀ t ∈ types, TypeTree t) :
    Gives AllowsBlocks (typeArgumentsText ((types.map Tree.rendering).map (·.node))) fun text =>
      ∃ texts, text = typeArgumentsOf texts ∧ ∀ type ∈ texts, IsType false type := by
  have hnodes : (types.map Tree.rendering).map (·.node) = types := by
    simp [Function.comp_def, Tree.rendering_node]
  have hall : ∀ t ∈ types, Gives AllowsBlocks (ofType (typeText t)) (IsType false) := by
    intro t ht
    obtain ⟨text, htext, htype⟩ := (h t ht).isType
    exact Gives.ofType htext htype
  rw [hnodes]
  cases types with
  | nil => exact Gives.pure ⟨[], rfl, nofun⟩
  | cons first rest =>
    refine Gives.bind (Gives.mapM hall) fun texts htexts => Gives.pure ⟨texts, ?_, ?_⟩
    · cases htexts with
      | cons => rfl
    · exact forall_mem_partners htexts fun _ _ htype => htype

theorem stands_newArray {element : String} {texts : List String} (helement : IsType true element)
    (n : Nat) (h : ∀ text ∈ texts, Stands Body anyEnds 1 text) :
    Stands Body firmEnds 16
      ("new Array<" ++ element ++ Text.times n "[]" ++ ">(" ++ ", ".intercalate texts ++ ")") := by
  obtain ⟨arguments, harguments⟩ := Stands.all_pass h
  have htypes : ∀ type ∈ [element ++ Text.times n "[]"], IsType false type :=
    List.forall_mem_singleton.2 (isType_brackets helement n).closed
  have harray : IsChain "Array" := .name (by decide)
  have hall := Stands.create harray htypes harguments
  have htext : "new Array<" ++ element ++ Text.times n "[]" ++ ">(" ++ ", ".intercalate texts ++ ")" =
      "new " ++ ("Array" ++ (typeArgumentsOf [element ++ Text.times n "[]"] ++ "(" ++
        ", ".intercalate texts ++ ")")) := by
    apply String.toList_injective
    simp [typeArgumentsOf]
  rwa [htext]

theorem stands_arrayFrom {length rest : String} (hlength : Stands Body anyEnds 1 length)
    (hrest : Stands Body anyEnds 1 rest) :
    Stands Body firmEnds 16
      ("Array.from(\x7blength: " ++ length ++ "\x7d, () => " ++ rest ++ ")") := by
  obtain ⟨value, hproperty⟩ := hlength.property
  have hfunction : Stands Body anyEnds 1 ("(" ++ ", ".intercalate [] ++ ") => " ++ rest) :=
    .arrow .nil hrest
  obtain ⟨result, harrow⟩ := hfunction.passes
  have harray : Stands Body firmEnds 16 "Array" := .of_name (by decide)
  have hfrom : Stands Body firmEnds 16 ("Array" ++ "." ++ "from") := harray.field (by decide)
  have hnone : ∀ type ∈ ([] : List String), IsType false type := nofun
  have hall := hfrom.call hnone (.cons hproperty (.cons harrow .nil))
  have htext : "Array.from(\x7blength: " ++ length ++ "\x7d, () => " ++ rest ++ ")" =
      "Array" ++ "." ++ "from" ++ (typeArgumentsOf [] ++ "(" ++ ", ".intercalate
        ["\x7blength: " ++ length ++ "\x7d", "(" ++ ", ".intercalate [] ++ ") => " ++ rest] ++ ")") := by
    apply String.toList_injective
    simp [typeArgumentsOf]
  rwa [htext]

theorem gives_sizedArray {element : String} (helement : IsType true element)
    {dimensions : List (Option Tree)}
    (h : ∀ size, some size ∈ dimensions → Shows Body size) :
    Gives AllowsBlocks (sizedArray element (dimensions.map (·.map Tree.rendering)))
      (Stands Body firmEnds 16) := by
  have hempty (n : Nat) :
      Stands Body firmEnds 16 ("new Array<" ++ element ++ Text.times n "[]" ++ ">()") := by
    have hnone : ∀ text ∈ ([] : List String), Stands Body anyEnds 1 text := nofun
    have hall := stands_newArray helement n hnone
    have htext : "new Array<" ++ element ++ Text.times n "[]" ++ ">(" ++ ", ".intercalate [] ++ ")" =
        "new Array<" ++ element ++ Text.times n "[]" ++ ">()" := by
      apply String.toList_injective
      simp
    rwa [htext] at hall
  induction dimensions with
  | nil =>
    have hall := hempty 0
    rw [Text.times, String.append_empty] at hall
    exact Gives.pure hall
  | cons size inner ih =>
    have hinner := ih fun size hsize => h size (List.mem_cons_of_mem _ hsize)
    cases size with
    | none => exact Gives.pure (hempty _)
    | some size =>
      refine Gives.bind (h size List.mem_cons_self) fun length hlength => ?_
      have hloose := hlength.loose.mono (textLevel_bounds size).1
      have hflat (n : Nat) : Stands Body firmEnds 16
          ("new Array<" ++ element ++ Text.times n "[]" ++ ">(" ++ length ++ ")") := by
        have hall := stands_newArray helement n (List.forall_mem_singleton.2 hloose)
        rwa [String.intercalate_singleton] at hall
      cases inner with
      | nil => exact Gives.pure (hflat _)
      | cons next inner =>
        cases next with
        | none => exact Gives.pure (hflat _)
        | some next =>
          refine Gives.bind hinner fun rest hrest => Gives.pure ?_
          exact stands_arrayFrom hloose (hrest.before_any.mono (by decide))

theorem gives_createdType {trivia : Trivia} {name : Word} {scope : Option Tree}
    {types : Option (List Tree)}
    (htypes : ∀ t ∈ types.getD [], TypeTree t) :
    Gives AllowsBlocks
      (createdType (slotNode (some
        (Tree.rendering (.node trivia (.type (.named name types scope false)))))))
      fun text => ∃ names, text =
        Tree.qualifiedName (.node trivia (.type (.named name types scope false))) ++
          typeArgumentsOf names ∧ ∀ type ∈ names, IsType false type := by
  obtain ⟨names, htext, hlength, hnames⟩ := typeText_named fun t ht => (htypes t ht).isType
  rw [createdType, slotNode, Option.map_some, Tree.rendering_node]
  refine Gives.bind (Gives.ofType htext rfl) ?_
  rintro _ rfl
  rcases types with _ | _ | ⟨first, rest⟩
  · exact Gives.pure ⟨names, rfl, hnames⟩
  · obtain rfl := List.eq_nil_of_length_eq_zero hlength
    exact Gives.pure ⟨[], (String.append_empty).symm, hnames⟩
  · exact Gives.pure ⟨names, rfl, hnames⟩

theorem gives_lambdaParameters (Body : String → Prop) {parameters : List Tree}
    (h : ∀ p ∈ parameters, LambdaParameter p) :
    Gives AllowsBlocks ((parameters.map Tree.rendering).mapM lambdaParameter) fun texts =>
      ∃ declared, List.Forall₂ (Declares Body) texts declared := by
  have hall : ∀ r ∈ parameters.map Tree.rendering, Gives AllowsBlocks (lambdaParameter r)
      fun text => ∃ parameter, Declares Body text parameter := by
    rw [List.forall_mem_map]
    intro p hp
    rw [lambdaParameter, Tree.rendering_node]
    cases h p hp with
    | plain hname => exact Gives.pure ⟨_, .plain hname⟩
    | typed hname htype =>
      obtain ⟨text, htext, htype⟩ := htype.isType
      exact Gives.bind (Gives.ofType htext htype) fun text htype => Gives.pure ⟨_, .typed hname htype⟩
  refine (Gives.mapM hall).mono fun texts htexts => exists_forall₂ ?_
  exact forall_mem_partners htexts fun _ _ hdeclared => hdeclared

end Parts

end Render

end Recast
