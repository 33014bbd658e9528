import Mathlib
import Recast.Proofs.Quoted
import Recast.Proofs.Render.Basic
import Recast.Proofs.Render.Texts

/-!
Handlers as one `catch` block.

The handlers of a `try` become one block that tests the value it binds. `Handler` is the shape of such
a block, with its text (`Handler.lines`) and its meaning (`Handler.run`). Every alternative of every
handler is one entry of a chain (`Clause.arms`); what is written is the text of this chain
(`chainLines_eq`), and running it finds the first handler one of whose alternatives holds
(`run_chain`). `catchText_runs` puts both together.
-/

namespace Recast.Render

/-! ### One `catch` block -/

/-- What is run for a value: a body, and the constant by which it knows the value if that is not under
the name that it expects. -/
structure Body where
  renamed : Option String
  lines : Render (List String)

/-- What a `catch` block does with the value that it binds. -/
inductive Handler where
  | rethrow
  | handle (body : Body)
  /-- A test whether the value is of a type. -/
  | test (type : String) (met : Body) (otherwise : Handler)

/-- What becomes of a value that has been caught. -/
inductive Caught where
  | rethrown
  | handled (body : Body)

/-- What a block does with a value, by the types that the value is of. -/
def Handler.run (holds : String → Bool) : Handler → Caught
  | .rethrow => .rethrown
  | .handle body => .handled body
  | .test type met otherwise => if holds type then .handled met else otherwise.run holds

/-- The lines of a body, the constant first. -/
def Body.text (binding : String) (body : Body) : Render (List String) := do
  let indent ← indent
  let constant := body.renamed.map fun name => indent ++ "const " ++ name ++ " = " ++ binding ++ ";"
  return constant.toList ++ (← body.lines)

/-- A body in braces. -/
def Body.braced (binding : String) (body : Body) : Render String := do
  let indent ← indent
  let lines ← indented (body.text binding)
  return String.intercalate "\n" (["\x7b"] ++ lines ++ [indent ++ "\x7d"])

/-- A test of the bound value. -/
def testText (binding type : String) : String :=
  if isTypeofName type then "typeof " ++ binding ++ " === '" ++ type ++ "'"
  else binding ++ " instanceof " ++ type

/-- What stands after a test that fails. -/
def Handler.elseText (binding : String) : Handler → Render String
  | .rethrow => do
    let indent ← indent
    let inner ← indented Render.indent
    return " else \x7b\n" ++ inner ++ "throw " ++ binding ++ ";\n" ++ indent ++ "\x7d"
  | .handle body => return " else " ++ (← body.braced binding)
  | .test type met otherwise => do
    let block ← met.braced binding
    let rest ← otherwise.elseText binding
    return " else if (" ++ testText binding type ++ ") " ++ block ++ rest

/-- The lines of a block. -/
def Handler.lines (binding : String) : Handler → Render (List String)
  | .rethrow => return [(← indent) ++ "throw " ++ binding ++ ";"]
  | .handle body => body.text binding
  | .test type met otherwise => do
    let indent ← indent
    let block ← met.braced binding
    let rest ← otherwise.elseText binding
    return [indent ++ "if (" ++ testText binding type ++ ") " ++ block ++ rest]

/-- The block that goes through some entries in order; one without a type takes everything. -/
def Handler.chain : List (Option String × Body) → Handler
  | [] => .rethrow
  | (none, body) :: _ => .handle body
  | (some type, body) :: rest => .test type body (chain rest)

/-! ### Handlers as they are read -/

/-- A handler: the name that it binds, the names of the types that it catches, and its body. -/
structure Clause where
  name : String
  caught : List String
  body : Tree

/-- Whether a type of a handler is one class type, or an alternative between some, with the names of
these. -/
inductive Catches : Tree → List String → Prop
  | single {trivia : Trivia} {name : Word} {arguments : Option (List Tree)} {scope : Option Tree}
      {orNull : Bool} :
      Catches (.node trivia (.type (.named name arguments scope orNull)))
        [Tree.qualifiedName (.node trivia (.type (.named name arguments scope orNull)))]
  | union {trivia : Trivia} {elements : List Tree} (hne : elements ≠ [])
      (h : ∀ t ∈ elements, ∃ name arguments scope orNull,
        t.form = .type (.named name arguments scope orNull)) :
      Catches (.node trivia (.type (.union elements))) (elements.map Tree.qualifiedName)

/-- Whether a tree is a handler. -/
def Clause.IsOf (clause : Clause) (t : Tree) : Prop :=
  ∃ own type modifiers annotations isVarargs,
    t.form = .part (.catchClause (some (.node own (.part (.parameter (.text clause.name) (some type)
      modifiers annotations isVarargs)))) (some clause.body)) ∧ Catches type clause.caught

/-- The body of a handler in a block that binds the value under another name. -/
def Clause.bodyIn (clause : Clause) (binding : String) : Body where
  renamed := if clause.name = binding then none else some clause.name
  lines := clause.body.rendering.lines []

/-- The entries of a handler, one for each type. -/
def Clause.arms (binding : String) (clause : Clause) : List (Option String × Body) :=
  clause.caught.map fun type =>
    (if type ∈ catchAllTypes then none else some type, clause.bodyIn binding)

/-! ### What is run -/

section Runs

variable {binding : String} {clause : Clause} {clauses : List Clause} {holds : String → Bool}

/-- A handler is left if none of its types holds. -/
theorem run_arms (hall : ∀ type ∈ catchAllTypes, holds type = true) (caught : List String) (body : Body)
    (rest : List (Option String × Body)) :
    (Handler.chain (caught.map (fun type =>
      (if type ∈ catchAllTypes then none else some type, body)) ++ rest)).run holds =
      if caught.any holds then .handled body else (Handler.chain rest).run holds := by
  induction caught with
  | nil => rfl
  | cons type caught ih =>
    rw [List.map_cons, List.cons_append, List.any_cons]
    by_cases htype : type ∈ catchAllTypes
    · rw [if_pos htype, hall type htype]
      rfl
    · rw [if_neg htype, Handler.chain, Handler.run, ih]
      cases holds type <;> rfl

/-- Of some handlers the first one of whose types holds is run. -/
theorem run_chain (hall : ∀ type ∈ catchAllTypes, holds type = true) :
    (Handler.chain (clauses.flatMap (Clause.arms binding))).run holds =
      match clauses.find? (·.caught.any holds) with
      | some clause => .handled (clause.bodyIn binding)
      | none => .rethrown := by
  induction clauses with
  | nil => rfl
  | cons clause clauses ih =>
    rw [List.flatMap_cons, Clause.arms, run_arms hall, ih, List.find?_cons]
    cases clause.caught.any holds <;> rfl

end Runs

/-! ### What is written -/

section WrittenAs

variable {binding : String} {clause : Clause} {arm : CatchArm} {arms : List CatchArm}
  {entry : Option String × Body} {entries : List (Option String × Body)} {t : Tree}

/-- Whether an arm is written as an entry. -/
structure WrittenAs (binding : String) (arm : CatchArm) (entry : Option String × Body) : Prop where
  everything : entry.1 = none → arm.type = none
  type : ∀ name, entry.1 = some name → ∃ type, arm.type = some type ∧ runtimeName (some type) = .ok name
  body : armLines (.text binding) arm = entry.2.text binding

theorem typeTest_eq {type : Tree} {name : String} (h : runtimeName (some type) = .ok name) :
    typeTest (some type) (fun _ => return Value.display (.text binding)) =
      return testText binding name := by
  unfold typeTest testText
  rw [h]
  by_cases htypeof : isTypeofName name <;> simp [ofType, htypeof, Value.display]

theorem WrittenAs.block (h : WrittenAs binding arm entry) :
    armBlock (.text binding) arm = entry.2.braced binding := by
  rw [armBlock, h.body]
  rfl

theorem chainRest_eq (h : List.Forall₂ (WrittenAs binding) arms entries) :
    chainRest (.text binding) arms = (Handler.chain entries).elseText binding := by
  induction h with
  | nil => rfl
  | @cons arm entry arms entries hfirst _ ih =>
    obtain ⟨name, body⟩ := entry
    unfold chainRest
    cases name with
    | none =>
      rw [hfirst.everything rfl, hfirst.block]
      rfl
    | some name =>
      obtain ⟨type, htype, hname⟩ := hfirst.type name rfl
      rw [htype]
      simp only [typeTest_eq hname, hfirst.block, ih, pure_bind]
      rfl

/-- What is written is the text of the chain. -/
theorem chainLines_eq (hne : arms ≠ []) (h : List.Forall₂ (WrittenAs binding) arms entries) :
    chainLines (.text binding) arms = (Handler.chain entries).lines binding := by
  cases h with
  | nil => exact absurd rfl hne
  | @cons arm entry arms entries hfirst hrest =>
    obtain ⟨name, body⟩ := entry
    simp only [chainLines]
    cases name with
    | none =>
      rw [hfirst.everything rfl, hfirst.body]
      rfl
    | some name =>
      obtain ⟨type, htype, hname⟩ := hfirst.type name rfl
      rw [htype]
      simp only [typeTest_eq hname, hfirst.block, chainRest_eq hrest, pure_bind]
      rfl

/-- An alternative of a handler. -/
theorem writtenAs_arm {type : Tree} {name : Word} {arguments : Option (List Tree)} {scope : Option Tree}
    {orNull : Bool} (hform : type.form = .type (.named name arguments scope orNull)) {bound : Word}
    {lines : Render (List String)} {body : Body}
    (hbody : armLines (.text binding) ⟨armType (some type), bound, lines⟩ = body.text binding) :
    WrittenAs binding ⟨armType (some type), bound, lines⟩
      (if type.qualifiedName ∈ catchAllTypes then none else some type.qualifiedName, body) := by
  have harm : armType (some type) =
      if type.qualifiedName ∈ catchAllTypes then none else some type := by
    simp only [armType, hform]
  refine ⟨?_, ?_, hbody⟩
  · intro heverything
    split at heverything
    · next hall => rw [harm, if_pos hall]
    · cases heverything
  · intro found hfound
    split at hfound
    · cases hfound
    · next hnot =>
      cases hfound
      refine ⟨type, by rw [harm, if_neg hnot], ?_⟩
      simp only [runtimeName, Option.map_some, hform, Option.getD_some]

/-- The constant is there if the names differ. -/
theorem armLines_eq (clause : Clause) (type : Option Tree) :
    armLines (.text binding) ⟨type, .text clause.name, clause.body.rendering.lines []⟩ =
      (clause.bodyIn binding).text binding := by
  unfold armLines Body.text Clause.bodyIn
  by_cases hname : clause.name = binding
  · simp [hname]
  · have hshown : Value.shown (.text clause.name) ≠ Value.shown (.text binding) := fun hsame =>
      hname (Text.quote_injective (by simpa [Value.shown] using hsame))
    simp [hname, hshown, Value.display]

/-- The arms of a handler are written as its entries. -/
theorem Clause.IsOf.writtenAs (h : clause.IsOf t) :
    List.Forall₂ (WrittenAs binding)
      ((caughtTypes t).map fun caught => ⟨armType caught, boundName t, t.rendering.lines []⟩)
      (clause.arms binding) := by
  obtain ⟨own, type, modifiers, annotations, isVarargs, hform, hcatches⟩ := h
  have hname : boundName t = .text clause.name := by
    simp only [boundName, hform]
  have hlines : t.rendering.lines [] = clause.body.rendering.lines [] := by
    rw [Tree.rendering_lines]
    simp only [hform]
    rfl
  rw [hname, hlines, Clause.arms]
  generalize hcaught : clause.caught = caught at hcatches
  cases hcatches with
  | single =>
    simp only [caughtTypes, hform, List.map_cons, List.map_nil]
    exact .cons (writtenAs_arm rfl (armLines_eq clause _)) .nil
  | @union trivia elements _ hnamed =>
    simp only [caughtTypes, hform, List.map_map]
    rw [List.forall₂_map_left_iff, List.forall₂_map_right_iff, List.forall₂_same]
    intro element helement
    obtain ⟨name, arguments, scope, orNull, helementForm⟩ := hnamed element helement
    have hpresent : element.present? = some element := by
      simp only [Tree.present?, helementForm]
    simp only [Function.comp_apply, hpresent]
    exact writtenAs_arm helementForm (armLines_eq clause _)

/-- Arms are written as entries, handler by handler. -/
theorem writtenAs_catchArms {clauses : List Clause} {trees : List Tree}
    (h : List.Forall₂ Clause.IsOf clauses trees) :
    List.Forall₂ (WrittenAs binding) (catchArms (trees.map Tree.rendering))
      (clauses.flatMap (Clause.arms binding)) := by
  induction h with
  | nil => exact .nil
  | @cons clause t clauses trees hfirst _ ih =>
    simp only [catchArms, List.map_cons, List.flatMap_cons, Tree.rendering_node] at ih ⊢
    exact List.rel_append hfirst.writtenAs ih

theorem Clause.IsOf.arms_ne_nil (h : clause.IsOf t) : clause.arms binding ≠ [] := by
  obtain ⟨own, type, modifiers, annotations, isVarargs, -, hcatches⟩ := h
  rw [Clause.arms, ne_eq, List.map_eq_nil_iff]
  generalize clause.caught = caught at hcatches
  cases hcatches with
  | single => exact List.cons_ne_nil _ _
  | union hne => exact fun hnil => hne (List.map_eq_nil_iff.1 hnil)

end WrittenAs

/-! ### Handlers of a `try` -/

/-- The handlers of a `try` are one `catch` block. For every value, whatever types it is of, this block
runs the body of the first handler one of whose types the value is of, under the name that the handler
binds, and throws the value again if there is none. -/
theorem catchText_runs {first : Clause} {rest : List Clause} {clauses : List Tree}
    (h : List.Forall₂ Clause.IsOf (first :: rest) clauses) :
    ∃ handler : Handler,
      catchText (clauses.map Tree.rendering) = (do
        let indent ← indent
        let lines ← indented (handler.lines first.name)
        return " catch (" ++ first.name ++ ") "
          ++ String.intercalate "\n" (["\x7b"] ++ lines ++ [indent ++ "\x7d"])) ∧
      ∀ holds : String → Bool, (∀ type ∈ catchAllTypes, holds type = true) →
        handler.run holds =
          match (first :: rest).find? (·.caught.any holds) with
          | some clause => .handled (clause.bodyIn first.name)
          | none => .rethrown := by
  refine ⟨.chain ((first :: rest).flatMap (Clause.arms first.name)), ?_, fun holds hall => run_chain hall⟩
  have hwritten : List.Forall₂ (WrittenAs first.name) _ _ := writtenAs_catchArms h
  cases h with
  | @cons _ t _ trees hfirst hrest =>
    have hne : catchArms ((t :: trees).map Tree.rendering) ≠ [] := by
      intro hnil
      rw [hnil, List.forall₂_nil_left_iff, List.flatMap_cons, List.append_eq_nil_iff] at hwritten
      exact hfirst.arms_ne_nil hwritten.1
    obtain ⟨own, type, modifiers, annotations, isVarargs, hform, -⟩ := hfirst
    have hname : boundName t = .text first.name := by
      simp only [boundName, hform]
    rw [← chainLines_eq hne hwritten]
    simp only [catchText, List.map_cons, Tree.rendering_node, hname]
    rfl

/-- A handler that binds a name, with a body that returns. -/
def returningHandler (name : String) (type : TypeForm Tree) : Tree :=
  .node {} (.part (.catchClause
    (some (.node {} (.part (.parameter (.text name) (some (.node {} (.type type))) [] [] false))))
    (some (.node {} (.stmt (.block [.node {} (.stmt (.returning none))]))))))

/-- A class type. -/
def classNamed (name : String) : TypeForm Tree := .named (.text name) none none false

/-- What the handlers of `returningHandler` are read as. -/
def returningClause (name : String) (caught : List String) : Clause :=
  ⟨name, caught, .node {} (.stmt (.block [.node {} (.stmt (.returning none))]))⟩

theorem catchText_runs_second : ∃ handler : Handler,
    catchText ([returningHandler "e" (.union [.node {} (.type (classNamed "IOException")),
        .node {} (.type (classNamed "IllegalStateException"))]),
      returningHandler "ex" (classNamed "RuntimeException")].map Tree.rendering) = (do
        let indent ← indent
        let lines ← indented (handler.lines "e")
        return " catch (" ++ "e" ++ ") "
          ++ String.intercalate "\n" (["\x7b"] ++ lines ++ [indent ++ "\x7d"])) ∧
      handler.run (· ∈ "RuntimeException" :: catchAllTypes) =
        .handled ((returningClause "ex" ["RuntimeException"]).bodyIn "e") ∧
      handler.run (· ∈ catchAllTypes) = .rethrown := by
  have hunion : (returningClause "e" ["IOException", "IllegalStateException"]).IsOf
      (returningHandler "e" (.union [.node {} (.type (classNamed "IOException")),
        .node {} (.type (classNamed "IllegalStateException"))])) :=
    ⟨_, _, _, _, _, rfl, .union (List.cons_ne_nil _ _) (by simp [classNamed])⟩
  have hsecond : (returningClause "ex" ["RuntimeException"]).IsOf
      (returningHandler "ex" (classNamed "RuntimeException")) :=
    ⟨_, _, _, _, _, rfl, .single⟩
  obtain ⟨handler, htext, hrun⟩ := catchText_runs (.cons hunion (.cons hsecond .nil))
  exact ⟨handler, htext, hrun _ (by decide), hrun _ (by decide)⟩

end Recast.Render
