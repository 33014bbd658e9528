import Mathlib
import Recast.Proofs.Grammar.Spelling
import Recast.Proofs.Render.Basic
import Recast.Proofs.Render.Literal

/-!
Rendered expressions mean what their trees do.

The parser dropped all parentheses, and rendering puts those back that are needed. `Plain` says
which trees are meant: those made of names, literals, accesses, calls and operators. The text of
such a tree is an expression of the grammar, and the tree that the grammar gives it is the one it
was made from.
-/

namespace Recast

namespace Render

open Recast.Grammar

/-! ### The trees meant -/

/-- Whether a text is a literal of the language. -/
def isLiteral (text : String) : Bool :=
  decide (text ∈ ["true", "false", "null"]) || isNumber text.toList || isQuoted text.toList

/-- Whether an expression may stand before a point, a bracket or the arguments of a call: it is not
a number, and no update of a variable. -/
def isTarget (t : Tree) : Bool :=
  match t.form with
  | .expr (.literal value) => !isNumber value.display.toList
  | .expr (.unary operator _ _) => decide (operator.display ∉ updateOperators)
  | _ => true

/-- Whether an expression names a place that can be assigned to. -/
def isPlace (t : Tree) : Bool :=
  match t.form with
  | .expr (.ident _) | .expr (.field ..) | .expr (.subscript ..) => true
  | _ => false

/-- Class types without type arguments. -/
inductive PlainClass : Tree → Prop where
  | simple {trivia : Trivia} {name : String} {arguments : Option (List Tree)} {orNull : Bool} :
    isName name → arguments.getD [] = [] →
    PlainClass (.node trivia (.type (.named (.text name) arguments none orNull)))
  | nested {trivia : Trivia} {name : String} {arguments : Option (List Tree)} {orNull : Bool}
    {scope : Tree} : isName name → arguments.getD [] = [] → PlainClass scope →
    PlainClass (.node trivia (.type (.named (.text name) arguments (some scope) orNull)))

/-- Expressions of names, literals, `this`, accesses, calls and operators. -/
inductive Plain : Tree → Prop where
  | ident {trivia : Trivia} {name : String} : isName name →
    Plain (.node trivia (.expr (.ident (.text name))))
  | literal {trivia : Trivia} {value : String} : isLiteral value →
    Plain (.node trivia (.expr (.literal (.text value))))
  | this {trivia : Trivia} : Plain (.node trivia (.expr (.this .null)))
  | field {trivia : Trivia} {target : Tree} {name : String} : Plain target → isTarget target →
    isName name → Plain (.node trivia (.expr (.field (some target) (.text name))))
  | call {trivia : Trivia} {name : String} {arguments : List Tree} : isName name →
    (∀ a ∈ arguments, Plain a) → Plain (.node trivia (.expr (.call (.text name) arguments none [])))
  | method {trivia : Trivia} {target : Tree} {name : String} {arguments : List Tree} :
    Plain target → isTarget target → isName name → (∀ a ∈ arguments, Plain a) →
    Plain (.node trivia (.expr (.call (.text name) arguments (some target) [])))
  | subscript {trivia : Trivia} {target index : Tree} : Plain target → isTarget target →
    Plain index → Plain (.node trivia (.expr (.subscript (some target) (some index))))
  | binary {trivia : Trivia} {operator : String} {left right : Tree} :
    operator ∈ binaryOperators.map (·.2.1) → Plain left → Plain right →
    Plain (.node trivia (.expr (.binary (.text operator) (some left) (some right))))
  | before {trivia : Trivia} {operator : String} {operand : Tree} : operator ∈ prefixOperators →
    Plain operand → (operator ∈ updateOperators → isPlace operand) →
    Plain (.node trivia (.expr (.unary (.text operator) (some operand) true)))
  | update {trivia : Trivia} {operator : String} {operand : Tree} : operator ∈ updateOperators →
    Plain operand → isPlace operand →
    Plain (.node trivia (.expr (.unary (.text operator) (some operand) false)))
  | assign {trivia : Trivia} {operator : String} {target value : Tree} :
    operator ∈ assignmentOperators → Plain target → isPlace target → Plain value →
    Plain (.node trivia (.expr (.assign (.text operator) (some target) (some value))))
  | conditional {trivia : Trivia} {condition whenTrue whenFalse : Tree} : Plain condition →
    Plain whenTrue → Plain whenFalse →
    Plain (.node trivia (.expr (.conditional (some condition) (some whenTrue) (some whenFalse))))
  | instanceOf {trivia : Trivia} {expression type : Tree} : Plain expression → PlainClass type →
    isTypeofName type.qualifiedName = false →
    Plain (.node trivia (.expr (.instanceOf (some expression) (some type))))

/-- A tree as its text shows it: nothing is left beside its structure, literals have their new
spelling, and class types no brackets. -/
def written : Tree → Tree :=
  Tree.fold fun _ layer =>
    match layer with
    | .expr (.literal value) => .node {} (.expr (.literal (.text (Literal.render value.display))))
    | .type (.named name _ scope _) => .node {} (.type (.named name none scope false))
    | layer => .node {} layer

/-! ### Operands -/

/-- Whether a text is written for an expression, and spells it. -/
structure Spelled (t : Tree) (text : String) : Prop where
  rendered : t.rendering.expr = pure text
  loose : Spells looseEnds (bindingLevel t) text (written t)
  tight : bindingLevel t = 16 → isTarget t → Spells tightEnds 16 text (written t)

theorem binaryLevel_bounds (operator : String) :
    1 ≤ binaryLevel operator ∧ binaryLevel operator ≤ 14 := by
  unfold binaryLevel
  split <;> decide

theorem bindingLevel_bounds (t : Tree) : 1 ≤ bindingLevel t ∧ bindingLevel t ≤ 16 := by
  unfold bindingLevel
  split
  · exact ⟨(binaryLevel_bounds _).1, le_trans (binaryLevel_bounds _).2 (by decide)⟩
  · decide
  · split <;> decide
  all_goals decide

/-- What may stand before a point is a primary expression, or goes in parentheses. -/
theorem Plain.bindingLevel_ne {t : Tree} (h : Plain t) (htarget : isTarget t) :
    bindingLevel t ≠ 15 := by
  cases h with
  | binary => exact ne_of_lt (lt_of_le_of_lt (binaryLevel_bounds _).2 (by decide))
  | update hoperator => exact absurd hoperator (of_decide_eq_true htarget)
  | _ => simp [bindingLevel, Tree.form, primaryLevel, unaryLevel, assignmentLevel,
      conditionalLevel, binaryLevel]

theorem isPlace_spec {t : Tree} (h : isPlace t) : bindingLevel t = 16 ∧ isTarget t := by
  unfold isPlace at h
  split at h
  · rename_i hform
    simp [bindingLevel, isTarget, hform, primaryLevel]
  · rename_i hform
    simp [bindingLevel, isTarget, hform, primaryLevel]
  · rename_i hform
    simp [bindingLevel, isTarget, hform, primaryLevel]
  · cases h

/-- An operand is spelled at the level that its place asks for. -/
theorem Spelled.operand {t : Tree} {text : String} {n : Nat} (h : Spelled t text) (hn : n ≤ 16) :
    ∃ code, Render.operand (some t.rendering) n = pure code ∧ Spells looseEnds n code (written t) ∧
      (15 ≤ n → bindingLevel t ≠ 15 → isTarget t → Spells tightEnds 16 code (written t)) := by
  obtain ⟨hone, hsixteen⟩ := bindingLevel_bounds t
  by_cases hlevel : bindingLevel t < n
  · have hparens := (h.loose.mono hone).parens
    refine ⟨"(" ++ text ++ ")", ?_, hparens.loose.mono hn, fun _ _ _ => hparens⟩
    simp [Render.operand, slotExpr, slotNode, Tree.rendering_node, h.rendered, hlevel]
  · refine ⟨text, ?_, h.loose.mono (Nat.not_lt.1 hlevel), fun hfifteen hne htarget => ?_⟩
    · simp [Render.operand, slotExpr, slotNode, Tree.rendering_node, h.rendered, hlevel]
    · exact h.tight (by omega) htarget

/-! ### Expressions -/

/-- The name of a class is spelled like a chain of accesses. -/
theorem PlainClass.spells {type : Tree} (h : PlainClass type) :
    ∃ u, Spells tightEnds 16 type.qualifiedName u ∧ classOf? u = some (written type) := by
  induction h with
  | @simple trivia name arguments orNull hname =>
    refine ⟨expression (.ident (.text name)), ?_, ?_⟩
    · rw [Tree.qualifiedName, Tree.fold_node]
      exact Spells.name hname
    · rw [written, Tree.fold_node]
      rfl
  | @nested trivia name arguments orNull scope hname _ _ ih =>
    obtain ⟨u, hu, hclass⟩ := ih
    refine ⟨expression (.field (some u) (.text name)), ?_, ?_⟩
    · rw [Tree.qualifiedName, Tree.fold_node]
      exact hu.field hname
    · rw [expression, classOf?, Tree.fold_node, written, Tree.fold_node]
      simp only [Form.map, ExprForm.map, TypeForm.map, Option.map_some]
      rw [← written, ← classOf?, hclass]

/-- An expression that is spelled before any end is spelled. -/
theorem Spelled.of_tight {t : Tree} {text : String} (hlevel : bindingLevel t = 16)
    (hrendered : t.rendering.expr = pure text) (h : Spells tightEnds 16 text (written t)) :
    Spelled t text :=
  ⟨hrendered, hlevel ▸ h.loose, fun _ _ => h⟩

/-- An expression that binds looser than primary ones is spelled. -/
theorem Spelled.of_loose {n : Nat} {t : Tree} {text : String} (hlevel : bindingLevel t = n)
    (hn : n < 16) (hrendered : t.rendering.expr = pure text)
    (h : Spells looseEnds n text (written t)) : Spelled t text :=
  ⟨hrendered, hlevel ▸ h, fun heq => absurd (hlevel.symm.trans heq) (ne_of_lt hn)⟩

section Cases

variable {trivia : Trivia}

/-- Rendering an expression renders its children. -/
theorem rendering_expr_node (trivia : Trivia) (form : ExprForm Tree) :
    (Tree.node trivia (.expr form)).rendering.expr =
      exprForm (.node trivia (.expr form)) (form.map Tree.rendering) := by
  rw [Tree.rendering_expr]
  rfl

theorem spelled_literal {value : String} (h : isLiteral value) :
    Spelled (.node trivia (.expr (.literal (.text value)))) (Literal.render value) := by
  have hrendered := rendering_expr_node trivia (.literal (.text value))
  have hwritten : written (.node trivia (.expr (.literal (.text value)))) =
      expression (.literal (.text (Literal.render value))) := by
    rw [written, Tree.fold_node]
    rfl
  simp only [isLiteral, Bool.or_eq_true, decide_eq_true_eq] at h
  rcases h with (hkeyword | hnumber) | hquoted
  · refine Spelled.of_tight rfl hrendered ?_
    rw [hwritten, Literal.render_keyword value hkeyword]
    exact Spells.keyword hkeyword
  · have hloose := Spells.number (Literal.isNumber_render hnumber)
    refine ⟨hrendered, hwritten ▸ hloose, fun _ htarget => ?_⟩
    exact absurd hnumber (by simpa [isTarget, Tree.form, Value.display] using htarget)
  · refine Spelled.of_tight rfl hrendered ?_
    rw [hwritten, Literal.render_quoted hquoted]
    exact Spells.quoted hquoted

theorem spelled_field {target : Tree} {code name : String}
    (hoperand : operand (some target.rendering) postfixLevel = pure code)
    (hcode : Spells tightEnds 16 code (written target)) (hname : isName name) :
    Spelled (.node trivia (.expr (.field (some target) (.text name)))) (code ++ "." ++ name) := by
  refine Spelled.of_tight rfl ?_ ?_
  · rw [rendering_expr_node]
    simp [ExprForm.map, exprForm, hoperand, Value.display]
  · rw [written, Tree.fold_node]
    exact hcode.field hname

/-- The arguments of a call, each spelled. -/
theorem arguments_spelled {arguments : List Tree} (h : ∀ a ∈ arguments, ∃ text, Spelled a text) :
    ∃ parts : List (String × Tree), parts.map (·.2) = arguments.map written ∧
      (∀ p ∈ parts, Spells looseEnds 1 p.1 p.2) ∧
      (arguments.map Tree.rendering).mapM (·.expr) = pure (parts.map (·.1)) := by
  induction arguments with
  | nil => exact ⟨[], rfl, by simp, rfl⟩
  | cons first others ih =>
    obtain ⟨text, htext⟩ := h first List.mem_cons_self
    obtain ⟨parts, htrees, hparts, hrendered⟩ := ih fun a ha => h a (List.mem_cons_of_mem _ ha)
    refine ⟨(text, written first) :: parts, by simp [htrees], ?_, ?_⟩
    · exact List.forall_mem_cons.2 ⟨htext.loose.mono (bindingLevel_bounds first).1, hparts⟩
    · simp [htext.rendered, hrendered]

theorem spelled_call {arguments : List Tree} {name : String} (hname : isName name)
    (harguments : ∀ a ∈ arguments, ∃ text, Spelled a text) :
    ∃ text, Spelled (.node trivia (.expr (.call (.text name) arguments none []))) text := by
  obtain ⟨parts, htrees, hparts, hrendered⟩ := arguments_spelled harguments
  refine ⟨name ++ "(" ++ ", ".intercalate (parts.map (·.1)) ++ ")", Spelled.of_tight rfl ?_ ?_⟩
  · rw [rendering_expr_node]
    simp [ExprForm.map, exprForm, argumentsText, typeArgumentsText, hrendered, Value.display]
  · refine (Spells.name hname).call hparts ?_
    rw [written, Tree.fold_node, htrees]
    rfl

theorem spelled_method {target : Tree} {arguments : List Tree} {code name : String}
    (hoperand : operand (some target.rendering) postfixLevel = pure code)
    (hcode : Spells tightEnds 16 code (written target)) (hname : isName name)
    (harguments : ∀ a ∈ arguments, ∃ text, Spelled a text) :
    ∃ text, Spelled (.node trivia (.expr (.call (.text name) arguments (some target) []))) text := by
  obtain ⟨parts, htrees, hparts, hrendered⟩ := arguments_spelled harguments
  refine ⟨code ++ "." ++ name ++ "(" ++ ", ".intercalate (parts.map (·.1)) ++ ")",
    Spelled.of_tight rfl ?_ ?_⟩
  · rw [rendering_expr_node]
    simp [ExprForm.map, exprForm, argumentsText, typeArgumentsText, hrendered, hoperand,
      Value.display, String.append_assoc]
  · refine (hcode.field hname).call hparts ?_
    rw [written, Tree.fold_node, htrees]
    rfl

theorem spelled_binary {operator left right : String} {a b : Tree}
    (hoperator : operator ∈ binaryOperators.map (·.2.1))
    (hleft : operand (some a.rendering) (binaryLevel operator) = pure left)
    (hright : operand (some b.rendering) (binaryLevel operator + 1) = pure right)
    (ha : Spells looseEnds (binaryLevel operator) left (written a))
    (hb : Spells looseEnds (binaryLevel operator + 1) right (written b)) :
    Spelled (.node trivia (.expr (.binary (.text operator) (some a) (some b))))
      (left ++ " " ++ operatorText operator ++ " " ++ right) := by
  have htable : ∀ operator ∈ binaryOperators.map (·.2.1),
      (operatorText operator, operator, binaryLevel operator) ∈ binaryOperators := by decide
  refine Spelled.of_loose rfl (lt_of_le_of_lt (binaryLevel_bounds operator).2 (by decide)) ?_ ?_
  · rw [rendering_expr_node]
    simp [ExprForm.map, exprForm, hleft, hright, Value.display]
  · rw [written, Tree.fold_node]
    exact Spells.binary (htable operator hoperator) ha hb

theorem spelled_before {operator code : String} {a : Tree} (hoperator : operator ∈ prefixOperators)
    (hoperand : operand (some a.rendering) unaryLevel = pure code)
    (hcode : Spells looseEnds 14 code (written a)) :
    Spelled (.node trivia (.expr (.unary (.text operator) (some a) true)))
      (prefixText operator code) := by
  refine Spelled.of_loose (n := unaryLevel) rfl (by decide) ?_ ?_
  · rw [rendering_expr_node]
    simp [ExprForm.map, exprForm, hoperand, Value.display]
  · rw [written, Tree.fold_node, prefixText]
    split
    · rename_i hsame
      have hparens := (hcode.mono (m := 1) (by decide)).parens.loose.mono (m := 14) (by decide)
      rw [show operator ++ "(" ++ code ++ ")" = operator ++ ("(" ++ code ++ ")") by
        simp [String.append_assoc]]
      refine Spells.before hoperator hparens fun hsigns => ?_
      rcases hsigns with rfl | rfl <;> simp
    · rename_i hsame
      refine Spells.before hoperator hcode fun hsigns hstarts => hsame ⟨hsigns, ?_⟩
      exact List.isPrefixOf_iff_prefix.2 hstarts

theorem spelled_update {operator code : String} {a : Tree} (hoperator : operator ∈ updateOperators)
    (hoperand : operand (some a.rendering) postfixLevel = pure code)
    (hcode : Spells tightEnds 16 code (written a)) :
    Spelled (.node trivia (.expr (.unary (.text operator) (some a) false))) (code ++ operator) := by
  refine Spelled.of_loose (n := postfixLevel) rfl (by decide) ?_ ?_
  · rw [rendering_expr_node]
    simp [ExprForm.map, exprForm, hoperand, Value.display]
  · rw [written, Tree.fold_node]
    exact hcode.update hoperator

theorem spelled_assign {operator code value : String} {a b : Tree}
    (hoperator : operator ∈ assignmentOperators) (ha : Spelled a code) (hlevel : bindingLevel a = 16)
    (hoperand : operand (some b.rendering) assignmentLevel = pure value)
    (hvalue : Spells looseEnds 1 value (written b)) :
    Spelled (.node trivia (.expr (.assign (.text operator) (some a) (some b))))
      (code ++ " " ++ operator ++ " " ++ value) := by
  -- a place is primary, and so it goes without parentheses
  have hplace : operand (some a.rendering) unaryLevel = pure code := by
    simp [operand, slotExpr, slotNode, Tree.rendering_node, ha.rendered, hlevel, unaryLevel]
  refine Spelled.of_loose (n := assignmentLevel) rfl (by decide) ?_ ?_
  · rw [rendering_expr_node]
    simp [ExprForm.map, exprForm, hplace, hoperand, Value.display]
  · rw [written, Tree.fold_node]
    exact Spells.assign hoperator (hlevel ▸ ha.loose) hvalue

theorem spelled_instanceOf {code : String} {a type : Tree} (hclass : PlainClass type)
    (hname : isTypeofName type.qualifiedName = false)
    (hoperand : operand (some a.rendering) (binaryLevel "instanceof") = pure code)
    (hcode : Spells looseEnds 9 code (written a)) :
    Spelled (.node trivia (.expr (.instanceOf (some a) (some type))))
      (code ++ " " ++ "instanceof" ++ " " ++ type.qualifiedName) := by
  obtain ⟨u, hu, hwritten⟩ := hclass.spells
  have hblanks : " instanceof " = " " ++ ("instanceof" ++ " ") := by decide
  have hruntime : runtimeName (some type) = .ok type.qualifiedName := by
    cases hclass <;> rfl
  refine Spelled.of_loose (n := 9) rfl (by decide) ?_ ?_
  · rw [rendering_expr_node]
    simp [ExprForm.map, exprForm, typeTest, slotNode, Tree.rendering_node, hruntime, ofType, hname,
      hoperand, hblanks, String.append_assoc]
  · rw [written, Tree.fold_node]
    exact Spells.test hcode (hu.loose.mono (by decide)) hwritten

end Cases

/-- Every expression of the grammar's kind is spelled. -/
theorem Plain.spelled {t : Tree} (h : Plain t) : ∃ text, Spelled t text := by
  induction h with
  | ident hname =>
    refine ⟨_, Spelled.of_tight rfl (rendering_expr_node _ _) ?_⟩
    rw [written, Tree.fold_node]
    exact Spells.name hname
  | literal hliteral => exact ⟨_, spelled_literal hliteral⟩
  | this =>
    refine ⟨_, Spelled.of_tight rfl (rendering_expr_node _ _) ?_⟩
    rw [written, Tree.fold_node]
    exact Spells.this
  | field htarget hfit hname ih =>
    obtain ⟨text, htext⟩ := ih
    obtain ⟨code, hoperand, -, hcode⟩ := htext.operand (n := postfixLevel) (by decide)
    exact ⟨_, spelled_field hoperand (hcode le_rfl (htarget.bindingLevel_ne hfit) hfit) hname⟩
  | call hname _ ih => exact spelled_call hname ih
  | method htarget hfit hname _ ih iha =>
    obtain ⟨text, htext⟩ := ih
    obtain ⟨code, hoperand, -, hcode⟩ := htext.operand (n := postfixLevel) (by decide)
    exact spelled_method hoperand (hcode le_rfl (htarget.bindingLevel_ne hfit) hfit) hname iha
  | @subscript trivia target index htarget hfit hindex ih ihi =>
    obtain ⟨text, htext⟩ := ih
    obtain ⟨inner, hinner⟩ := ihi
    obtain ⟨code, hoperand, -, hcode⟩ := htext.operand (n := postfixLevel) (by decide)
    refine ⟨code ++ "[" ++ inner ++ "]", Spelled.of_tight rfl ?_ ?_⟩
    · rw [rendering_expr_node]
      simp [ExprForm.map, exprForm, hoperand, slotExpr, hinner.rendered]
    · rw [written, Tree.fold_node]
      exact (hcode le_rfl (htarget.bindingLevel_ne hfit) hfit).index
        (hinner.loose.mono (bindingLevel_bounds index).1)
  | @binary trivia operator left right hoperator _ _ ihl ihr =>
    obtain ⟨_, hleft⟩ := ihl
    obtain ⟨_, hright⟩ := ihr
    have hbound := (binaryLevel_bounds operator).2
    obtain ⟨a, hoperand, ha, -⟩ := hleft.operand (n := binaryLevel operator) (by omega)
    obtain ⟨b, hoperand', hb, -⟩ := hright.operand (n := binaryLevel operator + 1) (by omega)
    exact ⟨_, spelled_binary hoperator hoperand hoperand' ha hb⟩
  | before hoperator _ _ ih =>
    obtain ⟨_, htext⟩ := ih
    obtain ⟨code, hoperand, hcode, -⟩ := htext.operand (n := unaryLevel) (by decide)
    exact ⟨_, spelled_before hoperator hoperand hcode⟩
  | update hoperator _ hplace ih =>
    obtain ⟨_, htext⟩ := ih
    obtain ⟨hlevel, hfit⟩ := isPlace_spec hplace
    obtain ⟨code, hoperand, -, hcode⟩ := htext.operand (n := postfixLevel) (by decide)
    exact ⟨_, spelled_update hoperator hoperand (hcode le_rfl (by rw [hlevel]; decide) hfit)⟩
  | @assign trivia operator target value hoperator _ hplace _ iht ihv =>
    obtain ⟨_, htarget⟩ := iht
    obtain ⟨_, hvalue⟩ := ihv
    obtain ⟨hlevel, -⟩ := isPlace_spec hplace
    obtain ⟨b, hoperand, hb, -⟩ := hvalue.operand (n := assignmentLevel) (by decide)
    refine ⟨_, spelled_assign hoperator htarget hlevel hoperand hb⟩
  | conditional _ _ _ ihc iht ihf =>
    obtain ⟨_, hcondition⟩ := ihc
    obtain ⟨_, hwhenTrue⟩ := iht
    obtain ⟨_, hwhenFalse⟩ := ihf
    obtain ⟨a, ha, hsa, -⟩ := hcondition.operand (n := conditionalLevel + 1) (by decide)
    obtain ⟨b, hb, hsb, -⟩ := hwhenTrue.operand (n := assignmentLevel) (by decide)
    obtain ⟨c, hc, hsc, -⟩ := hwhenFalse.operand (n := conditionalLevel) (by decide)
    refine ⟨a ++ " ? " ++ b ++ " : " ++ c,
      Spelled.of_loose (n := conditionalLevel) rfl (by decide) ?_ ?_⟩
    · rw [rendering_expr_node]
      simp [ExprForm.map, exprForm, ha, hb, hc]
    · rw [written, Tree.fold_node]
      exact Spells.choice hsa hsb (hsc.mono (by decide))
  | @instanceOf trivia expression type _ hclass hname ih =>
    obtain ⟨_, htext⟩ := ih
    obtain ⟨a, ha, hsa, -⟩ := htext.operand (n := binaryLevel "instanceof") (by decide)
    exact ⟨_, spelled_instanceOf hclass hname ha hsa⟩

/-- Rendering is faithful: the text of an expression parses as that expression, and as nothing
else. -/
theorem Plain.parses_iff {t : Tree} (h : Plain t) :
    ∃ text, t.rendering.expr = pure text ∧ ∀ u, Parses text u ↔ u = written t := by
  obtain ⟨text, htext⟩ := h.spelled
  have hparses := htext.loose.parses (bindingLevel_bounds t).1
  refine ⟨text, htext.rendered, fun u => ⟨fun hu => hu.unique hparses, ?_⟩⟩
  rintro rfl
  exact hparses

/-- The product of `a - (b - 017)` and the opposite of the opposite of `c`. -/
def sampleProduct : Tree :=
  let name (text : String) : Tree := expression (.ident (.text text))
  let minus (a b : Tree) : Tree := expression (.binary (.text "-") (some a) (some b))
  let opposite (a : Tree) : Tree := expression (.unary (.text "-") (some a) true)
  expression (.binary (.text "*")
    (some (minus (name "a") (minus (name "b") (expression (.literal (.text "017"))))))
    (some (opposite (opposite (name "c")))))

example : sampleProduct.rendering.expr = pure "(a - (b - 0o17)) * -(-c)" := rfl

theorem parses_sampleProduct : ∃ text, sampleProduct.rendering.expr = pure text ∧
    ∀ u, Parses text u ↔ u = written sampleProduct :=
  Plain.parses_iff (.binary (by decide)
    (.binary (by decide) (.ident (by decide))
      (.binary (by decide) (.ident (by decide)) (.literal (by decide))))
    (.before (by decide) (.before (by decide) (.ident (by decide)) (by decide)) (by decide)))

end Render

end Recast
