import Mathlib
import Recast.Proofs.Render.Levels.Basic

/-!
Rendered expressions stand at their levels.

`Proper` says which trees are meant: those of all shapes of expressions, whose operands fit where
they stand. The text of such a tree is an expression of the level that `textLevel` tells, and an
operand that fits is one of the level that its place asks for (`Proper.isPhrase_textLevel`).
-/

namespace Recast

namespace Render

open Recast.Grammar

/-! ### The trees meant -/

/-- What an expression stands for: a value, or the object before a point. -/
inductive Role where
  | value
  | object

/-- Expressions of all shapes whose operands fit. `super` is no value, but may stand before a
point. -/
inductive Proper (Body : String → Prop) : Role → Tree → Prop where
  | object {t : Tree} : Proper Body .value t → FitsObject t → Proper Body .object t
  | super {trivia : Trivia} : Proper Body .object (.node trivia (.expr .super))
  | ident {trivia : Trivia} {name : String} : isFree name →
    Proper Body .value (.node trivia (.expr (.ident (.text name))))
  | literal {trivia : Trivia} {value : String} : isLiteral value →
    Proper Body .value (.node trivia (.expr (.literal (.text value))))
  | this {trivia : Trivia} {qualifier : Word} :
    Proper Body .value (.node trivia (.expr (.this qualifier)))
  | field {trivia : Trivia} {target : Tree} {name : String} : Proper Body .object target →
    isName name → Proper Body .value (.node trivia (.expr (.field (some target) (.text name))))
  | call {trivia : Trivia} {name : String} {arguments types : List Tree} : isFree name →
    (∀ a ∈ arguments, Proper Body .value a) → (∀ t ∈ types, TypeTree t) →
    Proper Body .value (.node trivia (.expr (.call (.text name) arguments none types)))
  | method {trivia : Trivia} {target : Tree} {name : String} {arguments types : List Tree} :
    Proper Body .object target → isName name → (∀ a ∈ arguments, Proper Body .value a) →
    (∀ t ∈ types, TypeTree t) →
    Proper Body .value (.node trivia (.expr (.call (.text name) arguments (some target) types)))
  | subscript {trivia : Trivia} {target index : Tree} : Proper Body .value target →
    FitsObject target → Proper Body .value index →
    Proper Body .value (.node trivia (.expr (.subscript (some target) (some index))))
  | binary {trivia : Trivia} {operator : String} {left right : Tree} :
    operator ∈ binaryOperators.map (·.2.1) → Proper Body .value left → Proper Body .value right →
    Fits (binaryLevel operator) left → Fits (binaryLevel operator + 1) right →
    Proper Body .value (.node trivia (.expr (.binary (.text operator) (some left) (some right))))
  | before {trivia : Trivia} {operator : String} {operand : Tree} : operator ∈ prefixOperators →
    Proper Body .value operand → Fits unaryLevel operand →
    Proper Body .value (.node trivia (.expr (.unary (.text operator) (some operand) true)))
  | update {trivia : Trivia} {operator : String} {operand : Tree} : operator ∈ updateOperators →
    Proper Body .value operand → isPlace operand →
    Proper Body .value (.node trivia (.expr (.unary (.text operator) (some operand) false)))
  | assign {trivia : Trivia} {operator : String} {target value : Tree} :
    operator ∈ assignmentOperators → Proper Body .value target → isPlace target →
    Proper Body .value value →
    Proper Body .value (.node trivia (.expr (.assign (.text operator) (some target) (some value))))
  | conditional {trivia : Trivia} {condition whenTrue whenFalse : Tree} :
    Proper Body .value condition → Proper Body .value whenTrue → Proper Body .value whenFalse →
    Fits (conditionalLevel + 1) condition →
    Proper Body .value
      (.node trivia (.expr (.conditional (some condition) (some whenTrue) (some whenFalse))))
  | cast {trivia : Trivia} {type expression : Tree} : TypeTree type →
    Proper Body .value expression → Fits unaryLevel expression →
    Proper Body .value (.node trivia (.expr (.cast (some type) (some expression))))
  | instanceOf {trivia : Trivia} {type expression : Tree} {name : String} :
    Proper Body .value expression → Fits (binaryLevel "instanceof") expression →
    runtimeName (some type) = .ok name → IsChain name → isTypeofName name = false →
    Proper Body .value (.node trivia (.expr (.instanceOf (some expression) (some type))))
  | scalarTest {trivia : Trivia} {type expression : Tree} : Proper Body .value expression →
    Fits unaryLevel expression → isScalarTest (some type) →
    Proper Body .value (.node trivia (.expr (.instanceOf (some expression) (some type))))
  | create {trivia typeTrivia : Trivia} {name : Word} {scope : Option Tree}
    {arguments : List Tree} {types : Option (List Tree)} :
    IsChain (Tree.qualifiedName (.node typeTrivia (.type (.named name types scope false)))) →
    (∀ t ∈ types.getD [], TypeTree t) → (∀ a ∈ arguments, Proper Body .value a) →
    Proper Body .value (.node trivia
      (.expr (.create (some (.node typeTrivia (.type (.named name types scope false)))) arguments none)))
  | arrayOf {trivia : Trivia} {element : Tree} {dimensions : List (Option Tree)} :
    TypeTree element → (∀ size, some size ∈ dimensions → Proper Body .value size) →
    Proper Body .value (.node trivia (.expr (.arrayCreate (some element) dimensions none)))
  | arrayFrom {trivia valuesTrivia : Trivia} {element : Option Tree}
    {dimensions : List (Option Tree)} {values : List Tree} :
    (∀ v ∈ values, Proper Body .value v) →
    Proper Body .value (.node trivia (.expr (.arrayCreate element dimensions
      (some (.node valuesTrivia (.expr (.arrayLiteral values)))))))
  | arrayLiteral {trivia : Trivia} {values : List Tree} : (∀ v ∈ values, Proper Body .value v) →
    Proper Body .value (.node trivia (.expr (.arrayLiteral values)))
  | lambda {trivia : Trivia} {parameters : List Tree} {result : Tree} :
    (∀ p ∈ parameters, LambdaParameter p) → Proper Body .value result →
    Proper Body .value (.node trivia (.expr (.lambda parameters (some result))))
  | function {trivia : Trivia} {parameters : List Tree} {body : Tree} :
    (∀ p ∈ parameters, LambdaParameter p) → body.rendering.isBlock →
    Gives AllowsBlocks (body.rendering.block true) Body →
    Proper Body .value (.node trivia (.expr (.lambda parameters (some body))))
  | reference {trivia : Trivia} {target : Tree} {name : String} : Proper Body .object target →
    isName name → name ≠ "new" →
    Proper Body .value (.node trivia (.expr (.methodReference (some target) (.text name))))
  | constructor {trivia : Trivia} {target : Tree} : NameTree target →
    Proper Body .value (.node trivia (.expr (.methodReference (some target) (.text "new"))))
  | classLiteral {trivia : Trivia} {type : Tree} {name : String} :
    runtimeName (some type) = .ok name → IsChain name →
    Proper Body .value (.node trivia (.expr (.classLiteral (some type))))

/-! ### Expressions -/

section Cases

variable {Body : String → Prop} {trivia : Trivia}

theorem NameTree.rendered {t : Tree} (h : NameTree t) :
    bindingLevel t = 16 ∧ ∃ text, t.rendering.expr = pure text ∧ IsChain text := by
  induction h with
  | ident hname => exact ⟨rfl, _, rendering_expr_node _ _, .name hname⟩
  | @member trivia target name _ hname ih =>
    obtain ⟨hlevel, text, htext, hchain⟩ := ih
    refine ⟨rfl, text ++ "." ++ name, ?_, .member hchain hname⟩
    rw [rendering_expr_node]
    simp [ExprForm.map, exprForm, operand, slotExpr, slotNode, Tree.rendering_node, htext, hlevel,
      postfixLevel, Value.display]

theorem shows_literal {value : String} (h : isLiteral value) :
    Shows Body (.node trivia (.expr (.literal (.text value)))) := by
  rw [Shows, rendering_expr_node]
  refine Gives.pure ?_
  simp only [isLiteral, Bool.or_eq_true, decide_eq_true_eq] at h
  rcases h with (hkeyword | hnumber) | hquoted
  · refine Writes.of_firm rfl ?_
    rw [Value.display, Literal.render_keyword value hkeyword]
    exact Stands.keyword hkeyword
  · refine ⟨Stands.number (Literal.isNumber_render hnumber), fun _ hnumeral => ?_⟩
    exact absurd hnumber (by simpa [isNumeral, Tree.form, Value.display] using hnumeral)
  · refine Writes.of_firm rfl ?_
    rw [Value.display, Literal.render_quoted hquoted]
    exact Stands.quoted hquoted

theorem shows_field {target : Tree} {name : String} (hname : isName name)
    (htarget : GivesOperand postfixLevel target (TakesMembers Body)) :
    Shows Body (.node trivia (.expr (.field (some target) (.text name)))) := by
  rw [Shows, rendering_expr_node]
  exact Gives.bind htarget fun code hcode => Gives.pure (.of_firm rfl (hcode name hname))

theorem shows_call {name : String} {arguments types : List Tree} (hname : isFree name)
    (harguments : ∀ a ∈ arguments, Shows Body a) (htypes : ∀ t ∈ types, TypeTree t) :
    Shows Body (.node trivia (.expr (.call (.text name) arguments none types))) := by
  rw [Shows, rendering_expr_node]
  refine Gives.bind (gives_argumentsText harguments) ?_
  rintro _ ⟨texts, rfl, htexts⟩
  refine Gives.bind (gives_typeArgumentsText htypes) ?_
  rintro _ ⟨names, rfl, hnames⟩
  obtain ⟨passed, hpassed⟩ := Stands.all_pass htexts
  have hcall := (Stands.of_name hname).call hnames hpassed
  refine Gives.pure (.of_firm rfl ?_)
  simpa [Value.display, String.append_assoc] using hcall

theorem shows_method {target : Tree} {name : String} {arguments types : List Tree} (hname : isName name)
    (htarget : GivesOperand postfixLevel target (TakesMembers Body))
    (harguments : ∀ a ∈ arguments, Shows Body a) (htypes : ∀ t ∈ types, TypeTree t) :
    Shows Body (.node trivia (.expr (.call (.text name) arguments (some target) types))) := by
  rw [Shows, rendering_expr_node]
  refine Gives.bind (gives_argumentsText harguments) ?_
  rintro _ ⟨texts, rfl, htexts⟩
  refine Gives.bind (gives_typeArgumentsText htypes) ?_
  rintro _ ⟨names, rfl, hnames⟩
  obtain ⟨passed, hpassed⟩ := Stands.all_pass htexts
  refine Gives.bind htarget fun code hcode => Gives.pure (.of_firm rfl ?_)
  have hcall := (hcode name hname).call hnames hpassed
  simpa [Value.display, String.append_assoc] using hcall

theorem shows_subscript {target index : Tree}
    (htarget : GivesOperand postfixLevel target (Stands Body firmEnds 16))
    (hindex : Shows Body index) :
    Shows Body (.node trivia (.expr (.subscript (some target) (some index)))) := by
  rw [Shows, rendering_expr_node]
  refine Gives.bind htarget fun code hcode => Gives.bind hindex fun inner hinner => ?_
  exact Gives.pure (.of_firm rfl (hcode.index (hinner.loose.mono (textLevel_bounds index).1)))

theorem shows_binary {operator : String} {left right : Tree}
    (hoperator : operator ∈ binaryOperators.map (·.2.1))
    (hleft : GivesOperand (binaryLevel operator) left
      (Stands Body anyEnds (binaryLevel operator)))
    (hright : GivesOperand (binaryLevel operator + 1) right
      (Stands Body anyEnds (binaryLevel operator + 1))) :
    Shows Body (.node trivia (.expr (.binary (.text operator) (some left) (some right)))) := by
  have htable : ∀ operator ∈ binaryOperators.map (·.2.1),
      (operatorText operator, operator, binaryLevel operator) ∈ binaryOperators := by decide
  have hbound := (binaryLevel_bounds operator).2
  rw [Shows, rendering_expr_node]
  refine Gives.bind hleft fun a ha => Gives.bind hright fun b hb => ?_
  have hall := Stands.binary (htable operator hoperator) ha hb
  exact Gives.pure (.of_loose (n := binaryLevel operator) rfl (by omega) hall)

theorem shows_before {operator : String} {inner : Tree} (hoperator : operator ∈ prefixOperators)
    (h : GivesOperand unaryLevel inner (Stands Body anyEnds 14)) :
    Shows Body (.node trivia (.expr (.unary (.text operator) (some inner) true))) := by
  rw [Shows, rendering_expr_node]
  refine Gives.bind h fun code hcode => Gives.pure (.of_loose (n := 14) rfl (by decide) ?_)
  rw [Value.display, prefixText]
  split
  · have hparens := (hcode.mono (m := 1) (by decide)).parens.before_any.mono (m := 14) (by decide)
    have htext : operator ++ "(" ++ code ++ ")" = operator ++ ("(" ++ code ++ ")") := by
      simp [String.append_assoc]
    rw [htext]
    refine Stands.before hoperator hparens fun hsigns => ?_
    rcases hsigns with rfl | rfl <;> simp
  · next hsame =>
    refine Stands.before hoperator hcode fun hsigns hstarts => hsame ⟨hsigns, ?_⟩
    exact List.isPrefixOf_iff_prefix.2 hstarts

theorem shows_update {operator : String} {inner : Tree} (hoperator : operator ∈ updateOperators)
    (h : GivesOperand postfixLevel inner (Stands Body firmEnds 16)) :
    Shows Body (.node trivia (.expr (.unary (.text operator) (some inner) false))) := by
  rw [Shows, rendering_expr_node]
  refine Gives.bind h fun code hcode => ?_
  exact Gives.pure (.of_loose (n := 15) rfl (by decide) (hcode.update hoperator))

theorem shows_assign {operator : String} {target value : Tree}
    (hoperator : operator ∈ assignmentOperators)
    (htarget : GivesOperand unaryLevel target (Stands Body anyEnds 16))
    (hvalue : GivesOperand assignmentLevel value (Stands Body anyEnds 1)) :
    Shows Body (.node trivia (.expr (.assign (.text operator) (some target) (some value)))) := by
  rw [Shows, rendering_expr_node]
  refine Gives.bind htarget fun a ha => Gives.bind hvalue fun b hb => ?_
  exact Gives.pure (.of_loose (n := 1) rfl (by decide) (Stands.assign hoperator ha hb))

theorem shows_conditional {condition whenTrue whenFalse : Tree}
    (hcondition : GivesOperand (conditionalLevel + 1) condition (Stands Body anyEnds 3))
    (htrue : GivesOperand assignmentLevel whenTrue (Stands Body anyEnds 1))
    (hfalse : GivesOperand conditionalLevel whenFalse (Stands Body anyEnds 1)) :
    Shows Body
      (.node trivia (.expr (.conditional (some condition) (some whenTrue) (some whenFalse)))) := by
  rw [Shows, rendering_expr_node]
  refine Gives.bind hcondition fun a ha => Gives.bind htrue fun b hb => Gives.bind hfalse fun c hc => ?_
  exact Gives.pure (.of_loose (n := 2) rfl (by decide) (Stands.choice ha hb hc))

theorem shows_cast {type inner : Tree} (htype : TypeTree type)
    (h : GivesOperand unaryLevel inner (Stands Body anyEnds 14)) :
    Shows Body (.node trivia (.expr (.cast (some type) (some inner)))) := by
  obtain ⟨text, htext, htype⟩ := htype.isType
  have hslot : slotTypeText (slotNode (some type.rendering)) = .ok text :=
    (congrArg slotTypeText (slotNode_rendering (some type))).trans htext
  rw [Shows, rendering_expr_node]
  refine Gives.bind h fun code hcode => Gives.bind (Gives.ofType hslot htype) fun name hname => ?_
  exact Gives.pure (.of_firm rfl ((hcode.mono (by decide)).cast hname))

theorem shows_instanceOf {type inner : Tree} {name : String}
    (hname : runtimeName (some type) = .ok name) (hchain : IsChain name)
    (htypeof : isTypeofName name = false)
    (h : GivesOperand (binaryLevel "instanceof") inner (Stands Body anyEnds 9)) :
    Shows Body (.node trivia (.expr (.instanceOf (some inner) (some type)))) := by
  have hlevel : textLevel (.node trivia (.expr (.instanceOf (some inner) (some type)))) = 9 := by
    simp [textLevel, Tree.form, isScalarTest, hname, htypeof, bindingLevel, binaryLevel]
  have hblanks : " instanceof " = " " ++ "instanceof" ++ " " := by decide
  rw [Shows, rendering_expr_node]
  simp only [ExprForm.map, exprForm, typeTest, slotNode_rendering]
  refine Gives.bind (P := (· = name)) (Gives.ofType hname rfl) ?_
  rintro _ rfl
  simp only [htypeof]
  refine Gives.bind h fun code hcode => Gives.pure (.of_loose hlevel (by decide) ?_)
  have hall := hcode.test ((Stands.of_chain hchain).before_any.mono (m := 10) (by decide))
  simpa [hblanks, String.append_assoc] using hall

theorem shows_scalarTest {type inner : Tree} (hscalar : isScalarTest (some type))
    (h : GivesOperand unaryLevel inner (Stands Body anyEnds 14)) :
    Shows Body (.node trivia (.expr (.instanceOf (some inner) (some type)))) := by
  have hlevel : textLevel (.node trivia (.expr (.instanceOf (some inner) (some type)))) = 8 := by
    simp [textLevel, Tree.form, hscalar, binaryLevel]
  obtain ⟨name, hname, htypeof⟩ : ∃ name, runtimeName (some type) = .ok name ∧ isTypeofName name := by
    unfold isScalarTest at hscalar
    split at hscalar
    · next name hname => exact ⟨name, hname, hscalar⟩
    · cases hscalar
  have hquoted : isQuoted ("'" ++ name ++ "'").toList := by
    have hnames : ∀ name ∈ ["string", "number", "boolean"], isQuoted ('\'' :: name.toList ++ ['\'']) := by
      simp [isQuoted, afterQuote]
    simpa using hnames name (of_decide_eq_true htypeof)
  rw [Shows, rendering_expr_node]
  simp only [ExprForm.map, exprForm, typeTest, slotNode_rendering]
  refine Gives.bind (P := (· = name)) (Gives.ofType hname rfl) ?_
  rintro name rfl
  simp only [htypeof]
  refine Gives.bind h fun code hcode => Gives.pure (.of_loose hlevel (by decide) ?_)
  have hleft := hcode.typeof.mono (m := 8) (by decide)
  have hquote : Stands Body firmEnds 16 ("'" ++ name ++ "'") := Stands.quoted hquoted
  have hright := hquote.before_any.mono (m := 9) (by decide)
  have hentry : ("===", "==", 8) ∈ binaryOperators := by decide
  have hall := Stands.binary hentry hleft hright
  have htext : "typeof " ++ code ++ " === '" ++ name ++ "'" =
      "typeof " ++ code ++ " " ++ "===" ++ " " ++ ("'" ++ name ++ "'") := by
    apply String.toList_injective
    simp
  rwa [htext]

theorem shows_create {typeTrivia : Trivia} {name : Word} {scope : Option Tree} {arguments : List Tree}
    {types : Option (List Tree)}
    (hchain : IsChain (Tree.qualifiedName (.node typeTrivia (.type (.named name types scope false)))))
    (htypes : ∀ t ∈ types.getD [], TypeTree t) (harguments : ∀ a ∈ arguments, Shows Body a) :
    Shows Body (.node trivia (.expr
      (.create (some (.node typeTrivia (.type (.named name types scope false)))) arguments none))) := by
  rw [Shows, rendering_expr_node]
  refine Gives.bind (gives_createdType htypes) ?_
  rintro _ ⟨names, rfl, hnames⟩
  refine Gives.bind (gives_argumentsText harguments) ?_
  rintro _ ⟨texts, rfl, htexts⟩
  obtain ⟨passed, hpassed⟩ := Stands.all_pass htexts
  refine Gives.pure (.of_firm rfl ?_)
  have hcreate := Stands.create hchain hnames hpassed
  simpa [String.append_assoc] using hcreate

theorem shows_arrayLiteral {values : List Tree} (h : ∀ v ∈ values, Shows Body v) :
    Shows Body (.node trivia (.expr (.arrayLiteral values))) := by
  rw [Shows, rendering_expr_node]
  refine Gives.bind (gives_argumentsText h) ?_
  rintro _ ⟨texts, rfl, htexts⟩
  exact Gives.pure (.of_firm rfl (Stands.array htexts))

theorem shows_arrayOf {element : Tree} {dimensions : List (Option Tree)} (helement : TypeTree element)
    (h : ∀ size, some size ∈ dimensions → Shows Body size) :
    Shows Body (.node trivia (.expr (.arrayCreate (some element) dimensions none))) := by
  obtain ⟨text, htext, htype⟩ := helement.isType
  rw [Shows, rendering_expr_node]
  simp only [ExprForm.map, exprForm, Option.map_none, slotNode_rendering]
  refine Gives.bind (Gives.ofType htext htype) fun text htype => ?_
  exact (gives_sizedArray (isType_elementText htype) h).mono fun _ hcode => .of_firm rfl hcode

theorem shows_arrayFrom {valuesTrivia : Trivia} {element : Option Tree}
    {dimensions : List (Option Tree)} {values : List Tree} (h : ∀ v ∈ values, Shows Body v) :
    Shows Body (.node trivia (.expr (.arrayCreate element dimensions
      (some (.node valuesTrivia (.expr (.arrayLiteral values))))))) := by
  have hvalues : Shows Body (.node valuesTrivia (.expr (.arrayLiteral values))) := shows_arrayLiteral h
  rw [Shows, rendering_expr_node]
  exact hvalues.mono fun _ hcode => .of_firm rfl (hcode.firm rfl rfl)

theorem shows_lambda {parameters : List Tree} {result : Tree}
    (hparameters : ∀ p ∈ parameters, LambdaParameter p)
    (hexpression : result.rendering.isBlock = false)
    (h : GivesOperand assignmentLevel result (Stands Body anyEnds 1)) :
    Shows Body (.node trivia (.expr (.lambda parameters (some result)))) := by
  rw [Shows, rendering_expr_node]
  refine Gives.bind (gives_lambdaParameters Body hparameters) ?_
  rintro texts ⟨declared, hdeclared⟩
  simp only [Option.map_some, lambdaBody, hexpression]
  refine Gives.bind h fun code hcode => ?_
  exact Gives.pure (.of_loose (n := 1) rfl (by decide) (Stands.arrow hdeclared hcode))

theorem shows_function {parameters : List Tree} {body : Tree}
    (hparameters : ∀ p ∈ parameters, LambdaParameter p) (hblock : body.rendering.isBlock)
    (h : Gives AllowsBlocks (body.rendering.block true) Body) :
    Shows Body (.node trivia (.expr (.lambda parameters (some body)))) := by
  rw [Shows, rendering_expr_node]
  refine Gives.bind (gives_lambdaParameters Body hparameters) ?_
  rintro texts ⟨declared, hdeclared⟩
  have hbody : Gives AllowsBlocks (lambdaBody (some body.rendering)) Body := by
    simp only [lambdaBody, hblock]
    refine Gives.bind Gives.read fun scope hscope => ?_
    rw [AllowsBlocks] at hscope
    simp only [hscope]
    exact Gives.withReader h fun _ hattached => hattached
  refine Gives.bind hbody fun code hcode => ?_
  exact Gives.pure (.of_loose (n := 1) rfl (by decide) (Stands.function hdeclared hcode))

theorem shows_reference {target : Tree} {name : String} (hname : isName name) (hnew : name ≠ "new")
    (h : GivesOperand postfixLevel target (TakesMembers Body)) :
    Shows Body (.node trivia (.expr (.methodReference (some target) (.text name)))) := by
  have hword : Value.isText "new" (.text name) = false := by simpa [Value.isText, Value.text?] using hnew
  have hlevel : textLevel (.node trivia (.expr (.methodReference (some target) (.text name)))) = 16 := by
    simp [textLevel, Tree.form, hword, bindingLevel, primaryLevel]
  rw [Shows, rendering_expr_node]
  refine Gives.bind h fun code hcode => ?_
  simp only [hword, Option.map_some, Bool.false_eq_true, if_false]
  split
  · -- `this` is bound to the method that is taken from it
    have hthis : Stands Body firmEnds 16 "this" := .this
    have hbind : Stands Body firmEnds 16 ("this" ++ "." ++ name ++ "." ++ "bind") :=
      (hthis.field hname).field (by decide)
    have hnone := List.forall_mem_nil (IsType false)
    obtain ⟨value, hvalue⟩ := (hthis.before_any.mono (m := 1) (by decide)).passes
    have hall := hbind.call hnone (.cons hvalue .nil)
    have htext : "this." ++ name ++ ".bind(this)" = "this" ++ "." ++ name ++ "." ++ "bind" ++
        (typeArgumentsOf [] ++ "(" ++ ", ".intercalate ["this"] ++ ")") := by
      apply String.toList_injective
      simp [typeArgumentsOf]
    rw [← htext] at hall
    exact Gives.pure (.of_firm hlevel hall)
  · exact Gives.pure (.of_firm hlevel (hcode name hname))

theorem shows_constructor {target : Tree} (h : NameTree target) :
    Shows Body (.node trivia (.expr (.methodReference (some target) (.text "new")))) := by
  obtain ⟨hlevel, text, htext, hchain⟩ := h.rendered
  have hoperand : operand (some target.rendering) postfixLevel = pure text := by
    simp [operand, slotExpr, slotNode, Tree.rendering_node, htext, hlevel, postfixLevel]
  rw [Shows, rendering_expr_node]
  simp only [ExprForm.map, exprForm, Option.map_some, methodReferenceText, hoperand]
  have hnone := List.forall_mem_nil (IsType false)
  have hargs : Passes Body ("..." ++ "args") _ := Stands.spread (by decide) (by decide)
  have hcreate := Stands.create hchain hnone (.cons hargs .nil)
  have hdeclared : Declares Body ("..." ++ "args") _ := .spread (by decide)
  have hall := Stands.arrow (.cons hdeclared .nil) (hcreate.before_any.mono (m := 1) (by decide))
  have hcode : "(...args) => new " ++ text ++ "(...args)" =
      "(" ++ ", ".intercalate ["..." ++ "args"] ++ ") => " ++ ("new " ++ (text ++
        (typeArgumentsOf [] ++ "(" ++ ", ".intercalate ["..." ++ "args"] ++ ")"))) := by
    apply String.toList_injective
    simp [typeArgumentsOf]
  rw [← hcode] at hall
  exact Gives.pure (.of_loose (n := 1) rfl (by decide) hall)

theorem shows_classLiteral {type : Tree} {name : String} (hname : runtimeName (some type) = .ok name)
    (hchain : IsChain name) : Shows Body (.node trivia (.expr (.classLiteral (some type)))) := by
  rw [Shows, rendering_expr_node]
  simp only [ExprForm.map, exprForm, slotNode_rendering]
  exact Gives.ofType hname (.of_firm rfl (Stands.of_chain hchain))

end Cases

/-- What a role asks of an expression. -/
def Plays (Body : String → Prop) : Role → Tree → Prop
  | .value, t => Shows Body t
  | .object, t => GivesOperand postfixLevel t (TakesMembers Body)

theorem Proper.isBlock_eq_false {Body : String → Prop} {t : Tree} (h : Proper Body .value t) :
    t.rendering.isBlock = false := by
  cases h <;> simp [Rendering.isBlock, Tree.rendering_node, Tree.form]

/-- Every proper expression is written at its level. -/
theorem Proper.plays {Body : String → Prop} {role : Role} {t : Tree} (h : Proper Body role t) :
    Plays Body role t := by
  induction h with
  | object _ hfits ih =>
    refine (gives_operand_object ih hfits).mono fun code hcode name hname => ?_
    exact hcode.field hname
  | super =>
    refine Gives.pure fun name hname => ?_
    exact Stands.superMember hname
  | ident hname =>
    rw [Plays, Shows, rendering_expr_node]
    exact Gives.pure (.of_firm rfl (Stands.of_name hname))
  | literal hliteral => exact shows_literal hliteral
  | this =>
    rw [Plays, Shows, rendering_expr_node]
    exact Gives.pure (.of_firm rfl Stands.this)
  | field _ hname ih => exact shows_field hname ih
  | call hname _ htypes ih => exact shows_call hname ih htypes
  | method _ hname _ htypes iht iha => exact shows_method hname iht iha htypes
  | subscript _ hfits _ iht ihi => exact shows_subscript (gives_operand_object iht hfits) ihi
  | @binary trivia operator left right hoperator _ _ hl hr ihl ihr =>
    have hbound := (binaryLevel_bounds operator).2
    exact shows_binary hoperator (gives_operand_of_fits ihl (by omega) hl)
      (gives_operand_of_fits ihr (by omega) hr)
  | before hoperator _ hfits ih =>
    exact shows_before hoperator (gives_operand_of_fits ih (by decide) hfits)
  | update hoperator _ hplace ih =>
    exact shows_update hoperator (gives_operand_place ih hplace postfixLevel)
  | assign hoperator _ hplace _ iht ihv =>
    have htarget := (gives_operand_place iht hplace unaryLevel).mono fun _ hcode => hcode.before_any
    exact shows_assign hoperator htarget (gives_operand_any ihv _)
  | conditional _ _ _ hfits ihc iht ihf =>
    exact shows_conditional (gives_operand_of_fits ihc (by decide) hfits) (gives_operand_any iht _)
      (gives_operand_any ihf _)
  | cast htype _ hfits ih => exact shows_cast htype (gives_operand_of_fits ih (by decide) hfits)
  | instanceOf _ hfits hname hchain htypeof ih =>
    exact shows_instanceOf hname hchain htypeof (gives_operand_of_fits ih (by decide) hfits)
  | scalarTest _ hfits hscalar ih =>
    exact shows_scalarTest hscalar (gives_operand_of_fits ih (by decide) hfits)
  | create hchain htypes _ ih => exact shows_create hchain htypes ih
  | arrayOf helement _ ih => exact shows_arrayOf helement ih
  | arrayFrom _ ih => exact shows_arrayFrom ih
  | arrayLiteral _ ih => exact shows_arrayLiteral ih
  | lambda hparameters hresult ih =>
    exact shows_lambda hparameters hresult.isBlock_eq_false (gives_operand_any ih _)
  | function hparameters hblock hbody => exact shows_function hparameters hblock hbody
  | reference _ hname hnew ih => exact shows_reference hname hnew ih
  | constructor hclass => exact shows_constructor hclass
  | classLiteral hname hchain => exact shows_classLiteral hname hchain

/-- The text of a proper expression is an expression of its level, and so is an operand that fits of
the level that its place asks for. -/
theorem Proper.isPhrase_textLevel {Body : String → Prop} {t : Tree} {scope : Scope} (h : Proper Body .value t)
    (hscope : AllowsBlocks scope) :
    (∃ text, (runIn scope t.rendering.expr).result = .ok text ∧ IsPhrase Body (textLevel t) text) ∧
      ∀ m ≤ 16, Fits m t → ∃ text,
        (runIn scope (operand (some t.rendering) m)).result = .ok text ∧ IsPhrase Body m text := by
  have hshows : Shows Body t := h.plays
  constructor
  · obtain ⟨text, hrun, htext⟩ := Gives.runIn hshows hscope
    exact ⟨text, hrun, htext.loose.isPhrase⟩
  · intro m hm hfits
    obtain ⟨text, hrun, htext⟩ := Gives.runIn (gives_operand_of_fits hshows hm hfits) hscope
    exact ⟨text, hrun, htext.isPhrase⟩

/-- A call with a lambda, a constructor, and a choice by a test for a scalar type. -/
def listenCall : Tree :=
  let name (text : String) : Tree := expression (.ident (.text text))
  let type (text : String) : Tree := .node {} (.type (.named (.text text) none none false))
  let parameter : Tree := .node {} (.part (.parameter (.text "x") none [] [] false))
  expression (.call (.text "listen")
    [expression (.lambda [parameter] (some (.node {} (.stmt (.block []))))),
      expression (.methodReference (some (name "A")) (.text "new")),
      expression (.conditional
        (some (expression (.instanceOf (some (name "s")) (some (type "string")))))
        (some (expression (.cast (some (type "Object")) (some (name "s")))))
        (some (expression (.unary (.text "++") (some (name "i")) false))))]
    none [])

example : (runIn {} listenCall.rendering.expr).result = .ok
    "listen((x) => \x7b\x7d, (...args) => new A(...args), typeof s === 'string' ? (s as Object) : i++)" := by
  cbv

theorem isPhrase_textLevel_listenCall :
    (∃ text, (runIn {} listenCall.rendering.expr).result = .ok text ∧
      IsPhrase (· = "\x7b\x7d") (textLevel listenCall) text) ∧
    ∀ m ≤ 16, Fits m listenCall → ∃ text,
      (runIn {} (operand (some listenCall.rendering) m)).result = .ok text ∧
        IsPhrase (· = "\x7b\x7d") m text := by
  have hname (text : String) (h : isFree text) :
      Proper (· = "\x7b\x7d") .value (expression (.ident (.text text))) := .ident h
  have hblock : Gives AllowsBlocks ((Tree.node {} (.stmt (.block []))).rendering.block true)
      (· = "\x7b\x7d") := by
    have hlines : (Tree.node {} (.stmt (.block []))).rendering.lines [] = pure [] := by
      simp [Tree.rendering_lines, Tree.form, Form.map, StmtForm.map, Tree.trivia, linesOf, childChunks,
        inOrder, chunksFrom]
    intro scope _ log
    refine ⟨_, log, ?_, rfl⟩
    rw [Rendering.block, hlines]
    rfl
  have hparameter : LambdaParameter (.node {} (.part (.parameter (.text "x") none [] [] false))) :=
    .plain (by decide)
  have hobject : TypeTree (.node {} (.type (.named (.text "Object") none none false))) :=
    .named (.name (by decide)) (List.forall_mem_nil _)
  refine Proper.isPhrase_textLevel (.call (by decide) ?_ (List.forall_mem_nil _)) rfl
  simp only [List.forall_mem_cons]
  have hs := hname "s" (by decide)
  have hi := hname "i" (by decide)
  exact ⟨.function (List.forall_mem_singleton.2 hparameter) rfl hblock,
    .constructor (.ident (by decide)),
    .conditional (.scalarTest hs (by decide) rfl) (.cast hobject hs (by decide))
      (.update (by decide) hi rfl) (by decide), List.forall_mem_nil _⟩

/-- A test whether a value is a string. -/
def stringTest : Tree :=
  expression (.instanceOf (some (expression (.ident (.text "x"))))
    (some (.node {} (.type (.named (.text "string") none none false)))))

/-- The comparison of a value with such a test. -/
def comparedTest : Tree :=
  expression (.binary (.text "==") (some (expression (.ident (.text "y")))) (some stringTest))

/-- The text of a test for a scalar type is no expression of the level that its binding strength
tells, and goes without parentheses where that level is asked for. -/
theorem stringTest_not_isPhrase :
    bindingLevel stringTest = 9 ∧
      operand (some stringTest.rendering) 9 = pure "typeof x === 'string'" ∧
      comparedTest.rendering.expr = pure "y === typeof x === 'string'" ∧
      ∀ Body : String → Prop, ¬ IsPhrase Body 9 "typeof x === 'string'" := by
  refine ⟨rfl, rfl, rfl, ?_⟩
  rintro Body ⟨pieces, hcuts, hphrase⟩
  have hbare : Bracketless pieces := by
    constructor
    · intro hopen
      exact absurd (hcuts.mem_of_sign hopen (c := '(') (by decide)) (by decide)
    · intro hopen
      exact absurd (hcuts.mem_of_sign hopen (c := '[') (by decide)) (by decide)
  have hliteral : Token.ofChars? "'string'".toList = some (.literal "'string'") := by decide +kernel
  have hquote : Cuts Body ("'string'".toList ++ []) [.token (.literal "'string'")] :=
    .token hliteral (maximal_nil _) .nil
  have hsign := cuts_between (ofChars?_sign "===" (by decide)) (maximal_blank (by decide)) hquote
  have hx := cuts_name (show isName "x" by decide) (EndsAt.cons (by decide)) hsign
  have htext : Cuts Body "typeof x === 'string'".toList
      [.word "typeof", .word "x", .sign "===", .token (.literal "'string'")] :=
    cuts_spaced "typeof" (by decide) hx
  have htokens := (hcuts.lexes (hphrase.isSome_token? hbare)).unique
    (htext.lexes (by simp [Piece.token?, Piece.word, Piece.sign]))
  have hmem : Token.sign "===" ∈ pieces.filterMap Piece.token? := by
    rw [htokens]
    decide
  obtain ⟨piece, hpiece, htoken⟩ := List.mem_filterMap.1 hmem
  rw [Piece.eq_of_token?_eq_some htoken] at hpiece
  have hentry : ("===", "==", 8) ∈ binaryOperators := by decide
  exact hphrase.not_mem_looser hentry (by decide) hbare (by decide) hpiece

end Render

end Recast
