import Mathlib
import Recast.Proofs.Render.Built.Basic

/-!
How expressions and statements are put together.

A layer of renderings that are built from the elementary steps is built from them itself.
-/

namespace Recast.Render

/-! ### Expressions -/

section Expressions

theorem operand_built {slot : Option Rendering} (h : ∀ r ∈ slot.toList, r.Built) (minimum : Nat) :
    Built (operand slot minimum) :=
  (slotExpr_built h).bind fun _ => .pure _

theorem argumentsText_built {arguments : List Rendering} (h : ∀ r ∈ arguments, r.Built) :
    Built (argumentsText arguments) :=
  (Built.mapM fun r hr => (h r hr).expr).bind fun _ => .pure _

theorem typeTest_built {type : Option Tree} {subject : Nat → Render String}
    (h : ∀ minimum, Built (subject minimum)) : Built (typeTest type subject) := by
  refine (Built.ofType _).bind fun name => ?_
  exact .ite ((h _).bind fun _ => .pure _) ((h _).bind fun _ => .pure _)

theorem sizedArray_built {element : String} {dimensions : List (Option Rendering)}
    (h : ∀ r ∈ dimensions.filterMap id, r.Built) : Built (sizedArray element dimensions) := by
  induction dimensions with
  | nil => exact .pure _
  | cons first inner ih =>
    cases first with
    | none => exact .pure _
    | some size =>
      have hsizes : ∀ r ∈ size :: inner.filterMap id, r.Built := h
      rw [List.forall_mem_cons] at hsizes
      refine hsizes.1.expr.bind fun _ => ?_
      rcases inner with _ | ⟨_ | next, inner⟩
      · exact .pure _
      · exact .pure _
      · exact (ih hsizes.2).bind fun _ => .pure _

theorem lambdaParameter_built (r : Rendering) : Built (lambdaParameter r) := by
  unfold lambdaParameter
  split
  · exact .pure _
  · exact (Built.ofType _).bind fun _ => .pure _
  · exact .pure _

theorem lambdaBody_built {slot : Option Rendering} (h : ∀ r ∈ slot.toList, r.Built) :
    Built (lambdaBody slot) := by
  have hoperand := operand_built h assignmentLevel
  cases slot with
  | none => exact hoperand
  | some r =>
    refine .ite (Built.read_bind fun scope => ?_) hoperand
    exact .ite ((h r (by simp)).block true).inBody .unsupported

theorem methodReferenceText_built {target : Option Rendering} {name : Word}
    (h : ∀ r ∈ target.toList, r.Built) : Built (methodReferenceText target name) := by
  refine (operand_built h _).bind fun text => .ite (.pure _) ?_
  split <;> exact .pure _

theorem createdType_built (type : Option Tree) : Built (createdType type) := by
  refine (Built.ofType _).bind fun text => ?_
  split <;> exact .pure _

theorem exprForm_built {node : Tree} {form : ExprForm Rendering}
    (h : ∀ r ∈ form.children, r.Built) : Built (exprForm node form) := by
  cases form with
  | ident | literal | this | super => exact .pure _
  | bare => exact .unsupported
  | classLiteral type => exact .ofType _
  | arrayLiteral values => exact (argumentsText_built h).bind fun _ => .pure _
  | methodReference target name => exact methodReferenceText_built h
  | field target name => exact (operand_built h _).bind fun _ => .pure _
  | unary operator operand isBefore =>
    cases isBefore <;> exact (operand_built h _).bind fun _ => .pure _
  | call name arguments target typeArguments =>
    simp only [ExprForm.children, List.forall_mem_append] at h
    refine (argumentsText_built h.1.1).bind fun _ => ?_
    refine Built.bind (.ite (.pure _) ((Built.types _).bind fun _ => .pure _)) fun _ => ?_
    cases target with
    | none => exact .pure _
    | some r => exact (operand_built h.1.2 _).bind fun _ => .pure _
  | create type arguments body =>
    simp only [ExprForm.children, List.forall_mem_append] at h
    refine .ite .stop_bind ?_
    exact (createdType_built _).bind fun _ => (argumentsText_built h.1.2).bind fun _ => .pure _
  | arrayCreate element dimensions initial =>
    simp only [ExprForm.children, List.forall_mem_append] at h
    cases initial with
    | some r => exact (h.2 r (by simp)).expr
    | none => exact (Built.ofType _).bind fun _ => sizedArray_built h.1.2
  | subscript target index =>
    simp only [ExprForm.children, List.forall_mem_append] at h
    exact (operand_built h.1 _).bind fun _ => (slotExpr_built h.2).bind fun _ => .pure _
  | binary operator left right | assign operator left right =>
    simp only [ExprForm.children, List.forall_mem_append] at h
    exact (operand_built h.1 _).bind fun _ => (operand_built h.2 _).bind fun _ => .pure _
  | conditional condition whenTrue whenFalse =>
    simp only [ExprForm.children, List.forall_mem_append] at h
    exact (operand_built h.1.1 _).bind fun _ => (operand_built h.1.2 _).bind fun _ =>
      (operand_built h.2 _).bind fun _ => .pure _
  | cast type expression =>
    simp only [ExprForm.children, List.forall_mem_append] at h
    exact (operand_built h.2 _).bind fun _ => (Built.ofType _).bind fun _ => .pure _
  | instanceOf expression type =>
    simp only [ExprForm.children, List.forall_mem_append] at h
    exact typeTest_built (operand_built h.1)
  | lambda parameters body =>
    simp only [ExprForm.children, List.forall_mem_append] at h
    exact (Built.mapM fun r _ => lambdaParameter_built r).bind fun _ =>
      (lambdaBody_built h.2).bind fun _ => .pure _

theorem exprOf_built {node : Tree} {form : Form Rendering} (h : ∀ r ∈ form.children, r.Built) :
    Built (exprOf node form) := by
  cases form with
  | expr form => exact exprForm_built h
  | _ => exact .unsupported

end Expressions

/-! ### Variables -/

section Variables

theorem typedVariable_built (name : Word) (dimensions : Int) :
    Built (typedVariable name dimensions) :=
  Built.declaredType.bind fun _ => (Built.ofType _).bind fun _ => .pure _

theorem noVariable_built (node : Tree) : Built (noVariable node) := by
  refine Built.declaredType.bind fun type => ?_
  split
  · exact (Built.ofType _).discard.bind fun _ => .unsupported
  · exact (Built.ofType _).discard.bind fun _ => .unsupported
  · exact .unsupported

theorem localVariableOf_built {node : Tree} {form : Form Rendering}
    (h : ∀ r ∈ form.children, r.Built) : Built (localVariableOf node form) := by
  cases form with
  | part form =>
    cases form with
    | declarator name dimensions initial =>
      refine (typedVariable_built name dimensions).bind fun _ => ?_
      cases initial with
      | none => exact .pure _
      | some r => exact (h r List.mem_cons_self).expr.bind fun _ => .pure _
    | _ => exact noVariable_built node
  | _ => exact noVariable_built node

theorem localDeclaration_built {node : Tree} {type : Option Tree} {bindings : List Rendering}
    {isConstant : Bool} {annotations : List Rendering} (hbindings : ∀ r ∈ bindings, r.Built)
    (hannotations : ∀ r ∈ annotations, r.Built) :
    Built (localDeclaration node type bindings isConstant annotations) := by
  refine Built.read_bind fun scope => .ite .stop_bind ?_
  refine (notes_built hannotations).bind fun _ => Built.bind ?_ fun _ => .pure _
  exact .declaring _ (.mapM fun r hr => (hbindings r hr).localVariable)

theorem declarationOf_built {node : Tree} {form : Form Rendering}
    (h : ∀ r ∈ form.children, r.Built) (isResource : Bool) :
    Built (declarationOf node form isResource) := by
  cases form with
  | stmt form =>
    cases form with
    | localVariable type bindings modifiers annotations =>
      simp only [Form.children, StmtForm.children, List.forall_mem_append] at h
      cases isResource with
      | false => exact localDeclaration_built h.1.2 h.2
      | true => exact localDeclaration_built h.1.2 (List.forall_mem_nil _)
    | _ => cases isResource <;> exact .unsupported
  | member form =>
    cases form with
    | field type bindings modifiers annotations =>
      simp only [Form.children, MemberForm.children, List.forall_mem_append] at h
      cases isResource with
      | false => exact .unsupported
      | true => exact localDeclaration_built h.1.2 (List.forall_mem_nil _)
    | _ => cases isResource <;> exact .unsupported
  | _ => cases isResource <;> exact .unsupported

end Variables

/-! ### Statements -/

section Statements

theorem armLines_built {binding : Word} {arm : CatchArm} (h : Built arm.lines) :
    Built (armLines binding arm) :=
  Built.indent.bind fun _ => h.bind fun _ => .pure _

theorem armBlock_built {binding : Word} {arm : CatchArm} (h : Built arm.lines) :
    Built (armBlock binding arm) :=
  Built.indent.bind fun _ => (armLines_built h).indented.bind fun _ => .pure _

theorem chainRest_built {binding : Word} {arms : List CatchArm}
    (h : ∀ arm ∈ arms, Built arm.lines) : Built (chainRest binding arms) := by
  induction arms with
  | nil => exact Built.indent.bind fun _ => Built.indent.indented.bind fun _ => .pure _
  | cons arm rest ih =>
    rw [List.forall_mem_cons] at h
    unfold chainRest
    split
    · exact (armBlock_built h.1).bind fun _ => .pure _
    · exact (typeTest_built fun _ => .pure _).bind fun _ => (armBlock_built h.1).bind fun _ =>
        (ih h.2).bind fun _ => .pure _

theorem chainLines_built {binding : Word} {arms : List CatchArm}
    (h : ∀ arm ∈ arms, Built arm.lines) : Built (chainLines binding arms) := by
  cases arms with
  | nil => exact .stop _
  | cons arm rest =>
    rw [List.forall_mem_cons] at h
    simp only [chainLines]
    split
    · exact armLines_built h.1
    · exact Built.indent.bind fun _ => (typeTest_built fun _ => .pure _).bind fun _ =>
        (armBlock_built h.1).bind fun _ => (chainRest_built h.2).bind fun _ => .pure _

theorem catchText_built {clauses : List Rendering} (h : ∀ r ∈ clauses, r.Built) :
    Built (catchText clauses) := by
  have harms : ∀ arm ∈ catchArms clauses, Built arm.lines := by
    intro arm harm
    obtain ⟨r, hr, harm⟩ := List.mem_flatMap.1 harm
    obtain ⟨caught, -, rfl⟩ := List.mem_map.1 harm
    exact (h r hr).lines (List.forall_mem_nil _)
  cases clauses with
  | nil => exact .pure _
  | cons first rest =>
    exact Built.indent.bind fun _ => (chainLines_built harms).indented.bind fun _ => .pure _

theorem tryBody_built {body : Option Rendering} {resources : List Rendering}
    (hbody : ∀ r ∈ body.toList, r.Built) (hresources : ∀ r ∈ resources, r.Built) :
    Built (tryBody body resources) := by
  cases body with
  | none => exact .unsupported
  | some body =>
    have hbody := hbody body (by simp)
    refine .ite (hbody.block true) (Built.indent.bind fun _ => ?_)
    refine (hbody.lines ?_).indented.bind fun _ => .pure _
    intro child hchild
    obtain ⟨r, hr, rfl⟩ := List.mem_map.1 hchild
    exact Built.indent.bind fun _ => ((hresources r hr).declaration true).bind fun _ =>
      .withComment _ _

theorem linesOf_built {node : Tree} {form : Form Rendering} (h : ∀ r ∈ form.children, r.Built)
    {before : List Child} (hbefore : ∀ child ∈ before, Built child.text) :
    Built (linesOf node form before) := by
  have hstatements (statements : List Rendering) (hbuilt : ∀ r ∈ statements, r.Built) :
      Built (childChunks node.trivia.orphans (before ++ statements.map (·.stmtChild))) := by
    refine .chunksFrom (List.forall_mem_append.2 ⟨hbefore, ?_⟩)
    exact List.forall_mem_map.2 fun r hr => (hbuilt r hr).stmt
  cases form with
  | stmt form =>
    cases form with
    | block statements => exact hstatements statements h
    | _ => exact .unsupported
  | part form =>
    cases form with
    | switchCase labels statements =>
      exact hstatements statements fun r hr => h r (List.mem_append_right _ hr)
    | catchClause binding body =>
      cases body with
      | none => exact .unsupported
      | some body => exact (h body (by simp [Form.children, PartForm.children])).lines hbefore
    | _ => exact .unsupported
  | _ => exact .unsupported

theorem caseLinesOf_built {node : Tree} {form : Form Rendering}
    (h : ∀ r ∈ form.children, r.Built) : Built (caseLinesOf node form) := by
  cases form with
  | part form =>
    cases form with
    | switchCase labels statements =>
      simp only [Form.children, PartForm.children, List.forall_mem_append] at h
      refine Built.indent.bind fun _ => Built.bind (.mapM fun r hr => ?_) fun _ => ?_
      · exact (h.1 r hr).expr.bind fun _ => .pure _
      · exact (Built.mapM fun r hr => (h.2 r hr).stmt).indented.bind fun _ => .pure _
    | _ => exact .unsupported
  | _ => exact .unsupported

theorem elseText_built {r : Rendering} (h : r.Built) : Built (elseText r) := by
  unfold elseText
  split
  · exact h.bareStmt.bind fun _ => .pure _
  · exact h.body

theorem loopStartText_built {start : LoopStart Rendering} (h : ∀ r ∈ start.children, r.Built) :
    Built (loopStartText start) := by
  cases start with
  | absent => exact .pure _
  | declaration r => exact (h r List.mem_cons_self).declaration false
  | expressions rs => exact argumentsText_built h

theorem loopBody_built {body : Option Rendering} (h : ∀ r ∈ body.toList, r.Built) :
    Built (loopBody body) := by
  cases body with
  | none => exact .pure _
  | some r => exact (h r (by simp)).body

theorem stmtForm_built {node : Tree} {declaration block : Render String} {form : StmtForm Rendering}
    (hdeclaration : Built declaration) (hblock : Built block) (h : ∀ r ∈ form.children, r.Built) :
    Built (stmtForm node declaration block form) := by
  cases form with
  | block => exact hblock
  | bare => exact .unsupported
  | breaking | continuing | empty => exact Built.indent.bind fun _ => .pure _
  | localVariable => exact Built.indent.bind fun _ => hdeclaration.bind fun _ => .pure _
  | evaluate | throwing =>
    exact Built.indent.bind fun _ => (slotExpr_built h).bind fun _ => .pure _
  | returning expression =>
    cases expression with
    | none => exact Built.indent.bind fun _ => .pure _
    | some r =>
      exact Built.indent.bind fun _ => (h r List.mem_cons_self).expr.bind fun _ => .pure _
  | ifElse condition whenTrue whenFalse =>
    simp only [StmtForm.children, List.forall_mem_append] at h
    refine Built.indent.bind fun _ => (slotExpr_built h.1.1).bind fun _ =>
      (slotBody_built h.1.2).bind fun _ => ?_
    cases whenFalse with
    | none => exact .pure _
    | some r => exact (elseText_built (h.2 r (by simp))).bind fun _ => .pure _
  | whileLoop condition body | doLoop condition body =>
    simp only [StmtForm.children, List.forall_mem_append] at h
    exact Built.indent.bind fun _ => (slotExpr_built h.1).bind fun _ =>
      (slotBody_built h.2).bind fun _ => .pure _
  | forLoop start condition update body =>
    simp only [StmtForm.children, List.forall_mem_append] at h
    exact Built.indent.bind fun _ => (loopStartText_built h.1.1.1).bind fun _ =>
      (optionalText_built fun r hr => (h.1.1.2 r hr).expr).bind fun _ =>
      (argumentsText_built h.1.2).bind fun _ => (loopBody_built h.2).bind fun _ => .pure _
  | forEach binding iterable body =>
    simp only [StmtForm.children, List.forall_mem_append] at h
    refine Built.indent.bind fun _ => ?_
    split
    · exact (slotExpr_built h.1.2).bind fun _ => (slotBody_built h.2).bind fun _ => .pure _
    · exact .unsupported
  | switch selector cases =>
    simp only [StmtForm.children, List.forall_mem_append] at h
    exact Built.indent.bind fun _ => (slotExpr_built h.1).bind fun _ =>
      (Built.mapM fun r hr => (h.2 r hr).caseLines).indented.bind fun _ => .pure _
  | tryCatch body resources catches finalBlock =>
    simp only [StmtForm.children, List.forall_mem_append] at h
    exact (Built.reportIf _ _ _).bind fun _ => Built.indent.bind fun _ =>
      (tryBody_built h.1.1.1 h.1.1.2).bind fun _ => (catchText_built h.1.2).bind fun _ =>
      (optionalText_built fun r hr => (h.2 r hr).block true).bind fun _ => .pure _
  | synchronized lock body =>
    simp only [StmtForm.children, List.forall_mem_append] at h
    exact slotBlock_built false h.2
  | assertion condition message =>
    simp only [StmtForm.children, List.forall_mem_append] at h
    exact Built.indent.bind fun _ => (slotExpr_built h.1).bind fun _ =>
      (optionalText_built fun r hr => (h.2 r hr).expr).bind fun _ => .pure _
  | labeled label statement =>
    exact Built.indent.bind fun _ => (slotStmt_built h).bind fun _ => .pure _
  | constructorCall isThis arguments =>
    exact Built.indent.bind fun _ => (argumentsText_built h).bind fun _ =>
      (Built.reportIf _ _ _).bind fun _ => .pure _
  | localType declaration =>
    exact Built.read_bind fun scope => .ite .stop_bind (slotTypeDeclaration_built h)

theorem bareStmtOf_built {node : Tree} {declaration block : Render String} {form : Form Rendering}
    (hdeclaration : Built declaration) (hblock : Built block) (h : ∀ r ∈ form.children, r.Built) :
    Built (bareStmtOf node declaration block form) := by
  cases form with
  | stmt form => exact stmtForm_built hdeclaration hblock h
  | _ => exact .unsupported

end Statements

end Recast.Render
