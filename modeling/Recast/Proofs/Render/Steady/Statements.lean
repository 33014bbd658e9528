import Mathlib
import Recast.Proofs.Render.Steady.Basic

/-!
Expressions and statements without stray declarations.

An expression is steady everywhere: the block of a lambda is a body wherever the lambda stands. A
statement is steady in a body.
-/

namespace Recast.Render

/-! ### Expressions -/

section Expressions

variable {K : Scope → Prop}

theorem operand_steady {slot : Option Tree} (h : ∀ t ∈ slot.toList, Sound t) (minimum : Nat) :
    Steady K (operand (slot.map Tree.rendering) minimum) :=
  (slotExpr_steady h).bind fun _ => Steady.pure

theorem argumentsText_steady {arguments : List Tree} (h : ∀ t ∈ arguments, Sound t) :
    Steady K (argumentsText (arguments.map Tree.rendering)) :=
  (Steady.mapM (List.forall_mem_map.2 fun t ht => (h t ht).expr)).bind fun _ => Steady.pure

theorem typeTest_steady {type : Option Tree} {subject : Nat → Render String}
    (h : ∀ minimum, Steady K (subject minimum)) : Steady K (typeTest type subject) := by
  refine (Steady.ofType (runtimeName_rooted type)).bind fun _ => ?_
  exact Steady.ite (fun _ => (h _).bind fun _ => Steady.pure)
    fun _ => (h _).bind fun _ => Steady.pure

theorem sizedArray_steady {element : String} {dimensions : List (Option Tree)}
    (h : ∀ t ∈ dimensions.filterMap id, Sound t) :
    Steady K (sizedArray element (dimensions.map (·.map Tree.rendering))) := by
  induction dimensions with
  | nil => exact Steady.pure
  | cons first inner ih =>
    cases first with
    | none => exact Steady.pure
    | some size =>
      have hsizes : ∀ t ∈ size :: inner.filterMap id, Sound t := h
      rw [List.forall_mem_cons] at hsizes
      refine hsizes.1.expr.bind fun _ => ?_
      rcases inner with _ | ⟨_ | next, inner⟩
      · exact Steady.pure
      · exact Steady.pure
      · exact (ih hsizes.2).bind fun _ => Steady.pure

theorem lambdaParameter_steady (r : Rendering) : Steady K (lambdaParameter r) := by
  unfold lambdaParameter
  split
  · exact Steady.pure
  · exact (Steady.ofType (typeText_rooted _)).bind fun _ => Steady.pure
  · exact Steady.pure

/-- The block of a lambda is a body wherever the lambda stands. -/
theorem lambdaBody_steady {slot : Option Tree} (h : ∀ t ∈ slot.toList, Sound t) :
    Steady K (lambdaBody (slot.map Tree.rendering)) := by
  cases slot with
  | none => exact operand_steady h _
  | some t =>
    have hoperand := operand_steady (K := K) h assignmentLevel
    refine Steady.ite (fun _ => Steady.read_bind fun scope _ => ?_) fun _ => hoperand
    refine Steady.ite (fun _ => ?_) fun _ => Steady.unsupported
    exact ((h t (by simp)).block true).withReader (fun _ _ => rfl) fun _ => rfl

theorem methodReferenceText_steady {target : Option Tree} {name : Word}
    (h : ∀ t ∈ target.toList, Sound t) :
    Steady K (methodReferenceText (target.map Tree.rendering) name) := by
  refine (operand_steady h _).bind fun _ => Steady.ite (fun _ => Steady.pure) fun _ => ?_
  split <;> exact Steady.pure

theorem exprForm_steady {node : Tree} {form : ExprForm Tree} (h : ∀ t ∈ form.children, Sound t) :
    Steady K (exprForm node (form.map Tree.rendering)) := by
  cases form with
  | ident | literal | this | super => exact Steady.pure
  | bare => exact Steady.unsupported
  | field target name => exact (operand_steady h _).bind fun _ => Steady.pure
  | call name arguments target typeArguments =>
    simp only [ExprForm.children, List.forall_mem_append] at h
    refine (argumentsText_steady h.1.1).bind fun _ => ?_
    refine Steady.bind (Steady.ite (fun _ => Steady.pure) fun _ => ?_) fun _ => ?_
    · exact (types_steady _).bind fun _ => Steady.pure
    · cases target with
      | none => exact Steady.pure
      | some t => exact (operand_steady h.1.2 _).bind fun _ => Steady.pure
  | create type arguments body =>
    simp only [ExprForm.children, List.forall_mem_append] at h
    refine Steady.ite (fun _ => Steady.stop_bind) fun _ => ?_
    refine Steady.bind ?_ fun _ => (argumentsText_steady h.1.2).bind fun _ => Steady.pure
    refine (Steady.ofType (slotTypeText_rooted _)).bind fun _ => ?_
    split <;> exact Steady.pure
  | arrayLiteral values => exact (argumentsText_steady h).bind fun _ => Steady.pure
  | arrayCreate element dimensions initial =>
    simp only [ExprForm.children, List.forall_mem_append] at h
    cases initial with
    | some t => exact (h.2 t (by simp)).expr
    | none =>
      exact (Steady.ofType (slotTypeText_rooted _)).bind fun _ => sizedArray_steady h.1.2
  | subscript target index =>
    simp only [ExprForm.children, List.forall_mem_append] at h
    exact (operand_steady h.1 _).bind fun _ => (slotExpr_steady h.2).bind fun _ => Steady.pure
  | unary operator operand isBefore =>
    cases isBefore <;> exact (operand_steady h _).bind fun _ => Steady.pure
  | binary operator left right | assign operator left right =>
    simp only [ExprForm.children, List.forall_mem_append] at h
    exact (operand_steady h.1 _).bind fun _ => (operand_steady h.2 _).bind fun _ => Steady.pure
  | conditional condition whenTrue whenFalse =>
    simp only [ExprForm.children, List.forall_mem_append] at h
    exact (operand_steady h.1.1 _).bind fun _ => (operand_steady h.1.2 _).bind fun _ =>
      (operand_steady h.2 _).bind fun _ => Steady.pure
  | cast type expression =>
    simp only [ExprForm.children, List.forall_mem_append] at h
    exact (operand_steady h.2 _).bind fun _ =>
      (Steady.ofType (slotTypeText_rooted _)).bind fun _ => Steady.pure
  | instanceOf expression type =>
    simp only [ExprForm.children, List.forall_mem_append] at h
    exact typeTest_steady fun minimum => operand_steady h.1 minimum
  | lambda parameters body =>
    simp only [ExprForm.children, List.forall_mem_append] at h
    exact (Steady.mapM fun r _ => lambdaParameter_steady r).bind fun _ =>
      (lambdaBody_steady h.2).bind fun _ => Steady.pure
  | methodReference target name => exact methodReferenceText_steady h
  | classLiteral type => exact Steady.ofType (runtimeName_rooted _)

theorem exprOf_steady {node : Tree} {form : Form Tree} (h : ∀ t ∈ form.children, Sound t) :
    Steady K (exprOf node (form.map Tree.rendering)) := by
  cases form with
  | expr form => exact exprForm_steady h
  | _ => exact Steady.unsupported

end Expressions

/-! ### Statements -/

section Statements

theorem typedVariable_steady (name : Word) (dimensions : Int) :
    Steady Declaring (typedVariable name dimensions) :=
  declaredType_steady.bind fun _ =>
    (Steady.ofType (slotTypeText_rooted _)).bind fun _ => Steady.pure

theorem noVariable_steady (node : Tree) : Steady Declaring (noVariable node) := by
  have htype (t : Tree) : Steady Declaring (discard (ofType (typeText t))) :=
    (Steady.ofType (typeText_rooted t)).discard
  refine declaredType_steady.bind fun type => ?_
  split
  · exact (htype type).bind fun _ => Steady.unsupported
  · exact (htype type).bind fun _ => Steady.unsupported
  · exact Steady.unsupported

theorem localVariableOf_steady {node : Tree} {form : Form Tree}
    (h : ∀ t ∈ form.children, Sound t) :
    Steady Declaring (localVariableOf node (form.map Tree.rendering)) := by
  cases form with
  | part form =>
    cases form with
    | declarator name dimensions initial =>
      refine (typedVariable_steady name dimensions).bind fun _ => ?_
      cases initial with
      | none => exact Steady.pure
      | some t => exact (h t List.mem_cons_self).expr.bind fun _ => Steady.pure
    | _ => exact noVariable_steady node
  | _ => exact noVariable_steady node

/-- A local declaration in a body gives its variables their type. -/
theorem localDeclaration_steady {node : Tree} {type : Option Tree} {bindings : List Tree}
    {isConstant : Bool} (annotations : List Tree) (htype : type.isSome) (hbindings : ∀ t ∈ bindings, Sound t)
    (hannotations : ∀ t ∈ annotations, Sound t) :
    Steady Within (localDeclaration node type (bindings.map Tree.rendering) isConstant
      (annotations.map Tree.rendering)) := by
  refine Steady.read_bind fun scope hscope => ?_
  have hwithin : ¬ (!scope.inMethod) = true := by simp [show scope.inMethod = true from hscope]
  rw [if_neg hwithin]
  refine (notes_steady hannotations).bind fun _ => Steady.bind ?_ fun _ => Steady.pure
  refine Steady.withReader (L := Declaring) ?_ (fun _ _ => htype) fun _ => rfl
  exact Steady.mapM (List.forall_mem_map.2 fun t ht => (hbindings t ht).localVariable)

theorem declarationOf_steady {node : Tree} (htyped : node.isTyped)
    (h : ∀ t ∈ node.form.children, Sound t) (isResource : Bool) :
    Steady Within (declarationOf node (node.form.map Tree.rendering) isResource) := by
  unfold Tree.isTyped at htyped
  cases hform : node.form with
  | stmt form =>
    rw [hform] at h htyped
    cases form with
    | localVariable type bindings modifiers annotations =>
      simp only [Form.children, StmtForm.children, List.forall_mem_append] at h
      have htype : (slotNode (type.map Tree.rendering)).isSome := by simpa [slotNode] using htyped
      cases isResource with
      | false => exact localDeclaration_steady annotations htype h.1.2 h.2
      | true => exact localDeclaration_steady [] htype h.1.2 (List.forall_mem_nil _)
    | _ => cases isResource <;> exact Steady.unsupported
  | member form =>
    rw [hform] at h htyped
    cases form with
    | field type bindings modifiers annotations =>
      simp only [Form.children, MemberForm.children, List.forall_mem_append] at h
      have htype : (slotNode (type.map Tree.rendering)).isSome := by simpa [slotNode] using htyped
      cases isResource with
      | false => exact Steady.unsupported
      | true => exact localDeclaration_steady [] htype h.1.2 (List.forall_mem_nil _)
    | _ => cases isResource <;> exact Steady.unsupported
  | _ => cases isResource <;> exact Steady.unsupported

theorem armLines_steady {binding : Word} {arm : CatchArm} (h : Steady Within arm.lines) :
    Steady Within (armLines binding arm) :=
  Steady.indent.bind fun _ => h.bind fun _ => Steady.pure

theorem armBlock_steady {binding : Word} {arm : CatchArm} (h : Steady Within arm.lines) :
    Steady Within (armBlock binding arm) :=
  Steady.indent.bind fun _ => ((armLines_steady h).indented level_within).bind fun _ => Steady.pure

theorem chainRest_steady {binding : Word} {arms : List CatchArm}
    (h : ∀ arm ∈ arms, Steady Within arm.lines) : Steady Within (chainRest binding arms) := by
  induction arms with
  | nil =>
    exact Steady.indent.bind fun _ => (Steady.indent.indented level_within).bind fun _ => Steady.pure
  | cons arm rest ih =>
    rw [List.forall_mem_cons] at h
    unfold chainRest
    split
    · exact (armBlock_steady h.1).bind fun _ => Steady.pure
    · exact (typeTest_steady fun _ => Steady.pure).bind fun _ =>
        (armBlock_steady h.1).bind fun _ => (ih h.2).bind fun _ => Steady.pure

theorem chainLines_steady {binding : Word} {arms : List CatchArm}
    (h : ∀ arm ∈ arms, Steady Within arm.lines) : Steady Within (chainLines binding arms) := by
  cases arms with
  | nil => exact Steady.stop rfl
  | cons arm rest =>
    rw [List.forall_mem_cons] at h
    simp only [chainLines]
    split
    · exact armLines_steady h.1
    · exact Steady.indent.bind fun _ => (typeTest_steady fun _ => Steady.pure).bind fun _ =>
        (armBlock_steady h.1).bind fun _ => (chainRest_steady h.2).bind fun _ => Steady.pure

theorem catchText_steady {clauses : List Tree} (h : ∀ t ∈ clauses, Sound t) :
    Steady Within (catchText (clauses.map Tree.rendering)) := by
  have harms : ∀ arm ∈ catchArms (clauses.map Tree.rendering), Steady Within arm.lines := by
    intro arm harm
    obtain ⟨r, hr, harm⟩ := List.mem_flatMap.1 harm
    obtain ⟨t, ht, rfl⟩ := List.mem_map.1 hr
    obtain ⟨caught, -, rfl⟩ := List.mem_map.1 harm
    exact (h t ht).lines nofun
  cases clauses with
  | nil => exact Steady.pure
  | cons first rest =>
    exact Steady.indent.bind fun _ =>
      ((chainLines_steady harms).indented level_within).bind fun _ => Steady.pure

theorem tryBody_steady {body : Option Tree} {resources : List Tree}
    (hbody : ∀ t ∈ body.toList, Sound t) (hresources : ∀ t ∈ resources, Sound t) :
    Steady Within (tryBody (body.map Tree.rendering) (resources.map Tree.rendering)) := by
  cases body with
  | none => exact Steady.unsupported
  | some t =>
    have ht := hbody t (by simp)
    refine Steady.ite (fun _ => ht.block true) fun _ => Steady.indent.bind fun _ => ?_
    refine ((ht.lines ?_).indented level_within).bind fun _ => Steady.pure
    intro child hchild
    obtain ⟨r, hr, rfl⟩ := List.mem_map.1 hchild
    obtain ⟨resource, hresource, rfl⟩ := List.mem_map.1 hr
    exact Steady.indent.bind fun _ => ((hresources resource hresource).declaration true).bind
      fun _ => Steady.withComment

theorem linesOf_steady {node : Tree} {form : Form Tree} (h : ∀ t ∈ form.children, Sound t)
    {before : List Child} (hbefore : ∀ child ∈ before, Steady Within child.text) :
    Steady Within (linesOf node (form.map Tree.rendering) before) := by
  have hstatements (statements : List Tree) (hsound : ∀ t ∈ statements, Sound t) :
      Steady Within (childChunks node.trivia.orphans
        (before ++ (statements.map Tree.rendering).map (·.stmtChild))) := by
    refine chunksFrom_steady (List.forall_mem_append.2 ⟨hbefore, ?_⟩)
    exact List.forall_mem_map.2 (List.forall_mem_map.2 fun t ht => (hsound t ht).stmt)
  cases form with
  | stmt form =>
    cases form with
    | block statements => exact hstatements statements h
    | _ => exact Steady.unsupported
  | part form =>
    cases form with
    | switchCase labels statements =>
      exact hstatements statements fun t ht => h t (List.mem_append_right _ ht)
    | catchClause binding body =>
      cases body with
      | none => exact Steady.unsupported
      | some body => exact (h body (by simp [Form.children, PartForm.children])).lines hbefore
    | _ => exact Steady.unsupported
  | _ => exact Steady.unsupported

theorem caseLinesOf_steady {node : Tree} {form : Form Tree} (h : ∀ t ∈ form.children, Sound t) :
    Steady Within (caseLinesOf node (form.map Tree.rendering)) := by
  cases form with
  | part form =>
    cases form with
    | switchCase labels statements =>
      simp only [Form.children, PartForm.children, List.forall_mem_append] at h
      refine Steady.indent.bind fun _ => Steady.bind (Steady.mapM ?_) fun _ => ?_
      · exact List.forall_mem_map.2 fun t ht => (h.1 t ht).expr.bind fun _ => Steady.pure
      · refine Steady.bind (Steady.indented level_within (Steady.mapM ?_)) fun _ => Steady.pure
        exact List.forall_mem_map.2 fun t ht => (h.2 t ht).stmt
    | _ => exact Steady.unsupported
  | _ => exact Steady.unsupported

theorem elseText_steady {t : Tree} (h : Sound t) : Steady Within (elseText t.rendering) := by
  unfold elseText
  split
  · exact h.bareStmt.bind fun _ => Steady.pure
  · exact h.body

theorem loopStartText_steady {start : LoopStart Tree} (h : ∀ t ∈ start.children, Sound t) :
    Steady Within (loopStartText (start.map Tree.rendering)) := by
  cases start with
  | absent => exact Steady.pure
  | declaration t => exact (h t List.mem_cons_self).declaration false
  | expressions ts => exact argumentsText_steady h

theorem stmtForm_steady {node : Tree} {declaration block : Render String} {form : StmtForm Tree}
    (hdeclaration : Steady Within declaration) (hblock : Steady Within block)
    (h : ∀ t ∈ form.children, Sound t) :
    Steady Within (stmtForm node declaration block (form.map Tree.rendering)) := by
  cases form with
  | block => exact hblock
  | localVariable => exact Steady.indent.bind fun _ => hdeclaration.bind fun _ => Steady.pure
  | evaluate | throwing =>
    exact Steady.indent.bind fun _ => (slotExpr_steady h).bind fun _ => Steady.pure
  | breaking | continuing | empty => exact Steady.indent.bind fun _ => Steady.pure
  | bare => exact Steady.unsupported
  | returning expression =>
    cases expression with
    | none => exact Steady.indent.bind fun _ => Steady.pure
    | some t =>
      exact Steady.indent.bind fun _ => (h t List.mem_cons_self).expr.bind fun _ => Steady.pure
  | ifElse condition whenTrue whenFalse =>
    simp only [StmtForm.children, List.forall_mem_append] at h
    refine Steady.indent.bind fun _ => (slotExpr_steady h.1.1).bind fun _ =>
      (slotBody_steady h.1.2).bind fun _ => ?_
    cases whenFalse with
    | none => exact Steady.pure
    | some t => exact (elseText_steady (h.2 t (by simp))).bind fun _ => Steady.pure
  | whileLoop condition body | doLoop condition body =>
    simp only [StmtForm.children, List.forall_mem_append] at h
    exact Steady.indent.bind fun _ => (slotExpr_steady h.1).bind fun _ =>
      (slotBody_steady h.2).bind fun _ => Steady.pure
  | forLoop start condition update body =>
    simp only [StmtForm.children, List.forall_mem_append] at h
    refine Steady.indent.bind fun _ => (loopStartText_steady h.1.1.1).bind fun _ =>
      (optionalText_steady fun t ht => (h.1.1.2 t ht).expr).bind fun _ =>
      (argumentsText_steady h.1.2).bind fun _ => Steady.bind ?_ fun _ => Steady.pure
    cases body with
    | none => exact Steady.pure
    | some t => exact (h.2 t (by simp)).body
  | forEach binding iterable body =>
    simp only [StmtForm.children, List.forall_mem_append] at h
    refine Steady.indent.bind fun _ => ?_
    split
    · exact (slotExpr_steady h.1.2).bind fun _ => (slotBody_steady h.2).bind fun _ => Steady.pure
    · exact Steady.unsupported
  | switch selector cases =>
    simp only [StmtForm.children, List.forall_mem_append] at h
    refine Steady.indent.bind fun _ => (slotExpr_steady h.1).bind fun _ => ?_
    refine Steady.bind (Steady.indented level_within (Steady.mapM ?_)) fun _ => Steady.pure
    exact List.forall_mem_map.2 fun t ht => (h.2 t ht).caseLines
  | tryCatch body resources catches finalBlock =>
    simp only [StmtForm.children, List.forall_mem_append] at h
    exact Steady.reportIf.bind fun _ => Steady.indent.bind fun _ =>
      (tryBody_steady h.1.1.1 h.1.1.2).bind fun _ => (catchText_steady h.1.2).bind fun _ =>
      (optionalText_steady fun t ht => (h.2 t ht).block true).bind fun _ => Steady.pure
  | synchronized lock body =>
    simp only [StmtForm.children, List.forall_mem_append] at h
    exact slotBlock_steady false h.2
  | assertion condition message =>
    simp only [StmtForm.children, List.forall_mem_append] at h
    exact Steady.indent.bind fun _ => (slotExpr_steady h.1).bind fun _ =>
      (optionalText_steady fun t ht => (h.2 t ht).expr).bind fun _ => Steady.pure
  | labeled label statement =>
    refine Steady.indent.bind fun _ => Steady.bind ?_ fun _ => Steady.pure
    cases statement with
    | none => exact Steady.unsupported
    | some t => exact (h t (by simp [StmtForm.children])).stmt
  | constructorCall isThis arguments =>
    exact Steady.indent.bind fun _ => (argumentsText_steady h).bind fun _ =>
      Steady.reportIf.bind fun _ => Steady.pure
  | localType declaration =>
    refine Steady.read_bind fun _ _ => Steady.ite (fun _ => Steady.stop_bind) fun _ => ?_
    cases declaration with
    | none => exact Steady.unsupported
    | some t => exact (h t (by simp [StmtForm.children])).typeDeclaration

theorem bareStmtOf_steady {node : Tree} {declaration block : Render String} {form : Form Tree}
    (hdeclaration : Steady Within declaration) (hblock : Steady Within block)
    (h : ∀ t ∈ form.children, Sound t) :
    Steady Within (bareStmtOf node declaration block (form.map Tree.rendering)) := by
  cases form with
  | stmt form => exact stmtForm_steady hdeclaration hblock h
  | _ => exact Steady.unsupported

end Statements

end Recast.Render
