import Mathlib
import Recast.Proofs.Render.Steady.Statements

/-!
Units without stray declarations.

A member is steady everywhere, since a method brings the scope of a body along and a field that of a
declaration. So is a type, whose members are outside of the body that the type may stand in.
-/

namespace Recast.Render

/-! ### Declarations -/

section Declarations

variable {K : Scope → Prop}

theorem annotationOf_steady {node : Tree} {form : Form Tree} (h : ∀ t ∈ form.children, Sound t) :
    Steady K (annotationOf node (form.map Tree.rendering)) := by
  have htext (name : Word) (arguments : List Tree) (hsound : ∀ t ∈ arguments, Sound t) :
      Steady K (annotationText name (arguments.map Tree.rendering)) :=
    Steady.ite (fun _ => Steady.pure) fun _ => (parts_steady hsound).bind fun _ => Steady.pure
  cases form with
  | part form =>
    cases form with
    | annotationUse name arguments => exact htext name arguments h
    | enumConstant name arguments body annotations =>
      simp only [Form.children, PartForm.children, List.forall_mem_append] at h
      exact htext name arguments h.1.1
    | _ => exact Steady.unsupported
  | expr form =>
    cases form with
    | call name arguments target typeArguments =>
      simp only [Form.children, ExprForm.children, List.forall_mem_append] at h
      exact htext name arguments h.1.1
    | create type arguments body =>
      simp only [Form.children, ExprForm.children, List.forall_mem_append] at h
      exact (parts_steady h.1.2).discard.bind fun _ => Steady.unsupported
    | _ => exact Steady.unsupported
  | stmt form =>
    cases form with
    | constructorCall isThis arguments =>
      exact (parts_steady h).discard.bind fun _ => Steady.unsupported
    | _ => exact Steady.unsupported
  | _ => exact Steady.unsupported

theorem parameterText_steady {name : Word} {type : Option Tree} {modifiers : List Modifier}
    {annotations : List Tree} {isVarargs : Bool} (h : ∀ t ∈ annotations, Sound t) :
    Steady K (parameterText name type modifiers (annotations.map Tree.rendering) isVarargs) := by
  refine Steady.read_bind fun _ _ => (notes_steady h).bind fun _ => ?_
  cases type with
  | none => exact Steady.pure
  | some type =>
    refine Steady.ite (fun _ => ?_) fun _ => ?_
    · refine (Steady.ofType ?_).bind fun _ => Steady.pure
      exact (slotTypeText_rooted _).bind fun _ => Rooted.ok
    · exact (Steady.ofType (slotTypeText_rooted _)).bind fun _ => Steady.pure

/-- A part that is refused after the annotations of a declaration. -/
theorem refused_steady (node : Tree) (annotations : List Tree) (h : ∀ t ∈ annotations, Sound t) :
    Steady K (do
      discard ((annotations.map Tree.rendering).mapM (·.note))
      unsupported (.expression node.kind) : Render String) :=
  (notes_steady h).discard.bind fun _ => Steady.unsupported

theorem partOf_steady {node : Tree} {form : Form Tree} (h : ∀ t ∈ form.children, Sound t) :
    Steady K (partOf node (form.map Tree.rendering)) := by
  have hnone := refused_steady (K := K) node [] nofun
  cases form with
  | type | foreign => exact hnone
  | expr form =>
    cases form with
    | literal => exact Steady.unsupported
    | assign operator target value =>
      simp only [Form.children, ExprForm.children, List.forall_mem_append] at h
      exact (slotExpr_steady h.2).discard.bind fun _ => Steady.unsupported
    | _ => exact hnone
  | stmt form =>
    cases form with
    | localVariable type bindings modifiers annotations =>
      simp only [Form.children, StmtForm.children, List.forall_mem_append] at h
      exact refused_steady _ _ h.2
    | _ => exact hnone
  | member form =>
    cases form with
    | field type bindings modifiers annotations =>
      simp only [Form.children, MemberForm.children, List.forall_mem_append] at h
      exact refused_steady _ _ h.2
    | method =>
      simp only [Form.children, MemberForm.children, List.forall_mem_append] at h
      exact refused_steady _ _ h.1.2
    | constructor =>
      simp only [Form.children, MemberForm.children, List.forall_mem_append] at h
      exact refused_steady _ _ h.1.2
    | classType =>
      simp only [Form.children, MemberForm.children, List.forall_mem_append] at h
      exact refused_steady _ _ h.1.1.1.1
    | enumType =>
      simp only [Form.children, MemberForm.children, List.forall_mem_append] at h
      exact refused_steady _ _ h.1.1.1
    | _ => exact hnone
  | part form =>
    cases form with
    | annotationArgument name value =>
      cases name with
      | null => exact slotExpr_steady h
      | _ => exact (slotExpr_steady h).bind fun _ => Steady.pure
    | parameter name type modifiers annotations isVarargs =>
      simp only [Form.children, PartForm.children, List.forall_mem_append] at h
      exact parameterText_steady h.2
    | _ => exact hnone

theorem decoratorLines_steady {annotations : List Tree} (h : ∀ t ∈ annotations, Sound t) :
    Steady K (decoratorLines (annotations.map Tree.rendering)) :=
  Steady.indent.bind fun _ => (notes_steady h).bind fun _ => Steady.pure

theorem annotationLines_steady {annotations : List Tree} (h : ∀ t ∈ annotations, Sound t) :
    Steady K (annotationLines (annotations.map Tree.rendering)) := by
  refine Steady.hooks_bind fun scope hhooks => Steady.indent.bind fun _ => (notes_steady h).bind
    fun texts => (Steady.ofExcept (hhooks.annotationsLine texts)).bind fun line => ?_
  split <;> exact Steady.pure

theorem parametersText_steady {parameters : List Tree} (h : ∀ t ∈ parameters, Sound t) :
    Steady K (parametersText (parameters.map Tree.rendering)) :=
  (parts_steady h).bind fun _ => Steady.pure

theorem throwsText_steady (types : List Tree) : Steady K (throwsText types) :=
  Steady.hooks_bind fun _ hhooks => (types_steady types).bind fun _ =>
    Steady.ofExcept (hhooks.throwsSuffix _)

theorem fieldVariableOf_steady {node : Tree} {form : Form Tree}
    (h : ∀ t ∈ form.children, Sound t) :
    Steady Declaring (fieldVariableOf node (form.map Tree.rendering)) := by
  cases form with
  | part form =>
    cases form with
    | declarator name dimensions initial =>
      refine Steady.read_bind fun _ _ => (typedVariable_steady name dimensions).bind fun _ => ?_
      cases initial with
      | none => exact Steady.pure
      | some t =>
        refine Steady.ite (fun _ => Steady.report.bind fun _ => Steady.pure) fun _ => ?_
        exact (h t List.mem_cons_self).expr.bind fun _ => Steady.pure
    | _ => exact noVariable_steady node
  | _ => exact noVariable_steady node

/-- A field declaration gives its variables their type. -/
theorem fieldText_steady {type : Option Tree} {bindings annotations : List Tree}
    {modifiers : List Modifier} (htype : type.isSome) (hbindings : ∀ t ∈ bindings, Sound t)
    (hannotations : ∀ t ∈ annotations, Sound t) :
    Steady K (fieldText type (bindings.map Tree.rendering) modifiers
      (annotations.map Tree.rendering)) := by
  refine Steady.read_bind fun _ _ => Steady.indent.bind fun _ =>
    (decoratorLines_steady hannotations).bind fun _ => Steady.bind ?_ fun _ => Steady.pure
  refine Steady.withReader (L := Declaring) ?_ (fun _ _ => htype) fun _ => rfl
  exact Steady.mapM (List.forall_mem_map.2 fun t ht => (hbindings t ht).fieldVariable)

theorem methodText_steady {node : Tree} {name : Word} {returnType : Option Tree}
    {parameters : List Tree} {throws : List Tree} {body : Option Tree} {modifiers : List Modifier}
    {annotations : List Tree} {typeParameters : List Tree}
    (hparameters : ∀ t ∈ parameters, Sound t) (hbody : ∀ t ∈ body.toList, Sound t)
    (hannotations : ∀ t ∈ annotations, Sound t) :
    Steady K (methodText node name returnType (parameters.map Tree.rendering) throws
      (body.map Tree.rendering) modifiers (annotations.map Tree.rendering) typeParameters) := by
  have hnotes : Steady K (annotationLines ((annotations.map Tree.rendering).filter
      (·.node.annotationName ≠ "Override"))) := by
    rw [Tree.filter_map_rendering (fun t => t.annotationName ≠ "Override")]
    exact annotationLines_steady fun t ht => hannotations t (List.mem_filter.1 ht).1
  refine Steady.read_bind fun _ _ => Steady.indent.bind fun _ => hnotes.bind fun _ =>
    (Steady.ofType (typeParametersText_rooted _)).bind fun _ =>
    (parametersText_steady hparameters).bind fun _ =>
    (Steady.ofType (slotTypeText_rooted _)).bind fun _ => (throwsText_steady _).bind fun _ => ?_
  cases body with
  | none => exact Steady.pure
  | some t =>
    refine Steady.ite (fun _ => Steady.report.bind fun _ => Steady.pure) fun _ => ?_
    refine Steady.bind ?_ fun _ => Steady.pure
    exact ((hbody t (by simp)).block true).withReader (fun _ _ => rfl) fun _ => rfl

theorem bodyBlock_steady {body : Option Tree} (h : ∀ t ∈ body.toList, Sound t) :
    Steady K (inBody (slotBlock true (body.map Tree.rendering))) :=
  (slotBlock_steady true h).withReader (fun _ _ => rfl) fun _ => rfl

theorem memberOf_steady {node : Tree} (htyped : node.isTyped)
    (h : ∀ t ∈ node.form.children, Sound t) :
    Steady K (memberOf node (node.form.map Tree.rendering)) := by
  unfold Tree.isTyped at htyped
  cases hform : node.form with
  | member form =>
    rw [hform] at h htyped
    cases form with
    | field type bindings modifiers annotations =>
      simp only [Form.children, MemberForm.children, List.forall_mem_append] at h
      exact fieldText_steady (by simpa [slotNode] using htyped) h.1.2 h.2
    | method =>
      simp only [Form.children, MemberForm.children, List.forall_mem_append] at h
      obtain ⟨⟨⟨⟨⟨-, hparameters⟩, -⟩, hbody⟩, hannotations⟩, -⟩ := h
      exact methodText_steady hparameters hbody hannotations
    | constructor =>
      simp only [Form.children, MemberForm.children, List.forall_mem_append] at h
      obtain ⟨⟨⟨⟨hparameters, -⟩, hbody⟩, hannotations⟩, -⟩ := h
      exact Steady.indent.bind fun _ => (decoratorLines_steady hannotations).bind fun _ =>
        (parametersText_steady hparameters).bind fun _ => (throwsText_steady _).bind fun _ =>
        (bodyBlock_steady hbody).bind fun _ => Steady.pure
    | initializer body isStatic =>
      refine Steady.read_bind fun _ _ => Steady.indent.bind fun _ => ?_
      refine Steady.ite (fun _ => Steady.stop_bind) fun _ => ?_
      exact (bodyBlock_steady h).bind fun _ => Steady.pure
    | _ => exact Steady.unsupported
  | _ => exact Steady.unsupported

theorem membersText_steady {node : Tree} {members : List Tree} (h : ∀ t ∈ members, Sound t) :
    Steady (fun _ => True) (membersText node (members.map Tree.rendering)) := by
  refine Steady.indent.bind fun _ => Steady.bind (Steady.indented level_any ?_) fun _ => Steady.pure
  refine chunksFrom_steady (List.forall_mem_map.2 (List.forall_mem_map.2 fun t ht => ?_))
  exact Steady.ite (fun _ => Steady.pure) fun _ => (h t ht).member.bind fun _ => Steady.withComment

theorem parentsText_steady (keyword : String) (types : List Tree) :
    Steady K (parentsText keyword types) :=
  Steady.ite (fun _ => Steady.pure) fun _ => (types_steady types).bind fun _ => Steady.pure

/-- The members of a type are not in the body that the type may stand in. -/
theorem classText_steady {node : Tree} {name : Word} {modifiers : List Modifier}
    {annotations typeParameters parents interfaces members : List Tree} {isInterface : Bool}
    (hannotations : ∀ t ∈ annotations, Sound t) (hmembers : ∀ t ∈ members, Sound t) :
    Steady K (classText node name modifiers (annotations.map Tree.rendering) typeParameters parents
      interfaces (members.map Tree.rendering) isInterface) := by
  refine Steady.read_bind fun _ _ => Steady.indent.bind fun _ =>
    (decoratorLines_steady hannotations).bind fun _ =>
    (Steady.ofType (typeParametersText_rooted _)).bind fun _ =>
    (parentsText_steady _ _).bind fun _ => (parentsText_steady _ _).bind fun _ =>
    Steady.bind ?_ fun _ => Steady.pure
  exact (membersText_steady hmembers).withReader (fun _ _ => True.intro) fun _ => rfl

theorem enumText_steady {node : Tree} {name : Word} {modifiers : List Modifier}
    {annotations interfaces : List Tree} {constants members : List Rendering}
    (hannotations : ∀ t ∈ annotations, Sound t) :
    Steady K (enumText node name modifiers (annotations.map Tree.rendering) interfaces constants
      members) := by
  have hconstant (r : Rendering) : Steady (fun _ => True) (constantChild r).text := by
    simp only [constantChild]
    split
    · exact Steady.indent.bind fun _ => Steady.withComment
    · exact Steady.unsupported
  have hchunks : Steady K (indented (childChunks node.trivia.orphans
      (constants.map constantChild))) := by
    refine Steady.withReader (L := fun _ => True) ?_ (fun _ _ => True.intro) fun _ => rfl
    exact chunksFrom_steady (List.forall_mem_map.2 fun r _ => hconstant r)
  refine Steady.read_bind fun _ _ => Steady.indent.bind fun _ => ?_
  refine Steady.ite (fun _ => Steady.stop_bind) fun _ => ?_
  split
  · exact Steady.stop_bind
  · refine Steady.reportIf.bind fun _ => (annotationLines_steady hannotations).bind fun _ =>
      hchunks.bind fun _ => ?_
    exact Steady.ite (fun _ => Steady.pure) fun _ => Steady.pure

theorem hoisted_steady {outer : Word} {members : List Tree} (h : ∀ t ∈ members, Sound t) :
    Steady K (hoisted outer (members.map Tree.rendering)) := by
  refine Steady.mapM fun r hr => Steady.report.bind fun _ => ?_
  obtain ⟨t, ht, rfl⟩ := List.mem_map.1 (List.mem_filter.1 hr).1
  exact (h t ht).typeDeclaration

theorem typeDeclarationOf_steady {node : Tree} {form : Form Tree}
    (h : ∀ t ∈ form.children, Sound t) :
    Steady K (typeDeclarationOf node (form.map Tree.rendering)) := by
  cases form with
  | member form =>
    cases form with
    | classType name modifiers annotations typeParameters parents interfaces members isInterface =>
      simp only [Form.children, MemberForm.children, List.forall_mem_append] at h
      exact (classText_steady h.1.1.1.1 h.2).bind fun _ => Steady.withComment.bind fun _ =>
        (hoisted_steady h.2).bind fun _ => Steady.pure
    | enumType name modifiers annotations interfaces constants members =>
      simp only [Form.children, MemberForm.children, List.forall_mem_append] at h
      exact (enumText_steady h.1.1.1).bind fun _ => Steady.withComment
    | _ => exact Steady.unsupported
  | _ => exact Steady.unsupported

theorem headLine_steady {node : Tree} {line : Option String} : Steady K (headLine node line) := by
  have honly : Steady K (headLine.commentOnly node) := by
    unfold headLine.commentOnly
    split
    · exact Steady.commentText
    · exact Steady.pure
  cases line with
  | none => exact honly
  | some line => exact Steady.ite (fun _ => honly) fun _ => Steady.withComment

theorem topLevelOf_steady {node : Tree} {typeDeclaration : Render String} {layer : Form Rendering}
    (h : Steady K typeDeclaration) : Steady K (topLevelOf node typeDeclaration layer) := by
  unfold topLevelOf
  split
  · exact Steady.hooks_bind fun _ hhooks =>
      (Steady.ofExcept (hhooks.onPackage _)).bind fun _ => headLine_steady
  · exact Steady.hooks_bind fun _ hhooks =>
      (Steady.ofExcept (hhooks.onImport _)).bind fun _ => headLine_steady
  · exact h

end Declarations

/-! ### Trees and units -/

/-- A node whose declarations have types is rendered without stray ones. -/
theorem sound_of_typed {t : Tree} (h : t.Everywhere (·.isTyped)) : Sound t := by
  induction t using Tree.induct with
  | step trivia form ih =>
    have htyped := h.self
    replace ih : ∀ child ∈ (Tree.node trivia form).form.children, Sound child :=
      fun child hchild => ih child hchild (h.child hchild)
    have hlines {before : List Child} (hbefore : ∀ child ∈ before, Steady Within child.text) :
        Steady Within ((Tree.node trivia form).rendering.lines before) := by
      rw [Tree.rendering_lines]
      exact linesOf_steady ih hbefore
    have hdeclaration (isResource : Bool) :
        Steady Within ((Tree.node trivia form).rendering.declaration isResource) := by
      rw [Tree.rendering_declaration]
      exact declarationOf_steady htyped ih isResource
    have htype {K : Scope → Prop} : Steady K (Tree.node trivia form).rendering.typeDeclaration := by
      rw [Tree.rendering_typeDeclaration]
      exact typeDeclarationOf_steady ih
    exact {
      expr := by
        rw [Tree.rendering_expr]
        exact exprOf_steady ih
      note := by
        rw [Tree.rendering_note]
        exact annotationOf_steady ih
      part := by
        rw [Tree.rendering_part]
        exact partOf_steady ih
      localVariable := by
        rw [Tree.rendering_localVariable]
        exact localVariableOf_steady ih
      fieldVariable := by
        rw [Tree.rendering_fieldVariable]
        exact fieldVariableOf_steady ih
      declaration := hdeclaration
      bareStmt := by
        rw [Tree.rendering_bareStmt]
        exact bareStmtOf_steady (hdeclaration false) (block_steady false (hlines nofun)) ih
      lines := hlines
      caseLines := by
        rw [Tree.rendering_caseLines]
        exact caseLinesOf_steady ih
      member := by
        rw [Tree.rendering_member]
        exact memberOf_steady htyped ih
      typeDeclaration := htype
      topLevel := by
        rw [Tree.rendering_topLevel]
        exact topLevelOf_steady htype }

theorem unit_steady {K : Scope → Prop} {t : Tree} (h : ∀ child ∈ t.form.children, Sound child) :
    Steady K t.rendering.unit := by
  rw [t.rendering_unit]
  cases hform : t.form with
  | part form =>
    cases form with
    | unit header imports types =>
      rw [hform] at h
      simp only [unitOf, Form.map, PartForm.map]
      rw [Tree.map_rendering_unit]
      refine Steady.bind (chunksFrom_steady ?_) fun _ => Steady.pure
      exact List.forall_mem_map.2 (List.forall_mem_map.2 fun t ht => (h t ht).topLevel)
    | _ => exact Steady.unsupported
  | _ => exact Steady.unsupported

/-- Rendering a unit never stops at a local declaration outside a body, nor at a variable outside a
declaration, wherever lambdas, local types, nested types and annotations stand, and whatever the hooks
of the caller do but report one themselves. A declaration always has a type; only the layer of a tree
leaves room for none. -/
theorem renderUnit_ne_stray {unit : Tree} (htyped : unit.Everywhere (·.isTyped)) {scope : Scope}
    (hhooks : scope.hooks.IsSteady) (file : String) :
    (∀ line, (renderUnit scope unit file).result ≠ .error (.broken (.strayLocal line))) ∧
      (renderUnit scope unit file).result ≠ .error (.broken .strayVariable) := by
  have hunit : Steady (fun _ => True) unit.rendering.unit :=
    unit_steady fun child hchild => sound_of_typed (htyped.child hchild)
  have hfile : (scope.forFile file).hooks.IsSteady := hhooks
  have hresult : NeverStray (renderUnit scope unit file).result := hunit.neverStray_runIn hfile
  constructor
  · intro line hline
    cases hresult _ hline
  · intro hvariable
    cases hresult _ hvariable

/-! ### A type in a lambda -/

/-- A class with a field whose initial value is a lambda, in which a class stands before a local
variable. -/
def lambdaUnit : Tree :=
  let number : Option Tree := some (.node {} (.type (.primitive (.text "number"))))
  let declared (name value : String) : Tree := .node {} (.part (.declarator (.text name) 0
    (some (.node {} (.expr (.literal (.text value)))))))
  let inner : Tree := .node {} (.member (.classType (.text "Inner") [] [] [] [] []
    [.node {} (.member (.field number [declared "n" "1"] [] []))] false))
  let block : Tree := .node {} (.stmt (.block
    [.node {} (.stmt (.localType (some inner))),
     .node {} (.stmt (.localVariable number [declared "x" "2"] [] []))]))
  let task : Tree := .node {} (.member (.field
    (some (.node {} (.type (.named (.text "Task") none none false))))
    [.node {} (.part (.declarator (.text "task") 0
      (some (.node {} (.expr (.lambda [] (some block)))))))] [] []))
  .node {} (.part (.unit none []
    [.node {} (.member (.classType (.text "Outer") [] [] [] [] [] [task] false))]))

/-- The statements after a class in a lambda are in the lambda's body again. -/
theorem renderUnit_ne_stray_lambdaUnit :
    lambdaUnit.walk.all (·.isTyped) ∧
      (renderUnit {} lambdaUnit "").result = .ok
        ("class Outer \x7b\n  task: Task = () => \x7b\n    class Inner \x7b\n"
          ++ "      n: number = 1;\n    \x7d\n    let x: number = 2;\n  \x7d;\n\x7d\n") ∧
      (∀ line, (renderUnit {} lambdaUnit "").result ≠ .error (.broken (.strayLocal line))) ∧
      (renderUnit {} lambdaUnit "").result ≠ .error (.broken .strayVariable) := by
  have htyped : lambdaUnit.walk.all (·.isTyped) := by decide +kernel
  exact ⟨htyped, by decide +kernel,
    renderUnit_ne_stray (List.all_eq_true.1 htyped) (Hooks.isSteady_ofConfig {}) ""⟩

end Recast.Render
