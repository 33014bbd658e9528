import Mathlib
import Recast.Proofs.Render.Built.Statements

/-!
How declarations, types and units are put together.

With these, every rendering of every tree is built from the elementary steps (`rendering_built`).
-/

namespace Recast.Render

/-! ### Parts -/

section Parts

theorem annotationText_built {name : Word} {arguments : List Rendering}
    (h : ∀ r ∈ arguments, r.Built) : Built (annotationText name arguments) :=
  .ite (.pure _) ((parts_built h).bind fun _ => .pure _)

theorem annotationOf_built {node : Tree} {form : Form Rendering}
    (h : ∀ r ∈ form.children, r.Built) : Built (annotationOf node form) := by
  cases form with
  | part form =>
    cases form with
    | annotationUse name arguments => exact annotationText_built h
    | enumConstant name arguments body annotations =>
      simp only [Form.children, PartForm.children, List.forall_mem_append] at h
      exact annotationText_built h.1.1
    | _ => exact .unsupported
  | expr form =>
    cases form with
    | call name arguments target typeArguments =>
      simp only [Form.children, ExprForm.children, List.forall_mem_append] at h
      exact annotationText_built h.1.1
    | create type arguments body =>
      simp only [Form.children, ExprForm.children, List.forall_mem_append] at h
      exact (parts_built h.1.2).discard.bind fun _ => .unsupported
    | _ => exact .unsupported
  | stmt form =>
    cases form with
    | constructorCall isThis arguments => exact (parts_built h).discard.bind fun _ => .unsupported
    | _ => exact .unsupported
  | _ => exact .unsupported

theorem parameterText_built {name : Word} {type : Option Tree} {modifiers : List Modifier}
    {annotations : List Rendering} {isVarargs : Bool} (h : ∀ r ∈ annotations, r.Built) :
    Built (parameterText name type modifiers annotations isVarargs) := by
  refine Built.read_bind fun scope => (notes_built h).bind fun _ => ?_
  cases type with
  | none => exact .pure _
  | some type =>
    exact .ite ((Built.ofType _).bind fun _ => .pure _) ((Built.ofType _).bind fun _ => .pure _)

/-- The annotations of a declaration are among its children. -/
theorem declarationNotes_subset (form : Form Rendering) :
    declarationNotes form ⊆ form.children := by
  intro r hr
  cases form with
  | stmt form => cases form <;> simp_all [declarationNotes, Form.children, StmtForm.children]
  | member form => cases form <;> simp_all [declarationNotes, Form.children, MemberForm.children]
  | _ => simp_all [declarationNotes]

theorem partOf_built {node : Tree} {form : Form Rendering} (h : ∀ r ∈ form.children, r.Built) :
    Built (partOf node form) := by
  have hrefused : Built (do
      discard ((declarationNotes form).mapM (·.note))
      unsupported (.expression node.kind) : Render String) :=
    (notes_built fun r hr => h r (declarationNotes_subset form hr)).discard.bind fun _ =>
      .unsupported
  unfold partOf
  split
  · exact slotExpr_built h
  · exact (slotExpr_built h).bind fun _ => .pure _
  · exact parameterText_built fun r hr => h r (List.mem_append_right _ hr)
  · exact .unsupported
  · exact (slotExpr_built fun r hr => h r (List.mem_append_right _ hr)).discard.bind fun _ =>
      .unsupported
  · exact hrefused

theorem parametersText_built {parameters : List Rendering} (h : ∀ r ∈ parameters, r.Built) :
    Built (parametersText parameters) :=
  (parts_built h).bind fun _ => .pure _

theorem decoratorLines_built {annotations : List Rendering} (h : ∀ r ∈ annotations, r.Built) :
    Built (decoratorLines annotations) :=
  Built.indent.bind fun _ => (notes_built h).bind fun _ => .pure _

theorem annotationLines_built {annotations : List Rendering} (h : ∀ r ∈ annotations, r.Built) :
    Built (annotationLines annotations) := by
  refine Built.read_bind fun scope => Built.indent.bind fun _ => (notes_built h).bind fun texts => ?_
  refine (Built.ofExcept _).bind fun line => ?_
  cases line <;> exact .pure _

theorem throwsText_built (types : List Tree) : Built (throwsText types) :=
  Built.read_bind fun _ => (Built.types types).bind fun _ => Built.ofExcept _

end Parts

/-! ### Members -/

section Members

theorem fieldVariableOf_built {node : Tree} {form : Form Rendering}
    (h : ∀ r ∈ form.children, r.Built) : Built (fieldVariableOf node form) := by
  cases form with
  | part form =>
    cases form with
    | declarator name dimensions initial =>
      refine Built.read_bind fun scope => (typedVariable_built name dimensions).bind fun _ => ?_
      cases initial with
      | none => exact .pure _
      | some r =>
        refine .ite ((Built.report _ _).bind fun _ => .pure _) ?_
        exact (h r List.mem_cons_self).expr.bind fun _ => .pure _
    | _ => exact noVariable_built node
  | _ => exact noVariable_built node

theorem fieldText_built {type : Option Tree} {bindings : List Rendering} {modifiers : List Modifier}
    {annotations : List Rendering} (hbindings : ∀ r ∈ bindings, r.Built)
    (hannotations : ∀ r ∈ annotations, r.Built) :
    Built (fieldText type bindings modifiers annotations) := by
  refine Built.read_bind fun scope => Built.indent.bind fun _ =>
    (decoratorLines_built hannotations).bind fun _ => Built.bind ?_ fun _ => .pure _
  exact .declaring _ (.mapM fun r hr => (hbindings r hr).fieldVariable)

theorem methodText_built {node : Tree} {name : Word} {returnType : Option Tree}
    {parameters : List Rendering} {throws : List Tree} {body : Option Rendering}
    {modifiers : List Modifier} {annotations : List Rendering} {typeParameters : List Tree}
    (hparameters : ∀ r ∈ parameters, r.Built) (hbody : ∀ r ∈ body.toList, r.Built)
    (hannotations : ∀ r ∈ annotations, r.Built) :
    Built (methodText node name returnType parameters throws body modifiers annotations
      typeParameters) := by
  have hnotes : Built (annotationLines (annotations.filter (·.node.annotationName ≠ "Override"))) :=
    annotationLines_built fun r hr => hannotations r (List.mem_filter.1 hr).1
  refine Built.read_bind fun scope => Built.indent.bind fun _ => hnotes.bind fun _ =>
    (Built.ofType _).bind fun _ => (parametersText_built hparameters).bind fun _ =>
    (Built.ofType _).bind fun _ => (throwsText_built _).bind fun _ => ?_
  cases body with
  | none => exact .pure _
  | some r =>
    refine .ite ((Built.report _ _).bind fun _ => .pure _) ?_
    exact ((hbody r (by simp)).block true).inBody.bind fun _ => .pure _

theorem constructorText_built {parameters : List Rendering} {throws : List Tree}
    {body : Option Rendering} {modifiers : List Modifier} {annotations : List Rendering}
    (hparameters : ∀ r ∈ parameters, r.Built) (hbody : ∀ r ∈ body.toList, r.Built)
    (hannotations : ∀ r ∈ annotations, r.Built) :
    Built (constructorText parameters throws body modifiers annotations) :=
  Built.indent.bind fun _ => (decoratorLines_built hannotations).bind fun _ =>
    (parametersText_built hparameters).bind fun _ => (throwsText_built _).bind fun _ =>
    (slotBlock_built true hbody).inBody.bind fun _ => .pure _

theorem initializerText_built {node : Tree} {body : Option Rendering} {isStatic : Bool}
    (h : ∀ r ∈ body.toList, r.Built) : Built (initializerText node body isStatic) :=
  Built.read_bind fun _ => Built.indent.bind fun _ =>
    .ite .stop_bind ((slotBlock_built true h).inBody.bind fun _ => .pure _)

theorem memberOf_built {node : Tree} {form : Form Rendering} (h : ∀ r ∈ form.children, r.Built) :
    Built (memberOf node form) := by
  cases form with
  | member form =>
    cases form with
    | field type bindings modifiers annotations =>
      simp only [Form.children, MemberForm.children, List.forall_mem_append] at h
      exact fieldText_built h.1.2 h.2
    | method =>
      simp only [Form.children, MemberForm.children, List.forall_mem_append] at h
      obtain ⟨⟨⟨⟨⟨-, hparameters⟩, -⟩, hbody⟩, hannotations⟩, -⟩ := h
      exact methodText_built hparameters hbody hannotations
    | constructor =>
      simp only [Form.children, MemberForm.children, List.forall_mem_append] at h
      obtain ⟨⟨⟨⟨hparameters, -⟩, hbody⟩, hannotations⟩, -⟩ := h
      exact constructorText_built hparameters hbody hannotations
    | initializer body isStatic => exact initializerText_built h
    | _ => exact .unsupported
  | _ => exact .unsupported

end Members

/-! ### Types and units -/

section Types

theorem membersText_built {node : Tree} {members : List Rendering} (h : ∀ r ∈ members, r.Built) :
    Built (membersText node members) := by
  refine Built.indent.bind fun _ => Built.bind (.indented (.chunksFrom ?_)) fun _ => .pure _
  refine List.forall_mem_map.2 fun r hr => .ite (.pure _) ?_
  exact (h r hr).member.bind fun _ => .withComment _ _

theorem parentsText_built (keyword : String) (types : List Tree) :
    Built (parentsText keyword types) :=
  .ite (.pure _) ((Built.types types).bind fun _ => .pure _)

theorem classText_built {node : Tree} {name : Word} {modifiers : List Modifier}
    {annotations : List Rendering} {typeParameters parents interfaces : List Tree}
    {members : List Rendering} {isInterface : Bool} (hannotations : ∀ r ∈ annotations, r.Built)
    (hmembers : ∀ r ∈ members, r.Built) :
    Built (classText node name modifiers annotations typeParameters parents interfaces members
      isInterface) :=
  Built.read_bind fun _ => Built.indent.bind fun _ =>
    (decoratorLines_built hannotations).bind fun _ => (Built.ofType _).bind fun _ =>
    (parentsText_built _ _).bind fun _ => (parentsText_built _ _).bind fun _ =>
    (Built.inType _ _ _ (membersText_built hmembers)).bind fun _ => .pure _

theorem constantChild_built (r : Rendering) : Built (constantChild r).text := by
  simp only [constantChild]
  split
  · exact Built.indent.bind fun _ => .withComment _ _
  · exact .unsupported

theorem enumText_built {node : Tree} {name : Word} {modifiers : List Modifier}
    {annotations : List Rendering} {interfaces : List Tree} {constants members : List Rendering}
    (hannotations : ∀ r ∈ annotations, r.Built) :
    Built (enumText node name modifiers annotations interfaces constants members) := by
  have hchunks : Built (indented (childChunks node.trivia.orphans
      (constants.map constantChild))) :=
    .indented (.chunksFrom (List.forall_mem_map.2 fun r _ => constantChild_built r))
  refine Built.read_bind fun scope => Built.indent.bind fun _ => .ite .stop_bind ?_
  split
  · exact .stop_bind
  · exact (Built.reportIf _ _ _).bind fun _ => (annotationLines_built hannotations).bind fun _ =>
      hchunks.bind fun _ => .ite (.pure _) (.pure _)

theorem hoisted_built {outer : Word} {members : List Rendering} (h : ∀ r ∈ members, r.Built) :
    Built (hoisted outer members) :=
  .mapM fun r hr => (Built.report _ _).bind fun _ => (h r (List.mem_filter.1 hr).1).typeDeclaration

theorem typeDeclarationOf_built {node : Tree} {form : Form Rendering}
    (h : ∀ r ∈ form.children, r.Built) : Built (typeDeclarationOf node form) := by
  cases form with
  | member form =>
    cases form with
    | classType =>
      simp only [Form.children, MemberForm.children, List.forall_mem_append] at h
      exact (classText_built h.1.1.1.1 h.2).bind fun _ => (Built.withComment _ _).bind fun _ =>
        (hoisted_built h.2).bind fun _ => .pure _
    | enumType =>
      simp only [Form.children, MemberForm.children, List.forall_mem_append] at h
      exact (enumText_built h.1.1.1).bind fun _ => .withComment _ _
    | _ => exact .unsupported
  | _ => exact .unsupported

theorem headLine_built (node : Tree) (line : Option String) : Built (headLine node line) := by
  have honly : Built (headLine.commentOnly node) := by
    unfold headLine.commentOnly
    split
    · exact .commentText _
    · exact .pure _
  cases line with
  | none => exact honly
  | some line => exact .ite honly (.withComment _ _)

theorem topLevelOf_built {node : Tree} {typeDeclaration : Render String} {form : Form Rendering}
    (h : Built typeDeclaration) : Built (topLevelOf node typeDeclaration form) := by
  unfold topLevelOf
  split
  · exact Built.read_bind fun _ => (Built.ofExcept _).bind fun _ => headLine_built _ _
  · exact Built.read_bind fun _ => (Built.ofExcept _).bind fun _ => headLine_built _ _
  · exact h

theorem unitOf_built {node : Tree} {form : Form Rendering} (h : ∀ r ∈ form.children, r.Built) :
    Built (unitOf node form) := by
  cases form with
  | part form =>
    cases form with
    | unit header imports types =>
      refine Built.bind (.chunksFrom ?_) fun _ => .pure _
      exact List.forall_mem_map.2 fun r hr => (h r hr).topLevel
    | _ => exact .unsupported
  | _ => exact .unsupported

end Types

/-! ### Trees -/

theorem renderingOf_built {node : Tree} {form : Form Rendering}
    (h : ∀ r ∈ form.children, r.Built) : (renderingOf node form).Built where
  expr := exprOf_built h
  note := annotationOf_built h
  part := partOf_built h
  localVariable := localVariableOf_built h
  fieldVariable := fieldVariableOf_built h
  declaration := declarationOf_built h
  bareStmt := by
    refine bareStmtOf_built (declarationOf_built h false) ?_ h
    refine Built.indent.bind fun _ => ?_
    exact (linesOf_built h (List.forall_mem_nil _)).indented.bind fun _ => .ite (.pure _) (.pure _)
  lines := linesOf_built h
  caseLines := caseLinesOf_built h
  member := memberOf_built h
  typeDeclaration := typeDeclarationOf_built h
  topLevel := topLevelOf_built (typeDeclarationOf_built h)
  unit := unitOf_built h

/-- Every rendering of every tree is built from the elementary steps. -/
theorem rendering_built (t : Tree) : t.rendering.Built := by
  induction t using Tree.induct with
  | step trivia form ih =>
    rw [Tree.rendering_eq]
    refine renderingOf_built fun r hr => ?_
    rw [Form.children_map] at hr
    obtain ⟨child, hchild, rfl⟩ := List.mem_map.1 hr
    exact ih child hchild

end Recast.Render
