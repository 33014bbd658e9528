import Mathlib
import Recast.Render

/-!
The rendering of a node, place by place.

Each way to write a node is made from the renderings of its children; these are the equations.
-/

namespace Recast.Tree

variable (t : Tree)

theorem rendering_eq : t.rendering = Render.renderingOf t (t.form.map rendering) := by
  cases t with
  | node trivia form =>
    rw [rendering, fold_node]
    rfl

theorem rendering_node : t.rendering.node = t :=
  congrArg Rendering.node t.rendering_eq

theorem rendering_expr : t.rendering.expr = Render.exprOf t (t.form.map rendering) :=
  congrArg Rendering.expr t.rendering_eq

theorem rendering_note : t.rendering.note = Render.annotationOf t (t.form.map rendering) :=
  congrArg Rendering.note t.rendering_eq

theorem rendering_part : t.rendering.part = Render.partOf t (t.form.map rendering) :=
  congrArg Rendering.part t.rendering_eq

theorem rendering_localVariable :
    t.rendering.localVariable = Render.localVariableOf t (t.form.map rendering) :=
  congrArg Rendering.localVariable t.rendering_eq

theorem rendering_fieldVariable :
    t.rendering.fieldVariable = Render.fieldVariableOf t (t.form.map rendering) :=
  congrArg Rendering.fieldVariable t.rendering_eq

theorem rendering_declaration :
    t.rendering.declaration = Render.declarationOf t (t.form.map rendering) :=
  congrArg Rendering.declaration t.rendering_eq

theorem rendering_lines : t.rendering.lines = Render.linesOf t (t.form.map rendering) :=
  congrArg Rendering.lines t.rendering_eq

theorem rendering_bareStmt : t.rendering.bareStmt =
    Render.bareStmtOf t (t.rendering.declaration false) (t.rendering.block false)
      (t.form.map rendering) := by
  rw [rendering_eq]
  rfl

theorem rendering_caseLines :
    t.rendering.caseLines = Render.caseLinesOf t (t.form.map rendering) :=
  congrArg Rendering.caseLines t.rendering_eq

theorem rendering_member : t.rendering.member = Render.memberOf t (t.form.map rendering) :=
  congrArg Rendering.member t.rendering_eq

theorem rendering_typeDeclaration :
    t.rendering.typeDeclaration = Render.typeDeclarationOf t (t.form.map rendering) :=
  congrArg Rendering.typeDeclaration t.rendering_eq

theorem rendering_topLevel : t.rendering.topLevel =
    Render.topLevelOf t t.rendering.typeDeclaration (t.form.map rendering) := by
  rw [rendering_eq]
  rfl

theorem rendering_unit : t.rendering.unit = Render.unitOf t (t.form.map rendering) :=
  congrArg Rendering.unit t.rendering_eq

/-! ### Lists of renderings -/

theorem filter_map_rendering (p : Tree → Bool) (ts : List Tree) :
    (ts.map rendering).filter (fun r => p r.node) = (ts.filter p).map rendering := by
  simp [List.filter_map, Function.comp_def, rendering_node]

/-- The package line, the imports and the types of a unit. -/
theorem map_rendering_unit (header : Option Tree) (imports types : List Tree) :
    (header.map rendering).toList ++ imports.map rendering ++ types.map rendering =
      (header.toList ++ imports ++ types).map rendering := by
  cases header <;> simp

end Recast.Tree

/-- The node in a slot that was rendered. -/
theorem Recast.Render.slotNode_rendering (slot : Option Recast.Tree) :
    slotNode (slot.map Recast.Tree.rendering) = slot := by
  cases slot with
  | none => rfl
  | some t => exact congrArg some t.rendering_node

/-- No chunk of a type body is lost where it is told whether it belongs to a field. -/
theorem Recast.Render.map_snd_fieldFlags (members : List Recast.Rendering) (chunks : List String) :
    (fieldFlags members chunks).map Prod.snd = chunks := by
  refine List.map_snd_zip ?_
  simp only [List.length_append, List.length_map, List.length_replicate]
  omega
