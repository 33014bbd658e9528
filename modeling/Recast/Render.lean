import Recast.Render.Declarations

/-!
Syntax trees as TypeScript.

`Tree.rendering` puts the renderings of a node together. A rendering is run in a scope, and leaves a
scope behind: the same one, or, where it stopped, the one with the level at which it did.
-/

namespace Recast

/-- How a node is written, from the renderings of its children. -/
def Render.renderingOf (node : Tree) (layer : Form Rendering) : Rendering :=
  let declaration := declarationOf node layer
  let typeDeclaration := typeDeclarationOf node layer
  let blank : Rendering :=
    { node
      expr := exprOf node layer
      note := annotationOf node layer
      part := partOf node layer
      localVariable := localVariableOf node layer
      fieldVariable := fieldVariableOf node layer
      declaration
      bareStmt := unsupported (.statement node.kind)
      lines := linesOf node layer
      caseLines := caseLinesOf node layer
      member := memberOf node layer
      typeDeclaration
      topLevel := topLevelOf node typeDeclaration layer
      unit := unitOf node layer }
  { blank with bareStmt := bareStmtOf node (declaration false) (blank.block false) layer }

/-- How a node is written, by the place where it stands. -/
def Tree.rendering : Tree → Rendering := Tree.fold Render.renderingOf

namespace Render

variable {α : Type}

/-- What a run of rendering gives: a result or a fault, the scope left behind, and diagnostics. -/
structure Outcome (α : Type) where
  result : Except Fault α
  scope : Scope
  diagnostics : List Diagnostic

/-- Runs a rendering in a scope. -/
def runIn (scope : Scope) (x : Render α) : Outcome α :=
  match (x.run scope).run.run [] with
  | (.ok a, diagnostics) => ⟨.ok a, scope, diagnostics⟩
  | (.error halt, diagnostics) =>
    ⟨.error halt.fault, { scope with level := halt.level }, diagnostics⟩

/-- Renders a unit. -/
def renderUnit (scope : Scope) (unit : Tree) (file : String) : Outcome String :=
  runIn (scope.forFile file) unit.rendering.unit

end Render

end Recast
