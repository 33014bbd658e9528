import Recast.Config.Resolve
import Recast.Diagnostic
import Recast.Pass.Table

/-!
The passes and imports of a unit.

`select` goes once over the imports of a unit. An import with an entry in the table asks for the
entry's pass and is dropped; its comment stays with the unit. Any other import is resolved against
the modules and becomes an encoded specifier, or a wildcard import where no module maps it. Last,
the classes of other files in the same directory are imported, as far as the unit uses them and
neither declares nor imports their names. Of equal imports the first stays.
-/

namespace Recast.Pass

/-- What selection knows about a unit's surroundings. -/
structure Surroundings where
  modules : List ModuleMap
  /-- The module that the unit belongs to. -/
  moduleName : String
  file : String := ""
  unresolvedImports : ImportPolicy := .wildcard
  /-- The types declared in other files of the same directory. -/
  siblings : List String := []

/-- What has been selected so far. -/
structure Selection where
  passes : List Pass := mandatory
  imports : List Tree := []
  /-- The simple names that the unit imports itself. -/
  explicitNames : List String := []
  /-- The comments of dropped imports. -/
  orphans : List Comment := []
  diagnostics : List Diagnostic := []

/-- The entries of the table that an import hits. -/
def hits (decl : ImportName) : List Registration :=
  if decl.isAsterisk ∧ ¬ decl.isStatic then lookupPackage decl.text
  else (lookup decl.qualifier decl.identifier).toList

/-- Takes an entry's pass, if it is not yet among the passes, with the imports it needs. -/
def take (selection : Selection) (entry : Registration) : Except ConfigFault Selection :=
  match entry.pass with
  | none => return selection
  | some pass =>
    if pass ∈ selection.passes then return selection
    else do
      let emitted ← entry.emits.mapM (·.declaration)
      return { selection with
        passes := selection.passes ++ [pass]
        imports := selection.imports ++ emitted }

/-- The name that an import is resolved by, and whether it names a package. A static import of a
member is resolved by the member's class. -/
def resolvedBy (decl : ImportName) : String × Bool :=
  if decl.isStatic then
    (if decl.isAsterisk then decl.text else decl.qualifier, false)
  else (decl.text, decl.isAsterisk)

/-- An import with its specifier for a name, or as a wildcard import where no module maps it. -/
def settleImport (around : Surroundings) (package : String) (trivia : Trivia)
    (decl : ImportName) : Except ConfigFault (Tree × List Diagnostic) := do
  let (target, isPackage) := resolvedBy decl
  let trivia : Trivia := { position := trivia.position, comment := trivia.comment }
  match ← Config.resolveName around.modules target around.moduleName package isPackage with
  | some specifier =>
    let name ← Specifier.importName specifier.display decl.identifier
    return (.node trivia (.part (.importing { decl with name := .text name, encoded := true })), [])
  | none =>
    match around.unresolvedImports with
    | .fail => throw (.unresolvedImport decl.text)
    | .wildcard =>
      return (.node trivia (.part (.importing { decl with isAsterisk := true, encoded := false })),
        [⟨.unresolvedImport decl.text, around.file, trivia.line?⟩])

/-- One import of the unit. -/
def selectImport (around : Surroundings) (package : String) (selection : Selection)
    (node : Tree) : Except ConfigFault Selection :=
  match node.form with
  | .part (.importing decl) =>
    match hits decl with
    | [] => do
      let (settled, found) ← settleImport around package node.trivia decl
      return { selection with
        imports := selection.imports ++ [settled]
        explicitNames := selection.explicitNames ++ [decl.identifier]
        diagnostics := selection.diagnostics ++ found }
    | entries => do
      let selection ← entries.foldlM take selection
      return { selection with orphans := selection.orphans ++ node.comment.toList }
  | _ => return { selection with imports := selection.imports ++ [node] }

/-- The siblings that a unit has to import, in order. -/
def neededSiblings (unit : Tree) (siblings explicitNames : List String) : List String :=
  let used := unit.referencedNames
  let own := unit.declaredNames
  (Text.sorted (Text.distinct siblings)).filter fun name =>
    name ∈ used ∧ name ∉ own ∧ name ∉ explicitNames

/-- The specifier of a class that has a file of its own in the same directory. -/
def siblingSpecifier (name : String) : String := "./" ++ name

/-- The import of a class from its file in the same directory. -/
def siblingImport (name : String) : Except ConfigFault Tree :=
  EmittedImport.declaration ⟨siblingSpecifier name, name, false⟩

/-- What makes two imports equal: name, asterisk and encoding. -/
def importKey (node : Tree) : String × Bool × Bool :=
  match node.form with
  | .part (.importing decl) => (decl.text, decl.isAsterisk, decl.encoded)
  | _ => ("", false, false)

/-- The first of each group of equal imports, and the comments of the others. -/
def dedupe (seen : List (String × Bool × Bool)) : List Tree → List Tree × List Comment
  | [] => ([], [])
  | node :: rest =>
    if importKey node ∈ seen then
      let (kept, orphans) := dedupe seen rest
      (kept, node.comment.toList ++ orphans)
    else
      let (kept, orphans) := dedupe (importKey node :: seen) rest
      (node :: kept, orphans)

/-- The dotted name of a unit's package, empty without one. -/
def packageName (header : Option Tree) : String :=
  ((header.bind Tree.name?).map Value.display).getD ""

/-- The passes that a unit needs, and the unit with its imports settled. -/
def select (around : Surroundings) (unit : Tree) :
    Except ConfigFault (List Pass × Tree × List Diagnostic) :=
  match unit.form with
  | .part (.unit header imports types) => do
    let selection ← imports.foldlM (selectImport around (packageName header)) {}
    let siblings ←
      (neededSiblings unit around.siblings selection.explicitNames).mapM siblingImport
    let (kept, dropped) := dedupe [] (selection.imports ++ siblings)
    let trivia := unit.trivia.addOrphans (selection.orphans ++ dropped)
    return (selection.passes, .node trivia (.part (.unit header kept types)), selection.diagnostics)
  | _ => return (mandatory, unit, [])

end Recast.Pass
