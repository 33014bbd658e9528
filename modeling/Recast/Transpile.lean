import Recast.Config
import Recast.Pass.Select
import Recast.Reading
import Recast.Render

/-!
From Java source text to TypeScript text.

A unit is read, its imports select the passes that it needs, it goes through them, and the result is
rendered. `Config.transpile` is this pipeline for one unit. A `Session` runs it for unit after unit
and collects the diagnostics of those that succeed.
-/

namespace Recast

/-- A unit to be transpiled. -/
structure Job where
  source : Source
  /-- What a Java parser answers to the source. -/
  answer : ParserAnswer
  /-- The configured module that the unit belongs to. -/
  moduleName : String
  /-- The types declared in other files of the same directory. -/
  siblings : List String := []

/-- A transpiled unit. -/
structure Transpiled where
  text : String
  diagnostics : List Diagnostic

namespace Config

/-- What selection knows about a unit's surroundings. -/
def surroundings (c : Config) (job : Job) : Pass.Surroundings where
  modules := c.modules
  moduleName := job.moduleName
  file := job.source.file
  unresolvedImports := c.unresolvedImports
  siblings := job.siblings

/-- The scope in which rendering starts. -/
def scope (c : Config) : Scope where
  unitIndent := c.indent
  commentFinal := c.commentFinalParameters.isSet
  hooks := Render.Hooks.ofConfig c

/-- A unit after import selection and passes, ready to be rendered. -/
def lower (c : Config) (job : Job) : Except Failure (Tree × List Diagnostic) := do
  let (unit, dropped) ← readUnit job.source job.answer
  match Pass.select (c.surroundings job) unit with
  | .ok (passes, unit, unresolved) =>
    return (Pass.runAll c.typeMappings passes unit, dropped ++ unresolved)
  | .error fault => throw ⟨.config fault, none⟩

/-- A lowered unit as text. -/
def render (c : Config) (file : String) (unit : Tree) : Except Failure Transpiled :=
  let outcome := Render.renderUnit c.scope unit file
  match outcome.result with
  | .ok text => .ok ⟨text, outcome.diagnostics⟩
  | .error fault => .error ⟨fault, none⟩

/-- Transpiles one unit. A failure names the unit's file. -/
def transpile (c : Config) (job : Job) : Except Failure Transpiled :=
  let result : Except Failure Transpiled := do
    let (unit, found) ← c.lower job
    let rendered ← c.render job.source.file unit
    return { rendered with diagnostics := found ++ rendered.diagnostics }
  result.mapError (·.orIn job.source.file)

end Config

/-- A run over several units. -/
structure Session where
  config : Config
  /-- The diagnostics of the units that were transpiled so far. -/
  diagnostics : List Diagnostic := []

namespace Session

/-- Adds a diagnostic. -/
def note (session : Session) (diagnostic : Diagnostic) : Session :=
  { session with diagnostics := session.diagnostics ++ [diagnostic] }

/-- Transpiles one more unit; a failing one leaves no diagnostics. -/
def transpile (session : Session) (job : Job) : Except Failure Transpiled × Session :=
  match session.config.transpile job with
  | .ok output =>
    (.ok output, { session with diagnostics := session.diagnostics ++ output.diagnostics })
  | .error failure => (.error failure, session)

end Session

end Recast
