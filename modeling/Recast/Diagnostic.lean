import Recast.Text

/-!
Findings that do not stop the work.

A finding says where the output is a best effort rather than an exact mapping. Each has a code, a
message and a construct under which the summary counts it. Findings are kept in the order in which
they were made.
-/

namespace Recast

/-- What was found. -/
inductive Finding where
  /-- An import that no module maps, kept as a wildcard import. -/
  | unresolvedImport (name : String)
  /-- A `try` whose resources became plain declarations. -/
  | resourcesLowered
  /-- A nested type moved to module level. -/
  | nestedTypeHoisted (name : String)
  /-- A modifier without counterpart. -/
  | modifierDropped (keyword : String)
  /-- A `this(…)` call in a constructor, passed through. -/
  | constructorChaining
  /-- A construct that is only approximated. -/
  | approximated (construct detail : String)
  /-- A file that no package map places. -/
  | defaultPlacement (output : String)
deriving DecidableEq, Repr

namespace Finding

/-- The code of a finding. -/
def code : Finding → String
  | .unresolvedImport _ => "W001"
  | .resourcesLowered => "W002"
  | .nestedTypeHoisted _ => "W003"
  | .modifierDropped _ => "W004"
  | .constructorChaining => "W005"
  | .approximated .. => "W099"
  | .defaultPlacement _ => "I001"

/-- Whether a finding is a warning; the others are for information. -/
def isWarning : Finding → Bool
  | .defaultPlacement _ => false
  | _ => true

/-- The word for how grave a finding is. -/
def severity (finding : Finding) : String := if finding.isWarning then "warning" else "info"

/-- The construct under which the summary counts a finding. -/
def construct : Finding → String
  | .unresolvedImport _ => "import"
  | .resourcesLowered => "try-with-resources"
  | .nestedTypeHoisted _ => "nested type"
  | .modifierDropped _ => "modifier"
  | .constructorChaining => "constructor chaining"
  | .approximated construct _ => construct
  | .defaultPlacement _ => "placement"

/-- The sentence that reports a finding. -/
def message : Finding → String
  | .unresolvedImport name =>
    "Import \"" ++ name ++ "\" matches no configured module; emitted as a wildcard import."
  | .resourcesLowered =>
    "try-with-resources lowered to declarations; resources are not closed automatically."
  | .nestedTypeHoisted name => "Nested type \"" ++ name ++ "\" emitted at module level."
  | .modifierDropped keyword =>
    "Modifier \"" ++ keyword ++ "\" has no TypeScript equivalent and was dropped."
  | .constructorChaining => "this(...) constructor chaining has no TypeScript equivalent."
  | .approximated construct detail =>
    "Unsupported construct: " ++ construct ++ (if detail = "" then "" else " (" ++ detail ++ ")")
  | .defaultPlacement output => "No packageMaps entry matched; placed at " ++ output

end Finding

/-- A finding and the place it was made. -/
structure Diagnostic where
  finding : Finding
  file : String := ""
  line : Option Int := none
deriving DecidableEq, Repr

namespace Diagnostic

/-- The file and the line, as far as they are known; line zero counts as unknown. -/
def location (d : Diagnostic) : String :=
  match d.line.filter (· ≠ 0) with
  | some n => d.file ++ ":" ++ toString n
  | none => d.file

/-- A diagnostic on one line. -/
def render (d : Diagnostic) : String :=
  let place := if d.location = "" then "" else d.location ++ ": "
  "[" ++ d.finding.severity ++ "] " ++ place ++ d.finding.message ++ " (" ++ d.finding.code ++ ")"

/-- The heading under which the summary lists a diagnostic. -/
def heading (d : Diagnostic) : String :=
  if d.finding.construct = "" then "other" else d.finding.construct

/-- The codes of a list of diagnostics, in order. -/
def codes (ds : List Diagnostic) : List String := ds.map (·.finding.code)

/-- The warnings among some diagnostics. -/
def warnings (ds : List Diagnostic) : List Diagnostic := ds.filter (·.finding.isWarning)

/-- The summary's lines for one heading: the count, and each diagnostic where all are asked for. -/
def group (verbose : Bool) (ds : List Diagnostic) (heading : String) : List String :=
  let members := ds.filter (·.heading = heading)
  ("  " ++ heading ++ ": " ++ toString members.length ++ " occurrence(s)")
    :: (if verbose then members.map ("    " ++ ·.render) else [])

/-- The lines of a summary: warnings counted by construct, in the order of the constructs' names.
Single diagnostics, and the ones for information, are listed only where all are asked for. -/
def summaryLines (verbose : Bool) (ds : List Diagnostic) : List String :=
  let ws := warnings ds
  let infos := ds.filter (!·.finding.isWarning)
  let headings := Text.sorted (Text.distinct (ws.map heading))
  (if ws.isEmpty then []
    else "" :: ("Transpiler warnings (" ++ toString ws.length ++ "):")
      :: headings.flatMap (group verbose ws))
  ++ (if infos.isEmpty || !verbose then []
    else "" :: ("Transpiler info (" ++ toString infos.length ++ "):")
      :: infos.map ("  " ++ ·.render))

/-- The summary of some diagnostics, every line ended. -/
def summary (verbose : Bool) (ds : List Diagnostic) : String :=
  String.join ((summaryLines verbose ds).map (· ++ "\n"))

end Diagnostic

end Recast
