import Recast.Config
import Recast.Fault
import Recast.Specifier
import Recast.Tree.Names

/-!
Import lines, and the lines that rendering leaves to its caller.

`Hooks` are the four decisions that rendering leaves open: how the package line and how an import are
written, what is left of the types that a method throws, and what happens to annotations that nothing
consumed. `Hooks.ofConfig` are those that a configuration makes.
-/

namespace Recast.Render

/-- Fills in a template of the configuration; anything but text is no template. -/
def fillTemplate (template : Value) (arguments : List Word) : Except Fault String :=
  match template with
  | .text template =>
    match Template.fill template arguments with
    | .ok text => .ok text
    | .error fault => .error (.template fault)
  | _ => .error (.template .mismatch)

/-- An import line. -/
def importLine (symbol moduleName : String) (isAsterisk : Bool) : String :=
  if isAsterisk then "import * as " ++ symbol ++ " from '" ++ moduleName ++ "';"
  else "import \x7b " ++ symbol ++ " \x7d from '" ++ moduleName ++ "';"

/-- An import declaration. An encoded one is decoded; any other is imported from its package, by the
template if there is one. -/
def renderImport (template : Value) (decl : ImportName) : Except Fault String :=
  if decl.encoded then
    let (specifier, symbol) := Specifier.splitImportName decl.text
    .ok (importLine symbol specifier decl.isAsterisk)
  else
    let moduleName := Text.replaceChar '.' '/' decl.qualifier
    match template with
    | .null => .ok (importLine decl.identifier moduleName decl.isAsterisk)
    | template => fillTemplate template [.text decl.identifier, .text moduleName]

/-- What the caller decides about single lines; one that is none or empty is not written. A hook that
is left out does what is done without a caller. -/
structure Hooks where
  /-- The line of a package. -/
  onPackage : Word → Except Fault (Option String) := fun _ => .ok none
  /-- The line of an import. -/
  onImport : ImportName → Except Fault (Option String) := fun decl => some <$> renderImport .null decl
  /-- What follows a signature for some types that it throws. -/
  onThrows : List String → Except Fault String := fun _ => .ok ""
  /-- The line for some annotations that nothing consumed. -/
  onAnnotations : List String → Except Fault (Option String) :=
    fun texts => .error (.unsupported (.annotations texts))

namespace Hooks

/-- What follows a signature for the types it throws. -/
def throwsSuffix (hooks : Hooks) (types : List String) : Except Fault String :=
  if types.isEmpty then .ok "" else hooks.onThrows types

/-- The line for annotations that nothing consumed, if one is written. -/
def annotationsLine (hooks : Hooks) (texts : List String) : Except Fault (Option String) :=
  if texts.isEmpty then .ok none else hooks.onAnnotations texts

/-- The decisions of a configuration. -/
def ofConfig (c : Config) : Hooks where
  onPackage name :=
    match c.packageTemplate with
    | .null => .ok none
    | template => some <$> fillTemplate template [name]
  onImport decl := some <$> renderImport c.unknownImportTemplate decl
  onThrows types :=
    .ok (if c.commentThrows.isSet then " /* throws " ++ String.intercalate ", " types ++ " */" else "")
  onAnnotations texts :=
    match c.unknownAnnotations with
    | .fail => .error (.unsupported (.annotations texts))
    | .comment => .ok (some ("// " ++ String.intercalate ", " texts))
    | .ignore => .ok none

/-- A configuration that sets nothing leaves all hooks out. -/
theorem ofConfig_default : ofConfig {} = {} := rfl

section Config

variable {c : Config}

theorem onPackage_ofConfig (h : c.packageTemplate = .null) (name : Word) :
    (ofConfig c).onPackage name = .ok none := by
  simp only [ofConfig, h]

theorem onImport_ofConfig (h : c.unknownImportTemplate = .null) (decl : ImportName) :
    (ofConfig c).onImport decl = some <$> renderImport .null decl := by
  simp only [ofConfig, h]

theorem throwsSuffix_ofConfig (h : c.commentThrows.isSet = false) (types : List String) :
    (ofConfig c).throwsSuffix types = .ok "" := by
  simp [throwsSuffix, ofConfig, h]

end Config

end Hooks

end Recast.Render
