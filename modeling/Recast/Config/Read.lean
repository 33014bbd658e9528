import Recast.Config

/-!
Reading a configuration from a document.

The document is a mapping with known keys. Faults are found in a fixed order: the shape of the
document, unknown keys, the type mappings, the modules one after another, and last the settings with
a choice of values and the indentation.
-/

namespace Recast.Config

/-- The entries of a mapping; a missing value counts as an empty one. -/
def requireMapping (place : String) : Value → Except ConfigFault (List (String × Value))
  | .null => .ok []
  | .mapping entries => .ok entries
  | other => .error (.notMapping place other.typeName)

/-- Reads one package map. -/
def readPackageMap (place : String) (document : Value) : Except ConfigFault PackageMap := do
  let entries ← requireMapping place document
  match Value.lookup "pkg" entries with
  | none => .error (.missingPackage place)
  | some pkg =>
    return {
      pkg := Value.displayOr "" pkg
      destPath := Value.displayOr "" (Value.lookup "destPath" entries) }

/-- The items of a list of package maps; a value that is not set counts as an empty list. -/
def packageMapItems (place : String) : Option Value → Except ConfigFault (List Value)
  | none => .ok []
  | some (.list items) => .ok items
  | some other => if other.isSet then .error (.packageMapsNotList place) else .ok []

/-- Reads one module. -/
def readModule (name : String) (document : Value) : Except ConfigFault ModuleMap := do
  let place := "moduleMaps." ++ name
  let entries ← requireMapping place document
  let items ← packageMapItems place (Value.lookup "packageMaps" entries)
  let packageMaps ← items.zipIdx.mapM fun (item, i) =>
    readPackageMap (place ++ ".packageMaps[" ++ toString i ++ "]") item
  return {
    name
    outputPath := Value.displayOr name (Value.lookup "outputPath" entries)
    srcRoot := Value.displayOr "src/main/java" (Value.lookup "srcRoot" entries)
    destModule := (Value.lookup "destModule" entries).getD .null
    packageMaps }

/-- The keys a configuration may have. -/
def knownKeys : List String :=
  ["inputDirectory", "outputDirectory", "packageTemplate", "indentation", "unknownImportTemplate",
   "unresolvedImports", "commentThrows", "unknownAnnotations", "commentFinalParameters",
   "typeMappings", "moduleMaps"]

/-- The choice that a value names. -/
def choice? {α : Type} (choices : List α) (word : α → String) : Value → Option α
  | .text text => choices.find? fun choice => word choice = text
  | _ => none

/-- Reads a setting that has a choice of values. -/
def readChoice {α : Type} (key : String) (choices : List α) (word : α → String) (default : α) :
    Option Value → Except ConfigFault α
  | none => .ok default
  | some value =>
    match choice? choices word value with
    | some choice => .ok choice
    | none => .error (.badChoice key (choices.map word) value.display)

/-- Checks that the indentation is a number that is not negative. -/
def checkIndentation : Value → Except ConfigFault Value
  | .int n => if n < 0 then .error (.negativeIndentation (toString n)) else .ok (.int n)
  | .bool b => .ok (.bool b)
  | .decimal spelling =>
    if spelling.toList.head? = some '-' then .error (.negativeIndentation spelling)
    else .ok (.decimal spelling)
  | other => .error (.indentationType other.typeName)

/-- Reads a configuration. -/
def read (document : Value) : Except ConfigFault Config := do
  let entries ← requireMapping "configuration" document
  let unknown := (entries.map (·.1)).filter (· ∉ knownKeys)
  if ¬ unknown.isEmpty then throw (.unknownKeys (Text.sorted (Text.distinct unknown)))
  let setting := fun key => Value.lookup key entries
  let typeMappings ← requireMapping "typeMappings" ((setting "typeMappings").getD .null)
  let moduleEntries ← requireMapping "moduleMaps" ((setting "moduleMaps").getD .null)
  let modules ← moduleEntries.mapM fun (name, entry) => readModule name entry
  let unknownAnnotations ← readChoice "unknownAnnotations" AnnotationPolicy.all
    AnnotationPolicy.word .fail (setting "unknownAnnotations")
  let unresolvedImports ← readChoice "unresolvedImports" ImportPolicy.all ImportPolicy.word
    .wildcard (setting "unresolvedImports")
  let indentation ← checkIndentation ((setting "indentation").getD (.int 2))
  let defaults : Config := {}
  return {
    modules
    inputDirectory := (setting "inputDirectory").getD defaults.inputDirectory
    outputDirectory := (setting "outputDirectory").getD defaults.outputDirectory
    packageTemplate := (setting "packageTemplate").getD .null
    indentation
    unknownImportTemplate := (setting "unknownImportTemplate").getD .null
    unresolvedImports
    commentThrows := (setting "commentThrows").getD defaults.commentThrows
    unknownAnnotations
    commentFinalParameters :=
      (setting "commentFinalParameters").getD defaults.commentFinalParameters
    typeMappings }

end Recast.Config
