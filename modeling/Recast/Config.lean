import Recast.Fault
import Recast.SlashPath
import Recast.Value

/-!
Configurations: where the Java packages of each module go.

A configuration maps each Java module, a directory under the input directory, to a TypeScript
directory. Inside a module, the package maps are tried in order and the first whose package encloses
a path places it. A setting that is not checked when the configuration is read is kept as it was
written; the functions that use it say what they make of it.
-/

namespace Recast

/-- Where the classes below one package go. -/
structure PackageMap where
  /-- The dotted name of the package; the empty name encloses everything. -/
  pkg : String
  /-- The directory its contents go to; none if empty. -/
  destPath : String := ""
deriving DecidableEq, Repr

namespace PackageMap

/-- The package as a path. -/
def path (p : PackageMap) : String := Text.replaceChar '.' '/' p.pkg

/-- Whether a path is the package or lies below it, by whole segments. -/
def encloses (p : PackageMap) (javaPath : String) : Bool :=
  p.path = "" || javaPath = p.path || (p.path ++ "/").toList.isPrefixOf javaPath.toList

/-- Where an enclosed path goes. -/
def place (p : PackageMap) (javaPath : String) : String :=
  let remainder := String.ofList ((javaPath.toList.drop p.path.length).dropWhile (· = '/'))
  if p.destPath = "" then remainder
  else if remainder = "" then String.ofList (Text.dropEnd (· = '/') p.destPath.toList)
  else SlashPath.join p.destPath remainder

end PackageMap

/-- One Java module. -/
structure ModuleMap where
  name : String
  /-- The module's directory in the output. -/
  outputPath : String := ""
  /-- The directory of the Java sources inside the module. -/
  srcRoot : String := "src/main/java"
  /-- The name under which other modules import from this one. -/
  destModule : Value := .null
  packageMaps : List PackageMap := []

namespace ModuleMap

/-- The first package map that encloses a path. -/
def findPackageMap (m : ModuleMap) (javaPath : String) : Option PackageMap :=
  m.packageMaps.find? (·.encloses javaPath)

/-- The output file of a Java file, both relative to the module, and whether a package map places
it; any other file keeps its place. -/
def tsFileName (m : ModuleMap) (javaFile : String) : String × Bool :=
  let file := Text.replaceChar '\\' '/' javaFile
  match m.findPackageMap (SlashPath.directory file) with
  | none => (SlashPath.withExtension file "ts", false)
  | some p => (SlashPath.withExtension (p.place file) "ts", true)

end ModuleMap

/-- What happens to annotations that nothing consumed. -/
inductive AnnotationPolicy where
  | fail
  | comment
  | ignore
deriving DecidableEq, Repr

/-- What happens to imports that no module maps. -/
inductive ImportPolicy where
  | wildcard
  | fail
deriving DecidableEq, Repr

namespace AnnotationPolicy

def all : List AnnotationPolicy := [.fail, .comment, .ignore]

/-- The word for a policy. -/
def word : AnnotationPolicy → String
  | .fail => "fail"
  | .comment => "comment"
  | .ignore => "ignore"

end AnnotationPolicy

namespace ImportPolicy

def all : List ImportPolicy := [.wildcard, .fail]

/-- The word for a policy. -/
def word : ImportPolicy → String
  | .wildcard => "wildcard"
  | .fail => "fail"

end ImportPolicy

/-- A configuration. -/
structure Config where
  /-- The modules, in the order in which they are searched. -/
  modules : List ModuleMap := []
  inputDirectory : Value := .text "."
  outputDirectory : Value := .text "ts-output"
  packageTemplate : Value := .null
  indentation : Value := .int 2
  unknownImportTemplate : Value := .null
  unresolvedImports : ImportPolicy := .wildcard
  commentThrows : Value := .bool false
  unknownAnnotations : AnnotationPolicy := .fail
  commentFinalParameters : Value := .bool false
  typeMappings : List (String × Value) := []

namespace Config

/-- The number of spaces of one level of indentation. -/
def indentWidth (c : Config) : Nat :=
  match c.indentation with
  | .int n => n.toNat
  | .bool true => 1
  | _ => 0

/-- One level of indentation. -/
def indent (c : Config) : String := Text.times c.indentWidth " "

/-- The module of a given name. -/
def findModule (c : Config) (name : String) : Except ConfigFault ModuleMap :=
  match c.modules.find? (·.name = name) with
  | some m => .ok m
  | none => .error (.unknownModule name)

/-- The directory of a module's Java sources. -/
def rootOf (c : Config) (m : ModuleMap) : String :=
  SlashPath.below (SlashPath.below c.inputDirectory.display m.name) m.srcRoot

/-- The directory of the Java sources of the module of a given name. -/
def sourceRoot (c : Config) (name : String) : Except ConfigFault String :=
  c.rootOf <$> c.findModule name

/-- The output file of a Java file of a module, and whether a package map places it. -/
def outputPath (c : Config) (m : ModuleMap) (javaFile : String) : String × Bool :=
  let (file, matched) := m.tsFileName javaFile
  (SlashPath.below (SlashPath.below c.outputDirectory.display m.outputPath) file, matched)

end Config

end Recast
