import Recast.Pass
import Recast.Specifier

/-!
Which imports ask for which pass.

An entry of the table is found by the package of an imported class and its name, or by the package
alone. It may name a pass, and the imports that the pass's output needs; an entry without a pass
stands for a class that TypeScript has itself. An import with an entry is dropped.
-/

namespace Recast.Pass

/-- An import that the output of a pass needs. -/
structure EmittedImport where
  specifier : String
  symbol : String
  isAsterisk : Bool := false
deriving DecidableEq, Repr

/-- The import declaration of an emitted import. -/
def EmittedImport.declaration (e : EmittedImport) : Except ConfigFault Tree := do
  let name ← Specifier.importName e.specifier e.symbol
  return .node {} (.part
    (.importing { name := .text name, isAsterisk := e.isAsterisk, encoded := true }))

/-- An entry of the table; without a class it stands for the whole package. -/
structure Registration where
  package : String
  className : Option String
  pass : Option Pass
  emits : List EmittedImport := []
deriving DecidableEq, Repr

/-- What the file stream pass needs. -/
def fileInputImports : List EmittedImport := [⟨"fs", "Fs", true⟩, ⟨"stream", "Readable", false⟩]

/-- The table. -/
def registrations : List Registration :=
  [⟨"lombok", none, some .accessors, []⟩,
   ⟨"lombok.extern.slf4j", some "Slf4j", some .logging, []⟩,
   ⟨"java.util", some "List", some .containers, []⟩,
   ⟨"java.util", some "ArrayList", some .containers, []⟩,
   ⟨"java.util", some "Map", none, []⟩,
   ⟨"java.util", some "HashMap", none, []⟩,
   ⟨"java.util", some "Set", none, []⟩,
   ⟨"java.util", some "HashSet", none, []⟩,
   ⟨"java.util", some "Optional", some .optional, []⟩,
   ⟨"java.io", some "FileInputStream", some .fileInputStream, fileInputImports⟩,
   ⟨"java.io", some "InputStream", some .fileInputStream, fileInputImports⟩,
   ⟨"java.io", some "StringWriter", some .stringWriter, [⟨"stream", "Writable", false⟩]⟩,
   ⟨"java.io", some "IOException", none, []⟩]

/-- All entries of a package. -/
def lookupPackage (package : String) : List Registration :=
  registrations.filter (·.package = package)

/-- The entry of a class: its own, or else that of its package. -/
def lookup (package className : String) : Option Registration :=
  let entries := lookupPackage package
  (entries.find? (·.className = some className)).or (entries.find? (·.className.isNone))

end Recast.Pass
