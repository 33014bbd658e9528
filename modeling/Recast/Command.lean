import Recast.Command.Options
import Recast.Config.Read
import Recast.Disk
import Recast.Transpile

/-!
The command line.

`run` answers a command line from a disk: it reads the configuration, transpiles one file or walks
all modules, and gives what is printed and which files are written. It reads nothing that it has
written itself, so the disk stays as it is while it runs.

A failing unit is reported and the walk goes on. A template of the configuration that cannot be
filled in ends the run.
-/

namespace Recast.Command

/-- What a run leaves behind. -/
structure Outcome where
  status : Nat := 0
  stdout : String := ""
  stderr : String := ""
  /-- The files to be written, in order. -/
  written : List (String × String) := []

/-- Lines, each ended. -/
def lines (texts : List String) : String := String.join (texts.map (· ++ "\n"))

/-- A run that ends with a message. -/
def failed (message : String) : Outcome := { status := 1, stderr := lines [message] }

/-- The configuration in a file. -/
def loadConfig (disk : Disk) (path : String) : Except ConfigFault Config :=
  match disk.read path with
  | .error fault => .error (.unreadable path (fault.message path))
  | .ok stored =>
    match stored.document with
    | none => .error (.malformed path)
    | some document => Config.read document

/-- Transpiles a file of a module. -/
def transpileFile (disk : Disk) (session : Session) (path moduleName : String)
    (siblings : List String) : Except Failure Transpiled × Session :=
  let file := SlashPath.clean path
  let unreadable := fun reason => (.error ⟨.unreadable reason, some file⟩, session)
  match disk.read file with
  | .error fault => unreadable (fault.message file)
  | .ok stored =>
    match Text.Utf8.decode stored.bytes with
    | .error fault => unreadable fault.message
    | .ok text =>
      session.transpile
        { source := ⟨file, Text.unifyLineEnds text⟩
          answer := stored.parsed
          moduleName
          siblings }

/-! ### Walking all modules -/

/-- How far a walk has come. -/
structure Walk where
  session : Session
  /-- What was printed. -/
  printed : List String := []
  /-- The output of each file, by path; a later output of a path takes the earlier's place. -/
  outputs : List (String × String) := []

/-- Sets the text at a path. -/
def setOutput (path text : String) : List (String × String) → List (String × String)
  | [] => [(path, text)]
  | (other, old) :: rest =>
    if other = path then (path, text) :: rest else (other, old) :: setOutput path text rest

/-- Prints a line. -/
def Walk.print (walk : Walk) (line : String) : Walk :=
  { walk with printed := walk.printed ++ [line] }

/-- Notes where a file goes if no package map places it. -/
def notePlacement (session : Session) (file output : String) (matched : Bool) : Session :=
  if matched then session else session.note ⟨.defaultPlacement output, file, none⟩

/-- One file of a module. -/
def walkFile (disk : Disk) (m : ModuleMap) (root : String) (files : List Place) (walk : Walk)
    (place : Place) : Except Template.Fault Walk :=
  let file := String.intercalate "/" place
  let (output, matched) := walk.session.config.outputPath m file
  let path := SlashPath.below root file
  let session := notePlacement walk.session file output matched
  let walk := walk.print ("-- " ++ file ++ " -> " ++ output)
  match transpileFile disk session path m.name (Disk.siblingsIn files place) with
  | (.ok result, session) =>
    .ok { walk with session, outputs := setOutput output result.text walk.outputs }
  | (.error ⟨.template fault, _⟩, _) => .error fault
  | (.error failure, session) =>
    .ok ({ walk with session }.print ("Error transpiling " ++ path ++ ": " ++ failure.message))

/-- All files of a module. -/
def walkModule (disk : Disk) (walk : Walk) (m : ModuleMap) : Except Template.Fault Walk :=
  let root := walk.session.config.rootOf m
  let walk := walk.print ("Mapping: " ++ root)
  if disk.isDirectory root then
    let files := disk.javaBelow root
    files.foldlM (walkFile disk m root files) walk
  else
    .ok (walk.print
      ("Error transpiling module " ++ m.name ++ ": " ++ root ++ " is not a directory"))

/-- All modules. -/
def walkModules (disk : Disk) (config : Config) : Except Template.Fault Walk :=
  config.modules.foldlM (walkModule disk) { session := { config } }

/-! ### Single files -/

/-- The module whose source root holds a file, and the file's path from there, which is `.` if the
file is the root itself. -/
def moduleOf (disk : Disk) (config : Config) (path : String) : Option (ModuleMap × String) :=
  let place := disk.placeOf path
  config.modules.findSome? fun m =>
    let root := disk.placeOf (config.rootOf m)
    if root.isPrefixOf place then
      some (m, SlashPath.clean (String.intercalate "/" (place.drop root.length)))
    else none

/-- Transpiles a single file of some module. -/
def transpileOne (disk : Disk) (config : Config) (path : String) :
    Except Failure (ModuleMap × String × Transpiled × Session) :=
  match moduleOf disk config path with
  | none => .error ⟨.outsideModules path, none⟩
  | some (m, file) =>
    let siblings := disk.siblings (SlashPath.clean path)
    match transpileFile disk { config } path m.name siblings with
    | (.ok result, session) => .ok (m, file, result, session)
    | (.error failure, _) => .error failure

/-! ### Whole runs -/

/-- What is printed for a written file. -/
def writtenLine (output : String × String) : String := "Written: " ++ output.1

/-- What is printed for an output that is not written. -/
def shownOutput (output : String × String) : String := "// " ++ output.1 ++ "\n" ++ output.2

/-- Runs on a single file. -/
def runFile (disk : Disk) (options : Options) (config : Config) (path : String) :
    Except Template.Fault Outcome :=
  match transpileOne disk config path with
  | .error ⟨.template fault, _⟩ => .error fault
  | .error failure => .ok (failed ("Error transpiling " ++ path ++ ": " ++ failure.message))
  | .ok (m, file, result, session) =>
    let summary := fun (session : Session) => Diagnostic.summary options.verbose session.diagnostics
    if options.stdout then .ok { stdout := result.text, stderr := summary session }
    else
      let (output, matched) := config.outputPath m file
      let written := [(output, result.text)]
      .ok { stdout := lines (written.map writtenLine)
            stderr := summary (notePlacement session file output matched)
            written }

/-- Runs on all modules. -/
def runModules (disk : Disk) (options : Options) (config : Config) :
    Except Template.Fault Outcome := do
  let walk ← walkModules disk config
  let stderr := Diagnostic.summary options.verbose walk.session.diagnostics
  if options.stdout then
    return { stdout := lines walk.printed ++ String.join (walk.outputs.map shownOutput), stderr }
  return { stdout := lines (walk.printed ++ walk.outputs.map writtenLine)
           stderr
           written := walk.outputs }

/-- Runs a command line. -/
def run (disk : Disk) (options : Options) : Except Template.Fault Outcome :=
  match loadConfig disk options.config with
  | .error fault => .ok (failed ("Error: " ++ fault.message))
  | .ok config =>
    match options.file with
    | some path => runFile disk options config path
    | none => runModules disk options config

end Recast.Command
