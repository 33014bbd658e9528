import Recast.Tree.Names
import Recast.Value

/-!
The rules by which the passes replace single nodes.

A rule gets a node over its old and over its new children, and answers what takes its place. Import
and package declarations are settled before any pass runs, so no rule touches them.
-/

namespace Recast.Lowering

/-- A rule: what takes the place of a node, given the node before and after its children changed. -/
abbrev Rule := Tree → Tree → Option Tree

/-- A tree without position and comments. -/
def plain (form : Form Tree) : Tree := .node {} form

/-- A plain name. -/
def ident (name : Word) : Tree := plain (.expr (.ident name))

/-- A tree at the position of another. -/
def inPlaceOf (node : Tree) (form : Form Tree) : Tree := .node (Trivia.at? node.position) form

/-! ### Scalar types -/

/-- Java's scalar and boxed types with their TypeScript types. -/
def scalarTypes : List (String × String) :=
  [("String", "string"), ("CharSequence", "string"), ("Character", "string"), ("char", "string"),
   ("Integer", "number"), ("int", "number"), ("Long", "number"), ("long", "number"),
   ("Short", "number"), ("short", "number"), ("Byte", "number"), ("byte", "number"),
   ("Double", "number"), ("double", "number"), ("Float", "number"), ("float", "number"),
   ("Number", "number"), ("Boolean", "boolean"), ("boolean", "boolean")]

/-- What a table has for a name. -/
def renamed? (table : List (String × String)) (name : Word) : Option Word :=
  (table.find? fun entry => name.isText entry.1).map fun entry => .text entry.2

/-- The TypeScript type of a Java type; configured mappings come first. -/
def scalarType? (mappings : List (String × Value)) (name : Word) : Option Word :=
  match name.text?.bind (Value.lookup · mappings) with
  | some .null => none
  | some value => some value
  | none => renamed? scalarTypes name

/-- Whether a type has type arguments, the empty brackets aside. A call can have them too. -/
def hasArguments (t : Tree) : Bool :=
  match t.form with
  | .type (.named _ (some (_ :: _)) _ _) | .expr (.call _ _ _ (_ :: _)) => true
  | _ => false

/-- Whether a scope leaves a scalar type what it is. -/
def isScalarScope (scope : Option Tree) : Bool :=
  match scope with
  | none => true
  | some scope => scope.qualifiedName = "java.lang"

/-- Scalar types become TypeScript types. The class that an object creation names stays; only its
type arguments change. -/
def coreTypes (mappings : List (String × Value)) : Rule := fun before after =>
  match after.form with
  | .type (.named name _ scope _) =>
    if isScalarScope scope ∧ ¬ hasArguments after then
      match scalarType? mappings name with
      | some mapped => some (inPlaceOf after (.type (.named mapped none none false)))
      | none => some after
    else some after
  | .type (.primitive name) =>
    match scalarType? mappings name with
    | some mapped => some (inPlaceOf after (.type (.named mapped none none false)))
    | none => some after
  | .expr (.create type arguments body) =>
    match before.form with
    | .expr (.create (some created) _ _) =>
      let type := if hasArguments created then type else some created
      some (after.withForm (.expr (.create type arguments body)))
    | _ => some after
  | _ => some after

/-! ### Calls -/

/-- The console method and the process stream that stand for a handle of `System`. -/
def systemStream? : Word → Option (String × String)
  | .text "out" => some ("log", "stdout")
  | .text "err" => some ("error", "stderr")
  | _ => none

/-- The console method and the process stream of a target such as `System.out`. -/
def streamTarget? (target : Option Tree) : Option (String × String) :=
  match target.map Tree.form with
  | some (.expr (.field (some owner) handle)) =>
    if owner.isIdent "System" then systemStream? handle else none
  | _ => none

/-- `a.equals(b)` becomes a comparison, and printing goes to the console or the process. -/
def builtinCalls : Rule := fun _ after =>
  match after.form with
  | .expr (.call (.text "equals") [argument] (some target) _) =>
    some (inPlaceOf after (.expr (.binary (.text "==") (some target) argument.present?)))
  | .expr (.call name arguments target typeArguments) =>
    match name, streamTarget? target with
    | .text "println", some (console, _) =>
      some (after.withForm (.expr (.call (.text console) arguments (some (ident "console"))
        typeArguments)))
    | .text "print", some (_, stream) =>
      let process := plain (.expr (.field (some (ident "process")) (.text stream)))
      some (after.withForm (.expr (.call (.text "write") arguments (some process) typeArguments)))
    | _, _ => some after
  | _ => some after

/-- The log levels that the console has too. -/
def logLevels : List String := ["trace", "debug", "info", "warn", "error"]

/-- The annotation that declares a logger goes, and the logger's calls go to the console. -/
def logging : Rule := fun before after =>
  match after.form with
  | .part (.annotationUse ..) => if before.annotationName = "Slf4j" then none else some before
  | .expr (.call name arguments (some target) typeArguments) =>
    if target.isIdent "log" ∧ logLevels.any (name.isText ·) then
      let console := inPlaceOf target (.expr (.ident (.text "console")))
      some (after.withForm (.expr (.call name arguments (some console) typeArguments)))
    else some after
  | _ => some after

/-! ### Library types -/

/-- Types named in a table are renamed and lose their scope. -/
def renameTypes (table : List (String × String)) (after : Tree) : Tree :=
  match after.form with
  | .type (.named name arguments _ orNull) =>
    match renamed? table name with
    | some renamed => after.withForm (.type (.named renamed arguments none orNull))
    | none => after
  | _ => after

/-- The growable lists. -/
def containerTypes : List (String × String) := [("List", "Array"), ("ArrayList", "Array")]

/-- The streams that read from a file. -/
def fileInputTypes : List (String × String) :=
  [("InputStream", "Readable"), ("FileInputStream", "Readable")]

/-- The writers into a string. -/
def stringWriterTypes : List (String × String) := [("StringWriter", "Writable")]

/-- Lists become arrays. -/
def containers : Rule := fun _ after => some (renameTypes containerTypes after)

/-- String writers become writable streams. -/
def stringWriter : Rule := fun _ after => some (renameTypes stringWriterTypes after)

/-- Input streams become readable streams, and opening a file stream becomes a call. -/
def fileInputStream : Rule := fun before after =>
  match before.form, after.form with
  | .expr (.create (some created) _ none), .expr (.create _ arguments _) =>
    if created.name?.any (·.isText "FileInputStream") then
      some (inPlaceOf after
        (.expr (.call (.text "createReadStream") arguments (some (ident "Fs")) [])))
    else some after
  | _, _ => some (renameTypes fileInputTypes after)

/-- Optional types are marked, and their factory calls become the values they wrap. -/
def optional : Rule := fun _ after =>
  match after.form with
  | .type (.named (.text "Optional") arguments scope _) =>
    some (after.withForm (.type (.named (.text "Optional") arguments scope true)))
  | .expr (.call name arguments (some target) _) =>
    if target.isIdent "Optional" then
      match name, arguments with
      | .text "empty", [] => some (inPlaceOf after (.expr (.literal (.text "null"))))
      | .text "of", [value] => value.present?
      | .text "ofNullable", [value] => value.present?
      | _, _ => some after
    else some after
  | _ => some after

end Recast.Lowering
