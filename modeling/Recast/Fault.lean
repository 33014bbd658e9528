import Recast.Template

/-!
What stops the work on a unit, and how it is reported.

A `Fault` is a cause; `Fault.message` has its wording. A `Failure` is a fault with the file it
belongs to, which is put in front of the message.
-/

namespace Recast

/-- What is wrong with a configuration, or with what it is asked for. -/
inductive ConfigFault where
  | notMapping (place typeName : String)
  | missingPackage (place : String)
  | packageMapsNotList (place : String)
  | unknownKeys (keys : List String)
  /-- The indentation is of a type that has no order. -/
  | indentationType (typeName : String)
  | negativeIndentation (shown : String)
  | badChoice (key : String) (choices : List String) (given : String)
  | unreadable (path reason : String)
  | malformed (path : String)
  | unknownModule (name : String)
  | noDestination (qualifiedName moduleName : String)
  | unmappedPackage (moduleName packageName : String)
  | reservedMark (specifier : String)
  | unresolvedImport (name : String)
deriving DecidableEq, Repr

namespace ConfigFault

/-- The wording of a fault. -/
def message : ConfigFault → String
  | .notMapping place typeName => place ++ " must be a mapping, got " ++ typeName
  | .missingPackage place => place ++ " is missing \"pkg\""
  | .packageMapsNotList place => place ++ ".packageMaps must be a list"
  | .unknownKeys keys => "Unknown configuration keys: " ++ String.intercalate ", " keys
  | .indentationType typeName =>
    "Invalid configuration: '<' not supported between instances of '" ++ typeName
      ++ "' and 'int'"
  | .negativeIndentation shown => "indentation must not be negative, got " ++ shown
  | .badChoice key choices given =>
    key ++ " must be one of " ++ String.intercalate ", " choices ++ ", got \"" ++ given ++ "\""
  | .unreadable path reason => "Cannot read configuration " ++ path ++ ": " ++ reason
  | .malformed path => "Malformed YAML in " ++ path
  | .unknownModule name => "No moduleMaps entry for module \"" ++ name ++ "\""
  | .noDestination qualifiedName moduleName =>
    "\"" ++ qualifiedName ++ "\" maps to module \"" ++ moduleName
      ++ "\", which has no destModule for cross-module imports"
  | .unmappedPackage moduleName packageName =>
    "No packageMaps entry in module \"" ++ moduleName ++ "\" matches package \""
      ++ (if packageName = "" then "(default)" else packageName) ++ "\""
  | .reservedMark specifier =>
    "Module specifier \"" ++ specifier ++ "\" contains the reserved marker delimiter \"%\""
  | .unresolvedImport name => "Import \"" ++ name ++ "\" matches no configured module"

end ConfigFault

/-- A source line in running text. -/
def lineText : Option Int → String
  | some n => toString n
  | none => "None"

/-- A construct that cannot be carried over. -/
inductive Unsupported where
  | expression (kind : String)
  | statement (kind : String)
  | member (kind : String)
  | selector (kind : String)
  /-- A type declaration; a parsed one is reported with its name. -/
  | typeDeclaration (detail : String)
  | anonymousClass (name : String) (line : Option Int)
  | annotations (texts : List String)
  | enumMembers (name : String)
  | enumConstant (enumName constant : String)
  | loopVariables (count : Nat) (line : Option Int)
  | instanceInitializer (className : String) (line : Option Int)
  /-- A lambda's block, where only expressions are rendered. -/
  | lambdaBlock
  /-- A local class, where only statements are rendered. -/
  | localClass
deriving DecidableEq, Repr

namespace Unsupported

/-- The construct that a report names. -/
def construct : Unsupported → String
  | .expression _ => "expression"
  | .statement _ => "statement"
  | .member _ => "member"
  | .selector _ => "selector"
  | .typeDeclaration _ => "type declaration"
  | .anonymousClass .. => "anonymous class"
  | .annotations _ => "annotation"
  | .enumMembers _ => "enum"
  | .enumConstant .. => "enum"
  | .loopVariables .. => "for-each"
  | .instanceInitializer .. => "instance initializer"
  | .lambdaBlock => "lambda"
  | .localClass => "local class"

/-- What a report says about the construct. -/
def detail : Unsupported → String
  | .expression kind => kind
  | .statement kind => kind
  | .member kind => kind
  | .selector kind => kind
  | .typeDeclaration detail => detail
  | .anonymousClass name line =>
    "new " ++ name ++ "() \x7b ... \x7d at line " ++ lineText line
  | .annotations texts => "unknown method annotations: " ++ String.intercalate ", " texts
  | .enumMembers name => name ++ " declares members"
  | .enumConstant enumName constant =>
    "constant " ++ enumName ++ "." ++ constant ++ " has arguments or a body"
  | .loopVariables count line =>
    "expected exactly one loop variable, got " ++ toString count ++ " at line " ++ lineText line
  | .instanceInitializer className line => "in " ++ className ++ " at line " ++ lineText line
  | .lambdaBlock => "block body without a statement generator"
  | .localClass => "no declaration generator attached"

end Unsupported

/-- A state of the rendering that a well-formed tree does not lead to. -/
inductive BrokenState where
  /-- An optional type without exactly one argument. -/
  | optionalArity (name : String)
  /-- A declared variable outside a declaration. -/
  | strayVariable
  /-- A local declaration outside a body. -/
  | strayLocal (line : Option Int)
  /-- Handlers none of which has a type to take. -/
  | idleHandlers
deriving DecidableEq, Repr

namespace BrokenState

/-- The construct that a report names. -/
def construct : BrokenState → String
  | .optionalArity _ => "Optional type"
  | .strayVariable => "variable declarator"
  | .strayLocal _ => "local variable"
  | .idleHandlers => "catch clause"

/-- What a report says about the construct. -/
def detail : BrokenState → String
  | .optionalArity name => "expected exactly one type argument for " ++ name
  | .strayVariable => "rendered outside a field or local variable declaration"
  | .strayLocal line => "declared outside a method body at line " ++ lineText line
  | .idleHandlers => "no type to catch"

end BrokenState

/-- What stops the work on a unit. -/
inductive Fault where
  | config (fault : ConfigFault)
  /-- A source file that cannot be read as text. -/
  | unreadable (reason : String)
  /-- A source text that is not Java. -/
  | badSyntax (description : String) (line : Option Int)
  | unsupported (cause : Unsupported)
  | broken (state : BrokenState)
  /-- A file that belongs to no module. -/
  | outsideModules (path : String)
  /-- A template of the configuration that cannot be filled in. -/
  | template (fault : Template.Fault)
deriving DecidableEq, Repr

namespace Fault

/-- A report on a construct and what is wrong with it. -/
def constructReport (construct detail : String) : String :=
  "Unsupported construct: " ++ construct ++ (if detail = "" then "" else " (" ++ detail ++ ")")

/-- The wording of a fault. -/
def message : Fault → String
  | .config fault => fault.message
  | .unreadable reason => "cannot read source: " ++ reason
  | .badSyntax description (some n) => "line " ++ toString n ++ ": " ++ description
  | .badSyntax description none => description
  | .unsupported cause => constructReport cause.construct cause.detail
  | .broken state => constructReport state.construct state.detail
  | .outsideModules path => path ++ " is not under any configured module source root"
  | .template .mismatch => "the arguments do not fit the template"
  | .template .malformed => "the template is malformed"

/-- Whether a fault belongs to the unit at work, so that its report names the file. A template's
fault belongs to the configuration's author. -/
def namesUnit : Fault → Bool
  | .template _ => false
  | _ => true

end Fault

/-- A fault and the file it belongs to. -/
structure Failure where
  fault : Fault
  file : Option String := none
deriving DecidableEq, Repr

namespace Failure

/-- The report on a failure. -/
def message (failure : Failure) : String :=
  match failure.file with
  | some file => if file = "" then failure.fault.message else file ++ ": " ++ failure.fault.message
  | none => failure.fault.message

/-- The failure, assigned to a file if it has none yet. -/
def orIn (failure : Failure) (file : String) : Failure :=
  if failure.file.isNone ∧ file ≠ "" ∧ failure.fault.namesUnit then
    { failure with file := some file }
  else failure

end Failure

end Recast
