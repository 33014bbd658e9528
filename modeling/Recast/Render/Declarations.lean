import Recast.Render.Statements

/-!
Members, types and units as TypeScript writes them.

TypeScript has no types inside class bodies. Nested types are written after the type they stand in,
and leave nothing in its body. An enum has plain constants only. Annotations of types, fields and
constructors are written as decorators; the configuration decides on those of methods and enums.
-/

namespace Recast.Render

/-! ### Parts -/

/-- An annotation as it is written in Java, which is also how a decorator is written. -/
def annotationText (name : Word) (arguments : List Rendering) : Render String := do
  if arguments.isEmpty then return "@" ++ name.display
  return "@" ++ name.display ++ "(" ++ String.intercalate ", " (← arguments.mapM (·.part)) ++ ")"

/-- A parameter; a variable number of arguments becomes a rest parameter. -/
def parameterText (name : Word) (type : Option Tree) (modifiers : List Modifier)
    (annotations : List Rendering) (isVarargs : Bool) : Render String := do
  let scope ← read
  let notes ← annotations.mapM (·.note)
  let head := String.join (notes.map (· ++ " "))
    ++ Modifier.renderAll modifiers .parameter false scope.commentFinal
  match type with
  | none => return head ++ name.display
  | type =>
    if isVarargs then
      return head ++ "..." ++ name.display ++ ": " ++ (← ofType (arrayTypeText type 1))
    return head ++ name.display ++ ": " ++ (← ofType (slotTypeText type))

/-- An annotation. Whatever has a name and arguments is written as one; what has only arguments is
refused after them. -/
def annotationOf (node : Tree) : Form Rendering → Render String
  | .part (.annotationUse name arguments)
  | .part (.enumConstant name arguments _ _)
  | .expr (.call name arguments _ _) => annotationText name arguments
  | .expr (.create _ arguments _)
  | .stmt (.constructorCall _ arguments) => do
    discard (arguments.mapM (·.part))
    unsupported (.expression node.kind)
  | _ => unsupported (.expression node.kind)

/-- The annotations of a declaration with modifiers. -/
def declarationNotes : Form Rendering → List Rendering
  | .stmt (.localVariable _ _ _ annotations)
  | .member (.field _ _ _ annotations)
  | .member (.method _ _ _ _ _ _ annotations _)
  | .member (.constructor _ _ _ _ _ annotations _)
  | .member (.classType _ _ annotations _ _ _ _ _)
  | .member (.enumType _ _ annotations _ _ _) => annotations
  | _ => []

/-- A part in the one place that its shape allows. An expression with a value stands there for the
argument of an annotation, and a declaration for a parameter; each is refused after what such a
part writes first. -/
def partOf (node : Tree) : Form Rendering → Render String
  | .part (.annotationArgument .null value) => slotExpr value
  | .part (.annotationArgument name value) => do
    return name.display ++ " = " ++ (← slotExpr value)
  | .part (.parameter name type modifiers annotations isVarargs) =>
    parameterText name (slotNode type) modifiers annotations isVarargs
  | .expr (.literal value) => unsupported (.expression value.typeName)
  | .expr (.assign _ _ value) => do
    discard (slotExpr value)
    unsupported (.expression node.kind)
  | layer => do
    discard ((declarationNotes layer).mapM (·.note))
    unsupported (.expression node.kind)

/-- A list of parameters. -/
def parametersText (parameters : List Rendering) : Render String := do
  return String.intercalate ", " (← parameters.mapM (·.part))

/-- Annotations as decorators, on lines of their own. -/
def decoratorLines (annotations : List Rendering) : Render (List String) := do
  let indent ← indent
  return (← annotations.mapM (·.note)).map (indent ++ ·)

/-- The line for annotations on which the caller decides, if one is written. -/
def annotationLines (annotations : List Rendering) : Render (List String) := do
  let scope ← read
  let indent ← indent
  let texts ← annotations.mapM (·.note)
  match ← ofExcept (scope.hooks.annotationsLine texts) with
  | some line => return if line = "" then [] else [indent ++ line]
  | none => return []

/-- What follows a signature for the types it throws. -/
def throwsText (types : List Tree) : Render String := do
  let scope ← read
  let texts ← types.mapM fun t => ofType (typeText t)
  ofExcept (scope.hooks.throwsSuffix texts)

/-! ### Members -/

/-- A variable of a field declaration. Fields of interfaces have no initial value. -/
def fieldVariableOf (node : Tree) : Form Rendering → Render String
  | .part (.declarator name dimensions initial) => do
    let scope ← read
    let code ← typedVariable name dimensions
    match initial with
    | none => return code
    | some initial =>
      if scope.isInterface then
        report (.approximated "interface constant"
          ("initializer of " ++ scope.className.display ++ "." ++ name.display ++ " dropped"))
          node.trivia.line?
        return code
      return code ++ " = " ++ (← initial.expr)
  | _ => noVariable node

/-- A field declaration, one line per variable. -/
def fieldText (type : Option Tree) (bindings : List Rendering) (modifiers : List Modifier)
    (annotations : List Rendering) : Render String := do
  let scope ← read
  let indent ← indent
  let decorators ← decoratorLines annotations
  let words := if scope.isInterface then "" else Modifier.renderAll modifiers .field
  let bindings ← declaring type (bindings.mapM (·.fieldVariable))
  return String.intercalate "\n" (decorators ++ bindings.map (indent ++ words ++ · ++ ";"))

/-- Whether a method's annotations say that it overrides another. -/
def isOverride (annotations : List Rendering) : Bool :=
  annotations.any (·.node.annotationName = "Override")

/-- A method, or its signature where it has no body to be written. -/
def methodText (node : Tree) (name : Word) (returnType : Option Tree)
    (parameters : List Rendering) (throws : List Tree) (body : Option Rendering)
    (modifiers : List Modifier) (annotations : List Rendering) (typeParameters : List Tree) :
    Render String := do
  let scope ← read
  let indent ← indent
  let notes ← annotationLines (annotations.filter (·.node.annotationName ≠ "Override"))
  let words := (if scope.isInterface then "" else Modifier.renderAll modifiers .method)
    ++ (if isOverride annotations && scope.classExtends && !name.isText "toString" then "override "
      else "")
  let typeParameters ← ofType (typeParametersText typeParameters)
  let parameters ← parametersText parameters
  let returnType ← ofType (slotTypeText returnType)
  let throws ← throwsText throws
  let signature := indent ++ words ++ name.display ++ typeParameters ++ "(" ++ parameters ++ "): "
    ++ returnType ++ throws
  match body with
  | none => return String.intercalate "\n" (notes ++ [signature ++ ";"])
  | some body =>
    if scope.isInterface then
      report (.approximated "interface method body"
        ("body of " ++ scope.className.display ++ "." ++ name.display ++ " dropped"))
        node.trivia.line?
      return String.intercalate "\n" (notes ++ [signature ++ ";"])
    let block ← inBody (body.block true)
    return String.intercalate "\n" (notes ++ [signature ++ " " ++ block])

/-- A constructor. -/
def constructorText (parameters : List Rendering) (throws : List Tree) (body : Option Rendering)
    (modifiers : List Modifier) (annotations : List Rendering) : Render String := do
  let indent ← indent
  let decorators ← decoratorLines annotations
  let parameters ← parametersText parameters
  let throws ← throwsText throws
  let block ← inBody (slotBlock true body)
  return String.intercalate "\n" (decorators
    ++ [indent ++ Modifier.renderAll modifiers .constructor ++ "constructor(" ++ parameters ++ ")"
      ++ throws ++ " " ++ block])

/-- A static initializer. -/
def initializerText (node : Tree) (body : Option Rendering) (isStatic : Bool) :
    Render String := do
  let scope ← read
  let indent ← indent
  if !isStatic then unsupported (.instanceInitializer scope.className.display node.trivia.line?)
  return indent ++ "static " ++ (← inBody (slotBlock true body))

/-- A member of a type body, without its comment. -/
def memberOf (node : Tree) : Form Rendering → Render String
  | .member (.field type bindings modifiers annotations) =>
    fieldText (slotNode type) bindings modifiers annotations
  | .member (.method name returnType parameters throws body modifiers annotations
      typeParameters) =>
    methodText node name (slotNode returnType) parameters (throws.map (·.node)) body modifiers
      annotations (typeParameters.map (·.node))
  | .member (.constructor _ parameters throws body modifiers annotations _) =>
    constructorText parameters (throws.map (·.node)) body modifiers annotations
  | .member (.initializer body isStatic) => initializerText node body isStatic
  | _ => unsupported (.member node.kind)

/-! ### Types -/

/-- A member as a child of a type body; a nested type leaves nothing there. -/
def memberChild (r : Rendering) : Child where
  position := r.node.position
  text :=
    if r.node.isTypeDeclaration then return ""
    else do
      let text ← r.member
      withComment r.node text

/-- Whether a member is a field declaration. -/
def isField (t : Tree) : Bool := t.form matches .member (.field ..)

/-- The chunks of a type body, each with whether it belongs to a field. -/
def fieldFlags (members : List Rendering) (chunks : List String) : List (Bool × String) :=
  (members.map (isField ·.node) ++ List.replicate (chunks.length - members.length) false).zip chunks

/-- The chunks of a type body put together: a blank line between two of them, none between
fields. Empty chunks are left out. -/
def joinMembers (previous : Option Bool) : List (Bool × String) → String
  | [] => ""
  | (isField, chunk) :: rest =>
    if chunk = "" then joinMembers previous rest
    else
      let separator := match previous with
        | none => ""
        | some wasField => if isField && wasField then "\n" else "\n\n"
      separator ++ chunk ++ joinMembers (some isField) rest

/-- The body of a class or interface. -/
def membersText (node : Tree) (members : List Rendering) : Render String := do
  let indent ← indent
  let chunks ← indented (childChunks node.trivia.orphans (members.map memberChild))
  let text := joinMembers none (fieldFlags members chunks)
  return if text = "" then "\x7b\x7d" else "\x7b\n" ++ text ++ "\n" ++ indent ++ "\x7d"

/-- The types that a class or interface names after a keyword. -/
def parentsText (keyword : String) (types : List Tree) : Render String := do
  if types.isEmpty then return ""
  return " " ++ keyword ++ " "
    ++ String.intercalate ", " (← types.mapM fun t => ofType (typeText t))

/-- A class or interface, without its comment and its nested types. -/
def classText (node : Tree) (name : Word) (modifiers : List Modifier)
    (annotations : List Rendering) (typeParameters parents interfaces : List Tree)
    (members : List Rendering) (isInterface : Bool) : Render String := do
  let scope ← read
  let indent ← indent
  let decorators ← decoratorLines annotations
  let written := if isInterface then modifiers.filter (· ≠ .abstr) else modifiers
  let words := Modifier.renderAll written .type scope.topLevel
  let typeParameters ← ofType (typeParametersText typeParameters)
  let parentsPart ← parentsText "extends" parents
  let interfacesPart ← parentsText "implements" interfaces
  let header := indent ++ words ++ (if isInterface then "interface " else "class ") ++ name.display
    ++ typeParameters ++ parentsPart ++ interfacesPart
  let body ← inType name (!parents.isEmpty && !isInterface) isInterface (membersText node members)
  return String.intercalate "\n" (decorators ++ [header ++ " " ++ body])

/-- The name of a constant of an enum, if it has arguments or a body. -/
def richName? (constant : Tree) : Option Word :=
  match constant.form with
  | .part (.enumConstant name arguments body _) =>
    if !arguments.isEmpty || body.isSome then some name else none
  | .part (.annotationUse name (_ :: _)) | .expr (.call name (_ :: _) _ _) => some name
  | _ => none

/-- The first constant of an enum that has arguments or a body. -/
def richConstant? (constants : List Rendering) : Option Word :=
  constants.findSome? fun r => richName? r.node

/-- A constant of an enum as a child of its body. -/
def constantChild (r : Rendering) : Child where
  position := r.node.position
  text :=
    match r.node.form with
    | .part (.enumConstant name ..) => do
      withComment r.node ((← indent) ++ name.display ++ ",")
    | _ => unsupported (.expression r.node.kind)

/-- An enum, without its comment. -/
def enumText (node : Tree) (name : Word) (modifiers : List Modifier)
    (annotations : List Rendering) (interfaces : List Tree) (constants members : List Rendering) :
    Render String := do
  let scope ← read
  let indent ← indent
  if !members.isEmpty then unsupported (.enumMembers name.display)
  if let some constant := richConstant? constants then
    unsupported (.enumConstant name.display constant.display)
  reportIf (!interfaces.isEmpty)
    (.approximated "enum implements" ("implemented types of " ++ name.display ++ " dropped"))
    node.trivia.line?
  let notes ← annotationLines annotations
  let words := Modifier.renderAll (modifiers.filter (· ≠ .final)) .type scope.topLevel
  let chunks ← indented (childChunks node.trivia.orphans (constants.map constantChild))
  let header := indent ++ words ++ "enum " ++ name.display ++ " \x7b"
  if chunks.isEmpty then return String.intercalate "\n" (notes ++ [header ++ "\x7d"])
  return String.intercalate "\n" (notes ++ [header] ++ chunks ++ [indent ++ "\x7d"])

/-- The types nested in a type, each reported as it is moved out. -/
def hoisted (outer : Word) (members : List Rendering) : Render (List String) := do
  let nested := members.filter (·.node.isTypeDeclaration)
  nested.mapM fun r => do
    let name := (r.node.declaredName?).getD .null
    report (.nestedTypeHoisted (outer.display ++ "." ++ name.display)) r.node.trivia.line?
    r.typeDeclaration

/-- A type with its comment, followed by the types nested in it. -/
def typeDeclarationOf (node : Tree) : Form Rendering → Render String
  | .member (.classType name modifiers annotations typeParameters parents interfaces members
      isInterface) => do
    let text ← classText node name modifiers annotations (typeParameters.map (·.node))
      (parents.map (·.node)) (interfaces.map (·.node)) members isInterface
    let text ← withComment node text
    let nested ← hoisted name members
    return String.intercalate "\n\n" (text :: nested)
  | .member (.enumType name modifiers annotations interfaces constants members) => do
    let text ← enumText node name modifiers annotations (interfaces.map (·.node)) constants members
    withComment node text
  | _ => unsupported (.typeDeclaration node.kind)

/-! ### Units -/

/-- A line of the unit's head with its comment; without a line only the comment is left. -/
def headLine (node : Tree) (line : Option String) : Render String :=
  match line with
  | some line =>
    if line = "" then commentOnly else withComment node line
  | none => commentOnly
where
  commentOnly : Render String :=
    match node.comment with
    | some comment => commentText comment
    | none => return ""

/-- A declaration at module level. -/
def topLevelOf (node : Tree) (typeDeclaration : Render String) :
    Form Rendering → Render String
  | .part (.package name _) => do
    let scope ← read
    headLine node (← ofExcept (scope.hooks.onPackage name))
  | .part (.importing decl) => do
    let scope ← read
    headLine node (← ofExcept (scope.hooks.onImport decl))
  | _ => typeDeclaration

/-- A unit: package line and imports, a blank line, and the types with blank lines between them. -/
def unitOf (node : Tree) : Form Rendering → Render String
  | .part (.unit header imports types) => do
    let head := header.toList ++ imports
    let chunks ← childChunks node.trivia.orphans
      ((head ++ types).map fun r => ⟨r.node.position, r.topLevel⟩)
    let headChunks := (chunks.take head.length).filter (· ≠ "")
    let bodyChunks := (chunks.drop head.length).filter (· ≠ "")
    let gap := if headChunks.isEmpty || bodyChunks.isEmpty then "" else "\n\n"
    return String.intercalate "\n" headChunks ++ gap ++ String.intercalate "\n\n" bodyChunks
      ++ "\n"
  | _ => unsupported (.typeDeclaration node.kind)

end Recast.Render
