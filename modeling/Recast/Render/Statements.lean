import Recast.Render.Expressions
import Recast.Render.Modifiers

/-!
Statements as TypeScript writes them.

A `catch` binds one name and no type. The handlers of a `try` become the arms of a chain of type
tests inside one `catch`, one arm for each alternative of each handler; what no arm takes is thrown
again. Resources of a `try` become constants at the start of its body.
-/

namespace Recast.Render

/-! ### Variables -/

/-- A variable with its type, without its initial value. -/
def typedVariable (name : Word) (dimensions : Int) : Render String := do
  let type := Tree.variableType (some (← declaredType)) dimensions
  return name.display ++ ": " ++ (← ofType (slotTypeText type))

/-- A node in a variable's place that is none. It is refused once its type is known, which a node
with dimensions has to write first. -/
def noVariable (node : Tree) : Render String := do
  let type ← declaredType
  match node.form with
  | .type (.array ..) | .expr (.arrayCreate ..) => discard (ofType (typeText type))
  | _ => pure ()
  unsupported (.statement node.kind)

/-- A variable of a local declaration. -/
def localVariableOf (node : Tree) : Form Rendering → Render String
  | .part (.declarator name dimensions initial) => do
    let code ← typedVariable name dimensions
    match initial with
    | none => return code
    | some initial => return code ++ " = " ++ (← initial.expr)
  | _ => noVariable node

/-- A local declaration without indentation and semicolon. Its annotations are kept as comments. -/
def localDeclaration (node : Tree) (type : Option Tree) (bindings : List Rendering)
    (isConstant : Bool) (annotations : List Rendering) : Render String := do
  let scope ← read
  if !scope.inMethod then stop (.broken (.strayLocal node.trivia.line?))
  let notes ← annotations.mapM (·.note)
  let bindings ← declaring type (bindings.mapM (·.localVariable))
  return String.join (notes.map fun note => "/* " ++ note ++ " */ ")
    ++ (if isConstant then "const " else "let ") ++ String.intercalate ", " bindings

/-- A declaration of variables where it is a local one, or a resource of a `try`. A resource is
constant and loses its annotations, and a field declaration can be one too. -/
def declarationOf (node : Tree) (layer : Form Rendering) (isResource : Bool) : Render String :=
  match layer, isResource with
  | .stmt (.localVariable type bindings modifiers annotations), false =>
    localDeclaration node (slotNode type) bindings (modifiers.contains .final) annotations
  | .stmt (.localVariable type bindings _ _), true
  | .member (.field type bindings _ _), true =>
    localDeclaration node (slotNode type) bindings true []
  | _, _ => unsupported (.statement node.kind)

/-! ### Handlers -/

/-- The caught types that match everything that can be thrown. -/
def catchAllTypes : List String :=
  ["Throwable", "Exception", "java.lang.Throwable", "java.lang.Exception"]

/-- One arm of a chain of handlers; without a type it takes everything. -/
structure CatchArm where
  type : Option Tree
  name : Word
  /-- The lines of the handler's body. -/
  lines : Render (List String)

/-- The type that an arm tests for; none if it takes everything. -/
def armType (caught : Option Tree) : Option Tree :=
  match caught with
  | some type =>
    match type.form with
    | .type (.named ..) => if type.qualifiedName ∈ catchAllTypes then none else some type
    | _ => some type
  | none => none

/-- The name that a handler binds. -/
def boundName (clause : Tree) : Word :=
  match clause.form with
  | .part (.catchClause (some (.node _ (.part (.parameter name ..)))) _) => name
  | _ => .null

/-- The alternatives of a handler; one of a single type, or of no known type, has just that. -/
def caughtTypes (clause : Tree) : List (Option Tree) :=
  match clause.form with
  | .part (.catchClause (some (.node _ (.part (.parameter _ type ..)))) _) =>
    match type with
    | some (.node _ (.type (.union elements))) => elements.map Tree.present?
    | type => [type]
  | _ => [none]

/-- The arms of some handlers, in order. -/
def catchArms (clauses : List Rendering) : List CatchArm :=
  clauses.flatMap fun clause =>
    (caughtTypes clause.node).map fun caught =>
      ⟨armType caught, boundName clause.node, clause.lines []⟩

/-- The lines of an arm; a name other than the bound one is made an alias of it. -/
def armLines (binding : Word) (arm : CatchArm) : Render (List String) := do
  let indent ← indent
  let rebound := if arm.name.shown = binding.shown then [] else
    [indent ++ "const " ++ arm.name.display ++ " = " ++ binding.display ++ ";"]
  return rebound ++ (← arm.lines)

/-- An arm in braces. -/
def armBlock (binding : Word) (arm : CatchArm) : Render String := do
  let indent ← indent
  let lines ← indented (armLines binding arm)
  return String.intercalate "\n" (["\x7b"] ++ lines ++ [indent ++ "\x7d"])

/-- The rest of a chain after its first test: further tests, and an arm for everything else. -/
def chainRest (binding : Word) : List CatchArm → Render String
  | [] => do
    let indent ← indent
    let inner ← indented Render.indent
    return " else \x7b\n" ++ inner ++ "throw " ++ binding.display ++ ";\n" ++ indent ++ "\x7d"
  | arm :: rest => do
    match arm.type with
    | none => return " else " ++ (← armBlock binding arm)
    | some type =>
      let test ← typeTest (some type) fun _ => return binding.display
      let block ← armBlock binding arm
      let rest ← chainRest binding rest
      return " else if (" ++ test ++ ") " ++ block ++ rest

/-- The lines of the one `catch` body: the first arm alone if it takes everything, or a chain. -/
def chainLines (binding : Word) : List CatchArm → Render (List String)
  | [] => stop (.broken .idleHandlers)
  | arm :: rest => do
    match arm.type with
    | none => armLines binding arm
    | some type =>
      let indent ← indent
      let test ← typeTest (some type) fun _ => return binding.display
      let block ← armBlock binding arm
      let rest ← chainRest binding rest
      return [indent ++ "if (" ++ test ++ ") " ++ block ++ rest]

/-- The one `catch` of a `try`. -/
def catchText (clauses : List Rendering) : Render String := do
  match clauses with
  | [] => return ""
  | first :: _ =>
    let indent ← indent
    let binding := boundName first.node
    let lines ← indented (chainLines binding (catchArms clauses))
    return " catch (" ++ binding.display ++ ") "
      ++ String.intercalate "\n" (["\x7b"] ++ lines ++ [indent ++ "\x7d"])

/-- A resource as the constant that it becomes. -/
def resourceChild (r : Rendering) : Child where
  position := r.node.position
  text := do
    let indent ← indent
    let code ← r.declaration true
    withComment r.node (indent ++ code ++ ";")

/-- The body of a `try`, its resources first. -/
def tryBody (body : Option Rendering) (resources : List Rendering) : Render String := do
  match body with
  | none => unsupported (.statement (Tree.kindOf none))
  | some body =>
    if resources.isEmpty then body.block true
    else
      let indent ← indent
      let lines ← indented (body.lines (resources.map resourceChild))
      return String.intercalate "\n" (["\x7b"] ++ lines ++ [indent ++ "\x7d"])

/-! ### Parts -/

/-- The chunks of a block, or of a handler's block, after some other children. The statements of a
`switch` group can stand for a block. -/
def linesOf (node : Tree) (layer : Form Rendering) (before : List Child) :
    Render (List String) :=
  match layer with
  | .stmt (.block statements) | .part (.switchCase _ statements) =>
    childChunks node.trivia.orphans (before ++ statements.map (·.stmtChild))
  | .part (.catchClause _ (some body)) => body.lines before
  | _ => unsupported (.statement node.kind)

/-- The lines of a `switch` group. -/
def caseLinesOf (node : Tree) : Form Rendering → Render (List String)
  | .part (.switchCase labels statements) => do
    let indent ← indent
    let labels ← labels.mapM fun label => do
      return indent ++ "case " ++ (← label.expr) ++ ":"
    let labels := if labels.isEmpty then [indent ++ "default:"] else labels
    let statements ← indented (statements.mapM (·.stmt))
    return labels ++ statements
  | _ => unsupported (.statement node.kind)

/-- The names of the variables that a loop declares. -/
def loopVariables (binding : Option Rendering) : List Word :=
  match (slotNode binding).map Tree.form with
  | some (.stmt (.localVariable _ bindings _ _)) | some (.member (.field _ bindings _ _)) =>
    bindings.map fun declared => declared.name?.getD .null
  | _ => []

/-- The first clause of a `for` loop. -/
def loopStartText : LoopStart Rendering → Render String
  | .absent => return ""
  | .declaration r => r.declaration false
  | .expressions rs => argumentsText rs

/-- The body of a `for` loop, which may be missing. -/
def loopBody : Option Rendering → Render String
  | some r => r.body
  | none => return "\x7b\x7d"

/-- The statement after `else`: a chain goes on in line unless a comment stands before it. -/
def elseText (r : Rendering) : Render String := do
  match r.node.form, r.node.comment with
  | .stmt (.ifElse ..), none => return Text.dropBlanks (← r.bareStmt)
  | _, _ => r.body

/-- The label that a jump names, after a blank. -/
def labelText (label : Word) : String := if label.isSet then " " ++ label.display else ""

/-! ### Statements -/

/-- A statement without its comment, from the renderings of its children. -/
def stmtForm (node : Tree) (declaration : Render String) (block : Render String) :
    StmtForm Rendering → Render String
  | .block _ => block
  | .localVariable .. => do
    let indent ← indent
    return indent ++ (← declaration) ++ ";"
  | .evaluate expression => do
    let indent ← indent
    return indent ++ (← slotExpr expression) ++ ";"
  | .ifElse condition whenTrue whenFalse => do
    let indent ← indent
    let condition ← slotExpr condition
    let whenTrue ← slotBody whenTrue
    let code := indent ++ "if (" ++ condition ++ ") " ++ whenTrue
    match whenFalse with
    | none => return code
    | some r => return code ++ " else " ++ (← elseText r)
  | .forLoop start condition update body => do
    let indent ← indent
    let start ← loopStartText start
    let condition ← optionalText "" (·.expr) condition
    let update ← argumentsText update
    let body ← loopBody body
    return indent ++ "for (" ++ start ++ "; " ++ condition ++ "; " ++ update ++ ") " ++ body
  | .forEach binding iterable body => do
    let indent ← indent
    match loopVariables binding with
    | [name] =>
      let iterable ← slotExpr iterable
      let body ← slotBody body
      return indent ++ "for (const " ++ name.display ++ " of " ++ iterable ++ ") " ++ body
    | names => unsupported (.loopVariables names.length node.trivia.line?)
  | .whileLoop condition body => do
    let indent ← indent
    let condition ← slotExpr condition
    let body ← slotBody body
    return indent ++ "while (" ++ condition ++ ") " ++ body
  | .doLoop condition body => do
    let indent ← indent
    let condition ← slotExpr condition
    let body ← slotBody body
    return indent ++ "do " ++ body ++ " while (" ++ condition ++ ");"
  | .returning none => do
    return (← indent) ++ "return;"
  | .returning (some expression) => do
    let indent ← indent
    return indent ++ "return " ++ (← expression.expr) ++ ";"
  | .throwing expression => do
    let indent ← indent
    return indent ++ "throw " ++ (← slotExpr expression) ++ ";"
  | .breaking label => do
    return (← indent) ++ "break" ++ labelText label ++ ";"
  | .continuing label => do
    return (← indent) ++ "continue" ++ labelText label ++ ";"
  | .empty => do
    return (← indent) ++ ";"
  | .switch selector cases => do
    let indent ← indent
    let selector ← slotExpr selector
    let cases ← indented (cases.mapM (·.caseLines))
    return String.intercalate "\n"
      ([indent ++ "switch (" ++ selector ++ ") \x7b"] ++ cases.flatten ++ [indent ++ "\x7d"])
  | .tryCatch body resources catches finalBlock => do
    reportIf (!resources.isEmpty) .resourcesLowered node.trivia.line?
    let indent ← indent
    let body ← tryBody body resources
    let handlers ← catchText catches
    let final ← optionalText " finally " (·.block true) finalBlock
    return indent ++ "try " ++ body ++ handlers ++ final
  | .synchronized _ body => slotBlock false body
  | .assertion condition message => do
    let indent ← indent
    let condition ← slotExpr condition
    let message ← optionalText ", " (·.expr) message
    return indent ++ "console.assert(" ++ condition ++ message ++ ");"
  | .labeled label statement => do
    let indent ← indent
    return indent ++ label.display ++ ": " ++ Text.dropBlanks (← slotStmt statement)
  | .constructorCall isThis arguments => do
    let indent ← indent
    let arguments ← argumentsText arguments
    reportIf isThis .constructorChaining node.trivia.line?
    return indent ++ (if isThis then "this(" else "super(") ++ arguments ++ ");"
  | .localType declaration => do
    let scope ← read
    if !scope.attached then unsupported .localClass
    slotTypeDeclaration declaration
  | .bare => unsupported (.statement node.kind)

/-- A node where a statement stands, without its comment. -/
def bareStmtOf (node : Tree) (declaration block : Render String) :
    Form Rendering → Render String
  | .stmt form => stmtForm node declaration block form
  | _ => unsupported (.statement node.kind)

end Recast.Render
