import Recast.Comment.Render
import Recast.Diagnostic
import Recast.Render.Import
import Recast.Render.Types

/-!
What rendering is made of.

Rendering reads a `Scope`: the indentation, the file, the enclosing type, and the declaration at
work. Nothing assigns to a scope; a part is rendered in a scope of its own, and so what a
declaration sets ends with it. Rendering may stop; it then reports the level of indentation at which
it did. The diagnostics reported before it stopped are kept.

A `Rendering` says how a node is written in each place where it can stand. The rendering of a node
is made from those of its children, so that no function here is recursive.
-/

namespace Recast

/-- What rendering knows about the place at work. -/
structure Scope where
  level : Int := 0
  /-- One level of indentation. -/
  unitIndent : String := "  "
  file : String := ""
  /-- The name of the enclosing type. -/
  className : Word := .text ""
  /-- Whether the enclosing type is a class that extends another. -/
  classExtends : Bool := false
  isInterface : Bool := false
  topLevel : Bool := true
  /-- Whether the place is inside the body of a method, constructor, initializer or lambda. -/
  inMethod : Bool := false
  /-- The type of the declaration at work. -/
  declared : Option Tree := none
  commentFinal : Bool := false
  hooks : Render.Hooks := {}
  /-- Whether expressions may hold blocks, and statements types. -/
  attached : Bool := true

namespace Scope

/-- Inside a declaration of the given type. -/
def inDeclaration (scope : Scope) (type : Option Tree) : Scope := { scope with declared := type }

/-- Inside a body. -/
def inBody (scope : Scope) : Scope := { scope with inMethod := true }

/-- Inside a type declaration. -/
def inType (scope : Scope) (name : Word) (classExtends isInterface : Bool) : Scope :=
  { scope with
    className := name
    classExtends
    isInterface
    topLevel := false
    inMethod := false }

/-- The scope in which a new file starts. -/
def forFile (scope : Scope) (file : String) : Scope :=
  { scope with
    level := 0
    file
    className := .text ""
    classExtends := false
    isInterface := false
    topLevel := true
    declared := none
    inMethod := false }

end Scope

/-- Why and at which level rendering stopped. -/
structure Halt where
  fault : Fault
  level : Int

/-- A step of rendering. -/
abbrev Render := ReaderT Scope (ExceptT Halt (StateM (List Diagnostic)))

namespace Render

variable {α : Type}

/-! ### Steps -/

/-- Stops. -/
def stop (fault : Fault) : Render α := fun scope => throw ⟨fault, scope.level⟩

/-- Stops at a construct that cannot be carried over. -/
def unsupported (cause : Unsupported) : Render α := stop (.unsupported cause)

/-- Goes on with a value, or stops. -/
def ofExcept : Except Fault α → Render α
  | .ok a => return a
  | .error fault => stop fault

/-- Goes on with a type's text, or stops. -/
def ofType : Except BrokenState α → Render α
  | .ok a => return a
  | .error state => stop (.broken state)

/-- Reports a finding at a line. -/
def report (finding : Finding) (line : Option Int) : Render Unit := fun scope =>
  modify (· ++ [⟨finding, scope.file, line⟩])

/-- Reports a finding at a line if there is one. -/
def reportIf (condition : Bool) (finding : Finding) (line : Option Int) : Render Unit :=
  if condition then report finding line else return

/-- The current indentation. -/
def indent : Render String := do
  let scope ← read
  return Text.times scope.level.toNat scope.unitIndent

/-- One level further in. -/
def indented (x : Render α) : Render α :=
  withReader (fun scope => { scope with level := scope.level + 1 }) x

/-- Inside a declaration of the given type. -/
def declaring (type : Option Tree) (x : Render α) : Render α :=
  withReader (·.inDeclaration type) x

/-- Inside a body. -/
def inBody (x : Render α) : Render α :=
  withReader Scope.inBody x

/-- Inside a type declaration. -/
def inType (name : Word) (classExtends isInterface : Bool) (x : Render α) : Render α :=
  withReader (·.inType name classExtends isInterface) x

/-- The type of the declaration at work. -/
def declaredType : Render Tree := do
  let scope ← read
  match scope.declared with
  | some type => return type
  | none => stop (.broken .strayVariable)

/-! ### Comments -/

/-- A comment at the current indentation. -/
def commentText (comment : Comment) : Render String := do
  return comment.render (← indent)

/-- A node's text after the comment that leads it. -/
def withComment (node : Tree) (text : String) : Render String :=
  match node.comment with
  | none => return text
  | some comment => do return (← commentText comment) ++ "\n" ++ text

/-- A child of a container: where it starts and how it is written. -/
structure Child where
  position : Option Position
  text : Render String

/-- Whether a comment stands before a position. -/
def standsBefore (p : Position) (comment : Comment) : Bool :=
  match comment.position with
  | some q => q < p
  | none => false

/-- Comments in reading order; those without position come first. -/
def inOrder (comments : List Comment) : List Comment :=
  comments.mergeSort fun a b =>
    ¬ b.position.getD Position.origin < a.position.getD Position.origin

/-- The comments at the head of a list that stand before a child, and the others. -/
def takeBefore (start : Option Position) (pending : List Comment) :
    List Comment × List Comment :=
  match start with
  | none => ([], pending)
  | some p => (pending.takeWhile (standsBefore p), pending.dropWhile (standsBefore p))

/-- A child's text after comments on lines of their own; an empty text leaves the comments. -/
def underComments (leading : List String) (text : String) : String :=
  if leading.isEmpty then text
  else if text = "" then String.intercalate "\n" leading
  else String.intercalate "\n" (leading ++ [text])

/-- The chunks of children with the pending comments in the gaps where they stand, and a last chunk
for the comments after all children. -/
def chunksFrom (pending : List Comment) : List Child → Render (List String)
  | [] => do
    if pending.isEmpty then return []
    return [String.intercalate "\n" (← pending.mapM commentText)]
  | child :: rest => do
    let (leading, pending) := takeBefore child.position pending
    let leading ← leading.mapM commentText
    let text ← child.text
    let chunks ← chunksFrom pending rest
    return underComments leading text :: chunks

/-- The chunks of a container's children and orphan comments. -/
def childChunks (orphans : List Comment) (children : List Child) : Render (List String) :=
  chunksFrom (inOrder orphans) children

end Render

/-- How a node is written, by the place where it stands. -/
structure Rendering where
  /-- The node itself. -/
  node : Tree
  expr : Render String
  /-- An annotation. -/
  note : Render String
  /-- An annotation's argument, or a parameter. -/
  part : Render String
  /-- A variable of a local declaration. -/
  localVariable : Render String
  /-- A variable of a field declaration. -/
  fieldVariable : Render String
  /-- A local declaration without indentation and semicolon; a resource of a `try` is constant and
  without annotations. -/
  declaration : (isResource : Bool) → Render String
  /-- A statement without its comment. -/
  bareStmt : Render String
  /-- The chunks of a block's statements, after some others. -/
  lines : List Render.Child → Render (List String)
  /-- The lines of a `switch` group. -/
  caseLines : Render (List String)
  /-- A member of a type body, without its comment. -/
  member : Render String
  /-- A type with its comment and the types nested in it. -/
  typeDeclaration : Render String
  /-- A declaration at module level. -/
  topLevel : Render String
  /-- A whole unit. -/
  unit : Render String

namespace Rendering

/-- A statement with its comment. -/
def stmt (r : Rendering) : Render String := do
  let text ← r.bareStmt
  Render.withComment r.node text

/-- A statement as a child of its container. -/
def stmtChild (r : Rendering) : Render.Child := ⟨r.node.position, r.stmt⟩

/-- Whether the node is a block. -/
def isBlock (r : Rendering) : Bool := r.node.form matches .stmt (.block _)

/-- A block; `inline` continues a line. -/
def block (r : Rendering) (inline : Bool) : Render String := do
  let indent ← Render.indent
  let opener := if inline then "\x7b" else indent ++ "\x7b"
  let lines ← Render.indented (r.lines [])
  if lines.isEmpty then return opener ++ "\x7d"
  return String.intercalate "\n" ([opener] ++ lines ++ [indent ++ "\x7d"])

/-- The body of a loop or branch: a block, or a single statement put in braces. -/
def body (r : Rendering) : Render String := do
  if r.isBlock then r.block true
  else
    let indent ← Render.indent
    let text ← Render.indented r.stmt
    return String.intercalate "\n" ["\x7b", text, indent ++ "\x7d"]

end Rendering

namespace Render

/-- The expression in a slot. -/
def slotExpr : Option Rendering → Render String
  | some r => r.expr
  | none => unsupported (.expression (Tree.kindOf none))

/-- The statement in a slot. -/
def slotStmt : Option Rendering → Render String
  | some r => r.stmt
  | none => unsupported (.statement (Tree.kindOf none))

/-- The body in a slot. -/
def slotBody : Option Rendering → Render String
  | some r => r.body
  | none => unsupported (.statement (Tree.kindOf none))

/-- The block in a slot. -/
def slotBlock (inline : Bool) : Option Rendering → Render String
  | some r => r.block inline
  | none => unsupported (.statement (Tree.kindOf none))

/-- The member in a slot. -/
def slotMember : Option Rendering → Render String
  | some r => r.member
  | none => unsupported (.member (Tree.kindOf none))

/-- The type declaration in a slot. -/
def slotTypeDeclaration : Option Rendering → Render String
  | some r => r.typeDeclaration
  | none => unsupported (.typeDeclaration (Tree.kindOf none))

/-- What stands in a slot that may be empty, after a text. -/
def optionalText (before : String) (text : Rendering → Render String) :
    Option Rendering → Render String
  | some r => return before ++ (← text r)
  | none => return ""

/-- The node in a slot. -/
def slotNode (slot : Option Rendering) : Option Tree := slot.map (·.node)

end Render

end Recast
