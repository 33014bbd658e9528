import Recast.Diagnostic
import Recast.Fault
import Recast.ParseTree
import Recast.Tree

/-!
What reading a parser's tree is made of.

Reading may report modifiers that are dropped and may fail on a construct that has no counterpart. A
`Reading` says what a part of the parser's tree means in each place where it can stand: as a type,
as an expression, as a selector on an expression, as a statement, and so on. The reading of a node
is made from the readings of its parts, so that no function here is recursive.
-/

namespace Recast

/-- What is known about the source while it is read. -/
structure Source where
  /-- The file, for reports. -/
  file : String := ""
  text : String := ""

/-- A step of reading: it looks at the source, may fail, and collects diagnostics. -/
abbrev Read := ReaderT Source (StateT (List Diagnostic) (Except Fault))

namespace Read

/-- Stops at a construct that cannot be carried over. -/
def unsupported {α : Type} (cause : Unsupported) : Read α := throw (.unsupported cause)

/-- Reports a finding at a line of the source. -/
def report (finding : Finding) (line : Option Int) : Read Unit := do
  let source ← read
  modify (· ++ [⟨finding, source.file, line⟩])

end Read

/-- What a part of a parser's tree means, by the place where it stands. -/
structure Reading where
  /-- The part itself. -/
  tree : ParseTree
  /-- The node in the one place that its shape allows: a declaration, a parameter, a clause. -/
  own : Read Tree
  type : Read Tree
  /-- A reference type inside a scope, with the number of its inner array dimensions. -/
  reference : Option Tree → Read (Tree × Nat)
  typeArgument : Read Tree
  /-- An expression without the selectors and operators that hang on it. -/
  primary : Read Tree
  expr : Read Tree
  /-- The expression that this selector makes of its target. -/
  select : Tree → Read Tree
  /-- A value inside an annotation. -/
  elementValue : Read Tree
  /-- The arguments of the annotation that has this element. -/
  elementArguments : Read (List Tree)
  /-- A named value in an annotation. -/
  namedValue : Read Tree
  /-- A parameter of a method or constructor. -/
  parameter : Read Tree
  lambdaParameter : Read Tree
  lambdaBody : Read Tree
  stmt : Read Tree
  /-- The statement that this expression is where it stands alone. -/
  exprStatement : Option Position → Read Tree
  /-- The label of a `switch` group; none for `default`. -/
  switchLabel : Read (Option Tree)
  /-- The variables declared in the head of a loop. -/
  binding : Read Tree
  loopStart : Read (LoopStart Tree)
  /-- The loop with this head and a body. -/
  loop : Option Position → Tree → Read Tree
  member : Read Tree
  typeParameter : Read Tree
  /-- A constant of an enum. -/
  constant : Read Tree
  /-- An import of a unit. -/
  importing : Read Tree
  /-- The package of a unit. -/
  package : Read Tree
  /-- A declaration on the outermost level. -/
  typeDeclaration : Read Tree
  /-- A whole unit. -/
  unit : Read Tree

namespace Reading

/-- A tree at a position. -/
def at? (position : Option Position) (form : Form Tree) : Tree := .node (Trivia.at? position) form

/-- A tree without position. -/
def bare (form : Form Tree) : Tree := .node {} form

/-- A block of statements. -/
def block (position : Option Position) (statements : List Reading) : Read Tree := do
  return at? position (.stmt (.block (← statements.mapM (·.stmt))))

/-- The optional reading of a slot. -/
def optional (slot : Reading) (read : Reading → Read Tree) : Read (Option Tree) :=
  if slot.tree.isAbsent then return none else some <$> read slot

/-- The modifiers that keywords name, in their fixed order; the keywords without counterpart are
reported in alphabetical order. -/
def modifiers (keywords : List String) (line : Option Int) : Read (List Modifier) := do
  let dropped := Text.sorted
    (Text.distinct (keywords.filter fun word => (Modifier.ofKeyword? word).isNone))
  for keyword in dropped do
    Read.report (.modifierDropped keyword) line
  return Modifier.all.filter fun m => m.keyword ∈ keywords

/-- The type that a dotted name refers to, each segment inside the ones before it. -/
def typeOfName (qualifiedName : String) : Option Tree :=
  (Text.split '.' qualifiedName).foldl
    (fun scope name => some (bare (.type (.named (.text name) none scope false)))) none

/-- A dotted name as an expression: field accesses on a name. -/
def dotted (qualified : String) : Tree :=
  match Text.split '.' qualified with
  | [] => bare (.expr (.ident (.text "")))
  | first :: rest =>
    rest.foldl (fun target name => bare (.expr (.field (some target) (.text name))))
      (bare (.expr (.ident (.text first))))

end Reading

end Recast
