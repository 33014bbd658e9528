import Recast.Text
import Recast.Tree.Traversal

/-!
Names in a syntax tree: of types, of annotations, and of what a unit uses and declares.
-/

namespace Recast.ImportName

/-- The whole name, in running text. -/
def text (decl : ImportName) : String := decl.name.display

/-- What stands before the last dot of the name. -/
def qualifier (decl : ImportName) : String := Text.beforeLast '.' decl.text

/-- What stands after the last dot of the name. -/
def identifier (decl : ImportName) : String := Text.afterLast '.' decl.text

end Recast.ImportName

namespace Recast.Tree

/-- The name of a type with the names of its scopes, joined by dots. -/
def qualifiedName : Tree → String :=
  fold fun _ layer =>
    match layer with
    | .type (.named name _ (some scope) _) => scope ++ "." ++ name.display
    | .type (.named name _ none _) => name.display
    | _ => ""

/-- The name of the outermost scope of a type. -/
def rootName : Tree → Word :=
  fold fun _ layer =>
    match layer with
    | .type (.named _ _ (some scope) _) => scope
    | .type (.named name _ none _) => name
    | _ => .null

/-- The name that a node carries, if its shape has one. -/
def name? (t : Tree) : Option Word :=
  match t.form with
  | .type (.named name ..) | .type (.primitive name)
  | .expr (.field _ name) | .expr (.call name ..) | .expr (.methodReference _ name)
  | .member (.method name ..) | .member (.constructor name ..)
  | .member (.classType name ..) | .member (.enumType name ..)
  | .part (.typeParameter name _) | .part (.annotationUse name _) | .part (.declarator name ..)
  | .part (.parameter name ..) | .part (.enumConstant name ..) | .part (.package name _)
  | .part (.annotationArgument name _) => some name
  | .part (.importing decl) => some decl.name
  | _ => none

/-- The last segment of an annotation's name. -/
def annotationName (t : Tree) : String :=
  match t.form with
  | .part (.annotationUse name _) => Text.afterLast '.' name.display
  | _ => ""

/-- Whether an expression is a given name. -/
def isIdent (name : String) (t : Tree) : Bool :=
  match t.form with
  | .expr (.ident identifier) => identifier.isText name
  | _ => false

/-- Whether a node declares a type. -/
def isTypeDeclaration (t : Tree) : Bool :=
  match t.form with
  | .member (.classType ..) | .member (.enumType ..) | .member .bareType => true
  | _ => false

/-- The name that a type declaration gives. -/
def declaredName? (t : Tree) : Option Word :=
  match t.form with
  | .member (.classType name ..) => some name
  | .member (.enumType name ..) => some name
  | _ => none

/-- The name that a node uses: the root of a type reference, or an identifier. -/
def usedName? (t : Tree) : Option Word :=
  match t.form with
  | .type (.named ..) => some t.rootName
  | .expr (.ident identifier) => some identifier
  | _ => none

/-- The type declarations of a unit. -/
def unitTypes (t : Tree) : List Tree :=
  match t.form with
  | .part (.unit _ _ types) => types
  | _ => []

/-- The names used in the types of a unit, each once. -/
def referencedNames (unit : Tree) : List String :=
  Text.distinct (((unit.unitTypes.flatMap walk).filterMap usedName?).filterMap Value.text?)

/-- The names of the types that a unit declares at any depth, each once. -/
def declaredNames (unit : Tree) : List String :=
  Text.distinct (((unit.unitTypes.flatMap walk).filterMap declaredName?).filterMap Value.text?)

/-- The type of a variable: the bracket pairs after its name are added to the declared type. -/
def variableType (base : Option Tree) (dimensions : Int) : Option Tree :=
  if dimensions = 0 then base
  else
    match base with
    | some (.node _ (.type (.array element outer))) =>
      some (.node {} (.type (.array element (outer + dimensions))))
    | base => some (.node {} (.type (.array base dimensions)))

end Recast.Tree
