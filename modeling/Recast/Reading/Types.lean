import Recast.Reading.Basic

/-!
Types and annotations of a parser's tree.

Where a type is expected and none stands, it is `void`. The dimensions of a qualified array type are
spread over its segments and are added up. An annotation inside an annotation's value keeps its name
only.
-/

namespace Recast.Reading

/-- An array of the given number of dimensions; zero dimensions leave the type as it is. -/
def arrayOf (element : Tree) (dimensions : Nat) : Tree :=
  if dimensions = 0 then element else bare (.type (.array (some element) dimensions))

/-- The number of dimensions that a type carries itself. -/
def ownDimensions (t : ParseTree) : Nat :=
  match t.layer with
  | .node _ _ (.type (.basic _ dimensions)) => dimensions
  | .node _ _ (.type (.reference _ dimensions _ _)) => dimensions
  | _ => 0

/-- A reference type inside a scope, and the dimensions of the segments inside it. -/
def referenceOf (layer : ParseLayer Reading) (scope : Option Tree) : Read (Tree × Nat) :=
  match layer with
  | .node mark _ (.type (.reference name _ arguments inner)) => do
    let arguments ← arguments.mapM (·.mapM (·.typeArgument))
    let current := at? mark.position (.type (.named name arguments scope false))
    if inner.tree.isAbsent then return (current, 0)
    let (innermost, dimensions) ← inner.reference (some current)
    return (innermost, dimensions + ownDimensions inner.tree)
  | other => Read.unsupported (.expression other.kind)

/-- A type, `void` if there is none. -/
def typeOf : ParseLayer Reading → Read Tree
  | .absent => return bare (.type .void)
  | .node _ _ (.type (.basic name dimensions)) =>
    return arrayOf (bare (.type (.primitive name))) dimensions
  | .node mark selectors (.type (.reference name dimensions arguments inner)) => do
    let (base, innerDimensions) ←
      referenceOf (.node mark selectors (.type (.reference name dimensions arguments inner))) none
    return arrayOf base (dimensions + innerDimensions)
  | other => Read.unsupported (.expression other.kind)

/-- A type argument: a wildcard or a type. -/
def typeArgumentOf : ParseLayer Reading → Read Tree
  | .node _ _ (.type (.argument type pattern)) =>
    match pattern with
    | some "?" => return bare (.type (.wildcard none none))
    | some "extends" => return bare (.type (.wildcard (some (← type.type)) (some .upper)))
    | some "super" => return bare (.type (.wildcard (some (← type.type)) (some .lower)))
    | _ => type.type
  | other => typeOf other

/-- The annotations of a declaration. -/
def annotations (nodes : List Reading) : Read (List Tree) := nodes.mapM (·.own)

/-- A value inside an annotation: a list of values, the name of an annotation, or an expression. -/
def elementValueOf (own expr : Read Tree) : ParseLayer Reading → Read Tree
  | .node _ _ (.decl (.elementArray values)) => do
    return bare (.expr (.arrayLiteral (← values.mapM (·.elementValue))))
  | .node _ _ (.decl (.annotationUse name _)) => do
    let _ ← own
    return bare (.expr (.literal (.text ("@" ++ name.display))))
  | _ => expr

/-- A named value in an annotation. Whatever has a name and a value can stand there. -/
def namedValueOf (own : Read Tree) : ParseLayer Reading → Read Tree
  | .node _ _ (.decl (.elementPair name value))
  | .node _ _ (.stmt (.resource _ name value _ _)) => do
    return bare (.part (.annotationArgument name (some (← value.elementValue))))
  | _ => own

/-- The arguments of an annotation with the given element: none, named ones, or a single value. -/
def elementArgumentsOf (value : Read Tree) : ParseLayer Reading → Read (List Tree)
  | .absent => return []
  | .sequence pairs => pairs.mapM (·.namedValue)
  | _ => return [bare (.part (.annotationArgument .null (some (← value))))]

end Recast.Reading
