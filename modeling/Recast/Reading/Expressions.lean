import Recast.Reading.Types

/-!
Expressions of a parser's tree.

An expression is read together with what the parser hung on it: first the selectors are applied,
then the operators after it, then the operators before it, the innermost first.
-/

namespace Recast.Reading

/-- The target of a qualified name; none without qualifier. -/
def qualifierTarget (qualifier : String) : Option Tree :=
  if qualifier = "" then none else some (dotted qualifier)

/-- The segments of a type, from the outside in. -/
def typeSegments : ParseTree → List Word :=
  ParseTree.fold fun _ layer =>
    match layer with
    | .node _ _ (.type (.reference name _ _ inner)) => name :: inner
    | .node _ _ form => form.name?.toList
    | _ => []

/-- The target of a method reference: a type is named by its segments. -/
def referenceTarget (target : Reading) : Read Tree :=
  match target.tree.layer with
  | .node _ _ (.type (.basic ..)) | .node _ _ (.type (.reference ..)) =>
    return dotted (String.intercalate "." ((typeSegments target.tree).map Value.display))
  | .node _ _ (.decl (.other "Type" name _)) => return dotted name.display
  | _ => target.expr

/-- The name of the method that a method reference refers to. -/
def referredMethod (method : Reading) : Read Word :=
  match method.tree.layer with
  | .node _ _ (.expr (.memberReference _ member)) => return member
  | .node _ _ (.expr (.invocation _ member _ _)) => return member
  | .node _ _ (.expr (.superMember _ member)) => return member
  | .node _ _ (.expr (.superInvocation _ member _)) => return member
  | other => Read.unsupported (.expression other.kind)

/-- One form of expression, without what hangs on it. -/
def primaryForm (position : Option Position) : ParseExpr Reading → Read Tree
  | .literal value => return at? position (.expr (.literal value))
  | .memberReference qualifier member =>
    match qualifierTarget qualifier with
    | some target => return at? position (.expr (.field (some target) member))
    | none => return at? position (.expr (.ident member))
  | .invocation qualifier member arguments typeArguments => do
    let arguments ← arguments.mapM (·.expr)
    let typeArguments ← typeArguments.mapM (·.typeArgument)
    return at? position (.expr (.call member arguments (qualifierTarget qualifier) typeArguments))
  | .superInvocation _ member arguments => do
    let arguments ← arguments.mapM (·.expr)
    return at? position (.expr (.call member arguments (some (bare (.expr .super))) []))
  | .superMember _ member =>
    return at? position (.expr (.field (some (bare (.expr .super))) member))
  | .this qualifier =>
    return at? position (.expr (.this (if qualifier.isSet then qualifier else .null)))
  | .create type arguments body => do
    let type ← type.type
    let arguments ← arguments.mapM (·.expr)
    let body ← body.mapM (·.mapM (·.member))
    return at? position (.expr (.create (some type) arguments body))
  | .createArray type dimensions initial => do
    let type ← type.type
    let dimensions ← dimensions.mapM (optional · (·.expr))
    let initial ← optional initial (·.primary)
    return at? position (.expr (.arrayCreate (some type) dimensions initial))
  | .arrayInitializer values => do
    return at? position (.expr (.arrayLiteral (← values.mapM (·.expr))))
  | .classReference _ _ type => do
    return at? position (.expr (.classLiteral (some (← type.type))))
  | .assignment operator target value => do
    let target ← target.expr
    let value ← value.expr
    return at? position (.expr (.assign operator (some target) (some value)))
  | .ternary condition whenTrue whenFalse => do
    let condition ← condition.expr
    let whenTrue ← whenTrue.expr
    let whenFalse ← whenFalse.expr
    return at? position (.expr (.conditional (some condition) (some whenTrue) (some whenFalse)))
  | .binary operator left right => do
    let left ← left.expr
    if operator.isText "instanceof" then
      return at? position (.expr (.instanceOf (some left) (some (← right.type))))
    let right ← right.expr
    return at? position (.expr (.binary operator (some left) (some right)))
  | .cast type expression => do
    let type ← type.type
    let expression ← expression.expr
    return at? position (.expr (.cast (some type) (some expression)))
  | .lambda parameters body => do
    let body ← body.lambdaBody
    let parameters ← parameters.mapM (·.lambdaParameter)
    return at? position (.expr (.lambda parameters (some body)))
  | .methodReference target method => do
    let target ← referenceTarget target
    let name ← referredMethod method
    return at? position (.expr (.methodReference (some target) name))
  | other => Read.unsupported (.expression other.kind)

/-- Applies selectors from left to right. -/
def applySelectors (target : Tree) (selectors : List Reading) : Read Tree :=
  selectors.foldlM (fun target selector => selector.select target) target

/-- Applies the operators after an expression, then those before it, the innermost first. -/
def applyOperators (before after : List Word) (expression : Tree) : Tree :=
  let unary := fun isBefore (operand : Tree) operator =>
    bare (.expr (.unary operator (some operand) isBefore))
  before.reverse.foldl (unary true) (after.foldl (unary false) expression)

/-- An expression without what hangs on it. -/
def primaryOf : ParseLayer Reading → Read Tree
  | .node mark _ (.expr form) => primaryForm mark.position form
  | other => Read.unsupported (.expression other.kind)

/-- An expression with what hangs on it. -/
def exprOf : ParseLayer Reading → Read Tree
  | .node mark selectors (.expr form) => do
    let primary ← primaryForm mark.position form
    let selected ← applySelectors primary selectors
    return applyOperators mark.before mark.after selected
  | other => Read.unsupported (.expression other.kind)

/-- What a selector makes of its target. Its own selectors follow it; it has no operators. -/
def selectOf (layer : ParseLayer Reading) (target : Tree) : Read Tree :=
  match layer with
  | .node mark selectors (.expr (.invocation _ member arguments typeArguments)) => do
    let arguments ← arguments.mapM (·.expr)
    let typeArguments ← typeArguments.mapM (·.typeArgument)
    applySelectors
      (at? mark.position (.expr (.call member arguments (some target) typeArguments))) selectors
  | .node mark selectors (.expr (.memberReference _ member)) =>
    applySelectors (at? mark.position (.expr (.field (some target) member))) selectors
  | .node mark _ (.expr (.arraySelector index)) => do
    return at? mark.position (.expr (.subscript (some target) (some (← index.expr))))
  | other => Read.unsupported (.selector other.kind)

/-- A parameter of a lambda; a bare name has no type. -/
def lambdaParameterOf (parameter : Read Tree) : ParseLayer Reading → Read Tree
  | .node mark _ (.expr (.memberReference _ member)) =>
    return at? mark.position (.part (.parameter member none [] [] false))
  | _ => parameter

/-- The body of a lambda: a block or an expression. -/
def lambdaBodyOf : ParseLayer Reading → Read Tree
  | .sequence statements => block none statements
  | other => exprOf other

end Recast.Reading
