import Recast.Render.Basic
import Recast.Render.Literal

/-!
Expressions as TypeScript writes them.

The parser dropped all parentheses. An operand is put in parentheses again where it binds looser
than its place asks for.
-/

namespace Recast.Render

/-! ### Binding strength -/

def assignmentLevel : Nat := 1

def conditionalLevel : Nat := 2

def unaryLevel : Nat := 14

def postfixLevel : Nat := 15

def primaryLevel : Nat := 16

/-- The binding strength of a binary operator; an unknown one binds like a prefix operator. -/
def binaryLevel : String → Nat
  | "||" => 3
  | "&&" => 4
  | "|" => 5
  | "^" => 6
  | "&" => 7
  | "==" | "!=" => 8
  | "<" | ">" | "<=" | ">=" | "instanceof" => 9
  | "<<" | ">>" | ">>>" => 10
  | "+" | "-" => 11
  | "*" | "/" | "%" => 12
  | _ => unaryLevel

/-- The binding strength of an expression's outermost operator. -/
def bindingLevel (t : Tree) : Nat :=
  match t.form with
  | .expr (.binary operator _ _) => binaryLevel operator.display
  | .expr (.instanceOf ..) => binaryLevel "instanceof"
  | .expr (.unary _ _ isBefore) => if isBefore then unaryLevel else postfixLevel
  | .expr (.assign ..) => assignmentLevel
  | .expr (.conditional ..) => conditionalLevel
  | .expr (.lambda ..) => assignmentLevel
  | _ => primaryLevel

/-- An operand, in parentheses if it binds looser than its place asks for. -/
def operand (slot : Option Rendering) (minimum : Nat) : Render String := do
  let code ← slotExpr slot
  let level := ((slotNode slot).map bindingLevel).getD primaryLevel
  return if level < minimum then "(" ++ code ++ ")" else code

/-- Java's equality is TypeScript's strict equality. -/
def operatorText : String → String
  | "==" => "==="
  | "!=" => "!=="
  | operator => operator

/-! ### Parts -/

/-- A list of arguments. -/
def argumentsText (arguments : List Rendering) : Render String := do
  return String.intercalate ", " (← arguments.mapM (·.expr))

/-- An operator before its operand. A sign in front of the same sign keeps them apart by
parentheses. -/
def prefixText (operator operand : String) : String :=
  if (operator = "-" ∨ operator = "+") ∧ operator.toList.isPrefixOf operand.toList then
    operator ++ "(" ++ operand ++ ")"
  else operator ++ operand

/-- A test whether a value has a type, by `typeof` for scalar types. -/
def typeTest (type : Option Tree) (subject : Nat → Render String) : Render String := do
  let name ← ofType (runtimeName type)
  if isTypeofName name then
    return "typeof " ++ (← subject unaryLevel) ++ " === '" ++ name ++ "'"
  return (← subject (binaryLevel "instanceof")) ++ " instanceof " ++ name

/-- The type arguments of a call. -/
def typeArgumentsText (types : List Tree) : Render String := do
  if types.isEmpty then return ""
  return "<" ++ String.intercalate ", " (← types.mapM fun t => ofType (typeText t)) ++ ">"

/-- The class that an object creation names; empty brackets leave the arguments to inference. -/
def createdType (type : Option Tree) : Render String := do
  let text ← ofType (slotTypeText type)
  match type.map Tree.form with
  | some (.type (.named _ (some []) _ _)) => return (type.map Tree.qualifiedName).getD ""
  | _ => return text

/-- An array with the given sizes; inner arrays are made along with it as far as they are sized. -/
def sizedArray (element : String) : List (Option Rendering) → Render String
  | [] => return "new Array<" ++ element ++ ">()"
  | none :: inner =>
    return "new Array<" ++ element ++ Text.times inner.length "[]" ++ ">()"
  | some size :: inner => do
    let length ← size.expr
    match inner with
    | some _ :: _ =>
      let rest ← sizedArray element inner
      return "Array.from(\x7blength: " ++ length ++ "\x7d, () => " ++ rest ++ ")"
    | _ =>
      return "new Array<" ++ element ++ Text.times inner.length "[]" ++ ">(" ++ length ++ ")"

/-- A parameter of a lambda. -/
def lambdaParameter (r : Rendering) : Render String :=
  match r.node.form with
  | .part (.parameter name none _ _ _) => return name.display
  | .part (.parameter name (some type) _ _ _) => do
    return name.display ++ ": " ++ (← ofType (typeText type))
  | _ => return ""

/-- The body of a lambda: a block, or an expression. -/
def lambdaBody (slot : Option Rendering) : Render String := do
  match slot with
  | some r =>
    if r.isBlock then
      let scope ← read
      if scope.attached then inBody (r.block true)
      else unsupported .lambdaBlock
    else operand slot assignmentLevel
  | none => operand none assignmentLevel

/-- A method reference as a function. -/
def methodReferenceText (target : Option Rendering) (name : Word) : Render String := do
  let text ← operand target postfixLevel
  if name.isText "new" then return "(...args) => new " ++ text ++ "(...args)"
  match (slotNode target).map Tree.form with
  | some (.expr (.this _)) => return "this." ++ name.display ++ ".bind(this)"
  | _ => return text ++ "." ++ name.display

/-! ### Expressions -/

/-- An expression, from the renderings of its children. -/
def exprForm (node : Tree) : ExprForm Rendering → Render String
  | .literal value => return Literal.render value.display
  | .ident identifier => return identifier.display
  | .this _ => return "this"
  | .super => return "super"
  | .field target name => do
    return (← operand target postfixLevel) ++ "." ++ name.display
  | .call name arguments target typeArguments => do
    let arguments ← argumentsText arguments
    let typeArguments ← typeArgumentsText (typeArguments.map (·.node))
    let call := name.display ++ typeArguments ++ "(" ++ arguments ++ ")"
    match target with
    | none => return call
    | target => return (← operand target postfixLevel) ++ "." ++ call
  | .binary operator left right => do
    let level := binaryLevel operator.display
    let left ← operand left level
    let right ← operand right (level + 1)
    return left ++ " " ++ operatorText operator.display ++ " " ++ right
  | .unary operator inner true => do
    return prefixText operator.display (← operand inner unaryLevel)
  | .unary operator inner false => do
    return (← operand inner postfixLevel) ++ operator.display
  | .assign operator target value => do
    let target ← operand target unaryLevel
    let value ← operand value assignmentLevel
    return target ++ " " ++ operator.display ++ " " ++ value
  | .conditional condition whenTrue whenFalse => do
    let condition ← operand condition (conditionalLevel + 1)
    let whenTrue ← operand whenTrue assignmentLevel
    let whenFalse ← operand whenFalse conditionalLevel
    return condition ++ " ? " ++ whenTrue ++ " : " ++ whenFalse
  | .cast type expression => do
    let expression ← operand expression unaryLevel
    let type ← ofType (slotTypeText (slotNode type))
    return "(" ++ expression ++ " as " ++ type ++ ")"
  | .instanceOf expression type => typeTest (slotNode type) (operand expression)
  | .subscript target index => do
    let target ← operand target postfixLevel
    let index ← slotExpr index
    return target ++ "[" ++ index ++ "]"
  | .create type arguments body => do
    if body.isSome then
      unsupported (.anonymousClass ((type.map (·.node.qualifiedName)).getD "") node.trivia.line?)
    let type ← createdType (slotNode type)
    return "new " ++ type ++ "(" ++ (← argumentsText arguments) ++ ")"
  | .arrayCreate element dimensions initial => do
    match initial with
    | some initial => initial.expr
    | none =>
      let element ← ofType (slotTypeText (slotNode element))
      sizedArray (elementText element) dimensions
  | .arrayLiteral values => do
    return "[" ++ (← argumentsText values) ++ "]"
  | .lambda parameters body => do
    let parameters ← parameters.mapM lambdaParameter
    let body ← lambdaBody body
    return "(" ++ String.intercalate ", " parameters ++ ") => " ++ body
  | .methodReference target name => methodReferenceText target name
  | .classLiteral type => ofType (runtimeName (slotNode type))
  | .bare => unsupported (.expression node.kind)

/-- A node where an expression stands. -/
def exprOf (node : Tree) : Form Rendering → Render String
  | .expr form => exprForm node form
  | _ => unsupported (.expression node.kind)

end Recast.Render
