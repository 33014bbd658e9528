import Recast.Fault
import Recast.Tree.Names

/-!
Types as TypeScript writes them.

A marked optional type is the union of its argument with `null`; a wildcard is its upper bound, or
`any`; so is anything that is no type. The element of an array is put in parentheses where its text
is a union.
-/

namespace Recast.Render

/-- Whether a text is written as a union. -/
def isUnionText : List Char → Bool
  | ' ' :: '|' :: ' ' :: _ => true
  | _ :: rest => isUnionText rest
  | [] => false

/-- A type's text where an array's element stands. -/
def elementText (text : String) : String :=
  if isUnionText text.toList then "(" ++ text ++ ")" else text

/-- A type, or the reason why it cannot be written. -/
abbrev TypeText := Except BrokenState String

/-- One layer of a type, from the texts of its children. -/
def typeLayer (node : Tree) : Form TypeText → TypeText
  | .type (.named _ arguments _ true) =>
    match arguments with
    | some [argument] => do return (← argument) ++ " | null"
    | _ => .error (.optionalArity node.qualifiedName)
  | .type (.named _ arguments _ false) =>
    match arguments with
    | some (first :: rest) => do
      let texts ← (first :: rest).mapM id
      return node.qualifiedName ++ "<" ++ String.intercalate ", " texts ++ ">"
    | _ => .ok node.qualifiedName
  | .type (.array element dimensions) => do
    return elementText (← element.getD (.ok "any")) ++ Text.times dimensions.toNat "[]"
  | .type (.primitive name) => .ok name.display
  | .type .void => .ok "void"
  | .type (.union elements) => do
    return String.intercalate " | " (← elements.mapM id)
  | .type (.wildcard (some bound) (some .upper)) => bound
  | _ => .ok "any"

/-- A type's text. -/
def typeText : Tree → TypeText := Tree.fold typeLayer

/-- The text of the type in a slot; `any` if there is none. -/
def slotTypeText : Option Tree → TypeText
  | none => .ok "any"
  | some type => typeText type

/-- The text of an array type over the type in a slot. -/
def arrayTypeText (element : Option Tree) (dimensions : Int) : TypeText := do
  return elementText (← slotTypeText element) ++ Text.times dimensions.toNat "[]"

/-- One declared type variable, with its bounds. -/
def typeParameterText (parameter : Tree) : TypeText :=
  match parameter.form with
  | .part (.typeParameter name []) => .ok name.display
  | .part (.typeParameter name bounds) => do
    return name.display ++ " extends " ++ String.intercalate " & " (← bounds.mapM typeText)
  | _ => .ok ""

/-- A list of declared type variables; nothing if there are none. -/
def typeParametersText (parameters : List Tree) : TypeText :=
  match parameters with
  | [] => .ok ""
  | parameters => do
    return "<" ++ String.intercalate ", " (← parameters.mapM typeParameterText) ++ ">"

/-- The name of a type at run time, without type arguments. -/
def runtimeName (type : Option Tree) : TypeText :=
  match type.map Tree.form with
  | some (.type (.named ..)) => .ok ((type.map Tree.qualifiedName).getD "")
  | some (.type (.array ..)) => .ok "Array"
  | _ => slotTypeText type

/-- Whether a run-time name is tested with `typeof`. -/
def isTypeofName (name : String) : Bool := name ∈ ["string", "number", "boolean"]

end Recast.Render
