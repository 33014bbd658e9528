import Recast.Lowering.Rules
import Recast.Text.Capital

/-!
The members that annotations of a class ask for.

A class may be annotated to get constructors, setters and getters. `summarize` collects what these
members depend on, `synthesized` builds them in a fixed order (constructor without arguments,
constructor with all fields, setters, getters), and `materialize` adds them to the class and removes
the annotations.
-/

namespace Recast.Lowering

/-- An instance field as its accessors see it. -/
structure AccessorField where
  name : Word
  type : Option Tree
  isFinal : Bool
  getter : Bool
  setter : Bool

/-- What the synthesized members of a class depend on. -/
structure AccessorSummary where
  className : Word
  /-- Whether the class extends another. -/
  hasParent : Bool
  noArgsConstructor : Bool
  allArgsConstructor : Bool
  fields : List AccessorField

/-- The class annotations that ask for members. -/
def classAnnotations : List String :=
  ["Getter", "Setter", "NoArgsConstructor", "AllArgsConstructor", "Data"]

/-- The field annotations that ask for members. -/
def fieldAnnotations : List String := ["Getter", "Setter"]

/-- The fields that one member declares; static ones have no accessors. -/
def accessorFields (getters setters : Bool) (member : Tree) : List AccessorField :=
  match member.form with
  | .member (.field type bindings modifiers annotations) =>
    if .static ∈ modifiers then []
    else
      let names := annotations.map Tree.annotationName
      let isFinal := decide (.final ∈ modifiers)
      bindings.filterMap fun declared =>
        match declared.form with
        | .part (.declarator name dimensions _) => some {
            name
            type := Tree.variableType type dimensions
            isFinal
            getter := getters || names.contains "Getter"
            setter := (setters || names.contains "Setter") && !isFinal }
        | _ => none
  | _ => []

/-- Collects what the synthesized members of a class depend on. -/
def summarize (decl : Tree) : AccessorSummary :=
  match decl.form with
  | .member (.classType className _ annotations _ parents _ members _) =>
    let names := annotations.map Tree.annotationName
    let has := fun name => names.contains name
    { className
      hasParent := !parents.isEmpty
      noArgsConstructor := has "NoArgsConstructor"
      allArgsConstructor := has "AllArgsConstructor"
      fields := members.flatMap
        (accessorFields (has "Getter" || has "Data") (has "Setter" || has "Data")) }
  | _ => ⟨.null, false, false, false, []⟩

/-- `this.f`. -/
def thisField (name : Word) : Tree :=
  plain (.expr (.field (some (plain (.expr (.this .null)))) name))

/-- `this.f = f;`. -/
def assignField (name : Word) : Tree :=
  plain (.stmt (.evaluate (some
    (plain (.expr (.assign (.text "=") (some (thisField name)) (some (ident name))))))))

/-- The call of the parent's constructor that a synthesized constructor starts with. -/
def parentCall (summary : AccessorSummary) : List Tree :=
  if summary.hasParent then [plain (.stmt (.constructorCall false []))] else []

/-- The parameter that sets a field. -/
def fieldParameter (field : AccessorField) : Tree :=
  plain (.part (.parameter field.name field.type [] [] false))

/-- A public constructor. -/
def publicConstructor (className : Word) (parameters statements : List Tree) : Tree :=
  plain (.member (.constructor className parameters [] (some (plain (.stmt (.block statements))))
    [.pub] [] []))

/-- A public method. -/
def publicMethod (name : String) (returnType : Option Tree) (parameters statements : List Tree) :
    Tree :=
  plain (.member (.method (.text name) returnType parameters []
    (some (plain (.stmt (.block statements)))) [.pub] [] []))

/-- The setter of a field. -/
def setterOf (field : AccessorField) : Tree :=
  publicMethod ("set" ++ Text.capitalize field.name.display) (some (plain (.type .void)))
    [fieldParameter field] [assignField field.name]

/-- The getter of a field. -/
def getterOf (field : AccessorField) : Tree :=
  publicMethod ("get" ++ Text.capitalize field.name.display) field.type []
    [plain (.stmt (.returning (some (thisField field.name))))]

/-- The synthesized members, in the order in which they are declared. -/
def synthesized (summary : AccessorSummary) : List Tree :=
  (if summary.noArgsConstructor then
    [publicConstructor summary.className [] (parentCall summary)] else [])
  ++ (if summary.allArgsConstructor then
    [publicConstructor summary.className (summary.fields.map fieldParameter)
      (parentCall summary ++ summary.fields.map (assignField ·.name))] else [])
  ++ (summary.fields.filter (·.setter)).map setterOf
  ++ (summary.fields.filter (·.getter)).map getterOf

/-- The annotations whose names are not listed. -/
def withoutAnnotations (names : List String) (annotations : List Tree) : List Tree :=
  annotations.filter fun use => use.annotationName ∉ names

/-- An instance field without the annotations that ask for accessors. -/
def stripField (member : Tree) : Tree :=
  match member.form with
  | .member (.field type bindings modifiers annotations) =>
    if .static ∈ modifiers then member
    else member.withForm (.member (.field type bindings modifiers
      (withoutAnnotations fieldAnnotations annotations)))
  | _ => member

/-- A class with the members that its annotations ask for in place of the annotations. -/
def materialize (decl : Tree) : Tree :=
  match decl.form with
  | .member (.classType name modifiers annotations typeParameters parents interfaces members
      isInterface) =>
    decl.withForm (.member (.classType name modifiers
      (withoutAnnotations classAnnotations annotations) typeParameters parents interfaces
      (members.map stripField ++ synthesized (summarize decl)) isInterface))
  | _ => decl

/-- Classes get the members that their annotations ask for; interfaces have none. -/
def accessors : Rule := fun _ after =>
  match after.form with
  | .member (.classType _ _ _ _ _ _ _ false) => some (materialize after)
  | _ => some after

end Recast.Lowering
