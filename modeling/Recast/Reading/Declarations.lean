import Recast.Reading.Statements

/-!
Declarations of a parser's tree.

An initializer arrives as a bare sequence of statements. Whether it is static is looked up in the
source: the text before the last brace in front of its first statement ends in `static`, blanks
aside. An initializer without a positioned statement counts as static.
-/

namespace Recast.Reading

/-- The offsets at which the lines of a text start. -/
def lineStarts (text : List Char) : List Int :=
  0 :: (text.zipIdx.filter (·.1 = '\n')).map fun (_, i) => (i : Int) + 1

/-- The text up to a position; none if the text has not that many lines. Lines before the first are
counted from the last one back, and offsets before the start from the end of the text back. -/
def textBefore? (text : List Char) (p : Position) : Option (List Char) :=
  let starts := lineStarts text
  if (starts.length : Int) < p.line then none
  else
    let index := if p.line < 1 then p.line - 1 + starts.length else p.line - 1
    let offset := (starts[index.toNat]?).getD 0 + p.column - 1
    some (text.take (if offset < 0 then offset + text.length else offset).toNat)

/-- Whether the last opening brace of a text has the word `static` in front of it. -/
def staticBeforeBrace (text : List Char) : Bool :=
  let beforeBrace := (text.reverse.dropWhile (· ≠ '{')).drop 1
  "static".toList.reverse.isPrefixOf (beforeBrace.dropWhile Text.isBlank)

/-- Whether an initializer with the given statements is static. -/
def isStaticInitializer (text : String) (statements : List Tree) : Bool :=
  match statements.findSome? Tree.position with
  | none => true
  | some first =>
    match textBefore? text.toList first with
    | none => true
    | some before => staticBeforeBrace before

/-- A member of a type body; a bare sequence is an initializer. -/
def memberOf (own typeDeclaration : Read Tree) : ParseLayer Reading → Read Tree
  | .sequence statements => do
    let statements ← statements.mapM (·.stmt)
    let source ← read
    let body := bare (.stmt (.block statements))
    return bare (.member (.initializer (some body) (isStaticInitializer source.text statements)))
  | .node _ _ (.decl (.field ..)) | .node _ _ (.decl (.method ..))
  | .node _ _ (.decl (.constructor ..)) => own
  | .node _ _ form =>
    if form.declaresType then typeDeclaration else Read.unsupported (.member form.kind)
  | other => Read.unsupported (.member other.kind)

/-- The types that a declaration may throw. -/
def thrownTypes (names : List String) : List Tree := names.filterMap typeOfName

/-- The declarations, and their parts, that are read in their own right. -/
def declarationPart (mark : ParseMark) : ParseDecl Reading → Read Tree
  | .unit header imports types => do
    let header ← optional header (·.package)
    let imports ← imports.mapM (·.importing)
    let types ← types.mapM (·.typeDeclaration)
    return bare (.part (.unit header imports types))
  | .package name notes => do
    return at? mark.position (.part (.package name (← annotations notes)))
  | .importing path isStatic isWildcard =>
    return at? mark.position (.part (.importing ⟨path, isStatic, isWildcard, false⟩))
  | .classType name keywords notes typeParameters parent interfaces members => do
    let modifiers ← modifiers keywords (mark.position.map (·.line))
    let notes ← annotations notes
    let typeParameters ← typeParameters.mapM (·.typeParameter)
    let parent ← optional parent (·.type)
    let interfaces ← interfaces.mapM (·.type)
    let members ← members.mapM (·.member)
    return at? mark.position (.member (.classType name modifiers notes typeParameters
      parent.toList interfaces members false))
  | .interfaceType name keywords notes typeParameters parents members => do
    let modifiers ← modifiers keywords (mark.position.map (·.line))
    let notes ← annotations notes
    let typeParameters ← typeParameters.mapM (·.typeParameter)
    let parents ← parents.mapM (·.type)
    let members ← members.mapM (·.member)
    return at? mark.position (.member (.classType name modifiers notes typeParameters
      parents [] members true))
  | .enumType name keywords notes interfaces constants members => do
    let modifiers ← modifiers keywords (mark.position.map (·.line))
    let notes ← annotations notes
    let constants ← constants.mapM (·.constant)
    let interfaces ← interfaces.mapM (·.type)
    let members ← members.mapM (·.member)
    return at? mark.position
      (.member (.enumType name modifiers notes interfaces constants members))
  | .enumConstant name arguments body notes => do
    let arguments ← arguments.mapM (·.expr)
    let body ← body.mapM (·.mapM (·.member))
    let notes ← annotations notes
    return at? mark.position (.part (.enumConstant name arguments body notes))
  | .typeParameter name bounds => do
    return bare (.part (.typeParameter name (← bounds.mapM (·.type))))
  | .annotationUse name element => do
    return at? mark.position (.part (.annotationUse name (← element.elementArguments)))
  | .method name returnType parameters throws body keywords notes typeParameters => do
    let returnType ← returnType.type
    let parameters ← parameters.mapM (·.parameter)
    let body ← body.mapM (block none)
    let modifiers ← modifiers keywords (mark.position.map (·.line))
    let notes ← annotations notes
    let typeParameters ← typeParameters.mapM (·.typeParameter)
    return at? mark.position (.member (.method name (some returnType) parameters
      (thrownTypes throws) body modifiers notes typeParameters))
  | .constructor name parameters throws body keywords notes typeParameters => do
    let parameters ← parameters.mapM (·.parameter)
    let body ← block none body
    let modifiers ← modifiers keywords (mark.position.map (·.line))
    let notes ← annotations notes
    let typeParameters ← typeParameters.mapM (·.typeParameter)
    return at? mark.position (.member (.constructor name parameters
      (thrownTypes throws) (some body) modifiers notes typeParameters))
  | .field _ type declarators keywords notes => do
    let type ← type.type
    let declarators ← declarators.mapM (·.own)
    let modifiers ← modifiers keywords (mark.position.map (·.line))
    let notes ← annotations notes
    return at? mark.position (.member (.field (some type) declarators modifiers notes))
  | .declarator name dimensions initial => do
    let initial ← optional initial (·.expr)
    return at? mark.position (.part (.declarator name dimensions initial))
  | .formalParameter type name isVarargs keywords notes => do
    let type ← type.type
    let modifiers ← modifiers keywords (mark.position.map (·.line))
    let notes ← annotations notes
    return at? mark.position (.part (.parameter name (some type) modifiers notes isVarargs))
  | .inferredParameter name =>
    return at? mark.position (.part (.parameter name none [] [] false))
  | other => Read.unsupported (.member other.kind)

/-! ### Places where several shapes fit -/

/-- A parameter. The head of a resource has all that a parameter has. -/
def parameterOf (own : Read Tree) : ParseLayer Reading → Read Tree
  | .node mark _ (.stmt (.resource type name _ keywords notes)) =>
    declarationPart mark (.formalParameter type name false keywords notes)
  | _ => own

/-- A type parameter. The heads of an interface, and of a class without parent, have all that a type
parameter has. -/
def typeParameterOf (own : Read Tree) : ParseLayer Reading → Read Tree
  | .node mark _ (.decl (.interfaceType name _ _ _ parents _)) =>
    declarationPart mark (.typeParameter name parents)
  | .node mark _ (.decl (.classType name _ _ _ _ _ _)) =>
    declarationPart mark (.typeParameter name [])
  | _ => own

/-- A constant of an enum. A type with arguments has them read before it is refused. -/
def constantOf (own : Read Tree) : ParseLayer Reading → Read Tree
  | .node _ _ (.decl (.enumConstant ..)) => own
  | .node _ _ (.type (.reference name dimensions (some arguments) inner)) => do
    discard (arguments.mapM (·.expr))
    Read.unsupported (.member (ParseType.reference name dimensions (some arguments) inner).kind)
  | other => Read.unsupported (.member other.kind)

/-- An import of a unit. -/
def importOf (own : Read Tree) : ParseLayer Reading → Read Tree
  | .node _ _ (.decl (.importing ..)) => own
  | other => Read.unsupported (.member other.kind)

/-- The package of a unit. Whatever has a name and annotations can stand there. -/
def packageOf : ParseLayer Reading → Read Tree
  | .node mark selectors form =>
    match form.name?, form.notes? with
    | some name, some notes => declarationPart mark (.package name notes)
    | _, _ => Read.unsupported (.member (ParseLayer.node mark selectors form).kind)
  | other => Read.unsupported (.member other.kind)

/-- A whole unit. -/
def unitOf (own : Read Tree) : ParseLayer Reading → Read Tree
  | .node _ _ (.decl (.unit ..)) => own
  | other => Read.unsupported (.member other.kind)

/-- A type declaration. Any other declaration is refused by its kind and its name, after its
annotations have been read. -/
def typeDeclarationOf (own : Read Tree) : ParseLayer Reading → Read Tree
  | .node _ _ (.decl (.classType ..)) | .node _ _ (.decl (.interfaceType ..))
  | .node _ _ (.decl (.enumType ..)) => own
  | .node _ _ form => do
    discard (annotations (form.notes?.getD []))
    match form.name? with
    | some name => Read.unsupported (.typeDeclaration (form.kind ++ " " ++ name.display))
    | none => Read.unsupported (.typeDeclaration form.kind)
  | _ => own

/-- What a node is in its own right. -/
def ownOf : ParseLayer Reading → Read Tree
  | .node mark _ (.decl form) => declarationPart mark form
  | .node mark _ (.stmt form) => statementPart mark form
  | other => Read.unsupported (.member other.kind)

end Recast.Reading
