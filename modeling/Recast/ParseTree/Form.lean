import Recast.Position
import Recast.Value

/-!
The shapes of a Java parser's tree.

This is the tree as the parser hands it over, one layer at a time. The parser drops parentheses, and
hangs the operators and selectors around a parenthesised expression on the expression itself; so
every node may carry operators and selectors. It drops `static` before an initializer, which arrives
as a bare sequence of statements. A slot may hold a node, a sequence, a word, another value or
nothing at all.
-/

namespace Recast

/-- What any node of a parser's tree may carry. -/
structure ParseMark where
  position : Option Position := none
  /-- The label of a statement. -/
  label : Word := .null
  /-- The operators before an expression, the outermost first. -/
  before : List Word := []
  /-- The operators after an expression, the innermost first. -/
  after : List Word := []

/-- Types. -/
inductive ParseType (α : Type) where
  | basic (name : Word) (dimensions : Nat)
  /-- A class or interface; the next segment of a qualified type is its `inner` type. -/
  | reference (name : Word) (dimensions : Nat) (arguments : Option (List α)) (inner : α)
  /-- A type argument; `pattern` is `?`, `extends` or `super` for a wildcard. -/
  | argument (type : α) (pattern : Option String)

/-- Expressions. -/
inductive ParseExpr (α : Type) where
  | literal (value : Word)
  | memberReference (qualifier : String) (member : Word)
  | invocation (qualifier : String) (member : Word) (arguments : List α) (typeArguments : List α)
  | superMember (qualifier : String) (member : Word)
  | superInvocation (qualifier : String) (member : Word) (arguments : List α)
  | this (qualifier : Word)
  | create (type : α) (arguments : List α) (body : Option (List α))
  | createArray (type : α) (dimensions : List α) (initial : α)
  | arrayInitializer (values : List α)
  /-- `type.class`, of which the `qualifier` stands before the type; `isVoid` if it is spelled
  `void.class`. -/
  | classReference (isVoid : Bool) (qualifier : String) (type : α)
  | assignment (operator : Word) (target : α) (value : α)
  | ternary (condition : α) (whenTrue : α) (whenFalse : α)
  | binary (operator : Word) (left : α) (right : α)
  | cast (type : α) (expression : α)
  | lambda (parameters : List α) (body : α)
  | methodReference (target : α) (method : α)
  /-- `this(…)` in a constructor. -/
  | thisCall (arguments : List α)
  /-- `super(…)` in a constructor. -/
  | superCall (arguments : List α)
  /-- `[…]`, as a selector. -/
  | arraySelector (index : α)

/-- Statements and their parts. -/
inductive ParseStmt (α : Type) where
  /-- A declaration of variables, as a statement or inside the head of a loop. -/
  | bindings (isLocal : Bool) (type : α) (declarators : List α) (modifiers : List String)
      (annotations : List α)
  | block (statements : List α)
  | evaluate (expression : α)
  | ifElse (condition : α) (whenTrue : α) (whenFalse : α)
  | whileLoop (condition : α) (body : α)
  | doLoop (condition : α) (body : α)
  | forLoop (control : α) (body : α)
  | forControl (start : α) (condition : α) (update : List α)
  | forEachControl (binding : α) (iterable : α)
  | returning (expression : α)
  | throwing (expression : α)
  | breaking (target : Word)
  | continuing (target : Word)
  | switch (selector : α) (cases : List α)
  | switchCase (labels : List α) (statements : List α)
  | tryCatch (resources : List α) (body : List α) (catches : List α) (finalBlock : Option (List α))
  | resource (type : α) (name : Word) (value : α) (modifiers : List String) (annotations : List α)
  | catchClause (binding : α) (body : List α)
  | catchParameter (name : Word) (types : List String) (modifiers : List String)
      (annotations : List α)
  | synchronized (lock : α) (body : List α)
  | assertion (condition : α) (message : α)
  | empty

/-- Declarations and their parts. -/
inductive ParseDecl (α : Type) where
  | unit (header : α) (imports : List α) (types : List α)
  | package (name : Word) (annotations : List α)
  | importing (path : Word) (isStatic : Bool) (isWildcard : Bool)
  | classType (name : Word) (modifiers : List String) (annotations : List α)
      (typeParameters : List α) (parent : α) (interfaces : List α) (members : List α)
  | interfaceType (name : Word) (modifiers : List String) (annotations : List α)
      (typeParameters : List α) (parents : List α) (members : List α)
  | enumType (name : Word) (modifiers : List String) (annotations : List α)
      (interfaces : List α) (constants : List α) (members : List α)
  | enumBody (constants : List α) (members : List α)
  | enumConstant (name : Word) (arguments : List α) (body : Option (List α))
      (annotations : List α)
  | typeParameter (name : Word) (bounds : List α)
  | annotationUse (name : Word) (element : α)
  | elementPair (name : Word) (value : α)
  | elementArray (values : List α)
  | method (name : Word) (returnType : α) (parameters : List α) (throws : List String)
      (body : Option (List α)) (modifiers : List String) (annotations : List α)
      (typeParameters : List α)
  | constructor (name : Word) (parameters : List α) (throws : List String) (body : List α)
      (modifiers : List String) (annotations : List α) (typeParameters : List α)
  /-- A field of a class, or a constant of an interface. -/
  | field (isConstant : Bool) (type : α) (declarators : List α) (modifiers : List String)
      (annotations : List α)
  | declarator (name : Word) (dimensions : Nat) (initial : α)
  | formalParameter (type : α) (name : Word) (isVarargs : Bool) (modifiers : List String)
      (annotations : List α)
  | inferredParameter (name : Word)
  /-- A node that is not carried over, known by its kind, its name and its annotations. -/
  | other (kind : String) (name : Word) (annotations : List α)

/-- The shape of a node. -/
inductive ParseForm (α : Type) where
  | type (form : ParseType α)
  | expr (form : ParseExpr α)
  | stmt (form : ParseStmt α)
  | decl (form : ParseDecl α)

/-- One layer of a parser's tree. -/
inductive ParseLayer (α : Type) where
  | absent
  | word (text : String)
  | sequence (items : List α)
  /-- A value that is no part of a tree, known by its kind. -/
  | scalar (kind : String)
  | node (mark : ParseMark) (selectors : List α) (form : ParseForm α)

variable {α β : Type}

/-! ### Children, in slot order -/

namespace ParseType

def children : ParseType α → List α
  | .basic _ _ => []
  | .reference _ _ arguments inner => arguments.getD [] ++ [inner]
  | .argument type _ => [type]

end ParseType

namespace ParseExpr

def children : ParseExpr α → List α
  | .literal _ => []
  | .memberReference _ _ => []
  | .invocation _ _ arguments typeArguments => arguments ++ typeArguments
  | .superMember _ _ => []
  | .superInvocation _ _ arguments => arguments
  | .this _ => []
  | .create type arguments body => [type] ++ arguments ++ body.getD []
  | .createArray type dimensions initial => [type] ++ dimensions ++ [initial]
  | .arrayInitializer values => values
  | .classReference _ _ type => [type]
  | .assignment _ target value => [target] ++ [value]
  | .ternary condition whenTrue whenFalse => [condition] ++ [whenTrue] ++ [whenFalse]
  | .binary _ left right => [left] ++ [right]
  | .cast type expression => [type] ++ [expression]
  | .lambda parameters body => parameters ++ [body]
  | .methodReference target method => [target] ++ [method]
  | .thisCall arguments => arguments
  | .superCall arguments => arguments
  | .arraySelector index => [index]

end ParseExpr

namespace ParseStmt

def children : ParseStmt α → List α
  | .bindings _ type declarators _ annotations => [type] ++ declarators ++ annotations
  | .block statements => statements
  | .evaluate expression => [expression]
  | .ifElse condition whenTrue whenFalse => [condition] ++ [whenTrue] ++ [whenFalse]
  | .whileLoop condition body => [condition] ++ [body]
  | .doLoop condition body => [condition] ++ [body]
  | .forLoop control body => [control] ++ [body]
  | .forControl start condition update => [start] ++ [condition] ++ update
  | .forEachControl binding iterable => [binding] ++ [iterable]
  | .returning expression => [expression]
  | .throwing expression => [expression]
  | .breaking _ => []
  | .continuing _ => []
  | .switch selector cases => [selector] ++ cases
  | .switchCase labels statements => labels ++ statements
  | .tryCatch resources body catches finalBlock =>
    resources ++ body ++ catches ++ finalBlock.getD []
  | .resource type _ value _ annotations => [type] ++ [value] ++ annotations
  | .catchClause binding body => [binding] ++ body
  | .catchParameter _ _ _ annotations => annotations
  | .synchronized lock body => [lock] ++ body
  | .assertion condition message => [condition] ++ [message]
  | .empty => []

end ParseStmt

namespace ParseDecl

def children : ParseDecl α → List α
  | .unit header imports types => [header] ++ imports ++ types
  | .package _ annotations => annotations
  | .importing _ _ _ => []
  | .classType _ _ annotations typeParameters parent interfaces members =>
    annotations ++ typeParameters ++ [parent] ++ interfaces ++ members
  | .interfaceType _ _ annotations typeParameters parents members =>
    annotations ++ typeParameters ++ parents ++ members
  | .enumType _ _ annotations interfaces constants members =>
    annotations ++ interfaces ++ constants ++ members
  | .enumBody constants members => constants ++ members
  | .enumConstant _ arguments body annotations => arguments ++ body.getD [] ++ annotations
  | .typeParameter _ bounds => bounds
  | .annotationUse _ element => [element]
  | .elementPair _ value => [value]
  | .elementArray values => values
  | .method _ returnType parameters _ body _ annotations typeParameters =>
    [returnType] ++ parameters ++ body.getD [] ++ annotations ++ typeParameters
  | .constructor _ parameters _ body _ annotations typeParameters =>
    parameters ++ body ++ annotations ++ typeParameters
  | .field _ type declarators _ annotations => [type] ++ declarators ++ annotations
  | .declarator _ _ initial => [initial]
  | .formalParameter type _ _ _ annotations => [type] ++ annotations
  | .inferredParameter _ => []
  | .other _ _ annotations => annotations

end ParseDecl

namespace ParseForm

def children : ParseForm α → List α
  | .type form => form.children
  | .expr form => form.children
  | .stmt form => form.children
  | .decl form => form.children

end ParseForm

namespace ParseLayer

/-- The children of a layer, the selectors of a node last. -/
def children : ParseLayer α → List α
  | .absent => []
  | .word _ => []
  | .sequence items => items
  | .scalar _ => []
  | .node _ selectors form => form.children ++ selectors

end ParseLayer

/-! ### Mapping the children -/

namespace ParseType

def map (f : α → β) : ParseType α → ParseType β
  | .basic name dimensions => .basic name dimensions
  | .reference name dimensions arguments inner =>
    .reference name dimensions (arguments.map (·.map f)) (f inner)
  | .argument type pattern => .argument (f type) pattern

end ParseType

namespace ParseExpr

def map (f : α → β) : ParseExpr α → ParseExpr β
  | .literal value => .literal value
  | .memberReference qualifier member => .memberReference qualifier member
  | .invocation qualifier member arguments typeArguments =>
    .invocation qualifier member (arguments.map f) (typeArguments.map f)
  | .superMember qualifier member => .superMember qualifier member
  | .superInvocation qualifier member arguments =>
    .superInvocation qualifier member (arguments.map f)
  | .this qualifier => .this qualifier
  | .create type arguments body => .create (f type) (arguments.map f) (body.map (·.map f))
  | .createArray type dimensions initial => .createArray (f type) (dimensions.map f) (f initial)
  | .arrayInitializer values => .arrayInitializer (values.map f)
  | .classReference isVoid qualifier type => .classReference isVoid qualifier (f type)
  | .assignment operator target value => .assignment operator (f target) (f value)
  | .ternary condition whenTrue whenFalse => .ternary (f condition) (f whenTrue) (f whenFalse)
  | .binary operator left right => .binary operator (f left) (f right)
  | .cast type expression => .cast (f type) (f expression)
  | .lambda parameters body => .lambda (parameters.map f) (f body)
  | .methodReference target method => .methodReference (f target) (f method)
  | .thisCall arguments => .thisCall (arguments.map f)
  | .superCall arguments => .superCall (arguments.map f)
  | .arraySelector index => .arraySelector (f index)

end ParseExpr

namespace ParseStmt

def map (f : α → β) : ParseStmt α → ParseStmt β
  | .bindings isLocal type declarators modifiers annotations =>
    .bindings isLocal (f type) (declarators.map f) modifiers (annotations.map f)
  | .block statements => .block (statements.map f)
  | .evaluate expression => .evaluate (f expression)
  | .ifElse condition whenTrue whenFalse => .ifElse (f condition) (f whenTrue) (f whenFalse)
  | .whileLoop condition body => .whileLoop (f condition) (f body)
  | .doLoop condition body => .doLoop (f condition) (f body)
  | .forLoop control body => .forLoop (f control) (f body)
  | .forControl start condition update => .forControl (f start) (f condition) (update.map f)
  | .forEachControl binding iterable => .forEachControl (f binding) (f iterable)
  | .returning expression => .returning (f expression)
  | .throwing expression => .throwing (f expression)
  | .breaking target => .breaking target
  | .continuing target => .continuing target
  | .switch selector cases => .switch (f selector) (cases.map f)
  | .switchCase labels statements => .switchCase (labels.map f) (statements.map f)
  | .tryCatch resources body catches finalBlock =>
    .tryCatch (resources.map f) (body.map f) (catches.map f) (finalBlock.map (·.map f))
  | .resource type name value modifiers annotations =>
    .resource (f type) name (f value) modifiers (annotations.map f)
  | .catchClause binding body => .catchClause (f binding) (body.map f)
  | .catchParameter name types modifiers annotations =>
    .catchParameter name types modifiers (annotations.map f)
  | .synchronized lock body => .synchronized (f lock) (body.map f)
  | .assertion condition message => .assertion (f condition) (f message)
  | .empty => .empty

end ParseStmt

namespace ParseDecl

def map (f : α → β) : ParseDecl α → ParseDecl β
  | .unit header imports types => .unit (f header) (imports.map f) (types.map f)
  | .package name annotations => .package name (annotations.map f)
  | .importing path isStatic isWildcard => .importing path isStatic isWildcard
  | .classType name modifiers annotations typeParameters parent interfaces members =>
    .classType name modifiers (annotations.map f) (typeParameters.map f) (f parent)
      (interfaces.map f) (members.map f)
  | .interfaceType name modifiers annotations typeParameters parents members =>
    .interfaceType name modifiers (annotations.map f) (typeParameters.map f) (parents.map f)
      (members.map f)
  | .enumType name modifiers annotations interfaces constants members =>
    .enumType name modifiers (annotations.map f) (interfaces.map f) (constants.map f)
      (members.map f)
  | .enumBody constants members => .enumBody (constants.map f) (members.map f)
  | .enumConstant name arguments body annotations =>
    .enumConstant name (arguments.map f) (body.map (·.map f)) (annotations.map f)
  | .typeParameter name bounds => .typeParameter name (bounds.map f)
  | .annotationUse name element => .annotationUse name (f element)
  | .elementPair name value => .elementPair name (f value)
  | .elementArray values => .elementArray (values.map f)
  | .method name returnType parameters throws body modifiers annotations typeParameters =>
    .method name (f returnType) (parameters.map f) throws (body.map (·.map f)) modifiers
      (annotations.map f) (typeParameters.map f)
  | .constructor name parameters throws body modifiers annotations typeParameters =>
    .constructor name (parameters.map f) throws (body.map f) modifiers (annotations.map f)
      (typeParameters.map f)
  | .field isConstant type declarators modifiers annotations =>
    .field isConstant (f type) (declarators.map f) modifiers (annotations.map f)
  | .declarator name dimensions initial => .declarator name dimensions (f initial)
  | .formalParameter type name isVarargs modifiers annotations =>
    .formalParameter (f type) name isVarargs modifiers (annotations.map f)
  | .inferredParameter name => .inferredParameter name
  | .other kind name annotations => .other kind name (annotations.map f)

end ParseDecl

namespace ParseForm

def map (f : α → β) : ParseForm α → ParseForm β
  | .type form => .type (form.map f)
  | .expr form => .expr (form.map f)
  | .stmt form => .stmt (form.map f)
  | .decl form => .decl (form.map f)

end ParseForm

namespace ParseLayer

/-- The layer with every child replaced. -/
def map (f : α → β) : ParseLayer α → ParseLayer β
  | .absent => .absent
  | .word text => .word text
  | .sequence items => .sequence (items.map f)
  | .scalar kind => .scalar kind
  | .node mark selectors form => .node mark (selectors.map f) (form.map f)

end ParseLayer

/-! ### Names of the shapes -/

namespace ParseType

def kind : ParseType α → String
  | .basic .. => "BasicType"
  | .reference .. => "ReferenceType"
  | .argument .. => "TypeArgument"

end ParseType

namespace ParseExpr

def kind : ParseExpr α → String
  | .literal .. => "Literal"
  | .memberReference .. => "MemberReference"
  | .invocation .. => "MethodInvocation"
  | .superMember .. => "SuperMemberReference"
  | .superInvocation .. => "SuperMethodInvocation"
  | .this .. => "This"
  | .create .. => "ClassCreator"
  | .createArray .. => "ArrayCreator"
  | .arrayInitializer .. => "ArrayInitializer"
  | .classReference isVoid .. => if isVoid then "VoidClassReference" else "ClassReference"
  | .assignment .. => "Assignment"
  | .ternary .. => "TernaryExpression"
  | .binary .. => "BinaryOperation"
  | .cast .. => "Cast"
  | .lambda .. => "LambdaExpression"
  | .methodReference .. => "MethodReference"
  | .thisCall .. => "ExplicitConstructorInvocation"
  | .superCall .. => "SuperConstructorInvocation"
  | .arraySelector .. => "ArraySelector"

end ParseExpr

namespace ParseStmt

def kind : ParseStmt α → String
  | .bindings isLocal .. => if isLocal then "LocalVariableDeclaration" else "VariableDeclaration"
  | .block .. => "BlockStatement"
  | .evaluate .. => "StatementExpression"
  | .ifElse .. => "IfStatement"
  | .whileLoop .. => "WhileStatement"
  | .doLoop .. => "DoStatement"
  | .forLoop .. => "ForStatement"
  | .forControl .. => "ForControl"
  | .forEachControl .. => "EnhancedForControl"
  | .returning .. => "ReturnStatement"
  | .throwing .. => "ThrowStatement"
  | .breaking .. => "BreakStatement"
  | .continuing .. => "ContinueStatement"
  | .switch .. => "SwitchStatement"
  | .switchCase .. => "SwitchStatementCase"
  | .tryCatch .. => "TryStatement"
  | .resource .. => "TryResource"
  | .catchClause .. => "CatchClause"
  | .catchParameter .. => "CatchClauseParameter"
  | .synchronized .. => "SynchronizedStatement"
  | .assertion .. => "AssertStatement"
  | .empty => "Statement"

end ParseStmt

namespace ParseDecl

def kind : ParseDecl α → String
  | .unit .. => "CompilationUnit"
  | .package .. => "PackageDeclaration"
  | .importing .. => "Import"
  | .classType .. => "ClassDeclaration"
  | .interfaceType .. => "InterfaceDeclaration"
  | .enumType .. => "EnumDeclaration"
  | .enumBody .. => "EnumBody"
  | .enumConstant .. => "EnumConstantDeclaration"
  | .typeParameter .. => "TypeParameter"
  | .annotationUse .. => "Annotation"
  | .elementPair .. => "ElementValuePair"
  | .elementArray .. => "ElementArrayValue"
  | .method .. => "MethodDeclaration"
  | .constructor .. => "ConstructorDeclaration"
  | .field isConstant .. => if isConstant then "ConstantDeclaration" else "FieldDeclaration"
  | .declarator .. => "VariableDeclarator"
  | .formalParameter .. => "FormalParameter"
  | .inferredParameter .. => "InferredFormalParameter"
  | .other kind _ _ => kind

end ParseDecl

namespace ParseForm

def kind : ParseForm α → String
  | .type form => form.kind
  | .expr form => form.kind
  | .stmt form => form.kind
  | .decl form => form.kind

end ParseForm

/-- The name that a node carries, if its shape has one. -/
def ParseForm.name? : ParseForm α → Option Word
  | .type (.basic name _) | .type (.reference name _ _ _)
  | .stmt (.resource _ name _ _ _) | .stmt (.catchParameter name _ _ _)
  | .decl (.package name _) | .decl (.classType name _ _ _ _ _ _)
  | .decl (.interfaceType name _ _ _ _ _) | .decl (.enumType name _ _ _ _ _)
  | .decl (.enumConstant name _ _ _) | .decl (.typeParameter name _)
  | .decl (.annotationUse name _) | .decl (.elementPair name _)
  | .decl (.method name _ _ _ _ _ _ _) | .decl (.constructor name _ _ _ _ _ _)
  | .decl (.declarator name _ _) | .decl (.formalParameter _ name _ _ _)
  | .decl (.inferredParameter name) | .decl (.other _ name _) => some name
  | _ => none

/-- The annotations of a node, if its shape has some. -/
def ParseForm.notes? : ParseForm α → Option (List α)
  | .stmt (.bindings _ _ _ _ notes) | .stmt (.resource _ _ _ _ notes)
  | .stmt (.catchParameter _ _ _ notes)
  | .decl (.package _ notes) | .decl (.classType _ _ notes _ _ _ _)
  | .decl (.interfaceType _ _ notes _ _ _) | .decl (.enumType _ _ notes _ _ _)
  | .decl (.enumConstant _ _ _ notes) | .decl (.method _ _ _ _ _ _ notes _)
  | .decl (.constructor _ _ _ _ _ notes _) | .decl (.field _ _ _ _ notes)
  | .decl (.formalParameter _ _ _ _ notes) | .decl (.other _ _ notes) => some notes
  | _ => none

/-- Whether a node declares a type, be it of a kind that is carried over or not. -/
def ParseForm.declaresType : ParseForm α → Bool
  | .decl (.classType ..) | .decl (.interfaceType ..) | .decl (.enumType ..) => true
  | .decl (.other kind _ _) => kind = "AnnotationDeclaration" ∨ kind = "TypeDeclaration"
  | _ => false

namespace ParseLayer

/-- The name by which reports call what stands in a slot. -/
def kind : ParseLayer α → String
  | .absent => "NoneType"
  | .word _ => "str"
  | .sequence _ => "list"
  | .scalar kind => kind
  | .node _ _ form => form.kind

end ParseLayer

end Recast
