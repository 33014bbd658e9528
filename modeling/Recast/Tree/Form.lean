import Recast.Position
import Recast.Value

/-!
The shapes a node of a Java syntax tree can have.

`Form α` is one layer of a tree: a shape together with the `α`s that stand in its child slots. It is
grouped by what the shape is (a type, an expression, a statement, a member of a type body, or a part
of one of these), but a slot accepts any `α`, so a tree may hold a statement where an expression is
expected; readers that meet one report it by `Form.kind`.

A slot that holds one child may be empty, because removing a node empties the slot it stood in.

The operations on a layer are `children`, the children in the order in which the slots are declared;
`map`; `filterMap`, which also removes children; and `tag`, which numbers the children in that order.
-/

namespace Recast

/-- A declaration modifier that has a place in the output. -/
inductive Modifier where
  | pub
  | prot
  | priv
  | abstr
  | static
  | final
deriving DecidableEq, Repr

namespace Modifier

/-- Every modifier, in the order in which declarations list them. -/
def all : List Modifier := [.pub, .prot, .priv, .abstr, .static, .final]

/-- The keyword of a modifier. -/
def keyword : Modifier → String
  | .pub => "public"
  | .prot => "protected"
  | .priv => "private"
  | .abstr => "abstract"
  | .static => "static"
  | .final => "final"

/-- The modifier a keyword names. -/
def ofKeyword? (word : String) : Option Modifier := all.find? fun m => m.keyword = word

end Modifier

/-- The direction of a wildcard's bound. -/
inductive BoundKind where
  /-- `? extends T` -/
  | upper
  /-- `? super T` -/
  | lower
deriving DecidableEq, Repr

/-- The part of an import declaration that is not trivia. An `encoded` name is a module specifier in
dotted form; any other name is a Java qualified name. -/
structure ImportName where
  name : Word
  isStatic : Bool := false
  isAsterisk : Bool := false
  encoded : Bool := false
deriving Inhabited

/-! ### Layers, by sort -/

/-- Type references. -/
inductive TypeForm (α : Type) where
  /-- A named type. `arguments` is `none` without angle brackets and empty for `<>`; `orNull` marks
  an optional type, which is rendered as a union with `null`. -/
  | named (name : Word) (arguments : Option (List α)) (scope : Option α) (orNull : Bool)
  | primitive (name : Word)
  | array (element : Option α) (dimensions : Int)
  /-- The alternatives of a multi-catch parameter. -/
  | union (elements : List α)
  | void
  | wildcard (bound : Option α) (kind : Option BoundKind)
  /-- A type reference of no particular shape. -/
  | bare

/-- Expressions. -/
inductive ExprForm (α : Type) where
  | ident (identifier : Word)
  /-- A literal, as it is spelled in the source. -/
  | literal (value : Word)
  | this (qualifier : Word)
  | super
  | field (target : Option α) (name : Word)
  | call (name : Word) (arguments : List α) (target : Option α) (typeArguments : List α)
  /-- `new T(…)`; `body` is present for an anonymous class. -/
  | create (type : Option α) (arguments : List α) (body : Option (List α))
  | arrayLiteral (values : List α)
  /-- `new T[n][]`, with one entry per bracket pair, empty for an empty pair. -/
  | arrayCreate (element : Option α) (dimensions : List (Option α)) (initial : Option α)
  | subscript (target : Option α) (index : Option α)
  | binary (operator : Word) (left : Option α) (right : Option α)
  | unary (operator : Word) (operand : Option α) (isBefore : Bool)
  | assign (operator : Word) (target : Option α) (value : Option α)
  | conditional (condition : Option α) (whenTrue : Option α) (whenFalse : Option α)
  | cast (type : Option α) (expression : Option α)
  | instanceOf (expression : Option α) (type : Option α)
  /-- An arrow function whose body is an expression or a block. -/
  | lambda (parameters : List α) (body : Option α)
  | methodReference (target : Option α) (name : Word)
  | classLiteral (type : Option α)
  /-- An expression of no particular shape. -/
  | bare

/-- The first clause of a `for` loop: nothing, one declaration, or a list of expressions. -/
inductive LoopStart (α : Type) where
  | absent
  | declaration (node : α)
  | expressions (nodes : List α)

/-- Statements. -/
inductive StmtForm (α : Type) where
  | block (statements : List α)
  | localVariable (type : Option α) (bindings : List α) (modifiers : List Modifier)
      (annotations : List α)
  | evaluate (expression : Option α)
  | ifElse (condition : Option α) (whenTrue : Option α) (whenFalse : Option α)
  | whileLoop (condition : Option α) (body : Option α)
  | doLoop (condition : Option α) (body : Option α)
  | forLoop (start : LoopStart α) (condition : Option α) (update : List α) (body : Option α)
  | forEach (binding : Option α) (iterable : Option α) (body : Option α)
  | returning (expression : Option α)
  | throwing (expression : Option α)
  | breaking (label : Word)
  | continuing (label : Word)
  | empty
  | switch (selector : Option α) (cases : List α)
  | tryCatch (body : Option α) (resources : List α) (catches : List α) (finalBlock : Option α)
  | synchronized (lock : Option α) (body : Option α)
  | assertion (condition : Option α) (message : Option α)
  | labeled (label : Word) (statement : Option α)
  /-- `this(…)` or `super(…)` at the start of a constructor. -/
  | constructorCall (isThis : Bool) (arguments : List α)
  | localType (declaration : Option α)
  /-- A statement of no particular shape. -/
  | bare

/-- Members of a type body, type declarations included. -/
inductive MemberForm (α : Type) where
  | field (type : Option α) (bindings : List α) (modifiers : List Modifier) (annotations : List α)
  | method (name : Word) (returnType : Option α) (parameters : List α) (throws : List α)
      (body : Option α) (modifiers : List Modifier) (annotations : List α) (typeParameters : List α)
  | constructor (name : Word) (parameters : List α) (throws : List α) (body : Option α)
      (modifiers : List Modifier) (annotations : List α) (typeParameters : List α)
  | initializer (body : Option α) (isStatic : Bool)
  /-- A class or an interface. -/
  | classType (name : Word) (modifiers : List Modifier) (annotations : List α)
      (typeParameters : List α) (parents : List α) (interfaces : List α) (members : List α)
      (isInterface : Bool)
  | enumType (name : Word) (modifiers : List Modifier) (annotations : List α)
      (interfaces : List α) (constants : List α) (members : List α)
  /-- A type declaration of no particular shape. -/
  | bareType
  /-- A member of no particular shape. -/
  | bare

/-- Parts that are neither types, expressions, statements nor members. -/
inductive PartForm (α : Type) where
  | typeParameter (name : Word) (bounds : List α)
  /-- One argument of an annotation; `name` is null in the shorthand for a single value. -/
  | annotationArgument (name : Word) (value : Option α)
  | annotationUse (name : Word) (arguments : List α)
  /-- One declared variable; `dimensions` counts the bracket pairs after its name. -/
  | declarator (name : Word) (dimensions : Int) (initial : Option α)
  /-- One group of a `switch`; no labels means `default`. -/
  | switchCase (labels : List α) (statements : List α)
  | catchClause (binding : Option α) (body : Option α)
  /-- A parameter; `type` is absent where a lambda leaves it to be inferred. -/
  | parameter (name : Word) (type : Option α) (modifiers : List Modifier) (annotations : List α)
      (isVarargs : Bool)
  | enumConstant (name : Word) (arguments : List α) (body : Option (List α))
      (annotations : List α)
  | package (name : Word) (annotations : List α)
  | importing (decl : ImportName)
  | unit (header : Option α) (imports : List α) (types : List α)

/-- One layer of a syntax tree. -/
inductive Form (α : Type) where
  | type (form : TypeForm α)
  | expr (form : ExprForm α)
  | stmt (form : StmtForm α)
  | member (form : MemberForm α)
  | part (form : PartForm α)
  /-- What stands where a node belongs and is none, known by its kind. -/
  | foreign (kind : String)

variable {α β : Type}

/-! ### Children, in slot order -/

namespace TypeForm

def children : TypeForm α → List α
  | .named _ arguments scope _ => arguments.getD [] ++ scope.toList
  | .primitive _ => []
  | .array element _ => element.toList
  | .union elements => elements
  | .void => []
  | .wildcard bound _ => bound.toList
  | .bare => []

end TypeForm

namespace ExprForm

def children : ExprForm α → List α
  | .ident _ => []
  | .literal _ => []
  | .this _ => []
  | .super => []
  | .field target _ => target.toList
  | .call _ arguments target typeArguments => arguments ++ target.toList ++ typeArguments
  | .create type arguments body => type.toList ++ arguments ++ body.getD []
  | .arrayLiteral values => values
  | .arrayCreate element dimensions initial =>
    element.toList ++ dimensions.filterMap id ++ initial.toList
  | .subscript target index => target.toList ++ index.toList
  | .binary _ left right => left.toList ++ right.toList
  | .unary _ operand _ => operand.toList
  | .assign _ target value => target.toList ++ value.toList
  | .conditional condition whenTrue whenFalse =>
    condition.toList ++ whenTrue.toList ++ whenFalse.toList
  | .cast type expression => type.toList ++ expression.toList
  | .instanceOf expression type => expression.toList ++ type.toList
  | .lambda parameters body => parameters ++ body.toList
  | .methodReference target _ => target.toList
  | .classLiteral type => type.toList
  | .bare => []

end ExprForm

namespace LoopStart

def children : LoopStart α → List α
  | .absent => []
  | .declaration node => [node]
  | .expressions nodes => nodes

end LoopStart

namespace StmtForm

def children : StmtForm α → List α
  | .block statements => statements
  | .localVariable type bindings _ annotations => type.toList ++ bindings ++ annotations
  | .evaluate expression => expression.toList
  | .ifElse condition whenTrue whenFalse =>
    condition.toList ++ whenTrue.toList ++ whenFalse.toList
  | .whileLoop condition body => condition.toList ++ body.toList
  | .doLoop condition body => condition.toList ++ body.toList
  | .forLoop start condition update body =>
    start.children ++ condition.toList ++ update ++ body.toList
  | .forEach binding iterable body => binding.toList ++ iterable.toList ++ body.toList
  | .returning expression => expression.toList
  | .throwing expression => expression.toList
  | .breaking _ => []
  | .continuing _ => []
  | .empty => []
  | .switch selector cases => selector.toList ++ cases
  | .tryCatch body resources catches finalBlock =>
    body.toList ++ resources ++ catches ++ finalBlock.toList
  | .synchronized lock body => lock.toList ++ body.toList
  | .assertion condition message => condition.toList ++ message.toList
  | .labeled _ statement => statement.toList
  | .constructorCall _ arguments => arguments
  | .localType declaration => declaration.toList
  | .bare => []

end StmtForm

namespace MemberForm

def children : MemberForm α → List α
  | .field type bindings _ annotations => type.toList ++ bindings ++ annotations
  | .method _ returnType parameters throws body _ annotations typeParameters =>
    returnType.toList ++ parameters ++ throws ++ body.toList ++ annotations ++ typeParameters
  | .constructor _ parameters throws body _ annotations typeParameters =>
    parameters ++ throws ++ body.toList ++ annotations ++ typeParameters
  | .initializer body _ => body.toList
  | .classType _ _ annotations typeParameters parents interfaces members _ =>
    annotations ++ typeParameters ++ parents ++ interfaces ++ members
  | .enumType _ _ annotations interfaces constants members =>
    annotations ++ interfaces ++ constants ++ members
  | .bareType => []
  | .bare => []

end MemberForm

namespace PartForm

def children : PartForm α → List α
  | .typeParameter _ bounds => bounds
  | .annotationArgument _ value => value.toList
  | .annotationUse _ arguments => arguments
  | .declarator _ _ initial => initial.toList
  | .switchCase labels statements => labels ++ statements
  | .catchClause binding body => binding.toList ++ body.toList
  | .parameter _ type _ annotations _ => type.toList ++ annotations
  | .enumConstant _ arguments body annotations => arguments ++ body.getD [] ++ annotations
  | .package _ annotations => annotations
  | .importing _ => []
  | .unit header imports types => header.toList ++ imports ++ types

end PartForm

namespace Form

/-- The children of a layer, in the order of its slots. -/
def children : Form α → List α
  | .type form => form.children
  | .expr form => form.children
  | .stmt form => form.children
  | .member form => form.children
  | .part form => form.children
  | .foreign _ => []

end Form

/-! ### Mapping the children -/

namespace TypeForm

def map (f : α → β) : TypeForm α → TypeForm β
  | .named name arguments scope orNull => .named name (arguments.map (·.map f)) (scope.map f) orNull
  | .primitive name => .primitive name
  | .array element dimensions => .array (element.map f) dimensions
  | .union elements => .union (elements.map f)
  | .void => .void
  | .wildcard bound kind => .wildcard (bound.map f) kind
  | .bare => .bare

end TypeForm

namespace ExprForm

def map (f : α → β) : ExprForm α → ExprForm β
  | .ident identifier => .ident identifier
  | .literal value => .literal value
  | .this qualifier => .this qualifier
  | .super => .super
  | .field target name => .field (target.map f) name
  | .call name arguments target typeArguments =>
    .call name (arguments.map f) (target.map f) (typeArguments.map f)
  | .create type arguments body => .create (type.map f) (arguments.map f) (body.map (·.map f))
  | .arrayLiteral values => .arrayLiteral (values.map f)
  | .arrayCreate element dimensions initial =>
    .arrayCreate (element.map f) (dimensions.map (·.map f)) (initial.map f)
  | .subscript target index => .subscript (target.map f) (index.map f)
  | .binary operator left right => .binary operator (left.map f) (right.map f)
  | .unary operator operand isBefore => .unary operator (operand.map f) isBefore
  | .assign operator target value => .assign operator (target.map f) (value.map f)
  | .conditional condition whenTrue whenFalse =>
    .conditional (condition.map f) (whenTrue.map f) (whenFalse.map f)
  | .cast type expression => .cast (type.map f) (expression.map f)
  | .instanceOf expression type => .instanceOf (expression.map f) (type.map f)
  | .lambda parameters body => .lambda (parameters.map f) (body.map f)
  | .methodReference target name => .methodReference (target.map f) name
  | .classLiteral type => .classLiteral (type.map f)
  | .bare => .bare

end ExprForm

namespace LoopStart

def map (f : α → β) : LoopStart α → LoopStart β
  | .absent => .absent
  | .declaration node => .declaration (f node)
  | .expressions nodes => .expressions (nodes.map f)

end LoopStart

namespace StmtForm

def map (f : α → β) : StmtForm α → StmtForm β
  | .block statements => .block (statements.map f)
  | .localVariable type bindings modifiers annotations =>
    .localVariable (type.map f) (bindings.map f) modifiers (annotations.map f)
  | .evaluate expression => .evaluate (expression.map f)
  | .ifElse condition whenTrue whenFalse =>
    .ifElse (condition.map f) (whenTrue.map f) (whenFalse.map f)
  | .whileLoop condition body => .whileLoop (condition.map f) (body.map f)
  | .doLoop condition body => .doLoop (condition.map f) (body.map f)
  | .forLoop start condition update body =>
    .forLoop (start.map f) (condition.map f) (update.map f) (body.map f)
  | .forEach binding iterable body => .forEach (binding.map f) (iterable.map f) (body.map f)
  | .returning expression => .returning (expression.map f)
  | .throwing expression => .throwing (expression.map f)
  | .breaking label => .breaking label
  | .continuing label => .continuing label
  | .empty => .empty
  | .switch selector cases => .switch (selector.map f) (cases.map f)
  | .tryCatch body resources catches finalBlock =>
    .tryCatch (body.map f) (resources.map f) (catches.map f) (finalBlock.map f)
  | .synchronized lock body => .synchronized (lock.map f) (body.map f)
  | .assertion condition message => .assertion (condition.map f) (message.map f)
  | .labeled label statement => .labeled label (statement.map f)
  | .constructorCall isThis arguments => .constructorCall isThis (arguments.map f)
  | .localType declaration => .localType (declaration.map f)
  | .bare => .bare

end StmtForm

namespace MemberForm

def map (f : α → β) : MemberForm α → MemberForm β
  | .field type bindings modifiers annotations =>
    .field (type.map f) (bindings.map f) modifiers (annotations.map f)
  | .method name returnType parameters throws body modifiers annotations typeParameters =>
    .method name (returnType.map f) (parameters.map f) (throws.map f) (body.map f) modifiers
      (annotations.map f) (typeParameters.map f)
  | .constructor name parameters throws body modifiers annotations typeParameters =>
    .constructor name (parameters.map f) (throws.map f) (body.map f) modifiers (annotations.map f)
      (typeParameters.map f)
  | .initializer body isStatic => .initializer (body.map f) isStatic
  | .classType name modifiers annotations typeParameters parents interfaces members isInterface =>
    .classType name modifiers (annotations.map f) (typeParameters.map f) (parents.map f)
      (interfaces.map f) (members.map f) isInterface
  | .enumType name modifiers annotations interfaces constants members =>
    .enumType name modifiers (annotations.map f) (interfaces.map f) (constants.map f)
      (members.map f)
  | .bareType => .bareType
  | .bare => .bare

end MemberForm

namespace PartForm

def map (f : α → β) : PartForm α → PartForm β
  | .typeParameter name bounds => .typeParameter name (bounds.map f)
  | .annotationArgument name value => .annotationArgument name (value.map f)
  | .annotationUse name arguments => .annotationUse name (arguments.map f)
  | .declarator name dimensions initial => .declarator name dimensions (initial.map f)
  | .switchCase labels statements => .switchCase (labels.map f) (statements.map f)
  | .catchClause binding body => .catchClause (binding.map f) (body.map f)
  | .parameter name type modifiers annotations isVarargs =>
    .parameter name (type.map f) modifiers (annotations.map f) isVarargs
  | .enumConstant name arguments body annotations =>
    .enumConstant name (arguments.map f) (body.map (·.map f)) (annotations.map f)
  | .package name annotations => .package name (annotations.map f)
  | .importing decl => .importing decl
  | .unit header imports types => .unit (header.map f) (imports.map f) (types.map f)

end PartForm

namespace Form

/-- The layer with every child replaced. -/
def map (f : α → β) : Form α → Form β
  | .type form => .type (form.map f)
  | .expr form => .expr (form.map f)
  | .stmt form => .stmt (form.map f)
  | .member form => .member (form.map f)
  | .part form => .part (form.map f)
  | .foreign kind => .foreign kind

end Form

/-! ### Removing children -/

/-- Removes children from a list that also has empty entries, which stay. -/
def keepHoles (f : α → Option β) (entries : List (Option α)) : List (Option β) :=
  entries.filterMap fun
    | none => some none
    | some a => (f a).map some

namespace TypeForm

def filterMap (f : α → Option β) : TypeForm α → TypeForm β
  | .named name arguments scope orNull =>
    .named name (arguments.map (·.filterMap f)) (scope.bind f) orNull
  | .primitive name => .primitive name
  | .array element dimensions => .array (element.bind f) dimensions
  | .union elements => .union (elements.filterMap f)
  | .void => .void
  | .wildcard bound kind => .wildcard (bound.bind f) kind
  | .bare => .bare

end TypeForm

namespace ExprForm

def filterMap (f : α → Option β) : ExprForm α → ExprForm β
  | .ident identifier => .ident identifier
  | .literal value => .literal value
  | .this qualifier => .this qualifier
  | .super => .super
  | .field target name => .field (target.bind f) name
  | .call name arguments target typeArguments =>
    .call name (arguments.filterMap f) (target.bind f) (typeArguments.filterMap f)
  | .create type arguments body =>
    .create (type.bind f) (arguments.filterMap f) (body.map (·.filterMap f))
  | .arrayLiteral values => .arrayLiteral (values.filterMap f)
  | .arrayCreate element dimensions initial =>
    .arrayCreate (element.bind f) (keepHoles f dimensions) (initial.bind f)
  | .subscript target index => .subscript (target.bind f) (index.bind f)
  | .binary operator left right => .binary operator (left.bind f) (right.bind f)
  | .unary operator operand isBefore => .unary operator (operand.bind f) isBefore
  | .assign operator target value => .assign operator (target.bind f) (value.bind f)
  | .conditional condition whenTrue whenFalse =>
    .conditional (condition.bind f) (whenTrue.bind f) (whenFalse.bind f)
  | .cast type expression => .cast (type.bind f) (expression.bind f)
  | .instanceOf expression type => .instanceOf (expression.bind f) (type.bind f)
  | .lambda parameters body => .lambda (parameters.filterMap f) (body.bind f)
  | .methodReference target name => .methodReference (target.bind f) name
  | .classLiteral type => .classLiteral (type.bind f)
  | .bare => .bare

end ExprForm

namespace LoopStart

def filterMap (f : α → Option β) : LoopStart α → LoopStart β
  | .absent => .absent
  | .declaration node => (f node).elim .absent .declaration
  | .expressions nodes => .expressions (nodes.filterMap f)

end LoopStart

namespace StmtForm

def filterMap (f : α → Option β) : StmtForm α → StmtForm β
  | .block statements => .block (statements.filterMap f)
  | .localVariable type bindings modifiers annotations =>
    .localVariable (type.bind f) (bindings.filterMap f) modifiers (annotations.filterMap f)
  | .evaluate expression => .evaluate (expression.bind f)
  | .ifElse condition whenTrue whenFalse =>
    .ifElse (condition.bind f) (whenTrue.bind f) (whenFalse.bind f)
  | .whileLoop condition body => .whileLoop (condition.bind f) (body.bind f)
  | .doLoop condition body => .doLoop (condition.bind f) (body.bind f)
  | .forLoop start condition update body =>
    .forLoop (start.filterMap f) (condition.bind f) (update.filterMap f) (body.bind f)
  | .forEach binding iterable body => .forEach (binding.bind f) (iterable.bind f) (body.bind f)
  | .returning expression => .returning (expression.bind f)
  | .throwing expression => .throwing (expression.bind f)
  | .breaking label => .breaking label
  | .continuing label => .continuing label
  | .empty => .empty
  | .switch selector cases => .switch (selector.bind f) (cases.filterMap f)
  | .tryCatch body resources catches finalBlock =>
    .tryCatch (body.bind f) (resources.filterMap f) (catches.filterMap f) (finalBlock.bind f)
  | .synchronized lock body => .synchronized (lock.bind f) (body.bind f)
  | .assertion condition message => .assertion (condition.bind f) (message.bind f)
  | .labeled label statement => .labeled label (statement.bind f)
  | .constructorCall isThis arguments => .constructorCall isThis (arguments.filterMap f)
  | .localType declaration => .localType (declaration.bind f)
  | .bare => .bare

end StmtForm

namespace MemberForm

def filterMap (f : α → Option β) : MemberForm α → MemberForm β
  | .field type bindings modifiers annotations =>
    .field (type.bind f) (bindings.filterMap f) modifiers (annotations.filterMap f)
  | .method name returnType parameters throws body modifiers annotations typeParameters =>
    .method name (returnType.bind f) (parameters.filterMap f) (throws.filterMap f) (body.bind f)
      modifiers (annotations.filterMap f) (typeParameters.filterMap f)
  | .constructor name parameters throws body modifiers annotations typeParameters =>
    .constructor name (parameters.filterMap f) (throws.filterMap f) (body.bind f) modifiers
      (annotations.filterMap f) (typeParameters.filterMap f)
  | .initializer body isStatic => .initializer (body.bind f) isStatic
  | .classType name modifiers annotations typeParameters parents interfaces members isInterface =>
    .classType name modifiers (annotations.filterMap f) (typeParameters.filterMap f)
      (parents.filterMap f) (interfaces.filterMap f) (members.filterMap f) isInterface
  | .enumType name modifiers annotations interfaces constants members =>
    .enumType name modifiers (annotations.filterMap f) (interfaces.filterMap f)
      (constants.filterMap f) (members.filterMap f)
  | .bareType => .bareType
  | .bare => .bare

end MemberForm

namespace PartForm

def filterMap (f : α → Option β) : PartForm α → PartForm β
  | .typeParameter name bounds => .typeParameter name (bounds.filterMap f)
  | .annotationArgument name value => .annotationArgument name (value.bind f)
  | .annotationUse name arguments => .annotationUse name (arguments.filterMap f)
  | .declarator name dimensions initial => .declarator name dimensions (initial.bind f)
  | .switchCase labels statements => .switchCase (labels.filterMap f) (statements.filterMap f)
  | .catchClause binding body => .catchClause (binding.bind f) (body.bind f)
  | .parameter name type modifiers annotations isVarargs =>
    .parameter name (type.bind f) modifiers (annotations.filterMap f) isVarargs
  | .enumConstant name arguments body annotations =>
    .enumConstant name (arguments.filterMap f) (body.map (·.filterMap f)) (annotations.filterMap f)
  | .package name annotations => .package name (annotations.filterMap f)
  | .importing decl => .importing decl
  | .unit header imports types => .unit (header.bind f) (imports.filterMap f) (types.filterMap f)

end PartForm

namespace Form

/-- The layer with every child replaced or removed: a removed child leaves its list, or empties the
slot it stood in. -/
def filterMap (f : α → Option β) : Form α → Form β
  | .type form => .type (form.filterMap f)
  | .expr form => .expr (form.filterMap f)
  | .stmt form => .stmt (form.filterMap f)
  | .member form => .member (form.filterMap f)
  | .part form => .part (form.filterMap f)
  | .foreign kind => .foreign kind

end Form

/-! ### Numbering the children -/

/-- Numbers the entries of a list that are not empty, from `n` on. -/
def tagHoles (n : Nat) : List (Option α) → List (Option (α × Nat))
  | [] => []
  | none :: rest => none :: tagHoles n rest
  | some a :: rest => some (a, n) :: tagHoles (n + 1) rest

/-- Numbers what a slot holds. -/
def tagSlot (n : Nat) (slot : Option α) : Option (α × Nat) := slot.map (·, n)

/-- Numbers the entries of an optional list, from `n` on. -/
def tagSlots (n : Nat) (slots : Option (List α)) : Option (List (α × Nat)) :=
  slots.map (·.zipIdx n)

namespace TypeForm

def tag (n : Nat) : TypeForm α → TypeForm (α × Nat)
  | .named name arguments scope orNull =>
    .named name (tagSlots n arguments) (tagSlot (n + (arguments.getD []).length) scope) orNull
  | .primitive name => .primitive name
  | .array element dimensions => .array (tagSlot n element) dimensions
  | .union elements => .union (elements.zipIdx n)
  | .void => .void
  | .wildcard bound kind => .wildcard (tagSlot n bound) kind
  | .bare => .bare

end TypeForm

namespace ExprForm

def tag (n : Nat) : ExprForm α → ExprForm (α × Nat)
  | .ident identifier => .ident identifier
  | .literal value => .literal value
  | .this qualifier => .this qualifier
  | .super => .super
  | .field target name => .field (tagSlot n target) name
  | .call name arguments target typeArguments =>
    let n₁ := n + arguments.length
    let n₂ := n₁ + target.toList.length
    .call name (arguments.zipIdx n) (tagSlot n₁ target) (typeArguments.zipIdx n₂)
  | .create type arguments body =>
    let n₁ := n + type.toList.length
    let n₂ := n₁ + arguments.length
    .create (tagSlot n type) (arguments.zipIdx n₁) (tagSlots n₂ body)
  | .arrayLiteral values => .arrayLiteral (values.zipIdx n)
  | .arrayCreate element dimensions initial =>
    let n₁ := n + element.toList.length
    let n₂ := n₁ + (dimensions.filterMap id).length
    .arrayCreate (tagSlot n element) (tagHoles n₁ dimensions) (tagSlot n₂ initial)
  | .subscript target index =>
    .subscript (tagSlot n target) (tagSlot (n + target.toList.length) index)
  | .binary operator left right =>
    .binary operator (tagSlot n left) (tagSlot (n + left.toList.length) right)
  | .unary operator operand isBefore => .unary operator (tagSlot n operand) isBefore
  | .assign operator target value =>
    .assign operator (tagSlot n target) (tagSlot (n + target.toList.length) value)
  | .conditional condition whenTrue whenFalse =>
    let n₁ := n + condition.toList.length
    let n₂ := n₁ + whenTrue.toList.length
    .conditional (tagSlot n condition) (tagSlot n₁ whenTrue) (tagSlot n₂ whenFalse)
  | .cast type expression =>
    .cast (tagSlot n type) (tagSlot (n + type.toList.length) expression)
  | .instanceOf expression type =>
    .instanceOf (tagSlot n expression) (tagSlot (n + expression.toList.length) type)
  | .lambda parameters body =>
    .lambda (parameters.zipIdx n) (tagSlot (n + parameters.length) body)
  | .methodReference target name => .methodReference (tagSlot n target) name
  | .classLiteral type => .classLiteral (tagSlot n type)
  | .bare => .bare

end ExprForm

namespace LoopStart

def tag (n : Nat) : LoopStart α → LoopStart (α × Nat)
  | .absent => .absent
  | .declaration node => .declaration (node, n)
  | .expressions nodes => .expressions (nodes.zipIdx n)

end LoopStart

namespace StmtForm

def tag (n : Nat) : StmtForm α → StmtForm (α × Nat)
  | .block statements => .block (statements.zipIdx n)
  | .localVariable type bindings modifiers annotations =>
    let n₁ := n + type.toList.length
    let n₂ := n₁ + bindings.length
    .localVariable (tagSlot n type) (bindings.zipIdx n₁) modifiers (annotations.zipIdx n₂)
  | .evaluate expression => .evaluate (tagSlot n expression)
  | .ifElse condition whenTrue whenFalse =>
    let n₁ := n + condition.toList.length
    let n₂ := n₁ + whenTrue.toList.length
    .ifElse (tagSlot n condition) (tagSlot n₁ whenTrue) (tagSlot n₂ whenFalse)
  | .whileLoop condition body =>
    .whileLoop (tagSlot n condition) (tagSlot (n + condition.toList.length) body)
  | .doLoop condition body =>
    .doLoop (tagSlot n condition) (tagSlot (n + condition.toList.length) body)
  | .forLoop start condition update body =>
    let n₁ := n + start.children.length
    let n₂ := n₁ + condition.toList.length
    let n₃ := n₂ + update.length
    .forLoop (start.tag n) (tagSlot n₁ condition) (update.zipIdx n₂) (tagSlot n₃ body)
  | .forEach binding iterable body =>
    let n₁ := n + binding.toList.length
    let n₂ := n₁ + iterable.toList.length
    .forEach (tagSlot n binding) (tagSlot n₁ iterable) (tagSlot n₂ body)
  | .returning expression => .returning (tagSlot n expression)
  | .throwing expression => .throwing (tagSlot n expression)
  | .breaking label => .breaking label
  | .continuing label => .continuing label
  | .empty => .empty
  | .switch selector cases =>
    .switch (tagSlot n selector) (cases.zipIdx (n + selector.toList.length))
  | .tryCatch body resources catches finalBlock =>
    let n₁ := n + body.toList.length
    let n₂ := n₁ + resources.length
    let n₃ := n₂ + catches.length
    .tryCatch (tagSlot n body) (resources.zipIdx n₁) (catches.zipIdx n₂) (tagSlot n₃ finalBlock)
  | .synchronized lock body =>
    .synchronized (tagSlot n lock) (tagSlot (n + lock.toList.length) body)
  | .assertion condition message =>
    .assertion (tagSlot n condition) (tagSlot (n + condition.toList.length) message)
  | .labeled label statement => .labeled label (tagSlot n statement)
  | .constructorCall isThis arguments => .constructorCall isThis (arguments.zipIdx n)
  | .localType declaration => .localType (tagSlot n declaration)
  | .bare => .bare

end StmtForm

namespace MemberForm

def tag (n : Nat) : MemberForm α → MemberForm (α × Nat)
  | .field type bindings modifiers annotations =>
    let n₁ := n + type.toList.length
    let n₂ := n₁ + bindings.length
    .field (tagSlot n type) (bindings.zipIdx n₁) modifiers (annotations.zipIdx n₂)
  | .method name returnType parameters throws body modifiers annotations typeParameters =>
    let n₁ := n + returnType.toList.length
    let n₂ := n₁ + parameters.length
    let n₃ := n₂ + throws.length
    let n₄ := n₃ + body.toList.length
    let n₅ := n₄ + annotations.length
    .method name (tagSlot n returnType) (parameters.zipIdx n₁) (throws.zipIdx n₂) (tagSlot n₃ body)
      modifiers (annotations.zipIdx n₄) (typeParameters.zipIdx n₅)
  | .constructor name parameters throws body modifiers annotations typeParameters =>
    let n₁ := n + parameters.length
    let n₂ := n₁ + throws.length
    let n₃ := n₂ + body.toList.length
    let n₄ := n₃ + annotations.length
    .constructor name (parameters.zipIdx n) (throws.zipIdx n₁) (tagSlot n₂ body) modifiers
      (annotations.zipIdx n₃) (typeParameters.zipIdx n₄)
  | .initializer body isStatic => .initializer (tagSlot n body) isStatic
  | .classType name modifiers annotations typeParameters parents interfaces members isInterface =>
    let n₁ := n + annotations.length
    let n₂ := n₁ + typeParameters.length
    let n₃ := n₂ + parents.length
    let n₄ := n₃ + interfaces.length
    .classType name modifiers (annotations.zipIdx n) (typeParameters.zipIdx n₁)
      (parents.zipIdx n₂) (interfaces.zipIdx n₃) (members.zipIdx n₄) isInterface
  | .enumType name modifiers annotations interfaces constants members =>
    let n₁ := n + annotations.length
    let n₂ := n₁ + interfaces.length
    let n₃ := n₂ + constants.length
    .enumType name modifiers (annotations.zipIdx n) (interfaces.zipIdx n₁) (constants.zipIdx n₂)
      (members.zipIdx n₃)
  | .bareType => .bareType
  | .bare => .bare

end MemberForm

namespace PartForm

def tag (n : Nat) : PartForm α → PartForm (α × Nat)
  | .typeParameter name bounds => .typeParameter name (bounds.zipIdx n)
  | .annotationArgument name value => .annotationArgument name (tagSlot n value)
  | .annotationUse name arguments => .annotationUse name (arguments.zipIdx n)
  | .declarator name dimensions initial => .declarator name dimensions (tagSlot n initial)
  | .switchCase labels statements =>
    .switchCase (labels.zipIdx n) (statements.zipIdx (n + labels.length))
  | .catchClause binding body =>
    .catchClause (tagSlot n binding) (tagSlot (n + binding.toList.length) body)
  | .parameter name type modifiers annotations isVarargs =>
    .parameter name (tagSlot n type) modifiers (annotations.zipIdx (n + type.toList.length))
      isVarargs
  | .enumConstant name arguments body annotations =>
    let n₁ := n + arguments.length
    let n₂ := n₁ + (body.getD []).length
    .enumConstant name (arguments.zipIdx n) (tagSlots n₁ body) (annotations.zipIdx n₂)
  | .package name annotations => .package name (annotations.zipIdx n)
  | .importing decl => .importing decl
  | .unit header imports types =>
    let n₁ := n + header.toList.length
    let n₂ := n₁ + imports.length
    .unit (tagSlot n header) (imports.zipIdx n₁) (types.zipIdx n₂)

end PartForm

namespace Form

/-- The layer with every child numbered, from `n` on, in slot order. -/
def tag (n : Nat) : Form α → Form (α × Nat)
  | .type form => .type (form.tag n)
  | .expr form => .expr (form.tag n)
  | .stmt form => .stmt (form.tag n)
  | .member form => .member (form.tag n)
  | .part form => .part (form.tag n)
  | .foreign kind => .foreign kind

/-- The layer with every child replaced by a function of its number. -/
def mapIdx (f : Nat → α → β) (form : Form α) : Form β := (form.tag 0).map fun (a, i) => f i a

end Form

/-! ### Names of the shapes -/

namespace TypeForm

def kind : TypeForm α → String
  | .named .. => "ClassType"
  | .primitive .. => "PrimitiveType"
  | .array .. => "ArrayType"
  | .union .. => "UnionType"
  | .void => "VoidType"
  | .wildcard .. => "WildcardType"
  | .bare => "TypeNode"

end TypeForm

namespace ExprForm

def kind : ExprForm α → String
  | .ident .. => "Name"
  | .literal .. => "Literal"
  | .this .. => "ThisExpression"
  | .super => "SuperExpression"
  | .field .. => "FieldAccess"
  | .call .. => "MethodCall"
  | .create .. => "ObjectCreation"
  | .arrayLiteral .. => "ArrayInitializer"
  | .arrayCreate .. => "ArrayCreation"
  | .subscript .. => "ArrayAccess"
  | .binary .. => "BinaryExpression"
  | .unary .. => "UnaryExpression"
  | .assign .. => "AssignmentExpression"
  | .conditional .. => "ConditionalExpression"
  | .cast .. => "CastExpression"
  | .instanceOf .. => "InstanceOfExpression"
  | .lambda .. => "LambdaExpression"
  | .methodReference .. => "MethodReference"
  | .classLiteral .. => "ClassLiteral"
  | .bare => "Expression"

end ExprForm

namespace StmtForm

def kind : StmtForm α → String
  | .block .. => "BlockStatement"
  | .localVariable .. => "LocalVariableDeclaration"
  | .evaluate .. => "ExpressionStatement"
  | .ifElse .. => "IfStatement"
  | .whileLoop .. => "WhileStatement"
  | .doLoop .. => "DoStatement"
  | .forLoop .. => "ForStatement"
  | .forEach .. => "ForEachStatement"
  | .returning .. => "ReturnStatement"
  | .throwing .. => "ThrowStatement"
  | .breaking .. => "BreakStatement"
  | .continuing .. => "ContinueStatement"
  | .empty => "EmptyStatement"
  | .switch .. => "SwitchStatement"
  | .tryCatch .. => "TryStatement"
  | .synchronized .. => "SynchronizedStatement"
  | .assertion .. => "AssertStatement"
  | .labeled .. => "LabeledStatement"
  | .constructorCall .. => "ExplicitConstructorInvocation"
  | .localType .. => "LocalClassDeclaration"
  | .bare => "Statement"

end StmtForm

namespace MemberForm

def kind : MemberForm α → String
  | .field .. => "FieldDeclaration"
  | .method .. => "MethodDeclaration"
  | .constructor .. => "ConstructorDeclaration"
  | .initializer .. => "InitializerDeclaration"
  | .classType .. => "ClassDeclaration"
  | .enumType .. => "EnumDeclaration"
  | .bareType => "TypeDeclaration"
  | .bare => "BodyDeclaration"

end MemberForm

namespace PartForm

def kind : PartForm α → String
  | .typeParameter .. => "TypeParameter"
  | .annotationArgument .. => "AnnotationArgument"
  | .annotationUse .. => "Annotation"
  | .declarator .. => "VariableDeclarator"
  | .switchCase .. => "SwitchCase"
  | .catchClause .. => "CatchClause"
  | .parameter .. => "Parameter"
  | .enumConstant .. => "EnumConstant"
  | .package .. => "PackageDeclaration"
  | .importing .. => "ImportDeclaration"
  | .unit .. => "CompilationUnit"

end PartForm

namespace Form

/-- The name by which reports call the shape of a layer. -/
def kind : Form α → String
  | .type form => form.kind
  | .expr form => form.kind
  | .stmt form => form.kind
  | .member form => form.kind
  | .part form => form.kind
  | .foreign kind => kind

end Form

end Recast
