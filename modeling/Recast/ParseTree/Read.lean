import Recast.ParseTree
import Recast.Value

/-!
Parser's trees from documents.

A node is a mapping with its kind under `_`, its position under `pos` and its parts under their
names; a part that is missing is absent. The parts are read before the node that holds them, so that
reading follows the document.

Where a sequence belongs, a word counts as the sequence of its letters, and a node is no sequence of
nodes: going through it gives pairs of a path and a node.
-/

namespace Recast.ParseTree

/-- A place in a text: a list of its line and its column. -/
def position? : Option Value → Option Position
  | some (.list [.int line, .int column]) => some ⟨line, column⟩
  | _ => none

/-- The text of a part, empty if it is none. -/
def text (part : Option Value) : String := (part.bind Value.text?).getD ""

/-- The letters of a text. -/
def letters (s : String) : List String := s.toList.map fun c => String.ofList [c]

/-- The words of a list. -/
def words : Option Value → List Word
  | some (.list items) => items
  | some (.text s) => (letters s).map .text
  | _ => []

/-- The texts of a list. -/
def texts (part : Option Value) : List String := (words part).filterMap Value.text?

/-- The number of items of a list. -/
def count : Option Value → Nat
  | some (.list items) => items.length
  | some (.text s) => s.length
  | _ => 0

/-- Whether a value is set. -/
def flag : Option Value → Bool
  | some value => value.isSet
  | none => false

/-- What a slot holds, as a sequence; none if it holds nothing. -/
def items? (t : ParseTree) : Option (List ParseTree) :=
  match t.layer with
  | .absent => none
  | .word text => some ((letters text).map fun letter => .mk (.word letter))
  | .sequence items => some items
  | .scalar _ => some []
  | .node .. => some [.mk (.scalar "tuple")]

/-- The constants and the members of an enum's body. -/
def enumParts (t : ParseTree) : List ParseTree × List ParseTree :=
  match t.layer with
  | .node _ _ (.decl (.enumBody constants members)) => (constants, members)
  | _ => ([], [])

/-- A part, absent if it is an empty sequence. -/
def unlessEmpty (t : ParseTree) : ParseTree :=
  match items? t with
  | some [] => .mk .absent
  | _ => t

/-- The shape of a node of a given kind, from its parts as values and as trees. -/
def formOf (kind : String) (value : String → Option Value) (part : String → ParseTree) :
    ParseForm ParseTree :=
  let word : String → Word := fun key => (value key).getD .null
  let qualifier := text (value "qualifier")
  let list? := fun key => items? (part key)
  let list := fun key => (items? (part key)).getD []
  let modifiers := texts (value "modifiers")
  let annotations := list "annotations"
  let dimensions := count (value "dimensions")
  let bindings := fun isLocal => ParseForm.stmt
    (.bindings isLocal (part "type") (list "declarators") modifiers annotations)
  let field := fun isConstant => ParseForm.decl
    (.field isConstant (part "type") (list "declarators") modifiers annotations)
  match kind with
  | "BasicType" => .type (.basic (word "name") dimensions)
  | "ReferenceType" =>
    .type (.reference (word "name") dimensions (list? "arguments") (part "sub_type"))
  | "TypeArgument" => .type (.argument (part "type") ((value "pattern_type").bind Value.text?))
  | "Literal" => .expr (.literal (word "value"))
  | "MemberReference" => .expr (.memberReference qualifier (word "member"))
  | "MethodInvocation" =>
    .expr (.invocation qualifier (word "member") (list "arguments")
      (list "type_arguments"))
  | "SuperMemberReference" => .expr (.superMember qualifier (word "member"))
  | "SuperMethodInvocation" =>
    .expr (.superInvocation qualifier (word "member") (list "arguments"))
  | "This" => .expr (.this (word "qualifier"))
  | "ClassCreator" => .expr (.create (part "type") (list "arguments") (list? "body"))
  | "ArrayCreator" =>
    .expr (.createArray (part "type") (list "dimensions") (part "initializer"))
  | "ArrayInitializer" => .expr (.arrayInitializer (list "initializers"))
  | "ClassReference" => .expr (.classReference false qualifier (part "type"))
  | "VoidClassReference" => .expr (.classReference true qualifier (part "type"))
  | "Assignment" => .expr (.assignment (word "type") (part "expressionl") (part "value"))
  | "TernaryExpression" =>
    .expr (.ternary (part "condition") (part "if_true") (part "if_false"))
  | "BinaryOperation" => .expr (.binary (word "operator") (part "operandl") (part "operandr"))
  | "Cast" => .expr (.cast (part "type") (part "expression"))
  | "LambdaExpression" => .expr (.lambda (list "parameters") (part "body"))
  | "MethodReference" => .expr (.methodReference (part "expression") (part "method"))
  | "ExplicitConstructorInvocation" => .expr (.thisCall (list "arguments"))
  | "SuperConstructorInvocation" => .expr (.superCall (list "arguments"))
  | "ArraySelector" => .expr (.arraySelector (part "index"))
  | "LocalVariableDeclaration" => bindings true
  | "VariableDeclaration" => bindings false
  | "BlockStatement" => .stmt (.block (list "statements"))
  | "StatementExpression" => .stmt (.evaluate (part "expression"))
  | "IfStatement" =>
    .stmt (.ifElse (part "condition") (part "then_statement") (part "else_statement"))
  | "WhileStatement" => .stmt (.whileLoop (part "condition") (part "body"))
  | "DoStatement" => .stmt (.doLoop (part "condition") (part "body"))
  | "ForStatement" => .stmt (.forLoop (part "control") (part "body"))
  | "ForControl" => .stmt (.forControl (part "init") (part "condition") (list "update"))
  | "EnhancedForControl" => .stmt (.forEachControl (part "var") (part "iterable"))
  | "ReturnStatement" => .stmt (.returning (part "expression"))
  | "ThrowStatement" => .stmt (.throwing (part "expression"))
  | "BreakStatement" => .stmt (.breaking (word "goto"))
  | "ContinueStatement" => .stmt (.continuing (word "goto"))
  | "SwitchStatement" => .stmt (.switch (part "expression") (list "cases"))
  | "SwitchStatementCase" => .stmt (.switchCase (list "case") (list "statements"))
  | "TryStatement" =>
    .stmt (.tryCatch (list "resources") (list "block") (list "catches") (list? "finally_block"))
  | "TryResource" =>
    .stmt (.resource (part "type") (word "name") (part "value") modifiers annotations)
  | "CatchClause" => .stmt (.catchClause (part "parameter") (list "block"))
  | "CatchClauseParameter" =>
    .stmt (.catchParameter (word "name") (texts (value "types")) modifiers annotations)
  | "SynchronizedStatement" => .stmt (.synchronized (part "lock") (list "block"))
  | "AssertStatement" => .stmt (.assertion (part "condition") (part "value"))
  | "Statement" => .stmt .empty
  | "CompilationUnit" => .decl (.unit (part "package") (list "imports") (list "types"))
  | "PackageDeclaration" => .decl (.package (word "name") annotations)
  | "Import" =>
    .decl (.importing (word "path") (flag (value "static")) (flag (value "wildcard")))
  | "ClassDeclaration" =>
    .decl (.classType (word "name") modifiers annotations (list "type_parameters")
      (unlessEmpty (part "extends")) (list "implements") (list "body"))
  | "InterfaceDeclaration" =>
    .decl (.interfaceType (word "name") modifiers annotations (list "type_parameters")
      (list "extends") (list "body"))
  | "EnumDeclaration" =>
    let (constants, members) := enumParts (part "body")
    .decl (.enumType (word "name") modifiers annotations (list "implements") constants members)
  | "EnumBody" => .decl (.enumBody (list "constants") (list "declarations"))
  | "EnumConstantDeclaration" =>
    .decl (.enumConstant (word "name") (list "arguments") (list? "body") annotations)
  | "TypeParameter" => .decl (.typeParameter (word "name") (list "extends"))
  | "Annotation" => .decl (.annotationUse (word "name") (part "element"))
  | "ElementValuePair" => .decl (.elementPair (word "name") (part "value"))
  | "ElementArrayValue" => .decl (.elementArray (list "values"))
  | "MethodDeclaration" =>
    .decl (.method (word "name") (part "return_type") (list "parameters")
      (texts (value "throws")) (list? "body") modifiers annotations (list "type_parameters"))
  | "ConstructorDeclaration" =>
    .decl (.constructor (word "name") (list "parameters") (texts (value "throws")) (list "body")
      modifiers annotations (list "type_parameters"))
  | "FieldDeclaration" => field false
  | "ConstantDeclaration" => field true
  | "VariableDeclarator" =>
    .decl (.declarator (word "name") dimensions (part "initializer"))
  | "FormalParameter" =>
    .decl (.formalParameter (part "type") (word "name") (flag (value "varargs")) modifiers
      annotations)
  | "InferredFormalParameter" => .decl (.inferredParameter (word "name"))
  | kind => .decl (.other kind (word "name") annotations)

/-- The node that a mapping describes, its parts already read. -/
def nodeOf (entries : List (String × Value)) (parts : List (String × ParseTree)) : ParseTree :=
  let value := fun key => Value.lookup key entries
  let part := fun key => ((parts.find? (·.1 = key)).map (·.2)).getD (.mk .absent)
  let kind := text (value "_")
  let mark : ParseMark :=
    { position := position? (value "pos")
      label := (value "label").getD .null
      before := words (value "prefix_operators")
      after := words (value "postfix_operators") }
  .mk (.node mark ((items? (part "selectors")).getD []) (formOf kind value part))

mutual

/-- The tree that a document describes. -/
def ofValue : Value → ParseTree
  | .text s => .mk (.word s)
  | .list items => .mk (.sequence (ofItems items))
  | .mapping entries => nodeOf entries (ofEntries entries)
  | .null => .mk .absent
  | value => .mk (.scalar value.typeName)

def ofItems : List Value → List ParseTree
  | [] => []
  | item :: rest => ofValue item :: ofItems rest

def ofEntries : List (String × Value) → List (String × ParseTree)
  | [] => []
  | (key, value) :: rest => (key, ofValue value) :: ofEntries rest

end

end Recast.ParseTree
