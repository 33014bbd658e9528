import Recast.Reading.Expressions

/-!
Statements of a parser's tree.

A label is hung on the statement that it labels. The body of a `for` loop is read before its head,
and the resources, handlers and final block of a `try` before its body.
-/

namespace Recast.Reading

/-- The statement that an expression is where it stands alone: the call of another constructor, or
its evaluation. -/
def exprStatementOf (expr : Read Tree) (layer : ParseLayer Reading)
    (position : Option Position) : Read Tree :=
  match layer with
  | .node _ _ (.expr (.thisCall arguments)) => do
    return at? position (.stmt (.constructorCall true (← arguments.mapM (·.expr))))
  | .node _ _ (.expr (.superCall arguments)) => do
    return at? position (.stmt (.constructorCall false (← arguments.mapM (·.expr))))
  | _ => do
    return at? position (.stmt (.evaluate (some (← expr))))

/-- The first clause of a `for` loop. -/
def loopStartOf (own expr : Read Tree) : ParseLayer Reading → Read (LoopStart Tree)
  | .absent => return .absent
  | .sequence items => return .expressions (← items.mapM (·.expr))
  | .node _ _ (.stmt (.bindings ..)) => return .declaration (← own)
  | _ => return .expressions [← expr]

/-- A declaration of variables. -/
def declaredVariables (position : Option Position) (type : Reading) (declarators : List Reading)
    (keywords : List String) (notes : List Reading) : Read Tree := do
  let type ← type.type
  let declarators ← declarators.mapM (·.own)
  let modifiers ← modifiers keywords (position.map (·.line))
  let notes ← annotations notes
  return at? position (.stmt (.localVariable (some type) declarators modifiers notes))

/-- The variables declared in the head of a loop. A field declares variables as well. -/
def bindingOf (own : Read Tree) : ParseLayer Reading → Read Tree
  | .node mark _ (.decl (.field _ type declarators keywords notes)) =>
    declaredVariables mark.position type declarators keywords notes
  | _ => own

/-- The loop with a head and a body. -/
def loopOf (layer : ParseLayer Reading) (position : Option Position) (body : Tree) : Read Tree :=
  match layer with
  | .node _ _ (.stmt (.forEachControl binding iterable)) => do
    let binding ← binding.binding
    let iterable ← iterable.expr
    return at? position (.stmt (.forEach (some binding) (some iterable) (some body)))
  | .node _ _ (.stmt (.forControl start condition update)) => do
    let start ← start.loopStart
    let condition ← optional condition (·.expr)
    let update ← update.mapM (·.expr)
    return at? position (.stmt (.forLoop start condition update (some body)))
  | other => Read.unsupported (.statement other.kind)

/-- The label of a `switch` group: a bare word names a constant, and `default` is no label. -/
def switchLabelOf (expr : Read Tree) : ParseLayer Reading → Read (Option Tree)
  | .absent => return none
  | .word "default" => return none
  | .word text => return some (bare (.expr (.ident (.text text))))
  | _ => some <$> expr

/-- A statement without its label. -/
def plainStatement (own typeDeclaration : Read Tree) (position : Option Position) :
    ParseForm Reading → Read Tree
  | .stmt (.bindings true ..) => own
  | .stmt (.block statements) => block position statements
  | .stmt (.evaluate expression) => expression.exprStatement position
  | .stmt (.ifElse condition whenTrue whenFalse) => do
    let condition ← condition.expr
    let whenTrue ← whenTrue.stmt
    let whenFalse ← optional whenFalse (·.stmt)
    return at? position (.stmt (.ifElse (some condition) (some whenTrue) whenFalse))
  | .stmt (.whileLoop condition body) => do
    let condition ← condition.expr
    let body ← body.stmt
    return at? position (.stmt (.whileLoop (some condition) (some body)))
  | .stmt (.doLoop condition body) => do
    let condition ← condition.expr
    let body ← body.stmt
    return at? position (.stmt (.doLoop (some condition) (some body)))
  | .stmt (.forLoop control body) => do
    let body ← body.stmt
    control.loop position body
  | .stmt (.returning expression) => do
    return at? position (.stmt (.returning (← optional expression (·.expr))))
  | .stmt (.throwing expression) => do
    return at? position (.stmt (.throwing (some (← expression.expr))))
  | .stmt (.breaking target) => return at? position (.stmt (.breaking target))
  | .stmt (.continuing target) => return at? position (.stmt (.continuing target))
  | .stmt (.switch selector cases) => do
    let selector ← selector.expr
    let cases ← cases.mapM (·.own)
    return at? position (.stmt (.switch (some selector) cases))
  | .stmt (.tryCatch resources body catches finalBlock) => do
    let resources ← resources.mapM (·.own)
    let catches ← catches.mapM (·.own)
    let finalBlock ← finalBlock.mapM (block none)
    let body ← block none body
    return at? position (.stmt (.tryCatch (some body) resources catches finalBlock))
  | .stmt (.synchronized lock body) => do
    let lock ← lock.expr
    let body ← block none body
    return at? position (.stmt (.synchronized (some lock) (some body)))
  | .stmt (.assertion condition message) => do
    let condition ← condition.expr
    let message ← optional message (·.expr)
    return at? position (.stmt (.assertion (some condition) message))
  | .stmt .empty => return at? position (.stmt .empty)
  | other => do
    if other.declaresType then
      return at? position (.stmt (.localType (some (← typeDeclaration))))
    Read.unsupported (.statement other.kind)

/-- A statement, inside its label if it has one. -/
def stmtOf (own typeDeclaration : Read Tree) : ParseLayer Reading → Read Tree
  | .node mark _ form => do
    let statement ← plainStatement own typeDeclaration mark.position form
    if mark.label.isSet then
      return at? statement.position (.stmt (.labeled mark.label (some statement)))
    return statement
  | other => Read.unsupported (.statement other.kind)

/-- The type of a caught exception: one type, or the union of several. -/
def caughtType (types : List String) : Option Tree :=
  match types with
  | [type] => typeOfName type
  | types => some (bare (.type (.union (types.filterMap typeOfName))))

/-- The parts of statements that are read in their own right. -/
def statementPart (mark : ParseMark) : ParseStmt Reading → Read Tree
  | .bindings _ type declarators keywords notes =>
    declaredVariables mark.position type declarators keywords notes
  | .switchCase labels statements => do
    let labels ← labels.mapM (·.switchLabel)
    let statements ← statements.mapM (·.stmt)
    return at? mark.position (.part (.switchCase (labels.filterMap id) statements))
  | .resource type name value keywords notes => do
    let type ← type.type
    let value ← value.expr
    let modifiers ← modifiers keywords (mark.position.map (·.line))
    let notes ← annotations notes
    let declarator := bare (.part (.declarator name 0 (some value)))
    return at? mark.position (.stmt (.localVariable (some type) [declarator] modifiers notes))
  | .catchClause binding body => do
    let binding ← binding.own
    let body ← block none body
    return at? mark.position (.part (.catchClause (some binding) (some body)))
  | .catchParameter name types keywords _ => do
    let modifiers ← modifiers keywords (mark.position.map (·.line))
    return bare (.part (.parameter name (caughtType types) modifiers [] false))
  | other => Read.unsupported (.statement other.kind)

end Recast.Reading
