import Recast.Tree.Form

/-!
Syntax trees, and the one recursion over them.

A tree is a layer of trees together with its trivia. Every traversal of a tree is an algebra given
to `Tree.fold`: a function that gets the node itself and the layer in which each child is replaced
by the child's result. `fold_node` is the equation that says so, and `Tree.induct` the induction
that goes with it.
-/

namespace Recast

/-- A Java syntax tree. -/
inductive Tree where
  | node (trivia : Trivia) (form : Form Tree)

variable {β : Type}

namespace Tree

instance : Inhabited Tree := ⟨.node {} (.expr .bare)⟩

/-- What the node carries beside its structure. -/
def trivia : Tree → Trivia
  | .node trivia _ => trivia

/-- The node's own layer. -/
def form : Tree → Form Tree
  | .node _ form => form

/-- Where the node starts, if that is known. -/
def position (t : Tree) : Option Position := t.trivia.position

/-- The comment that leads the node. -/
def comment (t : Tree) : Option Comment := t.trivia.comment

/-- The name by which reports call the node's shape. -/
def kind (t : Tree) : String := t.form.kind

/-- The node with other trivia. -/
def withTrivia (t : Tree) (trivia : Trivia) : Tree := .node trivia t.form

/-- The node with another layer. -/
def withForm (t : Tree) (form : Form Tree) : Tree := .node t.trivia form

/-- The name of the shape in a slot, also of an empty one. -/
def kindOf : Option Tree → String
  | none => "NoneType"
  | some t => t.kind

/-- The tree, or nothing where only null stands in its place. -/
def present? (t : Tree) : Option Tree :=
  match t.form with
  | .foreign kind => if kind = kindOf none then none else some t
  | _ => some t

end Tree

/-! ### The recursion -/

mutual

/-- Folds a tree bottom up: `alg` gets each node and its layer of results. -/
def Tree.fold (alg : Tree → Form β → β) : Tree → β
  | .node trivia form => alg (.node trivia form) (foldForm alg form)

def foldForm (alg : Tree → Form β → β) : Form Tree → Form β
  | .type form => .type (foldTypeForm alg form)
  | .expr form => .expr (foldExprForm alg form)
  | .stmt form => .stmt (foldStmtForm alg form)
  | .member form => .member (foldMemberForm alg form)
  | .part form => .part (foldPartForm alg form)
  | .foreign kind => .foreign kind

def foldTypeForm (alg : Tree → Form β → β) : TypeForm Tree → TypeForm β
  | .named name arguments scope orNull =>
    .named name (foldOptionList alg arguments) (foldOption alg scope) orNull
  | .primitive name => .primitive name
  | .array element dimensions => .array (foldOption alg element) dimensions
  | .union elements => .union (foldList alg elements)
  | .void => .void
  | .wildcard bound kind => .wildcard (foldOption alg bound) kind
  | .bare => .bare

def foldExprForm (alg : Tree → Form β → β) : ExprForm Tree → ExprForm β
  | .ident identifier => .ident identifier
  | .literal value => .literal value
  | .this qualifier => .this qualifier
  | .super => .super
  | .field target name => .field (foldOption alg target) name
  | .call name arguments target typeArguments =>
    .call name (foldList alg arguments) (foldOption alg target) (foldList alg typeArguments)
  | .create type arguments body =>
    .create (foldOption alg type) (foldList alg arguments) (foldOptionList alg body)
  | .arrayLiteral values => .arrayLiteral (foldList alg values)
  | .arrayCreate element dimensions initial =>
    .arrayCreate (foldOption alg element) (foldHoles alg dimensions) (foldOption alg initial)
  | .subscript target index => .subscript (foldOption alg target) (foldOption alg index)
  | .binary operator left right => .binary operator (foldOption alg left) (foldOption alg right)
  | .unary operator operand isBefore => .unary operator (foldOption alg operand) isBefore
  | .assign operator target value => .assign operator (foldOption alg target) (foldOption alg value)
  | .conditional condition whenTrue whenFalse =>
    .conditional (foldOption alg condition) (foldOption alg whenTrue) (foldOption alg whenFalse)
  | .cast type expression => .cast (foldOption alg type) (foldOption alg expression)
  | .instanceOf expression type => .instanceOf (foldOption alg expression) (foldOption alg type)
  | .lambda parameters body => .lambda (foldList alg parameters) (foldOption alg body)
  | .methodReference target name => .methodReference (foldOption alg target) name
  | .classLiteral type => .classLiteral (foldOption alg type)
  | .bare => .bare

def foldLoopStart (alg : Tree → Form β → β) : LoopStart Tree → LoopStart β
  | .absent => .absent
  | .declaration node => .declaration (node.fold alg)
  | .expressions nodes => .expressions (foldList alg nodes)

def foldStmtForm (alg : Tree → Form β → β) : StmtForm Tree → StmtForm β
  | .block statements => .block (foldList alg statements)
  | .localVariable type bindings modifiers annotations =>
    .localVariable (foldOption alg type) (foldList alg bindings) modifiers
      (foldList alg annotations)
  | .evaluate expression => .evaluate (foldOption alg expression)
  | .ifElse condition whenTrue whenFalse =>
    .ifElse (foldOption alg condition) (foldOption alg whenTrue) (foldOption alg whenFalse)
  | .whileLoop condition body => .whileLoop (foldOption alg condition) (foldOption alg body)
  | .doLoop condition body => .doLoop (foldOption alg condition) (foldOption alg body)
  | .forLoop start condition update body =>
    .forLoop (foldLoopStart alg start) (foldOption alg condition) (foldList alg update)
      (foldOption alg body)
  | .forEach binding iterable body =>
    .forEach (foldOption alg binding) (foldOption alg iterable) (foldOption alg body)
  | .returning expression => .returning (foldOption alg expression)
  | .throwing expression => .throwing (foldOption alg expression)
  | .breaking label => .breaking label
  | .continuing label => .continuing label
  | .empty => .empty
  | .switch selector cases => .switch (foldOption alg selector) (foldList alg cases)
  | .tryCatch body resources catches finalBlock =>
    .tryCatch (foldOption alg body) (foldList alg resources) (foldList alg catches)
      (foldOption alg finalBlock)
  | .synchronized lock body => .synchronized (foldOption alg lock) (foldOption alg body)
  | .assertion condition message => .assertion (foldOption alg condition) (foldOption alg message)
  | .labeled label statement => .labeled label (foldOption alg statement)
  | .constructorCall isThis arguments => .constructorCall isThis (foldList alg arguments)
  | .localType declaration => .localType (foldOption alg declaration)
  | .bare => .bare

def foldMemberForm (alg : Tree → Form β → β) : MemberForm Tree → MemberForm β
  | .field type bindings modifiers annotations =>
    .field (foldOption alg type) (foldList alg bindings) modifiers (foldList alg annotations)
  | .method name returnType parameters throws body modifiers annotations typeParameters =>
    .method name (foldOption alg returnType) (foldList alg parameters) (foldList alg throws)
      (foldOption alg body) modifiers (foldList alg annotations) (foldList alg typeParameters)
  | .constructor name parameters throws body modifiers annotations typeParameters =>
    .constructor name (foldList alg parameters) (foldList alg throws) (foldOption alg body)
      modifiers (foldList alg annotations) (foldList alg typeParameters)
  | .initializer body isStatic => .initializer (foldOption alg body) isStatic
  | .classType name modifiers annotations typeParameters parents interfaces members isInterface =>
    .classType name modifiers (foldList alg annotations) (foldList alg typeParameters)
      (foldList alg parents) (foldList alg interfaces) (foldList alg members) isInterface
  | .enumType name modifiers annotations interfaces constants members =>
    .enumType name modifiers (foldList alg annotations) (foldList alg interfaces)
      (foldList alg constants) (foldList alg members)
  | .bareType => .bareType
  | .bare => .bare

def foldPartForm (alg : Tree → Form β → β) : PartForm Tree → PartForm β
  | .typeParameter name bounds => .typeParameter name (foldList alg bounds)
  | .annotationArgument name value => .annotationArgument name (foldOption alg value)
  | .annotationUse name arguments => .annotationUse name (foldList alg arguments)
  | .declarator name dimensions initial => .declarator name dimensions (foldOption alg initial)
  | .switchCase labels statements => .switchCase (foldList alg labels) (foldList alg statements)
  | .catchClause binding body => .catchClause (foldOption alg binding) (foldOption alg body)
  | .parameter name type modifiers annotations isVarargs =>
    .parameter name (foldOption alg type) modifiers (foldList alg annotations) isVarargs
  | .enumConstant name arguments body annotations =>
    .enumConstant name (foldList alg arguments) (foldOptionList alg body) (foldList alg annotations)
  | .package name annotations => .package name (foldList alg annotations)
  | .importing decl => .importing decl
  | .unit header imports types =>
    .unit (foldOption alg header) (foldList alg imports) (foldList alg types)

def foldOption (alg : Tree → Form β → β) : Option Tree → Option β
  | none => none
  | some node => some (node.fold alg)

def foldList (alg : Tree → Form β → β) : List Tree → List β
  | [] => []
  | node :: rest => node.fold alg :: foldList alg rest

def foldOptionList (alg : Tree → Form β → β) : Option (List Tree) → Option (List β)
  | none => none
  | some nodes => some (foldList alg nodes)

def foldHoles (alg : Tree → Form β → β) : List (Option Tree) → List (Option β)
  | [] => []
  | entry :: rest => foldOption alg entry :: foldHoles alg rest

end

/-! ### Its equation -/

theorem foldOption_eq (alg : Tree → Form β → β) (slot : Option Tree) :
    foldOption alg slot = slot.map (Tree.fold alg) := by
  cases slot <;> simp [foldOption]

theorem foldList_eq (alg : Tree → Form β → β) (nodes : List Tree) :
    foldList alg nodes = nodes.map (Tree.fold alg) := by
  induction nodes with
  | nil => simp [foldList]
  | cons _ _ ih => simp [foldList, ih]

theorem foldOptionList_eq (alg : Tree → Form β → β) (slot : Option (List Tree)) :
    foldOptionList alg slot = slot.map (·.map (Tree.fold alg)) := by
  cases slot <;> simp [foldOptionList, foldList_eq]

theorem foldHoles_eq (alg : Tree → Form β → β) (entries : List (Option Tree)) :
    foldHoles alg entries = entries.map (·.map (Tree.fold alg)) := by
  induction entries with
  | nil => simp [foldHoles]
  | cons _ _ ih => simp [foldHoles, foldOption_eq, ih]

theorem foldLoopStart_eq (alg : Tree → Form β → β) (start : LoopStart Tree) :
    foldLoopStart alg start = start.map (Tree.fold alg) := by
  cases start <;> simp [foldLoopStart, LoopStart.map, foldList_eq]

/-- Folding a layer folds each of its children. -/
theorem foldForm_eq (alg : Tree → Form β → β) (form : Form Tree) :
    foldForm alg form = form.map (Tree.fold alg) := by
  rcases form with form | form | form | form | form | kind
  · cases form <;> simp [foldForm, foldTypeForm, Form.map, TypeForm.map, foldOption_eq,
      foldList_eq, foldOptionList_eq]
  · cases form <;> simp [foldForm, foldExprForm, Form.map, ExprForm.map, foldOption_eq,
      foldList_eq, foldOptionList_eq, foldHoles_eq]
  · cases form <;> simp [foldForm, foldStmtForm, Form.map, StmtForm.map, foldOption_eq,
      foldList_eq, foldLoopStart_eq]
  · cases form <;> simp [foldForm, foldMemberForm, Form.map, MemberForm.map, foldOption_eq,
      foldList_eq]
  · cases form <;> simp [foldForm, foldPartForm, Form.map, PartForm.map, foldOption_eq,
      foldList_eq, foldOptionList_eq]
  · simp [foldForm, Form.map]

/-- A fold gives the algebra the node and the layer of its children's results. -/
theorem Tree.fold_node (alg : Tree → Form β → β) (trivia : Trivia) (form : Form Tree) :
    Tree.fold alg (.node trivia form) = alg (.node trivia form) (form.map (Tree.fold alg)) := by
  rw [Tree.fold, foldForm_eq]

end Recast
