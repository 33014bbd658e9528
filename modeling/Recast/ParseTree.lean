import Recast.ParseTree.Form

/-!
Parser's trees, and the one recursion over them.

As for syntax trees, every reading of a parser's tree is an algebra given to `ParseTree.fold`, and
`ParseTree.fold_mk` is the equation that opens it.
-/

namespace Recast

/-- A tree as the Java parser hands it over. -/
inductive ParseTree where
  | mk (layer : ParseLayer ParseTree)

variable {β : Type}

namespace ParseTree

instance : Inhabited ParseTree := ⟨.mk .absent⟩

/-- The tree's own layer. -/
def layer : ParseTree → ParseLayer ParseTree
  | .mk layer => layer

/-- The name by which reports call what stands in a slot. -/
def kind (t : ParseTree) : String := t.layer.kind

/-- Whether nothing stands in a slot. -/
def isAbsent (t : ParseTree) : Bool := t.layer matches .absent

/-- Where the first token stands. -/
def position (t : ParseTree) : Option Position :=
  match t.layer with
  | .node mark _ _ => mark.position
  | _ => none

/-! ### The recursion -/

mutual

/-- Folds a tree bottom up: `alg` gets each node and its layer of results. -/
def fold (alg : ParseTree → ParseLayer β → β) : ParseTree → β
  | .mk layer => alg (.mk layer) (foldLayer alg layer)

def foldLayer (alg : ParseTree → ParseLayer β → β) : ParseLayer ParseTree → ParseLayer β
  | .absent => .absent
  | .word text => .word text
  | .sequence items => .sequence (foldList alg items)
  | .scalar kind => .scalar kind
  | .node mark selectors form => .node mark (foldList alg selectors) (foldForm alg form)

def foldForm (alg : ParseTree → ParseLayer β → β) : ParseForm ParseTree → ParseForm β
  | .type form => .type (foldType alg form)
  | .expr form => .expr (foldExpr alg form)
  | .stmt form => .stmt (foldStmt alg form)
  | .decl form => .decl (foldDecl alg form)

def foldType (alg : ParseTree → ParseLayer β → β) : ParseType ParseTree → ParseType β
  | .basic name dimensions => .basic name dimensions
  | .reference name dimensions arguments inner =>
    .reference name dimensions (foldOptionList alg arguments) (fold alg inner)
  | .argument type pattern => .argument (fold alg type) pattern

def foldExpr (alg : ParseTree → ParseLayer β → β) : ParseExpr ParseTree → ParseExpr β
  | .literal value => .literal value
  | .memberReference qualifier member => .memberReference qualifier member
  | .invocation qualifier member arguments typeArguments =>
    .invocation qualifier member (foldList alg arguments) (foldList alg typeArguments)
  | .superMember qualifier member => .superMember qualifier member
  | .superInvocation qualifier member arguments =>
    .superInvocation qualifier member (foldList alg arguments)
  | .this qualifier => .this qualifier
  | .create type arguments body =>
    .create (fold alg type) (foldList alg arguments) (foldOptionList alg body)
  | .createArray type dimensions initial =>
    .createArray (fold alg type) (foldList alg dimensions) (fold alg initial)
  | .arrayInitializer values => .arrayInitializer (foldList alg values)
  | .classReference isVoid qualifier type => .classReference isVoid qualifier (fold alg type)
  | .assignment operator target value => .assignment operator (fold alg target) (fold alg value)
  | .ternary condition whenTrue whenFalse =>
    .ternary (fold alg condition) (fold alg whenTrue) (fold alg whenFalse)
  | .binary operator left right => .binary operator (fold alg left) (fold alg right)
  | .cast type expression => .cast (fold alg type) (fold alg expression)
  | .lambda parameters body => .lambda (foldList alg parameters) (fold alg body)
  | .methodReference target method => .methodReference (fold alg target) (fold alg method)
  | .thisCall arguments => .thisCall (foldList alg arguments)
  | .superCall arguments => .superCall (foldList alg arguments)
  | .arraySelector index => .arraySelector (fold alg index)

def foldStmt (alg : ParseTree → ParseLayer β → β) : ParseStmt ParseTree → ParseStmt β
  | .bindings isLocal type declarators modifiers annotations =>
    .bindings isLocal (fold alg type) (foldList alg declarators) modifiers
      (foldList alg annotations)
  | .block statements => .block (foldList alg statements)
  | .evaluate expression => .evaluate (fold alg expression)
  | .ifElse condition whenTrue whenFalse =>
    .ifElse (fold alg condition) (fold alg whenTrue) (fold alg whenFalse)
  | .whileLoop condition body => .whileLoop (fold alg condition) (fold alg body)
  | .doLoop condition body => .doLoop (fold alg condition) (fold alg body)
  | .forLoop control body => .forLoop (fold alg control) (fold alg body)
  | .forControl start condition update =>
    .forControl (fold alg start) (fold alg condition) (foldList alg update)
  | .forEachControl binding iterable => .forEachControl (fold alg binding) (fold alg iterable)
  | .returning expression => .returning (fold alg expression)
  | .throwing expression => .throwing (fold alg expression)
  | .breaking target => .breaking target
  | .continuing target => .continuing target
  | .switch selector cases => .switch (fold alg selector) (foldList alg cases)
  | .switchCase labels statements => .switchCase (foldList alg labels) (foldList alg statements)
  | .tryCatch resources body catches finalBlock =>
    .tryCatch (foldList alg resources) (foldList alg body) (foldList alg catches)
      (foldOptionList alg finalBlock)
  | .resource type name value modifiers annotations =>
    .resource (fold alg type) name (fold alg value) modifiers (foldList alg annotations)
  | .catchClause binding body => .catchClause (fold alg binding) (foldList alg body)
  | .catchParameter name types modifiers annotations =>
    .catchParameter name types modifiers (foldList alg annotations)
  | .synchronized lock body => .synchronized (fold alg lock) (foldList alg body)
  | .assertion condition message => .assertion (fold alg condition) (fold alg message)
  | .empty => .empty

def foldDecl (alg : ParseTree → ParseLayer β → β) : ParseDecl ParseTree → ParseDecl β
  | .unit header imports types =>
    .unit (fold alg header) (foldList alg imports) (foldList alg types)
  | .package name annotations => .package name (foldList alg annotations)
  | .importing path isStatic isWildcard => .importing path isStatic isWildcard
  | .classType name modifiers annotations typeParameters parent interfaces members =>
    .classType name modifiers (foldList alg annotations) (foldList alg typeParameters)
      (fold alg parent) (foldList alg interfaces) (foldList alg members)
  | .interfaceType name modifiers annotations typeParameters parents members =>
    .interfaceType name modifiers (foldList alg annotations) (foldList alg typeParameters)
      (foldList alg parents) (foldList alg members)
  | .enumType name modifiers annotations interfaces constants members =>
    .enumType name modifiers (foldList alg annotations) (foldList alg interfaces)
      (foldList alg constants) (foldList alg members)
  | .enumBody constants members => .enumBody (foldList alg constants) (foldList alg members)
  | .enumConstant name arguments body annotations =>
    .enumConstant name (foldList alg arguments) (foldOptionList alg body) (foldList alg annotations)
  | .typeParameter name bounds => .typeParameter name (foldList alg bounds)
  | .annotationUse name element => .annotationUse name (fold alg element)
  | .elementPair name value => .elementPair name (fold alg value)
  | .elementArray values => .elementArray (foldList alg values)
  | .method name returnType parameters throws body modifiers annotations typeParameters =>
    .method name (fold alg returnType) (foldList alg parameters) throws (foldOptionList alg body)
      modifiers (foldList alg annotations) (foldList alg typeParameters)
  | .constructor name parameters throws body modifiers annotations typeParameters =>
    .constructor name (foldList alg parameters) throws (foldList alg body) modifiers
      (foldList alg annotations) (foldList alg typeParameters)
  | .field isConstant type declarators modifiers annotations =>
    .field isConstant (fold alg type) (foldList alg declarators) modifiers
      (foldList alg annotations)
  | .declarator name dimensions initial => .declarator name dimensions (fold alg initial)
  | .formalParameter type name isVarargs modifiers annotations =>
    .formalParameter (fold alg type) name isVarargs modifiers (foldList alg annotations)
  | .inferredParameter name => .inferredParameter name
  | .other kind name annotations => .other kind name (foldList alg annotations)

def foldList (alg : ParseTree → ParseLayer β → β) : List ParseTree → List β
  | [] => []
  | node :: rest => fold alg node :: foldList alg rest

def foldOptionList (alg : ParseTree → ParseLayer β → β) :
    Option (List ParseTree) → Option (List β)
  | none => none
  | some nodes => some (foldList alg nodes)

end

/-! ### Its equation -/

theorem foldList_eq (alg : ParseTree → ParseLayer β → β) (nodes : List ParseTree) :
    foldList alg nodes = nodes.map (fold alg) := by
  induction nodes with
  | nil => simp [foldList]
  | cons _ _ ih => simp [foldList, ih]

theorem foldOptionList_eq (alg : ParseTree → ParseLayer β → β) (slot : Option (List ParseTree)) :
    foldOptionList alg slot = slot.map (·.map (fold alg)) := by
  cases slot <;> simp [foldOptionList, foldList_eq]

theorem foldForm_eq (alg : ParseTree → ParseLayer β → β) (form : ParseForm ParseTree) :
    foldForm alg form = form.map (fold alg) := by
  rcases form with form | form | form | form
  · cases form <;> simp [foldForm, foldType, ParseForm.map, ParseType.map, foldOptionList_eq]
  · cases form <;> simp [foldForm, foldExpr, ParseForm.map, ParseExpr.map, foldList_eq,
      foldOptionList_eq]
  · cases form <;> simp [foldForm, foldStmt, ParseForm.map, ParseStmt.map, foldList_eq,
      foldOptionList_eq]
  · cases form <;> simp [foldForm, foldDecl, ParseForm.map, ParseDecl.map, foldList_eq,
      foldOptionList_eq]

/-- Folding a layer folds each of its children. -/
theorem foldLayer_eq (alg : ParseTree → ParseLayer β → β) (layer : ParseLayer ParseTree) :
    foldLayer alg layer = layer.map (fold alg) := by
  cases layer <;> simp [foldLayer, ParseLayer.map, foldList_eq, foldForm_eq]

/-- A fold gives the algebra the node and the layer of its children's results. -/
theorem fold_mk (alg : ParseTree → ParseLayer β → β) (layer : ParseLayer ParseTree) :
    fold alg (.mk layer) = alg (.mk layer) (layer.map (fold alg)) := by
  rw [fold, foldLayer_eq]

end ParseTree

end Recast
