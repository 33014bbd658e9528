import Mathlib
import Recast.Proofs.ParseTree
import Recast.Proofs.Tree.Basic
import Recast.Proofs.Yields
import Recast.Reading

/-!
The tokens of expressions.

The names, literals and operators of an expression are counted in the parser's tree and in the syntax
tree that it is read as, through operands, arguments, selectors, dimensions and the bodies of lambdas.
Reading keeps them all but a few: above all, the qualifier before a class literal is dropped.
`ParseTree.lost` counts what is dropped, and `Carries` says of each place where a part may stand that
the rest is kept.
-/

namespace Recast

variable {α β : Type}

/-- A token of an expression. -/
inductive Reading.Token where
  | name (word : Word)
  | literal (word : Word)
  | operator (word : Word)

open Reading (Token)

/-- The names of a dotted qualifier. -/
def Reading.Token.dotted (qualifier : String) : List Token :=
  if qualifier = "" then [] else (Text.split '.' qualifier).map fun part => .name (.text part)

/-- The names of a qualifier that is a word. -/
def Reading.Token.ofWord : Word → List Token
  | .text qualifier => dotted qualifier
  | _ => []

/-! ### Tokens of parser's trees -/

/-- The operators that hang on a node. -/
def ParseMark.tokens (mark : ParseMark) : List Token := (mark.before ++ mark.after).map .operator

namespace ParseExpr

/-- The names of the qualifier of an expression. -/
def qualifier : ParseExpr α → List Token
  | .memberReference qualifier _ | .invocation qualifier .. | .superMember qualifier _
  | .superInvocation qualifier .. | .classReference _ qualifier _ => Token.dotted qualifier
  | .this qualifier => Token.ofWord qualifier
  | _ => []

/-- The member that an expression names. -/
def member? : ParseExpr α → Option Word
  | .memberReference _ member | .invocation _ member .. | .superMember _ member
  | .superInvocation _ member _ => some member
  | _ => none

/-- The qualifier of an expression, and its member, literal or operator. -/
def tokens (form : ParseExpr α) : List Token :=
  form.qualifier ++
    match form with
    | .literal value => [.literal value]
    | .assignment operator _ _ | .binary operator _ _ => [.operator operator]
    | _ => form.member?.toList.map .name

/-- The parts of an expression that are expressions themselves. -/
def operands : ParseExpr α → List α
  | .invocation _ _ arguments _ | .superInvocation _ _ arguments | .create _ arguments _
  | .arrayInitializer arguments | .thisCall arguments | .superCall arguments => arguments
  | .createArray _ dimensions initial => dimensions ++ [initial]
  | .assignment _ left right | .binary _ left right => [left, right]
  | .ternary condition whenTrue whenFalse => [condition, whenTrue, whenFalse]
  | .cast _ inner | .lambda _ inner | .arraySelector inner => [inner]
  | .methodReference target method => [target, method]
  | _ => []

theorem tokens_map (f : α → β) (form : ParseExpr α) : (form.map f).tokens = form.tokens := by
  cases form <;> rfl

theorem operands_map (f : α → β) (form : ParseExpr α) :
    (form.map f).operands = form.operands.map f := by
  cases form <;> simp [map, operands]

end ParseExpr

namespace ParseTree

/-- How many tokens of a kind an expression has. -/
def occurrences (p : Token → Bool) : ParseTree → Nat :=
  fold fun _ layer =>
    match layer with
    | .node mark selectors (.expr form) =>
      (mark.tokens ++ form.tokens).countP p + form.operands.sum + selectors.sum
    | _ => 0

/-- How many of them stand in the operators and selectors that hang on a node. -/
def hanging (p : Token → Bool) (t : ParseTree) : Nat :=
  match t.layer with
  | .node mark selectors _ => mark.tokens.countP p + (selectors.map (occurrences p)).sum
  | _ => 0

/-- The tokens of a member, if a node names one. -/
def memberTokens (t : ParseTree) : List Token :=
  match t.layer with
  | .node _ _ (.expr form) => form.member?.toList.map .name
  | _ => []

/-- How many tokens reading drops at a node: the qualifier of a class literal or before `super`, all
but the name of the method in a method reference, and what hangs on an array initializer or on an
index. -/
def dropped (p : Token → Bool) (t : ParseTree) : Nat :=
  match t.layer with
  | .node _ selectors (.expr form) =>
    match form with
    | .classReference .. | .superMember .. | .superInvocation .. => form.qualifier.countP p
    | .methodReference _ method => method.occurrences p - method.memberTokens.countP p
    | .createArray _ _ initial => initial.hanging p
    | .arraySelector _ => (selectors.map (occurrences p)).sum
    | _ => 0
  | _ => 0

/-- How many tokens reading drops in a whole expression. -/
def lost (p : Token → Bool) : ParseTree → Nat :=
  fold fun t layer =>
    match layer with
    | .node _ selectors (.expr form) => t.dropped p + form.operands.sum + selectors.sum
    | _ => 0

/-- Whether a node, as a selector, has no operators and no qualifier of its own. -/
def isSelector (t : ParseTree) : Bool :=
  match t.layer with
  | .node mark _ (.expr form) => mark.tokens.isEmpty && form.qualifier.isEmpty
  | _ => true

/-- Whether all selectors in a tree are without operators and qualifiers. -/
def isBuilt : ParseTree → Bool :=
  fold fun t layer =>
    layer.children.all id &&
      match t.layer with
      | .node _ selectors _ => selectors.all isSelector
      | _ => true

variable {p : Token → Bool} {mark : ParseMark} {selectors : List ParseTree}

theorem occurrences_node (form : ParseExpr ParseTree) :
    (mk (.node mark selectors (.expr form))).occurrences p =
      mark.tokens.countP p + form.tokens.countP p + (form.operands.map (occurrences p)).sum
        + (selectors.map (occurrences p)).sum := by
  rw [occurrences, fold_mk, ← form.operands_map, ← List.countP_append,
    ← form.tokens_map (occurrences p)]
  rfl

theorem lost_node (form : ParseExpr ParseTree) :
    (mk (.node mark selectors (.expr form))).lost p =
      (mk (.node mark selectors (.expr form))).dropped p + (form.operands.map (lost p)).sum
        + (selectors.map (lost p)).sum := by
  rw [lost, fold_mk, ← form.operands_map]
  rfl

/-- What is no expression has no tokens. -/
theorem occurrences_eq_zero {layer : ParseLayer ParseTree}
    (h : ∀ mark selectors form, layer ≠ .node mark selectors (.expr form)) :
    (mk layer).occurrences p = 0 := by
  rw [occurrences, fold_mk]
  cases layer with
  | node mark selectors form =>
    cases form with
    | expr form => exact absurd rfl (h mark selectors form)
    | _ => rfl
  | _ => rfl

theorem isBuilt_mk {layer : ParseLayer ParseTree} (h : (mk layer).isBuilt) :
    ∀ child ∈ layer.children, child.isBuilt := by
  rw [isBuilt, fold_mk] at h
  simp only [ParseLayer.children_map, Bool.and_eq_true, List.all_map, List.all_eq_true] at h
  exact h.1

theorem isSelector_of_isBuilt {form : ParseForm ParseTree}
    (h : (mk (.node mark selectors form)).isBuilt) : ∀ selector ∈ selectors, selector.isSelector := by
  rw [isBuilt, fold_mk] at h
  simp only [Bool.and_eq_true, layer, List.all_eq_true] at h
  exact h.2

end ParseTree

/-! ### Tokens of syntax trees -/

namespace ExprForm

/-- The name, the literal or the operator of an expression. -/
def tokens : ExprForm α → List Token
  | .ident name | .field _ name | .call name .. | .methodReference _ name => [.name name]
  | .literal value => [.literal value]
  | .this qualifier => Token.ofWord qualifier
  | .binary operator .. | .unary operator .. | .assign operator .. => [.operator operator]
  | .instanceOf .. => [.operator (.text "instanceof")]
  | _ => []

/-- The parts of an expression that are expressions themselves. -/
def operands : ExprForm α → List α
  | .field inner _ | .unary _ inner _ | .cast _ inner | .instanceOf inner _ | .lambda _ inner
  | .methodReference inner _ => inner.toList
  | .call _ arguments target _ => arguments ++ target.toList
  | .create _ arguments _ | .arrayLiteral arguments => arguments
  | .arrayCreate _ dimensions initial => dimensions.filterMap id ++ initial.toList
  | .subscript left right | .binary _ left right | .assign _ left right =>
    left.toList ++ right.toList
  | .conditional condition whenTrue whenFalse =>
    condition.toList ++ whenTrue.toList ++ whenFalse.toList
  | _ => []

theorem tokens_map (f : α → β) (form : ExprForm α) : (form.map f).tokens = form.tokens := by
  cases form <;> rfl

theorem operands_map (f : α → β) (form : ExprForm α) :
    (form.map f).operands = form.operands.map f := by
  cases form with
  | arrayCreate element dimensions initial =>
    simp only [map, operands, Option.toList_map, holes_map, List.map_append]
  | _ => simp [map, operands, Option.toList_map]

end ExprForm

/-- How many tokens of a kind an expression has; types are not looked at. -/
def Tree.occurrences (p : Token → Bool) : Tree → Nat :=
  fold fun _ layer =>
    match layer with
    | .expr form => form.tokens.countP p + form.operands.sum
    | _ => 0

@[simp]
theorem Tree.occurrences_node (p : Token → Bool) (trivia : Trivia) (form : ExprForm Tree) :
    (node trivia (.expr form)).occurrences p =
      form.tokens.countP p + (form.operands.map (occurrences p)).sum := by
  rw [occurrences, fold_node, ← form.operands_map, ← form.tokens_map (occurrences p)]
  rfl

/-! ### Readings of a part -/

namespace ParseTree

@[simp]
theorem tree_reading (t : ParseTree) : t.reading.tree = t := by
  cases t
  rw [reading, fold_mk]

variable (layer : ParseLayer ParseTree)

theorem type_reading : (mk layer).reading.type = Reading.typeOf (layer.map reading) := by
  rw [reading, fold_mk]

theorem primary_reading : (mk layer).reading.primary = Reading.primaryOf (layer.map reading) := by
  rw [reading, fold_mk]

theorem expr_reading : (mk layer).reading.expr = Reading.exprOf (layer.map reading) := by
  rw [reading, fold_mk]

theorem select_reading : (mk layer).reading.select = Reading.selectOf (layer.map reading) := by
  rw [reading, fold_mk]

theorem lambdaBody_reading :
    (mk layer).reading.lambdaBody = Reading.lambdaBodyOf (layer.map reading) := by
  rw [reading, fold_mk]

end ParseTree

/-! ### What reading keeps -/

namespace Reading

/-- What each way to read a part keeps of its tokens. -/
structure Carries (p : Token → Bool) (t : ParseTree) : Prop where
  type : t.reading.type.Yields fun _ => t.occurrences p = 0
  primary : t.reading.primary.Yields fun result =>
    t.occurrences p ≤ result.occurrences p + t.lost p + t.hanging p
  expr : t.reading.expr.Yields fun result => t.occurrences p ≤ result.occurrences p + t.lost p
  select : t.isSelector → ∀ target, (t.reading.select target).Yields fun result =>
    target.occurrences p + t.occurrences p ≤ result.occurrences p + t.lost p
  lambdaBody : t.reading.lambdaBody.Yields fun result =>
    t.occurrences p ≤ result.occurrences p + t.lost p

section Kept

variable {p : Token → Bool}

@[simp]
theorem occurrences_at? (position : Option Position) (form : ExprForm Tree) :
    (at? position (.expr form)).occurrences p =
      form.tokens.countP p + (form.operands.map (Tree.occurrences p)).sum :=
  Tree.occurrences_node ..

@[simp]
theorem occurrences_bare (form : ExprForm Tree) :
    (bare (.expr form)).occurrences p =
      form.tokens.countP p + (form.operands.map (Tree.occurrences p)).sum :=
  Tree.occurrences_node ..

theorem countP_dotted_le (qualifier : String) :
    (Token.dotted qualifier).countP p ≤ (dotted qualifier).occurrences p := by
  have hfold : ∀ (segments : List String) (target : Tree),
      (segments.foldl (fun target name => bare (.expr (.field (some target) (.text name))))
        target).occurrences p =
      target.occurrences p + (segments.map fun name => Token.name (.text name)).countP p := by
    intro segments
    induction segments with
    | nil => simp
    | cons first rest ih =>
      intro target
      simp only [List.foldl_cons, ih, occurrences_bare, ExprForm.tokens, ExprForm.operands,
        Option.toList, List.map_cons, List.map_nil, List.sum_cons, List.sum_nil, List.countP_cons,
        List.countP_nil]
      omega
  unfold Token.dotted dotted
  split
  · simp
  · split
    · simp_all
    · rename_i first rest hsplit
      rw [hsplit, hfold, occurrences_bare]
      simp only [ExprForm.tokens, ExprForm.operands, List.map_cons, List.map_nil, List.sum_nil,
        List.countP_cons, List.countP_nil]
      omega

theorem countP_dotted_le_target (qualifier : String) :
    (Token.dotted qualifier).countP p ≤
      ((qualifierTarget qualifier).toList.map (Tree.occurrences p)).sum := by
  unfold qualifierTarget
  split
  · simp_all [Token.dotted]
  · simpa using countP_dotted_le qualifier

theorem occurrences_applyOperators (before after : List Word) (expression : Tree) :
    (applyOperators before after expression).occurrences p =
      ((before ++ after).map Token.operator).countP p + expression.occurrences p := by
  have hfold : ∀ (isBefore : Bool) (operators : List Word) (operand : Tree),
      (operators.foldl (fun operand operator =>
        bare (.expr (.unary operator (some operand) isBefore))) operand).occurrences p =
      (operators.map Token.operator).countP p + operand.occurrences p := by
    intro isBefore operators
    induction operators with
    | nil => simp
    | cons first rest ih =>
      intro operand
      simp only [List.foldl_cons, ih, occurrences_bare, ExprForm.tokens, ExprForm.operands,
        Option.toList, List.map_cons, List.map_nil, List.sum_cons, List.sum_nil, List.countP_cons,
        List.countP_nil]
      omega
  unfold applyOperators
  rw [hfold, hfold, List.map_reverse, List.countP_reverse, List.map_append, List.countP_append]
  omega

/-- The expressions in a list keep their tokens. -/
theorem carries_list {nodes : List ParseTree} (h : ∀ t ∈ nodes, Carries p t) :
    Read.Yields ((nodes.map ParseTree.reading).mapM fun r => r.expr) fun results =>
      (nodes.map (ParseTree.occurrences p)).sum ≤
        (results.map (Tree.occurrences p)).sum + (nodes.map (ParseTree.lost p)).sum := by
  rw [List.mapM_map]
  exact Read.Yields.mapM_sum fun t ht => (h t ht).expr

theorem sum_filterMap_id (slots : List (Option Tree)) :
    ((slots.filterMap id).map (Tree.occurrences p)).sum =
      (slots.map fun slot => (slot.toList.map (Tree.occurrences p)).sum).sum := by
  induction slots with
  | nil => rfl
  | cons slot rest ih => cases slot <;> simpa using ih

theorem occurrences_of_isAbsent {t : ParseTree} (h : t.isAbsent) : t.occurrences p = 0 := by
  obtain ⟨layer⟩ := t
  refine ParseTree.occurrences_eq_zero ?_
  rintro mark selectors form rfl
  cases h

/-- What is read if it is there keeps its tokens. -/
theorem carries_optional {t : ParseTree} {read : Reading → Read Tree} {loss : Nat}
    (h : (read t.reading).Yields fun result => t.occurrences p ≤ result.occurrences p + loss) :
    (optional t.reading read).Yields fun result =>
      t.occurrences p ≤ (result.toList.map (Tree.occurrences p)).sum + loss := by
  unfold optional
  rw [ParseTree.tree_reading]
  split
  · rename_i habsent
    exact .pure (by simp [occurrences_of_isAbsent habsent])
  · exact h.map fun result hresult => by simpa using hresult

theorem carries_dimensions {nodes : List ParseTree} (h : ∀ t ∈ nodes, Carries p t) :
    Read.Yields ((nodes.map ParseTree.reading).mapM fun r => optional r fun r => r.expr)
      fun results => (nodes.map (ParseTree.occurrences p)).sum ≤
        ((results.filterMap id).map (Tree.occurrences p)).sum + (nodes.map (ParseTree.lost p)).sum := by
  simp only [sum_filterMap_id]
  rw [List.mapM_map]
  exact Read.Yields.mapM_sum fun t ht => carries_optional (h t ht).expr

theorem carries_referenceTarget {target : ParseTree} (h : Carries p target) :
    (referenceTarget target.reading).Yields fun result =>
      target.occurrences p ≤ result.occurrences p + target.lost p := by
  obtain ⟨layer⟩ := target
  unfold referenceTarget
  simp only [ParseTree.tree_reading, ParseTree.layer]
  split
  all_goals first
    | exact h.expr
    | refine .pure ?_
      rw [ParseTree.occurrences_eq_zero (by simp)]
      omega

theorem carries_referredMethod {method : ParseTree} :
    (referredMethod method.reading).Yields fun name =>
      method.memberTokens = [.name name] := by
  obtain ⟨layer⟩ := method
  unfold referredMethod ParseTree.memberTokens
  simp only [ParseTree.tree_reading, ParseTree.layer]
  split
  all_goals first
    | exact .unsupported
    | exact .pure rfl

theorem countP_ofWord_le (qualifier : Word) :
    (Token.ofWord qualifier).countP p ≤
      (Token.ofWord (if qualifier.isSet then qualifier else .null)).countP p := by
  split
  · rfl
  · cases qualifier <;> simp_all [Token.ofWord, Token.dotted, Value.isSet]

theorem eq_text_of_isText {text : String} {value : Value} (h : value.isText text) :
    value = .text text := by
  cases value <;> simp_all [Value.isText, Value.text?]

theorem carries_primaryForm {form : ParseExpr ParseTree} (h : ∀ t ∈ form.children, Carries p t)
    (mark : ParseMark) (selectors : List ParseTree) :
    (primaryForm mark.position (form.map ParseTree.reading)).Yields fun result =>
      form.tokens.countP p + (form.operands.map (ParseTree.occurrences p)).sum ≤
        result.occurrences p + (form.operands.map (ParseTree.lost p)).sum
          + (ParseTree.mk (.node mark selectors (.expr form))).dropped p := by
  cases form <;> simp only [ParseExpr.children, List.forall_mem_append, List.forall_mem_singleton]
    at h <;> simp only [ParseExpr.map, primaryForm, ParseExpr.tokens, ParseExpr.qualifier,
      ParseExpr.member?, ParseExpr.operands, ParseTree.dropped, ParseTree.layer, Option.toList,
      List.map_cons, List.map_nil, List.nil_append, List.append_nil, List.countP_append, List.sum_cons,
      List.sum_nil, List.countP_nil]
  case literal value => exact .pure (by simp [ExprForm.tokens])
  case memberReference qualifier member =>
    have hqualifier := countP_dotted_le_target (p := p) qualifier
    split <;> rename_i hsome
    · refine .pure ?_
      simp only [hsome, Option.toList] at hqualifier
      simp [ExprForm.tokens, ExprForm.operands] at hqualifier ⊢
      omega
    · refine .pure ?_
      simp only [hsome, Option.toList] at hqualifier
      simp [ExprForm.tokens, ExprForm.operands] at hqualifier ⊢
      omega
  case invocation qualifier member arguments typeArguments =>
    have hqualifier := countP_dotted_le_target (p := p) qualifier
    refine (carries_list h.1).bind fun arguments harguments => ?_
    refine Read.Yields.trivial.bind fun types _ => .pure ?_
    simp only [occurrences_at?, ExprForm.tokens, ExprForm.operands, List.map_append, List.sum_append]
    omega
  case superMember qualifier member =>
    refine .pure ?_
    simp [ExprForm.tokens, ExprForm.operands]
    omega
  case superInvocation qualifier member arguments =>
    refine (carries_list h).bind fun arguments harguments => .pure ?_
    simp only [occurrences_at?, ExprForm.tokens, ExprForm.operands, List.map_append, List.sum_append]
    omega
  case this qualifier =>
    refine .pure ?_
    simpa [ExprForm.tokens, ExprForm.operands] using countP_ofWord_le qualifier
  case create type arguments body =>
    refine Read.Yields.trivial.bind fun type _ => ?_
    refine (carries_list h.1.2).bind fun arguments harguments => ?_
    refine Read.Yields.trivial.bind fun body _ => .pure ?_
    simpa [ExprForm.tokens, ExprForm.operands] using harguments
  case createArray type dimensions initial =>
    refine Read.Yields.trivial.bind fun type _ => ?_
    refine (carries_dimensions h.1.2).bind fun dimensions hdimensions => ?_
    have hprimary : initial.reading.primary.Yields fun result =>
        initial.occurrences p ≤ result.occurrences p + (initial.lost p + initial.hanging p) :=
      h.2.primary.mono fun _ hresult => by omega
    refine (carries_optional hprimary).bind fun values hvalues => .pure ?_
    simp only [occurrences_at?, ExprForm.tokens, ExprForm.operands, List.map_append, List.sum_append,
      List.map_cons, List.map_nil, List.sum_cons, List.sum_nil, List.countP_nil]
    omega
  case arrayInitializer values =>
    refine (carries_list h).bind fun values hvalues => .pure ?_
    simpa [ExprForm.tokens, ExprForm.operands] using hvalues
  case classReference isVoid qualifier type =>
    refine Read.Yields.trivial.bind fun type _ => .pure ?_
    omega
  case assignment operator target value =>
    refine h.1.expr.bind fun target htarget => h.2.expr.bind fun value hvalue => .pure ?_
    simp [ExprForm.tokens, ExprForm.operands]
    omega
  case ternary condition whenTrue whenFalse =>
    refine h.1.1.expr.bind fun condition hcondition => h.1.2.expr.bind fun whenTrue hwhenTrue => ?_
    refine h.2.expr.bind fun whenFalse hwhenFalse => .pure ?_
    simp [ExprForm.tokens, ExprForm.operands]
    omega
  case binary operator left right =>
    refine h.1.expr.bind fun left hleft => ?_
    split
    · rename_i hoperator
      refine h.2.type.bind fun type hright => .pure ?_
      obtain rfl : operator = .text "instanceof" := eq_text_of_isText hoperator
      simp [ExprForm.tokens, ExprForm.operands, hright]
      omega
    · refine h.2.expr.bind fun right hright => .pure ?_
      simp [ExprForm.tokens, ExprForm.operands]
      omega
  case cast type expression =>
    refine Read.Yields.trivial.bind fun type _ => h.2.expr.bind fun expression hexpression => ?_
    refine .pure ?_
    simpa [ExprForm.tokens, ExprForm.operands] using hexpression
  case lambda parameters body =>
    refine h.2.lambdaBody.bind fun body hbody => ?_
    refine Read.Yields.trivial.bind fun parameters _ => .pure ?_
    simpa [ExprForm.tokens, ExprForm.operands] using hbody
  case methodReference target method =>
    refine (carries_referenceTarget h.1).bind fun target htarget => ?_
    refine carries_referredMethod.bind fun name hname => .pure ?_
    simp [ExprForm.tokens, ExprForm.operands, hname]
    omega
  all_goals exact .unsupported

theorem carries_applySelectors {selectors : List ParseTree}
    (h : ∀ t ∈ selectors, t.isSelector ∧ Carries p t) (target : Tree) :
    (applySelectors target (selectors.map ParseTree.reading)).Yields fun result =>
      target.occurrences p + (selectors.map (ParseTree.occurrences p)).sum ≤
        result.occurrences p + (selectors.map (ParseTree.lost p)).sum := by
  induction selectors generalizing target with
  | nil => exact .pure (by simp)
  | cons first rest ih =>
    obtain ⟨⟨hselector, hfirst⟩, hrest⟩ := List.forall_mem_cons.1 h
    refine (hfirst.select hselector target).bind fun selected hselected => ?_
    refine (ih hrest selected).mono fun result hresult => ?_
    simp only [List.map_cons, List.sum_cons]
    omega

section Layers

variable {layer : ParseLayer ParseTree}

theorem carries_typeOf :
    (typeOf (layer.map ParseTree.reading)).Yields fun _ => (ParseTree.mk layer).occurrences p = 0 := by
  cases layer with
  | node mark selectors form =>
    cases form with
    | expr form => exact .unsupported
    | _ => exact Read.Yields.trivial.mono fun _ _ => ParseTree.occurrences_eq_zero (by simp)
  | _ => exact Read.Yields.trivial.mono fun _ _ => ParseTree.occurrences_eq_zero (by simp)

theorem carries_primaryOf (h : ∀ t ∈ layer.children, Carries p t) :
    (primaryOf (layer.map ParseTree.reading)).Yields fun result =>
      (ParseTree.mk layer).occurrences p ≤ result.occurrences p + (ParseTree.mk layer).lost p
        + (ParseTree.mk layer).hanging p := by
  cases layer with
  | node mark selectors form =>
    cases form with
    | expr form =>
      refine (carries_primaryForm (fun t ht => h t (List.mem_append_left _ ht)) mark selectors).mono
        fun result hresult => ?_
      rw [ParseTree.occurrences_node, ParseTree.lost_node]
      simp only [ParseTree.hanging, ParseTree.layer]
      omega
    | _ => exact .unsupported
  | _ => exact .unsupported

theorem carries_exprOf (hbuilt : (ParseTree.mk layer).isBuilt)
    (h : ∀ t ∈ layer.children, Carries p t) :
    (exprOf (layer.map ParseTree.reading)).Yields fun result =>
      (ParseTree.mk layer).occurrences p ≤ result.occurrences p + (ParseTree.mk layer).lost p := by
  cases layer with
  | node mark selectors form =>
    cases form with
    | expr form =>
      refine (carries_primaryForm (fun t ht => h t (List.mem_append_left _ ht)) mark selectors).bind
        fun primary hprimary => ?_
      refine (carries_applySelectors (fun t ht => ⟨ParseTree.isSelector_of_isBuilt hbuilt t ht,
        h t (List.mem_append_right _ ht)⟩) primary).bind fun selected hselected => .pure ?_
      rw [occurrences_applyOperators, ParseTree.occurrences_node, ParseTree.lost_node]
      simp only [ParseMark.tokens]
      omega
    | _ => exact .unsupported
  | _ => exact .unsupported

theorem carries_selectOf (hbuilt : (ParseTree.mk layer).isBuilt)
    (h : ∀ t ∈ layer.children, Carries p t) (hselector : (ParseTree.mk layer).isSelector)
    (target : Tree) :
    (selectOf (layer.map ParseTree.reading) target).Yields fun result =>
      target.occurrences p + (ParseTree.mk layer).occurrences p ≤
        result.occurrences p + (ParseTree.mk layer).lost p := by
  cases layer with
  | node mark selectors form =>
    cases form with
    | expr form =>
      have hselectors : ∀ t ∈ selectors, t.isSelector ∧ Carries p t := fun t ht =>
        ⟨ParseTree.isSelector_of_isBuilt hbuilt t ht, h t (List.mem_append_right _ ht)⟩
      simp only [ParseTree.isSelector, ParseTree.layer, Bool.and_eq_true, List.isEmpty_iff]
        at hselector
      obtain ⟨hmark, hqualifier⟩ := hselector
      rw [ParseTree.occurrences_node, ParseTree.lost_node, hmark]
      cases form with
      | invocation qualifier member arguments typeArguments =>
        refine (carries_list fun t ht => h t (by
          simp [ParseLayer.children, ParseForm.children, ParseExpr.children, ht])).bind
          fun arguments harguments => ?_
        refine Read.Yields.trivial.bind fun types _ => ?_
        refine (carries_applySelectors hselectors _).mono fun result hresult => ?_
        simp only [ParseExpr.tokens, hqualifier, ParseExpr.member?, ParseExpr.operands]
        simp [ExprForm.tokens, ExprForm.operands] at hresult ⊢
        omega
      | memberReference qualifier member =>
        refine (carries_applySelectors hselectors _).mono fun result hresult => ?_
        simp only [ParseExpr.tokens, hqualifier, ParseExpr.member?, ParseExpr.operands]
        simp [ExprForm.tokens, ExprForm.operands] at hresult ⊢
        omega
      | arraySelector index =>
        have hindex : Carries p index := h index (by
          simp [ParseLayer.children, ParseForm.children, ParseExpr.children])
        refine hindex.expr.bind fun read hread => .pure ?_
        simp [ParseExpr.tokens, ParseExpr.qualifier, ParseExpr.member?, ParseExpr.operands,
          ParseTree.dropped, ParseTree.layer, ExprForm.tokens, ExprForm.operands]
        omega
      | _ => exact .unsupported
    | _ => exact .unsupported
  | _ => exact .unsupported

theorem carries_lambdaBodyOf (hbuilt : (ParseTree.mk layer).isBuilt)
    (h : ∀ t ∈ layer.children, Carries p t) :
    (lambdaBodyOf (layer.map ParseTree.reading)).Yields fun result =>
      (ParseTree.mk layer).occurrences p ≤ result.occurrences p + (ParseTree.mk layer).lost p := by
  cases layer with
  | sequence statements =>
    refine Read.Yields.trivial.mono fun _ _ => ?_
    rw [ParseTree.occurrences_eq_zero (by simp)]
    omega
  | _ => exact carries_exprOf hbuilt h

end Layers

/-- Every part of a tree with plain selectors keeps its tokens. -/
theorem carries_of_isBuilt (p : Token → Bool) : ∀ t : ParseTree, t.isBuilt → Carries p t := by
  refine ParseTree.induct fun layer ih hbuilt => ?_
  have h : ∀ t ∈ layer.children, Carries p t := fun t ht =>
    ih t ht (ParseTree.isBuilt_mk hbuilt t ht)
  constructor
  · rw [ParseTree.type_reading]
    exact carries_typeOf
  · rw [ParseTree.primary_reading]
    exact carries_primaryOf h
  · rw [ParseTree.expr_reading]
    exact carries_exprOf hbuilt h
  · rw [ParseTree.select_reading]
    exact carries_selectOf hbuilt h
  · rw [ParseTree.lambdaBody_reading]
    exact carries_lambdaBodyOf hbuilt h

end Kept

/-- An expression keeps its tokens, but for those that are counted as lost: whatever tokens one looks
for, reading gives at least as many of them as stand in what it does not drop. -/
theorem occurrences_le_of_expr {t : ParseTree} (hbuilt : t.isBuilt) (source : Source)
    (found : List Diagnostic) {found' : List Diagnostic} {result : Tree}
    (h : t.reading.expr source found = .ok (result, found')) (p : Token → Bool) :
    t.occurrences p ≤ result.occurrences p + t.lost p :=
  (carries_of_isBuilt p t hbuilt).expr source found _ h

/-- `-shelf.items[i++]`, as a parser hands it over. -/
def negatedItem : ParseTree :=
  .mk (.node { before := [.text "-"] }
    [.mk (.node {} [] (.expr (.arraySelector
      (.mk (.node { after := [.text "++"] } [] (.expr (.memberReference "" (.text "i"))))))))]
    (.expr (.memberReference "shelf" (.text "items"))))

theorem occurrences_negatedItem :
    ∃ result, negatedItem.reading.expr {} [] = .ok (result, []) ∧
      ∀ p, negatedItem.occurrences p ≤ result.occurrences p + negatedItem.lost p :=
  ⟨_, rfl, occurrences_le_of_expr (by decide) {} [] rfl⟩

/-- `java.util.List.class`, as a parser hands it over. -/
def listClass : ParseTree :=
  .mk (.node {} [] (.expr (.classReference false "java.util"
    (.mk (.node {} [] (.type (.reference (.text "List") 0 none (.mk .absent))))))))

/-- `List.class`, as it is read. -/
def bareListClass : Tree :=
  bare (.expr (.classLiteral (some (bare (.type (.named (.text "List") none none false))))))

/-- The qualifier of a class literal is dropped: nothing that is read names `java`. -/
theorem listClass_unqualified :
    listClass.isBuilt ∧ listClass.reading.expr {} [] = .ok (bareListClass, []) ∧
      bareListClass.occurrences (· matches .name (.text "java")) <
        listClass.occurrences (· matches .name (.text "java")) :=
  ⟨by decide, rfl, by decide⟩

end Reading

end Recast
