import Mathlib
import Recast.Reading
import Recast.Proofs.ParseTree
import Recast.Proofs.Tree.Orderly
import Recast.Proofs.Yields

/-!
What reading a parser's tree yields.

Whatever the parser hands over, a tree that was read is `Fresh`: no node holds a comment, and every
slot holds what it is meant for. `Reading.Sound` says what each way to read a part yields, and
`ParseTree.sound_reading` that it holds of every tree, by going through the layers once.
-/

namespace Recast

/-! ### Fresh trees -/

namespace Tree

/-- Whether no node of a tree holds a comment, and every slot holds what it is meant for. -/
def Fresh (t : Tree) : Prop := t.Everywhere fun node => node.trivia.comments = [] ∧ node.form.Orderly

theorem fresh_node {trivia : Trivia} {form : Form Tree} :
    (node trivia form).Fresh ↔
      (trivia.comments = [] ∧ form.Orderly) ∧ ∀ child ∈ form.children, child.Fresh :=
  everywhere_node

/-- A type that was read. -/
structure FreshType (t : Tree) : Prop where
  fresh : t.Fresh
  isType : t.form.isType

/-- A node that was read and stands on lines of its own. -/
structure FreshLine (t : Tree) : Prop where
  fresh : t.Fresh
  isLine : t.form.isLine

/-- An import that was read. -/
structure FreshImport (t : Tree) : Prop where
  fresh : t.Fresh
  isImport : t.form.isImport

/-- A unit that was read. -/
structure FreshUnit (t : Tree) : Prop where
  fresh : t.Fresh
  isContainer : t.form.isContainer

end Tree

open Recast.Tree

/-- Whether a layer asks nothing of what stands in its slots. -/
def Form.isFree : Form Tree → Bool
  | .type _ | .expr (.call ..) | .expr (.create ..) | .member (.field ..) => false
  | .member (.classType ..) | .member (.enumType ..) | .stmt (.block _) | .part (.unit ..) => false
  | _ => true

theorem Form.orderly_of_isFree {form : Form Tree} (h : form.isFree) : form.Orderly := by
  have hslots : form.typeSlots = [] ∧ form.lineChildren? = none ∧ form.importSlots = [] := by
    cases form with
    | type form => cases h
    | expr form => cases form <;> first | exact ⟨rfl, rfl, rfl⟩ | cases h
    | stmt form => cases form <;> first | exact ⟨rfl, rfl, rfl⟩ | cases h
    | member form => cases form <;> first | exact ⟨rfl, rfl, rfl⟩ | cases h
    | part form => cases form <;> first | exact ⟨rfl, rfl, rfl⟩ | cases h
    | foreign kind => exact ⟨rfl, rfl, rfl⟩
  obtain ⟨htypes, hlines, himports⟩ := hslots
  constructor <;> simp [htypes, hlines, himports]

namespace Reading

theorem fresh_at? {position : Option Position} {form : Form Tree} (hform : form.Orderly)
    (h : ∀ child ∈ form.children, child.Fresh) : (at? position form).Fresh :=
  fresh_node.2 ⟨⟨rfl, hform⟩, h⟩

theorem fresh_free {position : Option Position} {form : Form Tree} (hform : form.isFree)
    (h : ∀ child ∈ form.children, child.Fresh) : (at? position form).Fresh :=
  fresh_at? (Form.orderly_of_isFree hform) h

theorem freshType_at? {position : Option Position} {form : TypeForm Tree}
    (h : ∀ child ∈ form.children, child.FreshType) : (at? position (.type form)).FreshType := by
  refine ⟨fresh_at? ⟨fun child hchild => (h child hchild).isType, ?_, ?_⟩
    fun child hchild => (h child hchild).fresh, rfl⟩
  · simp [Form.lineChildren?]
  · simp [Form.importSlots]

theorem freshLine_block {position : Option Position} {statements : List Tree}
    (h : ∀ t ∈ statements, t.FreshLine) : (at? position (.stmt (.block statements))).FreshLine := by
  refine ⟨fresh_at? ⟨?_, fun child hchild => (h child hchild).isLine, ?_⟩
    fun child hchild => (h child hchild).fresh, rfl⟩
  · simp [Form.typeSlots]
  · simp [Form.importSlots]

theorem freshType_arrayOf {element : Tree} (h : element.FreshType) (dimensions : Nat) :
    (arrayOf element dimensions).FreshType := by
  unfold arrayOf
  split
  · exact h
  · exact freshType_at? (by simpa [TypeForm.children] using h)

theorem freshType_typeOfName (name : String) : ∀ t ∈ typeOfName name, t.FreshType := by
  have hfold : ∀ (segments : List String) (scope : Option Tree), (∀ t ∈ scope, t.FreshType) →
      ∀ t ∈ segments.foldl (fun scope name =>
        some (bare (.type (.named (.text name) none scope false)))) scope, t.FreshType := by
    intro segments
    induction segments with
    | nil => exact fun scope h => h
    | cons first rest ih =>
      intro scope h
      refine ih _ ?_
      rintro t ⟨⟩
      exact freshType_at? (by simpa [TypeForm.children] using h)
  exact hfold _ none (by simp)

theorem fresh_leaf {position : Option Position} {form : Form Tree} (hform : form.isFree)
    (h : form.children = []) : (at? position form).Fresh :=
  fresh_free hform (by simp [h])

theorem fresh_dotted (name : String) : (dotted name).Fresh := by
  unfold dotted
  split
  · exact fresh_leaf rfl rfl
  · rename_i first rest _
    have hfold : ∀ (segments : List String) (target : Tree), target.Fresh →
        (segments.foldl (fun target name => bare (.expr (.field (some target) (.text name))))
          target).Fresh := by
      intro segments
      induction segments with
      | nil => exact fun target h => h
      | cons first rest ih =>
        intro target h
        exact ih _ (fresh_free rfl (by simpa [Form.children, ExprForm.children] using h))
    exact hfold rest _ (fresh_leaf rfl rfl)

theorem fresh_qualifierTarget (qualifier : String) : ∀ t ∈ qualifierTarget qualifier, t.Fresh := by
  unfold qualifierTarget
  split
  · simp
  · simpa using fresh_dotted qualifier

/-! ### Sound readings -/

/-- What each way to read a part yields. -/
structure Sound (r : Reading) : Prop where
  own : r.own.Yields Fresh
  type : r.type.Yields FreshType
  reference : ∀ scope, (∀ t ∈ scope, t.FreshType) →
    (r.reference scope).Yields fun result => result.1.FreshType
  typeArgument : r.typeArgument.Yields FreshType
  primary : r.primary.Yields Fresh
  expr : r.expr.Yields Fresh
  select : ∀ target, target.Fresh → (r.select target).Yields Fresh
  elementValue : r.elementValue.Yields Fresh
  elementArguments : r.elementArguments.Yields fun results => ∀ t ∈ results, t.Fresh
  namedValue : r.namedValue.Yields Fresh
  parameter : r.parameter.Yields Fresh
  lambdaParameter : r.lambdaParameter.Yields Fresh
  lambdaBody : r.lambdaBody.Yields Fresh
  stmt : r.stmt.Yields FreshLine
  exprStatement : ∀ position, (r.exprStatement position).Yields FreshLine
  switchLabel : r.switchLabel.Yields fun result => ∀ t ∈ result, t.Fresh
  binding : r.binding.Yields Fresh
  loopStart : r.loopStart.Yields fun start => ∀ t ∈ start.children, t.Fresh
  loop : ∀ position body, body.Fresh → (r.loop position body).Yields FreshLine
  member : r.member.Yields FreshLine
  typeParameter : r.typeParameter.Yields Fresh
  constant : r.constant.Yields FreshLine
  importing : r.importing.Yields FreshImport
  package : r.package.Yields FreshLine
  typeDeclaration : r.typeDeclaration.Yields FreshLine
  unit : r.unit.Yields FreshUnit

theorem yields_optional {slot : Reading} {read : Reading → Read Tree} {P : Tree → Prop}
    (h : (read slot).Yields P) : (optional slot read).Yields fun result => ∀ t ∈ result, P t := by
  unfold optional
  split
  · exact .pure (by simp)
  · exact h.map fun t ht => by simpa using ht

/-- Reading each entry of a list. -/
theorem yields_list {read : Reading → Read Tree} {P : Tree → Prop} {nodes : List Reading}
    (h : ∀ r ∈ nodes, r.Sound) (hread : ∀ r, r.Sound → (read r).Yields P) :
    (nodes.mapM read).Yields fun results => ∀ t ∈ results, P t :=
  Read.Yields.mapM fun r hr => hread r (h r hr)

/-- Reading each entry of a list that may be missing. -/
theorem yields_slots {read : Reading → Read Tree} {P : Tree → Prop} {slots : Option (List Reading)}
    (h : ∀ r ∈ slots.getD [], r.Sound) (hread : ∀ r, r.Sound → (read r).Yields P) :
    Read.Yields (slots.mapM fun nodes => nodes.mapM read)
      fun result => ∀ t ∈ result.getD [], P t := by
  cases slots with
  | none => exact .pure (by simp)
  | some nodes => exact Read.Yields.map (yields_list h hread) fun results hresults => hresults

theorem yields_block {statements : List Reading} (h : ∀ r ∈ statements, r.Sound)
    (position : Option Position) : (block position statements).Yields FreshLine :=
  (yields_list h fun _ hr => hr.stmt).bind fun _ hresults => .pure (freshLine_block hresults)

/-! ### Types and annotations -/

section Types

variable {layer : ParseLayer Reading}

theorem yields_referenceOf (h : ∀ r ∈ layer.children, r.Sound) (scope : Option Tree)
    (hscope : ∀ t ∈ scope, t.FreshType) :
    (referenceOf layer scope).Yields fun result => result.1.FreshType := by
  unfold referenceOf
  split
  · rename_i name dimensions arguments inner
    simp only [ParseLayer.children, ParseForm.children, ParseType.children,
      List.forall_mem_append, List.forall_mem_singleton] at h
    obtain ⟨⟨harguments, hinner⟩, -⟩ := h
    refine (yields_slots harguments fun _ hr => hr.typeArgument).bind fun arguments harguments => ?_
    have hcurrent : ∀ position,
        (at? position (.type (.named name arguments scope false))).FreshType := by
      refine fun _ => freshType_at? ?_
      simp only [TypeForm.children, List.forall_mem_append]
      exact ⟨harguments, by simpa using hscope⟩
    dsimp only
    split
    · exact .pure (hcurrent _)
    · refine (hinner.reference _ (by simpa using hcurrent _)).bind fun result hresult => ?_
      exact .pure hresult
  · exact .unsupported

theorem yields_typeOf (h : ∀ r ∈ layer.children, r.Sound) : (typeOf layer).Yields FreshType := by
  unfold typeOf
  split
  · exact .pure (freshType_at? (by simp [TypeForm.children]))
  · exact .pure (freshType_arrayOf (freshType_at? (by simp [TypeForm.children])) _)
  · refine (yields_referenceOf h none (by simp)).bind fun result hresult => ?_
    exact .pure (freshType_arrayOf hresult _)
  · exact .unsupported

theorem yields_typeArgumentOf (h : ∀ r ∈ layer.children, r.Sound) :
    (typeArgumentOf layer).Yields FreshType := by
  unfold typeArgumentOf
  split
  · rename_i type pattern
    have htype : type.Sound := h type (by simp [ParseLayer.children, ParseForm.children,
      ParseType.children])
    split
    · exact .pure (freshType_at? (by simp [TypeForm.children]))
    · refine htype.type.bind fun t ht => .pure (freshType_at? ?_)
      simpa [TypeForm.children] using ht
    · refine htype.type.bind fun t ht => .pure (freshType_at? ?_)
      simpa [TypeForm.children] using ht
    · exact htype.type
  · exact yields_typeOf h

theorem yields_annotations {nodes : List Reading} (h : ∀ r ∈ nodes, r.Sound) :
    (annotations nodes).Yields fun results => ∀ t ∈ results, t.Fresh :=
  yields_list h fun _ hr => hr.own

theorem yields_elementValueOf {own expr : Read Tree} (h : ∀ r ∈ layer.children, r.Sound)
    (hexpr : expr.Yields Fresh) : (elementValueOf own expr layer).Yields Fresh := by
  unfold elementValueOf
  split
  · rename_i values
    simp only [ParseLayer.children, ParseForm.children, ParseDecl.children,
      List.forall_mem_append] at h
    exact (yields_list h.1 fun _ hr => hr.elementValue).bind fun results hresults =>
      .pure (fresh_free rfl hresults)
  · exact Read.Yields.trivial.bind fun _ _ => .pure (fresh_leaf rfl rfl)
  · exact hexpr

theorem yields_namedValueOf {own : Read Tree} (h : ∀ r ∈ layer.children, r.Sound)
    (hown : own.Yields Fresh) : (namedValueOf own layer).Yields Fresh := by
  have hargument : ∀ (name : Word) (value : Reading), value.Sound →
      Read.Yields (do return bare (.part (.annotationArgument name (some (← value.elementValue)))))
        Fresh := by
    intro name value hvalue
    refine hvalue.elementValue.bind fun t ht => .pure (fresh_free rfl ?_)
    simpa [Form.children, PartForm.children] using ht
  unfold namedValueOf
  split
  · rename_i name value
    exact hargument name value (h value (by simp [ParseLayer.children, ParseForm.children,
      ParseDecl.children]))
  · rename_i name value _ _
    exact hargument name value (h value (by simp [ParseLayer.children, ParseForm.children,
      ParseStmt.children]))
  · exact hown

theorem yields_elementArgumentsOf {value : Read Tree} (h : ∀ r ∈ layer.children, r.Sound)
    (hvalue : value.Yields Fresh) :
    (elementArgumentsOf value layer).Yields fun results => ∀ t ∈ results, t.Fresh := by
  unfold elementArgumentsOf
  split
  · exact .pure (by simp)
  · exact yields_list h fun _ hr => hr.namedValue
  · refine hvalue.bind fun t ht => .pure ?_
    rintro _ ⟨⟩
    · exact fresh_free rfl (by simpa [Form.children, PartForm.children] using ht)
    · contradiction

end Types

/-! ### Expressions -/

section Expressions

variable {layer : ParseLayer Reading} {position : Option Position}

theorem fresh_call {name : Word} {arguments typeArguments : List Tree} {target : Option Tree}
    (harguments : ∀ t ∈ arguments, t.Fresh) (htarget : ∀ t ∈ target, t.Fresh)
    (htypes : ∀ t ∈ typeArguments, t.FreshType) :
    (at? position (.expr (.call name arguments target typeArguments))).Fresh := by
  refine fresh_at? ⟨fun t ht => (htypes t ht).isType, ?_, ?_⟩ ?_
  · simp [Form.lineChildren?]
  · simp [Form.importSlots]
  · simp only [Form.children, ExprForm.children, List.forall_mem_append]
    exact ⟨⟨harguments, by simpa using htarget⟩, fun t ht => (htypes t ht).fresh⟩

theorem fresh_create {type : Tree} {arguments : List Tree} {body : Option (List Tree)}
    (htype : type.FreshType) (harguments : ∀ t ∈ arguments, t.Fresh)
    (hbody : ∀ t ∈ body.getD [], t.FreshLine) :
    (at? position (.expr (.create (some type) arguments body))).Fresh := by
  refine fresh_at? ⟨?_, ?_, ?_⟩ ?_
  · simpa [Form.typeSlots] using htype.isType
  · simp [Form.lineChildren?]
  · simp [Form.importSlots]
  · simp only [Form.children, ExprForm.children, List.forall_mem_append]
    exact ⟨⟨by simpa using htype.fresh, harguments⟩, fun t ht => (hbody t ht).fresh⟩

theorem fresh_super : (bare (.expr .super)).Fresh := fresh_leaf rfl rfl

theorem yields_referenceTarget {target : Reading} (h : target.Sound) :
    (referenceTarget target).Yields Fresh := by
  unfold referenceTarget
  split
  · exact .pure (fresh_dotted _)
  · exact .pure (fresh_dotted _)
  · exact .pure (fresh_dotted _)
  · exact h.expr

theorem yields_primaryForm {form : ParseExpr Reading} (h : ∀ r ∈ form.children, r.Sound)
    (position : Option Position) : (primaryForm position form).Yields Fresh := by
  cases form <;> simp only [ParseExpr.children, List.forall_mem_append, List.forall_mem_singleton]
    at h <;> simp only [primaryForm]
  case literal value => exact .pure (fresh_leaf rfl rfl)
  case memberReference qualifier member =>
    split
    · rename_i target htarget
      refine .pure (fresh_free rfl ?_)
      simpa [Form.children, ExprForm.children] using fresh_qualifierTarget qualifier target htarget
    · exact .pure (fresh_leaf rfl rfl)
  case invocation qualifier member arguments typeArguments =>
    refine (yields_list h.1 fun _ hr => hr.expr).bind fun arguments harguments => ?_
    refine (yields_list h.2 fun _ hr => hr.typeArgument).bind fun types htypes => ?_
    exact .pure (fresh_call harguments (fresh_qualifierTarget qualifier) htypes)
  case superMember qualifier member =>
    refine .pure (fresh_free rfl ?_)
    simpa [Form.children, ExprForm.children] using fresh_super
  case superInvocation qualifier member arguments =>
    refine (yields_list h fun _ hr => hr.expr).bind fun arguments harguments => ?_
    exact .pure (fresh_call harguments (by simpa using fresh_super) (by simp))
  case this qualifier => exact .pure (fresh_leaf rfl rfl)
  case create type arguments body =>
    obtain ⟨⟨htype, harguments⟩, hbody⟩ := h
    refine htype.type.bind fun type htype => ?_
    refine (yields_list harguments fun _ hr => hr.expr).bind fun arguments harguments => ?_
    refine (yields_slots hbody fun _ hr => hr.member).bind fun body hbody => ?_
    exact .pure (fresh_create htype harguments hbody)
  case createArray type dimensions initial =>
    obtain ⟨⟨htype, hdimensions⟩, hinitial⟩ := h
    refine htype.type.bind fun type htype => ?_
    refine Read.Yields.bind (P := fun results => ∀ slot ∈ results, ∀ t ∈ slot, Tree.Fresh t)
      (Read.Yields.mapM fun r hr => yields_optional (hdimensions r hr).expr)
      fun dimensions hdimensions => ?_
    refine (yields_optional hinitial.primary).bind fun initial hinitial => ?_
    refine .pure (fresh_free rfl ?_)
    simp only [Form.children, ExprForm.children, List.forall_mem_append]
    refine ⟨⟨by simpa using htype.fresh, ?_⟩, by simpa using hinitial⟩
    intro t ht
    obtain ⟨slot, hslot, hin⟩ := List.mem_filterMap.1 ht
    exact hdimensions slot hslot t hin
  case arrayInitializer values =>
    exact (yields_list h fun _ hr => hr.expr).bind fun values hvalues =>
      .pure (fresh_free rfl hvalues)
  case classReference isVoid qualifier type =>
    refine h.type.bind fun type htype => .pure (fresh_free rfl ?_)
    simpa [Form.children, ExprForm.children] using htype.fresh
  case assignment operator target value =>
    refine h.1.expr.bind fun target htarget => h.2.expr.bind fun value hvalue => ?_
    exact .pure (fresh_free rfl (by simpa [Form.children, ExprForm.children] using ⟨htarget, hvalue⟩))
  case ternary condition whenTrue whenFalse =>
    refine h.1.1.expr.bind fun condition hcondition => h.1.2.expr.bind fun whenTrue hwhenTrue => ?_
    refine h.2.expr.bind fun whenFalse hwhenFalse => .pure (fresh_free rfl ?_)
    simpa [Form.children, ExprForm.children] using ⟨hcondition, hwhenTrue, hwhenFalse⟩
  case binary operator left right =>
    refine h.1.expr.bind fun left hleft => ?_
    split
    · refine h.2.type.bind fun type htype => .pure (fresh_free rfl ?_)
      simpa [Form.children, ExprForm.children] using ⟨hleft, htype.fresh⟩
    · refine h.2.expr.bind fun right hright => .pure (fresh_free rfl ?_)
      simpa [Form.children, ExprForm.children] using ⟨hleft, hright⟩
  case cast type expression =>
    refine h.1.type.bind fun type htype => h.2.expr.bind fun expression hexpression => ?_
    refine .pure (fresh_free rfl ?_)
    simpa [Form.children, ExprForm.children] using ⟨htype.fresh, hexpression⟩
  case lambda parameters body =>
    refine h.2.lambdaBody.bind fun body hbody => ?_
    refine (yields_list h.1 fun _ hr => hr.lambdaParameter).bind fun parameters hparameters => ?_
    refine .pure (fresh_free rfl ?_)
    simp only [Form.children, ExprForm.children, List.forall_mem_append]
    exact ⟨hparameters, by simpa using hbody⟩
  case methodReference target method =>
    refine (yields_referenceTarget h.1).bind fun target htarget => ?_
    refine Read.Yields.trivial.bind fun name _ => .pure (fresh_free rfl ?_)
    simpa [Form.children, ExprForm.children] using htarget
  all_goals exact .unsupported

theorem yields_applySelectors {selectors : List Reading} (h : ∀ r ∈ selectors, r.Sound)
    {target : Tree} (htarget : target.Fresh) : (applySelectors target selectors).Yields Fresh :=
  Read.Yields.foldlM (fun target r hr ht => (h r hr).select target ht) htarget

theorem fresh_applyOperators {before after : List Word} {expression : Tree}
    (h : expression.Fresh) : (applyOperators before after expression).Fresh := by
  have hfold : ∀ (isBefore : Bool) (operators : List Word) (operand : Tree), operand.Fresh →
      (operators.foldl (fun operand operator =>
        bare (.expr (.unary operator (some operand) isBefore))) operand).Fresh := by
    intro isBefore operators
    induction operators with
    | nil => exact fun operand h => h
    | cons first rest ih =>
      intro operand h
      exact ih _ (fresh_free rfl (by simpa [Form.children, ExprForm.children] using h))
  exact hfold true _ _ (hfold false _ _ h)

theorem yields_primaryOf (h : ∀ r ∈ layer.children, r.Sound) : (primaryOf layer).Yields Fresh := by
  unfold primaryOf
  split
  · exact yields_primaryForm (fun r hr => h r (List.mem_append_left _ hr)) _
  · exact .unsupported

theorem yields_exprOf (h : ∀ r ∈ layer.children, r.Sound) : (exprOf layer).Yields Fresh := by
  unfold exprOf
  split
  · rename_i mark selectors form
    refine (yields_primaryForm (fun r hr => h r (List.mem_append_left _ hr)) _).bind
      fun primary hprimary => ?_
    refine (yields_applySelectors (fun r hr => h r (List.mem_append_right _ hr)) hprimary).bind
      fun selected hselected => ?_
    exact .pure (fresh_applyOperators hselected)
  · exact .unsupported

theorem yields_selectOf (h : ∀ r ∈ layer.children, r.Sound) {target : Tree} (htarget : target.Fresh) :
    (selectOf layer target).Yields Fresh := by
  unfold selectOf
  split
  · simp only [ParseLayer.children, ParseForm.children, ParseExpr.children,
      List.forall_mem_append] at h
    refine (yields_list h.1.1 fun _ hr => hr.expr).bind fun arguments harguments => ?_
    refine (yields_list h.1.2 fun _ hr => hr.typeArgument).bind fun types htypes => ?_
    exact yields_applySelectors h.2 (fresh_call harguments (by simpa using htarget) htypes)
  · refine yields_applySelectors (fun r hr => h r (List.mem_append_right _ hr)) (fresh_free rfl ?_)
    simpa [Form.children, ExprForm.children] using htarget
  · rename_i index
    refine (h index (by simp [ParseLayer.children, ParseForm.children, ParseExpr.children])).expr.bind
      fun index hindex => .pure (fresh_free rfl ?_)
    simpa [Form.children, ExprForm.children] using ⟨htarget, hindex⟩
  · exact .unsupported

theorem yields_lambdaParameterOf {parameter : Read Tree} (h : parameter.Yields Fresh) :
    (lambdaParameterOf parameter layer).Yields Fresh := by
  unfold lambdaParameterOf
  split
  · exact .pure (fresh_leaf rfl rfl)
  · exact h

theorem yields_lambdaBodyOf (h : ∀ r ∈ layer.children, r.Sound) :
    (lambdaBodyOf layer).Yields Fresh := by
  unfold lambdaBodyOf
  split
  · exact (yields_block h none).mono fun _ ht => ht.fresh
  · exact yields_exprOf h

end Expressions

/-! ### Statements -/

section Statements

variable {layer : ParseLayer Reading} {position : Option Position}

theorem freshLine_free {form : StmtForm Tree} (hform : (Form.stmt form).isFree)
    (h : ∀ child ∈ form.children, child.Fresh) : (at? position (.stmt form)).FreshLine :=
  ⟨fresh_free hform h, rfl⟩

theorem yields_exprStatementOf {expr : Read Tree} (h : ∀ r ∈ layer.children, r.Sound)
    (hexpr : expr.Yields Fresh) (position : Option Position) :
    (exprStatementOf expr layer position).Yields FreshLine := by
  unfold exprStatementOf
  split
  · refine (yields_list (fun r hr => h r (List.mem_append_left _ hr)) fun _ hr => hr.expr).bind
      fun arguments harguments => .pure (freshLine_free rfl harguments)
  · refine (yields_list (fun r hr => h r (List.mem_append_left _ hr)) fun _ hr => hr.expr).bind
      fun arguments harguments => .pure (freshLine_free rfl harguments)
  · refine hexpr.bind fun expression hexpression => .pure (freshLine_free rfl ?_)
    simpa [StmtForm.children] using hexpression

theorem yields_loopStartOf {own expr : Read Tree} (h : ∀ r ∈ layer.children, r.Sound)
    (hown : own.Yields Fresh) (hexpr : expr.Yields Fresh) :
    (loopStartOf own expr layer).Yields fun start => ∀ t ∈ start.children, t.Fresh := by
  unfold loopStartOf
  split
  · exact .pure (by simp [LoopStart.children])
  · exact (yields_list h fun _ hr => hr.expr).bind fun nodes hnodes => .pure hnodes
  · exact hown.bind fun t ht => .pure (by simpa [LoopStart.children] using ht)
  · exact hexpr.bind fun t ht => .pure (by simpa [LoopStart.children] using ht)

theorem yields_declaredVariables {type : Reading} {declarators notes : List Reading}
    (htype : type.Sound) (hdeclarators : ∀ r ∈ declarators, r.Sound) (hnotes : ∀ r ∈ notes, r.Sound)
    (keywords : List String) :
    (declaredVariables position type declarators keywords notes).Yields FreshLine := by
  refine htype.type.bind fun type htype => ?_
  refine (yields_list hdeclarators fun _ hr => hr.own).bind fun declarators hdeclarators => ?_
  refine Read.Yields.trivial.bind fun modifiers _ => ?_
  refine (yields_annotations hnotes).bind fun notes hnotes => .pure (freshLine_free rfl ?_)
  simp only [StmtForm.children, List.forall_mem_append]
  exact ⟨⟨by simpa using htype.fresh, hdeclarators⟩, hnotes⟩

theorem yields_bindingOf {own : Read Tree} (h : ∀ r ∈ layer.children, r.Sound)
    (hown : own.Yields Fresh) : (bindingOf own layer).Yields Fresh := by
  unfold bindingOf
  split
  · simp only [ParseLayer.children, ParseForm.children, ParseDecl.children,
      List.forall_mem_append, List.forall_mem_singleton] at h
    obtain ⟨⟨⟨htype, hdeclarators⟩, hnotes⟩, -⟩ := h
    exact (yields_declaredVariables htype hdeclarators hnotes _).mono fun _ ht => ht.fresh
  · exact hown

theorem yields_loopOf (h : ∀ r ∈ layer.children, r.Sound) (position : Option Position) {body : Tree}
    (hbody : body.Fresh) : (loopOf layer position body).Yields FreshLine := by
  unfold loopOf
  split
  · simp only [ParseLayer.children, ParseForm.children, ParseStmt.children,
      List.forall_mem_append, List.forall_mem_singleton] at h
    obtain ⟨⟨hbinding, hiterable⟩, -⟩ := h
    refine hbinding.binding.bind fun binding hbinding => ?_
    refine hiterable.expr.bind fun iterable hiterable => .pure (freshLine_free rfl ?_)
    simpa [StmtForm.children] using ⟨hbinding, hiterable, hbody⟩
  · simp only [ParseLayer.children, ParseForm.children, ParseStmt.children,
      List.forall_mem_append, List.forall_mem_singleton] at h
    obtain ⟨⟨⟨hstart, hcondition⟩, hupdate⟩, -⟩ := h
    refine hstart.loopStart.bind fun start hstart => ?_
    refine (yields_optional hcondition.expr).bind fun condition hcondition => ?_
    refine (yields_list hupdate fun _ hr => hr.expr).bind fun update hupdate => ?_
    refine .pure (freshLine_free rfl ?_)
    simp only [StmtForm.children, List.forall_mem_append]
    exact ⟨⟨⟨hstart, by simpa using hcondition⟩, hupdate⟩, by simpa using hbody⟩
  · exact .unsupported

theorem yields_switchLabelOf {expr : Read Tree} (hexpr : expr.Yields Fresh) :
    (switchLabelOf expr layer).Yields fun result => ∀ t ∈ result, t.Fresh := by
  unfold switchLabelOf
  split
  · exact .pure (by simp)
  · exact .pure (by simp)
  · refine .pure ?_
    rintro _ ⟨⟩
    exact fresh_leaf rfl rfl
  · exact hexpr.map fun t ht => by simpa using ht

/-- Statements without their labels. A declaration of variables is its own reading, which is passed
along for the one node where it is asked for. -/
theorem yields_plainStatement {own typeDeclaration : Read Tree} {form : ParseForm Reading}
    (h : ∀ r ∈ form.children, r.Sound)
    (hown : ∀ type declarators keywords notes,
      form = .stmt (.bindings true type declarators keywords notes) → own.Yields FreshLine)
    (hdeclaration : typeDeclaration.Yields FreshLine) (position : Option Position) :
    (plainStatement own typeDeclaration position form).Yields FreshLine := by
  unfold plainStatement
  split <;> simp only [ParseForm.children, ParseStmt.children, List.forall_mem_append,
    List.forall_mem_singleton] at h
  · exact hown _ _ _ _ rfl
  · exact yields_block h position
  · exact h.exprStatement position
  · obtain ⟨⟨hcondition, hwhenTrue⟩, hwhenFalse⟩ := h
    refine hcondition.expr.bind fun condition hcondition => ?_
    refine hwhenTrue.stmt.bind fun whenTrue hwhenTrue => ?_
    refine (yields_optional hwhenFalse.stmt).bind fun whenFalse hwhenFalse => ?_
    refine .pure (freshLine_free rfl ?_)
    simp only [StmtForm.children, List.forall_mem_append]
    exact ⟨⟨by simpa using hcondition, by simpa using hwhenTrue.fresh⟩,
      by simpa using fun t ht => (hwhenFalse t ht).fresh⟩
  · refine h.1.expr.bind fun condition hcondition => h.2.stmt.bind fun body hbody => ?_
    refine .pure (freshLine_free rfl ?_)
    simpa [StmtForm.children] using ⟨hcondition, hbody.fresh⟩
  · refine h.1.expr.bind fun condition hcondition => h.2.stmt.bind fun body hbody => ?_
    refine .pure (freshLine_free rfl ?_)
    simpa [StmtForm.children] using ⟨hcondition, hbody.fresh⟩
  · exact h.2.stmt.bind fun body hbody => h.1.loop position body hbody.fresh
  · refine (yields_optional h.expr).bind fun expression hexpression => ?_
    exact .pure (freshLine_free rfl (by simpa [StmtForm.children] using hexpression))
  · refine h.expr.bind fun expression hexpression => .pure (freshLine_free rfl ?_)
    simpa [StmtForm.children] using hexpression
  · exact .pure ⟨fresh_leaf rfl rfl, rfl⟩
  · exact .pure ⟨fresh_leaf rfl rfl, rfl⟩
  · refine h.1.expr.bind fun selector hselector => ?_
    refine (yields_list h.2 fun _ hr => hr.own).bind fun cases hcases => ?_
    refine .pure (freshLine_free rfl ?_)
    simp only [StmtForm.children, List.forall_mem_append]
    exact ⟨by simpa using hselector, hcases⟩
  · obtain ⟨⟨⟨hresources, hbody⟩, hcatches⟩, hfinal⟩ := h
    refine (yields_list hresources fun _ hr => hr.own).bind fun resources hresources => ?_
    refine (yields_list hcatches fun _ hr => hr.own).bind fun catches hcatches => ?_
    refine Read.Yields.bind (P := fun result => ∀ t ∈ result, Tree.FreshLine t)
      (Read.Yields.optionMapM fun statements hstatements => ?_) fun finalBlock hfinal => ?_
    · refine yields_block (fun r hr => hfinal r ?_) none
      simpa [Option.mem_def.1 hstatements] using hr
    · refine (yields_block hbody none).bind fun body hbody => .pure (freshLine_free rfl ?_)
      simp only [StmtForm.children, List.forall_mem_append]
      exact ⟨⟨⟨by simpa using hbody.fresh, hresources⟩, hcatches⟩,
        by simpa using fun t ht => (hfinal t ht).fresh⟩
  · refine h.1.expr.bind fun lock hlock => ?_
    refine (yields_block h.2 none).bind fun body hbody => .pure (freshLine_free rfl ?_)
    simpa [StmtForm.children] using ⟨hlock, hbody.fresh⟩
  · refine h.1.expr.bind fun condition hcondition => ?_
    refine (yields_optional h.2.expr).bind fun message hmessage => .pure (freshLine_free rfl ?_)
    simp only [StmtForm.children, List.forall_mem_append]
    exact ⟨by simpa using hcondition, by simpa using hmessage⟩
  · exact .pure ⟨fresh_leaf rfl rfl, rfl⟩
  · split
    · refine hdeclaration.bind fun declaration hdeclaration => .pure (freshLine_free rfl ?_)
      simpa [StmtForm.children] using hdeclaration.fresh
    · exact .unsupported

theorem fresh_caughtType (types : List String) : ∀ t ∈ caughtType types, t.FreshType := by
  unfold caughtType
  split
  · exact freshType_typeOfName _
  · rintro _ ⟨⟩
    refine freshType_at? fun t ht => ?_
    obtain ⟨name, -, hname⟩ := List.mem_filterMap.1 ht
    exact freshType_typeOfName name t hname

theorem yields_statementPart {mark : ParseMark} {form : ParseStmt Reading}
    (h : ∀ r ∈ form.children, r.Sound) : (statementPart mark form).Yields Fresh := by
  unfold statementPart
  split <;> simp only [ParseStmt.children, List.forall_mem_append, List.forall_mem_singleton] at h
  · obtain ⟨⟨htype, hdeclarators⟩, hnotes⟩ := h
    exact (yields_declaredVariables htype hdeclarators hnotes _).mono fun _ ht => ht.fresh
  · refine Read.Yields.bind (P := fun results => ∀ slot ∈ results, ∀ t ∈ slot, Tree.Fresh t)
      (Read.Yields.mapM fun r hr => (h.1 r hr).switchLabel) fun labels hlabels => ?_
    refine (yields_list h.2 fun _ hr => hr.stmt).bind fun statements hstatements => ?_
    refine .pure (fresh_free rfl ?_)
    simp only [Form.children, PartForm.children, List.forall_mem_append]
    refine ⟨fun t ht => ?_, fun t ht => (hstatements t ht).fresh⟩
    obtain ⟨slot, hslot, hin⟩ := List.mem_filterMap.1 ht
    exact hlabels slot hslot t hin
  · obtain ⟨⟨htype, hvalue⟩, hnotes⟩ := h
    refine htype.type.bind fun type htype => hvalue.expr.bind fun value hvalue => ?_
    refine Read.Yields.trivial.bind fun modifiers _ => ?_
    refine (yields_annotations hnotes).bind fun notes hnotes => .pure (fresh_free rfl ?_)
    simp only [Form.children, StmtForm.children, List.forall_mem_append, List.forall_mem_singleton]
    refine ⟨⟨by simpa using htype.fresh, fresh_free rfl ?_⟩, hnotes⟩
    simpa [Form.children, PartForm.children] using hvalue
  · refine h.1.own.bind fun binding hbinding => ?_
    refine (yields_block h.2 none).bind fun body hbody => .pure (fresh_free rfl ?_)
    simpa [Form.children, PartForm.children] using ⟨hbinding, hbody.fresh⟩
  · refine Read.Yields.trivial.bind fun modifiers _ => .pure (fresh_free rfl ?_)
    simpa [Form.children, PartForm.children] using fun t ht => (fresh_caughtType _ t ht).fresh
  · exact .unsupported

end Statements

/-! ### Declarations -/

section Declarations

variable {layer : ParseLayer Reading} {position : Option Position}

theorem freshLine_classType {name : Word} {modifiers : List Modifier}
    {notes typeParameters parents interfaces members : List Tree} {isInterface : Bool}
    (hnotes : ∀ t ∈ notes, t.Fresh) (hparameters : ∀ t ∈ typeParameters, t.Fresh)
    (hparents : ∀ t ∈ parents, t.FreshType) (hinterfaces : ∀ t ∈ interfaces, t.FreshType)
    (hmembers : ∀ t ∈ members, t.FreshLine) :
    (at? position (.member (.classType name modifiers notes typeParameters parents interfaces
      members isInterface))).FreshLine := by
  refine ⟨fresh_at? ⟨by simp [Form.typeSlots], fun t ht => (hmembers t ht).isLine,
    by simp [Form.importSlots]⟩ ?_, rfl⟩
  simp only [Form.children, MemberForm.children, List.forall_mem_append]
  exact ⟨⟨⟨⟨hnotes, hparameters⟩, fun t ht => (hparents t ht).fresh⟩,
    fun t ht => (hinterfaces t ht).fresh⟩, fun t ht => (hmembers t ht).fresh⟩

theorem freshLine_enumType {name : Word} {modifiers : List Modifier}
    {notes interfaces constants members : List Tree} (hnotes : ∀ t ∈ notes, t.Fresh)
    (hinterfaces : ∀ t ∈ interfaces, t.FreshType) (hconstants : ∀ t ∈ constants, t.FreshLine)
    (hmembers : ∀ t ∈ members, t.FreshLine) :
    (at? position (.member (.enumType name modifiers notes interfaces constants
      members))).FreshLine := by
  refine ⟨fresh_at? ⟨by simp [Form.typeSlots], ?_, by simp [Form.importSlots]⟩ ?_, rfl⟩
  · simp only [Form.lineChildren?, Option.getD_some, List.forall_mem_append]
    exact ⟨fun t ht => (hconstants t ht).isLine, fun t ht => (hmembers t ht).isLine⟩
  · simp only [Form.children, MemberForm.children, List.forall_mem_append]
    exact ⟨⟨⟨hnotes, fun t ht => (hinterfaces t ht).fresh⟩, fun t ht => (hconstants t ht).fresh⟩,
      fun t ht => (hmembers t ht).fresh⟩

theorem freshLine_field {type : Tree} {bindings notes : List Tree} {modifiers : List Modifier}
    (htype : type.FreshType) (hbindings : ∀ t ∈ bindings, t.Fresh) (hnotes : ∀ t ∈ notes, t.Fresh) :
    (at? position (.member (.field (some type) bindings modifiers notes))).FreshLine := by
  refine ⟨fresh_at? ⟨?_, by simp [Form.lineChildren?], by simp [Form.importSlots]⟩ ?_, rfl⟩
  · simpa [Form.typeSlots] using htype.isType
  · simp only [Form.children, MemberForm.children, List.forall_mem_append]
    exact ⟨⟨by simpa using htype.fresh, hbindings⟩, hnotes⟩

theorem freshUnit_unit {header : Option Tree} {imports types : List Tree}
    (hheader : ∀ t ∈ header, t.FreshLine) (himports : ∀ t ∈ imports, t.FreshImport)
    (htypes : ∀ t ∈ types, t.FreshLine) :
    (at? position (.part (.unit header imports types))).FreshUnit := by
  refine ⟨fresh_at? ⟨by simp [Form.typeSlots], ?_, fun t ht => (himports t ht).isImport⟩ ?_, rfl⟩
  · simp only [Form.lineChildren?, Option.getD_some, List.forall_mem_append]
    refine ⟨⟨by simpa using fun t ht => (hheader t ht).isLine, fun t ht => ?_⟩,
      fun t ht => (htypes t ht).isLine⟩
    have himport := (himports t ht).isImport
    unfold Form.isImport at himport
    split at himport
    · rename_i heq
      rw [heq]
      rfl
    · cases himport
  · simp only [Form.children, PartForm.children, List.forall_mem_append]
    exact ⟨⟨by simpa using fun t ht => (hheader t ht).fresh, fun t ht => (himports t ht).fresh⟩,
      fun t ht => (htypes t ht).fresh⟩

theorem fresh_thrownTypes (names : List String) : ∀ t ∈ thrownTypes names, t.Fresh := by
  intro t ht
  obtain ⟨name, -, hname⟩ := List.mem_filterMap.1 ht
  exact (freshType_typeOfName name t hname).fresh

/-- What kind of node a declaration is read as. -/
def Fits : ParseDecl Reading → Tree → Prop
  | .unit .. => FreshUnit
  | .importing .. => FreshImport
  | .package .. | .classType .. | .interfaceType .. | .enumType .. | .enumConstant .. => FreshLine
  | .method .. | .constructor .. | .field .. => FreshLine
  | _ => Fresh

theorem Fits.fresh {form : ParseDecl Reading} {t : Tree} (h : Fits form t) : t.Fresh := by
  cases form <;> first | exact Tree.FreshLine.fresh h | exact Tree.FreshUnit.fresh h |
    exact Tree.FreshImport.fresh h | exact h

theorem yields_declarationPart {mark : ParseMark} {form : ParseDecl Reading}
    (h : ∀ r ∈ form.children, r.Sound) : (declarationPart mark form).Yields (Fits form) := by
  cases form <;> simp only [ParseDecl.children, List.forall_mem_append, List.forall_mem_singleton]
    at h <;> simp only [declarationPart]
  case unit header imports types =>
    obtain ⟨⟨hheader, himports⟩, htypes⟩ := h
    refine (yields_optional hheader.package).bind fun header hheader => ?_
    refine (yields_list himports fun _ hr => hr.importing).bind fun imports himports => ?_
    refine (yields_list htypes fun _ hr => hr.typeDeclaration).bind fun types htypes => ?_
    exact .pure (freshUnit_unit hheader himports htypes)
  case package name notes =>
    exact (yields_annotations h).bind fun notes hnotes => .pure ⟨fresh_free rfl hnotes, rfl⟩
  case importing path isStatic isWildcard => exact .pure ⟨fresh_leaf rfl rfl, rfl⟩
  case classType name keywords notes typeParameters parent interfaces members =>
    obtain ⟨⟨⟨⟨hnotes, hparameters⟩, hparent⟩, hinterfaces⟩, hmembers⟩ := h
    refine Read.Yields.trivial.bind fun modifiers _ => ?_
    refine (yields_annotations hnotes).bind fun notes hnotes => ?_
    refine (yields_list hparameters fun _ hr => hr.typeParameter).bind fun _ hparameters => ?_
    refine (yields_optional hparent.type).bind fun parent hparent => ?_
    refine (yields_list hinterfaces fun _ hr => hr.type).bind fun interfaces hinterfaces => ?_
    refine (yields_list hmembers fun _ hr => hr.member).bind fun members hmembers => ?_
    exact .pure (freshLine_classType hnotes hparameters (by simpa using hparent) hinterfaces hmembers)
  case interfaceType name keywords notes typeParameters parents members =>
    obtain ⟨⟨⟨hnotes, hparameters⟩, hparents⟩, hmembers⟩ := h
    refine Read.Yields.trivial.bind fun modifiers _ => ?_
    refine (yields_annotations hnotes).bind fun notes hnotes => ?_
    refine (yields_list hparameters fun _ hr => hr.typeParameter).bind fun _ hparameters => ?_
    refine (yields_list hparents fun _ hr => hr.type).bind fun parents hparents => ?_
    refine (yields_list hmembers fun _ hr => hr.member).bind fun members hmembers => ?_
    exact .pure (freshLine_classType hnotes hparameters hparents (by simp) hmembers)
  case enumType name keywords notes interfaces constants members =>
    obtain ⟨⟨⟨hnotes, hinterfaces⟩, hconstants⟩, hmembers⟩ := h
    refine Read.Yields.trivial.bind fun modifiers _ => ?_
    refine (yields_annotations hnotes).bind fun notes hnotes => ?_
    refine (yields_list hconstants fun _ hr => hr.constant).bind fun constants hconstants => ?_
    refine (yields_list hinterfaces fun _ hr => hr.type).bind fun interfaces hinterfaces => ?_
    refine (yields_list hmembers fun _ hr => hr.member).bind fun members hmembers => ?_
    exact .pure (freshLine_enumType hnotes hinterfaces hconstants hmembers)
  case enumConstant name arguments body notes =>
    obtain ⟨⟨harguments, hbody⟩, hnotes⟩ := h
    refine (yields_list harguments fun _ hr => hr.expr).bind fun arguments harguments => ?_
    refine (yields_slots hbody fun _ hr => hr.member).bind fun body hbody => ?_
    refine (yields_annotations hnotes).bind fun notes hnotes => .pure ⟨fresh_free rfl ?_, rfl⟩
    simp only [Form.children, PartForm.children, List.forall_mem_append]
    exact ⟨⟨harguments, fun t ht => (hbody t ht).fresh⟩, hnotes⟩
  case typeParameter name bounds =>
    exact (yields_list h fun _ hr => hr.type).bind fun bounds hbounds =>
      .pure (fresh_free rfl fun t ht => (hbounds t ht).fresh)
  case annotationUse name element =>
    exact h.elementArguments.bind fun arguments harguments => .pure (fresh_free rfl harguments)
  case method name returnType parameters throws body keywords notes typeParameters =>
    obtain ⟨⟨⟨⟨htype, hparameters⟩, hbody⟩, hnotes⟩, htypeParameters⟩ := h
    refine htype.type.bind fun returnType htype => ?_
    refine (yields_list hparameters fun _ hr => hr.parameter).bind fun parameters hparameters => ?_
    refine Read.Yields.bind (P := fun result => ∀ t ∈ result, Tree.FreshLine t)
      (Read.Yields.optionMapM fun statements hstatements => ?_) fun body hbody => ?_
    · refine yields_block (fun r hr => hbody r ?_) none
      simpa [Option.mem_def.1 hstatements] using hr
    · refine Read.Yields.trivial.bind fun modifiers _ => ?_
      refine (yields_annotations hnotes).bind fun notes hnotes => ?_
      refine (yields_list htypeParameters fun _ hr => hr.typeParameter).bind
        fun typeParameters htypeParameters => .pure ⟨fresh_free rfl ?_, rfl⟩
      simp only [Form.children, MemberForm.children, List.forall_mem_append]
      exact ⟨⟨⟨⟨⟨by simpa using htype.fresh, hparameters⟩, fresh_thrownTypes throws⟩,
        by simpa using fun t ht => (hbody t ht).fresh⟩, hnotes⟩, htypeParameters⟩
  case constructor name parameters throws body keywords notes typeParameters =>
    obtain ⟨⟨⟨hparameters, hbody⟩, hnotes⟩, htypeParameters⟩ := h
    refine (yields_list hparameters fun _ hr => hr.parameter).bind fun parameters hparameters => ?_
    refine (yields_block hbody none).bind fun body hbody => ?_
    refine Read.Yields.trivial.bind fun modifiers _ => ?_
    refine (yields_annotations hnotes).bind fun notes hnotes => ?_
    refine (yields_list htypeParameters fun _ hr => hr.typeParameter).bind
      fun typeParameters htypeParameters => .pure ⟨fresh_free rfl ?_, rfl⟩
    simp only [Form.children, MemberForm.children, List.forall_mem_append]
    exact ⟨⟨⟨⟨hparameters, fresh_thrownTypes throws⟩, by simpa using hbody.fresh⟩, hnotes⟩,
      htypeParameters⟩
  case field isConstant type declarators keywords notes =>
    obtain ⟨⟨htype, hdeclarators⟩, hnotes⟩ := h
    refine htype.type.bind fun type htype => ?_
    refine (yields_list hdeclarators fun _ hr => hr.own).bind fun declarators hdeclarators => ?_
    refine Read.Yields.trivial.bind fun modifiers _ => ?_
    refine (yields_annotations hnotes).bind fun notes hnotes => ?_
    exact .pure (freshLine_field htype hdeclarators hnotes)
  case declarator name dimensions initial =>
    refine (yields_optional h.expr).bind fun initial hinitial => .pure (fresh_free rfl ?_)
    simpa [Form.children, PartForm.children] using hinitial
  case formalParameter type name isVarargs keywords notes =>
    refine h.1.type.bind fun type htype => ?_
    refine Read.Yields.trivial.bind fun modifiers _ => ?_
    refine (yields_annotations h.2).bind fun notes hnotes => .pure (fresh_free rfl ?_)
    simp only [Form.children, PartForm.children, List.forall_mem_append]
    exact ⟨by simpa using htype.fresh, hnotes⟩
  case inferredParameter name => exact .pure (fresh_leaf rfl rfl)
  all_goals exact .unsupported

theorem yields_ownOf_decl {mark : ParseMark} {selectors : List Reading} {form : ParseDecl Reading}
    (h : ∀ r ∈ (ParseLayer.node mark selectors (.decl form)).children, r.Sound) :
    (ownOf (.node mark selectors (.decl form))).Yields (Fits form) :=
  yields_declarationPart fun r hr => h r (List.mem_append_left _ hr)

theorem yields_ownOf (h : ∀ r ∈ layer.children, r.Sound) : (ownOf layer).Yields Fresh := by
  unfold ownOf
  split
  · exact (yields_ownOf_decl h).mono fun _ ht => ht.fresh
  · exact yields_statementPart fun r hr => h r (List.mem_append_left _ hr)
  · exact .unsupported

theorem yields_typeDeclarationOf (h : ∀ r ∈ layer.children, r.Sound) :
    (typeDeclarationOf (ownOf layer) layer).Yields FreshLine := by
  unfold typeDeclarationOf
  split
  · exact yields_ownOf_decl h
  · exact yields_ownOf_decl h
  · exact yields_ownOf_decl h
  · refine Read.Yields.trivial.bind fun _ _ => ?_
    split
    · exact .unsupported
    · exact .unsupported
  · rename_i hother
    cases layer with
    | node mark selectors form => exact absurd rfl (hother mark selectors form)
    | _ => exact .unsupported

theorem yields_stmtOf {typeDeclaration : Read Tree} (h : ∀ r ∈ layer.children, r.Sound)
    (hdeclaration : typeDeclaration.Yields FreshLine) :
    (stmtOf (ownOf layer) typeDeclaration layer).Yields FreshLine := by
  unfold stmtOf
  split
  · rename_i mark selectors form
    have hbindings : ∀ type declarators keywords notes,
        form = .stmt (.bindings true type declarators keywords notes) →
        (ownOf (.node mark selectors form)).Yields FreshLine := by
      rintro type declarators keywords notes rfl
      simp only [ParseLayer.children, ParseForm.children, ParseStmt.children,
        List.forall_mem_append, List.forall_mem_singleton] at h
      obtain ⟨⟨⟨htype, hdeclarators⟩, hnotes⟩, -⟩ := h
      exact yields_declaredVariables htype hdeclarators hnotes keywords
    refine (yields_plainStatement (fun r hr => h r (List.mem_append_left _ hr)) hbindings
      hdeclaration mark.position).bind fun statement hstatement => ?_
    split
    · refine .pure (freshLine_free rfl ?_)
      simpa [StmtForm.children] using hstatement.fresh
    · exact .pure hstatement
  · exact .unsupported

theorem yields_memberOf {typeDeclaration : Read Tree} (h : ∀ r ∈ layer.children, r.Sound)
    (hdeclaration : typeDeclaration.Yields FreshLine) :
    (memberOf (ownOf layer) typeDeclaration layer).Yields FreshLine := by
  unfold memberOf
  split
  · refine (yields_list h fun _ hr => hr.stmt).bind fun statements hstatements => ?_
    refine Read.Yields.trivial.bind fun source _ => .pure ⟨fresh_free rfl ?_, rfl⟩
    have hbody : (bare (.stmt (.block statements))).FreshLine := freshLine_block hstatements
    simpa [Form.children, MemberForm.children] using hbody.fresh
  · exact yields_ownOf_decl h
  · exact yields_ownOf_decl h
  · exact yields_ownOf_decl h
  · split
    · exact hdeclaration
    · exact .unsupported
  · exact .unsupported

theorem yields_parameterOf {own : Read Tree} (h : ∀ r ∈ layer.children, r.Sound)
    (hown : own.Yields Fresh) : (parameterOf own layer).Yields Fresh := by
  unfold parameterOf
  split
  · simp only [ParseLayer.children, ParseForm.children, ParseStmt.children,
      List.forall_mem_append, List.forall_mem_singleton] at h
    obtain ⟨⟨⟨htype, -⟩, hnotes⟩, -⟩ := h
    refine yields_declarationPart ?_
    simpa [ParseDecl.children] using ⟨htype, hnotes⟩
  · exact hown

theorem yields_typeParameterOf {own : Read Tree} (h : ∀ r ∈ layer.children, r.Sound)
    (hown : own.Yields Fresh) : (typeParameterOf own layer).Yields Fresh := by
  unfold typeParameterOf
  split
  · simp only [ParseLayer.children, ParseForm.children, ParseDecl.children,
      List.forall_mem_append] at h
    exact yields_declarationPart h.1.1.2
  · exact yields_declarationPart (by simp [ParseDecl.children])
  · exact hown

theorem yields_constantOf (h : ∀ r ∈ layer.children, r.Sound) :
    (constantOf (ownOf layer) layer).Yields FreshLine := by
  unfold constantOf
  split
  · exact yields_ownOf_decl h
  · exact Read.Yields.trivial.bind fun _ _ => .unsupported
  · exact .unsupported

theorem yields_importOf (h : ∀ r ∈ layer.children, r.Sound) :
    (importOf (ownOf layer) layer).Yields FreshImport := by
  unfold importOf
  split
  · exact yields_ownOf_decl h
  · exact .unsupported

theorem mem_children_of_notes? {form : ParseForm Reading} {notes : List Reading}
    (hnotes : form.notes? = some notes) : ∀ r ∈ notes, r ∈ form.children := by
  intro r hr
  cases form with
  | stmt form => cases form <;> cases hnotes <;> simp [ParseForm.children, ParseStmt.children, hr]
  | decl form => cases form <;> cases hnotes <;> simp [ParseForm.children, ParseDecl.children, hr]
  | _ => cases hnotes

theorem yields_packageOf (h : ∀ r ∈ layer.children, r.Sound) :
    (packageOf layer).Yields FreshLine := by
  unfold packageOf
  split
  · split
    · rename_i name notes _ hnotes
      have hpackage : ∀ r ∈ (ParseDecl.package name notes).children, r.Sound := fun r hr =>
        h r (List.mem_append_left _ (mem_children_of_notes? hnotes r hr))
      exact yields_declarationPart hpackage
    · exact .unsupported
  · exact .unsupported

theorem yields_unitOf (h : ∀ r ∈ layer.children, r.Sound) :
    (unitOf (ownOf layer) layer).Yields FreshUnit := by
  unfold unitOf
  split
  · exact yields_ownOf_decl h
  · exact .unsupported

end Declarations

end Reading

/-- Every reading of a parser's tree is sound. -/
theorem ParseTree.sound_reading (t : ParseTree) : t.reading.Sound := by
  refine ParseTree.fold_induct (fun tree layer h => ?_) t
  have hown := Reading.yields_ownOf h
  have hexpr := Reading.yields_exprOf h
  have hvalue : (Reading.elementValueOf (Reading.ownOf layer) (Reading.exprOf layer) layer).Yields
      Fresh := Reading.yields_elementValueOf h hexpr
  have hparameter := Reading.yields_parameterOf h hown
  have hdeclaration := Reading.yields_typeDeclarationOf h
  exact
    { own := hown
      type := Reading.yields_typeOf h
      reference := Reading.yields_referenceOf h
      typeArgument := Reading.yields_typeArgumentOf h
      primary := Reading.yields_primaryOf h
      expr := hexpr
      select := fun _ htarget => Reading.yields_selectOf h htarget
      elementValue := hvalue
      elementArguments := Reading.yields_elementArgumentsOf h hvalue
      namedValue := Reading.yields_namedValueOf h hown
      parameter := hparameter
      lambdaParameter := Reading.yields_lambdaParameterOf hparameter
      lambdaBody := Reading.yields_lambdaBodyOf h
      stmt := Reading.yields_stmtOf h hdeclaration
      exprStatement := Reading.yields_exprStatementOf h hexpr
      switchLabel := Reading.yields_switchLabelOf hexpr
      binding := Reading.yields_bindingOf h hown
      loopStart := Reading.yields_loopStartOf h hown hexpr
      loop := fun position _ hbody => Reading.yields_loopOf h position hbody
      member := Reading.yields_memberOf h hdeclaration
      typeParameter := Reading.yields_typeParameterOf h hown
      constant := Reading.yields_constantOf h
      importing := Reading.yields_importOf h
      package := Reading.yields_packageOf h
      typeDeclaration := hdeclaration
      unit := Reading.yields_unitOf h }

end Recast
