import Mathlib
import Recast.Proofs.Render.Code.Expressions
import Recast.Proofs.Render.Uncommented

/-!
Code of statements.

The statements of a block have comments before them and between them, each on lines of its own. The
chain of handlers that a `try` turns into is gone through arm by arm: the arms with comments and
those without have the same types and names, and lines with the same code.
-/

namespace Recast

variable {cs ds : List String} {css dss : List (List String)}

/-! ### Lists of texts -/

namespace Same

/-- Texts with the same code, one by one, are chunks with the same code. -/
theorem chunks (h : List.Forall₂ (Same Fills) cs ds) : Same Chunks cs ds := by
  induction h with
  | nil => exact ⟨[], .nil, .nil⟩
  | cons hfirst _ ih =>
    obtain ⟨kept, hc, hd⟩ := hfirst
    obtain ⟨more, hcs, hds⟩ := ih
    exact ⟨kept ++ more, .cons hc hcs, .cons hd hds⟩

theorem chunksAppend {cs' ds' : List String} (h : Same Chunks cs ds) (h' : Same Chunks cs' ds') :
    Same Chunks (cs ++ cs') (ds ++ ds') := by
  obtain ⟨kept, hcs, hds⟩ := h
  obtain ⟨more, hcs', hds'⟩ := h'
  exact ⟨kept ++ more, hcs.append hcs', hds.append hds'⟩

theorem flatten (h : List.Forall₂ (Same Chunks) css dss) : Same Chunks css.flatten dss.flatten := by
  induction h with
  | nil => exact ⟨[], .nil, .nil⟩
  | cons hfirst _ ih => exact hfirst.chunksAppend ih

end Same

namespace Render

/-- Lines of code in braces that open behind some text. -/
theorem braces_sameCode {opener opener' indent : String} (hopener : SameCode opener opener')
    (hindent : Text.isPlain indent) (h : Same Chunks cs ds) :
    SameCode ("\n".intercalate ([opener] ++ cs ++ [indent ++ "\x7d"]))
      ("\n".intercalate ([opener'] ++ ds ++ [indent ++ "\x7d"])) :=
  Chunks.sameCode hopener (Text.isPlain_append.2 ⟨hindent, rfl⟩) h

/-! ### Variables -/

theorem declaredType_follows : Follows Twins declaredType declaredType
    fun type type' => type' = type.uncommented ∧ type.Everywhere Tree.Clear := by
  refine Follows.read.bind fun scope twin hscope => ?_
  rw [hscope.same]
  cases hdeclared : scope.declared with
  | none => exact Follows.stop
  | some type => exact Follows.pure ⟨rfl, hscope.declared type hdeclared⟩

theorem typedVariable_follows {name : Word} (hname : Text.isPlain name.display) (dimensions : Int) :
    Follows Twins (typedVariable name dimensions) (typedVariable name dimensions) SameCode := by
  refine declaredType_follows.bind ?_
  rintro type _ ⟨rfl, hclear⟩
  have hnamed : ∀ t ∈ some type, t.Everywhere (Tree.Named (Text.isPlain ·)) := by
    rintro t ⟨⟩
    exact hclear.named
  refine (ofType_follows (variableType_uncommented (some type) dimensions)
    (variableType_composes composes_isPlain hnamed dimensions)).bind ?_
  rintro text _ ⟨rfl, htext⟩
  exact Follows.pure (((SameCode.plain hname).text ": " rfl).text text htext)

theorem noVariable_follows {node : Tree} {y : Render String} :
    Follows Twins (noVariable node) y SameCode := by
  refine Follows.bind_any fun type => ?_
  split
  · exact Follows.bind_any fun _ => Follows.unsupported
  · exact Follows.bind_any fun _ => Follows.unsupported
  · exact Follows.unsupported

theorem localVariableOf_follows {node node' : Tree} {form : Form Tree} (hspelled : form.isSpelled)
    (h : ∀ t ∈ form.children, Twinned t) :
    Follows Twins (localVariableOf node (form.map Tree.rendering))
      (localVariableOf node' (form.map Tree.twin)) SameCode := by
  cases form with
  | part form =>
    cases form with
    | declarator name dimensions initial =>
      refine (typedVariable_follows hspelled dimensions).bind fun code code' hcode => ?_
      cases initial with
      | none => exact Follows.pure hcode
      | some t =>
        refine (h t List.mem_cons_self).expr.bind fun text text' htext => Follows.pure ?_
        exact (hcode.text " = " rfl).append htext
    | _ => exact noVariable_follows
  | _ => exact noVariable_follows

theorem localDeclaration_follows {node node' : Tree} {type : Option Tree} {bindings : List Tree}
    (isConstant : Bool) (htype : ∀ t ∈ type.toList, Twinned t)
    (hbindings : ∀ t ∈ bindings, Twinned t) :
    Follows Twins
      (localDeclaration node (slotNode (type.map Tree.rendering)) (bindings.map Tree.rendering)
        isConstant [])
      (localDeclaration node' (slotNode (type.map Tree.twin)) (bindings.map Tree.twin)
        isConstant []) SameCode := by
  rw [slotNode_rendering, slotNode_twin]
  refine Follows.read.bind fun scope twin hscope => ?_
  refine Follows.ite (by rw [hscope.same]) (fun _ => Follows.stop_bind) fun _ => ?_
  refine Follows.bind (R := fun a b => a = [] ∧ b = []) (Follows.pure ⟨rfl, rfl⟩) ?_
  rintro _ _ ⟨rfl, rfl⟩
  refine Follows.bind (Follows.withReader (Follows.mapM fun t ht => (hbindings t ht).localVariable)
    fun _ _ hscope => hscope.declaring fun t ht => (htype t (Option.mem_toList.2 ht)).clear)
    fun texts texts' htexts => Follows.pure ?_
  have hcode : SameCode (", ".intercalate texts) (", ".intercalate texts') :=
    SameCode.intercalate rfl htexts
  cases isConstant with
  | true => exact hcode.after "const " rfl
  | false => exact hcode.after "let " rfl

theorem declarationOf_follows {node node' : Tree} {form : Form Tree}
    (hannotations : form.annotations = []) (h : ∀ t ∈ form.children, Twinned t)
    (isResource : Bool) :
    Follows Twins (declarationOf node (form.map Tree.rendering) isResource)
      (declarationOf node' (form.map Tree.twin) isResource) SameCode := by
  cases form with
  | stmt form =>
    cases form with
    | localVariable type bindings modifiers annotations =>
      obtain rfl : annotations = [] := hannotations
      simp only [Form.children, StmtForm.children, List.forall_mem_append] at h
      cases isResource with
      | false => exact localDeclaration_follows _ h.1.1 h.1.2
      | true => exact localDeclaration_follows true h.1.1 h.1.2
    | _ => cases isResource <;> exact Follows.unsupported
  | member form =>
    cases form with
    | field type bindings modifiers annotations =>
      simp only [Form.children, MemberForm.children, List.forall_mem_append] at h
      cases isResource with
      | false => exact Follows.unsupported
      | true => exact localDeclaration_follows true h.1.1 h.1.2
    | _ => cases isResource <;> exact Follows.unsupported
  | _ => cases isResource <;> exact Follows.unsupported

/-! ### Handlers -/

/-- Two arms of a chain of handlers that differ in comments only. -/
structure CatchArm.Twins (arm twin : CatchArm) : Prop where
  type : twin.type = arm.type.map Tree.uncommented
  name : twin.name = arm.name
  named : ∀ t ∈ arm.type, t.Everywhere (Tree.Named (Text.isPlain ·))
  plain : Text.isPlain arm.name.display
  lines : Follows Render.Twins arm.lines twin.lines (Same Chunks)

section Handlers

variable {binding : Word} (hbinding : Text.isPlain binding.display)

include hbinding

theorem armLines_follows {arm twin : CatchArm} (h : arm.Twins twin) :
    Follows Twins (armLines binding arm) (armLines binding twin) (Same Chunks) := by
  unfold armLines
  rw [h.name]
  refine indent_bind fun indent hindent => ?_
  refine h.lines.bind fun lines lines' hlines => Follows.pure (Same.chunksAppend ?_ hlines)
  split
  · exact ⟨[], .nil, .nil⟩
  · have hplain : Text.isPlain (indent ++ "const " ++ arm.name.display ++ " = " ++ binding.display
        ++ ";") := by
      simp only [Text.isPlain_append]
      exact ⟨⟨⟨⟨⟨hindent, rfl⟩, h.plain⟩, rfl⟩, hbinding⟩, rfl⟩
    exact Same.chunks (.cons (SameCode.plain hplain).same.fills .nil)

theorem armBlock_follows {arm twin : CatchArm} (h : arm.Twins twin) :
    Follows Twins (armBlock binding arm) (armBlock binding twin) SameCode := by
  refine indent_bind fun indent hindent => ?_
  refine (Follows.withReader (armLines_follows hbinding h) fun _ _ hscope => hscope.indented).bind
    fun lines lines' hlines => Follows.pure ?_
  exact braces_sameCode (SameCode.plain rfl) hindent hlines

theorem armTest_follows {type : Tree} (h : type.Everywhere (Tree.Named (Text.isPlain ·))) :
    Follows Twins (typeTest (some type) fun _ => return binding.display)
      (typeTest (some type.uncommented) fun _ => return binding.display) SameCode := by
  have hnamed : ∀ t ∈ some type, t.Everywhere (Tree.Named (Text.isPlain ·)) := by
    rintro t ⟨⟩
    exact h
  exact typeTest_follows hnamed fun _ => Follows.pure (SameCode.plain hbinding)

theorem chainRest_follows {arms twins : List CatchArm} (h : List.Forall₂ CatchArm.Twins arms twins) :
    Follows Twins (chainRest binding arms) (chainRest binding twins) SameCode := by
  induction h with
  | nil =>
    refine indent_bind fun indent hindent => ?_
    refine (Follows.withReader indent_follows fun _ _ hscope => hscope.indented).bind ?_
    rintro inner _ ⟨rfl, hinner, -⟩
    apply Follows.pure
    apply SameCode.plain
    simp only [Text.isPlain_append]
    exact ⟨⟨⟨⟨⟨⟨rfl, hinner⟩, rfl⟩, hbinding⟩, rfl⟩, hindent⟩, rfl⟩
  | @cons arm twin rest twins hfirst _ ih =>
    unfold chainRest
    rw [hfirst.type]
    cases htype : arm.type with
    | none =>
      refine (armBlock_follows hbinding hfirst).bind fun block block' hblock => Follows.pure ?_
      exact hblock.after " else " rfl
    | some type =>
      refine (armTest_follows hbinding (hfirst.named type htype)).bind fun test test' htest => ?_
      refine (armBlock_follows hbinding hfirst).bind fun block block' hblock => ?_
      refine ih.bind fun rest rest' hrest => Follows.pure ?_
      exact (((htest.after " else if (" rfl).text ") " rfl).append hblock).append hrest

theorem chainLines_follows {arms twins : List CatchArm} (h : List.Forall₂ CatchArm.Twins arms twins) :
    Follows Twins (chainLines binding arms) (chainLines binding twins) (Same Chunks) := by
  cases h with
  | nil => exact Follows.stop
  | @cons arm twin rest twins hfirst hrest =>
    simp only [chainLines]
    rw [hfirst.type]
    cases htype : arm.type with
    | none => exact armLines_follows hbinding hfirst
    | some type =>
      refine indent_bind fun indent hindent => ?_
      refine (armTest_follows hbinding (hfirst.named type htype)).bind fun test test' htest => ?_
      refine (armBlock_follows hbinding hfirst).bind fun block block' hblock => ?_
      refine (chainRest_follows hbinding hrest).bind fun rest rest' hrest => Follows.pure ?_
      have hhead := ((htest.after "if (" rfl).after indent hindent).text ") " rfl
      have hline := (hhead.append hblock).append hrest
      refine Same.chunks (.cons ?_ .nil)
      simpa only [String.append_assoc] using hline.same.fills

end Handlers

theorem isPlain_name {t : Tree} (h : t.Clear) :
    Text.isPlain (t.name?.getD .null).display := by
  have hspelled := h.spelled
  unfold Tree.name?
  split <;> rename_i hform
  all_goals first
    | rfl
    | rw [hform] at hspelled
      exact hspelled

theorem isPlain_boundName {t : Tree} (h : t.Everywhere Tree.Clear) :
    Text.isPlain (boundName t).display := by
  rcases boundName_eq_name? h with hnull | ⟨binding, hbinding, hname⟩
  · rw [hnull]
    rfl
  · have hplain := isPlain_name hbinding
    rwa [hname] at hplain

/-- The arms of some handlers. -/
theorem catchArms_twins {clauses : List Tree} (h : ∀ t ∈ clauses, Twinned t) :
    List.Forall₂ CatchArm.Twins (catchArms (clauses.map Tree.rendering))
      (catchArms (clauses.map Tree.twin)) := by
  induction clauses with
  | nil => exact .nil
  | cons clause rest ih =>
    rw [List.forall_mem_cons] at h
    refine List.rel_append ?_ (ih h.2)
    have hclear := h.1.clear
    simp only [clause.rendering_node, clause.twin_node, caughtTypes_uncommented, List.map_map,
      List.forall₂_map_left_iff, List.forall₂_map_right_iff, List.forall₂_same]
    intro caught hcaught
    refine ⟨armType_uncommented caught, boundName_uncommented clause, fun type htype => ?_,
      isPlain_boundName hclear, h.1.lines .nil⟩
    rw [armType_eq_some htype] at hcaught
    exact (everywhere_of_mem_caughtTypes hclear hcaught).named

theorem catchText_follows {clauses : List Tree} (h : ∀ t ∈ clauses, Twinned t) :
    Follows Twins (catchText (clauses.map Tree.rendering)) (catchText (clauses.map Tree.twin))
      SameCode := by
  cases clauses with
  | nil => exact Follows.pure (SameCode.plain rfl)
  | cons first rest =>
    have hbinding := isPlain_boundName (h first List.mem_cons_self).clear
    have hchain := chainLines_follows hbinding (catchArms_twins h)
    simp only [catchText, List.map_cons, Tree.rendering_node, Tree.twin_node,
      boundName_uncommented] at hchain ⊢
    refine indent_bind fun indent hindent => ?_
    refine (Follows.withReader hchain fun _ _ hscope => hscope.indented).bind
      fun lines lines' hlines => Follows.pure ?_
    have hhead : Text.isPlain (" catch (" ++ (boundName first).display ++ ") ") := by
      simp only [Text.isPlain_append]
      exact ⟨⟨rfl, hbinding⟩, rfl⟩
    exact (braces_sameCode (SameCode.plain rfl) hindent hlines).after _ hhead

theorem resourceChild_sameChild {t : Tree} (h : Twinned t) :
    SameChild (resourceChild t.rendering) (resourceChild t.twin) := by
  refine indent_bind fun indent hindent => ?_
  refine (h.declaration true).bind fun code code' hcode => ?_
  rw [t.rendering_node, t.twin_node]
  refine (withComment_follows h.clear.self ?_).mono fun _ _ => Same.fills
  exact ((hcode.after indent hindent).text ";" rfl).same

theorem tryBody_follows {body : Option Tree} {resources : List Tree}
    (hbody : ∀ t ∈ body.toList, Twinned t) (hresources : ∀ t ∈ resources, Twinned t) :
    Follows Twins (tryBody (body.map Tree.rendering) (resources.map Tree.rendering))
      (tryBody (body.map Tree.twin) (resources.map Tree.twin)) SameCode := by
  cases body with
  | none => exact Follows.unsupported
  | some t =>
    have ht := hbody t (by simp)
    refine Follows.ite (by simp) (fun _ => block_follows true (ht.lines .nil)) fun _ => ?_
    have hchildren := sameChildren resourceChild fun resource hresource =>
      resourceChild_sameChild (hresources resource hresource)
    refine indent_bind fun indent hindent => ?_
    refine (Follows.withReader (ht.lines hchildren) fun _ _ hscope => hscope.indented).bind
      fun lines lines' hlines => Follows.pure ?_
    exact braces_sameCode (SameCode.plain rfl) hindent hlines

/-! ### Parts -/

theorem linesOf_follows {t : Tree} (hclear : t.Clear) (h : ∀ child ∈ t.form.children, Twinned child)
    {before before' : List Child} (hbefore : List.Forall₂ SameChild before before') :
    Follows Twins (linesOf t (t.form.map Tree.rendering) before)
      (linesOf t.uncommented (t.form.map Tree.twin) before') (Same Chunks) := by
  have hstatements (statements : List Tree) (hstatements : ∀ t ∈ statements, Twinned t) :=
    childChunks_follows hclear (List.rel_append hbefore (sameChildren Rendering.stmtChild
      fun t ht => (stmt_follows (hstatements t ht)).mono fun _ _ => Same.fills))
  cases hform : t.form with
  | stmt form =>
    rw [hform] at h
    cases form with
    | block statements => exact hstatements statements h
    | _ => exact Follows.unsupported
  | part form =>
    rw [hform] at h
    cases form with
    | switchCase labels statements =>
      exact hstatements statements fun t ht => h t (List.mem_append_right _ ht)
    | catchClause binding body =>
      cases body with
      | none => exact Follows.unsupported
      | some body => exact (h body (by simp [Form.children, PartForm.children])).lines hbefore
    | _ => exact Follows.unsupported
  | _ => exact Follows.unsupported

theorem caseLinesOf_follows {node node' : Tree} {form : Form Tree}
    (h : ∀ t ∈ form.children, Twinned t) :
    Follows Twins (caseLinesOf node (form.map Tree.rendering))
      (caseLinesOf node' (form.map Tree.twin)) (Same Chunks) := by
  cases form with
  | part form =>
    cases form with
    | switchCase labels statements =>
      simp only [Form.children, PartForm.children, List.forall_mem_append] at h
      refine indent_bind fun indent hindent => ?_
      have hlabels : ∀ t ∈ labels, Follows Twins
          (do return indent ++ "case " ++ (← t.rendering.expr) ++ ":")
          (do return indent ++ "case " ++ (← t.twin.expr) ++ ":") (Same Fills) := by
        refine fun t ht => (h.1 t ht).expr.bind fun text text' htext => Follows.pure ?_
        have hline := ((htext.after "case " rfl).after indent hindent).text ":" rfl
        simpa only [String.append_assoc] using hline.same.fills
      refine (Follows.mapM hlabels).bind fun lines lines' hlines => ?_
      refine (Follows.withReader (Follows.mapM fun t ht => stmt_follows (h.2 t ht))
        fun _ _ hscope => hscope.indented).bind fun texts texts' htexts => Follows.pure ?_
      refine Same.chunksAppend ?_ (Same.chunks (htexts.imp fun _ _ => Same.fills))
      cases hlines with
      | nil =>
        refine Same.chunks (.cons (SameCode.plain ?_).same.fills .nil)
        exact Text.isPlain_append.2 ⟨hindent, rfl⟩
      | cons hfirst hrest => exact Same.chunks (.cons hfirst hrest)
    | _ => exact Follows.unsupported
  | _ => exact Follows.unsupported

/-- A chain of conditions goes on in line with and without comments, since no comment stands before
the next condition. -/
theorem elseText_follows {t : Tree} (hcomment : t.comment = none) (h : Twinned t) :
    Follows Twins (elseText t.rendering) (elseText t.twin) (Same Reads) := by
  have hbody := (body_follows h).mono fun _ _ => SameCode.same
  unfold elseText
  rw [t.rendering_node, t.twin_node, hcomment, comment_uncommented, t.form_uncommented]
  cases hform : t.form with
  | stmt form =>
    cases form with
    | ifElse condition whenTrue whenFalse =>
      exact h.bareStmt.bind fun text text' htext => Follows.pure htext.dropBlanks
    | _ => exact hbody
  | _ => exact hbody

theorem loopStartText_follows {start : LoopStart Tree} (h : ∀ t ∈ start.children, Twinned t) :
    Follows Twins (loopStartText (start.map Tree.rendering)) (loopStartText (start.map Tree.twin))
      SameCode := by
  cases start with
  | absent => exact Follows.pure (SameCode.plain rfl)
  | declaration t => exact (h t List.mem_cons_self).declaration false
  | expressions ts => exact argumentsText_follows h

theorem loopBody_follows {body : Option Tree} (h : ∀ t ∈ body.toList, Twinned t) :
    Follows Twins (loopBody (body.map Tree.rendering)) (loopBody (body.map Tree.twin)) SameCode := by
  cases body with
  | none => exact Follows.pure (SameCode.plain rfl)
  | some t => exact body_follows (h t (by simp))

theorem isPlain_labelText {label : Word} (h : Text.isPlain label.display) :
    Text.isPlain (labelText label) := by
  unfold labelText
  split
  · exact Text.isPlain_append.2 ⟨rfl, h⟩
  · rfl

theorem loopVariables_twin (binding : Option Tree) :
    loopVariables (binding.map Tree.twin) = loopVariables (binding.map Tree.rendering) := by
  unfold loopVariables
  rw [slotNode_rendering, slotNode_twin]
  cases binding with
  | none => rfl
  | some t =>
    rcases t with ⟨trivia, form | form | form | form | form | kind⟩ <;>
      simp only [Option.map_some, Tree.uncommented_node, Tree.form_node]
    case stmt => cases form <;> simp [Form.map, StmtForm.map, Tree.name?_uncommented]
    case member => cases form <;> simp [Form.map, MemberForm.map, Tree.name?_uncommented]
    all_goals rfl

/-! ### Statements -/

/-- A statement has the code that it has without comments. -/
theorem stmtForm_follows {node node' : Tree} {declaration declaration' block block' : Render String}
    {form : StmtForm Tree} (hdeclaration : Follows Twins declaration declaration' SameCode)
    (hblock : Follows Twins block block' SameCode) (hspelled : form.isSpelled)
    (hleads : ∀ child ∈ (Form.stmt form).sideChildren, child.comment = none)
    (h : ∀ t ∈ form.children, Twinned t) :
    Follows Twins (stmtForm node declaration block (form.map Tree.rendering))
      (stmtForm node' declaration' block' (form.map Tree.twin)) (Same Reads) := by
  have hline (text : String) (htext : Text.isPlain text) :
      Follows Twins (do return (← indent) ++ text) (do return (← indent) ++ text) (Same Reads) := by
    refine indent_bind fun indent hindent => ?_
    exact Follows.pure (SameCode.plain (Text.isPlain_append.2 ⟨hindent, htext⟩)).same
  cases form with
  | block => exact hblock.mono fun _ _ => SameCode.same
  | bare => exact Follows.unsupported
  | empty => exact hline ";" rfl
  | localVariable =>
    refine indent_bind fun indent hindent => ?_
    refine hdeclaration.bind fun text text' htext => Follows.pure ?_
    exact ((htext.after indent hindent).text ";" rfl).same
  | evaluate expression =>
    refine indent_bind fun indent hindent => ?_
    refine (slotExpr_follows h).bind fun text text' htext => Follows.pure ?_
    exact ((htext.after indent hindent).text ";" rfl).same
  | throwing expression =>
    refine indent_bind fun indent hindent => ?_
    refine (slotExpr_follows h).bind fun text text' htext => Follows.pure ?_
    exact ((((SameCode.plain hindent).text "throw " rfl).append htext).text ";" rfl).same
  | breaking label | continuing label =>
    refine indent_bind fun indent hindent => Follows.pure ?_
    have hlabel := isPlain_labelText hspelled
    exact ((((SameCode.plain hindent).text _ rfl).text _ hlabel).text ";" rfl).same
  | returning expression =>
    cases expression with
    | none => exact hline "return;" rfl
    | some t =>
      refine indent_bind fun indent hindent => ?_
      refine (h t List.mem_cons_self).expr.bind fun text text' htext => Follows.pure ?_
      exact ((((SameCode.plain hindent).text "return " rfl).append htext).text ";" rfl).same
  | ifElse condition whenTrue whenFalse =>
    rw [Form.sideChildren_eq_children rfl] at hleads
    simp only [Form.children, StmtForm.children, List.forall_mem_append] at h hleads
    refine indent_bind fun indent hindent => ?_
    refine (slotExpr_follows h.1.1).bind fun test test' htest => ?_
    refine (slotBody_follows h.1.2).bind fun body body' hbody => ?_
    have hhead := (((SameCode.plain hindent).text "if (" rfl).append htest).text ") " rfl
    have hcode := hhead.append hbody
    cases whenFalse with
    | none => exact Follows.pure hcode.same
    | some t =>
      refine (elseText_follows (hleads.2 t (by simp)) (h.2 t (by simp))).bind
        fun rest rest' hrest => Follows.pure ?_
      exact (hcode.text " else " rfl).same.append hrest
  | whileLoop condition body =>
    simp only [StmtForm.children, List.forall_mem_append] at h
    refine indent_bind fun indent hindent => ?_
    refine (slotExpr_follows h.1).bind fun test test' htest => ?_
    refine (slotBody_follows h.2).bind fun body body' hbody => Follows.pure ?_
    have hhead := (((SameCode.plain hindent).text "while (" rfl).append htest).text ") " rfl
    exact (hhead.append hbody).same
  | doLoop condition body =>
    simp only [StmtForm.children, List.forall_mem_append] at h
    refine indent_bind fun indent hindent => ?_
    refine (slotExpr_follows h.1).bind fun test test' htest => ?_
    refine (slotBody_follows h.2).bind fun body body' hbody => Follows.pure ?_
    have hcode := ((SameCode.plain hindent).text "do " rfl).append hbody
    exact (((hcode.text " while (" rfl).append htest).text ");" rfl).same
  | forLoop start condition update body =>
    simp only [StmtForm.children, List.forall_mem_append] at h
    refine indent_bind fun indent hindent => ?_
    refine (loopStartText_follows h.1.1.1).bind fun start start' hstart => ?_
    refine (optionalText_follows rfl fun t ht => (h.1.1.2 t ht).expr).bind
      fun test test' htest => ?_
    refine (argumentsText_follows h.1.2).bind fun update update' hupdate => ?_
    refine (loopBody_follows h.2).bind fun body body' hbody => Follows.pure ?_
    have hhead := (((SameCode.plain hindent).text "for (" rfl).append hstart).text "; " rfl
    exact (((((hhead.append htest).text "; " rfl).append hupdate).text ") " rfl).append hbody).same
  | forEach binding iterable body =>
    simp only [StmtForm.children, List.forall_mem_append] at h
    refine indent_bind fun indent hindent => ?_
    simp only [loopVariables_twin]
    split
    · rename_i name hname
      have hmem : name ∈ loopVariables (binding.map Tree.rendering) := by
        rw [hname]
        exact List.mem_cons_self
      obtain ⟨declared, hdeclared, rfl⟩ :=
        exists_of_mem_loopVariables (fun t ht => (h.1.1 t ht).clear) hmem
      have hvariable := isPlain_name hdeclared
      refine (slotExpr_follows h.1.2).bind fun items items' hitems => ?_
      refine (slotBody_follows h.2).bind fun body body' hbody => Follows.pure ?_
      have hbound := (((SameCode.plain hindent).text "for (const " rfl).text _ hvariable).text " of " rfl
      have hhead := (hbound.append hitems).text ") " rfl
      exact (hhead.append hbody).same
    · exact Follows.unsupported
  | switch selector cases =>
    simp only [StmtForm.children, List.forall_mem_append] at h
    refine indent_bind fun indent hindent => ?_
    refine (slotExpr_follows h.1).bind fun test test' htest => ?_
    refine (Follows.withReader (Follows.mapM fun t ht => (h.2 t ht).caseLines)
      fun _ _ hscope => hscope.indented).bind fun groups groups' hgroups => Follows.pure ?_
    have hhead := (((SameCode.plain hindent).text "switch (" rfl).append htest).text ") \x7b" rfl
    exact (braces_sameCode hhead hindent (Same.flatten hgroups)).same
  | tryCatch body resources catches finalBlock =>
    simp only [StmtForm.children, List.forall_mem_append] at h
    refine Follows.reportIf.bind fun _ _ _ => indent_bind fun indent hindent => ?_
    refine (tryBody_follows h.1.1.1 h.1.1.2).bind fun body body' hbody => ?_
    refine (catchText_follows h.1.2).bind fun handlers handlers' hhandlers => ?_
    refine (optionalText_follows rfl fun t ht => block_follows true ((h.2 t ht).lines .nil)).bind
      fun final final' hfinal => Follows.pure ?_
    have hcode := ((SameCode.plain hindent).text "try " rfl).append hbody
    exact ((hcode.append hhandlers).append hfinal).same
  | synchronized lock body =>
    simp only [StmtForm.children, List.forall_mem_append] at h
    exact (slotBlock_follows h.2 false).mono fun _ _ => SameCode.same
  | assertion condition message =>
    simp only [StmtForm.children, List.forall_mem_append] at h
    refine indent_bind fun indent hindent => ?_
    refine (slotExpr_follows h.1).bind fun test test' htest => ?_
    refine (optionalText_follows rfl fun t ht => (h.2 t ht).expr).bind
      fun message message' hmessage => Follows.pure ?_
    have hcode := ((SameCode.plain hindent).text "console.assert(" rfl).append htest
    exact ((hcode.append hmessage).text ");" rfl).same
  | labeled label statement =>
    refine indent_bind fun indent hindent => ?_
    refine (slotStmt_follows h).bind fun text text' htext => Follows.pure ?_
    have hhead := ((SameCode.plain hindent).text label.display hspelled).text ": " rfl
    exact hhead.same.append htext.dropBlanks
  | constructorCall isThis arguments =>
    refine indent_bind fun indent hindent => ?_
    refine (argumentsText_follows h).bind fun texts texts' htexts => ?_
    refine Follows.reportIf.bind fun _ _ _ => Follows.pure ?_
    have hkeyword : Text.isPlain (if isThis then "this(" else "super(") := by
      cases isThis <;> rfl
    exact ((((SameCode.plain hindent).text _ hkeyword).append htexts).text ");" rfl).same
  | localType declaration =>
    refine Follows.read.bind fun scope twin hscope => ?_
    refine Follows.ite (by rw [hscope.same]) (fun _ => Follows.stop_bind) fun _ => ?_
    exact slotTypeDeclaration_follows h

theorem bareStmtOf_follows {node node' : Tree} {declaration declaration' block block' : Render String}
    {form : Form Tree} (hdeclaration : Follows Twins declaration declaration' SameCode)
    (hblock : Follows Twins block block' SameCode) (hspelled : form.isSpelled)
    (hleads : ∀ child ∈ form.sideChildren, child.comment = none)
    (h : ∀ t ∈ form.children, Twinned t) :
    Follows Twins (bareStmtOf node declaration block (form.map Tree.rendering))
      (bareStmtOf node' declaration' block' (form.map Tree.twin)) (Same Reads) := by
  cases form with
  | stmt form => exact stmtForm_follows hdeclaration hblock hspelled hleads h
  | _ => exact Follows.unsupported

end Render

end Recast
