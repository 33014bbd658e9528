import Mathlib
import Recast.Proofs.Render.Brackets.Expressions

/-!
Brackets of statements.

A statement closes the parentheses of its head and the braces of its bodies. The chain of handlers
that a `try` turns into goes arm by arm: each arm is closed, and so is the rest of the chain after it.
-/

namespace Recast

/-- The blanks at the start of a text are no brackets. -/
theorem IsClosed.dropBlanks {text : String} (h : IsClosed text) : IsClosed (Text.dropBlanks text) := by
  have hblank : ∀ c, Text.isBlank c = true → isBracket c = false := by
    intro c hc
    by_contra hbracket
    simp only [isBracket, List.mem_cons, List.not_mem_nil, or_false, decide_eq_false_iff_not,
      not_not] at hbracket
    rcases hbracket with rfl | rfl | rfl | rfl | rfl | rfl <;> exact absurd hc (by decide)
  intro due
  have hsplit := h due
  rw [← List.takeWhile_append_dropWhile (p := Text.isBlank) (l := text.toList),
    List.foldlM_append] at hsplit
  have hfree : IsFree (String.ofList (text.toList.takeWhile Text.isBlank)) := by
    intro c hc
    rw [String.toList_ofList] at hc
    exact hblank c (List.mem_takeWhile_imp hc)
  have hbefore := IsClosed.of_free hfree due
  rw [String.toList_ofList] at hbefore
  rw [hbefore] at hsplit
  rw [Text.dropBlanks, String.toList_ofList]
  exact hsplit

namespace Render

/-! ### Variables -/

theorem typedVariable_closed {name : Word} (h : IsClosed name.display) (dimensions : Int) :
    Ensures Bare (typedVariable name dimensions) IsClosed := by
  refine declaredType_unbracketed.bind fun type htype => ?_
  have hnamed : ∀ t ∈ some type, t.Everywhere (Tree.Named IsClosed) := by
    rintro t ⟨⟩
    exact htype.namedClosed
  refine (Ensures.ofType (variableType_composes composes_isClosed hnamed dimensions)).bind
    fun text htext => Ensures.pure fun due => ?_
  simp [h _, htext _]

theorem noVariable_closed (node : Tree) : Ensures Bare (noVariable node) IsClosed := by
  refine Ensures.bind_any fun type => ?_
  split
  · exact Ensures.bind_any fun _ => Ensures.unsupported
  · exact Ensures.bind_any fun _ => Ensures.unsupported
  · exact Ensures.unsupported

theorem localVariableOf_closed {node : Tree} {form : Form Tree}
    (hwords : ∀ word ∈ form.words, IsFree word.display) (h : ∀ t ∈ form.children, Matched t) :
    Ensures Bare (localVariableOf node (form.map Tree.rendering)) IsClosed := by
  cases form with
  | part form =>
    cases form with
    | declarator name dimensions initial =>
      have hname := IsClosed.of_free (hwords name List.mem_cons_self)
      refine (typedVariable_closed hname dimensions).bind fun code hcode => ?_
      cases initial with
      | none => exact Ensures.pure hcode
      | some t =>
        exact (h t List.mem_cons_self).expr.bind fun text htext =>
          Ensures.pure fun due => by simp [hcode _, htext _]
    | _ => exact noVariable_closed node
  | _ => exact noVariable_closed node

theorem localDeclaration_closed {node : Tree} {type : Option Tree} {bindings : List Tree}
    {isConstant : Bool} (annotations : List Tree) (htype : ∀ t ∈ type.toList, Matched t)
    (hbindings : ∀ t ∈ bindings, Matched t) (hannotations : ∀ t ∈ annotations, Matched t) :
    Ensures Bare (localDeclaration node (slotNode (type.map Tree.rendering))
      (bindings.map Tree.rendering) isConstant (annotations.map Tree.rendering)) IsClosed := by
  refine Ensures.read.bind fun scope _ => Ensures.ite (fun _ => Ensures.stop_bind) fun _ => ?_
  refine (notes_closed hannotations).bind fun notes hnotes => ?_
  refine Ensures.bind (declaring_bare htype (Ensures.mapM (List.forall_mem_map.2 fun t ht =>
    (hbindings t ht).localVariable))) fun texts htexts => Ensures.pure ?_
  have hcomments : IsClosed (String.join (notes.map fun note => "/* " ++ note ++ " */ ")) := by
    refine composes_isClosed.join (List.forall_mem_map.2 fun note hnote due => ?_)
    simp [hnotes note hnote _]
  refine (hcomments.append ?_).append (intercalate_closed htexts)
  exact fun due => by cases isConstant <;> simp

theorem declarationOf_closed {node : Tree} {form : Form Tree} (h : ∀ t ∈ form.children, Matched t)
    (isResource : Bool) :
    Ensures Bare (declarationOf node (form.map Tree.rendering) isResource) IsClosed := by
  cases form with
  | stmt form =>
    cases form with
    | localVariable type bindings modifiers annotations =>
      simp only [Form.children, StmtForm.children, List.forall_mem_append] at h
      cases isResource with
      | false => exact localDeclaration_closed annotations h.1.1 h.1.2 h.2
      | true => exact localDeclaration_closed [] h.1.1 h.1.2 (List.forall_mem_nil _)
    | _ => cases isResource <;> exact Ensures.unsupported
  | member form =>
    cases form with
    | field type bindings modifiers annotations =>
      simp only [Form.children, MemberForm.children, List.forall_mem_append] at h
      cases isResource with
      | false => exact Ensures.unsupported
      | true => exact localDeclaration_closed [] h.1.1 h.1.2 (List.forall_mem_nil _)
    | _ => cases isResource <;> exact Ensures.unsupported
  | _ => cases isResource <;> exact Ensures.unsupported

/-! ### Handlers -/

/-- Whether an arm of a chain of handlers is closed. -/
structure CatchArm.Matched (arm : CatchArm) : Prop where
  type : ∀ t ∈ arm.type, t.Everywhere (Tree.Named IsClosed)
  name : IsClosed arm.name.display
  lines : Ensures Bare arm.lines AreClosed

section Handlers

variable {binding : Word} (hbinding : IsClosed binding.display)

include hbinding

theorem armLines_closed {arm : CatchArm} (h : arm.Matched) :
    Ensures Bare (armLines binding arm) AreClosed := by
  refine indent_closed.bind fun indent hindent => h.lines.bind fun lines hlines => Ensures.pure ?_
  refine List.forall_mem_append.2 ⟨?_, hlines⟩
  split
  · exact nofun
  · refine List.forall_mem_singleton.2 fun due => ?_
    simp [hindent _, h.name _, hbinding _]

theorem armBlock_closed {arm : CatchArm} (h : arm.Matched) :
    Ensures Bare (armBlock binding arm) IsClosed := by
  refine indent_closed.bind fun indent hindent =>
    (indented_bare (armLines_closed hbinding h)).bind fun lines hlines =>
    Ensures.pure (IsClosed.between hlines fun due => ?_)
  simp [hindent _]

theorem armTest_closed {arm : CatchArm} {type : Tree} (h : arm.Matched) (htype : arm.type = some type) :
    Ensures Bare (typeTest (some type) fun _ => return binding.display) IsClosed :=
  typeTest_closed (fun t ht => h.type t (by rw [htype]; exact ht)) fun _ => Ensures.pure hbinding

theorem chainRest_closed {arms : List CatchArm} (h : ∀ arm ∈ arms, arm.Matched) :
    Ensures Bare (chainRest binding arms) IsClosed := by
  induction arms with
  | nil =>
    refine indent_closed.bind fun indent hindent => (indented_bare indent_closed).bind
      fun inner hinner => Ensures.pure fun due => ?_
    simp [hindent _, hinner _, hbinding _]
  | cons arm rest ih =>
    rw [List.forall_mem_cons] at h
    unfold chainRest
    split
    · exact (armBlock_closed hbinding h.1).bind fun block hblock =>
        Ensures.pure fun due => by simp [hblock _]
    · rename_i type htype
      refine (armTest_closed hbinding h.1 htype).bind fun test htest =>
        (armBlock_closed hbinding h.1).bind fun block hblock => (ih h.2).bind fun rest hrest =>
        Ensures.pure fun due => ?_
      simp [htest _, hblock _, hrest _]

theorem chainLines_closed {arms : List CatchArm} (h : ∀ arm ∈ arms, arm.Matched) :
    Ensures Bare (chainLines binding arms) AreClosed := by
  cases arms with
  | nil => exact Ensures.stop
  | cons arm rest =>
    rw [List.forall_mem_cons] at h
    simp only [chainLines]
    split
    · exact armLines_closed hbinding h.1
    · rename_i type htype
      refine indent_closed.bind fun indent hindent =>
        (armTest_closed hbinding h.1 htype).bind fun test htest =>
        (armBlock_closed hbinding h.1).bind fun block hblock =>
        (chainRest_closed hbinding h.2).bind fun rest hrest =>
        Ensures.pure (List.forall_mem_singleton.2 fun due => ?_)
      simp [hindent _, htest _, hblock _, hrest _]

end Handlers

theorem boundName_closed {t : Tree} (h : t.Everywhere Tree.Unbracketed) :
    IsClosed (boundName t).display := by
  rcases boundName_eq_name? h with hnull | ⟨binding, hbinding, hname⟩
  · rw [hnull]
    exact IsClosed.of_free isFree_null
  · have hfree := hbinding.name
    rw [hname] at hfree
    exact IsClosed.of_free hfree

/-- The arms of a handler. -/
theorem matched_of_mem_catchArms {clauses : List Tree} (h : ∀ t ∈ clauses, Matched t) :
    ∀ arm ∈ catchArms (clauses.map Tree.rendering), arm.Matched := by
  intro arm harm
  obtain ⟨r, hr, harm⟩ := List.mem_flatMap.1 harm
  obtain ⟨t, ht, rfl⟩ := List.mem_map.1 hr
  obtain ⟨caught, hcaught, rfl⟩ := List.mem_map.1 harm
  rw [Tree.rendering_node] at hcaught
  refine ⟨fun type htype => ?_, ?_, (h t ht).lines nofun⟩
  · rw [armType_eq_some htype] at hcaught
    exact (everywhere_of_mem_caughtTypes (h t ht).unbracketed hcaught).namedClosed
  · rw [Tree.rendering_node]
    exact boundName_closed (h t ht).unbracketed

theorem catchText_closed {clauses : List Tree} (h : ∀ t ∈ clauses, Matched t) :
    Ensures Bare (catchText (clauses.map Tree.rendering)) IsClosed := by
  cases clauses with
  | nil => exact Ensures.pure (composes_isClosed.fixed "" (by simp))
  | cons first rest =>
    have hbinding : IsClosed (boundName first.rendering.node).display := by
      rw [Tree.rendering_node]
      exact boundName_closed (h first List.mem_cons_self).unbracketed
    have hchain := chainLines_closed hbinding (matched_of_mem_catchArms h)
    refine indent_closed.bind fun indent hindent => (indented_bare hchain).bind fun lines hlines =>
      Ensures.pure (IsClosed.append (fun due => ?_) (IsClosed.between hlines fun due => ?_))
    · simp [hbinding _]
    · simp [hindent _]

theorem tryBody_closed {body : Option Tree} {resources : List Tree}
    (hbody : ∀ t ∈ body.toList, Matched t) (hresources : ∀ t ∈ resources, Matched t) :
    Ensures Bare (tryBody (body.map Tree.rendering) (resources.map Tree.rendering)) IsClosed := by
  cases body with
  | none => exact Ensures.unsupported
  | some t =>
    have ht := hbody t (by simp)
    refine Ensures.ite (fun _ => ht.block true) fun _ => ?_
    have hchildren : ∀ child ∈ (resources.map Tree.rendering).map resourceChild,
        Ensures Bare child.text IsClosed := by
      refine List.forall_mem_map.2 (List.forall_mem_map.2 fun resource hresource => ?_)
      refine indent_closed.bind fun indent hindent =>
        ((hresources resource hresource).declaration true).bind fun code hcode => ?_
      rw [Tree.rendering_node]
      refine withComment_closed (hresources resource hresource).unbracketed.self fun due => ?_
      simp [hindent _, hcode _]
    refine indent_closed.bind fun indent hindent => (indented_bare (ht.lines hchildren)).bind
      fun lines hlines => Ensures.pure (IsClosed.between hlines fun due => ?_)
    simp [hindent _]

/-! ### Parts -/

theorem linesOf_closed {node : Tree} (hnode : node.Unbracketed)
    (h : ∀ t ∈ node.form.children, Matched t) {before : List Child}
    (hbefore : ∀ child ∈ before, Ensures Bare child.text IsClosed) :
    Ensures Bare (linesOf node (node.form.map Tree.rendering) before) AreClosed := by
  have hstatements (statements : List Tree) (hmatched : ∀ t ∈ statements, Matched t) :
      Ensures Bare (childChunks node.trivia.orphans
        (before ++ (statements.map Tree.rendering).map (·.stmtChild))) AreClosed := by
    refine childChunks_closed hnode (List.forall_mem_append.2 ⟨hbefore, ?_⟩)
    exact List.forall_mem_map.2 (List.forall_mem_map.2 fun t ht => (hmatched t ht).stmt)
  cases hform : node.form with
  | stmt form =>
    rw [hform] at h
    cases form with
    | block statements => exact hstatements statements h
    | _ => exact Ensures.unsupported
  | part form =>
    rw [hform] at h
    cases form with
    | switchCase labels statements =>
      exact hstatements statements fun t ht => h t (List.mem_append_right _ ht)
    | catchClause binding body =>
      cases body with
      | none => exact Ensures.unsupported
      | some body => exact (h body (by simp [Form.children, PartForm.children])).lines hbefore
    | _ => exact Ensures.unsupported
  | _ => exact Ensures.unsupported

theorem caseLinesOf_closed {node : Tree} {form : Form Tree} (h : ∀ t ∈ form.children, Matched t) :
    Ensures Bare (caseLinesOf node (form.map Tree.rendering)) AreClosed := by
  cases form with
  | part form =>
    cases form with
    | switchCase labels statements =>
      simp only [Form.children, PartForm.children, List.forall_mem_append] at h
      refine indent_closed.bind fun indent hindent => ?_
      refine Ensures.bind (P := AreClosed) (Ensures.mapM (List.forall_mem_map.2 fun t ht => ?_))
        fun labels hlabels => Ensures.bind (P := AreClosed) (indented_bare (Ensures.mapM ?_))
        fun statements hstatements => Ensures.pure (List.forall_mem_append.2 ⟨?_, hstatements⟩)
      · exact (h.1 t ht).expr.bind fun text htext =>
          Ensures.pure fun due => by simp [hindent _, htext _]
      · exact List.forall_mem_map.2 fun t ht => (h.2 t ht).stmt
      · split
        · exact List.forall_mem_singleton.2 fun due => by simp [hindent _]
        · exact hlabels
    | _ => exact Ensures.unsupported
  | _ => exact Ensures.unsupported

theorem elseText_closed {t : Tree} (h : Matched t) : Ensures Bare (elseText t.rendering) IsClosed := by
  unfold elseText
  split
  · exact h.bareStmt.bind fun text htext => Ensures.pure htext.dropBlanks
  · exact h.body

theorem loopStartText_closed {start : LoopStart Tree} (h : ∀ t ∈ start.children, Matched t) :
    Ensures Bare (loopStartText (start.map Tree.rendering)) IsClosed := by
  cases start with
  | absent => exact Ensures.pure (composes_isClosed.fixed "" (by simp))
  | declaration t => exact (h t List.mem_cons_self).declaration false
  | expressions ts => exact argumentsText_closed h

theorem loopBody_closed {body : Option Tree} (h : ∀ t ∈ body.toList, Matched t) :
    Ensures Bare (loopBody (body.map Tree.rendering)) IsClosed := by
  cases body with
  | none => exact Ensures.pure fun due => by simp
  | some t => exact (h t (by simp)).body

theorem labelText_closed {label : Word} (h : IsFree label.display) : IsClosed (labelText label) := by
  have hlabel := IsClosed.of_free h
  intro due
  unfold labelText
  split <;> simp [hlabel _]

/-! ### Statements -/

theorem stmtForm_closed {node : Tree} {declaration block : Render String} {form : StmtForm Tree}
    (hdeclaration : Ensures Bare declaration IsClosed) (hblock : Ensures Bare block IsClosed)
    (hwords : ∀ word ∈ form.words, IsFree word.display) (h : ∀ t ∈ form.children, Matched t) :
    Ensures Bare (stmtForm node declaration block (form.map Tree.rendering)) IsClosed := by
  cases form with
  | block => exact hblock
  | bare => exact Ensures.unsupported
  | empty =>
    exact indent_closed.bind fun indent hindent => Ensures.pure fun due => by simp [hindent _]
  | localVariable =>
    exact indent_closed.bind fun indent hindent => hdeclaration.bind fun text htext =>
      Ensures.pure fun due => by simp [hindent _, htext _]
  | evaluate | throwing =>
    exact indent_closed.bind fun indent hindent => (slotExpr_closed h).bind fun text htext =>
      Ensures.pure fun due => by simp [hindent _, htext _]
  | breaking label | continuing label =>
    have hlabel := labelText_closed (hwords label List.mem_cons_self)
    exact indent_closed.bind fun indent hindent =>
      Ensures.pure fun due => by simp [hindent _, hlabel _]
  | returning expression =>
    cases expression with
    | none =>
      exact indent_closed.bind fun indent hindent => Ensures.pure fun due => by simp [hindent _]
    | some t =>
      exact indent_closed.bind fun indent hindent => (h t List.mem_cons_self).expr.bind
        fun text htext => Ensures.pure fun due => by simp [hindent _, htext _]
  | ifElse condition whenTrue whenFalse =>
    simp only [StmtForm.children, List.forall_mem_append] at h
    refine indent_closed.bind fun indent hindent => (slotExpr_closed h.1.1).bind fun test htest =>
      (slotBody_closed h.1.2).bind fun body hbody => ?_
    cases whenFalse with
    | none => exact Ensures.pure fun due => by simp [hindent _, htest _, hbody _]
    | some t =>
      exact (elseText_closed (h.2 t (by simp))).bind fun rest hrest =>
        Ensures.pure fun due => by simp [hindent _, htest _, hbody _, hrest _]
  | whileLoop condition body | doLoop condition body =>
    simp only [StmtForm.children, List.forall_mem_append] at h
    exact indent_closed.bind fun indent hindent => (slotExpr_closed h.1).bind fun test htest =>
      (slotBody_closed h.2).bind fun body hbody =>
      Ensures.pure fun due => by simp [hindent _, htest _, hbody _]
  | forLoop start condition update body =>
    simp only [StmtForm.children, List.forall_mem_append] at h
    refine indent_closed.bind fun indent hindent =>
      (loopStartText_closed h.1.1.1).bind fun start hstart =>
      (optionalText_closed h.1.1.2 (fun due => by simp) fun _ ht => ht.expr).bind fun test htest =>
      (argumentsText_closed h.1.2).bind fun update hupdate =>
      (loopBody_closed h.2).bind fun body hbody => Ensures.pure fun due => ?_
    simp [hindent _, hstart _, htest _, hupdate _, hbody _]
  | forEach binding iterable body =>
    simp only [StmtForm.children, List.forall_mem_append] at h
    refine indent_closed.bind fun indent hindent => ?_
    split
    · rename_i name hname
      have hmem : name ∈ loopVariables (binding.map Tree.rendering) := by
        rw [hname]
        exact List.mem_cons_self
      obtain ⟨declared, hdeclared, rfl⟩ := exists_of_mem_loopVariables
        (fun t ht => (h.1.1 t ht).unbracketed) hmem
      have hvariable := IsClosed.of_free hdeclared.name
      exact (slotExpr_closed h.1.2).bind fun items hitems => (slotBody_closed h.2).bind
        fun body hbody => Ensures.pure fun due => by simp [hindent _, hvariable _, hitems _, hbody _]
    · exact Ensures.unsupported
  | switch selector cases =>
    simp only [StmtForm.children, List.forall_mem_append] at h
    refine indent_closed.bind fun indent hindent => (slotExpr_closed h.1).bind fun test htest => ?_
    refine Ensures.bind (indented_bare (Ensures.mapM (List.forall_mem_map.2 fun t ht =>
      (h.2 t ht).caseLines))) fun groups hgroups => Ensures.pure (IsClosed.between ?_ fun due => ?_)
    · intro line hline
      obtain ⟨group, hgroup, hline⟩ := List.mem_flatten.1 hline
      exact hgroups group hgroup line hline
    · simp [hindent _, htest _]
  | tryCatch body resources catches finalBlock =>
    simp only [StmtForm.children, List.forall_mem_append] at h
    refine Ensures.bind_any fun _ => indent_closed.bind fun indent hindent =>
      (tryBody_closed h.1.1.1 h.1.1.2).bind fun body hbody =>
      (catchText_closed h.1.2).bind fun handlers hhandlers =>
      (optionalText_closed h.2 (fun due => by simp) fun _ ht => ht.block true).bind
      fun final hfinal => Ensures.pure fun due => ?_
    simp [hindent _, hbody _, hhandlers _, hfinal _]
  | synchronized lock body =>
    simp only [StmtForm.children, List.forall_mem_append] at h
    exact slotBlock_closed h.2 false
  | assertion condition message =>
    simp only [StmtForm.children, List.forall_mem_append] at h
    refine indent_closed.bind fun indent hindent => (slotExpr_closed h.1).bind fun test htest =>
      (optionalText_closed h.2 (fun due => by simp) fun _ ht => ht.expr).bind
      fun message hmessage => Ensures.pure fun due => ?_
    simp [hindent _, htest _, hmessage _]
  | labeled label statement =>
    have hlabel := IsClosed.of_free (hwords label List.mem_cons_self)
    have hstatement : Ensures Bare (slotStmt (statement.map Tree.rendering)) IsClosed := by
      cases statement with
      | none => exact Ensures.unsupported
      | some t => exact (h t (by simp [StmtForm.children])).stmt
    exact indent_closed.bind fun indent hindent => hstatement.bind fun text htext =>
      Ensures.pure fun due => by simp [hindent _, hlabel _, htext.dropBlanks _]
  | constructorCall isThis arguments =>
    refine indent_closed.bind fun indent hindent => (argumentsText_closed h).bind fun texts htexts =>
      Ensures.bind_any fun _ => Ensures.pure fun due => ?_
    cases isThis <;> simp [hindent _, htexts _]
  | localType declaration =>
    refine Ensures.read.bind fun _ _ => Ensures.ite (fun _ => Ensures.stop_bind) fun _ => ?_
    cases declaration with
    | none => exact Ensures.unsupported
    | some t => exact (h t (by simp [StmtForm.children])).typeDeclaration

theorem bareStmtOf_closed {node : Tree} {declaration block : Render String} {form : Form Tree}
    (hdeclaration : Ensures Bare declaration IsClosed) (hblock : Ensures Bare block IsClosed)
    (hwords : ∀ word ∈ form.words, IsFree word.display) (h : ∀ t ∈ form.children, Matched t) :
    Ensures Bare (bareStmtOf node declaration block (form.map Tree.rendering)) IsClosed := by
  cases form with
  | stmt form => exact stmtForm_closed hdeclaration hblock hwords h
  | _ => exact Ensures.unsupported

end Render

end Recast
