import Mathlib
import Recast.Proofs.Render.Brackets.Statements

/-!
Brackets of declarations and units.

Parameters stand in parentheses, the bodies of types and methods in braces. Chunks of a body are left
out only as a whole. So a unit is closed where its words are, however its parts are put together.
-/

namespace Recast.Render

/-! ### Annotations and parameters -/

theorem annotationText_closed {name : Word} {arguments : List Tree} (hname : IsClosed name.display)
    (h : ∀ t ∈ arguments, Matched t) :
    Ensures Bare (annotationText name (arguments.map Tree.rendering)) IsClosed := by
  refine Ensures.ite (fun _ => Ensures.pure fun due => by simp [hname _]) fun _ => ?_
  refine (parts_closed h).bind fun texts htexts => Ensures.pure fun due => ?_
  simp [-String.toList_intercalate, hname _, intercalate_closed htexts _]

theorem annotationOf_closed {node : Tree} {form : Form Tree}
    (hwords : ∀ word ∈ form.words, IsFree word.display) (h : ∀ t ∈ form.children, Matched t) :
    Ensures Bare (annotationOf node (form.map Tree.rendering)) IsClosed := by
  cases form with
  | part form =>
    cases form with
    | annotationUse name arguments =>
      exact annotationText_closed (IsClosed.of_free (hwords name List.mem_cons_self)) h
    | enumConstant name arguments body annotations =>
      simp only [Form.children, PartForm.children, List.forall_mem_append] at h
      exact annotationText_closed (IsClosed.of_free (hwords name List.mem_cons_self)) h.1.1
    | _ => exact Ensures.unsupported
  | expr form =>
    cases form with
    | call name arguments target typeArguments =>
      simp only [Form.children, ExprForm.children, List.forall_mem_append] at h
      exact annotationText_closed (IsClosed.of_free (hwords name List.mem_cons_self)) h.1.1
    | create => exact Ensures.bind_any fun _ => Ensures.unsupported
    | _ => exact Ensures.unsupported
  | stmt form =>
    cases form with
    | constructorCall => exact Ensures.bind_any fun _ => Ensures.unsupported
    | _ => exact Ensures.unsupported
  | _ => exact Ensures.unsupported

theorem renderAll_closed (modifiers : List Modifier) (context : ModifierContext)
    (topLevel commentFinal : Bool) :
    IsClosed (Modifier.renderAll modifiers context topLevel commentFinal) := by
  have hwords : ∀ word ∈ modifierWords, IsFree word := by decide
  exact renderAll_composes composes_isClosed (.of_free (by decide))
    (fun word hword => .of_free (hwords word hword)) fun _ => .of_free (by decide)

theorem parameterText_closed {name : Word} {type : Option Tree} {modifiers : List Modifier}
    {annotations : List Tree} {isVarargs : Bool} (hname : IsClosed name.display)
    (htype : ∀ t ∈ type.toList, Matched t) (h : ∀ t ∈ annotations, Matched t) :
    Ensures Bare (parameterText name (slotNode (type.map Tree.rendering)) modifiers
      (annotations.map Tree.rendering) isVarargs) IsClosed := by
  refine Ensures.read.bind fun scope _ => (notes_closed h).bind fun notes hnotes => ?_
  have hhead : IsClosed (String.join (notes.map (· ++ " "))
      ++ Modifier.renderAll modifiers .parameter false scope.commentFinal) := by
    refine (composes_isClosed.join (List.forall_mem_map.2 fun note hnote due => ?_)).append
      (renderAll_closed _ _ _ _)
    simp [hnotes note hnote _]
  have hnamed := named_slotNode htype
  generalize slotNode (type.map Tree.rendering) = slot at hnamed
  cases slot with
  | none => exact Ensures.pure (hhead.append hname)
  | some type =>
    refine Ensures.ite (fun _ => ?_) fun _ => ?_
    · refine (Ensures.ofType (arrayTypeText_composes composes_isClosed hnamed 1)).bind
        fun text htext => Ensures.pure (((hhead.append ?_).append hname).append ?_ |>.append htext)
      all_goals exact fun due => by simp
    · refine (Ensures.ofType (slotTypeText_composes composes_isClosed hnamed)).bind
        fun text htext => Ensures.pure (((hhead.append hname).append ?_).append htext)
      exact fun due => by simp

theorem partOf_closed {node : Tree} {form : Form Tree}
    (hwords : ∀ word ∈ form.words, IsFree word.display) (h : ∀ t ∈ form.children, Matched t) :
    Ensures Bare (partOf node (form.map Tree.rendering)) IsClosed := by
  have hrefused : Ensures Bare (do
      discard ((declarationNotes (form.map Tree.rendering)).mapM (·.note))
      unsupported (.expression node.kind) : Render String) IsClosed :=
    Ensures.bind_any fun _ => Ensures.unsupported
  cases form with
  | part form =>
    cases form with
    | annotationArgument name value =>
      have hname := IsClosed.of_free (hwords name List.mem_cons_self)
      cases name with
      | null => exact slotExpr_closed h
      | _ =>
        exact (slotExpr_closed h).bind fun text htext =>
          Ensures.pure fun due => by simp [hname _, htext _]
    | parameter name type modifiers annotations isVarargs =>
      simp only [Form.children, PartForm.children, List.forall_mem_append] at h
      exact parameterText_closed (IsClosed.of_free (hwords name List.mem_cons_self)) h.1 h.2
    | _ => exact hrefused
  | expr form =>
    cases form with
    | literal => exact Ensures.unsupported
    | assign => exact Ensures.bind_any fun _ => Ensures.unsupported
    | _ => exact hrefused
  | _ => exact hrefused

theorem parametersText_closed {parameters : List Tree} (h : ∀ t ∈ parameters, Matched t) :
    Ensures Bare (parametersText (parameters.map Tree.rendering)) IsClosed :=
  (parts_closed h).bind fun _ htexts => Ensures.pure (intercalate_closed htexts)

theorem decoratorLines_closed {annotations : List Tree} (h : ∀ t ∈ annotations, Matched t) :
    Ensures Bare (decoratorLines (annotations.map Tree.rendering)) AreClosed := by
  refine indent_closed.bind fun indent hindent => (notes_closed h).bind fun notes hnotes => ?_
  exact Ensures.pure (List.forall_mem_map.2 fun note hnote => hindent.append (hnotes note hnote))

theorem annotationLines_closed {annotations : List Tree} (h : ∀ t ∈ annotations, Matched t) :
    Ensures Bare (annotationLines (annotations.map Tree.rendering)) AreClosed := by
  refine Ensures.read.bind fun scope hscope => indent_closed.bind fun indent hindent =>
    (notes_closed h).bind fun texts htexts => ?_
  refine (Ensures.ofExcept (hscope.annotations htexts)).bind fun line hline => ?_
  cases line with
  | none => exact Ensures.pure (List.forall_mem_nil _)
  | some line =>
    refine Ensures.pure ?_
    split
    · exact List.forall_mem_nil _
    · exact List.forall_mem_singleton.2 (hindent.append (hline line rfl))

theorem throwsText_closed {types : List Tree} (h : ∀ t ∈ types, Matched t) :
    Ensures Bare (throwsText ((types.map Tree.rendering).map (·.node))) IsClosed := by
  exact Ensures.read.bind fun scope hscope => (types_closed h).bind fun texts htexts =>
    Ensures.ofExcept (hscope.throws htexts)

theorem typeParametersText_closed {types : List Tree} (h : ∀ t ∈ types, Matched t) :
    Ensures Bare (ofType (typeParametersText ((types.map Tree.rendering).map (·.node)))) IsClosed := by
  refine Ensures.ofType (typeParametersText_composes composes_isClosed ?_)
  refine List.forall_mem_map.2 (List.forall_mem_map.2 fun t ht => ?_)
  rw [Tree.rendering_node]
  exact (h t ht).unbracketed.namedClosed

/-! ### Members -/

theorem linesText_closed {lines : List String} (h : AreClosed lines) : IsClosed ("\n".intercalate lines) :=
  composes_isClosed.intercalate (fun due => by simp) h

/-- Lines of annotations before a declaration. -/
theorem linesText_concat_closed {lines : List String} {last : String} (h : AreClosed lines)
    (hlast : IsClosed last) : IsClosed ("\n".intercalate (lines ++ [last])) :=
  linesText_closed (List.forall_mem_append.2 ⟨h, List.forall_mem_singleton.2 hlast⟩)

theorem fieldVariableOf_closed {node : Tree} {form : Form Tree}
    (hwords : ∀ word ∈ form.words, IsFree word.display) (h : ∀ t ∈ form.children, Matched t) :
    Ensures Bare (fieldVariableOf node (form.map Tree.rendering)) IsClosed := by
  cases form with
  | part form =>
    cases form with
    | declarator name dimensions initial =>
      have hname := IsClosed.of_free (hwords name List.mem_cons_self)
      refine Ensures.read.bind fun scope _ =>
        (typedVariable_closed hname dimensions).bind fun code hcode => ?_
      cases initial with
      | none => exact Ensures.pure hcode
      | some t =>
        refine Ensures.ite (fun _ => Ensures.bind_any fun _ => Ensures.pure hcode) fun _ => ?_
        exact (h t List.mem_cons_self).expr.bind fun text htext =>
          Ensures.pure fun due => by simp [hcode _, htext _]
    | _ => exact noVariable_closed node
  | _ => exact noVariable_closed node

theorem fieldText_closed {type : Option Tree} {bindings annotations : List Tree}
    {modifiers : List Modifier} (htype : ∀ t ∈ type.toList, Matched t)
    (hbindings : ∀ t ∈ bindings, Matched t) (hannotations : ∀ t ∈ annotations, Matched t) :
    Ensures Bare (fieldText (slotNode (type.map Tree.rendering)) (bindings.map Tree.rendering)
      modifiers (annotations.map Tree.rendering)) IsClosed := by
  refine Ensures.read.bind fun scope _ => indent_closed.bind fun indent hindent =>
    (decoratorLines_closed hannotations).bind fun decorators hdecorators => ?_
  refine Ensures.bind (declaring_bare htype (Ensures.mapM (List.forall_mem_map.2 fun t ht =>
    (hbindings t ht).fieldVariable))) fun texts htexts => Ensures.pure (linesText_closed ?_)
  refine List.forall_mem_append.2 ⟨hdecorators, List.forall_mem_map.2 fun text htext => ?_⟩
  refine ((hindent.append (IsClosed.ite ?_ (renderAll_closed _ _ _ _))).append
    (htexts text htext)).append fun due => by simp
  exact composes_isClosed.fixed "" (by simp)

theorem methodText_closed {node : Tree} {name : Word} {returnType : Option Tree}
    {parameters throws : List Tree} {body : Option Tree} {modifiers : List Modifier}
    {annotations typeParameters : List Tree} (hname : IsClosed name.display)
    (hreturn : ∀ t ∈ returnType.toList, Matched t) (hparameters : ∀ t ∈ parameters, Matched t)
    (hthrows : ∀ t ∈ throws, Matched t) (hbody : ∀ t ∈ body.toList, Matched t)
    (hannotations : ∀ t ∈ annotations, Matched t) (htypes : ∀ t ∈ typeParameters, Matched t) :
    Ensures Bare (methodText node name (slotNode (returnType.map Tree.rendering))
      (parameters.map Tree.rendering) ((throws.map Tree.rendering).map (·.node))
      (body.map Tree.rendering) modifiers (annotations.map Tree.rendering)
      ((typeParameters.map Tree.rendering).map (·.node))) IsClosed := by
  have hempty : IsClosed "" := composes_isClosed.fixed "" (by simp)
  have hnotes : Ensures Bare (annotationLines ((annotations.map Tree.rendering).filter
      (·.node.annotationName ≠ "Override"))) AreClosed := by
    rw [Tree.filter_map_rendering (fun t => t.annotationName ≠ "Override")]
    exact annotationLines_closed fun t ht => hannotations t (List.mem_filter.1 ht).1
  refine Ensures.read.bind fun scope _ => indent_closed.bind fun indent hindent =>
    hnotes.bind fun notes hnotes => (typeParametersText_closed htypes).bind fun types htypes =>
    (parametersText_closed hparameters).bind fun parameters hparameters =>
    (Ensures.ofType (slotTypeText_composes composes_isClosed (named_slotNode hreturn))).bind
    fun returnType hreturn => (throwsText_closed hthrows).bind fun throws hthrows => ?_
  have hwords : IsClosed ((if scope.isInterface then "" else Modifier.renderAll modifiers .method)
      ++ (if isOverride (annotations.map Tree.rendering) && scope.classExtends
        && !name.isText "toString" then "override " else "")) :=
    (hempty.ite (renderAll_closed _ _ _ _)).append (IsClosed.ite (fun due => by simp) hempty)
  have hsignature {words more : String} (hwords : IsClosed words) (hmore : IsClosed more) :
      IsClosed (indent ++ words ++ name.display ++ types ++ "(" ++ parameters ++ "): " ++ returnType
        ++ throws ++ more) := by
    intro due
    simp [hindent _, hwords _, hname _, htypes _, hparameters _, hreturn _, hthrows _, hmore _]
  have hsemicolon : IsClosed ";" := fun due => by simp
  have habstract := hsignature hwords hsemicolon
  cases body with
  | none => exact Ensures.pure (linesText_concat_closed hnotes habstract)
  | some t =>
    refine Ensures.ite (fun _ => Ensures.bind_any fun _ =>
      Ensures.pure (linesText_concat_closed hnotes habstract)) fun _ => ?_
    refine (inBody_bare ((hbody t (by simp)).block true)).bind fun block hblock =>
      Ensures.pure (linesText_concat_closed hnotes ?_)
    rw [String.append_assoc]
    exact hsignature hwords fun due => by simp [hblock _]

theorem constructorText_closed {parameters throws : List Tree} {body : Option Tree}
    {modifiers : List Modifier} {annotations : List Tree} (hparameters : ∀ t ∈ parameters, Matched t)
    (hthrows : ∀ t ∈ throws, Matched t) (hbody : ∀ t ∈ body.toList, Matched t)
    (hannotations : ∀ t ∈ annotations, Matched t) :
    Ensures Bare (constructorText (parameters.map Tree.rendering)
      ((throws.map Tree.rendering).map (·.node)) (body.map Tree.rendering) modifiers
      (annotations.map Tree.rendering)) IsClosed := by
  refine indent_closed.bind fun indent hindent =>
    (decoratorLines_closed hannotations).bind fun decorators hdecorators =>
    (parametersText_closed hparameters).bind fun parameters hparameters =>
    (throwsText_closed hthrows).bind fun throws hthrows =>
    (inBody_bare (slotBlock_closed hbody true)).bind fun block hblock =>
    Ensures.pure (linesText_concat_closed hdecorators fun due => ?_)
  simp [hindent _, renderAll_closed _ _ _ _ _, hparameters _, hthrows _, hblock _]

theorem memberOf_closed {node : Tree} {form : Form Tree}
    (hwords : ∀ word ∈ form.words, IsFree word.display) (h : ∀ t ∈ form.children, Matched t) :
    Ensures Bare (memberOf node (form.map Tree.rendering)) IsClosed := by
  cases form with
  | member form =>
    cases form with
    | field type bindings modifiers annotations =>
      simp only [Form.children, MemberForm.children, List.forall_mem_append] at h
      exact fieldText_closed h.1.1 h.1.2 h.2
    | method name =>
      simp only [Form.children, MemberForm.children, List.forall_mem_append] at h
      obtain ⟨⟨⟨⟨⟨hreturn, hparameters⟩, hthrows⟩, hbody⟩, hannotations⟩, htypes⟩ := h
      exact methodText_closed (IsClosed.of_free (hwords name List.mem_cons_self)) hreturn
        hparameters hthrows hbody hannotations htypes
    | constructor =>
      simp only [Form.children, MemberForm.children, List.forall_mem_append] at h
      obtain ⟨⟨⟨⟨hparameters, hthrows⟩, hbody⟩, hannotations⟩, -⟩ := h
      exact constructorText_closed hparameters hthrows hbody hannotations
    | initializer body isStatic =>
      refine Ensures.read.bind fun _ _ => indent_closed.bind fun indent hindent =>
        Ensures.ite (fun _ => Ensures.stop_bind) fun _ => ?_
      exact (inBody_bare (slotBlock_closed h true)).bind fun block hblock =>
        Ensures.pure fun due => by simp [hindent _, hblock _]
    | _ => exact Ensures.unsupported
  | _ => exact Ensures.unsupported

/-! ### Types -/

theorem joinMembers_closed {previous : Option Bool} {chunks : List (Bool × String)}
    (h : ∀ chunk ∈ chunks, IsClosed chunk.2) : IsClosed (joinMembers previous chunks) := by
  induction chunks generalizing previous with
  | nil => exact composes_isClosed.fixed "" (by simp)
  | cons first rest ih =>
    rw [List.forall_mem_cons] at h
    obtain ⟨isField, chunk⟩ := first
    simp only [joinMembers]
    split
    · exact ih h.2
    · refine (IsClosed.append (fun due => ?_) h.1).append (ih h.2)
      split
      · simp
      · split <;> simp

theorem membersText_closed {node : Tree} (hnode : node.Unbracketed) {members : List Tree}
    (h : ∀ t ∈ members, Matched t) :
    Ensures Bare (membersText node (members.map Tree.rendering)) IsClosed := by
  have hchildren : ∀ child ∈ (members.map Tree.rendering).map memberChild,
      Ensures Bare child.text IsClosed := by
    refine List.forall_mem_map.2 (List.forall_mem_map.2 fun t ht => Ensures.ite (fun _ => ?_) ?_)
    · exact Ensures.pure (composes_isClosed.fixed "" (by simp))
    · refine fun _ => (h t ht).member.bind fun text htext => ?_
      rw [Tree.rendering_node]
      exact withComment_closed (h t ht).unbracketed.self htext
  refine indent_closed.bind fun indent hindent =>
    (indented_bare (childChunks_closed hnode hchildren)).bind fun chunks hchunks => Ensures.pure ?_
  have htext : IsClosed (joinMembers none (fieldFlags (members.map Tree.rendering) chunks)) :=
    joinMembers_closed fun chunk hchunk => hchunks _ (List.of_mem_zip hchunk).2
  intro due
  split <;> simp [htext _, hindent _]

theorem parentsText_closed {keyword : String} (hkeyword : IsClosed keyword) {types : List Tree}
    (h : ∀ t ∈ types, Matched t) :
    Ensures Bare (parentsText keyword ((types.map Tree.rendering).map (·.node))) IsClosed := by
  refine Ensures.ite (fun _ => Ensures.pure (composes_isClosed.fixed "" (by simp))) fun _ => ?_
  refine (types_closed h).bind fun texts htexts => Ensures.pure fun due => ?_
  simp [-String.toList_intercalate, hkeyword _, intercalate_closed htexts _]

theorem classText_closed {node : Tree} (hnode : node.Unbracketed) {name : Word}
    (hname : IsClosed name.display) {modifiers : List Modifier}
    {annotations typeParameters parents interfaces members : List Tree} {isInterface : Bool}
    (hannotations : ∀ t ∈ annotations, Matched t) (htypes : ∀ t ∈ typeParameters, Matched t)
    (hparents : ∀ t ∈ parents, Matched t) (hinterfaces : ∀ t ∈ interfaces, Matched t)
    (hmembers : ∀ t ∈ members, Matched t) :
    Ensures Bare (classText node name modifiers (annotations.map Tree.rendering)
      ((typeParameters.map Tree.rendering).map (·.node)) ((parents.map Tree.rendering).map (·.node))
      ((interfaces.map Tree.rendering).map (·.node)) (members.map Tree.rendering) isInterface)
      IsClosed := by
  have hbody (classExtends : Bool) : Ensures Bare (inType name classExtends isInterface
      (membersText node (members.map Tree.rendering))) IsClosed :=
    (membersText_closed hnode hmembers).withReader fun _ hscope => { hscope with }
  refine Ensures.read.bind fun scope _ => indent_closed.bind fun indent hindent =>
    (decoratorLines_closed hannotations).bind fun decorators hdecorators =>
    (typeParametersText_closed htypes).bind fun types htypes =>
    (parentsText_closed (fun due => by simp) hparents).bind fun parents hparents =>
    (parentsText_closed (fun due => by simp) hinterfaces).bind fun interfaces hinterfaces =>
    (hbody _).bind fun text htext => Ensures.pure (linesText_concat_closed hdecorators fun due => ?_)
  cases isInterface <;> simp [hindent _, renderAll_closed _ _ _ _ _, hname _, htypes _,
    hparents _, hinterfaces _, htext _]

theorem enumText_closed {node : Tree} (hnode : node.Unbracketed) {name : Word}
    (hname : IsClosed name.display) {modifiers : List Modifier}
    {annotations constants : List Tree} {interfaces : List Tree} {members : List Rendering}
    (hannotations : ∀ t ∈ annotations, Matched t) (hconstants : ∀ t ∈ constants, Matched t) :
    Ensures Bare (enumText node name modifiers (annotations.map Tree.rendering) interfaces
      (constants.map Tree.rendering) members) IsClosed := by
  have hchildren : ∀ child ∈ (constants.map Tree.rendering).map constantChild,
      Ensures Bare child.text IsClosed := by
    refine List.forall_mem_map.2 (List.forall_mem_map.2 fun t ht => ?_)
    have hself := (hconstants t ht).unbracketed.self
    have hwords := hself.words
    simp only [constantChild, Tree.rendering_node]
    split
    · rename_i constant _ _ _ hform
      rw [hform] at hwords
      have hconstant := IsClosed.of_free (hwords constant List.mem_cons_self)
      exact indent_closed.bind fun indent hindent =>
        withComment_closed hself fun due => by simp [hindent _, hconstant _]
    · exact Ensures.unsupported
  refine Ensures.read.bind fun scope _ => indent_closed.bind fun indent hindent =>
    Ensures.ite (fun _ => Ensures.stop_bind) fun _ => ?_
  split
  · exact Ensures.stop_bind
  · refine Ensures.bind_any fun _ => (annotationLines_closed hannotations).bind fun notes hnotes =>
      (indented_bare (childChunks_closed hnode hchildren)).bind fun chunks hchunks => ?_
    refine Ensures.ite (fun _ => ?_) fun _ => ?_
    · refine Ensures.pure (linesText_concat_closed hnotes fun due => ?_)
      simp [hindent _, renderAll_closed _ _ _ _ _, hname _]
    · rw [List.append_assoc notes]
      refine Ensures.pure (IsClosed.below hnotes (IsClosed.between hchunks fun due => ?_))
      simp [hindent _, renderAll_closed _ _ _ _ _, hname _]

theorem hoisted_closed {outer : Word} {members : List Tree} (h : ∀ t ∈ members, Matched t) :
    Ensures Bare (hoisted outer (members.map Tree.rendering)) AreClosed := by
  refine Ensures.mapM fun r hr => Ensures.bind_any fun _ => ?_
  obtain ⟨t, ht, rfl⟩ := List.mem_map.1 (List.mem_filter.1 hr).1
  exact (h t ht).typeDeclaration

theorem typeDeclarationOf_closed {node : Tree} (hnode : node.Unbracketed)
    (h : ∀ t ∈ node.form.children, Matched t) :
    Ensures Bare (typeDeclarationOf node (node.form.map Tree.rendering)) IsClosed := by
  have hwords := hnode.words
  cases hform : node.form with
  | member form =>
    rw [hform] at h hwords
    cases form with
    | classType name modifiers annotations typeParameters parents interfaces members isInterface =>
      simp only [Form.children, MemberForm.children, List.forall_mem_append] at h
      obtain ⟨⟨⟨⟨hannotations, htypes⟩, hparents⟩, hinterfaces⟩, hmembers⟩ := h
      have hname := IsClosed.of_free (hwords name List.mem_cons_self)
      refine (classText_closed hnode hname hannotations htypes hparents hinterfaces hmembers).bind
        fun text htext => (withComment_closed hnode htext).bind fun text htext =>
        (hoisted_closed hmembers).bind fun nested hnested => Ensures.pure ?_
      exact composes_isClosed.intercalate (fun due => by simp)
        (List.forall_mem_cons.2 ⟨htext, hnested⟩)
    | enumType name modifiers annotations interfaces constants members =>
      simp only [Form.children, MemberForm.children, List.forall_mem_append] at h
      have hname := IsClosed.of_free (hwords name List.mem_cons_self)
      exact (enumText_closed hnode hname h.1.1.1 h.1.2).bind fun text htext =>
        withComment_closed hnode htext
    | _ => exact Ensures.unsupported
  | _ => exact Ensures.unsupported

/-! ### Units -/

theorem importLine_closed {symbol moduleName : String} (hsymbol : IsClosed symbol)
    (hmodule : IsClosed moduleName) (isAsterisk : Bool) :
    IsClosed (importLine symbol moduleName isAsterisk) := by
  intro due
  cases isAsterisk <;> simp [importLine, hsymbol _, hmodule _]

theorem renderImport_closed {decl : ImportName} (h : IsFree decl.text) :
    Yields (some <$> renderImport .null decl) fun line => ∀ text ∈ line, IsClosed text := by
  obtain ⟨symbol, moduleName, hrender, hsymbol, hmodule⟩ := renderImport_null decl
  rw [hrender]
  refine Yields.pure fun line hline => ?_
  obtain rfl := Option.some.inj hline
  refine importLine_closed ?_ ?_ _
  · exact IsClosed.of_free (h.of_mem fun c hc => .inl (hsymbol c hc))
  · refine IsClosed.of_free (h.of_mem fun c hc => (hmodule c hc).imp_right fun hmem => ?_)
    simp only [List.mem_cons, List.not_mem_nil, or_false] at hmem
    rcases hmem with rfl | rfl | rfl <;> rfl

theorem headLine_closed {node : Tree} (hnode : node.Unbracketed) {line : Option String}
    (h : ∀ text ∈ line, IsClosed text) : Ensures Bare (headLine node line) IsClosed := by
  have honly : Ensures Bare (headLine.commentOnly node) IsClosed := by
    unfold headLine.commentOnly
    rw [hnode.comment]
    exact Ensures.pure (composes_isClosed.fixed "" (by simp))
  cases line with
  | none => exact honly
  | some line => exact Ensures.ite (fun _ => honly) fun _ => withComment_closed hnode (h line rfl)

theorem topLevelOf_closed {node : Tree} (hnode : node.Unbracketed) {typeDeclaration : Render String}
    (h : Ensures Bare typeDeclaration IsClosed) :
    Ensures Bare (topLevelOf node typeDeclaration (node.form.map Tree.rendering)) IsClosed := by
  have hwords := hnode.words
  cases hform : node.form with
  | part form =>
    rw [hform] at hwords
    cases form with
    | package name annotations =>
      refine Ensures.read.bind fun scope hscope => ?_
      rw [hscope.package]
      exact Ensures.bind (P := (· = none)) (Ensures.pure rfl) fun line hline =>
        headLine_closed hnode (by rw [hline]; exact nofun)
    | importing decl =>
      refine Ensures.read.bind fun scope hscope => ?_
      rw [hscope.imports]
      exact (Ensures.ofExcept (renderImport_closed (hwords decl.name List.mem_cons_self))).bind
        fun line hline => headLine_closed hnode hline
    | _ => exact h
  | _ => exact h

/-- A tree without brackets in its words and without comments is written with its brackets in
pairs. -/
theorem matched_of_unbracketed {t : Tree} (h : t.Everywhere Tree.Unbracketed) : Matched t := by
  induction t using Tree.induct with
  | step trivia form ih =>
    have hnode := h.self
    have hwords : ∀ word ∈ (Tree.node trivia form).form.words, IsFree word.display := hnode.words
    replace ih : ∀ child ∈ (Tree.node trivia form).form.children, Matched child :=
      fun child hchild => ih child hchild (h.child hchild)
    have hlines {before : List Child}
        (hbefore : ∀ child ∈ before, Ensures Bare child.text IsClosed) :
        Ensures Bare ((Tree.node trivia form).rendering.lines before) AreClosed := by
      rw [Tree.rendering_lines]
      exact linesOf_closed hnode ih hbefore
    have hdeclaration (isResource : Bool) :
        Ensures Bare ((Tree.node trivia form).rendering.declaration isResource) IsClosed := by
      rw [Tree.rendering_declaration]
      exact declarationOf_closed ih isResource
    have htype : Ensures Bare (Tree.node trivia form).rendering.typeDeclaration IsClosed := by
      rw [Tree.rendering_typeDeclaration]
      exact typeDeclarationOf_closed hnode ih
    exact {
      unbracketed := h
      expr := by
        rw [Tree.rendering_expr]
        exact exprOf_closed hwords ih
      note := by
        rw [Tree.rendering_note]
        exact annotationOf_closed hwords ih
      part := by
        rw [Tree.rendering_part]
        exact partOf_closed hwords ih
      localVariable := by
        rw [Tree.rendering_localVariable]
        exact localVariableOf_closed hwords ih
      fieldVariable := by
        rw [Tree.rendering_fieldVariable]
        exact fieldVariableOf_closed hwords ih
      declaration := hdeclaration
      bareStmt := by
        rw [Tree.rendering_bareStmt]
        exact bareStmtOf_closed (hdeclaration false) (block_closed false (hlines nofun)) hwords ih
      lines := hlines
      caseLines := by
        rw [Tree.rendering_caseLines]
        exact caseLinesOf_closed ih
      member := by
        rw [Tree.rendering_member]
        exact memberOf_closed hwords ih
      typeDeclaration := htype
      topLevel := by
        rw [Tree.rendering_topLevel]
        exact topLevelOf_closed hnode htype }

theorem unit_closed {t : Tree} (h : t.Everywhere Tree.Unbracketed) :
    Ensures Bare t.rendering.unit IsClosed := by
  have hchildren : ∀ child ∈ t.form.children, Matched child :=
    fun child hchild => matched_of_unbracketed (h.child hchild)
  rw [t.rendering_unit]
  cases hform : t.form with
  | part form =>
    cases form with
    | unit header imports types =>
      rw [hform] at hchildren
      simp only [unitOf, Form.map, PartForm.map]
      rw [Tree.map_rendering_unit]
      refine (childChunks_closed h.self (List.forall_mem_map.2 (List.forall_mem_map.2
        fun t ht => (hchildren t ht).topLevel))).bind fun chunks hchunks => Ensures.pure ?_
      -- A chunk is closed in whichever of the two halves it is written.
      have hhead (n : Nat) : IsClosed ("\n".intercalate ((chunks.take n).filter (· ≠ ""))) :=
        linesText_closed fun chunk hchunk =>
          hchunks chunk (List.mem_of_mem_take (List.mem_filter.1 hchunk).1)
      have hbody (n : Nat) : IsClosed ("\n\n".intercalate ((chunks.drop n).filter (· ≠ ""))) :=
        composes_isClosed.intercalate (fun due => by simp) fun chunk hchunk =>
          hchunks chunk (List.mem_of_mem_drop (List.mem_filter.1 hchunk).1)
      refine (((hhead _).append fun due => ?_).append (hbody _)).append fun due => by simp
      split <;> simp
    | _ => exact Ensures.unsupported
  | _ => exact Ensures.unsupported

theorem throwsSuffix_closed (c : Config) {types : List String} (h : AreClosed types) :
    Yields ((Hooks.ofConfig c).throwsSuffix types) IsClosed := by
  unfold Hooks.throwsSuffix
  split
  · exact Yields.pure (composes_isClosed.fixed "" (by simp))
  · refine Yields.pure fun due => ?_
    split <;> simp [-String.toList_intercalate, intercalate_closed h _]

theorem annotationsLine_closed (c : Config) {texts : List String} (h : AreClosed texts) :
    Yields ((Hooks.ofConfig c).annotationsLine texts) fun line => ∀ text ∈ line, IsClosed text := by
  unfold Hooks.annotationsLine
  split
  · exact Yields.pure nofun
  · simp only [Hooks.ofConfig]
    split
    · exact Yields.error
    · refine Yields.pure fun line hline due => ?_
      obtain rfl := Option.some.inj hline
      simp [-String.toList_intercalate, intercalate_closed h _]
    · exact Yields.pure nofun

/-- The brackets in the text of a unit are balanced and properly nested, if its words have none of
their own, it holds no comments, and no template is set. -/
theorem nested_renderUnit {scope : Scope} {c : Config} {unit : Tree} {file text : String}
    (hindent : IsFree scope.unitIndent) (hhooks : scope.hooks = .ofConfig c)
    (hpackage : c.packageTemplate = .null) (himport : c.unknownImportTemplate = .null)
    (hunit : unit.Everywhere Tree.Unbracketed) (hok : (renderUnit scope unit file).result = .ok text) :
    Nested (text.toList.filter isBracket) :=
  have hbare : Bare (scope.forFile file) :=
    { unitIndent := hindent
      package := hhooks ▸ Hooks.onPackage_ofConfig hpackage
      imports := hhooks ▸ Hooks.onImport_ofConfig himport
      throws := hhooks ▸ throwsSuffix_closed c
      annotations := hhooks ▸ annotationsLine_closed c
      declared := fun _ hnone => nomatch hnone }
  ((unit_closed hunit).of_runIn hbare hok).nested

/-- A method that makes an array of arrays in a `try` with a handler for one type. -/
def gridUnit : Tree :=
  let block (statements : List Tree) : Tree := .node {} (.stmt (.block statements))
  let named (name : String) : Tree := .node {} (.type (.named (.text name) none none false))
  let size (value : String) : Option Tree := some (.node {} (.expr (.literal (.text value))))
  let grid : Tree := .node {} (.expr (.arrayCreate (some (named "Cell")) [size "2", size "3"] none))
  let handler : Tree := .node {} (.part (.catchClause
    (some (.node {} (.part (.parameter (.text "e") (some (named "Full")) [] [] false))))
    (some (block []))))
  let attempt : Tree := .node {} (.stmt (.tryCatch
    (some (block [.node {} (.stmt (.returning (some grid)))])) [] [handler] none))
  let method : Tree := .node {} (.member (.method (.text "cells")
    (some (.node {} (.type (.array (some (named "Cell")) 2)))) [] [] (some (block [attempt]))
    [] [] []))
  .node {} (.part (.unit none []
    [.node {} (.member (.classType (.text "Grid") [] [] [] [] [] [method] false))]))

theorem nested_renderUnit_gridUnit : ∃ text,
    (renderUnit {} gridUnit "").result = .ok text ∧
      text.toList.filter isBracket =
        "\x7b()[][]\x7b\x7b(\x7b\x7d()())\x7d()\x7b()\x7b\x7d\x7b\x7d\x7d\x7d\x7d".toList ∧
      Nested (text.toList.filter isBracket) := by
  have hok : (renderUnit {} gridUnit "").result = .ok
      ("class Grid \x7b\n  cells(): Cell[][] \x7b\n    try \x7b\n"
        ++ "      return Array.from(\x7blength: 2\x7d, () => new Array<Cell>(3));\n"
        ++ "    \x7d catch (e) \x7b\n      if (e instanceof Full) \x7b\n      \x7d else \x7b\n"
        ++ "        throw e;\n      \x7d\n    \x7d\n  \x7d\n\x7d\n") := by
    decide +kernel
  have hunit : gridUnit.Everywhere Tree.Unbracketed := by decide +kernel
  exact ⟨_, hok, by decide +kernel,
    nested_renderUnit (by decide) Hooks.ofConfig_default.symm rfl rfl hunit hok⟩

end Recast.Render
